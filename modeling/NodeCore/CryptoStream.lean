import NodeCore.Reentrant
import NodeCore.SlabBuffer

/-!
The two streams of a secure pair: `CryptoStream`, and `maybeInitFinished` of the pair.

A call of the SSL object has the object's answer. Listeners, callbacks and the machinery of the
streams, which calls `_read` and `_write`, are foreign code: while it runs it may read from and
write to the streams of any pair, or destroy a pair. The functions do not look at the data of a
write beyond its length, and the callback of a write is there whenever the data is.
-/

namespace NodeCore.CryptoStream

open NodeCore.Reentrant NodeCore.SlabBuffer

inductive Side
  | cleartext | encrypted
  deriving DecidableEq

def Side.opposite : Side → Side
  | .cleartext => .encrypted
  | .encrypted => .cleartext

/-- A stream by the number of its pair. -/
structure Stream where
  pair : ℕ
  side : Side
  deriving DecidableEq

def Stream.opposite (s : Stream) : Stream := ⟨s.pair, s.side.opposite⟩

/-! ### State -/

structure Pair where
  /-- `ssl !== null`. -/
  ssl : Bool
  secureEstablished : Bool

/-- The fields of a stream. `reading` is that of its `_readableState`; the field `_reading` is
`started`. -/
structure Fields where
  pending : Option (List UInt8)
  sslOutCb : Bool
  retryAfterPartial : Bool
  halfRead : Bool
  resumingSession : Bool
  started : Bool
  reading : Bool

/-- A slice that a read has given to `push`. -/
structure Pushed where
  pool : ℕ
  start : ℕ
  stop : ℕ
  id : ℕ

/-- `reads` is the number of reads so far, `log` has the bytes that the SSL objects have written
for them, and `pushed` what they have pushed. -/
structure St where
  slab : SlabBuffer
  pairs : ℕ → Pair
  streams : Stream → Fields
  reads : ℕ
  log : List (ℕ × UInt8)
  pushed : List Pushed

namespace St

def setPair (st : St) (p : ℕ) (x : Pair) : St := { st with pairs := Function.update st.pairs p x }

def setStream (st : St) (s : Stream) (x : Fields) : St :=
  { st with streams := Function.update st.streams s x }

/-- `SecurePair.prototype.destroy`. -/
def destroy (st : St) (p : ℕ) : St := st.setPair p { st.pairs p with ssl := false }

end St

/-- What the SSL object answers, as far as a step asks it. -/
structure Answer where
  /-- The bytes that `clearOut` or `encOut` has; with none it returns zero or less. -/
  out : List UInt8
  /-- What `clearIn` or `encIn` returns; `none` is -1. -/
  written : Option ℕ
  /-- `ssl.error` is set. -/
  error : Bool
  /-- The error is that a client of a server that rejects the unauthorized has no certificate. -/
  noCertificate : Bool
  /-- `ssl.isInitFinished()`. -/
  initFinished : Bool
  /-- `_internallyPendingBytes()`, while there is an SSL object. -/
  pendingBytes : ℕ
  /-- There is an `ondata`. -/
  ondata : Bool

/-! ### Functions -/

/-- The variables of `_read` in its loop. Not in the source are its number and the pool that
`start` is an offset of. -/
structure Reading where
  stream : Stream
  size : ℕ
  bytesRead : ℕ
  start : ℕ
  id : ℕ
  pool : ℕ

/-- Where a function goes on. -/
inductive Frame
  | foreign
  | read (s : Stream) (size : ℕ)
  /-- At the test of the loop; `read` is what `use` has returned. -/
  | looped (r : Reading) (read : ℕ)
  /-- Out of the loop after an error. -/
  | broken (r : Reading)
  | flush (s : Stream)
  | ondata (s : Stream) (p : Pushed)
  | push (s : Stream) (p : Pushed)
  | tail (s : Stream)
  /-- `push(null)` or an empty string, and nothing else. -/
  | bail (s : Stream)
  | write (s : Stream) (data : List UInt8)
  /-- After `cleartext.read(0)`. -/
  | cycled (s : Stream) (data : List UInt8) (written : Option ℕ)
  /-- After `encrypted.read(0)`. -/
  | flushed (s : Stream) (data : List UInt8) (written : Option ℕ)
  /-- After `maybeInitFinished()`. -/
  | wrote (s : Stream) (data : List UInt8) (written : Option ℕ)
  | retried (s : Stream)
  | queue (s : Stream) (data : List UInt8)

/-- `SecurePair.prototype.maybeInitFinished`; the frame is for the listeners of `secure`. -/
def maybeInitFinished (st : St) (p : ℕ) (a : Answer) : St × List Frame :=
  if (st.pairs p).ssl && !(st.pairs p).secureEstablished && a.initFinished then
    (st.setPair p { st.pairs p with secureEstablished := true }, [.foreign])
  else (st, [])

/-- `SecurePair.prototype.error`, less the event. -/
def error (st : St) (p : ℕ) (a : Answer) : St :=
  if !(st.pairs p).secureEstablished || a.noCertificate then st.destroy p else st

def internallyPendingBytes (st : St) (s : Stream) (a : Answer) : ℕ :=
  if (st.pairs s.pair).ssl then a.pendingBytes else 0

/-- `bytesRead += read; size -= read`. -/
def Reading.add (r : Reading) (read : ℕ) : Reading :=
  { r with size := r.size - read, bytesRead := r.bytesRead + read }

/-- The body of the loop of `_read`. -/
def round (st : St) (r : Reading) (a : Answer) : St × List Frame :=
  let b := st.slab.given r.size a.out
  let st :=
    { st with slab := st.slab.use r.id r.size a.out, log := st.log ++ b.map (Prod.mk r.id) }
  if (st.pairs r.stream.pair).ssl && a.error then
    (error st r.stream.pair a, [.foreign, .broken (r.add b.length)])
  else
    let (st, fs) := maybeInitFinished st r.stream.pair a
    (st, fs ++ [.looped (r.add b.length) b.length])

/-- The test of the loop. -/
def continues (st : St) (r : Reading) (read : ℕ) : Bool :=
  read > 0 && !st.slab.isFull && r.bytesRead < r.size

/-- What follows the loop of `_read`. -/
def leave (st : St) (r : Reading) : St × List Frame :=
  ({ st with slab := if st.slab.isFull then st.slab.create else st.slab },
    [.flush r.stream, .flush r.stream.opposite,
      .ondata r.stream ⟨st.slab.pool, r.start, r.start + r.bytesRead, r.id⟩])

/-- The code up to the next call of foreign code or of the SSL object; `none` where it throws. -/
def exec (st : St) (a : Answer) : Frame → Option (St × List Frame)
  | .foreign => none
  | .read s size =>
    if !(st.pairs s.pair).ssl || (st.streams s).resumingSession || !(st.streams s).started then
      some (st, [.bail s])
    else
      some (round { st with reads := st.reads + 1 }
        ⟨s, size, 0, st.slab.offset, st.reads, st.slab.pool⟩ a)
  | .looped r read =>
    if continues st r read then
      -- a listener may have destroyed the pair, and then there is no object to call
      if (st.pairs r.stream.pair).ssl || st.slab.remaining = 0 then some (round st r a) else none
    else some (leave st r)
  | .broken r => some (leave st r)
  | .flush s =>
    match (st.streams s).pending with
    | none => some (st, [])
    | some data => some (st.setStream s { st.streams s with pending := none }, [.write s data])
  | .ondata s p =>
    if p.start < p.stop && a.ondata then some (st, [.foreign, .push s p])
    else some (st, [.push s p])
  | .push s p =>
    let st := st.setStream s { st.streams s with reading := false }
    -- the end of the stream or the empty string where there is nothing
    if p.start < p.stop then some ({ st with pushed := st.pushed ++ [p] }, [.foreign, .tail s])
    else some (st, [.foreign, .tail s])
  | .bail s => some (st.setStream s { st.streams s with reading := false }, [.foreign])
  | .tail s =>
    let halfRead := decide (internallyPendingBytes st s a ≠ 0)
    let changed := (st.streams s).halfRead != halfRead
    let st := st.setStream s { st.streams s with halfRead }
    if changed && !halfRead then
      -- `sslOutEnd`: the callback of the other stream
      let o := s.opposite
      some (st.setStream o { st.streams o with sslOutCb := false }, [.foreign])
    else some (st, [])
  | .write s data =>
    if (st.streams s).pending.isSome then none
    else if !(st.pairs s.pair).ssl then some (st, [.foreign])
    else if !(st.streams s).resumingSession &&
        internallyPendingBytes st s.opposite a < 128 * 1024 then
      if a.error then some (error st s.pair a, [.foreign])
      else some (st, [.foreign, .cycled s data a.written])
    else some (st, [.foreign, .queue s data])
  | .cycled s data written =>
    if internallyPendingBytes st ⟨s.pair, .encrypted⟩ a ≠ 0 then
      some (st, [.foreign, .flushed s data written])
    else some (st, [.flushed s data written])
  | .flushed s data written =>
    let (st, fs) := maybeInitFinished st s.pair a
    some (st, fs ++ [.wrote s data written])
  | .wrote s data written =>
    match written with
    | some n =>
      if n = data.length then
        if (st.streams s.opposite).halfRead then
          if (st.streams s).sslOutCb then none
          else some (st.setStream s { st.streams s with sslOutCb := true }, [])
        else some (st, [.foreign])
      else if n ≠ 0 then
        if (st.streams s).retryAfterPartial then none
        else
          some (st.setStream s { st.streams s with retryAfterPartial := true },
            [.write s (data.drop n), .retried s])
      else some (st, [.queue s data])
    | none => some (st, [.queue s data])
  | .retried s => some (st.setStream s { st.streams s with retryAfterPartial := false }, [])
  | .queue s data => some (st.setStream s { st.streams s with pending := some data }, [])

/-! ### Runs -/

inductive Act
  /-- Foreign code reads: the stream calls `_read`, unless it is in a call of it. -/
  | read (s : Stream) (size : ℕ)
  | write (s : Stream) (data : List UInt8)
  | destroy (pair : ℕ)
  /-- The flags `_resumingSession` and `_reading` are set. -/
  | flags (s : Stream) (resumingSession started : Bool)
  /-- Foreign code returns. -/
  | ret
  /-- The code goes on. -/
  | go (a : Answer)

abbrev State := Machine St Frame

/-- Foreign code is running. -/
def outside (m : State) : Bool :=
  match m.stack with
  | [] | .foreign :: _ => true
  | _ => false

def step (m : State) : Act → Option State
  | .read s size =>
    if outside m && !(m.st.streams s).reading then
      some ⟨m.st.setStream s { m.st.streams s with reading := true }, .read s size :: m.stack⟩
    else none
  | .write s data => if outside m then some ⟨m.st, .write s data :: m.stack⟩ else none
  | .destroy p => if outside m then some ⟨m.st.destroy p, m.stack⟩ else none
  | .flags s resumingSession started =>
    if outside m then
      some ⟨m.st.setStream s { m.st.streams s with resumingSession, started }, m.stack⟩
    else none
  | .ret =>
    match m.stack with
    | .foreign :: k => some ⟨m.st, k⟩
    | _ => none
  | .go a =>
    match m.stack with
    | [] => none
    | f :: k => (exec m.st a f).map fun r => ⟨r.1, r.2 ++ k⟩

/-- Where a read takes bytes in a further round of its loop, the slab is as it has left it: no read
that ran in between has taken any. Where it leaves the loop with bytes, the pool is the one that
they are in. -/
def undisturbed (m : State) : Act → Bool
  | .go a =>
    match m.stack with
    | .looped r read :: _ =>
      if continues m.st r read then
        m.st.slab.given r.size a.out = [] ||
          m.st.slab.pool = r.pool && m.st.slab.offset = r.start + r.bytesRead
      else r.bytesRead = 0 || m.st.slab.pool = r.pool
    | .broken r :: _ => r.bytesRead = 0 || m.st.slab.pool = r.pool
    | _ => true
  | _ => true

/-- Pairs that have just been made. -/
def init (length : ℕ) : State :=
  ⟨⟨.new length, fun _ => ⟨true, false⟩, fun _ => ⟨none, false, false, false, false, true, false⟩,
    0, [], []⟩, []⟩

/-! ### The bytes of a read -/

/-- The bytes that were written for a read. -/
def written (st : St) (id : ℕ) : List UInt8 := (st.log.filter (·.1 = id)).map Prod.snd

/-- The read that a frame belongs to. -/
def Frame.id : Frame → Option ℕ
  | .looped r _ | .broken r => some r.id
  | .ondata _ p | .push _ p => some p.id
  | _ => none

/-- The reads push what was written for them: each slice has the bytes of its read in their order
and no others, and a read that is over has pushed what there was, once. -/
structure Exact (m : State) : Prop where
  slices : ∀ p ∈ m.st.pushed,
    m.st.slab.slice p.pool p.start p.stop = cells p.id (written m.st p.id)
  once : (m.st.pushed.map Pushed.id).Nodup
  all : ∀ id, (∀ f ∈ m.stack, f.id ≠ some id) → written m.st id ≠ [] →
    ∃ p ∈ m.st.pushed, p.id = id

end NodeCore.CryptoStream
