import NodeCore.Encoding
import NodeCore.Reentrant

/-!
`Readable` in byte mode: the state of a readable stream and everything that changes it.

Foreign code runs inside `_read`, in handlers of `'readable'`, `'end'` and `'error'`, and
outside of the stream; it may call any of the functions below wherever it runs. Handlers of
`'error'` are there, so that no event throws.
-/

namespace NodeCore.Readable

open NodeCore.Encoding NodeCore.Reentrant

/-! ### State -/

/-- What a stream makes of the Buffers that are pushed: with a decoder strings, without one
what they are. -/
structure Codec (α σ : Type) where
  start : σ
  /-- `decoder.write`, `none` where it throws. -/
  write : σ → Bytes → Option (List α) × σ
  /-- `decoder.end`. -/
  finish : σ → List α
  /-- A string as the buffer holds it. -/
  units : Str → List α
  /-- The encoding of the decoder, `none` without one. -/
  encoding : EncArg

/-- No decoder. -/
def Codec.bytes : Codec UInt8 Unit where
  start := ()
  write := fun _ b => (some b, ())
  finish := fun _ => []
  units := fun _ => []
  encoding := none

/-- The rest of a function, after foreign code it called. -/
inductive Frame
  /-- Foreign code called here. -/
  | user
  /-- In `readableAddChunk`, after `'readable'`. -/
  | addChunk
  /-- In `read(nOrig)`, after `_read`, with `n` computed before. The flag says whether the call
  had no argument and found data. -/
  | read (n : ℤ) (nOrig : Option ℤ) (found : Bool)
  /-- In the loop of `maybeReadMore_`, after a `read(0)` at this length. -/
  | readMore (len : ℤ)
  deriving DecidableEq

/-- What a `nextTick` runs. -/
inductive Tick
  | emitReadable
  | readMore
  | end
  deriving DecidableEq

structure State (α σ : Type) where
  highWaterMark : ℤ
  buffer : List (List α)
  length : ℤ
  flowing : Bool
  ended : Bool
  endEmitted : Bool
  reading : Bool
  calledRead : Bool
  sync : Bool
  needReadable : Bool
  emittedReadable : Bool
  readableListening : Bool
  readingMore : Bool
  decoder : σ
  /-- The queue of `process.nextTick`. -/
  ticks : List Tick
  /-- Everything that has been pushed, decoded. -/
  accepted : List α
  /-- Everything that `read` has returned, less what has been unshifted. -/
  taken : List α
  /-- A `read()` that found data has returned `null` or nothing. -/
  starved : Bool
  deriving DecidableEq

variable {α σ : Type} (codec : Codec α σ)

/-- `new ReadableState`. -/
def State.new (highWaterMark : ℤ) : State α σ where
  highWaterMark := highWaterMark
  buffer := []
  length := 0
  flowing := false
  ended := false
  endEmitted := false
  reading := false
  calledRead := false
  sync := true
  needReadable := false
  emittedReadable := false
  readableListening := false
  readingMore := false
  decoder := codec.start
  ticks := []
  accepted := []
  taken := []
  starved := false

/-! ### Events -/

/-- `emitReadable`: at once, or on a tick. -/
def emitReadable (s : State α σ) : Res (State α σ) Frame :=
  if s.emittedReadable then .ret { s with needReadable := false }
  else if s.sync then
    .ret { s with
      needReadable := false
      emittedReadable := true
      ticks := s.ticks ++ [.emitReadable] }
  else .call { s with needReadable := false, emittedReadable := true } []

/-- `endReadable`. Its callers have seen that nothing is buffered, so that it does not throw. -/
def endReadable (s : State α σ) : State α σ :=
  if !s.endEmitted && s.calledRead then { s with ended := true, ticks := s.ticks ++ [.end] }
  else s

/-! ### Pushing -/

def maybeReadMore (s : State α σ) : State α σ :=
  if !s.readingMore then { s with readingMore := true, ticks := s.ticks ++ [.readMore] } else s

/-- A chunk at the end of the buffer. -/
def State.append (s : State α σ) (chunk : List α) : State α σ :=
  { s with
    length := s.length + chunk.length
    buffer := s.buffer ++ [chunk]
    accepted := s.accepted ++ chunk }

/-- A chunk that `read` has returned, at the front of the buffer again. -/
def State.prepend (s : State α σ) (chunk : List α) : State α σ :=
  { s with
    length := s.length + chunk.length
    buffer := chunk :: s.buffer
    taken := s.taken.take (s.taken.length - chunk.length) }

/-- The end of `readableAddChunk`. -/
def addChunkDone (s : State α σ) : Res (State α σ) Frame := .ret (maybeReadMore s)

/-- `readableAddChunk` with the chunk in the buffer. -/
def chunkAdded (s : State α σ) : Res (State α σ) Frame :=
  (if s.needReadable then emitReadable s else .ret s).andThen .addChunk addChunkDone

def onEofChunk (s : State α σ) : Res (State α σ) Frame :=
  let chunk := codec.finish s.decoder
  let s := if chunk ≠ [] then s.append chunk else s
  let s := { s with ended := true }
  if 0 < s.length then emitReadable s else .ret (endReadable s)

/-- A chunk as `readableAddChunk` is given it by `push`. -/
inductive Item (α : Type)
  | invalid
  | null
  /-- A Buffer, for the decoder if there is one. -/
  | buf (b : Bytes)
  /-- A string in the encoding of the decoder. -/
  | units (l : List α)

def Item.length : Item α → ℕ
  | .invalid | .null => 0
  | .buf b => b.length
  | .units l => l.length

/-- What is put in the buffer, and what becomes of the decoder. -/
def Item.decode (decoder : σ) : Item α → Option (List α) × σ
  | .invalid | .null => (none, decoder)
  | .buf b => codec.write decoder b
  | .units l => (some l, decoder)

/-- `readableAddChunk` at the end of the buffer; where the decoder throws, nothing is added. -/
def readableAddChunk (s : State α σ) (item : Item α) : Res (State α σ) Frame :=
  match item with
  | .invalid => .call s []
  | .null => if s.ended then .ret { s with reading := false } else
      onEofChunk codec { s with reading := false }
  | item =>
    if item.length = 0 then .ret { s with reading := false }
    else if s.ended then .call s []
    else
      match item.decode codec s.decoder with
      | (some chunk, decoder) =>
        chunkAdded { s.append chunk with decoder := decoder, reading := false }
      | (none, decoder) => .ret { s with decoder := decoder }

/-- A chunk given to `push`. -/
inductive Chunk
  | invalid
  | null
  | str (s : Str)
  | buf (b : Bytes)
  deriving DecidableEq

variable (defaultEncoding : Str)

/-- `Readable.prototype.push`; where the `Buffer` constructor throws, the state stays. A Buffer
is pushed without an encoding. -/
def push (s : State α σ) (chunk : Chunk) (encoding : EncArg) : Res (State α σ) Frame :=
  match chunk with
  | .invalid => readableAddChunk codec s .invalid
  | .null => readableAddChunk codec s .null
  | .buf b => readableAddChunk codec s (.buf b)
  | .str text =>
    let encoding := match encoding with
      | none | some [] => defaultEncoding
      | some e => e
    if some encoding ≠ codec.encoding then
      match newBuffer text (some encoding) with
      | some b => readableAddChunk codec s (.buf b)
      | none => .ret s
    else readableAddChunk codec s (.units (codec.units text))

/-- `Readable.prototype.unshift`, of something that `read` has returned. -/
def unshift (s : State α σ) (chunk : List α) : Res (State α σ) Frame :=
  if chunk = [] then .ret s
  else if s.endEmitted then .call s []
  else chunkAdded (s.prepend chunk)

/-! ### Reading -/

def maxHwm : ℕ := 0x800000

def roundUpToNextPowerOf2 (n : ℕ) : ℕ :=
  if maxHwm ≤ n then maxHwm
  else [1, 2, 4, 8, 16].foldl (fun n p => n ||| (n >>> p)) (n - 1) + 1

/-- `howMuchToRead`, with what it changes; `none` is no number. -/
def howMuchToRead (n : Option ℤ) (s : State α σ) : ℤ × State α σ :=
  if s.length = 0 ∧ s.ended then (0, s)
  else match n with
  | none =>
    match s.flowing, s.buffer with
    | true, chunk :: _ => (chunk.length, s)
    | _, _ => (s.length, s)
  | some n =>
    if n ≤ 0 then (0, s)
    else
      let s :=
        if s.highWaterMark < n then { s with highWaterMark := roundUpToNextPowerOf2 n.toNat }
        else s
      if s.length < n then
        if !s.ended then (0, { s with needReadable := true }) else (s.length, s)
      else (n, s)

/-- The loop of `fromList` across chunks, for the first `n` elements. -/
def pluck : ℕ → List (List α) → List α × List (List α)
  | _, [] => ([], [])
  | n, chunk :: rest =>
    if n = 0 then ([], chunk :: rest)
    else if n < chunk.length then (chunk.take n, chunk.drop n :: rest)
    else
      let (ret, rest) := pluck (n - chunk.length) rest
      (chunk ++ ret, rest)

/-- `fromList`: what it returns, and the list that is left. -/
def fromList (n length : ℤ) (list : List (List α)) : Option (List α) × List (List α) :=
  match list with
  | [] => (none, [])
  | chunk :: rest =>
    if length = 0 then (none, chunk :: rest)
    else if length ≤ n then (some (chunk :: rest).flatten, [])
    else if n < chunk.length then (some (chunk.take n.toNat), chunk.drop n.toNat :: rest)
    else if n = chunk.length then (some chunk, rest)
    else
      let (ret, list) := pluck n.toNat (chunk :: rest)
      (some ret, list)

/-- `read` returns `ret`. -/
def State.give (s : State α σ) (found : Bool) (ret : Option (List α)) : State α σ :=
  { s with
    taken := s.taken ++ ret.getD []
    starved := s.starved || found && ret.getD [] = [] }

/-- `read`, from the test of `n > 0` on. -/
def readEnd (n : ℤ) (found : Bool) (s : State α σ) : State α σ :=
  let (ret, list) := if 0 < n then fromList n s.length s.buffer else (none, s.buffer)
  let s := { s with buffer := list }
  let s := if ret = none then { s with needReadable := true } else { s with length := s.length - n }
  let s := if s.length = 0 ∧ !s.ended then { s with needReadable := true } else s
  let s := if s.ended ∧ !s.endEmitted ∧ s.length = 0 then endReadable s else s
  s.give found ret

/-- `read`, after `_read`. -/
def readDone (n : ℤ) (nOrig : Option ℤ) (found : Bool) (s : State α σ) : Res (State α σ) Frame :=
  let s := { s with sync := false }
  if !s.reading then
    let (n, s) := howMuchToRead nOrig s
    .ret (readEnd n found s)
  else .ret (readEnd n found s)

/-- `read` from the point where it knows how much to read. -/
def readFrom (n : ℤ) (nOrig : Option ℤ) (found : Bool) (s : State α σ) : Res (State α σ) Frame :=
  if n = 0 ∧ s.ended then
    .ret ((if s.length = 0 then endReadable s else s).give found none)
  else if (s.needReadable ∨ s.length - n ≤ s.highWaterMark) ∧ ¬ (s.ended ∨ s.reading) then
    .call { s with
      reading := true
      sync := true
      needReadable := s.needReadable || s.length = 0 } [.read n nOrig found]
  else .ret (readEnd n found s)

/-- `Readable.prototype.read`; `none` is no argument. -/
def read (n : Option ℤ) (s : State α σ) : Res (State α σ) Frame :=
  let s := { s with
    calledRead := true
    emittedReadable := s.emittedReadable && !(n.all fun n => 0 < n) }
  if n = some 0 ∧ s.needReadable ∧ (s.highWaterMark ≤ s.length ∨ s.ended) then emitReadable s
  else
    let found : Bool := n = none ∧ 0 < s.length
    let (k, s) := howMuchToRead n s
    readFrom k n found s

/-! ### `maybeReadMore_` -/

def readMoreDone (s : State α σ) : Res (State α σ) Frame := .ret { s with readingMore := false }

/-- A round of the loop. A `read(0)` that does not call `_read` leaves the length as it is, and
the loop with it. -/
def readMoreLoop (s : State α σ) : Res (State α σ) Frame :=
  if !s.reading && !s.flowing && !s.ended && s.length < s.highWaterMark then
    (read (some 0) s).andThen (.readMore s.length) readMoreDone
  else readMoreDone s

def readMoreAfter (len : ℤ) (s : State α σ) : Res (State α σ) Frame :=
  if len = s.length then readMoreDone s else readMoreLoop s

/-! ### The system -/

def exec (s : State α σ) : Frame → Res (State α σ) Frame
  | .user => .ret s
  | .addChunk => addChunkDone s
  | .read n nOrig found => readDone n nOrig found s
  | .readMore len => readMoreAfter len s

def boundary : Frame → Bool
  | .user => true
  | _ => false

def runTick (s : State α σ) : Tick → Res (State α σ) Frame
  | .emitReadable => .call s []
  | .readMore => readMoreLoop s
  | .end =>
    if !s.endEmitted && s.length = 0 then .call { s with endEmitted := true } [] else .ret s

/-- The first `on('readable')` of a stream that has not ended. -/
def onReadable (s : State α σ) : Res (State α σ) Frame :=
  if s.endEmitted || s.readableListening then .ret s
  else
    let s := { s with readableListening := true, emittedReadable := false, needReadable := true }
    if !s.reading then read (some 0) s
    else if s.length ≠ 0 then emitReadable s
    else .ret s

/-- What foreign code does, and what the event loop does when none is running. -/
inductive Act (α : Type)
  | push (chunk : Chunk) (encoding : EncArg)
  | unshift (chunk : List α)
  | read (n : Option ℤ)
  | onReadable
  /-- `pipe` and `unpipe` set the flag. -/
  | flow (flowing : Bool)
  /-- It returns. -/
  | ret
  | tick
  deriving DecidableEq

abbrev System (α σ : Type) := Machine (State α σ) Frame

/-- A new stream. -/
def init (highWaterMark : ℤ) : System α σ := ⟨.new codec highWaterMark, []⟩

variable [DecidableEq α]

def step (m : System α σ) : Act α → Option (System α σ)
  | .push chunk encoding =>
    some (enter .user m (push codec defaultEncoding m.st chunk encoding))
  | .unshift chunk =>
    if chunk <:+ m.st.taken then some (enter .user m (unshift m.st chunk)) else none
  | .read n => some (enter .user m (read n m.st))
  | .onReadable => some (enter .user m (onReadable m.st))
  | .flow flowing => some { m with st := { m.st with flowing := flowing } }
  | .ret => if m.stack = [] then none else some (resume exec boundary m.st m.stack)
  | .tick =>
    match m.stack, m.st.ticks with
    | [], t :: ts =>
      let r := runTick { m.st with ticks := ts } t
      some ⟨r.state, r.frames⟩
    | _, _ => none

end NodeCore.Readable
