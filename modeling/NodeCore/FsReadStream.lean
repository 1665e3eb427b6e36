import Mathlib.Data.Int.Notation
import NodeCore.Memory
import NodeCore.OpenFile
import NodeCore.Reentrant

/-!
`fs.ReadStream`: streams that read their files into one pool.
-/

namespace NodeCore.FsReadStream

open NodeCore.Memory NodeCore.Reentrant

variable {α : Type*}

/-! ### The program -/

def kMinPoolSpace : ℕ := 128

/-- The pool, of which the first `used` bytes have been given to reads. Its memory is that of
`id`. -/
structure Pool where
  id : ℕ
  length : ℕ
  used : ℕ
  le : used ≤ length

/-- A call of `fs.read` that has not come back. -/
structure Request where
  slice : Slice
  position : Option ℤ

/-- A read that has come back: the position it was made at, if any, how much was to be read and how
much came. -/
structure Read where
  position : Option ℕ
  toRead : ℕ
  bytesRead : ℕ

/-- `last` is the option `end`, and `none` in it is `Infinity` where there is a `start`. The stream
is `reading` from a call of `_read` until something is pushed. -/
structure ReadStream (α : Type*) where
  start : Option ℤ
  last : Option ℤ
  autoClose : Bool
  pos : Option ℤ
  file : OpenFile α
  destroyed : Bool
  reading : Bool
  ended : Bool
  request : Option Request
  pushed : List Slice
  reads : List Read

/-- The process: its memory, the pool, how many there have been, and the streams. -/
structure State (α : Type*) where
  memory : ℕ → ℕ → α
  pool : Option Pool
  pools : ℕ
  streams : ℕ → Option (ReadStream α)

/-- The constructor, with the file that it opens. -/
def ReadStream.create (start last : Option ℤ) (autoClose : Bool) (bytes : List α) :
    Option (ReadStream α) :=
  let x : ReadStream α := ⟨start, last, autoClose, none, ⟨bytes, 0, false⟩, false, false, false,
    none, [], []⟩
  match start, last with
  | none, _ => some x
  | some s, none => some { x with pos := some s }
  | some s, some e => if e < s then none else some { x with pos := some s }

lemma ReadStream.create_eq {start last : Option ℤ} {autoClose : Bool} {bytes : List α}
    {x : ReadStream α} (h : create start last autoClose bytes = some x) :
    x = ⟨start, last, autoClose, start, ⟨bytes, 0, false⟩, false, false, false, none, [], []⟩ ∧
      ∀ s e, start = some s → last = some e → s ≤ e := by
  unfold create at h
  dsimp only at h
  split at h
  · exact ⟨(Option.some.inj h).symm, fun s e hs => by cases hs⟩
  · exact ⟨(Option.some.inj h).symm, fun s e _ he => by cases he⟩
  · split_ifs at h with hse
    refine ⟨(Option.some.inj h).symm, fun s e hs he => ?_⟩
    rw [← Option.some.inj hs, ← Option.some.inj he]
    exact Int.not_lt.mp hse

def State.set (s : State α) (i : ℕ) (x : ReadStream α) : State α :=
  { s with streams := Function.update s.streams i (some x) }

def allocNewPool (s : State α) (poolSize : ℕ) : State α × Pool :=
  let pool : Pool := ⟨s.pools, poolSize, 0, Nat.zero_le _⟩
  ({ s with pool := some pool, pools := s.pools + 1 }, pool)

/-- The pool that the next read takes its memory from. -/
def State.pooled (s : State α) (highWaterMark : ℕ) : State α × Pool :=
  match s.pool with
  | none => allocNewPool s highWaterMark
  | some pool =>
    if pool.length - pool.used < kMinPoolSpace then allocNewPool s highWaterMark else (s, pool)

/-- How much is to be read, when `room` bytes are free in the pool. -/
def ReadStream.toRead (x : ReadStream α) (room n : ℕ) : ℤ :=
  match x.pos, x.last with
  | some pos, some e => min (e - pos + 1) (min room n)
  | _, _ => min room n

lemma ReadStream.toRead_le (x : ReadStream α) (room n : ℕ) :
    x.toRead room n ≤ min (room : ℤ) n := by
  unfold toRead
  split
  · exact Int.min_le_right _ _
  · exact Int.le_refl _

/-- The call of `fs.read`. -/
def ReadStream.ask (x : ReadStream α) (slice : Slice) : ReadStream α :=
  { x with
    reading := true
    request := some ⟨slice, x.pos⟩
    pos := x.pos.map (· + slice.length) }

/-- `_read`, once the file is open. `n` is the `highWaterMark`, of which `Readable.read` may have
made a greater one. -/
def State.read (s : State α) (i : ℕ) (x : ReadStream α) (n : ℕ) : State α :=
  if x.destroyed then s.set i { x with reading := true }
  else
    let (s, pool) := s.pooled n
    let toRead := x.toRead (pool.length - pool.used) n
    if toRead ≤ 0 then s.set i { x with ended := true }
    else
      { s.set i (x.ask ⟨pool.id, pool.used, toRead.toNat⟩) with
        pool := some { pool with
          used := pool.used + toRead.toNat
          le := by
            have hle := pool.le
            have hroom : toRead ≤ _ := x.toRead_le (pool.length - pool.used) n
            omega } }

/-- What read(2) is given: a position that is negative is none. -/
def GET_OFFSET : Option ℤ → Option ℕ
  | some p => if p < 0 then none else some p.toNat
  | none => none

/-- The bytes of the file from the position on. -/
def left (f : OpenFile α) (position : Option ℕ) : ℕ := f.bytes.length - position.getD f.offset

/-- What read(2) may return: nothing at the end of the file only. -/
def Request.Returns (r : Request) (f : OpenFile α) (bytesRead : ℕ) : Prop :=
  bytesRead ≤ r.slice.length ∧ bytesRead ≤ left f (GET_OFFSET r.position) ∧
    (bytesRead = 0 → left f (GET_OFFSET r.position) = 0)

instance (r : Request) (f : OpenFile α) (bytesRead : ℕ) : Decidable (r.Returns f bytesRead) :=
  inferInstanceAs (Decidable (_ ∧ _))

/-- The stream when its read has come back. -/
def ReadStream.got (x : ReadStream α) (r : Request) (bytesRead : ℕ) : ReadStream α :=
  { x with
    file := (x.file.read (GET_OFFSET r.position) bytesRead).2
    reading := false
    ended := x.ended || bytesRead = 0
    request := none
    pushed := x.pushed ++ if 0 < bytesRead then [{ r.slice with length := bytesRead }] else []
    reads := x.reads ++ [⟨GET_OFFSET r.position, r.slice.length, bytesRead⟩] }

/-- `onread`, with an error if `bytesRead` is `none`. -/
def State.onread (s : State α) (i : ℕ) (x : ReadStream α) (r : Request) :
    Option ℕ → State α
  | none => s.set i { x with request := none, destroyed := x.destroyed || x.autoClose }
  | some bytesRead =>
    { s.set i (x.got r bytesRead) with
      memory := write s.memory r.slice.buffer r.slice.start
        (x.file.read (GET_OFFSET r.position) bytesRead).1 }

inductive Act (α : Type*) where
  | create (i : ℕ) (start last : Option ℤ) (autoClose : Bool) (bytes : List α)
  | read (i n : ℕ)
  | onread (i : ℕ) (bytesRead : Option ℕ)
  | destroy (i : ℕ)

/-- `Readable.read` calls `_read` unless it is reading already or has ended. -/
def step (s : State α) : Act α → Option (State α)
  | .create i start last autoClose bytes =>
    match s.streams i with
    | some _ => none
    | none => (ReadStream.create start last autoClose bytes).map (s.set i)
  | .read i n =>
    match s.streams i with
    | none => none
    | some x => if x.reading ∨ x.ended ∨ n = 0 then none else some (s.read i x n)
  | .onread i bytesRead =>
    match s.streams i with
    | none => none
    | some x =>
      match x.request, bytesRead with
      | none, _ => none
      | some r, none => some (s.onread i x r none)
      | some r, some k => if r.Returns x.file k then some (s.onread i x r k) else none
  | .destroy i => (s.streams i).map fun x => s.set i { x with destroyed := true }

/-- The start of the process. What is in its memory then is not known. -/
def init (memory : ℕ → ℕ → α) : State α := ⟨memory, none, 0, fun _ => none⟩

/-- The bytes of a chunk, as they are now. -/
def State.content (s : State α) (c : Slice) : List α := c.content s.memory

/-- The bytes of all chunks that a stream has pushed. -/
def State.data (s : State α) (x : ReadStream α) : List α := x.pushed.flatMap s.content

/-! ### The pool -/

variable {memory : ℕ → ℕ → α} {s t : State α} {x y : ReadStream α} {r : Request} {c d : Slice}
  {i j n k : ℕ}

namespace State

/-- A chunk that a stream has pushed. -/
def Chunk (s : State α) (i : ℕ) (c : Slice) : Prop := ∃ x, s.streams i = some x ∧ c ∈ x.pushed

/-- Memory that is being read into. -/
def Asked (s : State α) (i : ℕ) (c : Slice) : Prop :=
  ∃ x r, s.streams i = some x ∧ x.request = some r ∧ r.slice = c

/-- Memory that has been given out. -/
def Below (s : State α) (c : Slice) : Prop :=
  c.buffer < s.pools ∧ ∀ p, s.pool = some p → c.buffer = p.id → c.start + c.length ≤ p.used

/-- All memory in use has been given out, and what is being read goes where nothing else is. -/
structure Kept (s : State α) : Prop where
  pool : ∀ p, s.pool = some p → p.id < s.pools
  chunk : ∀ i c, s.Chunk i c → s.Below c
  asked : ∀ i c, s.Asked i c → s.Below c
  apart : ∀ i j c d, s.Asked i c → s.Chunk j d → c.Apart d
  others : ∀ i j c d, i ≠ j → s.Asked i c → s.Asked j d → c.Apart d

lemma set_same (s : State α) (i : ℕ) (x : ReadStream α) : (s.set i x).streams i = some x :=
  Function.update_self ..

lemma set_ne (s : State α) (x : ReadStream α) (h : j ≠ i) :
    (s.set i x).streams j = s.streams j :=
  Function.update_of_ne h ..

lemma chunk_set : (s.set i x).Chunk j c ↔ if j = i then c ∈ x.pushed else s.Chunk j c := by
  unfold Chunk
  split_ifs with h
  · subst h
    rw [set_same]
    simp
  · rw [set_ne s x h]

lemma asked_set : (s.set i x).Asked j c ↔
    if j = i then x.request.map Request.slice = some c else s.Asked j c := by
  unfold Asked
  split_ifs with h
  · subst h
    rw [set_same]
    simp
  · rw [set_ne s x h]

/-- A stream that gives something back, or keeps what it has. -/
lemma Kept.set (h : s.Kept) (hchunk : ∀ c ∈ x.pushed, s.Chunk i c)
    (hasked : ∀ c, x.request.map Request.slice = some c → s.Asked i c) : (s.set i x).Kept := by
  have hc : ∀ j c, (s.set i x).Chunk j c → s.Chunk j c := by
    intro j c hc
    rw [chunk_set] at hc
    split_ifs at hc with hj
    · exact hj ▸ hchunk c hc
    · exact hc
  have ha : ∀ j c, (s.set i x).Asked j c → s.Asked j c := by
    intro j c hc
    rw [asked_set] at hc
    split_ifs at hc with hj
    · exact hj ▸ hasked c hc
    · exact hc
  exact ⟨h.pool, fun j c hj => h.chunk j c (hc j c hj), fun j c hj => h.asked j c (ha j c hj),
    fun j l c d hj hl => h.apart j l c d (ha j c hj) (hc l d hl),
    fun j l c d hne hj hl => h.others j l c d hne (ha j c hj) (ha l d hl)⟩

/-- A stream of which neither the chunks nor the request has changed. -/
lemma Kept.same (h : s.Kept) (hx : s.streams i = some x) (hpushed : y.pushed = x.pushed)
    (hrequest : y.request = x.request) : (s.set i y).Kept := by
  refine h.set (fun c hc => ⟨x, hx, hpushed ▸ hc⟩) fun c hc => ?_
  rw [hrequest] at hc
  obtain ⟨r, hr, hslice⟩ := Option.map_eq_some_iff.mp hc
  exact ⟨x, r, hx, hr, hslice⟩

lemma Kept.allocNewPool (h : s.Kept) : (allocNewPool s n).1.Kept := by
  have hbelow : ∀ c, s.Below c → (FsReadStream.allocNewPool s n).1.Below c := by
    rintro c ⟨hpool, -⟩
    refine ⟨Nat.lt_succ_of_lt hpool, fun p hp hid => ?_⟩
    obtain rfl := Option.some.inj hp
    exact absurd hid (Nat.ne_of_lt hpool)
  refine ⟨fun p hp => ?_, fun i c hc => hbelow c (h.chunk i c hc),
    fun i c hc => hbelow c (h.asked i c hc), h.apart, h.others⟩
  obtain rfl := Option.some.inj hp
  exact Nat.lt_succ_self _

/-- A stream asks for what comes next in the pool. -/
lemma Kept.ask {p p' : Pool} (h : s.Kept) (hpool : s.pool = some p) (hid : p'.id = p.id)
    (hused : p'.used = p.used + k) (hx : s.streams i = some x) :
    ({ s with pool := some p' }.set i (x.ask ⟨p.id, p.used, k⟩)).Kept := by
  set t : State α := { s with pool := some p' } with ht
  have hbelow : ∀ c, s.Below c → t.Below c := by
    rintro c ⟨hc, hp⟩
    refine ⟨hc, fun q hq hcq => ?_⟩
    obtain rfl := Option.some.inj hq
    have hend := hp p hpool (hcq.trans hid)
    omega
  have hnew : t.Below ⟨p.id, p.used, k⟩ := by
    refine ⟨h.pool p hpool, fun q hq _ => ?_⟩
    obtain rfl := Option.some.inj hq
    exact Nat.le_of_eq hused.symm
  have hfree : ∀ c, s.Below c → Slice.Apart ⟨p.id, p.used, k⟩ c := by
    rintro c ⟨-, hp⟩
    by_cases hc : p.id = c.buffer
    · exact .inr (.inr (hp p hpool hc.symm))
    · exact .inl hc
  have hchunk : ∀ j c, (t.set i (x.ask ⟨p.id, p.used, k⟩)).Chunk j c → s.Chunk j c := by
    intro j c hc
    rw [chunk_set] at hc
    split_ifs at hc with hj
    · exact ⟨x, hj ▸ hx, hc⟩
    · exact hc
  have hasked : ∀ j c, (t.set i (x.ask ⟨p.id, p.used, k⟩)).Asked j c →
      (j = i ∧ c = ⟨p.id, p.used, k⟩) ∨ (j ≠ i ∧ s.Asked j c) := by
    intro j c hc
    rw [asked_set] at hc
    split_ifs at hc with hj
    · exact .inl ⟨hj, (Option.some.inj hc).symm⟩
    · exact .inr ⟨hj, hc⟩
  refine ⟨fun q hq => ?_, fun j c hc => hbelow c (h.chunk j c (hchunk j c hc)), fun j c hc => ?_,
    fun j l c d hc hd => ?_, fun j l c d hne hc hd => ?_⟩
  · obtain rfl := Option.some.inj hq
    exact hid ▸ h.pool p hpool
  · rcases hasked j c hc with ⟨-, rfl⟩ | ⟨-, hc⟩
    · exact hnew
    · exact hbelow c (h.asked j c hc)
  · have hd := hchunk l d hd
    rcases hasked j c hc with ⟨-, rfl⟩ | ⟨-, hc⟩
    · exact hfree d (h.chunk l d hd)
    · exact h.apart j l c d hc hd
  · rcases hasked j c hc with ⟨hj, rfl⟩ | ⟨-, hc⟩ <;> rcases hasked l d hd with ⟨hl, rfl⟩ | ⟨-, hd⟩
    · exact absurd (hj.trans hl.symm) hne
    · exact hfree d (h.asked l d hd)
    · exact (hfree c (h.asked j c hc)).symm
    · exact h.others j l c d hne hc hd

/-- What has been read stays with the stream. -/
lemma Kept.got (h : s.Kept) (hx : s.streams i = some x) (hr : x.request = some r)
    (hk : k ≤ r.slice.length) : (s.set i (x.got r k)).Kept := by
  have hr' : s.Asked i r.slice := ⟨x, r, hx, hr, rfl⟩
  have hchunk : ∀ j c, (s.set i (x.got r k)).Chunk j c →
      s.Chunk j c ∨ (j = i ∧ c.Within r.slice) := by
    intro j c hc
    rw [chunk_set] at hc
    split_ifs at hc with hj
    · rcases List.mem_append.mp hc with hc | hc
      · exact .inl ⟨x, hj ▸ hx, hc⟩
      · split_ifs at hc
        · rw [List.mem_singleton.mp hc]
          exact .inr ⟨hj, rfl, Nat.le_refl _, Nat.add_le_add_left hk _⟩
        · cases hc
    · exact .inl hc
  have hasked : ∀ j c, (s.set i (x.got r k)).Asked j c → j ≠ i ∧ s.Asked j c := by
    intro j c hc
    rw [asked_set] at hc
    split_ifs at hc with hj
    · cases hc
    · exact ⟨hj, hc⟩
  refine ⟨h.pool, fun j c hc => ?_, fun j c hc => h.asked j c (hasked j c hc).2,
    fun j l c d hc hd => ?_, fun j l c d hne hc hd =>
      h.others j l c d hne (hasked j c hc).2 (hasked l d hd).2⟩
  · rcases hchunk j c hc with hc | ⟨-, hpool, -, hstop⟩
    · exact h.chunk j c hc
    · obtain ⟨hlt, hused⟩ := h.asked i _ hr'
      refine ⟨hpool ▸ hlt, fun p hp hid => hstop.trans (hused p hp (hpool ▸ hid))⟩
  · obtain ⟨hj, ha⟩ := hasked j c hc
    rcases hchunk l d hd with hold | ⟨rfl, hin⟩
    · exact h.apart j l c d ha hold
    · exact ((h.others l j _ c (Ne.symm hj) hr' ha).within hin).symm

/-- What the next read finds: the pool, with room in it. -/
lemma Kept.pooled (h : s.Kept) (hn : 0 < n) : (s.pooled n).1.Kept ∧
    (s.pooled n).1.pool = some (s.pooled n).2 ∧
    0 < (s.pooled n).2.length - (s.pooled n).2.used ∧
    (s.pooled n).1.streams = s.streams ∧ (s.pooled n).1.memory = s.memory := by
  unfold State.pooled
  split
  · exact ⟨h.allocNewPool, rfl, hn, rfl, rfl⟩
  · next pool hpool =>
    split_ifs with hroom
    · exact ⟨h.allocNewPool, rfl, hn, rfl, rfl⟩
    · refine ⟨h, hpool, ?_, rfl, rfl⟩
      unfold kMinPoolSpace at hroom
      show 0 < pool.length - pool.used
      omega

end State

/-! ### What a step does to a stream -/

/-- From a stream and the data that it has pushed to what they are after the step. -/
inductive Move : ReadStream α → List α → ReadStream α → List α → Prop
  | refl {x : ReadStream α} {b : List α} : Move x b x b
  | destroy {x : ReadStream α} {b : List α} : Move x b { x with destroyed := true } b
  | idle {x : ReadStream α} {b : List α} (hidle : x.reading = false) (hended : x.ended = false) :
      Move x b { x with reading := true } b
  | last {x : ReadStream α} {b : List α} {p e : ℤ} (hidle : x.reading = false)
      (hp : x.pos = some p) (he : x.last = some e) (h : e < p) :
      Move x b { x with ended := true } b
  | ask {x : ReadStream α} {b : List α} {slice : Slice} (hidle : x.reading = false)
      (hended : x.ended = false) (hslice : 0 < slice.length)
      (hlast : ∀ p e, x.pos = some p → x.last = some e → p + slice.length ≤ e + 1) :
      Move x b (x.ask slice) b
  | fail {x : ReadStream α} {b : List α} {r : Request} (hr : x.request = some r)
      (destroyed : Bool) : Move x b { x with request := none, destroyed := destroyed } b
  | got {x : ReadStream α} {b : List α} {r : Request} {k : ℕ} (hr : x.request = some r)
      (hk : r.Returns x.file k) :
      Move x b (x.got r k) (b ++ (x.file.read (GET_OFFSET r.position) k).1)

/-- What a step does to all of them. -/
structure Moves (s t : State α) : Prop where
  kept : t.Kept
  grows : ∀ i x, s.streams i = some x → ∃ y, t.streams i = some y ∧ x.pushed <+: y.pushed ∧
    ∀ c ∈ x.pushed, t.content c = s.content c
  move : ∀ i y, t.streams i = some y →
    (s.streams i = none ∧ ∃ start last autoClose bytes,
      ReadStream.create start last autoClose bytes = some y) ∨
    ∃ x, s.streams i = some x ∧ Move x (s.data x) y (t.data y)

lemma read_length (f : OpenFile α) {position : Option ℕ} (hk : k ≤ left f position) :
    (f.read position k).1.length = k := by
  unfold left at hk
  unfold OpenFile.read
  cases position with
  | none =>
    simp only [Option.getD_none] at hk
    simp only [List.length_take, List.length_drop]
    omega
  | some p =>
    simp only [Option.getD_some] at hk
    simp only [List.length_take, List.length_drop]
    omega

namespace Moves

/-- A step that changes one stream and writes nothing. -/
lemma set {u : State α} (hx : s.streams i = some x) (hstreams : u.streams = s.streams)
    (hmemory : u.memory = s.memory) (hkept : (u.set i y).Kept) (hpushed : y.pushed = x.pushed)
    (hmove : Move x (s.data x) y (s.data x)) : Moves s (u.set i y) := by
  have hdata : ∀ z, (u.set i y).data z = s.data z := fun z => by
    unfold State.data State.content State.set
    rw [hmemory]
  have hcontent : ∀ c, (u.set i y).content c = s.content c := fun c => by
    unfold State.content State.set
    rw [hmemory]
  refine ⟨hkept, fun j z hz => ?_, fun j z hz => ?_⟩
  · rcases eq_or_ne j i with rfl | hj
    · obtain rfl := Option.some.inj (hx.symm.trans hz)
      exact ⟨y, State.set_same .., hpushed ▸ List.prefix_refl _, fun c _ => hcontent c⟩
    · exact ⟨z, by rw [State.set_ne _ _ hj, hstreams, hz], List.prefix_refl _,
        fun c _ => hcontent c⟩
  · rcases eq_or_ne j i with rfl | hj
    · obtain rfl := Option.some.inj ((State.set_same u j y).symm.trans hz)
      have heq : (u.set j y).data y = s.data x := by
        rw [hdata]
        unfold State.data
        rw [hpushed]
      exact .inr ⟨x, hx, heq ▸ hmove⟩
    · rw [State.set_ne _ _ hj, hstreams] at hz
      exact .inr ⟨z, hz, hdata z ▸ .refl⟩

/-- The call of `_read`. -/
lemma read (h : s.Kept) (hx : s.streams i = some x) (hreading : x.reading = false)
    (hended : x.ended = false) (hn : 0 < n) : Moves s (s.read i x n) := by
  obtain ⟨hkept, hpool, hroom, hstreams, hmemory⟩ := h.pooled hn
  unfold State.read
  split_ifs with hdestroyed
  · exact set hx rfl rfl (h.same hx rfl rfl) rfl (.idle hreading hended)
  generalize hs' : s.pooled n = pooled at hkept hpool hroom hstreams hmemory ⊢
  obtain ⟨s', p⟩ := pooled
  dsimp only at hkept hpool hroom hstreams hmemory ⊢
  have hx' : s'.streams i = some x := hstreams ▸ hx
  split_ifs with hread
  · refine set hx hstreams hmemory (hkept.same hx' rfl rfl) rfl ?_
    unfold ReadStream.toRead at hread
    split at hread
    · next q e hq he => exact .last hreading hq he (by omega)
    · omega
  · have hle : x.toRead (p.length - p.used) n ≤ _ := x.toRead_le _ n
    refine set (u := { s' with pool := some _ }) hx hstreams hmemory
      (hkept.ask hpool rfl rfl hx') rfl (.ask hreading hended (by show 0 < Int.toNat _; omega) ?_)
    intro q e hq he
    unfold ReadStream.toRead at hread ⊢
    rw [hq, he] at hread ⊢
    dsimp only at hread ⊢
    omega

/-- A read comes back: the memory of the chunks there are is not touched. -/
lemma got (h : s.Kept) (hx : s.streams i = some x) (hr : x.request = some r)
    (hk : r.Returns x.file k) : Moves s (s.onread i x r (some k)) := by
  have hr' : s.Asked i r.slice := ⟨x, r, hx, hr, rfl⟩
  have hlength := read_length x.file hk.2.1
  set b := (x.file.read (GET_OFFSET r.position) k).1 with hb
  set t := s.onread i x r (some k) with ht
  have hcontent : ∀ j c, s.Chunk j c → t.content c = s.content c := by
    intro j c hc
    refine content_write_apart ((h.apart i j _ c hr' hc).within ⟨rfl, Nat.le_refl _, ?_⟩)
    show r.slice.start + b.length ≤ _
    rw [hlength]
    exact Nat.add_le_add_left hk.1 _
  have hdata : ∀ j z, s.streams j = some z → t.data z = s.data z := fun j z hz =>
    List.flatMap_congr fun c hc => hcontent j c ⟨z, hz, hc⟩
  have hnew : t.data (x.got r k) = s.data x ++ b := by
    show (x.pushed ++ _).flatMap t.content = _
    rw [List.flatMap_append]
    refine congrArg₂ (· ++ ·) (hdata i x hx) ?_
    split_ifs with hpos
    · have hwrite := content_write s.memory r.slice.buffer r.slice.start b
      rw [hlength] at hwrite
      exact (List.append_nil _).trans hwrite
    · exact (List.eq_nil_of_length_eq_zero (by omega)).symm
  obtain ⟨hpool, hchunk, hasked, hapart, hothers⟩ := h.got hx hr hk.1
  refine ⟨⟨hpool, hchunk, hasked, hapart, hothers⟩, fun j z hz => ?_, fun j z hz => ?_⟩
  · rcases eq_or_ne j i with rfl | hj
    · obtain rfl := Option.some.inj (hx.symm.trans hz)
      exact ⟨_, State.set_same .., List.prefix_append _ _, fun c hc => hcontent j c ⟨x, hx, hc⟩⟩
    · exact ⟨z, (State.set_ne _ _ hj).trans hz, List.prefix_refl _,
        fun c hc => hcontent j c ⟨z, hz, hc⟩⟩
  · rcases eq_or_ne j i with rfl | hj
    · obtain rfl := Option.some.inj ((State.set_same s j (x.got r k)).symm.trans hz)
      exact .inr ⟨x, hx, hnew ▸ .got hr hk⟩
    · have hz' : s.streams j = some z := (State.set_ne s (x.got r k) hj).symm.trans hz
      exact .inr ⟨z, hz', (hdata j z hz') ▸ .refl⟩

/-- Every step. -/
lemma of_step {a : Act α} (h : s.Kept) (hs : step s a = some t) : Moves s t := by
  cases a with
  | create i start last autoClose bytes =>
    unfold step at hs
    dsimp only at hs
    split at hs
    · cases hs
    · next hnone =>
      obtain ⟨x, hx, rfl⟩ := Option.map_eq_some_iff.mp hs
      obtain ⟨rfl, -⟩ := ReadStream.create_eq hx
      refine ⟨h.set nofun nofun, fun j z hz => ?_, fun j z hz => ?_⟩
      · have hj : j ≠ i := by
          rintro rfl
          cases hnone.symm.trans hz
        exact ⟨z, (State.set_ne _ _ hj).trans hz, List.prefix_refl _, fun _ _ => rfl⟩
      · rcases eq_or_ne j i with rfl | hj
        · obtain rfl := Option.some.inj ((State.set_same s j _).symm.trans hz)
          exact .inl ⟨hnone, start, last, autoClose, bytes, hx⟩
        · exact .inr ⟨z, (State.set_ne s _ hj).symm.trans hz, .refl⟩
  | read i n =>
    unfold step at hs
    dsimp only at hs
    split at hs
    · cases hs
    · next x hx =>
      split_ifs at hs with hready
      obtain rfl := Option.some.inj hs
      simp only [not_or, Bool.not_eq_true] at hready
      exact read h hx hready.1 hready.2.1 (Nat.pos_of_ne_zero hready.2.2)
  | onread i bytesRead =>
    unfold step at hs
    dsimp only at hs
    split at hs
    · cases hs
    · next x hx =>
      split at hs
      · cases hs
      · next r hr =>
        obtain rfl := Option.some.inj hs
        refine set hx rfl rfl (h.set (fun c hc => ⟨x, hx, hc⟩) nofun) rfl (.fail hr _)
      · next r k hr =>
        split_ifs at hs with hk
        obtain rfl := Option.some.inj hs
        exact got h hx hr hk
  | destroy i =>
    obtain ⟨x, hx, rfl⟩ := Option.map_eq_some_iff.mp hs
    exact set hx rfl rfl (h.same hx rfl rfl) rfl .destroy

end Moves

/-! ### Runs -/

lemma kept_init (memory : ℕ → ℕ → α) : (init memory).Kept := by
  have hchunk : ∀ i c, ¬ (init memory).Chunk i c := by
    rintro i c ⟨x, hx, -⟩
    cases hx
  have hasked : ∀ i c, ¬ (init memory).Asked i c := by
    rintro i c ⟨x, r, hx, -⟩
    cases hx
  exact ⟨nofun, fun i c hc => absurd hc (hchunk i c), fun i c hc => absurd hc (hasked i c),
    fun i j c d hc => absurd hc (hasked i c), fun i j c d _ hc => absurd hc (hasked i c)⟩

/-- Steps of any kind. -/
abbrev Runs : State α → State α → Prop := Run step fun _ _ _ => True

lemma kept_of_run (hs : s.Kept) (h : Runs s t) : t.Kept :=
  h.invariant hs fun _ _ _ hn hstep _ => (Moves.of_step hn hstep).kept

/-- **A chunk is never written again**: the bytes of all that a stream has pushed are the same ever
after. -/
theorem chunks_kept (hs : s.Kept) (h : Runs s t) (hx : s.streams i = some x) :
    ∃ y, t.streams i = some y ∧ x.pushed <+: y.pushed ∧
      ∀ c ∈ x.pushed, t.content c = s.content c := by
  induction h with
  | refl => exact ⟨x, hx, List.prefix_refl _, fun _ _ => rfl⟩
  | step hrun hstep _ ih =>
    obtain ⟨y, hy, hpre, hcontent⟩ := ih
    obtain ⟨z, hz, hgrows, hsame⟩ := (Moves.of_step (kept_of_run hs hrun) hstep).grows i y hy
    exact ⟨z, hz, hpre.trans hgrows, fun c hc =>
      (hsame c (hpre.subset hc)).trans (hcontent c hc)⟩

/-- What a stream and its data go through. -/
inductive Lives : ReadStream α → List α → Prop
  | create {start last : Option ℤ} {autoClose : Bool} {bytes : List α} {x : ReadStream α}
      (h : ReadStream.create start last autoClose bytes = some x) : Lives x []
  | move {x y : ReadStream α} {b b' : List α} (h : Lives x b) (hmove : Move x b y b') : Lives y b'

lemma lives (h : Runs (init memory) s) (hx : s.streams i = some x) : Lives x (s.data x) := by
  induction h generalizing i x with
  | refl => cases hx
  | step hrun hstep _ ih =>
    have hmoves := Moves.of_step (kept_of_run (kept_init _) hrun) hstep
    obtain ⟨-, start, last, autoClose, bytes, hcreate⟩ | ⟨y, hy, hmove⟩ := hmoves.move i x hx
    · have hlives := Lives.create hcreate
      obtain ⟨rfl, -⟩ := ReadStream.create_eq hcreate
      exact hlives
    · exact .move (ih hy) hmove

end NodeCore.FsReadStream
