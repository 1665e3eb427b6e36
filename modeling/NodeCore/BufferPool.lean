import NodeCore.BufferAccess
import NodeCore.StringBytes

/-!
Where a new `Buffer` lies, and what is written there.

Small Buffers are cut one behind the other from a pool. Every `SlowBuffer` has a number, and its
memory under that number; what a new one has in it is whatever was there. The `Buffer` function is
told what the language takes a string for as a number, which decides whether an encoding is one.
-/

namespace NodeCore.BufferPool

open Encoding JsNumber Memory BufferAccess

/-! ### The state -/

/-- `pool`, with the number and the length of its `SlowBuffer`. -/
structure Pool where
  buffer : ℕ
  length : ℕ
  used : ℕ

/-- `size` has the lengths of the `SlowBuffer`s, and `next` is the number of the next one. -/
structure State where
  mem : Mem
  size : ℕ → ℕ
  next : ℕ
  poolSize : ℕ
  pool : Option Pool

/-- The module, loaded over some memory. `zeroBuffer` has the number 0. -/
def State.start (mem : Mem) : State := ⟨mem, fun _ => 0, 1, 8 * 1024, none⟩

def kMaxLength : ℕ := 0x3fffffff

/-- `new SlowBuffer(length)`: its number. -/
def slowBuffer (s : State) (length : ℕ) : Except Err (ℕ × State) :=
  if 2 ^ 32 ≤ length then .error (.typeError (js "Bad argument"))
  else if kMaxLength < length then .error (.rangeError (js "length > kMaxLength"))
  else .ok (s.next, { s with size := Function.update s.size s.next length, next := s.next + 1 })

/-! ### The place -/

def allocPool (s : State) : Except Err (Pool × State) := do
  let (buffer, s) ← slowBuffer s s.poolSize
  return (⟨buffer, s.poolSize, 0⟩, { s with pool := some ⟨buffer, s.poolSize, 0⟩ })

/-- `pool`, after `if (!pool || pool.length - pool.used < this.length) allocPool()`. -/
def roomyPool (s : State) (length : ℕ) : Except Err (Pool × State) :=
  match s.pool with
  | none => allocPool s
  | some pool => if (pool.length : ℤ) - pool.used < length then allocPool s else .ok (pool, s)

/-- `if (pool.used & 7) pool.used = (pool.used + 8) & ~7` -/
def roundUp (used : ℕ) : ℕ := if used % 8 ≠ 0 then (used + 8) / 8 * 8 else used

/-- `this.parent`, `this.offset` and `this.length`, once they are set. -/
def place (s : State) (length : ℕ) : Except Err (Slice × State) :=
  if s.poolSize < length then do
    let (buffer, s) ← slowBuffer s length
    return (⟨buffer, 0, length⟩, s)
  else if 0 < length then do
    let (pool, s) ← roomyPool s length
    let used := roundUp (pool.used + length)
    return (⟨pool.buffer, pool.used, length⟩, { s with pool := some { pool with used } })
  else .ok (⟨0, 0, 0⟩, s)

/-! ### What is written -/

/-- `StringWrite` at `offset` of a `SlowBuffer` of `size` bytes: the bytes. -/
def stringWrite (encoding : Enc) (size : ℕ) (str : Str) (offset max_length : ℕ) :
    Except Err Bytes :=
  if str = [] then .ok []
  else if encoding = .hex ∧ str.length % 2 ≠ 0 then .error (.typeError (js "Invalid hex string"))
  else
    -- the difference is unsigned, so that it is no bound behind the end
    let max_length := if offset ≤ size then min (size - offset) max_length else max_length
    if max_length = 0 then .ok []
    else
      let max_length := if encoding = .ucs2 then max_length / 2 else max_length
      if size ≤ offset then .error (.typeError (js "Offset is out of bounds"))
      else .ok (StringBytes.write max_length str (StringBytes.ofEnc encoding))

/-- The language's conversion of a string to a number. -/
abbrev ToNumber := Str → Number

/-- `length` and `encoding` of `write(string, 0, encoding)`: an encoding that is a number is taken
for the length. `none` is a negative length. -/
def writeArguments (toNumber : ToNumber) (remaining : ℕ) (encoding : EncArg) :
    Option ℕ × EncArg :=
  match encoding with
  | none => (some remaining, none)
  | some name =>
    match toNumber name with
    | .fin q =>
      if name = [] then (some remaining, none)
      else if (remaining : ℚ) < q then (some remaining, none)
      else if q < 0 then (none, none)
      else (some ⌊q⌋₊, none)
    | _ => (some remaining, some name)

/-- `this.write(string, 0, encoding)`: the bytes. -/
def write (toNumber : ToNumber) (s : State) (this : Slice) (string : Str) (encoding : EncArg) :
    Except Err Bytes :=
  let (length, encoding) := writeArguments toNumber this.length encoding
  if string ≠ [] ∧ length = none then
    .error (.rangeError (js "attempt to write beyond buffer bounds"))
  else
    match ofName (orUtf8 encoding) with
    | none => .error (.typeError (js "Unknown encoding: " ++ toLowerCase (orUtf8 encoding)))
    | some enc => stringWrite enc (s.size this.buffer) string this.start (length.getD 0)

/-- `Copy` between two `SlowBuffer`s: the bytes that are copied. -/
def copy (s : State) (source target target_start source_start source_end : ℕ) :
    Except Err Bytes :=
  if source_end < source_start then .error (.rangeError (js "sourceEnd < sourceStart"))
  else if source_end = source_start then .ok []
  else if s.size target ≤ target_start then .error (.rangeError (js "targetStart out of bounds"))
  else if s.size source ≤ source_start then .error (.rangeError (js "sourceStart out of bounds"))
  else if s.size source < source_end then .error (.rangeError (js "sourceEnd out of bounds"))
  else
    .ok (load (s.mem source) source_start (min (min (source_end - source_start)
      (s.size target - target_start)) (s.size source - source_start)))

/-! ### The constructor -/

/-- The first argument. An object has its length as a number, whether it is array-ish, and what its
elements are as numbers; a Buffer that is no `SlowBuffer` has its parent. -/
inductive Subject
  | number (n : Number)
  | string (s : Str)
  | buffer (c : Slice)
  | slow (buffer : ℕ)
  | object (length : Number) (arrayIsh : Bool) (items : ℕ → Number)
  | null
  | other

/-- `+n > 0 ? Math.ceil(n) : 0`; `none` is `Infinity`. -/
def ceilLength : Number → Option ℕ
  | .fin q => some (if 0 < q then ⌈q⌉₊ else 0)
  | .infinity => none
  | _ => some 0

/-- `this.length` at first; `none` is `Infinity`. -/
def lengthOf (s : State) (encoding : EncArg) : Subject → Except Err (Option ℕ)
  | .number n => .ok (ceilLength n)
  | .string str => .ok (some (byteLength str encoding))
  | .buffer c => .ok (some c.length)
  | .slow buffer => .ok (some (s.size buffer))
  | .object length _ _ => .ok (ceilLength length)
  | .null => .error (.typeError (js "Cannot read property 'length' of null"))
  | .other =>
    .error (.typeError (js "First argument needs to be a number, array or string."))

/-- The bytes that are filled in from the offset of the new Buffer on, and its length then. -/
def filling (toNumber : ToNumber) (s : State) (this : Slice) (encoding : EncArg) :
    Subject → Except Err (Bytes × ℕ)
  | .number _ => .ok ([], this.length)
  | .string str => do
    let bytes ← write toNumber s this str encoding
    return (bytes, bytes.length)
  | .buffer c => do
    let bytes ← copy s c.buffer this.buffer this.start c.start (this.length + c.start)
    return (bytes, this.length)
  | .slow buffer => do
    let bytes ← copy s buffer this.buffer this.start 0 this.length
    return (bytes, this.length)
  | .object _ arrayIsh items =>
    if arrayIsh then
      .ok ((List.range this.length).map fun i => UInt8.ofNat (items i).bits.toNat, this.length)
    else .ok ([], this.length)
  | .null | .other => .ok ([], this.length)

/-- `SlowBuffer.makeFastBuffer(this.parent, this, this.offset, this.length)` -/
def makeFastBuffer (s : State) (this : Slice) : Except Err Unit :=
  if s.size this.buffer < this.start then .error (.rangeError (js "offset out of range"))
  else if s.size this.buffer < this.start + this.length then
    .error (.rangeError (js "length out of range"))
  else .ok ()

/-- What a construction comes to: the range that was set aside for it, the Buffer or what was
thrown, and the state. -/
structure Made where
  reserved : Option Slice
  result : Except Err Slice
  state : State

/-- `new Buffer(subject, encoding)` -/
def construct (toNumber : ToNumber) (s : State) (subject : Subject) (encoding : EncArg) : Made :=
  match lengthOf s encoding subject with
  | .error e => ⟨none, .error e, s⟩
  | .ok none => ⟨none, .error (.typeError (js "Bad argument")), s⟩
  | .ok (some length) =>
    match place s length with
    | .error e => ⟨none, .error e, s⟩
    | .ok (this, s) =>
      match filling toNumber s this encoding subject with
      | .error e => ⟨some this, .error e, s⟩
      | .ok (bytes, length) =>
        let s := { s with mem := Memory.write s.mem this.buffer this.start bytes }
        match makeFastBuffer s { this with length } with
        | .error e => ⟨some this, .error e, s⟩
        | .ok () => ⟨some this, .ok { this with length }, s⟩

/-! ### Runs -/

/-- A construction, an assignment to `Buffer.poolSize`, or whatever else changes what is in
Buffers. -/
inductive Action
  | construct (subject : Subject) (encoding : EncArg)
  | setPoolSize (poolSize : ℕ)
  | fill (mem : Mem)

/-- The state with the ranges that were set aside and the Buffers that were made. -/
structure Run where
  state : State
  reserved : List Slice
  made : List Slice

def Run.step (toNumber : ToNumber) (r : Run) : Action → Run
  | .construct subject encoding =>
    let m := BufferPool.construct toNumber r.state subject encoding
    ⟨m.state, m.reserved.toList ++ r.reserved, m.result.toOption.toList ++ r.made⟩
  | .setPoolSize poolSize => { r with state := { r.state with poolSize } }
  | .fill mem => { r with state := { r.state with mem } }

def run (toNumber : ToNumber) (mem : Mem) (actions : List Action) : Run :=
  actions.foldl (Run.step toNumber) ⟨.start mem, [], []⟩

/-! ### What is set aside -/

/-- The ranges do not meet, each lies in its `SlowBuffer`, and those of the pool are in front of
its mark. -/
structure Sound (s : State) (reserved : List Slice) : Prop where
  apart : reserved.Pairwise Slice.Apart
  inside : ∀ c ∈ reserved, c.start + c.length ≤ s.size c.buffer
  old : ∀ c ∈ reserved, c.buffer < s.next
  next : 0 < s.next
  pool : ∀ p, s.pool = some p → p.buffer < s.next ∧ s.size p.buffer = p.length ∧
    ∀ c ∈ reserved, c.buffer = p.buffer → c.start + c.length ≤ p.used

variable {s s' : State} {reserved : List Slice} {length : ℕ}

lemma Sound.start (mem : Mem) : Sound (.start mem) [] :=
  ⟨.nil, fun _ hc => absurd hc List.not_mem_nil, fun _ hc => absurd hc List.not_mem_nil,
    Nat.one_pos, nofun⟩

/-- A computation that does not throw has steps that do not. -/
lemma ok_of_bind {α β : Type} {x : Except Err α} {f : α → Except Err β} {b : β}
    (h : (do let a ← x; f a) = .ok b) : ∃ a, x = .ok a ∧ f a = .ok b := by
  cases x with
  | error e => cases h
  | ok a => exact ⟨a, rfl, h⟩

lemma slowBuffer_cases {buffer : ℕ} (h : slowBuffer s length = .ok (buffer, s')) :
    buffer = s.next ∧
      s' = { s with size := Function.update s.size s.next length, next := s.next + 1 } := by
  unfold slowBuffer at h
  split_ifs at h
  obtain ⟨rfl, rfl⟩ := Prod.mk.inj (Except.ok.inj h)
  exact ⟨rfl, rfl⟩

/-- A new `SlowBuffer` is none of those with a range. -/
lemma Sound.slowBuffer {buffer : ℕ} (hs : Sound s reserved)
    (h : slowBuffer s length = .ok (buffer, s')) :
    Sound s' reserved ∧ buffer < s'.next ∧ s'.size buffer = length ∧ s'.mem = s.mem ∧
      s'.pool = s.pool ∧ ∀ c ∈ reserved, c.buffer ≠ buffer := by
  obtain ⟨rfl, rfl⟩ := slowBuffer_cases h
  have hne : ∀ c ∈ reserved, c.buffer ≠ s.next := fun c hc => (hs.old c hc).ne
  refine ⟨⟨hs.apart, fun c hc => ?_, fun c hc => ?_, Nat.succ_pos _, fun p hp => ?_⟩,
    Nat.lt_succ_self _, Function.update_self .., rfl, rfl, hne⟩
  · dsimp only
    rw [Function.update_of_ne (hne c hc)]
    exact hs.inside c hc
  · exact Nat.lt_succ_of_lt (hs.old c hc)
  · obtain ⟨hlt, hsize, hmark⟩ := hs.pool p hp
    refine ⟨Nat.lt_succ_of_lt hlt, ?_, hmark⟩
    dsimp only
    rw [Function.update_of_ne hlt.ne, hsize]

/-- A new pool has no range in it. -/
lemma Sound.allocPool {p : Pool} (hs : Sound s reserved) (h : allocPool s = .ok (p, s')) :
    Sound s' reserved ∧ s'.pool = some p ∧ s'.mem = s.mem ∧ p.length = s.poolSize ∧ p.used = 0 := by
  obtain ⟨⟨buffer, s₁⟩, hslow, hmade⟩ := ok_of_bind h
  obtain ⟨rfl, rfl⟩ := Prod.mk.inj (Except.ok.inj hmade)
  obtain ⟨hs₁, hlt, hsize, hmem, -, hne⟩ := hs.slowBuffer hslow
  have hpoolSize : s₁.poolSize = s.poolSize := by
    obtain ⟨-, rfl⟩ := slowBuffer_cases hslow
    rfl
  refine ⟨⟨hs₁.apart, hs₁.inside, hs₁.old, hs₁.next, ?_⟩, rfl, hmem, hpoolSize, rfl⟩
  rintro p hp
  obtain rfl := Option.some.inj hp
  exact ⟨hlt, hsize.trans hpoolSize.symm, fun c hc hb => absurd hb (hne c hc)⟩

lemma Sound.roomyPool {p : Pool} (hs : Sound s reserved) (hlength : length ≤ s.poolSize)
    (h : roomyPool s length = .ok (p, s')) :
    Sound s' reserved ∧ s'.pool = some p ∧ s'.mem = s.mem ∧ p.used + length ≤ p.length := by
  unfold BufferPool.roomyPool at h
  have hnew (h : BufferPool.allocPool s = .ok (p, s')) : Sound s' reserved ∧ s'.pool = some p ∧
      s'.mem = s.mem ∧ p.used + length ≤ p.length := by
    obtain ⟨hs', hpool, hmem, hp, hused⟩ := hs.allocPool h
    exact ⟨hs', hpool, hmem, by omega⟩
  split at h
  · exact hnew h
  next pool hpool =>
    split_ifs at h with hfull
    · exact hnew h
    · obtain ⟨rfl, rfl⟩ := Prod.mk.inj (Except.ok.inj h)
      exact ⟨hs, hpool, rfl, by omega⟩

lemma le_roundUp (used : ℕ) : used ≤ roundUp used := by
  unfold roundUp
  split_ifs <;> omega

lemma Sound.add {this : Slice} (hs : Sound s reserved) (hapart : ∀ c ∈ reserved, this.Apart c)
    (hinside : this.start + this.length ≤ s.size this.buffer) (hold : this.buffer < s.next)
    (hmark : ∀ p, s.pool = some p → this.buffer = p.buffer → this.start + this.length ≤ p.used) :
    Sound s (this :: reserved) := by
  refine ⟨List.pairwise_cons.mpr ⟨hapart, hs.apart⟩, List.forall_mem_cons.mpr ⟨hinside, hs.inside⟩,
    List.forall_mem_cons.mpr ⟨hold, hs.old⟩, hs.next, fun p hp => ?_⟩
  obtain ⟨hlt, hsize, hall⟩ := hs.pool p hp
  exact ⟨hlt, hsize, List.forall_mem_cons.mpr ⟨hmark p hp, hall⟩⟩

/-- The mark moves on. -/
lemma Sound.mark {p : Pool} {used : ℕ} (hs : Sound s reserved) (hp : s.pool = some p)
    (hused : p.used ≤ used) :
    Sound { s with pool := some { p with used } } reserved := by
  obtain ⟨hlt, hsize, hall⟩ := hs.pool p hp
  refine ⟨hs.apart, hs.inside, hs.old, hs.next, fun q hq => ?_⟩
  obtain rfl := Option.some.inj hq
  exact ⟨hlt, hsize, fun c hc hb => (hall c hc hb).trans hused⟩

/-- **The place of a new Buffer** meets no other, and lies where it can. -/
theorem Sound.place {this : Slice} (hs : Sound s reserved) (h : place s length = .ok (this, s')) :
    Sound s' (this :: reserved) ∧ s'.mem = s.mem ∧ this.length = length := by
  unfold BufferPool.place at h
  split_ifs at h with hbig hpos
  · -- a `SlowBuffer` of its own
    obtain ⟨⟨buffer, s₁⟩, hslow, hmade⟩ := ok_of_bind h
    obtain ⟨rfl, rfl⟩ := Prod.mk.inj (Except.ok.inj hmade)
    obtain ⟨hs', hlt, hsize, hmem, hpool, hne⟩ := hs.slowBuffer hslow
    refine ⟨hs'.add (fun c hc => .inl (hne c hc).symm) ?_ hlt fun p hp hb => ?_, hmem, rfl⟩
    · rw [hsize, Nat.zero_add]
    · obtain ⟨rfl, -⟩ := slowBuffer_cases hslow
      exact absurd hb (hs.pool p (hpool.symm.trans hp)).1.ne'
  · -- behind the mark of the pool
    obtain ⟨⟨p, s₁⟩, hroom, hmade⟩ := ok_of_bind h
    obtain ⟨rfl, rfl⟩ := Prod.mk.inj (Except.ok.inj hmade)
    obtain ⟨hs₁, hp, hmem, hfits⟩ := hs.roomyPool (Nat.not_lt.mp hbig) hroom
    obtain ⟨hlt, hsize, hall⟩ := hs₁.pool p hp
    have hused := le_roundUp (p.used + length)
    refine ⟨(hs₁.mark hp (by omega)).add (fun c hc => ?_) ?_ hlt fun q hq _ => ?_, hmem, rfl⟩
    · by_cases hb : c.buffer = p.buffer
      · exact .inr (.inr (hall c hc hb))
      · exact .inl (Ne.symm hb)
    · exact hsize ▸ hfits
    · obtain rfl := Option.some.inj hq
      exact hused
  · -- `zeroBuffer`
    obtain ⟨rfl, rfl⟩ := Prod.mk.inj (Except.ok.inj h)
    refine ⟨hs.add (fun c _ => .inr (.inl (Nat.zero_le _))) (Nat.zero_le _) hs.next
      fun p _ _ => Nat.zero_le _, rfl, (Nat.eq_zero_of_not_pos hpos).symm⟩

/-! ### What is filled in -/

lemma stringWrite_length {encoding : Enc} {size offset max_length : ℕ} {str : Str} {bytes : Bytes}
    (h : stringWrite encoding size str offset max_length = .ok bytes) :
    bytes.length ≤ max_length := by
  unfold stringWrite at h
  generalize hmax : (if offset ≤ size then min (size - offset) max_length else max_length) = n at h
  have hn : n ≤ max_length := by
    rw [← hmax]
    split_ifs
    · exact Nat.min_le_right _ _
    · exact le_rfl
  dsimp only at h
  split_ifs at h with h₁ h₂ h₃ h₄ h₅
  · obtain rfl := Except.ok.inj h
    exact Nat.zero_le _
  · obtain rfl := Except.ok.inj h
    exact Nat.zero_le _
  · obtain rfl := Except.ok.inj h
    have := StringBytes.write_length_le (n / 2) str (StringBytes.ofEnc encoding)
    split_ifs at this <;> omega
  · obtain rfl := Except.ok.inj h
    have hcoding : StringBytes.ofEnc encoding ≠ .ucs2 := by
      cases encoding with
      | ucs2 => exact absurd rfl h₅
      | ascii | utf8 | base64 | binary | hex => exact nofun
    have := StringBytes.write_length_le n str (StringBytes.ofEnc encoding)
    rw [if_neg hcoding] at this
    exact this.trans hn

lemma writeArguments_length (toNumber : ToNumber) (remaining : ℕ) (encoding : EncArg) :
    (writeArguments toNumber remaining encoding).1.getD 0 ≤ remaining := by
  unfold writeArguments
  split
  · exact le_rfl
  · split
    next q _ =>
      split_ifs with hname hlarge hneg
      · exact le_rfl
      · exact le_rfl
      · exact Nat.zero_le _
      · exact Nat.floor_le_of_le (not_lt.mp hlarge)
    next => exact le_rfl

lemma write_length {toNumber : ToNumber} {this : Slice} {str : Str} {encoding : EncArg}
    {bytes : Bytes} (h : write toNumber s this str encoding = .ok bytes) :
    bytes.length ≤ this.length := by
  have hlength := writeArguments_length toNumber this.length encoding
  unfold write at h
  dsimp only at h
  split_ifs at h
  split at h
  next => cases h
  next => exact (stringWrite_length h).trans hlength

lemma copy_length {source target target_start source_start source_end : ℕ} {bytes : Bytes}
    (h : copy s source target target_start source_start source_end = .ok bytes) :
    bytes.length ≤ source_end - source_start := by
  unfold copy at h
  split_ifs at h
  · obtain rfl := Except.ok.inj h
    exact Nat.zero_le _
  · obtain rfl := Except.ok.inj h
    rw [load_length]
    omega

/-- No more is filled in than there is room for. -/
theorem filling_length {toNumber : ToNumber} {this : Slice} {encoding : EncArg} {subject : Subject}
    {bytes : Bytes} (h : filling toNumber s this encoding subject = .ok (bytes, length)) :
    bytes.length ≤ this.length ∧ length ≤ this.length := by
  cases subject with
  | number | null | other =>
    obtain ⟨rfl, rfl⟩ := Prod.mk.inj (Except.ok.inj h)
    exact ⟨Nat.zero_le _, le_rfl⟩
  | string str =>
    obtain ⟨out, hwrite, hout⟩ := ok_of_bind h
    obtain ⟨rfl, rfl⟩ := Prod.mk.inj (Except.ok.inj hout)
    exact ⟨write_length hwrite, write_length hwrite⟩
  | buffer c =>
    obtain ⟨out, hcopy, hout⟩ := ok_of_bind h
    obtain ⟨rfl, rfl⟩ := Prod.mk.inj (Except.ok.inj hout)
    exact ⟨(copy_length hcopy).trans (Nat.add_sub_cancel _ _).le, le_rfl⟩
  | slow buffer =>
    obtain ⟨out, hcopy, hout⟩ := ok_of_bind h
    obtain ⟨rfl, rfl⟩ := Prod.mk.inj (Except.ok.inj hout)
    exact ⟨copy_length hcopy, le_rfl⟩
  | object n arrayIsh items =>
    rw [filling] at h
    split_ifs at h
    · obtain ⟨rfl, rfl⟩ := Prod.mk.inj (Except.ok.inj h)
      exact ⟨by rw [List.length_map, List.length_range], le_rfl⟩
    · obtain ⟨rfl, rfl⟩ := Prod.mk.inj (Except.ok.inj h)
      exact ⟨Nat.zero_le _, le_rfl⟩

/-! ### Constructions -/

/-- What a construction does: it throws with nothing done, or sets a range aside, in which it may
write. -/
lemma construct_cases (toNumber : ToNumber) (s : State) (subject : Subject) (encoding : EncArg) :
    (∃ e, construct toNumber s subject encoding = ⟨none, .error e, s⟩) ∨
    ∃ length this s₁ bytes, place s length = .ok (this, s₁) ∧ bytes.length ≤ this.length ∧
      (construct toNumber s subject encoding).reserved = some this ∧
      (construct toNumber s subject encoding).state =
        { s₁ with mem := Memory.write s₁.mem this.buffer this.start bytes } ∧
      ∀ b, (construct toNumber s subject encoding).result = .ok b → b.Within this := by
  unfold construct
  cases hlength : lengthOf s encoding subject with
  | error e => exact .inl ⟨e, rfl⟩
  | ok length =>
    cases length with
    | none => exact .inl ⟨_, rfl⟩
    | some length =>
      dsimp only
      cases hplace : place s length with
      | error e => exact .inl ⟨e, rfl⟩
      | ok made =>
        obtain ⟨this, s₁⟩ := made
        refine .inr ⟨length, this, s₁, ?_⟩
        dsimp only
        cases hfilling : filling toNumber s₁ this encoding subject with
        | error e =>
          refine ⟨[], hplace, Nat.zero_le _, rfl, ?_, fun b hb => by cases hb⟩
          simp only [Memory.write, store_nil, Function.update_eq_self]
        | ok filled =>
          obtain ⟨bytes, written⟩ := filled
          obtain ⟨hbytes, hwritten⟩ := filling_length hfilling
          refine ⟨bytes, hplace, hbytes, ?_⟩
          dsimp only
          split
          · exact ⟨rfl, rfl, fun b hb => by cases hb⟩
          · refine ⟨rfl, rfl, fun b hb => ?_⟩
            obtain rfl := Except.ok.inj hb
            exact ⟨rfl, le_rfl, Nat.add_le_add_left hwritten _⟩

/-! ### Whole runs -/

/-- What holds of a run: the ranges are sound, and the Buffers lie in them. -/
structure Run.Good (r : Run) : Prop where
  sound : Sound r.state r.reserved
  within : ∀ b ∈ r.made, ∃ c ∈ r.reserved, b.Within c

variable {toNumber : ToNumber} {r : Run}

lemma Run.Good.step (h : r.Good) (action : Action) : (r.step toNumber action).Good := by
  cases action with
  | setPoolSize poolSize => exact ⟨⟨h.1.1, h.1.2, h.1.3, h.1.4, h.1.5⟩, h.within⟩
  | fill mem => exact ⟨⟨h.1.1, h.1.2, h.1.3, h.1.4, h.1.5⟩, h.within⟩
  | construct subject encoding =>
    obtain ⟨e, he⟩ | ⟨length, this, s₁, bytes, hplace, -, hreserved, hstate, hresult⟩ :=
      construct_cases toNumber r.state subject encoding
    · simp only [Run.step, he]
      exact ⟨h.sound, h.within⟩
    · obtain ⟨hsound, -, -⟩ := h.sound.place hplace
      simp only [Run.step, hreserved, hstate]
      refine ⟨⟨hsound.1, hsound.2, hsound.3, hsound.4, hsound.5⟩, fun b hb => ?_⟩
      obtain hb | hb := List.mem_append.mp hb
      · cases hres : (construct toNumber r.state subject encoding).result with
        | error e => rw [hres] at hb; cases hb
        | ok made =>
          rw [hres] at hb
          obtain rfl := List.mem_singleton.mp hb
          exact ⟨this, List.mem_cons_self, hresult b hres⟩
      · obtain ⟨c, hc, hwithin⟩ := h.within b hb
        exact ⟨c, List.mem_cons_of_mem _ hc, hwithin⟩

lemma run_good (toNumber : ToNumber) (mem : Mem) (actions : List Action) :
    (run toNumber mem actions).Good := by
  have hall : ∀ r : Run, r.Good → (actions.foldl (Run.step toNumber) r).Good := by
    induction actions with
    | nil => exact fun _ h => h
    | cons action actions ih => exact fun r h => ih _ (h.step action)
  exact hall _ ⟨.start mem, fun _ hb => absurd hb List.not_mem_nil⟩

/-- A construction writes into the range that it has set aside, which meets no other. -/
lemma Run.Good.construct (h : r.Good) (subject : Subject) (encoding : EncArg) :
    (∀ b i, (construct toNumber r.state subject encoding).state.mem b i ≠ r.state.mem b i →
      ∃ c, (construct toNumber r.state subject encoding).reserved = some c ∧ b = c.buffer ∧
        c.start ≤ i ∧ i < c.start + c.length) ∧
    ∀ b ∈ r.made, b.content (construct toNumber r.state subject encoding).state.mem =
      b.content r.state.mem := by
  obtain ⟨e, he⟩ | ⟨length, this, s₁, bytes, hplace, hbytes, hreserved, hstate, -⟩ :=
    construct_cases toNumber r.state subject encoding
  · rw [he]
    exact ⟨fun b i hne => absurd rfl hne, fun _ _ => rfl⟩
  · obtain ⟨hsound, hmem, -⟩ := h.sound.place hplace
    rw [hreserved, hstate]
    dsimp only
    rw [hmem]
    refine ⟨fun b i hne => ⟨this, rfl, ?_⟩, fun b hb => content_write_apart ?_⟩
    · by_contra hout
      exact hne (write_outside fun hin => hout ⟨hin.1, hin.2.1, by omega⟩)
    · obtain ⟨c, hc, hwithin⟩ := h.within b hb
      have hapart : c.Apart this := ((List.pairwise_cons.mp hsound.apart).1 c hc).symm
      have hpart : Slice.Within ⟨this.buffer, this.start, bytes.length⟩ this :=
        ⟨rfl, le_rfl, Nat.add_le_add_left hbytes _⟩
      exact (hapart.within hwithin).symm.within hpart

/-- **The isolation of Buffers**: after any constructions the ranges that were set aside do not
meet, and each lies in its `SlowBuffer`; every Buffer lies in one of them, and the next construction
changes nothing but its own range, and so no Buffer. -/
theorem isolation (toNumber : ToNumber) (mem : Mem) (actions : List Action) :
    let r := run toNumber mem actions
    r.reserved.Pairwise Slice.Apart ∧
    (∀ c ∈ r.reserved, c.start + c.length ≤ r.state.size c.buffer) ∧
    (∀ b ∈ r.made, ∃ c ∈ r.reserved, b.Within c) ∧
    ∀ subject encoding,
      let m := construct toNumber r.state subject encoding
      (∀ b i, m.state.mem b i ≠ r.state.mem b i →
        ∃ c, m.reserved = some c ∧ b = c.buffer ∧ c.start ≤ i ∧ i < c.start + c.length) ∧
      ∀ b ∈ r.made, b.content m.state.mem = b.content r.state.mem := by
  have hgood := run_good toNumber mem actions
  exact ⟨hgood.sound.apart, hgood.sound.inside, hgood.within, hgood.construct⟩

end NodeCore.BufferPool
