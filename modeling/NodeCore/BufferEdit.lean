import NodeCore.BufferPool
import NodeCore.JsValue

/-!
`write`, `fill`, `copy` and `slice` of a Buffer.

They reckon with the positions that they are given, add the offset of the Buffer and pass the sums
to its parent, whose methods take them for 32-bit numbers. Positions are numbers or strings.
-/

namespace NodeCore.BufferEdit

open Encoding JsNumber Memory BufferAccess BufferPool

/-- What is thrown: the errors of the accessors, and an `Error` of no other class. -/
inductive Thrown
  | error (message : Str)
  | err (e : Err)
  deriving DecidableEq

/-- The number of bytes, or the Buffer itself. -/
inductive Returned
  | count (n : ℕ)
  | this
  deriving DecidableEq

/-- What a call returns, and the memory then; a call that throws has written nothing. -/
abbrev Outcome := Except Thrown (Returned × Mem)

def Outcome.after (s : State) : Outcome → Mem
  | .ok (_, m) => m
  | .error _ => s.mem

def rangeError (message : String) : Outcome := .error (.err (.rangeError (js message)))

def typeError (message : String) : Outcome := .error (.err (.typeError (js message)))

variable (lang : Language) (s : State) (this : Slice)

/-! ### Writing a string -/

/-- The offset, the length and the encoding; in the legacy order the encoding is the first. -/
def writeOrder (offset length encoding : Value) : Value × Value × Value :=
  if (lang.number offset).finite then
    if (lang.number length).finite then (offset, length, encoding)
    else (offset, .undefined, length)
  else (length, encoding, offset)

/-- A number that is converted to a `size_t` over an `int32_t`. -/
def sizeOf (x : Number) : ℕ := (x.bits.toInt % 2 ^ 64).toNat

/-- `+offset || 0` -/
def writeOffset (offset : Value) : Number :=
  if (lang.number offset).falsy then .int 0 else lang.number offset

/-- `length`, no greater than what remains behind the offset. -/
def writeLength (offset : Number) (length : Value) : Number :=
  let remaining := (Number.int this.length).minus offset
  if length.falsy then remaining
  else if remaining.lt (lang.number length) then remaining
  else lang.number length

def write (string : Str) (offset length encoding : Value) : Outcome :=
  let (offset, length, encoding) := writeOrder lang offset length encoding
  let offset := writeOffset lang offset
  let length := writeLength lang this offset length
  let encoding :=
    toLowerCase (if encoding.falsy then js "utf8" else lang.string encoding)
  if string ≠ [] ∧ (length.lt (.int 0) ∨ offset.lt (.int 0)) then
    rangeError "attempt to write beyond buffer bounds"
  else
    match ofName encoding with
    | none => .error (.err (.typeError (js "Unknown encoding: " ++ encoding)))
    | some enc =>
      let position := sizeOf ((Number.int this.start).plus offset)
      match stringWrite enc (s.size this.buffer) string position length.bits.toNat with
      | .error e => .error (.err e)
      | .ok bytes => .ok (.count bytes.length, Memory.write s.mem this.buffer position bytes)

/-! ### Filling -/

/-- `SlowBuffer::Fill` -/
def slowFill (buffer : ℕ) (value : Number) (start_arg end_arg : Value) : Outcome :=
  match value.isInt32 with
  | none => .error (.error (js "value is not a number"))
  | some value =>
    match start_arg.isInt32, end_arg.isInt32 with
    | some start, some stop =>
      if start < 0 ∨ stop < 0 then typeError "Bad argument."
      else if ¬ start ≤ stop then .error (.error (js "Must have start <= end"))
      else if (s.size buffer : ℤ) < stop then
        .error (.error (js "end cannot be longer than parent.length"))
      else
        .ok (.this, Memory.write s.mem buffer start.toNat
          (List.replicate (stop - start).toNat (UInt8.ofNat (value % 256).toNat)))
    | _, _ => typeError "Bad argument."

/-- `value`, as a number; of a string it is the first code unit. -/
def fillValue : Value → Number
  | .num x => if x.falsy then .int 0 else x
  | .str [] => .int 0
  | .str (c :: _) => .int c.toNat

def fill (value start stop : Value) : Outcome :=
  let value := fillValue value
  let start := if start.falsy then .int 0 else start
  let stop := if stop.falsy then .int this.length else stop
  if value = .nan ∨ value = .undefined then typeError "value is not a number"
  else if lang.lt stop start then rangeError "end < start"
  else if stop.same start ∨ this.length = 0 then .ok (.count 0, s.mem)
  else if lang.lt start (.int 0) ∨ lang.le (.int this.length) start then
    rangeError "start out of bounds"
  else if lang.lt stop (.int 0) ∨ lang.lt (.int this.length) stop then
    rangeError "end out of bounds"
  else
    slowFill s this.buffer value (lang.plus start (.int this.start))
      (lang.plus stop (.int this.start))

/-! ### Copying -/

/-- `SlowBuffer::Copy`, to a Buffer that has its own number. -/
def slowCopy (source target : ℕ) (target_start source_start source_end : Value) : Outcome :=
  let uint32 (x : Value) : ℕ := (lang.number x).bits.toNat
  match BufferPool.copy s source target (uint32 target_start) (uint32 source_start)
    (uint32 source_end) with
  | .error e => .error (.err e)
  | .ok bytes =>
    .ok (.count bytes.length, Memory.write s.mem target (uint32 target_start) bytes)

/-- `copy`, once the defaults are set. -/
def copyRange (target : Slice) (target_start start stop : Value) : Outcome :=
  if stop.same start ∨ target.length = 0 ∨ this.length = 0 ∨ lang.lt (.int this.length) start then
    .ok (.count 0, s.mem)
  else if lang.lt stop start then rangeError "sourceEnd < sourceStart"
  else if lang.le (.int target.length) target_start then rangeError "targetStart out of bounds"
  else
    let room := lang.minus (.int target.length) target_start
    let stop := if lang.lt room (lang.minus stop start) then lang.plus room start else stop
    slowCopy lang s this.buffer target.buffer (lang.plus target_start (.int target.start))
      (lang.plus start (.int this.start)) (lang.plus stop (.int this.start))

def copy (target : Slice) (target_start start stop : Value) : Outcome :=
  let target_start := if lang.le (.int 0) target_start then target_start else .int 0
  let start := if lang.le (.int 0) start then start else .int 0
  let stop := if lang.lt stop (.int this.length) then stop else .int this.length
  copyRange lang s this target target_start start stop

/-! ### Slicing -/

def clamp (index : Value) (len defaultValue : ℕ) : ℕ :=
  match index with
  | .str _ | .num .undefined => defaultValue
  | .num x =>
    let index := x.bits.toInt
    if (len : ℤ) ≤ index then len
    else if 0 ≤ index then index.toNat
    else if 0 ≤ index + len then (index + len).toNat
    else 0

def slice (start stop : Value) : Except Thrown Slice :=
  let start := clamp start this.length 0
  let stop := clamp stop this.length this.length
  let made : Slice := ⟨this.buffer, start + this.start, stop - start⟩
  match makeFastBuffer s made with
  | .error e => .error (.err e)
  | .ok () => .ok made

/-! ### Buffers that can be -/

/-- It lies in its parent, which is not too large. -/
structure Sound (s : State) (b : Slice) : Prop where
  inside : b.start + b.length ≤ s.size b.buffer
  size : s.size b.buffer < 2 ^ 31

/-- No cell outside `b` is another. -/
def Outside (b : Slice) (m m' : Mem) : Prop :=
  ∀ d i, ¬ (d = b.buffer ∧ b.start ≤ i ∧ i < b.start + b.length) → m' d i = m d i

variable {lang s this} {m : Mem} {b : Slice}

lemma Outside.refl (b : Slice) (m : Mem) : Outside b m m := fun _ _ _ => rfl

lemma Outside.trans {m₁ m₂ m₃ : Mem} (h : Outside b m₁ m₂) (h' : Outside b m₂ m₃) :
    Outside b m₁ m₃ :=
  fun d i hout => (h' d i hout).trans (h d i hout)

lemma Outside.write {base : ℕ} {bytes : Bytes}
    (h : bytes ≠ [] → b.start ≤ base ∧ base + bytes.length ≤ b.start + b.length) :
    Outside b m (Memory.write m b.buffer base bytes) := by
  intro d i hout
  apply write_outside
  rintro ⟨rfl, hlow, hhigh⟩
  have hne : bytes ≠ [] := by
    rintro rfl
    rw [List.length_nil] at hhigh
    omega
  obtain ⟨hstart, hstop⟩ := h hne
  exact hout ⟨rfl, by omega, by omega⟩

/-! ### What is filled -/

/-- What `slowFill` does, unless it throws. -/
lemma slowFill_cases (buffer : ℕ) (value : Number) (start_arg end_arg : Value) :
    (∃ e, slowFill s buffer value start_arg end_arg = .error e) ∨
    ∃ byte, ∃ start stop : ℕ, start_arg.isInt32 = some (start : ℤ) ∧
      end_arg.isInt32 = some (stop : ℤ) ∧ start ≤ stop ∧
      slowFill s buffer value start_arg end_arg =
        .ok (.this, Memory.write s.mem buffer start (List.replicate (stop - start) byte)) := by
  unfold slowFill
  cases value.isInt32 with
  | none => exact .inl ⟨_, rfl⟩
  | some v =>
    cases start_arg.isInt32 with
    | none => exact .inl ⟨_, rfl⟩
    | some start =>
      cases end_arg.isInt32 with
      | none => exact .inl ⟨_, rfl⟩
      | some stop =>
        dsimp only
        split_ifs with hneg hle hsize
        · exact .inl ⟨_, rfl⟩
        · exact .inl ⟨_, rfl⟩
        · have hstart : start = start.toNat := by omega
          have hstop : stop = stop.toNat := by omega
          have hcount : (stop - start).toNat = stop.toNat - start.toNat := by omega
          exact .inr ⟨_, start.toNat, stop.toNat, congrArg some hstart, congrArg some hstop,
            by omega, by rw [hcount]⟩
        · exact .inl ⟨_, rfl⟩

/-- Filling stays inside. -/
theorem fill_outside (h : Sound s this) (value start stop : Value) :
    Outside this s.mem ((fill lang s this value start stop).after s) := by
  have hsize := h.size
  have hinside := h.inside
  unfold fill
  generalize (if start.falsy then .int 0 else start) = start
  generalize (if stop.falsy then .int this.length else stop) = stop
  dsimp only
  split_ifs with hnan hlt hempty hstart hstop
  · exact Outside.refl _ _
  · exact Outside.refl _ _
  · exact Outside.refl _ _
  · exact Outside.refl _ _
  · exact Outside.refl _ _
  · obtain ⟨e, he⟩ | ⟨byte, from_, to_, hfrom, hto, hle, hfill⟩ :=
      slowFill_cases (s := s) this.buffer (fillValue value) (lang.plus start (.int this.start))
        (lang.plus stop (.int this.start))
    · rw [he]
      exact Outside.refl _ _
    · rw [hfill]
      have hlow := Language.le_isInt32_plus (by omega) (by simpa using (not_or.mp hstart).1) hfrom
      have hhigh := Language.isInt32_plus_le (k := this.length) (abs_lt.mpr ⟨by omega, by omega⟩)
        (by simpa using (not_or.mp hstop).2) hto
      refine Outside.write fun _ => ?_
      rw [List.length_replicate]
      omega

/-! ### What is written -/

lemma writeOffset_number (offset : Value) :
    writeOffset lang offset ≠ .nan ∧ writeOffset lang offset ≠ .undefined := by
  unfold writeOffset
  split_ifs with hfalsy
  · exact ⟨nofun, nofun⟩
  · constructor <;> intro h <;> rw [h] at hfalsy <;> exact hfalsy rfl

/-- A length that is left over is no greater than the difference from the offset. -/
lemma writeLength_fin {offset : Number} {length : Value} {l : ℚ} (hsize : this.length < 2 ^ 31)
    (hoffset : offset.lt (.int 0) = false) (hnumber : offset ≠ .nan ∧ offset ≠ .undefined)
    (h : writeLength lang this offset length = .fin l) :
    ∃ q, offset = .fin q ∧ 0 ≤ q ∧ l ≤ Doubles.double (this.length - q) := by
  unfold writeLength at h
  obtain ⟨q, rfl, hq, hminus⟩ | hminus := Number.minus_of_nonneg hsize hoffset hnumber
  · refine ⟨q, rfl, hq, ?_⟩
    rw [hminus] at h
    dsimp only at h
    split_ifs at h with hfalsy hlt
    · exact (Number.fin.inj h).ge
    · exact (Number.fin.inj h).ge
    · rw [h] at hlt
      exact not_lt.mp (of_decide_eq_false (Bool.eq_false_of_not_eq_true hlt))
  · rw [hminus] at h
    dsimp only at h
    split_ifs at h with hfalsy hlt
    rw [h] at hlt
    exact absurd rfl hlt

/-- **The room for a string**: what is written at the offset lies in the Buffer. -/
lemma write_room {offset : Number} {length : Value} (hsize : this.start + this.length < 2 ^ 31)
    (hoffset : offset.lt (.int 0) = false) (hnumber : offset ≠ .nan ∧ offset ≠ .undefined)
    (hlength : (writeLength lang this offset length).lt (.int 0) = false)
    (hsome : 0 < (writeLength lang this offset length).bits.toNat) :
    let position := sizeOf ((Number.int this.start).plus offset)
    this.start ≤ position ∧ position + (writeLength lang this offset length).bits.toNat ≤
      this.start + this.length := by
  dsimp only
  cases hl : writeLength lang this offset length with
  | infinity | minusInfinity | nan | undefined => rw [hl] at hsome; cases hsome
  | fin l =>
    obtain ⟨q, rfl, hq, hle⟩ := writeLength_fin (by omega) hoffset hnumber hl
    rw [hl] at hlength hsome
    have hlnonneg : 0 ≤ l := not_lt.mp (of_decide_eq_false hlength)
    have hbits := Number.toNat_bits_le hlnonneg
    have hdiff : ⌊l⌋ ≤ ⌊Doubles.double (this.length - q)⌋ := Int.floor_le_floor hle
    have hone : ((1 : ℤ) : ℚ) ≤ Doubles.double (this.length - q) := Int.le_floor.mp (by omega)
    have hqlt : q < this.length := by
      by_contra hge
      have := Doubles.double_le (k := 1) (by norm_num) (q := this.length - q)
        (by push_cast; linarith)
      push_cast at this hone
      linarith
    have hfloor : 0 ≤ ⌊q⌋ := Int.floor_nonneg.mpr hq
    have hfloor' : ⌊q⌋ < this.length := Int.floor_lt.mpr (by exact_mod_cast hqlt)
    obtain ⟨hplus, hstart⟩ := Number.plus_of_nonneg (n := this.start) (l := this.length)
      (by omega) hq hqlt.le
    have hsum : ⌊Doubles.double ((this.start : ℤ) + q)⌋ +
        ⌊Doubles.double ((this.length : ℤ) - q)⌋ ≤ this.start + this.length :=
      Doubles.floor_add_floor (abs_lt.mpr ⟨by omega, by omega⟩) (abs_lt.mpr ⟨by omega, by omega⟩)
    push_cast at hsum
    have hstart' : (this.start : ℤ) ≤ ⌊Doubles.double (this.start + q)⌋ :=
      Int.le_floor.mpr (by exact_mod_cast hstart)
    have hposition : sizeOf ((Number.int this.start).plus (.fin q)) =
        ⌊Doubles.double (this.start + q)⌋.toNat := by
      rw [hplus, sizeOf, Number.toInt_bits_fin ((Nat.cast_nonneg _).trans hstart) (by omega),
        Int.emod_eq_of_lt (by omega) (by omega)]
    rw [hposition]
    omega

lemma stringWrite_nil {enc : Enc} {size offset max_length : ℕ} :
    stringWrite enc size [] offset max_length = .ok [] := if_pos rfl

/-- Writing a string stays inside. -/
theorem write_outside (h : Sound s this) (string : Str) (offset length encoding : Value) :
    Outside this s.mem ((write lang s this string offset length encoding).after s) := by
  have hsize := h.size
  have hinside := h.inside
  unfold write
  obtain ⟨offset, length, encoding⟩ := writeOrder lang offset length encoding
  dsimp only
  generalize toLowerCase (if encoding.falsy then js "utf8" else lang.string encoding) = name
  split_ifs with hbeyond
  · exact Outside.refl _ _
  · split
    · exact Outside.refl _ _
    next enc _ =>
      split
      · exact Outside.refl _ _
      next bytes hbytes =>
        refine Outside.write fun hne => ?_
        have hstring : string ≠ [] := by
          rintro rfl
          exact hne (Except.ok.inj (stringWrite_nil.symm.trans hbytes)).symm
        have hwritten := stringWrite_length hbytes
        have hsome := List.length_pos_of_ne_nil hne
        obtain ⟨hlength, hoffset⟩ := not_or.mp (not_and.mp hbeyond hstring)
        have hroom := write_room (by omega) (Bool.eq_false_of_not_eq_true hoffset)
          (writeOffset_number offset) (Bool.eq_false_of_not_eq_true hlength) (by omega)
        dsimp only at hroom
        omega

/-! ### What is copied -/

variable {target : Slice}

lemma uint32_plus {a n : ℕ} (h : a + n < 2 ^ 31) :
    (lang.number (lang.plus (.int a) (.int n))).bits.toNat = a + n := by
  have hsum : |(a : ℤ) + n| < 2 ^ 52 := abs_lt.mpr ⟨by omega, by omega⟩
  rw [Language.plus_int lang hsum, Language.number_int, ← Nat.cast_add,
    bits_toNat (by omega)]

/-- A range of the source that fits, and all of it is copied. -/
lemma slowCopy_int {t a e : ℕ} (hthis : Sound s this) (htarget : Sound s target) (hae : a < e)
    (he : e ≤ this.length) (hfits : t + (e - a) ≤ target.length) :
    slowCopy lang s this.buffer target.buffer (lang.plus (.int t) (.int target.start))
        (lang.plus (.int a) (.int this.start)) (lang.plus (.int e) (.int this.start)) =
      .ok (.count (e - a), Memory.write s.mem target.buffer (target.start + t)
        (load (s.mem this.buffer) (this.start + a) (e - a))) := by
  obtain ⟨hinside, hsize⟩ := hthis
  obtain ⟨hinside', hsize'⟩ := htarget
  have hcopy : BufferPool.copy s this.buffer target.buffer (t + target.start) (a + this.start)
      (e + this.start) = .ok (load (s.mem this.buffer) (this.start + a) (e - a)) := by
    have hcount : min (min (e + this.start - (a + this.start))
        (s.size target.buffer - (t + target.start))) (s.size this.buffer - (a + this.start)) =
        e - a := by omega
    rw [BufferPool.copy, if_neg (by omega), if_neg (by omega), if_neg (by omega),
      if_neg (by omega), if_neg (by omega), hcount, Nat.add_comm a]
  unfold slowCopy
  dsimp only
  rw [uint32_plus (by omega), uint32_plus (by omega), uint32_plus (by omega), hcopy]
  dsimp only
  rw [load_length, Nat.add_comm t]

/-- **What `copy` does** at positions in range. -/
theorem copyRange_int {t a e : ℕ} (hthis : Sound s this) (htarget : Sound s target)
    (ht : t < target.length) (hae : a < e) (he : e ≤ this.length) :
    let n := min (e - a) (target.length - t)
    copyRange lang s this target (.int t) (.int a) (.int e) =
      .ok (.count n, Memory.write s.mem target.buffer (target.start + t)
        (load (s.mem this.buffer) (this.start + a) n)) := by
  have hsize := hthis.size
  have hinside := hthis.inside
  have hsize' := htarget.size
  have hinside' := htarget.inside
  have hroom : lang.minus (.int target.length) (.int t) = .int (target.length - t : ℕ) := by
    have hsmall : |(target.length : ℤ) - t| < 2 ^ 52 := abs_lt.mpr ⟨by omega, by omega⟩
    rw [Language.minus_int lang hsmall, Nat.cast_sub ht.le]
  have hcount : lang.minus (.int e) (.int a) = .int (e - a : ℕ) := by
    have hsmall : |(e : ℤ) - a| < 2 ^ 52 := abs_lt.mpr ⟨by omega, by omega⟩
    rw [Language.minus_int lang hsmall, Nat.cast_sub hae.le]
  unfold copyRange
  dsimp only
  rw [if_neg (by simp; omega), if_neg (by simp; omega), if_neg (by simp; omega), hroom, hcount,
    Language.lt_int]
  by_cases hclip : target.length - t < e - a
  · -- the end is set to where the target is full
    have hstop : lang.plus (.int (target.length - t : ℕ)) (.int a) =
        .int (target.length - t + a : ℕ) := by
      have hsmall : |((target.length - t : ℕ) : ℤ) + a| < 2 ^ 52 :=
        abs_lt.mpr ⟨by omega, by omega⟩
      rw [Language.plus_int lang hsmall, Nat.cast_add]
    have hn : min (e - a) (target.length - t) = target.length - t + a - a := by omega
    rw [if_pos (by simpa using hclip), hstop,
      slowCopy_int hthis htarget (by omega) (by omega) (by omega), hn]
  · have hn : min (e - a) (target.length - t) = e - a := by omega
    rw [if_neg (by simpa using hclip),
      slowCopy_int hthis htarget hae he (by omega), hn]

/-- A start that has no fraction, once the default is set. -/
lemma copy_start (lang : Language) {v : Value} (h : v.Whole) :
    (∃ n : ℕ, (if lang.le (.int 0) v then v else .int 0) = .int n) ∨
      (if lang.le (.int 0) v then v else .int 0) = .num .infinity := by
  cases v with
  | str s => exact h.elim
  | num x =>
    cases x with
    | fin q =>
      obtain ⟨z, rfl⟩ : ∃ z : ℤ, q = z := ⟨q.num, (Rat.den_eq_one_iff q |>.mp h).symm⟩
      left
      have hle : lang.le (.int 0) (.num (.fin z)) = decide (0 ≤ z) := lang.le_int 0 z
      rw [hle]
      by_cases hz : 0 ≤ z
      · exact ⟨z.toNat, by rw [if_pos (decide_eq_true hz), Int.toNat_of_nonneg hz]; rfl⟩
      · exact ⟨0, if_neg (by simpa using hz)⟩
    | infinity => exact .inr rfl
    | minusInfinity | nan | undefined => exact .inl ⟨0, rfl⟩

/-- And an end. -/
lemma copy_end (lang : Language) {v : Value} (l : ℕ) (h : v.Whole) :
    (∃ z : ℤ, z ≤ l ∧ (if lang.lt v (.int l) then v else .int l) = .int z) ∨
      (if lang.lt v (.int l) then v else .int l) = .num .minusInfinity := by
  cases v with
  | str s => exact h.elim
  | num x =>
    cases x with
    | fin q =>
      obtain ⟨z, rfl⟩ : ∃ z : ℤ, q = z := ⟨q.num, (Rat.den_eq_one_iff q |>.mp h).symm⟩
      left
      have hlt : lang.lt (.num (.fin z)) (.int l) = decide (z < l) := lang.lt_int z l
      rw [hlt]
      by_cases hz : z < l
      · exact ⟨z, hz.le, if_pos (decide_eq_true hz)⟩
      · exact ⟨l, le_rfl, if_neg (by simpa using hz)⟩
    | minusInfinity => exact .inr rfl
    | infinity | nan | undefined => exact .inl ⟨l, le_rfl, rfl⟩

/-- A range that is empty or inverted, or a start behind the end: nothing is copied. -/
lemma copyRange_idle {target_start start stop : Value}
    (h : lang.lt stop start ∨ stop.same start ∨ lang.lt (.int this.length) start ∨
      lang.le (.int target.length) target_start) :
    (copyRange lang s this target target_start start stop).after s = s.mem := by
  unfold copyRange
  split_ifs with hnone hless hfull
  · rfl
  · rfl
  · rfl
  · obtain h | h | h | h := h
    · exact absurd h hless
    · exact absurd (.inl h) hnone
    · exact absurd (.inr (.inr (.inr h))) hnone
    · exact absurd h hfull

/-- Copying to positions without a fraction stays inside the target. -/
theorem copy_outside {target_start start stop : Value} (hthis : Sound s this)
    (htarget : Sound s target) (ht : target_start.Whole) (ha : start.Whole) (he : stop.Whole) :
    Outside target s.mem ((copy lang s this target target_start start stop).after s) := by
  have hidle {m : Mem} (h : m = s.mem) : Outside target s.mem m := h ▸ Outside.refl _ _
  unfold copy
  dsimp only
  obtain ⟨a, hstart⟩ | hstart := copy_start lang ha
  · obtain ⟨z, hz, hstop⟩ | hstop := copy_end lang this.length he
    · obtain ⟨t, htarget_start⟩ | htarget_start := copy_start lang ht
      · rw [hstart, hstop, htarget_start]
        by_cases hrange : (a : ℤ) < z ∧ t < target.length
        · obtain ⟨haz, htlt⟩ := hrange
          obtain ⟨e, rfl⟩ := Int.eq_ofNat_of_zero_le ((Int.natCast_nonneg a).trans haz.le)
          rw [copyRange_int hthis htarget htlt (by omega) (by omega)]
          refine Outside.write fun _ => ?_
          rw [load_length]
          omega
        · apply hidle
          apply copyRange_idle
          simp only [Language.same_int, Language.lt_int, Language.le_int, decide_eq_true_eq]
          omega
      · rw [htarget_start]
        exact hidle (copyRange_idle (.inr (.inr (.inr rfl))))
    · rw [hstart, hstop]
      exact hidle (copyRange_idle (.inl rfl))
  · rw [hstart]
    exact hidle (copyRange_idle (.inr (.inr (.inl rfl))))

/-! ### Exactly the range -/

/-- `start` to `stop` of `b` has the value, and nothing else is another. -/
structure Filled (b : Slice) (value : UInt8) (start stop : ℕ) (m m' : Mem) : Prop where
  inside : ∀ i, start ≤ i → i < stop → m' b.buffer (b.start + i) = value
  outside : ∀ d i, ¬ (d = b.buffer ∧ b.start + start ≤ i ∧ i < b.start + stop) → m' d i = m d i

/-- `n` bytes of the target are the old ones of the source, and nothing else is another. -/
structure Copied (source target : Slice) (t a n : ℕ) (m m' : Mem) : Prop where
  inside : ∀ i < n, m' target.buffer (target.start + t + i) = m source.buffer (source.start + a + i)
  outside : ∀ d i, ¬ (d = target.buffer ∧ target.start + t ≤ i ∧ i < target.start + t + n) →
    m' d i = m d i

lemma fillValue_int (n : ℕ) : fillValue (.int n) = .int n := by
  unfold fillValue
  by_cases hn : n = 0
  · subst hn
    rfl
  · exact if_neg (by simpa using hn)

lemma slowFill_int {value : UInt8} {start stop : ℕ} (hle : start ≤ stop)
    (hstop : stop ≤ s.size b.buffer) (hsize : s.size b.buffer < 2 ^ 31) :
    slowFill s b.buffer (.int value.toNat) (.int start) (.int stop) =
      .ok (.this, Memory.write s.mem b.buffer start (List.replicate (stop - start) value)) := by
  have hvalue := value.toNat_lt
  have hbyte : UInt8.ofNat ((value.toNat : ℤ) % 256).toNat = value := by
    rw [Int.emod_eq_of_lt (by omega) (by omega), Int.toNat_natCast, UInt8.ofNat_toNat]
  have hint32 {n : ℕ} (h : n ≤ s.size b.buffer) : (Value.int n).isInt32 = some (n : ℤ) :=
    Number.isInt32_int (by omega) (by omega)
  have hcount : ((stop : ℤ) - start).toNat = stop - start := by omega
  rw [slowFill, Number.isInt32_int (by omega) (by omega), hint32 (hle.trans hstop), hint32 hstop]
  dsimp only
  rw [if_neg (by omega), if_neg (by omega), if_neg (by omega), hbyte, hcount, Int.toNat_natCast]

/-- The end that `fill` takes: 0 stands for the end of the Buffer. -/
def fillEnd (b : Slice) (stop : ℕ) : ℕ := if stop = 0 then b.length else stop

lemma fill_start (n : ℕ) : (if (Value.int n).falsy then .int 0 else .int n) = Value.int n := by
  by_cases hn : n = 0
  · subst hn
    rfl
  · exact if_neg (by simpa using hn)

lemma fill_end (b : Slice) (n : ℕ) :
    (if (Value.int n).falsy then .int b.length else .int n) = Value.int (fillEnd b n) := by
  by_cases hn : n = 0
  · subst hn
    rfl
  · rw [if_neg (by simpa using hn), fillEnd, if_neg hn]

/-- What `fill` does at positions in range. -/
lemma fill_int (lang : Language) (value : UInt8) {start stop : ℕ} (h : Sound s b)
    (hstart : start ≤ fillEnd b stop) (hstop : stop ≤ b.length) :
    ∃ r, fill lang s b (.int value.toNat) (.int start) (.int stop) =
      .ok (r, Memory.write s.mem b.buffer (b.start + start)
        (List.replicate (fillEnd b stop - start) value)) := by
  have hsize := h.size
  have hinside := h.inside
  have hle : fillEnd b stop ≤ b.length := by
    unfold fillEnd
    split_ifs <;> omega
  have hplus {n : ℕ} (hn : n ≤ b.length) :
      lang.plus (.int n) (.int b.start) = .int (b.start + n : ℕ) := by
    have hsmall : |(n : ℤ) + b.start| < 2 ^ 52 := abs_lt.mpr ⟨by omega, by omega⟩
    rw [Language.plus_int lang hsmall, Nat.add_comm, Nat.cast_add]
  unfold fill
  dsimp only
  rw [fill_start, fill_end, fillValue_int, hplus (by omega), hplus hle,
    if_neg (by simp [Number.int]), if_neg (by simpa using hstart)]
  obtain heq | hlt := hstart.eq_or_lt
  · rw [if_pos (by simp [heq]), heq, Nat.sub_self, List.replicate_zero, Memory.write,
      store_nil, Function.update_eq_self]
    exact ⟨_, rfl⟩
  · rw [if_neg (by simp; omega), if_neg (by simp; omega), if_neg (by simp; omega),
      slowFill_int (by omega) (by omega) hsize, Nat.add_sub_add_left]
    exact ⟨_, rfl⟩

lemma filled_write (m : Mem) (b : Slice) (value : UInt8) (start n : ℕ) :
    Filled b value start (start + n) m
      (Memory.write m b.buffer (b.start + start) (List.replicate n value)) := by
  constructor
  · intro i hlow hhigh
    obtain ⟨j, rfl⟩ := Nat.exists_eq_add_of_le hlow
    have hj : j < (List.replicate n value).length := by
      rw [List.length_replicate]
      omega
    rw [Memory.write, Function.update_self, ← Nat.add_assoc, store_inside hj,
      List.getElem_replicate]
  · intro d i hout
    apply Memory.write_outside
    rw [List.length_replicate]
    omega

lemma copied_write (m : Mem) (source target : Slice) (t a n : ℕ) :
    Copied source target t a n m (Memory.write m target.buffer (target.start + t)
      (load (m source.buffer) (source.start + a) n)) := by
  constructor
  · intro i hi
    have hi' : i < (load (m source.buffer) (source.start + a) n).length := by
      rwa [load_length]
    rw [Memory.write, Function.update_self, store_inside hi']
    simp [load]
  · intro d i hout
    apply Memory.write_outside
    rwa [load_length]

/-- In range no default is taken. -/
lemma copy_int {t a e : ℕ} (he : e ≤ this.length) :
    copy lang s this target (.int t) (.int a) (.int e) =
      copyRange lang s this target (.int t) (.int a) (.int e) := by
  have hstop : (if lang.lt (.int e) (.int this.length) then .int e else .int this.length) =
      Value.int e := by
    by_cases hlt : e < this.length
    · exact if_pos (by simpa using hlt)
    · rw [if_neg (by simpa using hlt), Nat.le_antisymm he (Nat.not_lt.mp hlt)]
  unfold copy
  dsimp only
  rw [hstop, if_pos (by simp), if_pos (by simp)]

/-- **Exactly the range**: `copy` makes the bytes of the target those of the source from before, as
many as fit, and changes nothing else. `fill` sets exactly its range if and only if the end is not
0, or there is nothing that it changes then. -/
theorem fill_iff_copied (lang : Language) (s : State) (b target : Slice) (hb : Sound s b)
    (htarget : Sound s target) :
    (∀ (value : UInt8) (start stop : ℕ), start ≤ stop → stop ≤ b.length →
      ((∃ r m, fill lang s b (.int value.toNat) (.int start) (.int stop) = .ok (r, m) ∧
          Filled b value start stop s.mem m) ↔
        (stop = 0 → ∀ i < b.length, s.mem b.buffer (b.start + i) = value))) ∧
    ∀ t a e : ℕ, t ≤ target.length → a ≤ e → e ≤ b.length →
      let n := min (e - a) (target.length - t)
      let call := copy lang s b target (.int t) (.int a) (.int e)
      Copied b target t a n s.mem (call.after s) ∧
        (t < target.length → call = .ok (.count n, call.after s)) := by
  constructor
  · intro value start stop hle hstop
    have hstart : start ≤ fillEnd b stop := by
      unfold fillEnd
      split_ifs <;> omega
    obtain ⟨r, hfill⟩ := fill_int lang value hb hstart hstop
    have hfilled := filled_write s.mem b value start (fillEnd b stop - start)
    rw [Nat.add_sub_of_le hstart] at hfilled
    constructor
    · rintro ⟨r', m, hcall, hexact⟩ rfl i hi
      obtain ⟨-, rfl⟩ := Prod.mk.inj (Except.ok.inj (hfill.symm.trans hcall))
      have hunchanged := hexact.outside b.buffer (b.start + i) (by omega)
      rw [← hunchanged]
      exact hfilled.inside i (by omega) hi
    · intro hsame
      refine ⟨r, _, hfill, ?_⟩
      by_cases hzero : stop = 0
      · subst hzero
        refine ⟨fun i hlow hhigh => by omega, fun d i _ => ?_⟩
        by_cases hin : d = b.buffer ∧ b.start ≤ i ∧ i < b.start + b.length
        · obtain ⟨rfl, hlow, hhigh⟩ := hin
          obtain ⟨j, rfl⟩ := Nat.exists_eq_add_of_le hlow
          rw [hsame rfl j (by omega)]
          exact hfilled.inside j (by omega) (by unfold fillEnd; rw [if_pos rfl]; omega)
        · have hend : fillEnd b 0 = b.length := if_pos rfl
          exact hfilled.outside d i (by rw [hend]; omega)
      · have hend : fillEnd b stop = stop := if_neg hzero
        rw [hend] at hfilled ⊢
        exact hfilled
  · intro t a e ht hae he
    dsimp only
    rw [copy_int he]
    by_cases hrange : a < e ∧ t < target.length
    · rw [copyRange_int hb htarget hrange.2 hrange.1 he]
      exact ⟨copied_write _ _ _ _ _ _, fun _ => rfl⟩
    · have hn : min (e - a) (target.length - t) = 0 := by omega
      have hidle : (copyRange lang s b target (.int t) (.int a) (.int e)).after s = s.mem := by
        apply copyRange_idle
        simp only [Language.same_int, Language.lt_int, Language.le_int, decide_eq_true_eq]
        omega
      rw [hidle, hn]
      refine ⟨⟨fun i hi => absurd hi (Nat.not_lt_zero i), fun _ _ _ => rfl⟩, fun htlt => ?_⟩
      have hempty : e = a := by omega
      exact if_pos (.inl (by simp [hempty]))

/-! ### A memory of 64 bytes -/

/-- The numerals of the language, as far as they are decimal and whole. -/
def decimal : Language where
  toNumber s :=
    if s.all fun c => 48 ≤ c ∧ c ≤ 57 then .int (s.foldl (fun n c => 10 * n + (c.toNat - 48)) 0)
    else .nan
  toString
    | .fin q => js (if q.den = 1 ∧ 0 ≤ q then Nat.repr q.num.toNat else "?")
    | _ => js "?"

/-- Every parent has 64 bytes, each its own place. -/
def small : State := ⟨fun _ i => UInt8.ofNat i, fun _ => 64, 2, 8 * 1024, none⟩

lemma small_sound (start length : ℕ) (h : start + length ≤ 64) :
    Sound small ⟨1, start, length⟩ :=
  ⟨h, show 64 < 2 ^ 31 by norm_num⟩

/-- Two bytes are set; and between two windows that overlap, eight bytes are copied to two places
further on. -/
theorem fill_iff_copied_overlap :
    (∃ r m, fill decimal small ⟨1, 8, 16⟩ (.int 1) (.int 2) (.int 4) = .ok (r, m) ∧
      Filled ⟨1, 8, 16⟩ 1 2 4 small.mem m) ∧
    Copied ⟨1, 8, 16⟩ ⟨1, 10, 10⟩ 0 0 8 small.mem
      ((copy decimal small ⟨1, 8, 16⟩ ⟨1, 10, 10⟩ (.int 0) (.int 0) (.int 8)).after small) := by
  obtain ⟨hfill, hcopy⟩ := fill_iff_copied decimal small ⟨1, 8, 16⟩ ⟨1, 10, 10⟩
    (small_sound _ _ (by decide)) (small_sound _ _ (by decide))
  exact ⟨(hfill 1 2 4 (by decide) (by decide)).mpr fun h => absurd h (by decide),
    (hcopy 0 0 8 (by decide) (by decide) (by decide)).1⟩

/-- Of an empty range at the front all is filled. -/
theorem fill_overflows : ¬ ∃ r m,
    fill decimal small ⟨1, 8, 4⟩ (.int 1) (.int 0) (.int 0) = .ok (r, m) ∧
      Filled ⟨1, 8, 4⟩ 1 0 0 small.mem m := by
  rintro ⟨r, m, hfill, hfilled⟩
  obtain ⟨r', hall⟩ := fill_int decimal 1 (small_sound 8 4 (by decide)) (Nat.zero_le 4)
    (Nat.zero_le 4)
  obtain ⟨-, rfl⟩ := Prod.mk.inj (Except.ok.inj (hall.symm.trans hfill))
  exact absurd (hfilled.outside 1 8 (by decide)) (by decide)

end NodeCore.BufferEdit
