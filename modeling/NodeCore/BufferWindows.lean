import NodeCore.BufferEdit

/-!
Slices of slices, and what is written through them.

A slice of a Buffer has the parent of the Buffer, and an offset of its own. Its bytes are the part
that the positions name of the bytes of the Buffer, and so on for a slice of it.
-/

namespace NodeCore.BufferWindows

open Encoding JsNumber Memory BufferAccess BufferPool BufferEdit

/-! ### Parts of a list -/

section Part

variable {α : Type*}

/-- The position that a number names; a negative one counts from the end. -/
def position (n : ℕ) (z : ℤ) : ℕ := if z < 0 then (n + z).toNat else min z.toNat n

/-- What lies between two positions. -/
def part (l : List α) (z : ℤ × ℤ) : List α :=
  (l.take (position l.length z.2)).drop (position l.length z.1)

example : part [0, 1, 2, 3, 4] (1, -1) = [1, 2, 3] := by decide
example : part [0, 1, 2, 3, 4] (-2, 9) = [3, 4] := by decide

lemma position_le (n : ℕ) (z : ℤ) : position n z ≤ n := by
  unfold position
  split_ifs <;> omega

lemma load_take (m : ℕ → α) (base n k : ℕ) : (load m base n).take k = load m base (min k n) := by
  apply List.ext_getElem
  · simp
  · intro i h₁ h₂
    simp [load]

lemma load_drop (m : ℕ → α) (base n k : ℕ) :
    (load m base n).drop k = load m (base + k) (n - k) := by
  apply List.ext_getElem
  · simp
  · intro i h₁ h₂
    simp [load, Nat.add_assoc]

/-- A part of what lies in memory. -/
lemma part_load (m : ℕ → α) (base n : ℕ) (z : ℤ × ℤ) :
    part (load m base n) z =
      load m (base + position n z.1) (position n z.2 - position n z.1) := by
  rw [part, load_length, load_take, load_drop, Nat.min_eq_left (position_le n z.2)]

end Part

/-! ### Slices -/

variable {lang : Language} {s : State} {b w : Slice}

lemma clamp_int {z : ℤ} {n d : ℕ} (hz : |z| < 2 ^ 31) : clamp (.int z) n d = position n z := by
  obtain ⟨hlow, hhigh⟩ := abs_lt.mp hz
  have hbits : (Number.fin z).bits.toInt = z := Number.toInt_bits_int (by omega) (by omega)
  unfold clamp position
  dsimp only [Value.int, Number.int]
  rw [hbits]
  split_ifs <;> omega

/-- The slice between two positions. -/
def window (b : Slice) (z : ℤ × ℤ) : Slice :=
  ⟨b.buffer, position b.length z.1 + b.start, position b.length z.2 - position b.length z.1⟩

lemma window_within (b : Slice) (z : ℤ × ℤ) : (window b z).Within b := by
  have h₁ := position_le b.length z.1
  have h₂ := position_le b.length z.2
  refine ⟨rfl, ?_, ?_⟩ <;> dsimp only [window] <;> omega

lemma window_content (b : Slice) (z : ℤ × ℤ) (m : Mem) :
    (window b z).content m = part (b.content m) z := by
  rw [Slice.content, Slice.content, part_load, window, Nat.add_comm]

lemma sound_within (h : Sound s b) (hw : w.Within b) : Sound s w := by
  obtain ⟨hbuffer, -, hstop⟩ := hw
  have hinside := h.inside
  constructor
  · rw [hbuffer]
    omega
  · rw [hbuffer]
    exact h.size

lemma slice_int (h : Sound s b) {z : ℤ × ℤ} (hz : |z.1| < 2 ^ 31 ∧ |z.2| < 2 ^ 31) :
    slice s b (.int z.1) (.int z.2) = .ok (window b z) := by
  have hw := (sound_within h (window_within b z)).inside
  dsimp only [window] at hw
  unfold slice
  dsimp only
  rw [clamp_int hz.1, clamp_int hz.2, makeFastBuffer, if_neg (by dsimp only; omega),
    if_neg (by dsimp only; omega)]
  rfl

/-- One `slice` behind another. -/
def slices (s : State) (b : Slice) (zs : List (ℤ × ℤ)) : Except Thrown Slice :=
  zs.foldlM (fun b z => slice s b (.int z.1) (.int z.2)) b

lemma Within.trans {c d e : Slice} (h : c.Within d) (h' : d.Within e) : c.Within e := by
  obtain ⟨hbuffer, hstart, hstop⟩ := h
  obtain ⟨hbuffer', hstart', hstop'⟩ := h'
  exact ⟨hbuffer.trans hbuffer', by omega, by omega⟩

/-- **The window of a chain of slices.** -/
theorem slices_window {zs : List (ℤ × ℤ)} (hb : Sound s b)
    (hzs : ∀ z ∈ zs, |z.1| < 2 ^ 31 ∧ |z.2| < 2 ^ 31) :
    slices s b zs = .ok (zs.foldl window b) ∧ (zs.foldl window b).Within b ∧
      ∀ m : Mem, (zs.foldl window b).content m = zs.foldl part (b.content m) := by
  induction zs generalizing b with
  | nil => exact ⟨rfl, ⟨rfl, le_rfl, le_rfl⟩, fun _ => rfl⟩
  | cons z zs ih =>
    obtain ⟨hz, hzs⟩ := List.forall_mem_cons.mp hzs
    have hwithin := window_within b z
    obtain ⟨hslices, hwithin', hcontent⟩ := ih (sound_within hb hwithin) hzs
    refine ⟨?_, Within.trans hwithin' hwithin, fun m => ?_⟩
    · rw [slices, List.foldlM_cons, slice_int hb hz]
      exact hslices
    · rw [List.foldl_cons, List.foldl_cons, hcontent, window_content]

/-! ### What is written through a Buffer -/

/-- A call that writes into a Buffer: of `copy` it is the target. -/
inductive Edit
  | write (string : Str) (offset length encoding : Value)
  | copy (source : Slice) (target_start start stop : Value)
  | fill (value start stop : Value)
  | int (f : Format) (value offset : Number) (noAssert : Bool)

/-- The state after the call. -/
def Edit.on (lang : Language) (b : Slice) (s : State) : Edit → State
  | .write string offset length encoding =>
    { s with mem := (BufferEdit.write lang s b string offset length encoding).after s }
  | .copy source target_start start stop =>
    { s with mem := (BufferEdit.copy lang s source b target_start start stop).after s }
  | .fill value start stop => { s with mem := (BufferEdit.fill lang s b value start stop).after s }
  | .int f value offset noAssert =>
    { s with mem := ((f.write b value offset noAssert).on s.mem).2 }

def edited (lang : Language) (b : Slice) (s : State) (edits : List Edit) : State :=
  edits.foldl (Edit.on lang b) s

/-- The source of a copy is a Buffer. -/
def Edit.Sound (s : State) : Edit → Prop
  | .copy source _ _ _ => BufferEdit.Sound s source
  | _ => True

/-- The positions of a copy are numbers without a fraction. -/
def Edit.Whole : Edit → Prop
  | .copy _ target_start start stop => target_start.Whole ∧ start.Whole ∧ stop.Whole
  | _ => True

lemma setByte_outside {m m' : Mem} (h : Outside b m m') (offset value : Number) :
    Outside b m (setByte b offset value m') := by
  refine h.trans ?_
  unfold setByte
  cases hindex : index b offset with
  | none => exact Outside.refl _ _
  | some i =>
    have hi : i < b.length := by
      cases offset with
      | fin q =>
        rw [index] at hindex
        split_ifs at hindex with hq
        obtain rfl := Option.some.inj hindex
        obtain ⟨hden, hnonneg, hlt⟩ := hq
        obtain ⟨z, rfl⟩ : ∃ z : ℤ, q = z := ⟨q.num, (Rat.den_eq_one_iff q |>.mp hden).symm⟩
        have hlt' : z < b.length := by exact_mod_cast hlt
        have hnonneg' : 0 ≤ z := by exact_mod_cast hnonneg
        rw [Rat.num_intCast]
        omega
      | infinity | minusInfinity | nan | undefined => cases hindex
    exact Outside.write fun _ => ⟨by omega, by rw [List.length_singleton]; omega⟩

/-- Writing an integer stays inside, with its check and without. -/
lemma int_outside (f : Format) (b : Slice) (value offset : Number) (noAssert : Bool) (m : Mem) :
    Outside b m ((f.write b value offset noAssert).on m).2 := by
  have hput : Outside b m (f.put b value offset m) := by
    have h16 (bigEndian : Bool) (value : Number) :
        Outside b m (writeUInt16 bigEndian b value offset m) := by
      unfold writeUInt16
      dsimp only
      split_ifs
      · exact setByte_outside (setByte_outside (Outside.refl _ _) _ _) _ _
      · exact setByte_outside (setByte_outside (Outside.refl _ _) _ _) _ _
    have h32 (bigEndian : Bool) (value : Number) :
        Outside b m (writeUInt32 bigEndian b value offset m) := by
      unfold writeUInt32
      dsimp only
      split_ifs
      all_goals
        apply setByte_outside
        apply setByte_outside
        apply setByte_outside
        apply setByte_outside
        exact Outside.refl _ _
    obtain ⟨width, signed, bigEndian⟩ := f
    cases width <;> cases signed
    · exact setByte_outside (Outside.refl _ _) _ _
    · exact setByte_outside (Outside.refl _ _) _ _
    · exact h16 _ _
    · exact h16 _ _
    · exact h32 _ _
    · exact h32 _ _
  obtain ⟨max, min, hwrite, -⟩ := f.write_eq
  rw [hwrite]
  cases noAssert with
  | true => exact hput
  | false =>
    cases hcheck : checkInt b value offset f.bytes max min with
    | ok =>
      rw [writer, hcheck]
      exact hput
    | error e =>
      rw [writer, hcheck]
      exact Outside.refl _ _

/-- One call. -/
lemma Edit.on_outside {edit : Edit} (hb : BufferEdit.Sound s b) (hsound : edit.Sound s)
    (hwhole : edit.Whole) : Outside b s.mem (edit.on lang b s).mem := by
  cases edit with
  | write string offset length encoding => exact BufferEdit.write_outside hb _ _ _ _
  | copy source target_start start stop =>
    exact copy_outside hsound hb hwhole.1 hwhole.2.1 hwhole.2.2
  | fill value start stop => exact fill_outside hb _ _ _
  | int f value offset noAssert => exact int_outside _ _ _ _ _ _

/-- A call leaves Buffers where they are. -/
lemma Edit.on_size (edit : Edit) : (edit.on lang b s).size = s.size := by
  cases edit <;> rfl

lemma Edit.sound_on {edit edit' : Edit} (h : edit'.Sound s) : edit'.Sound (edit.on lang b s) := by
  cases edit' with
  | copy source target_start start stop =>
    exact ⟨by rw [Edit.on_size]; exact h.inside, by rw [Edit.on_size]; exact h.size⟩
  | write | fill | int => trivial

/-- Any calls. -/
lemma edited_outside {edits : List Edit} (hb : BufferEdit.Sound s b)
    (hedits : ∀ edit ∈ edits, edit.Sound s ∧ edit.Whole) :
    Outside b s.mem (edited lang b s edits).mem := by
  induction edits generalizing s with
  | nil => exact Outside.refl _ _
  | cons edit edits ih =>
    obtain ⟨⟨hsound, hwhole⟩, hedits⟩ := List.forall_mem_cons.mp hedits
    have hb' : BufferEdit.Sound (edit.on lang b s) b :=
      ⟨by rw [Edit.on_size]; exact hb.inside, by rw [Edit.on_size]; exact hb.size⟩
    exact (Edit.on_outside hb hsound hwhole).trans
      (ih hb' fun edit' h => ⟨Edit.sound_on (hedits edit' h).1, (hedits edit' h).2⟩)

/-- **Slice windows**: a chain of slices gives the window that its parts compose to; and whatever is
written through it, if a copy to it has whole numbers as positions, changes nothing outside. -/
theorem slices_edited (lang : Language) (s : State) (b : Slice) (zs : List (ℤ × ℤ))
    (hb : BufferEdit.Sound s b) (hzs : ∀ z ∈ zs, |z.1| < 2 ^ 31 ∧ |z.2| < 2 ^ 31) :
    ∃ w, slices s b zs = .ok w ∧ w.Within b ∧
      (∀ m : Mem, w.content m = zs.foldl part (b.content m)) ∧
      ∀ edits : List Edit, (∀ edit ∈ edits, edit.Sound s ∧ edit.Whole) →
        Outside w s.mem (edited lang w s edits).mem := by
  obtain ⟨hslices, hwithin, hcontent⟩ := slices_window hb hzs
  have hw := sound_within hb hwithin
  exact ⟨_, hslices, hwithin, hcontent, fun _ hedits => edited_outside hw hedits⟩

/-- A slice of a slice, with a fill and a copy whose end is negative. -/
theorem slices_edited_twice : ∃ w, slices small ⟨1, 8, 32⟩ [(4, -4), (-10, 100)] = .ok w ∧
    w.content small.mem = part (part (Slice.content ⟨1, 8, 32⟩ small.mem) (4, -4)) (-10, 100) ∧
    Outside w small.mem (edited decimal w small [.fill (.int 7) (.str (js "1")) .undefined,
      .copy ⟨1, 0, 64⟩ (.int 2) .undefined (.int (-1)),
      .write (js "abc") (.str (js "2")) .undefined .undefined]).mem := by
  obtain ⟨w, hslices, -, hcontent, hedits⟩ := slices_edited decimal small ⟨1, 8, 32⟩
    [(4, -4), (-10, 100)] (small_sound _ _ (by decide)) (by decide)
  refine ⟨w, hslices, hcontent small.mem, hedits _ fun edit hedit => ?_⟩
  simp only [List.mem_cons, List.not_mem_nil, or_false] at hedit
  obtain rfl | rfl | rfl := hedit
  · exact ⟨trivial, trivial⟩
  · exact ⟨small_sound _ _ (by decide), rfl, trivial, rfl⟩
  · exact ⟨trivial, trivial⟩

/-- A start just below 1 is rounded up in the end that is reckoned from it, and not where it is
taken for a whole number: nine bytes are copied to a window of eight. And a position that is a
string is put in front of the offset: `'1'` of the window at 8 is the place 18. -/
theorem copy_overflows :
    slices small ⟨1, 0, 64⟩ [(40, 48)] = .ok ⟨1, 40, 8⟩ ∧
    ¬ Outside ⟨1, 40, 8⟩ small.mem (edited decimal ⟨1, 40, 8⟩ small
      [.copy ⟨1, 0, 32⟩ (.int 0) (.num (.fin (1 - 1 / 2 ^ 53))) .undefined]).mem ∧
    slices small ⟨1, 0, 64⟩ [(8, 16)] = .ok ⟨1, 8, 8⟩ ∧
    ¬ Outside ⟨1, 8, 8⟩ small.mem (edited decimal ⟨1, 8, 8⟩ small
      [.copy ⟨1, 32, 32⟩ (.str (js "1")) .undefined .undefined]).mem := by
  refine ⟨rfl, fun h => ?_, rfl, fun h => ?_⟩
  · exact absurd (h 1 48 (by decide)) (by decide +kernel)
  · exact absurd (h 1 18 (by decide)) (by decide +kernel)

end NodeCore.BufferWindows
