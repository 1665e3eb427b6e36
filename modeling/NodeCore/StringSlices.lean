import NodeCore.StringDecoderCuts

/-!
`Buffer.toString` in the encodings that write a Buffer down byte by byte or in groups of three, and
what `StringDecoder` makes of them.
-/

namespace NodeCore.StringDecoder

open NodeCore.Encoding

/-! ### `StringBytes::Encode` -/

/-- `force_ascii` -/
def asciiSlice (b : Bytes) : Str := b.map fun c => (c &&& 0x7F).toUInt16

def binarySlice (b : Bytes) : Str := b.map UInt8.toUInt16

def hexTable : Str := js "0123456789abcdef"

/-- `hex_encode` -/
def hexSlice (b : Bytes) : Str :=
  b.flatMap fun val : UInt8 =>
    [hexTable.getD (val >>> 4).toNat 0, hexTable.getD (val &&& 15).toNat 0]

def base64Table : Str := js "ABCDEFGHIJKLMNOPQRSTUVWXYZabcdefghijklmnopqrstuvwxyz0123456789+/"

def base64Unit (i : UInt8) : UInt16 := base64Table.getD i.toNat 0

/-- The padding. -/
def pad : UInt16 := 61

/-- `base64_encode` -/
def base64Slice : Bytes → Str
  | a :: b :: c :: r =>
    base64Unit (a >>> 2) :: base64Unit (((a &&& 3) <<< 4) ||| (b >>> 4)) ::
      base64Unit (((b &&& 0x0F) <<< 2) ||| (c >>> 6)) :: base64Unit (c &&& 0x3F) :: base64Slice r
  | [a, b] =>
    [base64Unit (a >>> 2), base64Unit (((a &&& 3) <<< 4) ||| (b >>> 4)),
      base64Unit ((b &&& 0x0F) <<< 2), pad]
  | [a] => [base64Unit (a >>> 2), base64Unit ((a &&& 3) <<< 4), pad, pad]
  | [] => []

/-! ### Bytes and units -/

lemma base64Unit_plain (i : UInt8) : base64Unit i < 0x80 ∧ base64Unit i ≠ pad := by
  have hall : base64Table.all (fun u => decide (u < 0x80 ∧ u ≠ pad)) = true := by decide
  unfold base64Unit
  rw [List.getD_eq_getElem?_getD]
  cases hi : base64Table[i.toNat]? with
  | none => decide
  | some u => exact of_decide_eq_true (List.all_eq_true.mp hall u (List.mem_of_getElem? hi))

lemma length_hexSlice (b : Bytes) : (hexSlice b).length = 2 * b.length := by
  induction b with
  | nil => rfl
  | cons c b ih =>
    have hcons : hexSlice (c :: b) =
        hexTable.getD (c >>> 4).toNat 0 :: hexTable.getD (c &&& 15).toNat 0 :: hexSlice b := rfl
    rw [hcons]
    simp only [List.length_cons, ih]
    omega

lemma length_base64Slice (b : Bytes) : (base64Slice b).length = 4 * ((b.length + 2) / 3) := by
  induction b using base64Slice.induct with
  | case1 a b c r ih =>
    simp only [base64Slice, List.length_cons, ih]
    omega
  | case2 a b => simp [base64Slice]
  | case3 a => simp [base64Slice]
  | case4 => simp [base64Slice]

lemma base64Slice_append {whole : Bytes} (h : whole.length % 3 = 0) (b : Bytes) :
    base64Slice (whole ++ b) = base64Slice whole ++ base64Slice b := by
  induction whole using base64Slice.induct with
  | case1 a b c r ih =>
    have hr : r.length % 3 = 0 := by
      simp only [List.length_cons] at h
      omega
    simp [base64Slice, ih hr]
  | case2 a b => simp at h
  | case3 a => simp at h
  | case4 => simp [base64Slice]

/-- Groups of three bytes need no padding. -/
lemma pad_notMem_base64Slice {b : Bytes} (h : b.length % 3 = 0) : pad ∉ base64Slice b := by
  induction b using base64Slice.induct with
  | case1 a b c r ih =>
    have hr : r.length % 3 = 0 := by
      simp only [List.length_cons] at h
      omega
    simp only [base64Slice, List.mem_cons, not_or]
    exact ⟨(base64Unit_plain _).2.symm, (base64Unit_plain _).2.symm, (base64Unit_plain _).2.symm,
      (base64Unit_plain _).2.symm, ih hr⟩
  | case2 a b => simp at h
  | case3 a => simp at h
  | case4 => simp [base64Slice]

/-- What is left of a group does. -/
lemma pad_mem_base64Slice {b : Bytes} (hpos : b ≠ []) (hlt : b.length < 3) :
    pad ∈ base64Slice b := by
  match b with
  | [] => exact absurd rfl hpos
  | [a] => simp [base64Slice]
  | [a, b] => simp [base64Slice]
  | a :: b :: c :: r =>
    simp only [List.length_cons] at hlt
    omega

lemma base64Slice_lt (b : Bytes) : ∀ u ∈ base64Slice b, u < 0x80 := by
  have hunit (i : UInt8) : base64Unit i < 0x80 := (base64Unit_plain i).1
  have hpad : pad < 0x80 := by decide
  induction b using base64Slice.induct with
  | case1 a b c r ih =>
    simp only [base64Slice, List.forall_mem_cons]
    exact ⟨hunit _, hunit _, hunit _, hunit _, ih⟩
  | case2 a b => simp [base64Slice, hunit, hpad]
  | case3 a => simp [base64Slice, hunit, hpad]
  | case4 => simp [base64Slice]

/-! ### The decoder of base64 -/

def base64DetectIncompleteChar (d : Decoder) (buffer : Bytes) : ℕ × Decoder :=
  let incomplete := buffer.length % 3
  (incomplete, { d with
    charReceived := incomplete
    charLength := if incomplete ≠ 0 then 3 else 0 })

def base64 : Scheme where
  surrogateSize := 3
  detectIncompleteChar := base64DetectIncompleteChar
  toString := base64Slice
  write := fun c => (Encoding.write .base64 [c]).getD []

/-- The bytes of a group that is not complete. -/
structure Decoder.Grouped (d : Decoder) (held : Bytes) : Prop where
  keeps : d.Keeps held
  lt : held.length < 3
  length : d.charLength = if held = [] then 0 else 3

lemma endsLead_of_lt {s : Str} (h : ∀ u ∈ s, u < 0x80) : endsLead s = false := by
  rcases List.eq_nil_or_concat s with rfl | ⟨init, u, rfl⟩
  · rfl
  · rw [List.concat_eq_append] at h ⊢
    have hu : u < 0x80 := h u (by simp)
    rw [endsLead_concat, Bool.eq_false_iff, ne_eq, isLead_iff]
    rintro ⟨hle, -⟩
    have : u.toNat < 0x80 := hu
    omega

lemma Decoder.grouped_new : Decoder.new.Grouped [] := ⟨keeps_new, by decide, rfl⟩

/-- How a Buffer is cut into groups. -/
lemma exists_groups (b : Bytes) : ∃ whole held : Bytes, b = whole ++ held ∧
    whole.length % 3 = 0 ∧ held.length < 3 :=
  ⟨b.take (b.length - b.length % 3), b.drop (b.length - b.length % 3),
    (List.take_append_drop _ _).symm, by rw [List.length_take]; omega,
    by rw [List.length_drop]; omega⟩

lemma writeRest_base64 {d : Decoder} (hsize : d.charBuffer.length = 6) {s : Str}
    (hs : ∀ u ∈ s, u < 0x80) {whole held : Bytes} (hwhole : whole.length % 3 = 0)
    (hheld : held.length < 3) : ∃ d', writeRest base64 d s (whole ++ held) =
      (some (s ++ base64Slice whole), d') ∧ d'.Grouped held := by
  have hlead : endsLead (s ++ base64Slice whole) = false := by
    refine endsLead_of_lt fun u hu => ?_
    rcases List.mem_append.mp hu with hu | hu
    · exact hs u hu
    · exact base64Slice_lt whole u hu
  have hmod : (whole ++ held).length % 3 = held.length := by
    rw [List.length_append]
    omega
  have hdetect : base64.detectIncompleteChar d (whole ++ held) = (held.length, { d with
      charReceived := held.length
      charLength := if held.length ≠ 0 then 3 else 0 }) := by
    show base64DetectIncompleteChar d (whole ++ held) = _
    unfold base64DetectIncompleteChar
    rw [hmod]
  rcases eq_or_ne held [] with rfl | hne
  · rw [List.append_nil] at hdetect ⊢
    rw [writeRest_whole base64 hdetect rfl]
    exact ⟨_, emit_of_not_lead hlead, ⟨hsize, rfl, rfl⟩, by decide, rfl⟩
  · have hpos : held.length ≠ 0 := fun h0 => hne (List.length_eq_zero_iff.mp h0)
    rw [writeRest_part base64 hdetect (by simp [hpos]) (by simp only; omega)]
    refine ⟨_, emit_of_not_lead hlead, ⟨?_, rfl, ?_⟩, hheld, ?_⟩
    · simp only [List.length_append, List.length_drop]
      omega
    · exact List.take_left' rfl
    · rw [if_neg hne]
      simp [hpos]

/-- **A write gives the groups that it completes.** -/
lemma write_base64 {d : Decoder} {held : Bytes} (hd : d.Grouped held) (buffer : Bytes) :
    ∃ d' whole held', write base64 d buffer = (some (base64Slice whole), d') ∧
      d'.Grouped held' ∧ whole.length % 3 = 0 ∧ whole ++ held' = held ++ buffer := by
  obtain ⟨hk, hlt, hlen⟩ := hd
  unfold write
  rcases eq_or_ne held [] with rfl | hne
  · rw [if_pos (by rw [hlen, if_pos rfl])]
    obtain ⟨whole, held', rfl, hwhole, hheld⟩ := exists_groups buffer
    have hnone : ∀ u ∈ ([] : Str), u < 0x80 := fun u hu => by cases hu
    obtain ⟨d', hw, hd'⟩ := writeRest_base64 hk.size hnone hwhole hheld
    exact ⟨d', whole, held', hw, hd', hwhole, rfl⟩
  · have hthree : d.charLength = 3 := by rw [hlen, if_neg hne]
    have hpos := List.length_pos_iff.mpr hne
    rw [if_neg (by omega)]
    by_cases hshort : held.length + buffer.length < 3
    · obtain ⟨charBuffer, hkeeps, hfill⟩ := fill_short base64 hk buffer (by omega) (by omega) 2
      rw [rounds, hfill]
      refine ⟨_, [], held ++ buffer, rfl, ⟨hkeeps, by simpa using hshort, ?_⟩, rfl, by simp⟩
      rw [if_neg (by simp [hne])]
      exact hthree
    · -- the first bytes complete the group that is held back
      obtain ⟨left, tail, rfl, hleft⟩ : ∃ left tail, buffer = left ++ tail ∧
          left.length = 3 - held.length :=
        ⟨buffer.take (3 - held.length), buffer.drop (3 - held.length),
          (List.take_append_drop _ _).symm, by rw [List.length_take]; omega⟩
      obtain ⟨charBuffer, hsize, -, hfill⟩ :=
        fill_reach base64 hk left tail (by omega) (by omega) 2
      have hgroup : (held ++ left).length = 3 := by
        rw [List.length_append]
        omega
      have hplain := base64Slice_lt (held ++ left)
      have hfull : fill base64 rounds d (left ++ tail) 0 =
          .full (base64Slice (held ++ left)) ⟨charBuffer, 0, 0⟩ left.length := by
        have hlead : ¬ endsLead (base64.toString (held ++ left)) = true := by
          show ¬ endsLead (base64Slice (held ++ left)) = true
          rw [endsLead_of_lt hplain]
          exact Bool.false_ne_true
        rw [rounds, hfill, if_neg hlead]
        rfl
      rw [hfull]
      dsimp only
      split_ifs with hall
      · have htail : tail = [] := by
          rw [List.length_append] at hall
          exact List.length_eq_zero_iff.mp (by omega)
        subst htail
        exact ⟨_, held ++ left, [], rfl, ⟨⟨hsize, rfl, rfl⟩, by decide, rfl⟩, by omega, by simp⟩
      · obtain ⟨whole, held', rfl, hwhole, hheld⟩ := exists_groups tail
        obtain ⟨d', hw, hd'⟩ :=
          writeRest_base64 (d := ⟨charBuffer, 0, 0⟩) hsize hplain hwhole hheld
        rw [List.drop_left' rfl, hw]
        refine ⟨d', held ++ left ++ whole, held', ?_, hd', ?_, ?_⟩
        · rw [base64Slice_append (show (held ++ left).length % 3 = 0 by omega)]
        · rw [List.length_append]
          omega
        · simp only [List.append_assoc]

/-- `end` gives the group that is not complete. -/
lemma end_base64 {d : Decoder} {held : Bytes} (hd : d.Grouped held) :
    «end» base64 d = base64Slice held := by
  obtain ⟨⟨-, hrecv, hkept⟩, -, -⟩ := hd
  unfold «end»
  split_ifs with h
  · show base64Slice _ = _
    rw [hrecv, hkept]
  · have hnil : held = [] := List.length_eq_zero_iff.mp (by omega)
    simp [hnil, base64Slice]

end NodeCore.StringDecoder
