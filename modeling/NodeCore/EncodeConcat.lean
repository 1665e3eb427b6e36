import NodeCore.Encoding

/-!
What the writers make of a concatenation of strings, and how many bytes they give.

The single-byte writers and UCS-2 distribute over every concatenation, UTF-8 over those that
cut no surrogate pair. Hex and base64 read their input in groups, so they do not; for them
the number of bytes settles what is needed.
-/

namespace NodeCore.EncodeConcat

open NodeCore.Encoding

lemma writeOneByte_append (s t : Str) :
    writeOneByte (s ++ t) = writeOneByte s ++ writeOneByte t := List.map_append

lemma writeUcs2_append (s t : Str) : writeUcs2 (s ++ t) = writeUcs2 s ++ writeUcs2 t :=
  List.flatMap_append

lemma writeUcs2_length (s : Str) : (writeUcs2 s).length = 2 * s.length := by
  induction s with
  | nil => rfl
  | cons c t ih =>
    simp only [writeUcs2, List.flatMap_cons, List.length_append] at ih ⊢
    rw [ih]; simp; ring

lemma isLead_of_lt {c : UInt16} (h : c < 0x80) : isLead c = false := by
  simp [isLead, UInt16.le_iff_toNat_le, UInt16.lt_iff_toNat_lt] at h ⊢
  omega

lemma isTrail_of_isLead {c : UInt16} (h : isLead c = true) : isTrail c = false := by
  simp [isLead, isTrail, UInt16.le_iff_toNat_le] at h ⊢
  omega

/-- The pair at the seam of two strings, if there is one. -/
def seam (s t : Str) : Bool :=
  match s.getLast?, t.head? with
  | some c, some d => isLead c && isTrail d
  | _, _ => false

lemma seam_cons_cons (c d : UInt16) (s t : Str) : seam (c :: d :: s) t = seam (d :: s) t := by
  simp [seam, List.getLast?_cons_cons]

/-- Where no surrogate pair is cut, UTF-8 distributes over a concatenation. -/
lemma writeUtf8_append {s t : Str} (h : seam s t = false) :
    writeUtf8 (s ++ t) = writeUtf8 s ++ writeUtf8 t := by
  induction s using writeUtf8.induct with
  | case1 => simp [writeUtf8]
  | case2 c =>
    cases t with
    | nil => simp [writeUtf8]
    | cons d r =>
      have hcd : ¬(isLead c = true ∧ isTrail d = true) := by simpa [seam] using h
      simp [writeUtf8, hcd]
  | case3 c d r hcd ih =>
    have hr : seam r t = false := by
      cases r with
      | nil => simp [seam]
      | cons e r => rw [← h, seam_cons_cons, seam_cons_cons]
    simp [writeUtf8, hcd, ih hr]
  | case4 c d r hcd ih =>
    have hr : seam (d :: r) t = false := by rw [← h, seam_cons_cons]
    simp [writeUtf8, hcd] at ih ⊢
    exact ih hr

lemma writeUtf8_cons {d : UInt16} (h : isLead d = false) (r : Str) :
    writeUtf8 (d :: r) = utf8Unit d ++ writeUtf8 r := by
  cases r <;> simp [writeUtf8, h]

lemma utf8Unit_ascii {c : UInt16} (h : c < 0x80) : utf8Unit c = [c.toUInt8] := by
  have hc : c ≤ 0x7F := by
    simp [UInt16.le_iff_toNat_le, UInt16.lt_iff_toNat_lt] at h ⊢
    omega
  simp [utf8Unit, hc]

lemma utf8Unit_length_surrogate {c : UInt16} (h : isLead c = true ∨ isTrail c = true) :
    (utf8Unit c).length = 3 := by
  have h1 : ¬ c ≤ 0x7F ∧ ¬ c ≤ 0x7FF := by
    simp [isLead, isTrail, UInt16.le_iff_toNat_le] at h ⊢
    omega
  simp [utf8Unit, h1.1, h1.2]

lemma utf8Unit_length_pos (c : UInt16) : 1 ≤ (utf8Unit c).length := by
  unfold utf8Unit
  split_ifs <;> simp

lemma utf8Pair_length (c d : UInt16) : (utf8Pair c d).length = 4 := rfl

/-- Two lone surrogates take six bytes, the pair they make takes four. -/
lemma writeUtf8_length_seam {s t : Str} (h : seam s t = true) :
    (writeUtf8 (s ++ t)).length + 2 = (writeUtf8 s).length + (writeUtf8 t).length := by
  induction s using writeUtf8.induct with
  | case1 => simp [seam] at h
  | case2 c =>
    cases t with
    | nil => simp [seam] at h
    | cons d r =>
      obtain ⟨hc, hd⟩ : isLead c = true ∧ isTrail d = true := by simpa [seam] using h
      have hd' : isLead d = false := by
        by_contra hl
        simp [isTrail_of_isLead (by simpa using hl)] at hd
      have h3 := utf8Unit_length_surrogate (Or.inl hc)
      have h3' := utf8Unit_length_surrogate (Or.inr hd)
      rw [writeUtf8_cons hd']
      simp only [writeUtf8, List.singleton_append, hc, hd, and_self, if_true,
        List.length_append, utf8Pair_length]
      omega
  | case3 c d r hcd ih =>
    have hr : seam r t = true := by
      cases r with
      | nil =>
        -- a trail surrogate at the end starts no pair
        have hd := hcd.2
        cases t with
        | nil => simp [seam] at h
        | cons e r =>
          have hl : isLead d = true := by simp [seam] at h; exact h.1
          simp [isTrail_of_isLead hl] at hd
      | cons e r => rw [← h, seam_cons_cons, seam_cons_cons]
    have := ih hr
    simp [writeUtf8, hcd, utf8Pair_length] at this ⊢
    omega
  | case4 c d r hcd ih =>
    have hr : seam (d :: r) t = true := by rw [← h, seam_cons_cons]
    have := ih hr
    simp [writeUtf8, hcd] at this ⊢
    omega

theorem writeUtf8_append_iff (s t : Str) :
    writeUtf8 (s ++ t) = writeUtf8 s ++ writeUtf8 t ↔ seam s t = false := by
  constructor
  · intro h
    by_contra hs
    have := writeUtf8_length_seam (by simpa using hs)
    rw [h, List.length_append] at this
    omega
  · exact writeUtf8_append

/-! ### Text in ASCII -/

def Ascii (s : Str) : Prop := ∀ c ∈ s, c < 0x80

instance : DecidablePred Ascii := fun s => List.decidableBAll (· < 0x80) s

lemma Ascii.append {s t : Str} (hs : Ascii s) (ht : Ascii t) : Ascii (s ++ t) := by
  intro c hc
  rcases List.mem_append.mp hc with h | h
  · exact hs c h
  · exact ht c h

lemma writeUtf8_ascii_append {s : Str} (h : Ascii s) (t : Str) :
    writeUtf8 (s ++ t) = writeOneByte s ++ writeUtf8 t := by
  induction s with
  | nil => simp [writeOneByte]
  | cons c r ih =>
    have hc := h c (by simp)
    rw [List.cons_append, writeUtf8_cons (isLead_of_lt hc), utf8Unit_ascii hc,
      ih fun d hd => h d (by simp [hd])]
    simp [writeOneByte]

lemma writeUtf8_ascii {s : Str} (h : Ascii s) : writeUtf8 s = writeOneByte s := by
  simpa [writeUtf8] using writeUtf8_ascii_append h []

lemma writeUtf8_append_ascii (s : Str) {t : Str} (h : Ascii t) :
    writeUtf8 (s ++ t) = writeUtf8 s ++ writeOneByte t := by
  rw [writeUtf8_append, writeUtf8_ascii h]
  unfold seam
  split
  · next c d _ hd =>
    have hd' := h d (List.mem_of_mem_head? hd)
    have : isTrail d = false := by
      simp [isTrail, UInt16.le_iff_toNat_le, UInt16.lt_iff_toNat_lt] at hd' ⊢
      omega
    simp [this]
  · rfl

lemma writeUtf8_length_ge (s : Str) : s.length ≤ (writeUtf8 s).length := by
  induction s using writeUtf8.induct with
  | case1 => simp
  | case2 c => simpa [writeUtf8] using utf8Unit_length_pos c
  | case3 c d r hcd ih => simp [writeUtf8, hcd, utf8Pair_length]; omega
  | case4 c d r hcd ih =>
    have := utf8Unit_length_pos c
    simp [writeUtf8, hcd] at ih ⊢
    omega

/-! ### Hex and base64: how many bytes -/

/-- Nothing is decoded from a byte that is no hex digit on. -/
lemma hexDecode_length_le {u v : Bytes} {b : UInt8} (hb : hex2bin b = none) :
    (hexDecode (u ++ b :: v)).length ≤ u.length / 2 := by
  induction u using hexDecode.induct with
  | case1 x y r i j hi hj ih =>
    simp only [List.cons_append, hexDecode, hi, hj, List.length_cons]
    omega
  | case2 x y r hxy => simp [hexDecode]
  | case3 u hu =>
    match u, hu with
    | [], _ => cases v <;> simp [hexDecode, hb]
    | [x], _ => simp [hexDecode, hb]
    | x :: y :: r, hu => exact absurd rfl (hu x y r)

/-- The number of characters of the base64 alphabet. -/
def sextets (src : Bytes) : ℕ := (src.filter fun c => (unbase64 c).isSome).length

lemma sextets_append (u v : Bytes) : sextets (u ++ v) = sextets u + sextets v := by
  simp [sextets]

lemma sextets_le (u : Bytes) : sextets u ≤ u.length := List.length_filter_le _ _

/-- `k` characters give `3k/4` bytes, rounded down, counted from the start of a group. -/
lemma base64Decode_length (len ph : ℕ) (last : UInt8) (src : Bytes) (hph : ph ≤ 3) :
    (base64Decode len ph last src).length =
      min len (3 * (sextets src + ph) / 4 - 3 * ph / 4) := by
  induction src generalizing len ph last with
  | nil => simp [base64Decode, sextets]
  | cons c t ih =>
    by_cases hl : len = 0
    · simp [base64Decode, hl]
    rcases hc : unbase64 c with _ | v
    · have : sextets (c :: t) = sextets t := by simp [sextets, hc]
      simp [base64Decode, hl, hc, ih _ _ _ hph, this]
    · have hs : sextets (c :: t) = sextets t + 1 := by simp [sextets, hc]
      have hcases : ph = 0 ∨ ph = 1 ∨ ph = 2 ∨ ph = 3 := by omega
      rcases hcases with rfl | rfl | rfl | rfl
      all_goals
        simp only [base64Decode, hl, hc, if_false, if_true, hs, Nat.reduceEqDiff, List.length_cons,
          OfNat.ofNat_ne_zero, one_ne_zero]
        have := fun l p => ih l p v
        grind

lemma base64DecodedSizeFast_ge (n : ℕ) : 3 * n / 4 ≤ base64DecodedSizeFast n := by
  unfold base64DecodedSizeFast
  simp only
  split_ifs <;> omega

/-- The padding the size computation strips is not part of the alphabet. -/
lemma sextets_le_stripped (src : Bytes) :
    sextets src ≤ (if src.getLast? = some 61 then src.dropLast else src).length := by
  split_ifs with h
  · obtain ⟨u, rfl⟩ := List.getLast?_eq_some_iff.mp h
    have h61 : sextets [61] = 0 := by decide
    rw [sextets_append, h61, List.dropLast_concat]
    exact sextets_le u
  · exact sextets_le src

lemma sextets_stripped (src : Bytes) :
    sextets (if src.getLast? = some 61 then src.dropLast else src) = sextets src := by
  split_ifs with h
  · obtain ⟨u, rfl⟩ := List.getLast?_eq_some_iff.mp h
    have h61 : sextets [61] = 0 := by decide
    rw [sextets_append, h61, List.dropLast_concat, Nat.add_zero]
  · rfl

lemma base64DecodedSize_ge (src : Bytes) : 3 * sextets src / 4 ≤ base64DecodedSize src := by
  unfold base64DecodedSize
  refine le_trans ?_ (base64DecodedSizeFast_ge _)
  have h := sextets_le_stripped (if src.getLast? = some 61 then src.dropLast else src)
  rw [sextets_stripped] at h
  exact Nat.div_le_div_right (Nat.mul_le_mul_left _ h)

/-- A string in base64 gives `3k/4` bytes for its `k` characters of the alphabet. -/
theorem base64_length (src : Bytes) :
    (base64Decode (base64DecodedSize src) 0 0 src).length = 3 * sextets src / 4 := by
  rw [base64Decode_length _ _ _ _ (by omega)]
  have := base64DecodedSize_ge src
  simp only [Nat.add_zero, Nat.mul_zero, Nat.zero_div, Nat.sub_zero]
  omega

end NodeCore.EncodeConcat
