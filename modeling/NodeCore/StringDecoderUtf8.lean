import Mathlib.Data.List.GetD
import NodeCore.StringDecoderCuts

/-!
Well-formed UTF-8 in chunks.

A character is coded by `String.utf8EncodeChar`, and its code units are `unitsOf`. A lead byte
announces the length of its character, so the last three bytes of a Buffer show whether it ends
within a character.
-/

namespace NodeCore.StringDecoder

open NodeCore.Encoding

/-! ### Characters -/

def utf8Code (c : Char) : Bytes := String.utf8EncodeChar c

/-- The length that a lead byte announces; 0 for any other byte. -/
def leadLength (b : UInt8) : ℕ :=
  if b.toNat < 0x80 then 1
  else if b.toNat >>> 5 = 0x06 then 2
  else if b.toNat >>> 4 = 0x0E then 3
  else if b.toNat >>> 3 = 0x1E then 4
  else 0

lemma toNat_ofNat8 {n : ℕ} (h : n < 256) : (UInt8.ofNat n).toNat = n := by
  simp [Nat.mod_eq_of_lt h]

lemma leadLength_cont {x : ℕ} (h : x < 64) : leadLength (UInt8.ofNat (x + 128)) = 0 := by
  have hn : (UInt8.ofNat (x + 128)).toNat = x + 128 := toNat_ofNat8 (by omega)
  simp only [leadLength, hn, Nat.shiftRight_eq_div_pow]
  repeat rw [if_neg (by omega)]

lemma leadLength_two {x : ℕ} (h : x < 32) : leadLength (UInt8.ofNat (x + 192)) = 2 := by
  have hn : (UInt8.ofNat (x + 192)).toNat = x + 192 := toNat_ofNat8 (by omega)
  simp only [leadLength, hn, Nat.shiftRight_eq_div_pow]
  rw [if_neg (by omega), if_pos (by omega)]

lemma leadLength_three {x : ℕ} (h : x < 16) : leadLength (UInt8.ofNat (x + 224)) = 3 := by
  have hn : (UInt8.ofNat (x + 224)).toNat = x + 224 := toNat_ofNat8 (by omega)
  simp only [leadLength, hn, Nat.shiftRight_eq_div_pow]
  rw [if_neg (by omega), if_neg (by omega), if_pos (by omega)]

lemma leadLength_four {x : ℕ} (h : x < 8) : leadLength (UInt8.ofNat (x + 240)) = 4 := by
  have hn : (UInt8.ofNat (x + 240)).toNat = x + 240 := toNat_ofNat8 (by omega)
  simp only [leadLength, hn, Nat.shiftRight_eq_div_pow]
  rw [if_neg (by omega), if_neg (by omega), if_neg (by omega), if_pos (by omega)]

lemma toNat_lt (c : Char) : c.toNat < 0x110000 := by
  rcases c.valid with h | ⟨-, h⟩
  · exact lt_trans h (by norm_num)
  · exact h

/-- A lead byte and the continuation bytes that it announces. -/
lemma utf8Code_shape (c : Char) :
    ∃ lead conts, utf8Code c = lead :: conts ∧ leadLength lead = conts.length + 1 ∧
      conts.length ≤ 3 ∧ ∀ b ∈ conts, leadLength b = 0 := by
  have hc : c.val.toNat < 0x110000 := toNat_lt c
  unfold utf8Code String.utf8EncodeChar
  set v := c.val.toNat with hv
  have hcont : ∀ n, leadLength (UInt8.ofNat (v / n % 64 + 128)) = 0 :=
    fun n => leadLength_cont (Nat.mod_lt _ (by norm_num))
  have htail : ∀ b ∈ [UInt8.ofNat (v % 64 + 128)], leadLength b = 0 :=
    List.forall_mem_singleton.mpr (leadLength_cont (Nat.mod_lt _ (by norm_num)))
  simp only
  split_ifs with h1 h2 h3
  · refine ⟨_, [], rfl, ?_, by simp, by simp⟩
    have hn : (UInt8.ofNat v).toNat = v := toNat_ofNat8 (by omega)
    simp only [leadLength, hn]
    rw [if_pos (by omega)]
    rfl
  · exact ⟨_, _, rfl, leadLength_two (Nat.mod_lt _ (by norm_num)), by simp, htail⟩
  · exact ⟨_, _, rfl, leadLength_three (Nat.mod_lt _ (by norm_num)), by simp,
      List.forall_mem_cons.mpr ⟨hcont 64, htail⟩⟩
  · exact ⟨_, _, rfl, leadLength_four (Nat.mod_lt _ (by norm_num)), by simp,
      List.forall_mem_cons.mpr ⟨hcont 4096, List.forall_mem_cons.mpr ⟨hcont 64, htail⟩⟩⟩

lemma utf8Code_ne_nil (c : Char) : utf8Code c ≠ [] := by
  obtain ⟨lead, conts, h, -⟩ := utf8Code_shape c
  simp [h]

lemma length_utf8Code_le (c : Char) : (utf8Code c).length ≤ 4 := by
  obtain ⟨lead, conts, h, -, hle, -⟩ := utf8Code_shape c
  rw [h, List.length_cons]
  omega

/-! ### `utf8Slice` on whole characters -/

lemma isCont_ofNat {x : ℕ} (h : x < 64) : isCont (UInt8.ofNat (x + 128)) = true := by
  interval_cases x <;> rfl

lemma low6_ofNat {x : ℕ} (h : x < 64) : low6 (UInt8.ofNat (x + 128)) = x := by
  have hn : (UInt8.ofNat (x + 128)).toNat = x + 128 := toNat_ofNat8 (by omega)
  simp only [low6, hn]
  omega

lemma utf8Slice_one {a : UInt8} (r : Bytes) (ha : a < 0x80) :
    utf8Slice (a :: r) = a.toUInt16 :: utf8Slice r := by
  rcases r with _ | ⟨b, _ | ⟨c, _ | ⟨d, r⟩⟩⟩ <;> simp [utf8Slice, ha]

lemma utf8Slice_two {a b : UInt8} (r : Bytes) (hb : isCont b) (ha : 0xC0 ≤ a) (ha' : a < 0xE0)
    (hp : 0x7F < a.toNat % 0x20 * 0x40 + low6 b) :
    utf8Slice (a :: b :: r) = unitsOf (a.toNat % 0x20 * 0x40 + low6 b) ++ utf8Slice r := by
  have hn : ¬ a < 0x80 := fun h => by
    have := UInt8.lt_of_lt_of_le h (by decide : (0x80 : UInt8) ≤ 0xC0)
    exact absurd ha (UInt8.not_le.mpr this)
  rcases r with _ | ⟨c, _ | ⟨d, r⟩⟩ <;> simp [utf8Slice, hn, hb, ha, ha', hp]

lemma utf8Slice_three {a b c : UInt8} (r : Bytes) (hb : isCont b) (hc : isCont c) (ha : 0xE0 ≤ a)
    (ha' : a < 0xF0) (hp : 0x7FF < a.toNat % 0x10 * 0x1000 + low6 b * 0x40 + low6 c) :
    utf8Slice (a :: b :: c :: r) =
      unitsOf (a.toNat % 0x10 * 0x1000 + low6 b * 0x40 + low6 c) ++ utf8Slice r := by
  have hn : ¬ a < 0x80 := fun h => by
    have := UInt8.lt_of_lt_of_le h (by decide : (0x80 : UInt8) ≤ 0xE0)
    exact absurd ha (UInt8.not_le.mpr this)
  have hn' : ¬ a < 0xE0 := UInt8.not_lt.mpr ha
  rcases r with _ | ⟨d, r⟩ <;> simp [utf8Slice, hn, hn', hb, hc, ha, ha', hp]

lemma utf8Slice_four {a b c d : UInt8} (r : Bytes) (hb : isCont b) (hc : isCont c) (hd : isCont d)
    (ha : 0xF0 ≤ a) (ha' : a < 0xF8)
    (hp : 0xFFFF < a.toNat % 0x08 * 0x40000 + low6 b * 0x1000 + low6 c * 0x40 + low6 d) :
    utf8Slice (a :: b :: c :: d :: r) =
      unitsOf (a.toNat % 0x08 * 0x40000 + low6 b * 0x1000 + low6 c * 0x40 + low6 d) ++
        utf8Slice r := by
  have hn : ¬ a < 0x80 := fun h => by
    have := UInt8.lt_of_lt_of_le h (by decide : (0x80 : UInt8) ≤ 0xF0)
    exact absurd ha (UInt8.not_le.mpr this)
  have hn' : ¬ a < 0xE0 := fun h => by
    have := UInt8.lt_of_lt_of_le h (by decide : (0xE0 : UInt8) ≤ 0xF0)
    exact absurd ha (UInt8.not_le.mpr this)
  have hn'' : ¬ a < 0xF0 := UInt8.not_lt.mpr ha
  simp [utf8Slice, hn, hn', hn'', hb, hc, hd, ha, ha', hp]

lemma utf8Slice_code (c : Char) (r : Bytes) :
    utf8Slice (utf8Code c ++ r) = charUnits c ++ utf8Slice r := by
  have hc : c.val.toNat < 0x110000 := toNat_lt c
  have hval : c.toNat = c.val.toNat := rfl
  unfold utf8Code String.utf8EncodeChar charUnits
  rw [hval]
  set v := c.val.toNat with hv
  have h64 : ∀ n, n % 64 < 64 := fun n => Nat.mod_lt _ (by norm_num)
  simp only
  split_ifs with h1 h2 h3
  · -- one byte
    have hlt : UInt8.ofNat v < 0x80 := by
      rw [UInt8.lt_iff_toNat_lt, toNat_ofNat8 (by omega)]
      exact Nat.lt_succ_of_le h1
    have hunit : (UInt8.ofNat v).toUInt16 = UInt16.ofNat v := by
      rw [← UInt16.toNat_inj, UInt8.toNat_toUInt16, toNat_ofNat8 (by omega)]
      simp only [UInt16.toNat_ofNat']
      omega
    rw [List.singleton_append, utf8Slice_one r hlt, hunit, unitsOf, if_pos (by omega)]
    rfl
  · have ha : (UInt8.ofNat (v / 64 % 32 + 192)).toNat = v / 64 % 32 + 192 :=
      toNat_ofNat8 (by omega)
    have hp : (v / 64 % 32 + 192) % 0x20 * 0x40 + v % 64 = v := by omega
    have hlow := low6_ofNat (h64 v)
    have h := utf8Slice_two (a := UInt8.ofNat (v / 64 % 32 + 192)) r (isCont_ofNat (h64 v))
      (by rw [UInt8.le_iff_toNat_le, ha]; simp) (by rw [UInt8.lt_iff_toNat_lt, ha]; simp; omega)
      (by rw [ha, hlow, hp]; omega)
    rw [ha, hlow, hp] at h
    exact h
  · have ha : (UInt8.ofNat (v / 4096 % 16 + 224)).toNat = v / 4096 % 16 + 224 :=
      toNat_ofNat8 (by omega)
    have hp : (v / 4096 % 16 + 224) % 0x10 * 0x1000 + v / 64 % 64 * 0x40 + v % 64 = v := by omega
    have hlow := low6_ofNat (h64 v)
    have hlow' := low6_ofNat (h64 (v / 64))
    have h := utf8Slice_three (a := UInt8.ofNat (v / 4096 % 16 + 224)) r
      (isCont_ofNat (h64 (v / 64))) (isCont_ofNat (h64 v))
      (by rw [UInt8.le_iff_toNat_le, ha]; simp) (by rw [UInt8.lt_iff_toNat_lt, ha]; simp; omega)
      (by rw [ha, hlow, hlow', hp]; omega)
    rw [ha, hlow, hlow', hp] at h
    exact h
  · have ha : (UInt8.ofNat (v / 262144 % 8 + 240)).toNat = v / 262144 % 8 + 240 :=
      toNat_ofNat8 (by omega)
    have hp : (v / 262144 % 8 + 240) % 0x08 * 0x40000 + v / 4096 % 64 * 0x1000 +
        v / 64 % 64 * 0x40 + v % 64 = v := by omega
    have hlow := low6_ofNat (h64 v)
    have hlow' := low6_ofNat (h64 (v / 64))
    have hlow'' := low6_ofNat (h64 (v / 4096))
    have h := utf8Slice_four (a := UInt8.ofNat (v / 262144 % 8 + 240)) r
      (isCont_ofNat (h64 (v / 4096))) (isCont_ofNat (h64 (v / 64))) (isCont_ofNat (h64 v))
      (by rw [UInt8.le_iff_toNat_le, ha]; simp) (by rw [UInt8.lt_iff_toNat_lt, ha]; simp; omega)
      (by rw [ha, hlow, hlow', hlow'', hp]; omega)
    rw [ha, hlow, hlow', hlow'', hp] at h
    exact h

/-- `utf8Slice` decodes well-formed UTF-8. -/
lemma utf8Slice_text (text : List Char) :
    utf8Slice (text.flatMap utf8Code) = text.flatMap charUnits := by
  induction text with
  | nil => rfl
  | cons c text ih => rw [List.flatMap_cons, utf8Slice_code, ih, List.flatMap_cons]

/-! ### The last three bytes -/

/-- A byte `i + 1` from the end announces more than what is left, or nothing is detected there. -/
lemma detectFrom_succ (buffer : Bytes) (i : ℕ) :
    detectFrom buffer (i + 1) =
      (let b := buffer.getD (buffer.length - (i + 1)) 0
       if i + 1 < leadLength b then (i + 1, leadLength b) else detectFrom buffer i) := by
  set b := buffer.getD (buffer.length - (i + 1)) 0 with hb
  have hshift : ∀ n, b.toNat >>> n = b.toNat / 2 ^ n := fun n => Nat.shiftRight_eq_div_pow _ _
  simp only [detectFrom, ← hb, leadLength, hshift]
  split_ifs <;> first | rfl | omega

lemma detectFrom_quiet {buffer : Bytes} {i : ℕ}
    (h : ∀ j < i, leadLength (buffer.getD (buffer.length - (j + 1)) 0) ≤ j + 1) :
    detectFrom buffer i = (0, 0) := by
  induction i with
  | zero => rfl
  | succ i ih =>
    have hi := h i (by omega)
    rw [detectFrom_succ]
    simp only
    rw [if_neg (by omega)]
    exact ih fun j hj => h j (by omega)

lemma detectFrom_found {buffer : Bytes} {i k : ℕ} (hk : k < i)
    (hfound : k + 1 < leadLength (buffer.getD (buffer.length - (k + 1)) 0))
    (h : ∀ j < i, k < j → leadLength (buffer.getD (buffer.length - (j + 1)) 0) ≤ j + 1) :
    detectFrom buffer i = (k + 1, leadLength (buffer.getD (buffer.length - (k + 1)) 0)) := by
  induction i with
  | zero => omega
  | succ i ih =>
    rw [detectFrom_succ]
    simp only
    rcases Nat.lt_or_ge k i with hlt | hge
    · have hi := h i (by omega) hlt
      rw [if_neg (by omega)]
      exact ih hlt fun j hj hkj => h j (by omega) hkj
    · obtain rfl : k = i := by omega
      rw [if_pos hfound]

/-- In whole characters a lead byte stands as far from the end as it announces, or farther. -/
lemma leadLength_text (text : List Char) {j : ℕ} (hj : j < (text.flatMap utf8Code).length) :
    j + leadLength ((text.flatMap utf8Code).getD j 0) ≤ (text.flatMap utf8Code).length := by
  induction text generalizing j with
  | nil => simp at hj
  | cons c text ih =>
    obtain ⟨lead, conts, hc, hlead, -, hconts⟩ := utf8Code_shape c
    rw [List.flatMap_cons] at hj ⊢
    rcases Nat.lt_or_ge j (utf8Code c).length with h | h
    · rw [List.getD_append _ _ _ _ h, List.length_append]
      rw [hc] at h ⊢
      rcases j with _ | j
      · simp only [List.getD_cons_zero, List.length_cons]
        omega
      · have hmem : conts.getD j 0 ∈ conts := by
          rw [List.getD_eq_getElem _ _ (by simpa using h)]
          exact List.getElem_mem _
        rw [List.getD_cons_succ, hconts _ hmem]
        omega
    · rw [List.getD_append_right _ _ _ _ h, List.length_append]
      rw [List.length_append] at hj
      have := ih (j := j - (utf8Code c).length) (by omega)
      omega

/-- What `detectIncompleteChar` finds is the part of a character that the Buffer ends with. -/
lemma detectIncompleteChar_cut (d : Decoder) {done rest : List Char} {held : Bytes}
    (hcut : Cut utf8Code rest held) :
    (held = [] ∧ detectIncompleteChar d (done.flatMap utf8Code ++ held) = (0, d)) ∨
    ∃ c tail more, rest = c :: tail ∧ held ≠ [] ∧ more ≠ [] ∧ utf8Code c = held ++ more ∧
      detectIncompleteChar d (done.flatMap utf8Code ++ held) =
        (held.length, { d with charLength := (utf8Code c).length }) := by
  -- the whole characters announce nothing beyond their end
  have hquiet : ∀ j, j < (done.flatMap utf8Code ++ held).length → held.length ≤ j →
      leadLength ((done.flatMap utf8Code ++ held).getD
        ((done.flatMap utf8Code ++ held).length - (j + 1)) 0) ≤ j + 1 := by
    intro j hj hge
    rw [List.length_append] at hj ⊢
    have hpos : (done.flatMap utf8Code).length + held.length - (j + 1) <
        (done.flatMap utf8Code).length := by omega
    rw [List.getD_append _ _ _ _ hpos]
    have := leadLength_text done hpos
    omega
  rcases hcut with rfl | ⟨c, tail, more, rfl, hheld, hmore, hc⟩
  · refine .inl ⟨rfl, ?_⟩
    unfold detectIncompleteChar
    rw [detectFrom_quiet fun j hj => hquiet j ?_ (by simp)]
    · rfl
    · split_ifs at hj <;> omega
  · refine .inr ⟨c, tail, more, rfl, hheld, hmore, hc, ?_⟩
    obtain ⟨lead, conts, hshape, hlead, hle, -⟩ := utf8Code_shape c
    obtain ⟨b, hs, rfl⟩ := List.exists_cons_of_ne_nil hheld
    obtain ⟨rfl, hconts⟩ : b = lead ∧ hs ++ more = conts := by
      rw [hc] at hshape
      simpa using hshape
    have hpos := List.length_pos_iff.mpr hmore
    have hlen : hs.length + more.length = conts.length := by rw [← hconts, List.length_append]
    have hat : (done.flatMap utf8Code ++ b :: hs).getD
        ((done.flatMap utf8Code ++ b :: hs).length - (hs.length + 1)) 0 = b := by
      rw [List.length_append, List.length_cons, Nat.add_sub_cancel,
        List.getD_append_right _ _ _ _ (le_refl _)]
      simp
    unfold detectIncompleteChar
    rw [detectFrom_found (k := hs.length) ?_ (by rw [hat]; omega) ?_]
    · simp only [hat, hlead, hshape]
      rw [if_pos (by omega)]
      simp
    · rw [List.length_append, List.length_cons]
      split_ifs <;> omega
    · intro j hj hlt
      refine hquiet j ?_ (by rw [List.length_cons]; omega)
      split_ifs at hj <;> omega

/-! ### Well-formed text -/

lemma writeUtf8_single {u : UInt16} (hu : isLead u = false) (s : Str) :
    writeUtf8 (u :: s) = utf8Unit u ++ writeUtf8 s := by
  cases s with
  | nil => simp [writeUtf8]
  | cons v r => simp [writeUtf8, hu]

lemma utf8Unit_char {c : Char} (h : c.toNat < 65536) :
    utf8Unit (UInt16.ofNat c.toNat) = utf8Code c := by
  have hn : (UInt16.ofNat c.toNat).toNat = c.toNat := toNat_ofNat16 h
  have hv : c.val.toNat = c.toNat := rfl
  have h7 : UInt16.ofNat c.toNat ≤ 0x7F ↔ c.toNat ≤ 0x7F := by
    rw [UInt16.le_iff_toNat_le, hn]
    rfl
  have h11 : UInt16.ofNat c.toNat ≤ 0x7FF ↔ c.toNat ≤ 0x7FF := by
    rw [UInt16.le_iff_toNat_le, hn]
    rfl
  unfold utf8Unit utf8Code String.utf8EncodeChar
  simp only [h7, h11, hn, hv]
  split_ifs with h1 h2 h3
  · congr 1
    apply UInt8.toNat_inj.mp
    rw [UInt16.toNat_toUInt8, hn]
    simp
  · have e1 : 0xC0 + c.toNat / 0x40 = c.toNat / 64 % 32 + 192 := by omega
    rw [e1, Nat.add_comm 0x80]
  · have e1 : 0xE0 + c.toNat / 0x1000 = c.toNat / 4096 % 16 + 224 := by omega
    rw [e1, Nat.add_comm 0x80, Nat.add_comm 0x80]
  · omega

lemma utf8Pair_char {c : Char} {u v : UInt16} (h : charUnits c = [u, v]) :
    isLead u = true ∧ isTrail v = true ∧ utf8Pair u v = utf8Code c := by
  have hlt := toNat_lt c
  unfold charUnits unitsOf at h
  split_ifs at h with hp
  · cases h
  simp only [List.cons.injEq, and_true] at h
  obtain ⟨rfl, rfl⟩ := h
  have hu := toNat_ofNat16 (n := 0xD800 + (c.toNat - 0x10000) / 0x400 % 0x400) (by omega)
  have hv := toNat_ofNat16 (n := 0xDC00 + (c.toNat - 0x10000) % 0x400) (by omega)
  refine ⟨?_, ?_, ?_⟩
  · rw [isLead_iff, hu]
    omega
  · simp only [isTrail, UInt16.le_iff_toNat_le, hv, decide_eq_true_eq]
    exact ⟨Nat.le_add_right _ _, by have : (0xDFFF : UInt16).toNat = 0xDFFF := rfl; omega⟩
  · have hcomb : combine (UInt16.ofNat (0xD800 + (c.toNat - 0x10000) / 0x400 % 0x400))
        (UInt16.ofNat (0xDC00 + (c.toNat - 0x10000) % 0x400)) = c.toNat := by
      rw [combine, hu, hv]
      omega
    have hval : c.val.toNat = c.toNat := rfl
    unfold utf8Pair utf8Code String.utf8EncodeChar
    simp only [hcomb, hval]
    rw [if_neg (by omega), if_neg (by omega), if_neg (by omega)]
    have e1 : 0xF0 + c.toNat / 0x40000 = c.toNat / 262144 % 8 + 240 := by omega
    rw [e1, Nat.add_comm 0x80, Nat.add_comm 0x80, Nat.add_comm 0x80]

/-- Well-formed text is coded character by character. -/
lemma writeUtf8_text (chars : List Char) :
    writeUtf8 (chars.flatMap charUnits) = chars.flatMap utf8Code := by
  induction chars with
  | nil => rfl
  | cons c chars ih =>
    rw [List.flatMap_cons, List.flatMap_cons, ← ih]
    rcases charUnits_cases c with ⟨u, hu, hlead⟩ | ⟨u, v, huv, -, -⟩
    · have hcode : utf8Unit u = utf8Code c := by
        unfold charUnits unitsOf at hu
        split_ifs at hu with hp
        · rw [← List.singleton_inj.mp hu]
          exact utf8Unit_char (by omega)
        · cases hu
      rw [hu, List.singleton_append, writeUtf8_single hlead, hcode]
    · obtain ⟨hu, hv, hcode⟩ := utf8Pair_char huv
      rw [huv, List.cons_append, List.singleton_append, writeUtf8, if_pos ⟨hu, hv⟩, hcode]

/-! ### Any string -/

lemma unitsOf_toNat (u : UInt16) : unitsOf u.toNat = [u] := by
  have hlt := u.toNat_lt
  rw [unitsOf, if_pos (by omega), UInt16.ofNat_toNat]

/-- A unit of its own is read back, a surrogate too. -/
lemma utf8Slice_unit (u : UInt16) (r : Bytes) : utf8Slice (utf8Unit u ++ r) = u :: utf8Slice r := by
  have hlt := u.toNat_lt
  by_cases hvalid : u.toNat < 0xD800 ∨ 0xDFFF < u.toNat
  · obtain ⟨c, hc⟩ : ∃ c : Char, c.toNat = u.toNat :=
      ⟨Char.ofNatAux u.toNat (by simp only [Nat.isValidChar]; omega), rfl⟩
    have hunit := @utf8Unit_char c (by omega)
    rw [hc, UInt16.ofNat_toNat] at hunit
    rw [hunit, utf8Slice_code, charUnits, hc, unitsOf_toNat, List.singleton_append]
  · have hp : (0xE0 + u.toNat / 0x1000) % 0x10 * 0x1000 + u.toNat / 0x40 % 0x40 * 0x40 +
        u.toNat % 0x40 = u.toNat := by omega
    have ha : (UInt8.ofNat (0xE0 + u.toNat / 0x1000)).toNat = 0xE0 + u.toNat / 0x1000 :=
      toNat_ofNat8 (by omega)
    have h64 : ∀ n, n % 64 < 64 := fun n => Nat.mod_lt _ (by norm_num)
    have hlow := low6_ofNat (h64 u.toNat)
    have hlow' := low6_ofNat (h64 (u.toNat / 64))
    have h := utf8Slice_three (a := UInt8.ofNat (0xE0 + u.toNat / 0x1000)) r
      (isCont_ofNat (h64 (u.toNat / 64))) (isCont_ofNat (h64 u.toNat))
      (by rw [UInt8.le_iff_toNat_le, ha]; simp) (by rw [UInt8.lt_iff_toNat_lt, ha]; simp; omega)
      (by rw [ha, hlow, hlow', hp]; omega)
    rw [ha, hlow, hlow', hp, unitsOf_toNat] at h
    rw [utf8Unit, if_neg (by rw [UInt16.le_iff_toNat_le]; simp; omega),
      if_neg (by rw [UInt16.le_iff_toNat_le]; simp; omega), Nat.add_comm 0x80, Nat.add_comm 0x80]
    exact h

lemma utf8Slice_pair {u v : UInt16} (hu : isLead u = true) (hv : isTrail v = true) (r : Bytes) :
    utf8Slice (utf8Pair u v ++ r) = u :: v :: utf8Slice r := by
  rw [isLead_iff] at hu
  simp only [isTrail, UInt16.le_iff_toNat_le, decide_eq_true_eq] at hv
  have hv' : 0xDC00 ≤ v.toNat ∧ v.toNat ≤ 0xDFFF := hv
  have hcombine : combine u v = 0x10000 + ((u.toNat - 0xD800) * 0x400 + (v.toNat - 0xDC00)) := by
    rw [combine]
    omega
  obtain ⟨c, hc⟩ : ∃ c : Char, c.toNat = combine u v :=
    ⟨Char.ofNatAux (combine u v) (by simp only [Nat.isValidChar]; omega), rfl⟩
  have hunits : charUnits c = [u, v] := by
    have hlead : UInt16.ofNat (0xD800 + (c.toNat - 0x10000) / 0x400 % 0x400) = u := by
      rw [← UInt16.toNat_inj, toNat_ofNat16 (by omega)]
      omega
    have htrail : UInt16.ofNat (0xDC00 + (c.toNat - 0x10000) % 0x400) = v := by
      rw [← UInt16.toNat_inj, toNat_ofNat16 (by omega)]
      omega
    rw [charUnits, unitsOf, if_neg (by omega), hlead, htrail]
  rw [(utf8Pair_char hunits).2.2, utf8Slice_code, hunits]
  rfl

/-- Whatever is written as UTF-8 is read back. -/
theorem utf8Slice_writeUtf8 (s : Str) : utf8Slice (writeUtf8 s) = s := by
  induction s using writeUtf8.induct with
  | case1 => rfl
  | case2 c =>
    have h := utf8Slice_unit c []
    rwa [List.append_nil, utf8Slice] at h
  | case3 c d r hcd ih => rw [writeUtf8, if_pos hcd, utf8Slice_pair hcd.1 hcd.2, ih]
  | case4 c d r hcd ih => rw [writeUtf8, if_neg hcd, utf8Slice_unit, ih]

/-! ### One `write` -/

/-- Nothing is held back, or a proper part of the next character, whose length is known. -/
inductive HoldsUtf8 (d : Decoder) : Bytes → List Char → Prop
  | whole {rest : List Char} (keeps : d.Keeps []) (length : d.charLength = 0) : HoldsUtf8 d [] rest
  | part {c : Char} {tail : List Char} {held more : Bytes} (keeps : d.Keeps held)
    (hheld : held ≠ []) (hmore : more ≠ []) (code : utf8Code c = held ++ more)
    (length : d.charLength = (utf8Code c).length) : HoldsUtf8 d held (c :: tail)

lemma HoldsUtf8.keeps_cut {d : Decoder} {held : Bytes} {rest : List Char}
    (h : HoldsUtf8 d held rest) : d.Keeps held ∧ Cut utf8Code rest held := by
  rcases h with ⟨keeps, -⟩ | ⟨keeps, hheld, hmore, code, -⟩
  · exact ⟨keeps, .inl rfl⟩
  · exact ⟨keeps, .inr ⟨_, _, _, rfl, hheld, hmore, code⟩⟩

lemma restPasses_utf8 : RestPasses utf8 utf8Code charUnits HoldsUtf8 := by
  intro d charStr done rest held hd hlen hstr hcut
  have hends := endsLead_append_text hstr done
  rw [← utf8Slice_text] at hends ⊢
  rcases detectIncompleteChar_cut d hcut with
    ⟨rfl, hdetect⟩ | ⟨c, tail, more, rfl, hheld, hmore, hc, hdetect⟩
  · refine ⟨d, .whole hd hlen, ?_⟩
    rw [List.append_nil] at hdetect ⊢
    rw [writeRest_whole utf8 hdetect hlen]
    exact emit_of_not_lead hends
  · have hle := length_utf8Code_le c
    rw [hc, List.length_append] at hle
    have hsize := hd.size
    have hfit : held.length ≤ d.charBuffer.length := by omega
    have hne := (List.length_pos_iff.mpr (utf8Code_ne_nil c)).ne'
    rw [writeRest_part utf8 hdetect hne hfit]
    refine ⟨_, ?_, emit_of_not_lead hends⟩
    refine .part ⟨?_, rfl, by simp⟩ hheld hmore hc rfl
    simp only [List.length_append, List.length_drop]
    omega

lemma follows_utf8 (text : List Char) :
    Follows utf8 utf8Code charUnits HoldsUtf8 text fun _ _ => True := by
  intro done rest held d buffer more htext hd hall _
  rcases hd with ⟨hk, hlen⟩ | @⟨c, tail, held, left, hk, hheld, hleft, hc, hlen⟩
  · exact restPasses_utf8.passes_whole hk hlen (by simpa using hall)
  · have hle := length_utf8Code_le c
    have htotal : (utf8Code c).length = held.length + left.length := by
      rw [hc, List.length_append]
    have hpos := List.length_pos_iff.mpr hleft
    have hne : d.charLength ≠ 0 := by omega
    have hall' : buffer ++ more = left ++ tail.flatMap utf8Code := by
      rw [List.flatMap_cons, hc, List.append_assoc, List.append_assoc] at hall
      exact List.append_cancel_left hall
    rcases Nat.lt_or_ge buffer.length left.length with hlt | hge
    · -- the character is still incomplete
      obtain ⟨charBuffer, hk', hfill⟩ :=
        fill_short utf8 hk buffer (by omega) (by omega) 2
      obtain ⟨left', rfl⟩ := List.prefix_of_prefix_length_le ⟨_, hall'⟩ ⟨_, rfl⟩ hlt.le
      have hleft' : left' ≠ [] := by
        rintro rfl
        simp at hlt
      have hc' : utf8Code c = held ++ buffer ++ left' := by rw [hc, List.append_assoc]
      exact passes_of_wait hne hfill (.part hk' (by simp [hheld]) hleft' hc' hlen)
    · -- the Buffer completes it
      obtain ⟨buffer', rfl⟩ := List.prefix_of_prefix_length_le ⟨_, hall'.symm⟩ ⟨_, rfl⟩ hge
      obtain ⟨charBuffer, hsize, -, hfill⟩ := fill_reach utf8 hk left buffer'
        (by omega) (by omega) 2
      have hchar : utf8.toString (held ++ left) = charUnits c := by
        rw [← hc]
        have h := utf8Slice_code c []
        rwa [List.append_nil, utf8Slice, List.append_nil] at h
      have hends : endsLead (charUnits c) = false := endsLead_append_char [] c
      rw [hchar, hends] at hfill
      exact restPasses_utf8.passes_of_full left hne hc hsize hends hfill (by simpa using hall')
        (.whole ⟨hsize, rfl, rfl⟩ rfl)

/-- **UTF-8 in chunks.** However a well-formed sequence is cut, what `write` gives for the
chunks and `end` gives at the end is the decoding of the whole. -/
theorem utf8_chunks (text : List Char) (chunks : List Bytes)
    (h : chunks.flatten = text.flatMap utf8Code) :
    decode utf8 chunks = some (utf8.toString chunks.flatten) ∧
      utf8.toString chunks.flatten = text.flatMap charUnits := by
  have hslice : utf8.toString chunks.flatten = text.flatMap charUnits := by
    rw [h]
    exact utf8Slice_text text
  have hok : Along (fun _ _ => True) [] chunks := (along_iff _ _ _).mpr fun _ _ _ _ => trivial
  refine ⟨?_, hslice⟩
  rw [hslice]
  exact decode_of_follows (follows_utf8 text) HoldsUtf8.keeps_cut utf8Code_ne_nil
    (.whole Decoder.keeps_new rfl) h hok

/-- Two characters of two and four bytes, cut within each. -/
theorem utf8_chunks_cut :
    decode utf8 [[0xC3], [], [0xA9, 0xF0, 0x9F], [0x98], [0x80]] = some [0xE9, 0xD83D, 0xDE00] := by
  have h := utf8_chunks ['é', '😀'] [[0xC3], [], [0xA9, 0xF0, 0x9F], [0x98], [0x80]] (by decide)
  rw [h.2] at h
  exact h.1

end NodeCore.StringDecoder
