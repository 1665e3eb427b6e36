import NodeCore.Punycode
import NodeCore.UriComponent

/-!
The reader of `punycode` gives back what the writer was given.

At each moment of the writer a reader of what is written stands at a place: what it has is the
part of the input the writer has handled, and its `n` and `i` with the steps counted in `delta`
lead to the next one.
-/

namespace NodeCore.Punycode

open Encoding

/-! ### One number -/

lemma digit_digitToBasic : ∀ d < 36, basicToDigit (digitToBasic d).toNat = d := by decide

lemma digitToBasic_of_mem_digits {bias k q : ℕ} {c : UInt16} (h : c ∈ digits bias k q) :
    ∃ d < 36, c = digitToBasic d := by
  induction q using Nat.strong_induction_on generalizing k with
  | _ q ih =>
    have h1 := threshold_pos k bias
    have h2 := threshold_le k bias
    rw [digits] at h
    split_ifs at h with hq
    · exact ⟨q, by omega, List.mem_singleton.mp h⟩
    · rcases List.mem_cons.mp h with rfl | h
      · have := Nat.mod_lt (q - threshold k bias) (show 0 < base - threshold k bias by
          unfold base; omega)
        exact ⟨_, by unfold base at this ⊢; omega, rfl⟩
      · exact ih _ ((Nat.div_le_self _ _).trans_lt (by omega)) h

lemma readDelta_cons {bias d w i : ℕ} (hd : d < 36) (hw : 0 < w) (h : i + d * w ≤ maxInt)
    (rest : Str) (k : ℕ) :
    readDelta bias (digitToBasic d :: rest) k w i =
      if d < threshold k bias then .ok (i + d * w, rest)
      else if w > maxInt / (base - threshold k bias) then .error .overflow
      else readDelta bias rest (k + base) (w * (base - threshold k bias)) (i + d * w) := by
  have hroom : d ≤ (maxInt - i) / w := (Nat.le_div_iff_mul_le hw).mpr (by omega)
  simp only [readDelta, digit_digitToBasic d hd, Int.toNat_natCast, Nat.cast_lt]
  rw [if_neg (by omega), if_neg (by unfold base; omega)]

lemma weight_room {bias j q w : ℕ} (hb : bias ≤ 215) (hw : w ≤ 35 ^ j) (h : q * w ≤ maxInt)
    (hq : threshold (36 * (j + 1)) bias ≤ q) :
    w * (36 - threshold (36 * (j + 1)) bias) ≤ maxInt := by
  by_cases ht : 18 ≤ threshold (36 * (j + 1)) bias
  · calc w * (36 - threshold (36 * (j + 1)) bias) ≤ w * q := Nat.mul_le_mul_left w (by omega)
      _ ≤ maxInt := by rwa [Nat.mul_comm]
  · -- a low threshold comes at one of the first six digits
    have hj : j ≤ 5 := by
      unfold threshold tMin tMax at ht
      split_ifs at ht <;> omega
    calc w * (36 - threshold (36 * (j + 1)) bias) ≤ 35 ^ 5 * 35 :=
          Nat.mul_le_mul (hw.trans (Nat.pow_le_pow_right (by norm_num) hj))
            (by have := threshold_pos (36 * (j + 1)) bias; omega)
      _ ≤ maxInt := by decide

lemma readDelta_digits {bias : ℕ} (hb : bias ≤ 215) (rest : Str) (j : ℕ) {q w i : ℕ}
    (hw0 : 0 < w) (hw : w ≤ 35 ^ j) (h : i + q * w ≤ maxInt) :
    readDelta bias (digits bias (36 * (j + 1)) q ++ rest) (36 * (j + 1)) w i =
      .ok (i + q * w, rest) := by
  induction q using Nat.strong_induction_on generalizing j w i with
  | _ q ih =>
    have h1 := threshold_pos (36 * (j + 1)) bias
    have h2 := threshold_le (36 * (j + 1)) bias
    have hb36 : base = 36 := rfl
    rw [digits]
    by_cases hq : q < threshold (36 * (j + 1)) bias
    · rw [if_pos hq, List.singleton_append, readDelta_cons (by omega) hw0 h, if_pos hq]
    · have hroom := weight_room hb hw (by omega) (not_lt.mp hq)
      rw [if_neg hq, List.cons_append]
      set t := threshold (36 * (j + 1)) bias with ht
      obtain ⟨p, rfl⟩ : ∃ p, q = t + p := ⟨q - t, by omega⟩
      rw [Nat.add_sub_cancel_left, hb36]
      have hmod := Nat.mod_lt p (show 0 < 36 - t by omega)
      have hsum : (t + p % (36 - t)) * w + p / (36 - t) * (w * (36 - t)) = (t + p) * w := by
        conv_rhs => rw [← Nat.mod_add_div p (36 - t)]
        ring
      rw [readDelta_cons (by omega) hw0 (by omega), ← ht, if_neg (by omega), hb36,
        if_neg (not_lt.mpr ((Nat.le_div_iff_mul_le (by omega)).mpr hroom)),
        show 36 * (j + 1) + 36 = 36 * (j + 1 + 1) by ring,
        ih _ ((Nat.div_le_self _ _).trans_lt (by omega)) (j + 1) (Nat.mul_pos hw0 (by omega))
          (Nat.mul_le_mul hw (by omega)) (by omega)]
      congr 2
      omega

/-! ### The bias -/

lemma last_lt (delta k : ℕ) : k + (base - tMin + 1) * delta / (delta + skew) ≤ k + 35 := by
  have : 36 * delta / (delta + 38) < 36 := Nat.div_lt_of_lt_mul (by omega)
  exact Nat.add_le_add_left (Nat.le_of_lt_succ this) k

lemma adaptLoop_le (j : ℕ) {delta : ℕ} (k : ℕ) (h : delta < 456 * 35 ^ j) :
    adaptLoop delta k ≤ k + 36 * j + 35 := by
  induction j generalizing delta k with
  | zero =>
    rw [adaptLoop, if_neg (by unfold base tMin tMax; omega)]
    exact last_lt delta k
  | succ j ih =>
    rw [adaptLoop]
    split_ifs
    · have hdiv : delta / 35 < 456 * 35 ^ j :=
        Nat.div_lt_of_lt_mul (by rw [pow_succ] at h; omega)
      exact (ih (k + 36) hdiv).trans (by omega)
    · exact (last_lt delta k).trans (by omega)

lemma adapt_le {delta : ℕ} (h : delta ≤ maxInt) (numPoints : ℕ) (firstTime : Bool) :
    adapt delta numPoints firstTime ≤ 215 := by
  have hhalf : (if firstTime then delta / damp else delta / 2) ≤ delta / 2 := by
    unfold damp
    split_ifs <;> omega
  refine adaptLoop_le 5 0 (lt_of_le_of_lt (Nat.add_le_add hhalf (Nat.div_le_self _ _)) ?_)
  unfold maxInt at h
  omega

/-- The writer divides by the number of points before the round. -/
lemma adapt_stale {delta a b : ℕ} (ha : delta ≤ a) (hb : delta ≤ b) :
    adapt delta (a + 1) false = adapt delta (b + 1) false := by
  simp only [adapt, Bool.false_eq_true, if_false]
  rw [Nat.div_eq_of_lt (show delta / 2 < a + 1 by omega),
    Nat.div_eq_of_lt (show delta / 2 < b + 1 by omega)]

/-! ### The reader that follows -/

/-- A reader at `D` that finds `ds` next goes on from `D'`. -/
def Reads (ds : Str) (D D' : Decoder) : Prop :=
  ∀ rest, decodeLoop (ds ++ rest) D = decodeLoop rest D'

lemma Reads.append {ds es : Str} {D D' D'' : Decoder} (h : Reads ds D D') (h' : Reads es D' D'') :
    Reads (ds ++ es) D D'' := fun rest => by rw [List.append_assoc, h, h']

lemma digits_ne_nil (bias k q : ℕ) : digits bias k q ≠ [] := by
  rw [digits]
  split_ifs <;> exact List.cons_ne_nil _ _

lemma reads_digits {D D' : Decoder} {delta : ℕ} (hb : D.bias ≤ 215) (h : D.i + delta ≤ maxInt)
    (hins : D.insert (D.i + delta) = .ok D') : Reads (digits D.bias base delta) D D' := by
  intro rest
  have hread : readDelta D.bias (digits D.bias base delta ++ rest) base 1 D.i =
      .ok (D.i + delta, rest) := by
    have := readDelta_digits hb rest 0 (q := delta) (i := D.i) one_pos le_rfl (by omega)
    rwa [mul_one] at this
  rw [decodeLoop, if_neg (by simp [digits_ne_nil])]
  split
  · next e he => rw [hread] at he; cases he
  · next i r he =>
    rw [hread] at he
    cases he
    rw [hins]

/-- The insertion, with the steps split into places and rounds. -/
lemma insert_eq {D : Decoder} {m p i : ℕ} (hn : D.n ≤ m) (hm : m ≤ maxInt)
    (hp : p ≤ D.output.length) (h : i = p + (D.output.length + 1) * (m - D.n)) :
    D.insert i = .ok ⟨D.output.take p ++ m :: D.output.drop p, p + 1, m,
      adapt (i - D.i) (D.output.length + 1) (D.i = 0)⟩ := by
  have hdiv : i / (D.output.length + 1) = m - D.n := by
    rw [h, Nat.add_mul_div_left p _ (Nat.succ_pos _), Nat.div_eq_of_lt (by omega), Nat.zero_add]
  have hmod : i % (D.output.length + 1) = p := by
    rw [h, Nat.add_mul_mod_self_left, Nat.mod_eq_of_lt (by omega)]
  simp only [Decoder.insert, hdiv, hmod]
  rw [if_neg (by omega), Nat.add_sub_cancel' hn]

/-- The writer in the round of `m`, with `pre` behind it in the input and `post` to come, and a
reader `D` of what is written since `D₀`. `before` of the input were handled before the round. -/
structure Follows (D₀ : Decoder) (start : Str) (basicLength m before : ℕ) (pre post : List ℕ)
    (s : Encoder) (D : Decoder) : Prop where
  output : D.output = pre.filter (· ≤ m) ++ post.filter (· < m)
  handled : s.handledCPCount = D.output.length
  bias : s.bias = D.bias
  bias_le : D.bias ≤ 215
  /-- The steps to the place of the writer. -/
  place : D.n * (s.handledCPCount + 1) + D.i + s.delta =
    m * (s.handledCPCount + 1) + (pre.filter (· ≤ m)).length
  n_ge : 128 ≤ D.n
  n_le : D.n ≤ m
  first : D.i = 0 ↔ s.handledCPCount = basicLength
  basic_le : basicLength ≤ before
  round : s.handledCPCount = before ∨
    before < s.handledCPCount ∧ s.delta ≤ (pre.filter (· < m)).length
  reads : ∃ ds, s.output = start ++ ds ∧ (∀ c ∈ ds, ∃ d < 36, c = digitToBasic d) ∧ Reads ds D₀ D

variable {D₀ : Decoder} {start : Str} {basicLength m before v : ℕ} {pre post : List ℕ}
  {s : Encoder} {D : Decoder}

lemma Follows.handled_le (h : Follows D₀ start basicLength m before pre post s D) :
    (pre.filter (· ≤ m)).length ≤ s.handledCPCount ∧
      s.handledCPCount ≤ (pre ++ post).length := by
  have h1 := List.length_filter_le (· ≤ m) pre
  have h2 := List.length_filter_le (· < m) post
  rw [h.handled, h.output, List.length_append, List.length_append]
  omega

/-- The steps that are counted, none of them too many. -/
lemma Follows.steps (h : Follows D₀ start basicLength m before pre post s D)
    (hm : m < 0x110000) (hlen : 0x110000 * ((pre ++ post).length + 1) ≤ maxInt) :
    D.i + s.delta = (pre.filter (· ≤ m)).length + (s.handledCPCount + 1) * (m - D.n) ∧
      D.i + s.delta + 1 ≤ maxInt := by
  obtain ⟨k, rfl⟩ := Nat.exists_eq_add_of_le h.n_le
  have hplace := h.place
  obtain ⟨h1, h2⟩ := h.handled_le
  have hn := h.n_ge
  rw [Nat.add_mul] at hplace
  rw [Nat.add_sub_cancel_left, Nat.mul_comm _ k]
  have hle : (k + 1) * (s.handledCPCount + 1) ≤ 0x110000 * ((pre ++ post).length + 1) :=
    Nat.mul_le_mul (by omega) (by omega)
  rw [Nat.add_mul] at hle
  omega

/-- One code point of a round. -/
lemma Follows.point (h : Follows D₀ start basicLength m before pre (v :: post) s D)
    (hm : m < 0x110000) (hlen : 0x110000 * ((pre ++ v :: post).length + 1) ≤ maxInt)
    (hbefore : before = ((pre ++ v :: post).filter (· < m)).length) :
    ∃ s' D', point m basicLength (before + 1) s v = .ok s' ∧
      Follows D₀ start basicLength m before (pre ++ [v]) post s' D' := by
  obtain ⟨hsteps, hmax⟩ := h.steps hm hlen
  rcases lt_trichotomy v m with hv | rfl | hv
  · refine ⟨{ s with delta := s.delta + 1 }, D, ?_, ?_⟩
    · rw [Punycode.point, if_pos hv, if_neg (by omega)]
    · exact { h with
        output := by simp [h.output, hv, hv.le]
        place := by simp [hv.le, ← Nat.add_assoc, h.place]
        round := by simpa [hv] using h.round }
  · -- the number is written, and the reader inserts `v`
    have hle := h.handled_le.1
    have hins := insert_eq h.n_le (show v ≤ maxInt by unfold maxInt; omega)
      (hle.trans_eq h.handled) (h.handled ▸ hsteps)
    obtain ⟨ds, hout, hds, hreads⟩ := h.reads
    have hadapt : adapt s.delta (before + 1) (s.handledCPCount = basicLength) =
        adapt (D.i + s.delta - D.i) (D.output.length + 1) (D.i = 0) := by
      rw [Nat.add_sub_cancel_left, decide_eq_decide.mpr h.first, ← h.handled]
      rcases h.round with hr | ⟨hr, hdelta⟩
      · rw [← hr]
      · rw [decide_eq_false (by have := h.basic_le; omega)]
        have : (pre.filter (· < v)).length ≤ before := by
          rw [hbefore, List.filter_append, List.length_append]
          exact Nat.le_add_right _ _
        exact adapt_stale (by omega) (by omega)
    exact ⟨_, _, by rw [Punycode.point, if_neg (lt_irrefl v), if_pos rfl], {
      output := by simp [h.output]
      handled := by simp [h.handled]; omega
      bias := hadapt
      bias_le := adapt_le (by omega) _ _
      place := by simp
      n_ge := h.n_ge.trans h.n_le
      n_le := le_rfl
      first := by have := h.basic_le; have := h.round; simp; omega
      basic_le := h.basic_le
      round := .inr ⟨by have := h.round; simp; omega, Nat.zero_le _⟩
      reads := ⟨ds ++ digits s.bias base s.delta, by rw [hout, List.append_assoc],
        fun c hc => (List.mem_append.mp hc).elim (hds c) digitToBasic_of_mem_digits,
        hreads.append (h.bias ▸ reads_digits h.bias_le (by omega) hins)⟩ }⟩
  · refine ⟨s, D, ?_, ?_⟩
    · rw [Punycode.point, if_neg hv.not_gt, if_neg hv.ne']
    · exact { h with
        output := by simp [h.output, hv.not_gt, hv.not_ge]
        place := by simp [hv.not_ge, h.place]
        round := by simpa [hv.not_gt] using h.round }

/-- The rest of a round. -/
lemma Follows.round_run (h : Follows D₀ start basicLength m before pre post s D)
    (hm : m < 0x110000) (hlen : 0x110000 * ((pre ++ post).length + 1) ≤ maxInt)
    (hbefore : before = ((pre ++ post).filter (· < m)).length) :
    ∃ s' D', post.foldlM (Punycode.point m basicLength (before + 1)) s = .ok s' ∧
      Follows D₀ start basicLength m before (pre ++ post) [] s' D' := by
  induction post generalizing pre s D with
  | nil => exact ⟨s, D, rfl, by rwa [List.append_nil]⟩
  | cons v post ih =>
    obtain ⟨s₁, D₁, hpoint, h₁⟩ := h.point hm hlen hbefore
    rw [List.append_cons] at hlen hbefore ⊢
    obtain ⟨s', D', hrun, h'⟩ := ih h₁ hlen hbefore
    exact ⟨s', D', by rw [List.foldlM_cons, hpoint]; exact hrun, h'⟩

lemma nextPoint_spec {input : List ℕ} {n v : ℕ} (hv : v ∈ input) (hn : n ≤ v) (hmax : v < maxInt) :
    nextPoint input n ∈ input ∧ n ≤ nextPoint input n ∧
      ∀ w ∈ input, n ≤ w → nextPoint input n ≤ w := by
  have hfold : ∀ (l : List ℕ) (a : ℕ),
      let r := l.foldl (fun m w => if w ≥ n ∧ w < m then w else m) a
      (r = a ∨ r ∈ l ∧ n ≤ r) ∧ r ≤ a ∧ ∀ w ∈ l, n ≤ w → r ≤ w := by
    intro l
    induction l with
    | nil => simp
    | cons x l ih =>
      intro a
      have := ih (if x ≥ n ∧ x < a then x else a)
      simp only [List.foldl_cons, List.mem_cons, forall_eq_or_imp] at this ⊢
      split_ifs at this ⊢ with hx <;> grind
  obtain ⟨h1, -, h3⟩ := hfold input maxInt
  rcases h1 with h1 | h1
  · exact absurd (h3 v hv hn) (by rw [h1]; omega)
  · exact ⟨h1.1, h1.2, h3⟩

variable {P : List ℕ} {n : ℕ}

/-- Before a round. -/
abbrev Ready (D₀ : Decoder) (start : Str) (basicLength n : ℕ) (P : List ℕ) (s : Encoder)
    (D : Decoder) : Prop :=
  Follows D₀ start basicLength n s.handledCPCount [] P s D

lemma Ready.output (h : Ready D₀ start basicLength n P s D) : D.output = P.filter (· < n) :=
  Follows.output h

/-- To the next code point. -/
lemma Ready.advance (h : Ready D₀ start basicLength n P s D) (hm : n ≤ m)
    (hleast : ∀ w ∈ P, n ≤ w → m ≤ w) :
    Follows D₀ start basicLength m s.handledCPCount [] P
      { s with delta := s.delta + (m - n) * (s.handledCPCount + 1) } D := by
  have hfilter : P.filter (· < n) = P.filter (· < m) :=
    List.filter_congr fun w hw => by
      have := hleast w hw
      exact decide_eq_decide.mpr (by omega)
  have hplace := Follows.place h
  obtain ⟨k, rfl⟩ := Nat.exists_eq_add_of_le hm
  exact { h with
    output := by rw [h.output, hfilter]; rfl
    place := by
      rw [Nat.add_sub_cancel_left, Nat.add_mul, ← Nat.add_assoc, hplace]
      simp
    n_le := (Follows.n_le h).trans hm
    round := .inl rfl }

/-- After a round. -/
lemma Follows.ready (h : Follows D₀ start basicLength m before P [] s D) :
    Ready D₀ start basicLength (m + 1) P { s with delta := s.delta + 1 } D := by
  have hplace := h.place
  have hhandled := h.handled
  have hout : D.output = P.filter (· ≤ m) := by simp [h.output]
  exact { h with
    output := by simp [hout]
    place := by
      rw [← hout, ← hhandled] at hplace
      simp only [List.filter_nil, List.length_nil]
      rw [Nat.add_mul]
      omega
    n_le := h.n_le.trans (Nat.le_succ m)
    basic_le := h.basic_le.trans (by have := h.round; show before ≤ s.handledCPCount; omega)
    round := .inl rfl }

lemma filter_grows (h : m ∈ P) : (P.filter (· < m)).length < (P.filter (· ≤ m)).length := by
  have hsub : P.filter (· < m) = (P.filter (· ≤ m)).filter (· < m) := by
    rw [List.filter_filter]
    exact List.filter_congr fun w _ => by grind
  rw [hsub, List.length_filter_lt_length_iff_exists]
  exact ⟨m, by simpa using h, by simp⟩

/-- All the rounds. -/
lemma Ready.rounds (hP : ∀ v ∈ P, v < 0x110000) (hlen : 0x110000 * (P.length + 1) ≤ maxInt)
    (fuel : ℕ) (h : Ready D₀ start basicLength n P s D)
    (hfuel : P.length ≤ s.handledCPCount + fuel) :
    ∃ s' D', rounds P basicLength fuel n s = .ok s' ∧ D'.output = P ∧ ∃ ds,
      s'.output = start ++ ds ∧ (∀ c ∈ ds, ∃ d < 36, c = digitToBasic d) ∧ Reads ds D₀ D' := by
  have hdone : ∀ {n s D}, Ready D₀ start basicLength n P s D → P.length ≤ s.handledCPCount →
      D.output = P := by
    intro n s D h hs
    rw [h.handled, h.output] at hs
    rw [h.output]
    exact List.filter_sublist.eq_of_length_le hs
  induction fuel generalizing n s D with
  | zero => exact ⟨s, D, rfl, hdone h hfuel, h.reads⟩
  | succ fuel ih =>
    rw [Punycode.rounds]
    by_cases hs : s.handledCPCount < P.length
    · obtain ⟨v, hv, hnv⟩ : ∃ v ∈ P, n ≤ v := by
        rw [h.handled, h.output, List.length_filter_lt_length_iff_exists] at hs
        simpa using hs
      obtain ⟨hmem, hm, hleast⟩ := nextPoint_spec hv hnv ((hP v hv).trans (by decide))
      have hadv := h.advance hm hleast
      have hroom := (hadv.steps (hP _ hmem) hlen).2
      have hbefore : s.handledCPCount = (P.filter (· < nextPoint P n)).length := by
        rw [h.handled, hadv.output]
        rfl
      obtain ⟨s₁, D₁, hrun, h₁⟩ := hadv.round_run (hP _ hmem) hlen hbefore
      have hgrows := filter_grows hmem
      have hcount : s₁.handledCPCount = (P.filter (· ≤ nextPoint P n)).length := by
        simp [h₁.handled, h₁.output]
      obtain ⟨s', D', hrest, hres⟩ := ih h₁.ready (by show _ ≤ s₁.handledCPCount + fuel; omega)
      refine ⟨s', D', ?_, hres⟩
      rw [if_pos hs, if_neg]
      · show (P.foldlM _ _ >>= _) = _
        rw [hrun]
        exact hrest
      · have : (nextPoint P n - n) * (s.handledCPCount + 1) + s.delta ≤ maxInt := by
          simp only at hroom
          omega
        rw [not_lt, Int.le_ediv_iff_mul_le (by omega), ← Nat.cast_sub hm, le_sub_iff_add_le]
        exact_mod_cast this
    · rw [if_neg hs]
      exact ⟨s, D, rfl, hdone h (by omega), h.reads⟩

/-! ### Both ends -/

lemma basicEnd_append {start ds : Str} (h : delimiter ∉ ds) :
    basicEnd (start ++ delimiter :: ds) = start.length := by
  rw [basicEnd, List.reverse_append, List.reverse_cons, List.append_assoc, List.singleton_append,
    List.idxOf_append_of_notMem (by simpa using h), List.idxOf_cons_self]
  simp

lemma basicEnd_of_not_mem {ds : Str} (h : delimiter ∉ ds) : basicEnd ds = 0 := by
  rw [basicEnd, List.idxOf_of_notMem (by simpa using h), List.length_reverse]
  omega

lemma delimiter_not_digit : ∀ d < 36, delimiter ≠ digitToBasic d := by decide

lemma digit_basic {c : UInt16} (h : ∃ d < 36, c = digitToBasic d) : c < 0x80 := by
  have hall : ∀ d < 36, digitToBasic d < 0x80 := by decide
  obtain ⟨d, hd, rfl⟩ := h
  exact hall d hd

/-- The start of the reader. -/
lemma decodePoints_basic {b ds : Str} (hb : ∀ c ∈ b, c < 0x80)
    (h : ∀ c ∈ ds, ∃ d < 36, c = digitToBasic d) :
    decodePoints ((if b = [] then [] else b ++ [delimiter]) ++ ds) =
      decodeLoop ds ⟨b.map UInt16.toNat, 0, initialN, initialBias⟩ := by
  have hds : delimiter ∉ ds := fun hc => by
    obtain ⟨d, hd, he⟩ := h _ hc
    exact delimiter_not_digit d hd he
  have hlow : b.any (· ≥ 0x80) = false := by simpa using hb
  by_cases he : b = []
  · subst he
    simp [decodePoints, basicEnd_of_not_mem hds]
  · have hpos := List.length_pos_iff.mpr he
    rw [if_neg he, List.append_assoc, List.singleton_append, decodePoints, basicEnd_append hds,
      List.take_left, hlow, if_neg Bool.false_ne_true, if_pos hpos,
      ← List.drop_drop, List.drop_left, List.drop_one, List.tail_cons]

lemma toNat_ofNat_basic (P : List ℕ) :
    ((P.filter (· < 0x80)).map UInt16.ofNat).map UInt16.toNat = P.filter (· < 0x80) := by
  rw [List.map_map]
  refine (List.map_congr_left fun v hv => ?_).trans (List.map_id _)
  have : v < 0x80 := by simpa using (List.mem_filter.mp hv).2
  simp
  omega

/-- What is written: code points of the input, the delimiter and digits. -/
def Written (input : List ℕ) (c : UInt16) : Prop :=
  c < 0x80 ∧ (c.toNat ∈ input ∨ c = delimiter ∨ ∃ d < 36, c = digitToBasic d)

theorem decode_encodePoints (hP : ∀ v ∈ P, v < 0x110000)
    (hlen : 0x110000 * (P.length + 1) ≤ maxInt) :
    ∃ p, encodePoints P = .ok p ∧ (∀ c ∈ p, Written P c) ∧ decodePoints p = .ok P := by
  have hready : Ready ⟨P.filter (· < 0x80), 0, initialN, initialBias⟩ (basicString P)
      (P.filter (· < 0x80)).length initialN P
      ⟨basicString P, 0, initialBias, (P.filter (· < 0x80)).length⟩
      ⟨P.filter (· < 0x80), 0, initialN, initialBias⟩ :=
    { output := rfl, handled := rfl, bias := rfl, place := rfl
      bias_le := show initialBias ≤ 215 by decide
      n_ge := le_rfl, n_le := le_rfl, first := by simp, basic_le := le_rfl, round := .inl rfl
      reads := ⟨[], (List.append_nil _).symm, by simp, fun _ => rfl⟩ }
  obtain ⟨s', D', hrun, hD', ds, hout, hds, hreads⟩ :=
    hready.rounds hP hlen P.length (Nat.le_add_left _ _)
  have hlow : ∀ c ∈ (P.filter (· < 0x80)).map UInt16.ofNat, c < 0x80 ∧ c.toNat ∈ P := by
    intro c hc
    have := List.mem_map_of_mem (f := UInt16.toNat) hc
    rw [toNat_ofNat_basic, List.mem_filter] at this
    exact ⟨UInt16.lt_iff_toNat_lt.mpr (by simpa using this.2), this.1⟩
  refine ⟨s'.output, by rw [encodePoints, hrun]; rfl, fun c hc => ?_, ?_⟩
  · rw [hout, basicString] at hc
    rcases List.mem_append.mp hc with hc | hc
    · split_ifs at hc
      · cases hc
      · rcases List.mem_append.mp hc with hc | hc
        · exact ⟨(hlow c hc).1, .inl (hlow c hc).2⟩
        · rw [List.mem_singleton.mp hc]
          exact ⟨by decide, .inr (.inl rfl)⟩
    · exact ⟨digit_basic (hds c hc), .inr (.inr (hds c hc))⟩
  · rw [hout, basicString, decodePoints_basic (fun c hc => (hlow c hc).1) hds, toNat_ofNat_basic,
      ← List.append_nil ds, hreads, decodeLoop, if_pos rfl, hD']

/-! ### Strings -/

lemma ucs2decode_lt (s : Str) : ∀ v ∈ ucs2decode s, v < 0x110000 := by
  fun_induction ucs2decode s <;> grind [combine, UInt16.toNat_lt]

lemma ucs2decode_length (s : Str) : (ucs2decode s).length ≤ s.length := by
  fun_induction ucs2decode s <;> grind

/-- No low surrogate comes right after another. -/
def Paired (s : Str) : Prop := s.IsChain fun c d => ¬(isTrail c ∧ isTrail d)

lemma ucs2encode_cons (v : ℕ) (l : List ℕ) :
    ucs2encode (v :: l) = ucs2encode [v] ++ ucs2encode l := by simp [ucs2encode]

lemma ucs2encode_unit (c : UInt16) : ucs2encode [c.toNat] = [c] := by
  have := c.toNat_lt
  simp [ucs2encode]
  omega

lemma ucs2encode_combine {c d : UInt16} (hc : isLead c) (hd : isTrail d) :
    ucs2encode [combine c d] = [c, d] := by
  simp [isLead, isTrail, UInt16.le_iff_toNat_le] at hc hd
  simp only [ucs2encode, combine, List.flatMap_cons, List.flatMap_nil, List.append_nil]
  rw [if_pos (by omega)]
  refine congrArg₂ (fun a b => [a, b]) ?_ ?_ <;>
  · rw [← UInt16.toNat_inj, UInt16.toNat_ofNat']
    omega

lemma ucs2encode_ucs2decode {s : Str} (h : Paired s) : ucs2encode (ucs2decode s) = s := by
  fun_induction ucs2decode s with
  | case1 value extra rest hs ht ih =>
    have hv : ¬(isTrail value ∧ isTrail extra) := (List.isChain_cons_cons.mp h).1
    have hl : isLead value := by grind
    rw [ucs2encode_cons, ucs2encode_combine hl ht, ih h.tail.tail]
    rfl
  | case2 value extra rest hs ht ih =>
    rw [ucs2encode_cons, ucs2encode_cons extra.toNat, ucs2encode_unit, ucs2encode_unit,
      ih h.tail.tail]
    rfl
  | case3 value extra rest hs ih =>
    rw [ucs2encode_cons, ucs2encode_unit, ih h.tail]
    rfl
  | case4 value => exact ucs2encode_unit value
  | case5 => rfl

lemma mem_of_mem_ucs2decode {s : Str} {c : UInt16} (h : c.toNat ∈ ucs2decode s) (hc : c < 0x80) :
    c ∈ s := by
  fun_induction ucs2decode s <;> grind [combine, UInt16.toNat_inj, UInt16.lt_iff_toNat_lt]

lemma decode_back (s : Str) (hlen : s.length ≤ 1926) :
    ∃ p, encode s = .ok p ∧ (∀ c ∈ p, Written (ucs2decode s) c) ∧
      decode p = .ok (ucs2encode (ucs2decode s)) := by
  have hroom : 0x110000 * ((ucs2decode s).length + 1) ≤ maxInt := by
    have := ucs2decode_length s
    unfold maxInt
    omega
  obtain ⟨p, hp, hw, hd⟩ := decode_encodePoints (ucs2decode_lt s) hroom
  exact ⟨p, hp, hw, by rw [decode, hd]; rfl⟩

/-- **The round trip.** -/
theorem decode_encode (s : Str) (hs : Paired s) (hlen : s.length ≤ 1926) :
    ∃ p, encode s = .ok p ∧ (∀ c ∈ p, c < 0x80) ∧ decode p = .ok s := by
  obtain ⟨p, hp, hw, hd⟩ := decode_back s hlen
  exact ⟨p, hp, fun c hc => (hw c hc).1, by rw [hd, ucs2encode_ucs2decode hs]⟩

theorem decode_encode_smile : ∃ p, encode [0xD83D, 0xDE00, 65] = .ok p ∧ (∀ c ∈ p, c < 0x80) ∧
    decode p = .ok [0xD83D, 0xDE00, 65] :=
  decode_encode _ (by unfold Paired; decide) (by decide)

/-! ### Domains -/

lemma not_separator_of_mem_split {s l : Str} (h : l ∈ s.splitOnP isSeparator) :
    ∀ c ∈ l, isSeparator c = false := by
  induction s generalizing l with
  | nil => simp_all
  | cons x s ih =>
    rw [List.splitOnP_cons_eq_if_modifyHead] at h
    split_ifs at h with hx
    · rcases List.mem_cons.mp h with rfl | h
      · exact nofun
      · exact ih h
    · cases hs : s.splitOnP isSeparator with
      | nil => exact absurd hs (List.splitOnP_ne_nil _ _)
      | cons a as =>
        rw [hs] at h ih
        rcases List.mem_cons.mp h with rfl | h
        · simpa [hx] using ih List.mem_cons_self
        · exact ih (List.mem_cons_of_mem _ h)

lemma split_intercalate {L : List Str} (hne : L ≠ [])
    (h : ∀ l ∈ L, ∀ c ∈ l, isSeparator c = false) :
    ([0x2E].intercalate L).splitOnP isSeparator = L := by
  induction L with
  | nil => exact absurd rfl hne
  | cons l L ih =>
    cases L with
    | nil => simpa using List.splitOnP_eq_singleton (h l (by simp))
    | cons l' L =>
      rw [List.intercalate_cons_cons, List.append_assoc, List.singleton_append,
        List.splitOnP_append_cons_of_forall_mem (h l List.mem_cons_self) _ rfl,
        ih (List.cons_ne_nil _ _) fun l hl => h l (List.mem_cons_of_mem _ hl)]

/-- A label that comes back. -/
def Fine (l : Str) : Prop :=
  if isNonASCII l then Paired l ∧ l.length ≤ 1926 ∧ ∀ c ∈ l, ¬(65 ≤ c ∧ c ≤ 90)
  else isPunycode l = false

lemma label_back {l : Str} (h : Fine l) (hsep : ∀ c ∈ l, isSeparator c = false) :
    ∃ a, labelToASCII l = .ok a ∧ (∀ c ∈ a, c < 0x80 ∧ isSeparator c = false) ∧
      labelToUnicode a = .ok l := by
  have hdigit : ∀ d < 36, lowerUnit (digitToBasic d) = digitToBasic d ∧
    isSeparator (digitToBasic d) = false := by decide
  have hxn : ∀ c ∈ js "xn--", c < 0x80 ∧ isSeparator c = false := by decide
  unfold Fine at h
  split_ifs at h with ha
  · obtain ⟨hpair, hlen, hlow⟩ := h
    obtain ⟨p, hp, hw, hd⟩ := decode_back l hlen
    have hlower : toLowerCase p = p := by
      refine (List.map_congr_left fun c hc => ?_).trans (List.map_id p)
      rcases (hw c hc).2 with hm | rfl | ⟨d, hd, rfl⟩
      · exact if_neg (hlow c (mem_of_mem_ucs2decode hm (hw c hc).1))
      · rfl
      · exact (hdigit d hd).1
    refine ⟨js "xn--" ++ p, by rw [labelToASCII, if_pos ha, hp]; rfl, ?_, ?_⟩
    · intro c hc
      rcases List.mem_append.mp hc with hc | hc
      · exact hxn c hc
      · refine ⟨(hw c hc).1, ?_⟩
        rcases (hw c hc).2 with hm | rfl | ⟨d, hd, rfl⟩
        · exact hsep c (mem_of_mem_ucs2decode hm (hw c hc).1)
        · rfl
        · exact (hdigit d hd).2
    · rw [labelToUnicode, if_pos]
      · show decode (toLowerCase p) = _
        rw [hlower, hd, ucs2encode_ucs2decode hpair]
      · exact List.isPrefixOf_iff_prefix.mpr (List.prefix_append _ _)
  · refine ⟨l, if_neg ha, fun c hc => ⟨?_, hsep c hc⟩, if_neg (by simp [h])⟩
    have : ¬(c < 32 ∨ 126 < c) := fun hc' => ha (List.any_eq_true.mpr ⟨c, hc, by simpa using hc'⟩)
    grind

lemma map_back {f g : Str → Except Failure Str} {Q : Str → Prop} {L : List Str}
    (h : ∀ l ∈ L, ∃ a, f l = .ok a ∧ Q a ∧ g a = .ok l) :
    ∃ A, map f L = .ok A ∧ (L ≠ [] → A ≠ []) ∧ (∀ a ∈ A, Q a) ∧ map g A = .ok L := by
  induction L with
  | nil => exact ⟨[], rfl, id, by simp, rfl⟩
  | cons l L ih =>
    obtain ⟨a, hf, hq, hg⟩ := h l (by simp)
    obtain ⟨A, hA, -, hQ, hB⟩ := ih fun l hl => h l (List.mem_cons_of_mem _ hl)
    exact ⟨a :: A, by simp only [map, hA, hf]; rfl, by simp, by simpa using ⟨hq, hQ⟩,
      by simp only [map, hB, hg]; rfl⟩

lemma forall_mem_intercalate {L : List Str} (h : ∀ l ∈ L, ∀ c ∈ l, c < 0x80) :
    ∀ c ∈ [0x2E].intercalate L, c < 0x80 := by
  induction L with
  | nil => exact nofun
  | cons l L ih =>
    cases L <;> grind [List.intercalate_cons_cons, List.intercalate_singleton]

/-- A domain of such labels comes back from ASCII, with a `.` for each separator. -/
theorem toUnicode_toASCII (domain : Str) (h : ∀ l ∈ domain.splitOnP isSeparator, Fine l) :
    ∃ a, toASCII domain = .ok a ∧ (∀ c ∈ a, c < 0x80) ∧
      toUnicode a = .ok ([0x2E].intercalate (domain.splitOnP isSeparator)) := by
  obtain ⟨A, hA, hne, hQ, hB⟩ := map_back fun l hl =>
    label_back (h l hl) (not_separator_of_mem_split hl)
  refine ⟨[0x2E].intercalate A, by rw [toASCII, mapDomain, hA]; rfl,
    forall_mem_intercalate fun l hl c hc => (hQ l hl c hc).1, ?_⟩
  rw [toUnicode, mapDomain, split_intercalate (hne (List.splitOnP_ne_nil _ _))
    fun l hl c hc => (hQ l hl c hc).2, hB]
  rfl

/-- `bü。de` -/
theorem toUnicode_toASCII_two : ∃ a, toASCII [98, 0xFC, 0x3002, 100, 101] = .ok a ∧
    (∀ c ∈ a, c < 0x80) ∧ toUnicode a = .ok [98, 0xFC, 0x2E, 100, 101] :=
  toUnicode_toASCII [98, 0xFC, 0x3002, 100, 101] (by unfold Fine Paired; decide)

end NodeCore.Punycode
