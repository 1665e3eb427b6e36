import Mathlib.Tactic

/-!
Regular expressions without groups: anchors, single characters and starred single characters,
over any alphabet.

A test asks whether some part of the text matches, so the order in which a star tries its
lengths does not show.
-/

namespace NodeCore.Regex

/-- A term of a pattern; a character class is given by its test. -/
inductive Term (α : Type*)
  | bol
  | eol
  | one (p : α → Bool)
  | many (p : α → Bool)

variable {α : Type*}

/-- A run of characters of the class, then `k`, which is told whether it is still at the
start of the text. -/
def starThen (p : α → Bool) (k : Bool → List α → Bool) : Bool → List α → Bool
  | start, [] => k start []
  | start, c :: s => k start (c :: s) || (p c && starThen p k false s)

/-- The pattern matches a prefix of the text. -/
def matchAt : List (Term α) → Bool → List α → Bool
  | [], _, _ => true
  | .bol :: t, start, s => start && matchAt t start s
  | .eol :: t, start, s => s.isEmpty && matchAt t start s
  | .one p :: t, _, c :: s => p c && matchAt t false s
  | .one _ :: _, _, [] => false
  | .many p :: t, start, s => starThen p (matchAt t) start s

/-- `RegExp.prototype.test`: the pattern matches somewhere. -/
def test (t : List (Term α)) (s : List α) : Bool := starThen (fun _ => true) (matchAt t) true s

/-! ### What terms match -/

lemma starThen_iff {p : α → Bool} {k : Bool → List α → Bool} {start : Bool} {s : List α} :
    starThen p k start s = true ↔
      ∃ w r, s = w ++ r ∧ (∀ c ∈ w, p c = true) ∧ k (start && w.isEmpty) r = true := by
  induction s generalizing start with
  | nil =>
    constructor
    · intro h
      exact ⟨[], [], rfl, by simp, by simpa [starThen] using h⟩
    · rintro ⟨w, r, hs, -, hk⟩
      obtain ⟨rfl, rfl⟩ := List.append_eq_nil_iff.mp hs.symm
      simpa [starThen] using hk
  | cons c s ih =>
    simp only [starThen, Bool.or_eq_true, Bool.and_eq_true, ih]
    constructor
    · rintro (h | ⟨hc, w, r, rfl, hw, hk⟩)
      · exact ⟨[], c :: s, rfl, by simp, by simpa using h⟩
      · exact ⟨c :: w, r, rfl, List.forall_mem_cons.mpr ⟨hc, hw⟩, by simpa using hk⟩
    · rintro ⟨w, r, hs, hw, hk⟩
      cases w with
      | nil =>
        rw [List.nil_append] at hs
        subst hs
        exact .inl (by simpa using hk)
      | cons d w =>
        rw [List.cons_append] at hs
        obtain ⟨rfl, rfl⟩ := List.cons.inj hs
        obtain ⟨hc, hw⟩ := List.forall_mem_cons.mp hw
        exact .inr ⟨hc, w, r, rfl, hw, by simpa using hk⟩

lemma matchAt_many {p : α → Bool} {t : List (Term α)} {start : Bool} {s : List α} :
    matchAt (.many p :: t) start s = true ↔
      ∃ w r, s = w ++ r ∧ (∀ c ∈ w, p c = true) ∧
        matchAt t (start && w.isEmpty) r = true := starThen_iff

lemma matchAt_one {p : α → Bool} {t : List (Term α)} {start : Bool} {s : List α} :
    matchAt (.one p :: t) start s = true ↔
      ∃ c r, s = c :: r ∧ p c = true ∧ matchAt t false r = true := by
  cases s with
  | nil => simp [matchAt]
  | cons c r => simp [matchAt]

lemma test_iff {t : List (Term α)} {s : List α} :
    test t s = true ↔ ∃ u v, s = u ++ v ∧ matchAt t u.isEmpty v = true := by
  rw [test, starThen_iff]
  simp

/-- A pattern that starts with `^` matches from the start of the text or not at all. -/
lemma test_bol {t : List (Term α)} {s : List α} :
    test (.bol :: t) s = true ↔ matchAt t true s = true := by
  rw [test_iff]
  constructor
  · rintro ⟨u, v, rfl, h⟩
    cases u with
    | nil => simpa [matchAt] using h
    | cons c u => simp [matchAt] at h
  · exact fun h => ⟨[], s, rfl, by simpa [matchAt] using h⟩

/-- A fixed text and the end. -/
lemma matchAt_text_eol {ps : List (α → Bool)} {start : Bool} {s : List α} :
    matchAt (ps.map Term.one ++ [.eol]) start s = true ↔
      List.Forall₂ (fun p c => p c = true) ps s := by
  induction ps generalizing start s with
  | nil => simp [matchAt]
  | cons p ps ih =>
    rw [List.map_cons, List.cons_append, matchAt_one]
    constructor
    · rintro ⟨c, r, rfl, hc, hr⟩
      exact .cons hc (ih.mp hr)
    · intro h
      cases h with
      | cons hc hr => exact ⟨_, _, rfl, hc, ih.mpr hr⟩

/-- A fixed text. -/
lemma matchAt_text {ps : List (α → Bool)} {start : Bool} {s : List α} :
    matchAt (ps.map Term.one) start s = true ↔
      ∃ v w, s = v ++ w ∧ List.Forall₂ (fun p c => p c = true) ps v := by
  induction ps generalizing start s with
  | nil =>
    constructor
    · exact fun _ => ⟨[], s, rfl, .nil⟩
    · exact fun _ => rfl
  | cons p ps ih =>
    rw [List.map_cons, matchAt_one]
    constructor
    · rintro ⟨c, r, rfl, hc, hr⟩
      obtain ⟨v, w, rfl, hv⟩ := ih.mp hr
      exact ⟨c :: v, w, rfl, .cons hc hv⟩
    · rintro ⟨v, w, rfl, hv⟩
      cases hv with
      | cons hc hr => exact ⟨_, _, rfl, hc, ih.mpr ⟨_, w, rfl, hr⟩⟩

/-- A fixed text without anchors is found anywhere. -/
lemma test_text {ps : List (α → Bool)} {s : List α} :
    test (ps.map Term.one) s = true ↔
      ∃ u v w, s = u ++ (v ++ w) ∧ List.Forall₂ (fun p c => p c = true) ps v := by
  rw [test_iff]
  constructor
  · rintro ⟨u, r, rfl, h⟩
    obtain ⟨v, w, rfl, hv⟩ := matchAt_text.mp h
    exact ⟨u, v, w, rfl, hv⟩
  · rintro ⟨u, v, w, rfl, hv⟩
    exact ⟨u, v ++ w, rfl, matchAt_text.mpr ⟨v, w, rfl, hv⟩⟩

end NodeCore.Regex
