import Mathlib.Tactic

/-!
Machines that write: a state has an output, possibly one that cannot be read, and a step is
worth the items it should add to it.

When every step adds exactly what it is worth, so does every run. The converse is what makes
a condition on the steps exact: a run that is right after each of its initial parts has only
right steps.
-/

namespace NodeCore.Ledger

variable {S A B : Type*} (step : S → A → S) (obs : S → Option (List B)) (worth : S → A → List B)

def run (s : S) (as : List A) : S := as.foldl step s

/-- What a run should add. -/
def total (s : S) : List A → List B
  | [] => []
  | a :: as => worth s a ++ total (step s a) as

/-- The step adds what it is worth. -/
def Exact (s : S) (a : A) : Prop := obs (step s a) = (obs s).map (· ++ worth s a)

/-- Every step of the run satisfies `P` at the state it is taken in. -/
def Along (P : S → A → Prop) : S → List A → Prop
  | _, [] => True
  | s, a :: as => P s a ∧ Along P (step s a) as

/-- Every step of the run adds what it is worth. -/
def Steps : S → List A → Prop := Along step (Exact step obs worth)

@[simp] lemma run_nil (s : S) : run step s [] = s := rfl
@[simp] lemma run_cons (s : S) (a : A) (as : List A) :
    run step s (a :: as) = run step (step s a) as := rfl
lemma run_append (s : S) (as bs : List A) :
    run step s (as ++ bs) = run step (run step s as) bs := by
  simp [run, List.foldl_append]

@[simp] lemma total_nil (s : S) : total step worth s [] = [] := rfl
@[simp] lemma total_cons (s : S) (a : A) (as : List A) :
    total step worth s (a :: as) = worth s a ++ total step worth (step s a) as := rfl

variable {step obs worth}

lemma Along.take {P : S → A → Prop} {s : S} {as : List A} (h : Along step P s as) (n : ℕ) :
    Along step P s (as.take n) := by
  induction as generalizing s n with
  | nil => simpa using h
  | cons a t ih =>
    cases n with
    | zero => trivial
    | succ n => exact ⟨h.1, ih h.2 n⟩

/-- Two conditions on the steps that agree wherever an invariant holds agree on runs. -/
lemma along_iff {I : S → Prop} {P Q : S → A → Prop} (hPQ : ∀ s a, I s → (P s a ↔ Q s a))
    (hI : ∀ s a, I s → P s a → I (step s a)) {s : S} (hs : I s) (as : List A) :
    Along step P s as ↔ Along step Q s as := by
  induction as generalizing s with
  | nil => rfl
  | cons a t ih =>
    constructor
    · rintro ⟨ha, ht⟩
      exact ⟨(hPQ s a hs).mp ha, (ih (hI s a hs ha)).mp ht⟩
    · rintro ⟨ha, ht⟩
      have ha' := (hPQ s a hs).mpr ha
      exact ⟨ha', (ih (hI s a hs ha')).mpr ht⟩

/-- If exactly the steps that satisfy `Q` lead from a good state to a good one, and every other step
breaks `P`, then `P` holds all along a run exactly when every step of it satisfies `Q`. -/
theorem always_iff {I P : S → Prop} {Q : S → A → Prop} (hP : ∀ s, I s → P s)
    (hI : ∀ s a, I s → Q s a → I (step s a)) (hQ : ∀ s a, I s → P (step s a) → Q s a) {s : S}
    (hs : I s) (as : List A) :
    (∀ n, P (run step s (as.take n))) ↔ Along step Q s as := by
  constructor
  · intro h
    induction as generalizing s with
    | nil => trivial
    | cons a t ih =>
      have ha : Q s a := hQ s a hs (by simpa using h 1)
      exact ⟨ha, ih (hI s a hs ha) fun n => by simpa using h (n + 1)⟩
  · intro h
    induction as generalizing s with
    | nil => simpa using hP s hs
    | cons a t ih =>
      intro n
      cases n with
      | zero => exact hP s hs
      | succ n => exact ih (hI s a hs h.1) h.2 n

theorem run_exact {s : S} {as : List A} (h : Steps step obs worth s as) :
    obs (run step s as) = (obs s).map (· ++ total step worth s as) := by
  induction as generalizing s with
  | nil => simp
  | cons a t ih =>
    obtain ⟨ha, ht⟩ := h
    rw [run_cons, ih ht, ha]
    simp [Option.map_map, Function.comp_def, List.append_assoc]

end NodeCore.Ledger
