import Mathlib.Tactic

/-!
Regular expressions with groups, over any alphabet.

A pattern gives the ways in which it matches at the start of a text, in the order in which a
backtracking matcher tries them. What a group has captured is read off the first of the ways in
which all that follows matches too.
-/

namespace NodeCore.Backtrack

variable {α : Type*}

/-- What each way takes and what it leaves. -/
def Pattern (α : Type*) := List α → List (List α × List α)

def nothing : Pattern α := fun s => [([], s)]

def one (p : α → Bool) : Pattern α
  | [] => []
  | c :: s => if p c then [([c], s)] else []

/-- `m|m'` -/
def either (m m' : Pattern α) : Pattern α := fun s => m s ++ m' s

def andThen (m m' : Pattern α) : Pattern α := fun s =>
  (m s).flatMap fun w => (m' w.2).map fun w' => (w.1 ++ w'.1, w'.2)

/-- `m?` -/
def opt (m : Pattern α) : Pattern α := either m nothing

/-- `p*`: as many as there are comes first. -/
def many (p : α → Bool) : Pattern α
  | [] => [([], [])]
  | c :: s => (if p c then (many p s).map fun w => (c :: w.1, w.2) else []) ++ [([], c :: s)]

/-- `p*?`: none comes first. -/
def manyLazy (p : α → Bool) : Pattern α
  | [] => [([], [])]
  | c :: s => ([], c :: s) :: if p c then (manyLazy p s).map fun w => (c :: w.1, w.2) else []

/-- `p+` -/
def plus (p : α → Bool) : Pattern α := andThen (one p) (many p)

/-- `$` -/
def atEnd : Pattern α
  | [] => [([], [])]
  | _ :: _ => []

/-- What is matched in front. -/
def first (m : Pattern α) (s : List α) : Option (List α) := (m s).head?.map Prod.fst

/-- What is matched at the first place where there is a match. -/
def search (m : Pattern α) : List α → Option (List α)
  | [] => first m []
  | c :: s =>
    match first m (c :: s) with
    | some w => some w
    | none => search m s

/-! ### What a pattern takes -/

/-- Each way takes a part of the text, of characters in `P`, and leaves the rest. -/
def Takes (m : Pattern α) (P : α → Prop) : Prop :=
  ∀ s, ∀ w ∈ m s, w.1 ++ w.2 = s ∧ ∀ c ∈ w.1, P c

section Takes

variable {P : α → Prop} {p : α → Bool} {m m' : Pattern α}

lemma takes_nothing : Takes nothing P := by
  intro s w hw
  rw [List.mem_singleton.mp hw]
  exact ⟨rfl, fun c hc => absurd hc List.not_mem_nil⟩

lemma takes_one (h : ∀ c, p c = true → P c) : Takes (one p) P := by
  intro s w hw
  cases s with
  | nil => exact absurd hw List.not_mem_nil
  | cons c s =>
    rw [one] at hw
    split_ifs at hw with hc
    · rw [List.mem_singleton.mp hw]
      refine ⟨rfl, fun d hd => ?_⟩
      rw [List.mem_singleton.mp hd]
      exact h c hc
    · exact absurd hw List.not_mem_nil

lemma Takes.either (h : Takes m P) (h' : Takes m' P) : Takes (either m m') P := by
  intro s w hw
  exact (List.mem_append.mp hw).elim (h s w) (h' s w)

lemma Takes.opt (h : Takes m P) : Takes (opt m) P := h.either takes_nothing

lemma Takes.andThen (h : Takes m P) (h' : Takes m' P) : Takes (andThen m m') P := by
  intro s w hw
  obtain ⟨u, hu, hmap⟩ := List.mem_flatMap.mp hw
  obtain ⟨v, hv, rfl⟩ := List.mem_map.mp hmap
  obtain ⟨hus, hup⟩ := h s u hu
  obtain ⟨hvs, hvp⟩ := h' u.2 v hv
  refine ⟨?_, fun c hc => (List.mem_append.mp hc).elim (hup c) (hvp c)⟩
  rw [List.append_assoc, hvs, hus]

lemma takes_many (h : ∀ c, p c = true → P c) : Takes (many p) P := by
  intro s
  induction s with
  | nil => exact takes_nothing []
  | cons c s ih =>
    intro w hw
    rw [many] at hw
    rcases List.mem_append.mp hw with hw | hw
    · split_ifs at hw with hc
      · obtain ⟨v, hv, rfl⟩ := List.mem_map.mp hw
        obtain ⟨hvs, hvp⟩ := ih v hv
        exact ⟨congrArg (c :: ·) hvs, List.forall_mem_cons.mpr ⟨h c hc, hvp⟩⟩
      · exact absurd hw List.not_mem_nil
    · exact takes_nothing (c :: s) w hw

lemma takes_manyLazy (h : ∀ c, p c = true → P c) : Takes (manyLazy p) P := by
  intro s
  induction s with
  | nil => exact takes_nothing []
  | cons c s ih =>
    intro w hw
    rw [manyLazy] at hw
    rcases List.mem_cons.mp hw with rfl | hw
    · exact takes_nothing (c :: s) _ (List.mem_singleton.mpr rfl)
    · split_ifs at hw with hc
      · obtain ⟨v, hv, rfl⟩ := List.mem_map.mp hw
        obtain ⟨hvs, hvp⟩ := ih v hv
        exact ⟨congrArg (c :: ·) hvs, List.forall_mem_cons.mpr ⟨h c hc, hvp⟩⟩
      · exact absurd hw List.not_mem_nil

lemma takes_plus (h : ∀ c, p c = true → P c) : Takes (plus p) P :=
  (takes_one h).andThen (takes_many h)

lemma takes_atEnd : Takes atEnd P := by
  intro s w hw
  cases s with
  | nil => exact takes_nothing [] w hw
  | cons c s => exact absurd hw List.not_mem_nil

variable {s w : List α}

lemma length_first (h : Takes m P) (hw : first m s = some w) : w.length ≤ s.length := by
  obtain ⟨u, hu, rfl⟩ := Option.map_eq_some_iff.mp hw
  obtain ⟨hus, -⟩ := h s u (List.mem_of_mem_head? hu)
  rw [← hus, List.length_append]
  exact Nat.le_add_right _ _

lemma length_search (h : Takes m P) (hw : search m s = some w) : w.length ≤ s.length := by
  induction s with
  | nil => exact length_first h hw
  | cons c s ih =>
    rw [search] at hw
    cases hfirst : first m (c :: s) with
    | some u =>
      rw [hfirst] at hw
      rw [← Option.some.inj hw]
      exact length_first h hfirst
    | none =>
      rw [hfirst] at hw
      exact (ih hw).trans (Nat.le_succ _)

end Takes

/-! ### Ways there are -/

section Ways

variable {p : α → Bool}

lemma mem_many (u r : List α) (h : ∀ c ∈ u, p c = true) : (u, r) ∈ many p (u ++ r) := by
  induction u with
  | nil => cases r <;> simp [many]
  | cons c u ih =>
    obtain ⟨hc, hu⟩ := List.forall_mem_cons.mp h
    rw [List.cons_append, many, if_pos hc]
    exact List.mem_append_left _ (List.mem_map.mpr ⟨(u, r), ih hu, rfl⟩)

lemma mem_manyLazy (u r : List α) (h : ∀ c ∈ u, p c = true) : (u, r) ∈ manyLazy p (u ++ r) := by
  induction u with
  | nil => cases r <;> simp [manyLazy]
  | cons c u ih =>
    obtain ⟨hc, hu⟩ := List.forall_mem_cons.mp h
    rw [List.cons_append, manyLazy, if_pos hc]
    exact List.mem_cons_of_mem _ (List.mem_map.mpr ⟨(u, r), ih hu, rfl⟩)

lemma mem_andThen {m m' : Pattern α} {s : List α} {u v : List α × List α} (hu : u ∈ m s)
    (hv : v ∈ m' u.2) : (u.1 ++ v.1, v.2) ∈ andThen m m' s :=
  List.mem_flatMap.mpr ⟨u, hu, List.mem_map.mpr ⟨v, hv, rfl⟩⟩

lemma mem_plus {c : α} (s : List α) (h : p c = true) : ([c], s) ∈ plus p (c :: s) := by
  have hone : ([c], s) ∈ one p (c :: s) := by
    rw [one, if_pos h]
    exact List.mem_singleton.mpr rfl
  exact mem_andThen hone (mem_many [] s fun d hd => absurd hd List.not_mem_nil)

lemma first_of_mem {m : Pattern α} {s : List α} {v : List α × List α} (h : v ∈ m s) :
    ∃ w, first m s = some w := by
  obtain ⟨u, ways, hm⟩ := List.exists_cons_of_ne_nil (List.ne_nil_of_mem h)
  exact ⟨u.1, by rw [first, hm]; rfl⟩

/-- What matches nothing at the end matches somewhere. -/
lemma search_of_nil {m : Pattern α} {v : List α × List α} (h : v ∈ m []) (s : List α) :
    ∃ w, search m s = some w := by
  induction s with
  | nil => exact first_of_mem h
  | cons c s ih =>
    rw [search]
    cases hfirst : first m (c :: s) with
    | some w => exact ⟨w, rfl⟩
    | none => exact ih

/-- **A lazy star stops as soon as the rest matches**: `f` fails wherever it could have stopped
before. -/
lemma manyLazy_first {β : Type*} {s : List α} {f : List α × List α → Option β} {b : β}
    (h : (manyLazy p s).findSome? f = some b) :
    ∃ u r, u ++ r = s ∧ f (u, r) = some b ∧
      ∀ u' v, u = u' ++ v → v ≠ [] → f (u', v ++ r) = none := by
  induction s generalizing f with
  | nil =>
    refine ⟨[], [], rfl, by simpa [manyLazy] using h, fun u' v hsplit hv => ?_⟩
    exact absurd (List.append_eq_nil_iff.mp hsplit.symm).2 hv
  | cons c s ih =>
    rw [manyLazy, List.findSome?_cons] at h
    cases hstop : f ([], c :: s) with
    | some b' =>
      rw [hstop] at h
      refine ⟨[], c :: s, rfl, by rw [hstop]; exact h, fun u' v hsplit hv => ?_⟩
      exact absurd (List.append_eq_nil_iff.mp hsplit.symm).2 hv
    | none =>
      rw [hstop] at h
      split_ifs at h with hc
      · rw [List.findSome?_map] at h
        obtain ⟨u, r, rfl, hb, hbefore⟩ := ih h
        refine ⟨c :: u, r, rfl, hb, fun u' v hsplit hv => ?_⟩
        cases u' with
        | nil =>
          rw [List.nil_append] at hsplit
          rw [← hsplit]
          exact hstop
        | cons c' u' =>
          obtain ⟨rfl, hu⟩ := List.cons.inj hsplit
          exact hbefore u' v hu hv
      · exact absurd h (by simp)

end Ways

end NodeCore.Backtrack
