import NodeCore.Domain

/-!
What the calls of a domain leave on the stack.
-/

namespace NodeCore.Domain

variable {n : ℕ} {d : Fin n} {s t u : State n}

/-! ### The claim -/

/-- The stack and the active domain are as before. -/
structure Same (s t : State n) : Prop where
  stack : t.stack = s.stack
  active : t.active = s.active

/-- **What is claimed** of a call that has returned. -/
def Step.Keeps : Step n → Prop
  | .exit d s t | .dispose d s _ t => d ∉ s.stack → Same s t
  | .call _ _ s _ t => Same s t
  | _ => True

/-- The callback leaves what was on the stack, and over it the entry of its call, which is the last
of its domain; or the stack was empty and the domain is not on it. A domain that is not entered, or
not left again as it has been disposed of, has no entry. -/
def Leaves (d : Fin n) (enters : Bool) (s u : State n) : Prop :=
  if enters ∧ u._disposed d = false then
    (∃ above, u.stack = above ++ d :: s.stack ∧ d ∉ above) ∨ s.stack = [] ∧ d ∉ u.stack
  else u.stack = s.stack

/-- When it is so. -/
def Step.Fair : Step n → Prop
  | .exit d s _ => d ∉ s.stack → s._disposed d = true ∨ s.stack = []
  | .dispose d s u _ => d ∉ s.stack → s._disposed d = true ∨ u.stack = s.stack
  | .call d enters s u _ => s._disposed d = true ∨ Leaves d enters s u
  | _ => True

/-! ### The stack -/

lemma popUntil_of_not_mem {l : List (Fin n)} (h : d ∉ l) : popUntil d l = [] := by
  induction l with
  | nil => rfl
  | cons e l ih =>
    obtain ⟨hne, hl⟩ : d ≠ e ∧ d ∉ l := by simpa using h
    rw [popUntil, if_neg (Ne.symm hne)]
    exact ih hl

lemma popUntil_append {l m : List (Fin n)} (h : d ∉ l) : popUntil d (l ++ d :: m) = m := by
  induction l with
  | nil => exact if_pos rfl
  | cons e l ih =>
    obtain ⟨hne, hl⟩ : d ≠ e ∧ d ∉ l := by simpa using h
    rw [List.cons_append, popUntil, if_neg (Ne.symm hne)]
    exact ih hl

/-- What the pops leave is what was below the last entry of the domain. -/
lemma popUntil_eq_iff {l m : List (Fin n)} :
    popUntil d l = m ↔ (∃ above, l = above ++ d :: m ∧ d ∉ above) ∨ m = [] ∧ d ∉ l := by
  constructor
  · rintro rfl
    by_cases hd : d ∈ l
    · obtain ⟨above, below, rfl, hnot⟩ := List.eq_append_cons_of_mem hd
      exact .inl ⟨above, by rw [popUntil_append hnot], hnot⟩
    · exact .inr ⟨popUntil_of_not_mem hd, hd⟩
  · rintro (⟨above, rfl, hd⟩ | ⟨rfl, hd⟩)
    · exact popUntil_append hd
    · exact popUntil_of_not_mem hd

/-- The active domain is the one on top. -/
def State.Topped (s : State n) : Prop := s.active = s.stack.head?

namespace State

lemma Topped.same_iff (hs : s.Topped) (ht : t.Topped) : Same s t ↔ t.stack = s.stack :=
  ⟨fun h => h.stack, fun h => ⟨h, by rw [ht, hs, h]⟩⟩

lemma Topped.of_eq (hs : s.Topped) (hstack : t.stack = s.stack) (hactive : t.active = s.active) :
    t.Topped := by
  rw [Topped, hstack, hactive]
  exact hs

lemma Topped.enter (hs : s.Topped) (d : Fin n) : (s.enter d).Topped := by
  unfold State.enter
  split_ifs
  · exact hs
  · rfl

lemma Topped.exit (hs : s.Topped) (d : Fin n) : (s.exit d).Topped := by
  unfold State.exit
  split_ifs
  · exact hs
  · rfl

lemma detach_stack (s : State n) (ee : Obj n) :
    (s.detach ee).stack = s.stack ∧ (s.detach ee).active = s.active := by
  unfold detach
  split
  · exact ⟨rfl, rfl⟩
  · exact ⟨rfl, rfl⟩

lemma finish_stack (s : State n) (d : Fin n) :
    (s.finish d).stack = s.stack ∧ (s.finish d).active = s.active := s.detach_stack (.domain d)

lemma add_stack {ee : Obj n} {refused : Bool} (h : s.add d ee = some (refused, t)) :
    t.stack = s.stack ∧ t.active = s.active := by
  unfold add at h
  split_ifs at h
  · obtain ⟨-, rfl⟩ := Prod.mk.inj (Option.some.inj h)
    exact ⟨rfl, rfl⟩
  · obtain ⟨-, rfl⟩ := Prod.mk.inj (Option.some.inj h)
    exact ⟨rfl, rfl⟩
  · obtain ⟨r, -, heq⟩ := Option.map_eq_some_iff.mp h
    obtain ⟨-, rfl⟩ := Prod.mk.inj heq
    split_ifs
    · exact s.detach_stack ee
    · exact s.detach_stack ee

lemma exit_live (hd : s._disposed d = false) : (s.exit d).stack = popUntil d s.stack := by
  rw [exit, if_neg (by simp [hd])]

lemma exit_dead (hd : s._disposed d = true) : s.exit d = s := if_pos hd

end State

/-! ### The calls -/

lemma exit_keeps_iff (hs : s.Topped) (d : Fin n) :
    (Step.exit d s (s.exit d)).Keeps ↔ (Step.exit d s (s.exit d)).Fair := by
  refine forall_congr' fun hnot => ?_
  cases hd : s._disposed d with
  | true =>
    rw [State.exit_dead hd]
    exact ⟨fun _ => .inl rfl, fun _ => ⟨rfl, rfl⟩⟩
  | false =>
    rw [hs.same_iff (hs.exit d), State.exit_live hd, popUntil_of_not_mem hnot]
    simp [eq_comm]

lemma dispose_keeps_iff (hs : s.Topped) (hu : u.Topped) (hd : s._disposed d = false) :
    (Step.dispose d s u (u.finish d)).Keeps ↔ (Step.dispose d s u (u.finish d)).Fair := by
  obtain ⟨hstack, hactive⟩ := u.finish_stack d
  refine forall_congr' fun hnot => ?_
  rw [hs.same_iff (hu.of_eq hstack hactive), hstack, hd]
  simp

/-- What `exit` finds after the callback. -/
lemma exit_leaves (d : Fin n) (u : State n) (m : List (Fin n)) : (u.exit d).stack = m ↔
    if u._disposed d = false then
      (∃ above, u.stack = above ++ d :: m ∧ d ∉ above) ∨ m = [] ∧ d ∉ u.stack
    else u.stack = m := by
  cases hd : u._disposed d with
  | true =>
    rw [State.exit_dead hd]
    simp
  | false => rw [State.exit_live hd, popUntil_eq_iff, if_pos rfl]

lemma call_keeps_iff (enters : Bool) (hs : s.Topped) (hu : u.Topped)
    (hd : s._disposed d = false) :
    (Step.call d enters s u (if enters then u.exit d else u)).Keeps ↔
      (Step.call d enters s u (if enters then u.exit d else u)).Fair := by
  have hfair : (Step.call d enters s u (if enters then u.exit d else u)).Fair ↔
      Leaves d enters s u := by
    unfold Step.Fair
    simp [hd]
  rw [hfair]
  cases enters with
  | true =>
    refine (hs.same_iff (hu.exit d)).trans ((exit_leaves d u s.stack).trans ?_)
    unfold Leaves
    simp
  | false =>
    refine (hs.same_iff hu).trans ?_
    unfold Leaves
    simp

lemma keeps_kept : Kept (fun _ : Step n => True) (fun step => step.Keeps ↔ step.Fair)
    State.Topped where
  enter d _ hs := ⟨Iff.rfl, hs.enter d⟩
  exit d _ hs := ⟨exit_keeps_iff hs d, hs.exit d⟩
  add _ _ _ _ _ hs ha _ := ⟨Iff.rfl, hs.of_eq (State.add_stack ha).1 (State.add_stack ha).2⟩
  remove _ _ _ hs := ⟨Iff.rfl, hs.of_eq rfl rfl⟩
  disposed _ _ _ hd := ⟨fun _ _ => .inl hd, fun _ _ => ⟨rfl, rfl⟩⟩
  dispose d _ u hs hd hu :=
    ⟨dispose_keeps_iff hs hu hd, hu.of_eq (u.finish_stack d).1 (u.finish_stack d).2⟩
  idle _ _ _ _ hd := ⟨fun _ => .inl hd, fun _ => ⟨rfl, rfl⟩⟩
  call _ enters _ _ hs hd hu := call_keeps_iff enters hs hu hd

/-- **The stack is kept** in a run if and only if all its calls are fair. -/
theorem keeps_iff_fair (link : Obj n → Option (Fin n)) (p : Program n) :
    (∀ step ∈ (exec p (.start link)).steps, step.Keeps) ↔
      ∀ step ∈ (exec p (.start link)).steps, step.Fair := by
  have hall := (keeps_kept.exec p (.start link) rfl fun _ _ => trivial).1
  exact forall₂_congr hall

/-- One domain is entered and another is left. -/
def leaveOther : Program 2 := .enter 0 (.exit 1 .done)

theorem not_keeps_leaveOther :
    ¬ ∀ step ∈ (exec leaveOther (.start fun _ => none)).steps, step.Keeps := by
  intro h
  have hkeeps := h (.exit 1 _ _) (List.mem_cons_of_mem _ List.mem_cons_self)
  exact absurd (hkeeps (by decide)).stack (by decide)

end NodeCore.Domain
