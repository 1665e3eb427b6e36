import NodeCore.Domain

/-!
What has been added to what: no circle of domains, and what an `add` leaves that is refused.
-/

namespace NodeCore.Domain

open NodeCore.Forest

variable {n : ℕ} {d e : Fin n} {ee : Obj n} {refused : Bool} {s t : State n}

/-! ### The claim -/

/-- The state after a call. -/
def Step.after : Step n → State n
  | .enter _ _ t | .exit _ _ t | .add _ _ _ _ t | .remove _ _ _ t | .dispose _ _ _ t
  | .call _ _ _ _ t => t

/-- **What is claimed** of a call that has returned. -/
structure Step.Sound (step : Step n) : Prop where
  acyclic : Acyclic step.after.parent
  refused : ∀ d ee s t, step = .add d ee true s t → t.link = s.link ∧ t.members = s.members

/-- No domain that is not disposed of is added to itself, and what is refused has no domain. -/
def Step.Clean : Step n → Prop
  | .add d ee refused s _ =>
    (s._disposed d = false → ee ≠ .domain d) ∧ (refused = true → s.link ee = none)
  | _ => True

/-! ### The links -/

namespace State

@[simp] lemma enter_parent (s : State n) (d : Fin n) : (s.enter d).parent = s.parent := by
  unfold enter
  split_ifs <;> rfl

@[simp] lemma exit_parent (s : State n) (d : Fin n) : (s.exit d).parent = s.parent := by
  unfold exit
  split_ifs <;> rfl

lemma remove_link_le (s : State n) (d : Fin n) (ee : Obj n) (x : Obj n) (y : Fin n)
    (h : (s.remove d ee).link x = some y) : s.link x = some y := by
  have hx : x ≠ ee := by
    rintro rfl
    rw [show (s.remove d x).link x = none from Function.update_self ..] at h
    cases h
  exact (Function.update_of_ne hx _ _).symm.trans h

lemma detach_link_le (s : State n) (ee : Obj n) (x : Obj n) (y : Fin n)
    (h : (s.detach ee).link x = some y) : s.link x = some y := by
  unfold detach at h
  split at h
  · exact s.remove_link_le _ ee x y h
  · exact h

/-- Taken from its domain, it has none. -/
lemma detach_link_self (s : State n) (ee : Obj n) : (s.detach ee).link ee = none := by
  unfold detach
  split
  · exact Function.update_self ..
  · assumption

lemma detach_of_none (h : s.link ee = none) : s.detach ee = s := by
  unfold detach
  rw [h]

lemma detach_acyclic (h : Acyclic s.parent) (ee : Obj n) : Acyclic (s.detach ee).parent :=
  h.mono fun _ _ hxy => s.detach_link_le ee _ _ hxy

lemma join_parent_of_domain (s : State n) (d e : Fin n) :
    (s.join d (.domain e)).parent = Function.update s.parent e (some d) := by
  funext x
  rcases eq_or_ne x e with rfl | hne
  · rw [Function.update_self]
    exact Function.update_self ..
  · rw [Function.update_of_ne hne]
    exact Function.update_of_ne (fun h => hne (Obj.domain.inj h)) _ _

/-- The loop has met the domain, or there is no way up to it. -/
lemma circular_iff (hne : d ≠ e) (h : s.circular d (.domain e) = some refused) :
    refused = true ↔ Reaches s.parent d e := by
  unfold circular at h
  cases hp : s.parent d with
  | none =>
    rw [hp] at h
    obtain rfl := Option.some.inj h
    refine ⟨fun hc => (by cases hc), fun hr => ?_⟩
    obtain rfl | ⟨p, hp', -⟩ := Relation.ReflTransGen.cases_head hr
    · exact absurd rfl hne
    · cases hp.symm.trans hp'
  | some p =>
    rw [hp] at h
    rw [climb_iff h]
    refine ⟨fun hr => .head hp hr, fun hr => ?_⟩
    obtain rfl | ⟨p', hp', hr'⟩ := Relation.ReflTransGen.cases_head hr
    · exact absurd rfl hne
    · obtain rfl := Option.some.inj (hp.symm.trans hp')
      exact hr'

/-- A domain that is not added to itself closes no circle. -/
lemma join_acyclic (h : Acyclic s.parent) (hself : ee ≠ .domain d)
    (hc : s.circular d ee = some false) : Acyclic (s.join d ee).parent := by
  cases ee with
  | domain e =>
    have hne : d ≠ e := fun hde => hself (congrArg Obj.domain hde.symm)
    rw [join_parent_of_domain]
    refine h.update fun hr => ?_
    cases (circular_iff hne hc).mpr hr
  | emitter k => exact h.mono fun _ _ hxy => hxy
  | timer k => exact h.mono fun _ _ hxy => hxy

/-- What `add` can do. -/
inductive Added (s : State n) (d : Fin n) (ee : Obj n) : Bool → State n → Prop
  | disposed (disposed : s._disposed d = true) : Added s d ee false s
  | already (live : s._disposed d = false) (link : s.link ee = some d) : Added s d ee false s
  | refused (live : s._disposed d = false) (other : s.link ee ≠ some d)
    (circular : (s.detach ee).circular d ee = some true) : Added s d ee true (s.detach ee)
  | joined (live : s._disposed d = false) (other : s.link ee ≠ some d)
    (circular : (s.detach ee).circular d ee = some false) :
    Added s d ee false ((s.detach ee).join d ee)

lemma added (h : s.add d ee = some (refused, t)) : Added s d ee refused t := by
  unfold add at h
  split_ifs at h with hd hlink
  · obtain ⟨rfl, rfl⟩ := Prod.mk.inj (Option.some.inj h)
    exact .disposed hd
  · obtain ⟨rfl, rfl⟩ := Prod.mk.inj (Option.some.inj h)
    exact .already (by simpa using hd) hlink
  · obtain ⟨r, hr, heq⟩ := Option.map_eq_some_iff.mp h
    obtain ⟨rfl, rfl⟩ := Prod.mk.inj heq
    cases r with
    | true => exact .refused (by simpa using hd) hlink hr
    | false => exact .joined (by simpa using hd) hlink hr

/-- A domain that has been added to itself is in a circle. -/
lemma not_acyclic_of_self (h : s.link (.domain d) = some d) : ¬ Acyclic s.parent :=
  fun ha => ha d (.single h)

end State

open State

/-! ### The calls -/

lemma sound_of_acyclic {step : Step n} (h : Acyclic step.after.parent)
    (hadd : ∀ d ee s t, step ≠ .add d ee true s t) : step.Sound :=
  ⟨h, fun d ee s t hstep => absurd hstep (hadd d ee s t)⟩

lemma add_sound (hs : Acyclic s.parent) (ha : s.add d ee = some (refused, t))
    (hc : (Step.add d ee refused s t).Clean) :
    (Step.add d ee refused s t).Sound ∧ Acyclic t.parent := by
  obtain ⟨hself, hnone⟩ := hc
  have hand (h : Acyclic t.parent) (hr : refused = true → t.link = s.link ∧ t.members = s.members) :
      (Step.add d ee refused s t).Sound ∧ Acyclic t.parent := by
    refine ⟨⟨h, fun d' ee' s' t' hstep => ?_⟩, h⟩
    injection hstep with _ _ hrefused hs' ht'
    rw [← hs', ← ht']
    exact hr hrefused
  cases added ha with
  | disposed => exact hand hs fun hc => by cases hc
  | already => exact hand hs fun hc => by cases hc
  | refused live other circular =>
    have hdetach := detach_of_none (hnone rfl)
    exact hand (by rwa [hdetach]) fun _ => by rw [hdetach]; exact ⟨rfl, rfl⟩
  | joined live other circular =>
    exact hand (join_acyclic (detach_acyclic hs ee) (hself live) circular) fun hc => by cases hc

lemma add_clean (ha : s.add d ee = some (refused, t)) (h : (Step.add d ee refused s t).Sound) :
    (Step.add d ee refused s t).Clean := by
  have hacyclic : Acyclic t.parent := h.acyclic
  refine ⟨fun live hself => ?_, fun hr => ?_⟩
  · subst hself
    cases added ha with
    | disposed disposed =>
      rw [live] at disposed
      cases disposed
    | already _ link => exact not_acyclic_of_self link hacyclic
    | refused _ _ circular =>
      have hparent : (s.detach (.domain d)).parent d = none := s.detach_link_self (.domain d)
      unfold State.circular at circular
      rw [hparent] at circular
      cases circular
    | joined => exact not_acyclic_of_self (Function.update_self ..) hacyclic
  · subst hr
    have hlink : t.link ee = s.link ee := congrFun (h.refused d ee s t rfl).1 ee
    cases added ha with
    | refused => rw [← hlink, s.detach_link_self ee]

lemma sound_kept : Kept (Step.Clean (n := n)) Step.Sound fun s => Acyclic s.parent where
  enter d s hs := by
    have h : Acyclic (s.enter d).parent := by rwa [enter_parent]
    exact ⟨sound_of_acyclic h (by simp), h⟩
  exit d s hs := by
    have h : Acyclic (s.exit d).parent := by rwa [exit_parent]
    exact ⟨sound_of_acyclic h (by simp), h⟩
  add _ _ _ _ _ hs ha hc := add_sound hs ha hc
  remove d ee s hs := by
    have h : Acyclic (s.remove d ee).parent := hs.mono fun _ _ hxy => s.remove_link_le d ee _ _ hxy
    exact ⟨sound_of_acyclic h (by simp), h⟩
  disposed _ _ hs _ := sound_of_acyclic hs (by simp)
  dispose d s u _ _ hu := by
    have h : Acyclic (u.finish d).parent := detach_acyclic hu (.domain d)
    exact ⟨sound_of_acyclic h (by simp), h⟩
  idle _ _ _ hs _ := sound_of_acyclic hs (by simp)
  call d enters _ u _ _ hu := by
    refine sound_of_acyclic ?_ (by simp)
    show Acyclic (if enters then u.exit d else u).parent
    split_ifs
    · rwa [exit_parent]
    · exact hu

lemma clean_kept : Kept (Step.Sound (n := n)) Step.Clean fun _ => True where
  enter _ _ _ := ⟨trivial, trivial⟩
  exit _ _ _ := ⟨trivial, trivial⟩
  add _ _ _ _ _ _ ha h := ⟨add_clean ha h, trivial⟩
  remove _ _ _ _ := ⟨trivial, trivial⟩
  disposed _ _ _ _ := trivial
  dispose _ _ _ _ _ _ := ⟨trivial, trivial⟩
  idle _ _ _ _ _ := trivial
  call _ _ _ _ _ _ _ := trivial

lemma start_acyclic (link : Obj n → Option (Fin n)) : Acyclic (State.start link).parent := by
  intro a ha
  obtain ⟨b, hb, -⟩ := Relation.TransGen.head'_iff.mp ha
  cases hb

/-- **Membership is sound** in a run if and only if all its calls of `add` are clean. -/
theorem sound_iff_clean (link : Obj n → Option (Fin n)) (p : Program n) :
    (∀ step ∈ (exec p (.start link)).steps, step.Sound) ↔
      ∀ step ∈ (exec p (.start link)).steps, step.Clean :=
  ⟨fun h => (clean_kept.exec p _ trivial h).1,
    fun h => (sound_kept.exec p _ (start_acyclic link) h).1⟩

/-- A domain is added to itself. -/
def addSelf : Program 1 := .add 0 (.domain 0) .done

theorem not_sound_addSelf :
    ¬ ∀ step ∈ (exec addSelf (.start fun _ => none)).steps, step.Sound := by
  intro h
  exact (not_acyclic_of_self (d := 0) rfl) (h _ List.mem_cons_self).acyclic

end NodeCore.Domain
