import Mathlib.Tactic

/-!
Walks along a list of names where what has been walked may be a link to other names: these then
come in its place, and the walk starts again.

A walk is counted by the links it follows, for it does not end if there is a loop of them.
-/

namespace NodeCore.LinkWalk

variable {C K E : Type*}

/-- What is at the end of a walked list. -/
inductive Kind (C E : Type*)
  | hard
  | link (target : List C)
  | error (e : E)

variable (key : List C → K) (kind : K → Kind C E)

/-- From what has been walked and what has not, with `n` links, to a list without links or an
error. -/
inductive Resolves : ℕ → List C → List C → Except E (List C) → Prop
  | done (d : List C) : Resolves 0 d [] (.ok d)
  | hard {n d c t r} (h : kind (key (d ++ [c])) = .hard) (rest : Resolves n (d ++ [c]) t r) :
      Resolves n d (c :: t) r
  | link {n d c t l r} (h : kind (key (d ++ [c])) = .link l) (rest : Resolves n [] (l ++ t) r) :
      Resolves (n + 1) d (c :: t) r
  | error {d c t e} (h : kind (key (d ++ [c])) = .error e) : Resolves 0 d (c :: t) (.error e)

/-- There is no link on the way to the end of the list. -/
def Hard (d : List C) : Prop := ∀ e, e <+: d → e ≠ [] → kind (key e) = .hard

variable {key kind}

lemma hard_nil : Hard key kind [] := fun _ he hne => absurd (List.prefix_nil.mp he) hne

lemma Hard.of_prefix {d e : List C} (h : Hard key kind d) (he : e <+: d) : Hard key kind e :=
  fun f hf => h f (hf.trans he)

lemma hard_concat {d : List C} {c : C} :
    Hard key kind (d ++ [c]) ↔ Hard key kind d ∧ kind (key (d ++ [c])) = .hard := by
  constructor
  · intro h
    exact ⟨h.of_prefix (List.prefix_append _ _), h _ List.prefix_rfl (by simp)⟩
  · rintro ⟨hd, hc⟩ e he hne
    rcases List.prefix_concat_iff.mp he with rfl | he
    · exact hc
    · exact hd e he hne

namespace Resolves

variable {n m : ℕ} {d t b x : List C} {r r' : Except E (List C)}

/-- What is behind a list does not matter until the list has been walked. -/
lemma append (h : Resolves key kind n d t (.ok x)) (hb : Resolves key kind m x b r) :
    Resolves key kind (n + m) d (t ++ b) r := by
  generalize hr : Except.ok x = r₀ at h
  induction h with
  | done d =>
    cases hr
    rwa [Nat.zero_add]
  | hard hk _ ih => exact .hard hk (ih hr)
  | link hk _ ih =>
    rw [Nat.add_right_comm]
    have hrest := ih hr
    rw [List.append_assoc] at hrest
    exact .link hk hrest
  | error => cases hr

lemma of_append (h : Resolves key kind n d t (.ok x)) (hb : Resolves key kind m d (t ++ b) r) :
    ∃ k, m = n + k ∧ Resolves key kind k x b r := by
  generalize hr : Except.ok x = r₀ at h
  induction h generalizing m with
  | done d =>
    cases hr
    exact ⟨m, (Nat.zero_add m).symm, hb⟩
  | hard hk _ ih =>
    cases hb with
    | hard _ rest => exact ih rest hr
    | link hl _ => cases hk.symm.trans hl
    | error he => cases hk.symm.trans he
  | @link n d c t l r hk _ ih =>
    rw [List.cons_append] at hb
    cases hb with
    | hard hh _ => cases hk.symm.trans hh
    | link hl rest =>
      cases hk.symm.trans hl
      rw [← List.append_assoc] at rest
      obtain ⟨k, rfl, hrest⟩ := ih rest hr
      exact ⟨k, Nat.add_right_comm _ _ _, hrest⟩
    | error he => cases hk.symm.trans he
  | error => cases hr

/-- A walk ends where there is no link. -/
lemma hard_of_ok (h : Resolves key kind n d t (.ok x)) (hd : Hard key kind d) :
    Hard key kind x := by
  generalize hr : Except.ok x = r₀ at h
  induction h with
  | done d =>
    cases hr
    exact hd
  | hard hk _ ih => exact ih (hard_concat.mpr ⟨hd, hk⟩) hr
  | link _ _ ih => exact ih hard_nil hr
  | error => cases hr

end Resolves

variable {n : ℕ} {d t x : List C} {r : Except E (List C)}

lemma resolves_hard (h : Hard key kind (d ++ t)) : Resolves key kind 0 d t (.ok (d ++ t)) := by
  induction t generalizing d with
  | nil =>
    rw [List.append_nil]
    exact .done d
  | cons c t ih =>
    rw [List.append_cons] at h ⊢
    exact .hard (h _ (List.prefix_append _ _) (by simp)) (ih h)

/-- A list without links is walked as it is. -/
lemma Hard.resolves_iff (h : Hard key kind x) :
    Resolves key kind n [] (x ++ t) r ↔ Resolves key kind n x t r := by
  have hx : Resolves key kind 0 [] x (.ok x) := resolves_hard h
  constructor
  · intro hr
    obtain ⟨k, hk, hrest⟩ := hx.of_append hr
    rw [hk, Nat.zero_add]
    exact hrest
  · intro hr
    rw [← Nat.zero_add n]
    exact hx.append hr

end NodeCore.LinkWalk
