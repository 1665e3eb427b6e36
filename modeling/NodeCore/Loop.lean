import Mathlib.Tactic

/-!
Loops that may run for ever.

A loop is given by what one round of it does. `Exits` holds of a start and of what the loop
leaves; a loop that stops at a failed assertion or runs for ever leaves nothing.
-/

namespace NodeCore.Loop

variable {σ ρ : Type}

/-- What a round of a loop does. -/
inductive Round (σ ρ : Type)
  | next (s : σ)
  | exit (r : ρ)
  /-- An assertion fails. -/
  | abort

variable (body : σ → Round σ ρ)

/-- The loop ends, and leaves `r`. -/
inductive Exits : σ → ρ → Prop
  | exit {s : σ} {r : ρ} (h : body s = .exit r) : Exits s r
  | next {s s' : σ} {r : ρ} (h : body s = .next s') (rest : Exits s' r) : Exits s r

/-- The loop with a bound on its rounds. -/
def run : ℕ → σ → Option ρ
  | 0, _ => none
  | fuel + 1, s =>
    match body s with
    | .next s' => run fuel s'
    | .exit r => some r
    | .abort => none

variable {body}

lemma exits_iff_run (s : σ) (r : ρ) : Exits body s r ↔ ∃ fuel, run body fuel s = some r := by
  constructor
  · intro h
    induction h with
    | exit h => exact ⟨1, by simp [run, h]⟩
    | next h _ ih =>
      obtain ⟨fuel, ih⟩ := ih
      exact ⟨fuel + 1, by simpa [run, h] using ih⟩
  · rintro ⟨fuel, h⟩
    induction fuel generalizing s with
    | zero => cases h
    | succ fuel ih =>
      rcases hb : body s with s' | r' | _ <;> simp only [run, hb] at h
      · exact .next hb (ih s' h)
      · obtain rfl : r' = r := by simpa using h
        exact .exit hb
      · cases h

/-- A loop leaves one thing at most. -/
theorem Exits.unique {s : σ} {r r' : ρ} (h : Exits body s r) (h' : Exits body s r') : r = r' := by
  induction h with
  | exit h =>
    rcases h' with h' | ⟨h', -⟩
    · rw [h] at h'
      cases h'
      rfl
    · rw [h] at h'
      cases h'
  | next h _ ih =>
    rcases h' with h' | ⟨h', hrest⟩
    · rw [h] at h'
      cases h'
    · rw [h] at h'
      cases h'
      exact ih hrest

lemma exits_iff_next {s s' : σ} {r : ρ} (h : body s = .next s') :
    Exits body s r ↔ Exits body s' r := by
  refine ⟨fun hexits => ?_, .next h⟩
  rcases hexits with hexit | ⟨hnext, hrest⟩
  · rw [h] at hexit
    cases hexit
  · rw [h] at hnext
    cases hnext
    exact hrest

lemma exits_iff_exit {s : σ} {r r' : ρ} (h : body s = .exit r) : Exits body s r' ↔ r' = r := by
  refine ⟨fun hexits => hexits.unique (.exit h), ?_⟩
  rintro rfl
  exact .exit h

/-- What every round keeps holds at the end. -/
theorem Exits.invariant {inv : σ → Prop} {post : ρ → Prop}
    (hnext : ∀ s s', inv s → body s = .next s' → inv s')
    (hexit : ∀ s r, inv s → body s = .exit r → post r) {s : σ} {r : ρ} (h : Exits body s r)
    (hs : inv s) : post r := by
  induction h with
  | exit h => exact hexit _ _ hs h
  | next h _ ih => exact ih (hnext _ _ hs h)

/-- Some rounds of a loop. -/
def Rounds (body : σ → Round σ ρ) : σ → σ → Prop :=
  Relation.ReflTransGen fun s s' => body s = .next s'

/-- An invariant and a variant: the loop ends, and what it leaves is as it should be. -/
theorem exits_of_variant (inv : σ → Prop) (variant : σ → ℕ) (post : ρ → Prop)
    (hround : ∀ s, inv s →
      (∃ s', body s = .next s' ∧ inv s' ∧ variant s' < variant s) ∨
      ∃ r, body s = .exit r ∧ post r) {s : σ} (hs : inv s) : ∃ r, Exits body s r ∧ post r := by
  induction hn : variant s using Nat.strong_induction_on generalizing s with
  | _ n ih =>
    rcases hround s hs with ⟨s', hb, hs', hlt⟩ | ⟨r, hb, hr⟩
    · obtain ⟨r, hexits, hr⟩ := ih _ (hn ▸ hlt) hs' rfl
      exact ⟨r, .next hb hexits, hr⟩
    · exact ⟨r, .exit hb, hr⟩

/-- A loop that always has another round runs for ever. -/
theorem not_exits_of_next (inv : σ → Prop) (hround : ∀ s, inv s → ∃ s', body s = .next s' ∧ inv s')
    {s : σ} (hs : inv s) (r : ρ) : ¬ Exits body s r := by
  intro h
  induction h with
  | exit h =>
    obtain ⟨s', hb, -⟩ := hround _ hs
    rw [hb] at h
    cases h
  | next h _ ih =>
    obtain ⟨s', hb, hs'⟩ := hround _ hs
    rw [hb] at h
    cases h
    exact ih hs'

end NodeCore.Loop
