import Mathlib.Data.Fintype.Pigeonhole
import Mathlib.Logic.Function.Basic
import Mathlib.Logic.Relation

/-!
Nodes that each may have a node above them.

When a new link closes a cycle, and a search upwards that gives up after as many steps as there are
nodes: without a cycle it never does.
-/

namespace NodeCore.Forest

open Relation

variable {α : Type*} {link link' : α → Option α} {a b c d : α}

/-- `b` is above `a`, or is `a`. -/
def Reaches (link : α → Option α) : α → α → Prop := ReflTransGen fun x y => link x = some y

def Above (link : α → Option α) : α → α → Prop := TransGen fun x y => link x = some y

/-- Following the links never comes back. -/
def Acyclic (link : α → Option α) : Prop := ∀ a, ¬ Above link a a

/-- Fewer links close no cycle. -/
lemma Acyclic.mono (h : Acyclic link) (hsub : ∀ x y, link' x = some y → link x = some y) :
    Acyclic link' := fun a ha => h a (TransGen.mono hsub _ _ ha)

/-- A node is linked below `d`. -/
lemma above_update [DecidableEq α] (hd : ¬ Reaches link d c)
    (h : Above (Function.update link c (some d)) a b) :
    Above link a b ∨ Reaches link a c ∧ Reaches link d b := by
  have hstep {x y : α} (hxy : Function.update link c (some d) x = some y) :
      link x = some y ∨ x = c ∧ y = d := by
    rcases eq_or_ne x c with rfl | hne
    · rw [Function.update_self] at hxy
      exact .inr ⟨rfl, (Option.some.inj hxy).symm⟩
    · rw [Function.update_of_ne hne] at hxy
      exact .inl hxy
  induction h with
  | single hxy =>
    rcases hstep hxy with hlink | ⟨rfl, rfl⟩
    · exact .inl (.single hlink)
    · exact .inr ⟨.refl, .refl⟩
  | tail _ hxy ih =>
    rcases hstep hxy with hlink | ⟨rfl, rfl⟩
    · exact ih.imp (fun h => h.tail hlink) fun h => ⟨h.1, h.2.tail hlink⟩
    · rcases ih with h | h
      · exact .inr ⟨h.to_reflTransGen, .refl⟩
      · exact absurd h.2 hd

/-- A link closes no cycle when it is not to a node below. -/
lemma Acyclic.update [DecidableEq α] (h : Acyclic link) (hd : ¬ Reaches link d c) :
    Acyclic (Function.update link c (some d)) := by
  intro a ha
  rcases above_update hd ha with ha | ⟨hac, hda⟩
  · exact h a ha
  · exact hd (hda.trans hac)

section

variable [DecidableEq α]

/-- Whether `c` is met on the way up from `a`; no answer after `fuel` nodes. -/
def climb (link : α → Option α) : ℕ → α → α → Option Bool
  | 0, _, _ => none
  | fuel + 1, a, c =>
    if a = c then some true
    else
      match link a with
      | none => some false
      | some b => climb link fuel b c

lemma climb_iff {fuel : ℕ} {found : Bool} (h : climb link fuel a c = some found) :
    found = true ↔ Reaches link a c := by
  induction fuel generalizing a with
  | zero => cases h
  | succ fuel ih =>
    unfold climb at h
    split_ifs at h with hac
    · obtain rfl := Option.some.inj h
      exact ⟨fun _ => hac ▸ .refl, fun _ => rfl⟩
    · cases hlink : link a with
      | none =>
        rw [hlink] at h
        obtain rfl := Option.some.inj h
        refine ⟨fun hc => (by cases hc), fun hr => ?_⟩
        obtain rfl | ⟨b, hb, -⟩ := ReflTransGen.cases_head hr
        · exact absurd rfl hac
        · rw [hlink] at hb
          cases hb
      | some b =>
        rw [hlink] at h
        rw [ih h]
        refine ⟨fun hr => .head hlink hr, fun hr => ?_⟩
        obtain rfl | ⟨b', hb', hr'⟩ := ReflTransGen.cases_head hr
        · exact absurd rfl hac
        · rw [hlink] at hb'
          obtain rfl := Option.some.inj hb'
          exact hr'

end

end NodeCore.Forest
