import Mathlib.Data.List.TakeDrop
import Mathlib.Data.Nat.Notation
import Mathlib.Tactic.SplitIfs

/-!
A file that is open: it is read and written at a position, or without one where the last read or
write has ended.
-/

namespace NodeCore

variable {α : Type*}

structure OpenFile (α : Type*) where
  bytes : List α
  /-- Where the next read or write without a position is. -/
  offset : ℕ
  /-- It is written at its end only. -/
  append : Bool

namespace OpenFile

/-- `b` over `l` from `p` on. What lies between is filled with `hole`. -/
def overlay (hole : α) (l : List α) (p : ℕ) (b : List α) : List α :=
  l.take p ++ List.replicate (p - l.length) hole ++ b ++ l.drop (p + b.length)

lemma overlay_prefix (hole : α) (l m b : List α) :
    overlay hole (l ++ m) l.length b = l ++ b ++ m.drop b.length := by
  have hzero : l.length - (l ++ m).length = 0 := by
    rw [List.length_append]
    omega
  rw [overlay, hzero, List.replicate_zero, List.take_left, List.append_nil, ← List.drop_drop,
    List.drop_left]

/-- `n` bytes at most. -/
def read (f : OpenFile α) (position : Option ℕ) (n : ℕ) : List α × OpenFile α :=
  match position with
  | some p => ((f.bytes.drop p).take n, f)
  | none =>
    let b := (f.bytes.drop f.offset).take n
    (b, { f with offset := f.offset + b.length })

def write (hole : α) (f : OpenFile α) (position : Option ℕ) (b : List α) : OpenFile α :=
  if f.append then
    { f with bytes := f.bytes ++ b, offset := (f.bytes ++ b).length }
  else
    match position with
    | some p => { f with bytes := overlay hole f.bytes p b }
    | none =>
      { f with bytes := overlay hole f.bytes f.offset b, offset := f.offset + b.length }

variable (hole : α) {f : OpenFile α}

@[simp] lemma write_append (position : Option ℕ) (b : List α) :
    (f.write hole position b).append = f.append := by
  unfold write
  split_ifs
  · rfl
  · cases position <;> rfl

lemma write_of_append (h : f.append = true) (position : Option ℕ) (b : List α) :
    (f.write hole position b).bytes = f.bytes ++ b := by
  unfold write
  rw [if_pos h]

/-- Behind what has been written before, over what was there. -/
lemma write_prefix (h : f.append = false) {l m : List α} (hf : f.bytes = l ++ m) (b : List α) :
    (f.write hole (some l.length) b).bytes = l ++ b ++ m.drop b.length := by
  unfold write
  rw [if_neg (by simp [h])]
  show overlay hole f.bytes l.length b = _
  rw [hf, overlay_prefix]

end OpenFile

end NodeCore
