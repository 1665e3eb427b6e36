import Mathlib.Tactic

/-!
A memory that is written in blocks and read in blocks.

A read of the very block that was written gives what was written; a read of a block that does
not touch it gives what was there before.
-/

namespace NodeCore.Memory

variable {α : Type*}

/-- `b` from the address `base` on. -/
def store (m : ℕ → α) (base : ℕ) (b : List α) : ℕ → α :=
  fun i => if i < base then m i else (b[i - base]?).getD (m i)

/-- The `n` cells from `base` on. -/
def load (m : ℕ → α) (base n : ℕ) : List α := (List.range n).map fun i => m (base + i)

variable {m : ℕ → α} {base : ℕ} {b : List α}

@[simp] lemma load_length (m : ℕ → α) (base n : ℕ) : (load m base n).length = n := by
  simp [load]

lemma store_inside {i : ℕ} (h : i < b.length) : store m base b (base + i) = b[i] := by
  simp [store, h]

lemma store_outside {i : ℕ} (h : i < base ∨ base + b.length ≤ i) : store m base b i = m i := by
  unfold store
  rcases h with h | h
  · rw [if_pos h]
  · rw [if_neg (by omega), List.getElem?_eq_none (by omega)]
    rfl

@[simp] lemma store_nil (m : ℕ → α) (base : ℕ) : store m base [] = m :=
  funext fun i => store_outside (by simpa using Nat.lt_or_ge i base)

/-- What was written is read. -/
lemma load_store (m : ℕ → α) (base : ℕ) (b : List α) : load (store m base b) base b.length = b := by
  refine List.ext_getElem (by simp) fun i h₁ h₂ => ?_
  simp only [load, List.getElem_map, List.getElem_range]
  exact store_inside h₂

/-- What was not written is as before. -/
lemma load_store_apart {pos n : ℕ} (h : pos + n ≤ base ∨ base + b.length ≤ pos) :
    load (store m base b) pos n = load m pos n := by
  refine List.map_congr_left fun i hi => store_outside ?_
  have hi := List.mem_range.mp hi
  omega

/-- One block behind another. -/
lemma load_add (m : ℕ → α) (base n k : ℕ) :
    load m base (n + k) = load m base n ++ load m (base + n) k := by
  simp [load, List.range_add, Function.comp_def, Nat.add_assoc]

/-- A block cell by cell, from the first on. -/
lemma store_cons (m : ℕ → α) (base : ℕ) (x : α) (xs : List α) :
    store m base (x :: xs) = store (store m base [x]) (base + 1) xs := by
  funext i
  rcases Nat.lt_trichotomy i base with h | rfl | h
  · rw [store_outside (.inl h), store_outside (.inl (by omega)), store_outside (.inl h)]
  · rw [store_outside (m := store m i [x]) (.inl (Nat.lt_succ_self i))]
    simp [store]
  · obtain ⟨j, rfl⟩ := Nat.exists_eq_add_of_lt h
    simp [store, show ¬ base + j + 1 < base by omega, show base + j + 1 - base = j + 1 by omega]

/-- One block behind another. -/
lemma store_append (m : ℕ → α) (base : ℕ) (b c : List α) :
    store m base (b ++ c) = store (store m base b) (base + b.length) c := by
  induction b generalizing m base with
  | nil => rw [List.nil_append, store_nil, List.length_nil, Nat.add_zero]
  | cons x b ih =>
    rw [List.cons_append, store_cons, ih, ← store_cons, List.length_cons, Nat.add_right_comm]
    rfl

/-! ### Buffers, each with a memory of its own -/

/-- A part of a buffer. -/
structure Slice where
  buffer : ℕ
  start : ℕ
  length : ℕ

namespace Slice

variable {c d e : Slice}

def Apart (c d : Slice) : Prop :=
  c.buffer ≠ d.buffer ∨ c.start + c.length ≤ d.start ∨ d.start + d.length ≤ c.start

/-- `c` is a part of `d`. -/
def Within (c d : Slice) : Prop :=
  c.buffer = d.buffer ∧ d.start ≤ c.start ∧ c.start + c.length ≤ d.start + d.length

lemma Apart.symm (h : c.Apart d) : d.Apart c :=
  h.elim (fun h => .inl h.symm) fun h => .inr h.symm

lemma Apart.within (h : d.Apart e) (hc : c.Within d) : c.Apart e := by
  obtain ⟨hbuffer, hstart, hstop⟩ := hc
  unfold Apart at h ⊢
  rw [hbuffer]
  omega

/-- The bytes of a slice. -/
def content (c : Slice) (m : ℕ → ℕ → α) : List α := load (m c.buffer) c.start c.length

end Slice

/-- `b` is written into a buffer from `start` on. -/
def write (m : ℕ → ℕ → α) (buffer start : ℕ) (b : List α) : ℕ → ℕ → α :=
  Function.update m buffer (store (m buffer) start b)

/-- The slice that was written has what was written. -/
lemma content_write (m : ℕ → ℕ → α) (buffer start : ℕ) (b : List α) :
    Slice.content ⟨buffer, start, b.length⟩ (write m buffer start b) = b := by
  unfold Slice.content write
  rw [Function.update_self]
  exact load_store ..

/-- The others are as before. -/
lemma content_write_apart {m : ℕ → ℕ → α} {buffer start : ℕ} {b : List α} {c : Slice}
    (h : Slice.Apart ⟨buffer, start, b.length⟩ c) :
    c.content (write m buffer start b) = c.content m := by
  unfold Slice.content write
  by_cases hbuffer : c.buffer = buffer
  · subst hbuffer
    rw [Function.update_self]
    refine load_store_apart ?_
    unfold Slice.Apart at h
    dsimp only at h
    omega
  · rw [Function.update_of_ne hbuffer]

/-- A cell that was not written is as before. -/
lemma write_outside {m : ℕ → ℕ → α} {buffer start : ℕ} {b : List α} {d i : ℕ}
    (h : ¬ (d = buffer ∧ start ≤ i ∧ i < start + b.length)) :
    write m buffer start b d i = m d i := by
  unfold write
  by_cases hd : d = buffer
  · subst hd
    rw [Function.update_self]
    exact store_outside (by omega)
  · rw [Function.update_of_ne hd]

end NodeCore.Memory
