import NodeCore.Memory

/-!
The `SlabBuffer` that the streams of all secure pairs share.

Reads take their bytes from the front of one Buffer after the other. A cell of a Buffer says which
read it was written for.
-/

namespace NodeCore

open NodeCore.Memory

/-- A byte with the read it was written for; `none` is what a fresh Buffer has in it. -/
abbrev Cell := Option (ℕ × UInt8)

/-- `mem` has the Buffers that are or were the pool, by their numbers; `length` is
`SLAB_BUFFER_SIZE`. -/
structure SlabBuffer where
  length : ℕ
  mem : ℕ → ℕ → Cell
  isFull : Bool
  pool : ℕ
  offset : ℕ
  remaining : ℕ
  whole : offset + remaining = length

namespace SlabBuffer

/-- `new SlabBuffer()`. -/
def new (length : ℕ) : SlabBuffer := ⟨length, fun _ _ => none, false, 0, 0, length, Nat.zero_add _⟩

/-- `create`, once there is a pool. -/
def create (s : SlabBuffer) : SlabBuffer :=
  { s with isFull := false, pool := s.pool + 1, offset := 0, remaining := s.length,
           whole := Nat.zero_add _ }

/-- The bytes that `use` has `fn` write: `out` is what `fn` has, and it is asked for no more than
`size`. -/
def given (s : SlabBuffer) (size : ℕ) (out : List UInt8) : List UInt8 :=
  if s.remaining = 0 then [] else out.take (min size s.remaining)

lemma given_length_le (s : SlabBuffer) (size : ℕ) (out : List UInt8) :
    (s.given size out).length ≤ s.remaining := by
  unfold given
  split_ifs
  · exact Nat.zero_le _
  · rw [List.length_take]
    omega

/-- The cells that a read has written. -/
def cells (id : ℕ) (b : List UInt8) : List Cell := b.map fun x => some (id, x)

@[simp] lemma cells_length (id : ℕ) (b : List UInt8) : (cells id b).length = b.length :=
  List.length_map _

@[simp] lemma cells_append (id : ℕ) (a b : List UInt8) :
    cells id (a ++ b) = cells id a ++ cells id b := List.map_append

/-- `use` for a read. -/
def use (s : SlabBuffer) (id size : ℕ) (out : List UInt8) : SlabBuffer :=
  if s.remaining = 0 then { s with isFull := true }
  else
    { s with
      mem := Function.update s.mem s.pool
        (store (s.mem s.pool) s.offset (cells id (s.given size out)))
      offset := s.offset + (s.given size out).length
      remaining := s.remaining - (s.given size out).length
      whole := by
        have := s.given_length_le size out
        have := s.whole
        omega }

/-- `pool.slice(start, stop)`. -/
def slice (s : SlabBuffer) (pool start stop : ℕ) : List Cell :=
  load (s.mem pool) (min start s.length) (min stop s.length - min start s.length)

/-! ### What is written stays -/

/-- The bytes of a read, behind the offset of the slab. -/
structure Region where
  pool : ℕ
  start : ℕ
  id : ℕ
  wrote : List UInt8

structure Kept (s : SlabBuffer) (r : Region) : Prop where
  behind : r.pool < s.pool ∨ r.pool = s.pool ∧ r.start + r.wrote.length ≤ s.offset
  inside : r.start + r.wrote.length ≤ s.length
  holds : load (s.mem r.pool) r.start r.wrote.length = cells r.id r.wrote

variable {s : SlabBuffer} {r : Region} {id size : ℕ} {out : List UInt8}

@[simp] lemma use_length : (s.use id size out).length = s.length := by
  unfold use
  split_ifs <;> rfl

@[simp] lemma use_pool : (s.use id size out).pool = s.pool := by
  unfold use
  split_ifs <;> rfl

lemma use_offset : (s.use id size out).offset = s.offset + (s.given size out).length := by
  unfold use
  split_ifs with h
  · simp [given, h]
  · rfl

lemma use_mem : (s.use id size out).mem = Function.update s.mem s.pool
    (store (s.mem s.pool) s.offset (cells id (s.given size out))) := by
  unfold use
  split_ifs with h
  · have hgiven : s.given size out = [] := if_pos h
    rw [hgiven, cells, List.map_nil, store_nil, Function.update_eq_self]
  · rfl

lemma Kept.use (h : s.Kept r) : (s.use id size out).Kept r := by
  have hwhole := s.whole
  refine ⟨?_, by rw [use_length]; exact h.inside, ?_⟩
  · rw [use_pool, use_offset]
    rcases h.behind with hlt | ⟨heq, hle⟩
    · exact .inl hlt
    · exact .inr ⟨heq, by omega⟩
  · rw [use_mem, ← h.holds]
    rcases h.behind with hlt | ⟨heq, hle⟩
    · rw [Function.update_of_ne (Nat.ne_of_lt hlt)]
    · rw [heq, Function.update_self, load_store_apart (.inl hle)]

lemma Kept.create (h : s.Kept r) : s.create.Kept r := by
  refine ⟨.inl ?_, h.inside, h.holds⟩
  rcases h.behind with hlt | ⟨heq, -⟩
  · exact Nat.lt_succ_of_lt hlt
  · exact Nat.lt_succ_of_le heq.le

/-- Nothing yet, at the offset. -/
lemma kept_nil (s : SlabBuffer) (id : ℕ) : s.Kept ⟨s.pool, s.offset, id, []⟩ :=
  ⟨.inr ⟨rfl, le_rfl⟩, by have := s.whole; simp only [List.length_nil]; omega, rfl⟩

/-- A read that finds the slab where it has left it adds to its bytes. -/
lemma Kept.more (h : s.Kept r) (hpool : s.pool = r.pool)
    (hoffset : s.offset = r.start + r.wrote.length) :
    (s.use r.id size out).Kept ⟨r.pool, r.start, r.id, r.wrote ++ s.given size out⟩ := by
  have hwhole := s.whole
  have hgiven := s.given_length_le size out
  have hold := h.holds
  refine ⟨.inr ⟨by rw [use_pool, hpool], ?_⟩, ?_, ?_⟩ <;> dsimp only
  · rw [use_offset, List.length_append]
    omega
  · rw [use_length, List.length_append]
    omega
  · rw [use_mem, hpool, Function.update_self, List.length_append, load_add, cells_append,
      load_store_apart (.inl hoffset.ge), hold, ← hoffset, ← cells_length r.id (s.given size out),
      load_store]

lemma Kept.slice_eq (h : s.Kept r) :
    s.slice r.pool r.start (r.start + r.wrote.length) = cells r.id r.wrote := by
  have hinside := h.inside
  rw [slice, Nat.min_eq_left (by omega), Nat.min_eq_left hinside, Nat.add_sub_cancel_left, h.holds]

end SlabBuffer

end NodeCore
