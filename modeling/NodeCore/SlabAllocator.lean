import NodeCore.Memory

/-!
`SlabAllocator`, which hands out the space that streams read into.

An object asks for space before a read and gives back what the read has not filled. Unsigned
numbers have 32 bits, a failed assertion is `none`, and so is a Buffer that cannot be made.
-/

namespace NodeCore.SlabAllocator

open Memory

/-- An address in the data of a Buffer. -/
structure Ptr where
  buffer : ℕ
  offset : ℕ
  deriving DecidableEq

def kMaxLength : ℕ := 0x3fffffff

/-- `ROUND_UP` on unsigned numbers. -/
def roundUp (a b : ℕ) : ℕ := if a % b ≠ 0 then (a + b - a % b) % 2 ^ 32 else a

variable {Obj : Type} [DecidableEq Obj]

/-- The fields of the allocator; `hidden` has the value under `slab_sym_` of each object, and
`lengths` the lengths of the Buffers that were made. -/
structure State (Obj : Type) where
  size : ℕ
  slab : Option ℕ
  offset : ℕ
  lastPtr : Option Ptr
  hidden : Obj → Option ℕ
  lengths : ℕ → ℕ
  next : ℕ

/-- `SlabAllocator(size)`, initialized. -/
def new (size : ℕ) : State Obj :=
  ⟨roundUp (if size ≠ 0 then size else 1) 8192, none, 0, none, fun _ => none, fun _ => 0, 0⟩

/-- A new Buffer, by its number. -/
def newSlab (s : State Obj) (size : ℕ) : Option (ℕ × State Obj) :=
  if roundUp size 16 ≤ kMaxLength then
    some (s.next, { s with
      lengths := Function.update s.lengths s.next (roundUp size 16), next := s.next + 1 })
  else none

/-- `Buffer::Data`, which is `NULL` when there are none. -/
def data (s : State Obj) (buffer : ℕ) : Option Ptr :=
  if s.lengths buffer = 0 then none else some ⟨buffer, 0⟩

/-- The slab is replaced by a new one. -/
def replaceSlab (s : State Obj) : Option (ℕ × State Obj) := do
  let (slab, s) ← newSlab s s.size
  return (slab, { s with slab := some slab, offset := 0, lastPtr := none })

/-- `slab_`, after `if (slab_.IsEmpty() || offset_ + size > size_)`. -/
def roomySlab (s : State Obj) (size : ℕ) : Option (ℕ × State Obj) :=
  match s.slab with
  | none => replaceSlab s
  | some slab => if s.size < (s.offset + size) % 2 ^ 32 then replaceSlab s else some (slab, s)

def allocate (s : State Obj) (obj : Obj) (size : ℕ) : Option (Option Ptr × State Obj) :=
  if size = 0 then some (none, s)
  else if s.size < size then do
    let (buf, s) ← newSlab s size
    return (data s buf, { s with hidden := Function.update s.hidden obj (some buf) })
  else do
    let (slab, s) ← roomySlab s size
    let last := (data s slab).map fun p => { p with offset := p.offset + s.offset }
    return (last, { s with
      hidden := Function.update s.hidden obj (some slab)
      lastPtr := last
      offset := (s.offset + size) % 2 ^ 32 })

def shrink (s : State Obj) (obj : Obj) (ptr : Option Ptr) (size : ℕ) :
    Option (ℕ × State Obj) :=
  match s.hidden obj, ptr with
  | some slab, some p =>
    let s := { s with hidden := Function.update s.hidden obj none }
    if s.lastPtr = some p then
      some (slab, { s with lastPtr := none, offset := (p.offset + roundUp size 16) % 2 ^ 32 })
    else some (slab, s)
  | _, _ => none

/-! ### The reads of a stream -/

/-- `StreamWrap::OnAlloc` -/
def onAlloc (s : State Obj) (object : Obj) (suggested_size : ℕ) :
    Option (Option Ptr × State Obj) :=
  allocate s object (suggested_size % 2 ^ 32)

/-- `StreamWrap::OnReadCommon`, as far as the slab goes: what the callback is told of it, and where
what was read begins. -/
def onReadCommon (s : State Obj) (object : Obj) (nread : ℤ) (base : Option Ptr) :
    Option (Option (ℕ × ℕ × ℕ) × State Obj) :=
  if nread < 0 then
    match base with
    | none => some (none, s)
    | some p => (shrink s object (some p) 0).map fun (_, s) => (none, s)
  else
    match base with
    | none => none
    | some p => (shrink s object (some p) nread.toNat).map fun (slab, s) =>
      (if nread = 0 then none else some (slab, p.offset, nread.toNat), s)

/-! ### Runs -/

/-- The allocator, and all the regions that somebody has: an object that has not shrunk its own
yet, or whoever was given what was read. -/
structure World (Obj : Type) where
  state : State Obj
  regions : List (Option Obj × Slice)

/-- What `Allocate` gives a region for: `NULL` is none. -/
def region (size : ℕ) (p : Option Ptr) : Option Slice := p.map fun p => ⟨p.buffer, p.offset, size⟩

/-- An object with nothing outstanding allocates, or one with a region shrinks it. -/
inductive Step : World Obj → World Obj → Prop
  | allocate {w : World Obj} {obj : Obj} {size : ℕ} {p : Option Ptr} {s : State Obj}
      (hsize : size < 2 ^ 32) (hnone : ∀ c, (some obj, c) ∉ w.regions)
      (h : allocate w.state obj size = some (p, s)) :
      Step w ⟨s, ((region size p).map fun c => (some obj, c)).toList ++ w.regions⟩
  | shrink {w : World Obj} {obj : Obj} {c : Slice} {size slab : ℕ} {s : State Obj}
      (hc : (some obj, c) ∈ w.regions) (hsize : size ≤ c.length)
      (h : shrink w.state obj (some ⟨c.buffer, c.start⟩) size = some (slab, s)) :
      Step w ⟨s, (none, { c with length := size }) ::
        w.regions.filter fun r => decide (r.1 ≠ some obj)⟩

/-- The worlds that a new allocator comes to. -/
inductive Reachable (size : ℕ) : World Obj → Prop
  | new : Reachable size ⟨new size, []⟩
  | step {w w' : World Obj} (h : Reachable size w) (hstep : Step w w') : Reachable size w'

/-! ### What holds of a run -/

/-- A number that is rounded up grows by less than 16, unless it is rounded to nothing. -/
lemma le_roundUp {a : ℕ} (ha : a < 2 ^ 32) (h : roundUp a 16 ≠ 0) :
    a ≤ roundUp a 16 ∧ roundUp a 16 < a + 16 := by
  unfold roundUp at h ⊢
  split_ifs at h ⊢ <;> omega

/-- Regions do not meet; each lies in its Buffer, and in front of the offset if that is the slab.
The region at the last pointer is behind all others in the slab, and still somebody's. -/
structure Sound (s : State Obj) (regions : List (Option Obj × Slice)) : Prop where
  apart : regions.Pairwise fun a b => a.2.Apart b.2
  inside : ∀ r ∈ regions, r.2.start + r.2.length ≤ s.lengths r.2.buffer
  old : ∀ r ∈ regions, r.2.buffer < s.next
  nonempty : ∀ obj c, (some obj, c) ∈ regions → 0 < c.length
  owner : ∀ obj c d, (some obj, c) ∈ regions → (some obj, d) ∈ regions → c = d
  hidden : ∀ obj c, (some obj, c) ∈ regions → s.hidden obj = some c.buffer
  size : s.size % 16 = 0
  slab : ∀ b, s.slab = some b → b < s.next ∧ s.lengths b = s.size ∧ s.size ≤ kMaxLength ∧
    s.offset < s.size + 16 ∧ ∀ r ∈ regions, r.2.buffer = b → r.2.start + r.2.length ≤ s.offset
  last : ∀ p, s.lastPtr = some p → s.slab = some p.buffer ∧ ∃ obj c, (some obj, c) ∈ regions ∧
    c.buffer = p.buffer ∧ c.start = p.offset ∧
    ∀ r ∈ regions, r ≠ (some obj, c) → r.2.buffer = p.buffer → r.2.start + r.2.length ≤ p.offset

variable {s s' : State Obj} {regions : List (Option Obj × Slice)} {obj : Obj} {size : ℕ}

omit [DecidableEq Obj] in
lemma Sound.new (size : ℕ) : Sound (new size : State Obj) [] := by
  refine ⟨.nil, fun _ hr => absurd hr List.not_mem_nil, fun _ hr => absurd hr List.not_mem_nil,
    fun _ _ hr => absurd hr List.not_mem_nil, fun _ _ _ hr => absurd hr List.not_mem_nil,
    fun _ _ hr => absurd hr List.not_mem_nil, ?_, (fun _ hb => by cases hb),
    (fun _ hp => by cases hp)⟩
  unfold SlabAllocator.new roundUp
  dsimp only
  split_ifs <;> omega

omit [DecidableEq Obj] in
lemma newSlab_cases {b : ℕ} (h : newSlab s size = some (b, s')) :
    b = s.next ∧ roundUp size 16 ≤ kMaxLength ∧ s' = { s with
      lengths := Function.update s.lengths s.next (roundUp size 16), next := s.next + 1 } := by
  unfold newSlab at h
  split_ifs at h with hsize
  obtain ⟨rfl, rfl⟩ := Prod.mk.inj (Option.some.inj h)
  exact ⟨rfl, hsize, rfl⟩

omit [DecidableEq Obj] in
/-- A new Buffer has no region in it. -/
lemma Sound.newSlab {b : ℕ} (hs : Sound s regions) (h : newSlab s size = some (b, s')) :
    Sound s' regions ∧ b < s'.next ∧ s'.lengths b = roundUp size 16 ∧ s'.slab = s.slab ∧
      s'.size = s.size ∧ (∀ r ∈ regions, r.2.buffer ≠ b) ∧ (∀ b', s.slab = some b' → b' ≠ b) := by
  obtain ⟨rfl, -, rfl⟩ := newSlab_cases h
  have hne : ∀ r ∈ regions, r.2.buffer ≠ s.next := fun r hr => (hs.old r hr).ne
  refine ⟨⟨hs.apart, fun r hr => ?_, fun r hr => Nat.lt_succ_of_lt (hs.old r hr), hs.nonempty,
    hs.owner, hs.hidden, hs.size, fun b hb => ?_, hs.last⟩, Nat.lt_succ_self _,
    Function.update_self .., rfl, rfl, hne, fun b hb => (hs.slab b hb).1.ne⟩
  · dsimp only
    rw [Function.update_of_ne (hne r hr)]
    exact hs.inside r hr
  · obtain ⟨hlt, hlength, hrest⟩ := hs.slab b hb
    refine ⟨Nat.lt_succ_of_lt hlt, ?_, hrest⟩
    dsimp only
    rw [Function.update_of_ne hlt.ne, hlength]

omit [DecidableEq Obj] in
lemma Sound.replaceSlab {b : ℕ} (hs : Sound s regions) (h : replaceSlab s = some (b, s')) :
    Sound s' regions ∧ s'.slab = some b ∧ s'.hidden = s.hidden ∧ s'.offset = 0 ∧
      s'.size = s.size ∧ s'.size ≤ kMaxLength := by
  obtain ⟨⟨slab, s₁⟩, hslab, hmade⟩ := Option.bind_eq_some_iff.mp h
  obtain ⟨rfl, rfl⟩ := Prod.mk.inj (Option.some.inj hmade)
  obtain ⟨hs₁, hlt, hlength, -, hsame, hne, -⟩ := hs.newSlab hslab
  obtain ⟨-, hmax, hs₁'⟩ := newSlab_cases hslab
  have hround : roundUp s.size 16 = s.size := if_neg (not_not.mpr hs.size)
  rw [hround] at hlength hmax
  have hhidden : s₁.hidden = s.hidden := by rw [hs₁']
  refine ⟨⟨hs₁.apart, hs₁.inside, hs₁.old, hs₁.nonempty, hs₁.owner, hs₁.hidden, hs₁.size, ?_,
    (fun _ hp => by cases hp)⟩, rfl, hhidden, rfl, hsame, hsame.le.trans hmax⟩
  intro b' hb'
  obtain rfl := Option.some.inj hb'
  exact ⟨hlt, hlength.trans hsame.symm, hsame.le.trans hmax, Nat.add_pos_right _ (by omega),
    fun r hr hb => absurd hb (hne r hr)⟩

omit [DecidableEq Obj] in
/-- The slab with room in it. -/
lemma Sound.roomySlab {b : ℕ} (hs : Sound s regions) (hsize : size ≤ s.size)
    (h : roomySlab s size = some (b, s')) :
    Sound s' regions ∧ s'.slab = some b ∧ s'.hidden = s.hidden ∧ s'.offset + size ≤ s'.size ∧
      s'.size ≤ kMaxLength := by
  have hnew (h : SlabAllocator.replaceSlab s = some (b, s')) : Sound s' regions ∧
      s'.slab = some b ∧ s'.hidden = s.hidden ∧ s'.offset + size ≤ s'.size ∧
        s'.size ≤ kMaxLength := by
    obtain ⟨hs', hslab, hhidden, hoffset, hsame, hmax⟩ := hs.replaceSlab h
    exact ⟨hs', hslab, hhidden, by omega, hmax⟩
  unfold SlabAllocator.roomySlab at h
  split at h
  · exact hnew h
  next slab hslab =>
    split_ifs at h with hfull
    · exact hnew h
    · obtain ⟨rfl, rfl⟩ := Prod.mk.inj (Option.some.inj h)
      obtain ⟨-, -, hmax, hoffset, -⟩ := hs.slab slab hslab
      have hwrap : (s.offset + size) % 2 ^ 32 = s.offset + size := by
        unfold kMaxLength at hmax
        omega
      rw [hwrap] at hfull
      exact ⟨hs, hslab, rfl, by omega, hmax⟩

omit [DecidableEq Obj] in
lemma owner_cons {c : Slice} (hs : Sound s regions) (hnone : ∀ c, (some obj, c) ∉ regions)
    {obj' : Obj} {d e : Slice} (hd : (some obj', d) ∈ (some obj, c) :: regions)
    (he : (some obj', e) ∈ (some obj, c) :: regions) : d = e := by
  obtain hd | hd := List.mem_cons.mp hd <;> obtain he | he := List.mem_cons.mp he
  · exact (Prod.mk.inj hd).2.trans (Prod.mk.inj he).2.symm
  · exact absurd ((Prod.mk.inj hd).1 ▸ he) (hnone e)
  · exact absurd ((Prod.mk.inj he).1 ▸ hd) (hnone d)
  · exact hs.owner obj' d e hd he

omit [DecidableEq Obj] in
/-- Nothing is known of an object without a region. -/
lemma hidden_update [DecidableEq Obj] (hs : Sound s regions) (hnone : ∀ c, (some obj, c) ∉ regions)
    (v : Option ℕ) {obj' : Obj} {c : Slice} (hc : (some obj', c) ∈ regions) :
    Function.update s.hidden obj v obj' = some c.buffer := by
  have hne : obj' ≠ obj := by
    rintro rfl
    exact hnone c hc
  rw [Function.update_of_ne hne]
  exact hs.hidden obj' c hc

lemma hidden_cons {c : Slice} (hs : Sound s regions)
    (hnone : ∀ c, (some obj, c) ∉ regions) {obj' : Obj} {d : Slice}
    (hd : (some obj', d) ∈ (some obj, c) :: regions) :
    Function.update s.hidden obj (some c.buffer) obj' = some d.buffer := by
  obtain hd | hd := List.mem_cons.mp hd
  · obtain ⟨hobj, rfl⟩ := Prod.mk.inj hd
    obtain rfl := Option.some.inj hobj
    exact Function.update_self ..
  · exact hidden_update hs hnone _ hd

omit [DecidableEq Obj] in
lemma nonempty_cons {c : Slice} (hs : Sound s regions) (hpos : 0 < c.length) {obj' : Obj}
    {d : Slice} (hd : (some obj', d) ∈ (some obj, c) :: regions) : 0 < d.length := by
  obtain hd | hd := List.mem_cons.mp hd
  · obtain ⟨-, rfl⟩ := Prod.mk.inj hd
    exact hpos
  · exact hs.nonempty obj' d hd

/-- **An allocation** gives a region that meets no other. -/
theorem Sound.allocate {p : Option Ptr} (hs : Sound s regions) (hsize : size < 2 ^ 32)
    (hnone : ∀ c, (some obj, c) ∉ regions) (h : allocate s obj size = some (p, s')) :
    Sound s' (((region size p).map fun c => (some obj, c)).toList ++ regions) := by
  unfold SlabAllocator.allocate at h
  split_ifs at h with hzero hlarge
  · obtain ⟨rfl, rfl⟩ := Prod.mk.inj (Option.some.inj h)
    exact hs
  · -- a Buffer of its own, if its length does not wrap around
    obtain ⟨⟨b, s₁⟩, hslab, hmade⟩ := Option.bind_eq_some_iff.mp h
    obtain ⟨rfl, rfl⟩ := Prod.mk.inj (Option.some.inj hmade)
    obtain ⟨hs₁, hlt, hlength, hsame, -, hne, hother⟩ := hs.newSlab hslab
    by_cases hnull : s₁.lengths b = 0
    · rw [data, if_pos hnull]
      exact ⟨hs₁.apart, hs₁.inside, hs₁.old, hs₁.nonempty, hs₁.owner,
        fun _ _ hc => hidden_update hs₁ hnone _ hc, hs₁.size, hs₁.slab, hs₁.last⟩
    · rw [data, if_neg hnull]
      have hround := le_roundUp hsize (hlength ▸ hnull)
      refine ⟨List.pairwise_cons.mpr ⟨fun r hr => .inl (hne r hr).symm, hs₁.apart⟩,
        List.forall_mem_cons.mpr ⟨?_, hs₁.inside⟩, List.forall_mem_cons.mpr ⟨hlt, hs₁.old⟩,
        fun _ _ => nonempty_cons hs₁ (Nat.pos_of_ne_zero hzero), fun _ _ _ => owner_cons hs₁ hnone,
        fun _ _ => hidden_cons hs₁ hnone, hs₁.size, fun b' hb' => ?_, fun p hp => ?_⟩
      · dsimp only
        omega
      · obtain ⟨hb₁, hb₂, hb₃, hb₄, hbelow⟩ := hs₁.slab b' hb'
        exact ⟨hb₁, hb₂, hb₃, hb₄, List.forall_mem_cons.mpr
          ⟨fun hb => absurd hb.symm (hother b' (hsame.symm.trans hb')), hbelow⟩⟩
      · obtain ⟨hp₁, obj', c, hc, hbuffer, hstart, hbehind⟩ := hs₁.last p hp
        exact ⟨hp₁, obj', c, List.mem_cons_of_mem _ hc, hbuffer, hstart, List.forall_mem_cons.mpr
          ⟨fun _ hb => absurd hb.symm (hother _ (hsame.symm.trans hp₁)), hbehind⟩⟩
  · -- behind the offset of the slab
    obtain ⟨⟨b, s₁⟩, hroom, hmade⟩ := Option.bind_eq_some_iff.mp h
    obtain ⟨rfl, rfl⟩ := Prod.mk.inj (Option.some.inj hmade)
    obtain ⟨hs₁, hslab, hhidden, hfits, hmax⟩ := hs.roomySlab (Nat.not_lt.mp hlarge) hroom
    obtain ⟨hlt, hlength, -, -, hbelow⟩ := hs₁.slab b hslab
    have hwrap : (s₁.offset + size) % 2 ^ 32 = s₁.offset + size := by
      unfold kMaxLength at hmax
      omega
    have hdata : data s₁ b = some ⟨b, 0⟩ := if_neg (by omega)
    simp only [hdata, Option.map_some, region, Nat.zero_add, hwrap]
    refine ⟨List.pairwise_cons.mpr ⟨fun r hr => ?_, hs₁.apart⟩,
      List.forall_mem_cons.mpr ⟨?_, hs₁.inside⟩, List.forall_mem_cons.mpr ⟨hlt, hs₁.old⟩,
      fun _ _ => nonempty_cons hs₁ (Nat.pos_of_ne_zero hzero), fun _ _ _ => owner_cons hs₁ hnone,
      fun _ _ => hidden_cons hs₁ hnone, hs₁.size, fun b' hb' => ?_, fun p hp => ?_⟩
    · by_cases hb : r.2.buffer = b
      · exact .inr (.inr (hbelow r hr hb))
      · exact .inl (Ne.symm hb)
    · dsimp only
      omega
    · obtain rfl := Option.some.inj (hslab.symm.trans hb')
      exact ⟨hlt, hlength, hmax, by dsimp only; omega, List.forall_mem_cons.mpr
        ⟨fun _ => le_rfl, fun r hr hb => (hbelow r hr hb).trans (Nat.le_add_right _ _)⟩⟩
    · obtain rfl := Option.some.inj hp
      refine ⟨hslab, obj, _, List.mem_cons_self, rfl, rfl, fun r hr hne hb => ?_⟩
      obtain hr | hr := List.mem_cons.mp hr
      · exact absurd hr hne
      · exact hbelow r hr hb

/-- What an object shrinks is its own region, in the Buffer that it has. -/
lemma Sound.shrink_cases {c : Slice} (hs : Sound s regions) (hc : (some obj, c) ∈ regions)
    (size : ℕ) :
    ∃ s', shrink s obj (some ⟨c.buffer, c.start⟩) size = some (c.buffer, s') ∧
      s' = { s with
        hidden := Function.update s.hidden obj none
        lastPtr := if s.lastPtr = some ⟨c.buffer, c.start⟩ then none else s.lastPtr
        offset := if s.lastPtr = some ⟨c.buffer, c.start⟩ then
          (c.start + roundUp size 16) % 2 ^ 32 else s.offset } := by
  unfold SlabAllocator.shrink
  rw [hs.hidden obj c hc]
  dsimp only
  split_ifs with hlast
  · exact ⟨_, rfl, rfl⟩
  · exact ⟨_, rfl, rfl⟩

omit [DecidableEq Obj] in
/-- No region of another object meets it. -/
lemma Sound.apart_others {c : Slice} (hs : Sound s regions) (hc : (some obj, c) ∈ regions)
    {r : Option Obj × Slice} (hr : r ∈ regions) (hne : r.1 ≠ some obj) : Slice.Apart c r.2 := by
  have : Std.Symm fun a b : Option Obj × Slice => a.2.Apart b.2 := ⟨fun _ _ h => h.symm⟩
  exact hs.apart.forall hc hr fun heq => hne (heq ▸ rfl)

omit [DecidableEq Obj] in
/-- The last pointer is that of an object only if its region is behind all others. -/
lemma Sound.behind_others {c : Slice} (hs : Sound s regions) (hc : (some obj, c) ∈ regions)
    (hp : s.lastPtr = some ⟨c.buffer, c.start⟩) :
    s.slab = some c.buffer ∧ ∀ r ∈ regions, r.1 ≠ some obj → r.2.buffer = c.buffer →
      r.2.start + r.2.length ≤ c.start := by
  obtain ⟨hslab, obj', d, hd, hbuffer, hstart, hbehind⟩ := hs.last _ hp
  have hpos := hs.nonempty obj c hc
  refine ⟨hslab, fun r hr hne hb => ?_⟩
  have hsame : (some obj, c) = (some obj', d) := by
    by_contra hdiff
    have hle := hbehind _ hc hdiff rfl
    dsimp only at hle
    omega
  exact hbehind r hr (fun heq => hne ((congrArg Prod.fst heq).trans
    (congrArg Prod.fst hsame).symm)) hb

/-- **A shrink** leaves its object a part of its region, and nobody what is given back. -/
theorem Sound.shrink {c : Slice} (hs : Sound s regions) (hc : (some obj, c) ∈ regions)
    (hsize : size ≤ c.length) {slab : ℕ}
    (h : shrink s obj (some ⟨c.buffer, c.start⟩) size = some (slab, s')) :
    Sound s' ((none, { c with length := size }) ::
      regions.filter fun r => decide (r.1 ≠ some obj)) := by
  obtain ⟨s₁, hshrink, hs₁⟩ := hs.shrink_cases hc size
  obtain ⟨-, rfl⟩ := Prod.mk.inj (Option.some.inj (hshrink.symm.trans h))
  subst hs₁
  have hinside := hs.inside _ hc
  have hmem {r : Option Obj × Slice} (hr : r ∈ regions.filter fun r => decide (r.1 ≠ some obj)) :
      r ∈ regions ∧ r.1 ≠ some obj := by
    obtain ⟨hr, hne⟩ := List.mem_filter.mp hr
    exact ⟨hr, of_decide_eq_true hne⟩
  have hpart : Slice.Within { c with length := size } c :=
    ⟨rfl, le_rfl, Nat.add_le_add_left hsize _⟩
  refine ⟨List.pairwise_cons.mpr ⟨fun r hr => ?_, hs.apart.filter _⟩,
    List.forall_mem_cons.mpr ⟨?_, fun r hr => hs.inside r (hmem hr).1⟩,
    List.forall_mem_cons.mpr ⟨hs.old (some obj, c) hc, fun r hr => hs.old r (hmem hr).1⟩,
    fun obj' d hd => ?_, fun obj' d e hd he => ?_, fun obj' d hd => ?_, hs.size,
    fun b hb => ?_, fun p hp => ?_⟩
  · exact (hs.apart_others hc (hmem hr).1 (hmem hr).2).within hpart
  · dsimp only at hinside ⊢
    omega
  · obtain hd | hd := List.mem_cons.mp hd
    · cases hd
    · exact hs.nonempty obj' d (hmem hd).1
  · obtain hd | hd := List.mem_cons.mp hd
    · cases hd
    · obtain he | he := List.mem_cons.mp he
      · cases he
      · exact hs.owner obj' d e (hmem hd).1 (hmem he).1
  · obtain hd | hd := List.mem_cons.mp hd
    · cases hd
    · have hne : obj' ≠ obj := fun heq => (hmem hd).2 (congrArg some heq)
      dsimp only
      rw [Function.update_of_ne hne]
      exact hs.hidden obj' d (hmem hd).1
  · obtain ⟨hlt, hlength, hmax, hoffset, hbelow⟩ := hs.slab b hb
    dsimp only
    split_ifs with hptr
    · obtain ⟨hslab, hbehind⟩ := hs.behind_others hc hptr
      obtain rfl := Option.some.inj (hslab.symm.trans hb)
      -- the offset moves to behind what is left of the region, which may be past the end
      have hsmall : c.start + c.length ≤ s.size := hlength ▸ hinside
      have hround : size ≤ roundUp size 16 ∧ roundUp size 16 < size + 16 := by
        unfold kMaxLength at hmax
        unfold roundUp
        split_ifs <;> omega
      have hwrap : (c.start + roundUp size 16) % 2 ^ 32 = c.start + roundUp size 16 := by
        unfold kMaxLength at hmax
        omega
      rw [hwrap]
      refine ⟨hlt, hlength, hmax, by omega, List.forall_mem_cons.mpr ⟨fun _ => ?_,
        fun r hr hrb => ?_⟩⟩
      · exact Nat.add_le_add_left hround.1 _
      · exact (hbehind r (hmem hr).1 (hmem hr).2 hrb).trans (Nat.le_add_right _ _)
    · refine ⟨hlt, hlength, hmax, hoffset, List.forall_mem_cons.mpr ⟨fun hcb => ?_,
        fun r hr => hbelow r (hmem hr).1⟩⟩
      have := hbelow _ hc hcb
      dsimp only at this ⊢
      omega
  · dsimp only at hp
    split_ifs at hp with hptr
    -- the region behind all others is another object's
    obtain ⟨hslab, obj', d, hd, hbuffer, hstart, hbehind⟩ := hs.last p hp
    have hdiff : (some obj, c) ≠ (some obj', d) := by
      intro heq
      obtain ⟨-, rfl⟩ := Prod.mk.inj heq
      exact hptr (hp.trans (congrArg some (by rw [hbuffer, hstart])))
    have hobj : obj' ≠ obj := by
      rintro rfl
      exact hdiff (congrArg _ (hs.owner obj' c d hc hd))
    refine ⟨hslab, obj', d, List.mem_cons_of_mem _ (List.mem_filter.mpr ⟨hd, ?_⟩), hbuffer, hstart,
      List.forall_mem_cons.mpr ⟨fun _ hcb => ?_, fun r hr => hbehind r (hmem hr).1⟩⟩
    · exact decide_eq_true fun heq => hobj (Option.some.inj heq)
    · have := hbehind _ hc hdiff hcb
      dsimp only at this ⊢
      omega

/-! ### Regions over whole runs -/

variable {w w' : World Obj}

lemma sound_step (hs : Sound w.state w.regions) (h : Step w w') : Sound w'.state w'.regions := by
  cases h with
  | allocate hsize hnone h => exact hs.allocate hsize hnone h
  | shrink hc hsize h => exact hs.shrink hc hsize h

lemma sound_of_reachable (h : Reachable size w) : Sound w.state w.regions := by
  induction h with
  | new => exact .new size
  | step _ hstep ih => exact sound_step ih hstep

/-- A read that ends is a shrink, and tells where in the slab its bytes are. -/
theorem onReadCommon_eq (h : Reachable size w) {c : Slice} (hc : (some obj, c) ∈ w.regions)
    {nread : ℤ} (hread : nread ≤ c.length) :
    ∃ s, Step w ⟨s, (none, { c with length := nread.toNat }) ::
        w.regions.filter fun r => decide (r.1 ≠ some obj)⟩ ∧
      onReadCommon w.state obj nread (some ⟨c.buffer, c.start⟩) =
        some (if 0 < nread then some (c.buffer, c.start, nread.toNat) else none, s) := by
  obtain ⟨s, hshrink, -⟩ := (sound_of_reachable h).shrink_cases hc nread.toNat
  refine ⟨s, .shrink hc (by omega) hshrink, ?_⟩
  unfold onReadCommon
  dsimp only
  rw [hshrink]
  obtain hneg | rfl | hpos := lt_trichotomy nread 0
  · have hzero : nread.toNat = 0 := by omega
    rw [hzero] at hshrink
    rw [if_pos hneg, if_neg hneg.le.not_gt, hshrink]
    rfl
  · rfl
  · rw [if_neg hpos.le.not_gt, if_pos hpos, Option.map_some, if_neg hpos.ne']

/-- **Regions do not meet**, whoever has them: those that objects have not shrunk yet and those that
were left of shrunk ones. `Shrink` does not fail for an object with a region, and returns the Buffer
that the region lies in; what is behind the offset of the slab is nobody's. -/
theorem regions_isolated (size : ℕ) (w : World Obj) (h : Reachable size w) :
    (w.regions.Pairwise fun a b => a.2.Apart b.2) ∧
    (∀ obj c, (some obj, c) ∈ w.regions → ∀ n ≤ c.length,
      ∃ s, shrink w.state obj (some ⟨c.buffer, c.start⟩) n = some (c.buffer, s) ∧
        c.start + c.length ≤ s.lengths c.buffer ∧
        ∀ r ∈ (none, { c with length := n }) :: w.regions.filter fun r => decide (r.1 ≠ some obj),
          s.slab = some r.2.buffer → r.2.start + r.2.length ≤ s.offset) ∧
    ∀ r ∈ w.regions, r.2.start + r.2.length ≤ w.state.lengths r.2.buffer := by
  have hs := sound_of_reachable h
  refine ⟨hs.apart, fun obj c hc n hn => ?_, hs.inside⟩
  obtain ⟨s, hshrink, heq⟩ := hs.shrink_cases hc n
  have hs' := hs.shrink hc hn hshrink
  refine ⟨s, hshrink, ?_, fun r hr hslab => (hs'.slab _ hslab).2.2.2.2 r hr rfl⟩
  rw [heq]
  exact hs.inside _ hc

/-- One object's read is over while another's is not. -/
theorem regions_isolated_twoReads : ∃ w : World Bool, Reachable 4096 w ∧
    w.regions = [(none, ⟨0, 100, 20⟩), (some false, ⟨0, 0, 100⟩)] ∧
    w.regions.Pairwise fun a b => a.2.Apart b.2 := by
  have hfirst := Reachable.step (@Reachable.new Bool _ 4096) (@Step.allocate Bool _ _ false 100 _ _
    (by decide) (fun _ hc => absurd hc List.not_mem_nil) rfl)
  have hsecond := hfirst.step (@Step.allocate Bool _ _ true 50 _ _ (by decide)
    (fun _ hc => by cases List.mem_singleton.mp hc) rfl)
  have hthird := hsecond.step (@Step.shrink Bool _ _ true ⟨0, 100, 50⟩ 20 _ _
    List.mem_cons_self (by decide) rfl)
  exact ⟨_, hthird, rfl, (regions_isolated 4096 _ hthird).1⟩

end NodeCore.SlabAllocator
