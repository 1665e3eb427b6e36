import NodeCore.NodeBio

/-!
The ring of a `NodeBIO`.

From the read head to the write head stand the buffers with unread bytes, then the free ones up
to the read head again. Every buffer before the write head is full; but a read may have drained
the one at the read head without going on to the next.
-/

namespace NodeCore.NodeBio

open NodeCore.Encoding NodeCore.Loop

lemma kBufferLength_pos : 0 < kBufferLength := by
  unfold kBufferLength
  norm_num

/-- The bytes between the two positions. -/
def Buffer.unread (b : Buffer) : Bytes := (b.data.take b.writePos).drop b.readPos

structure Buffer.Valid (b : Buffer) : Prop where
  read_le : b.readPos ≤ b.writePos
  write_le : b.writePos ≤ kBufferLength
  size : b.data.length = kBufferLength
  /-- A drained buffer starts again. -/
  drained : b.readPos = b.writePos → b.writePos = 0

lemma Buffer.Valid.length_unread {b : Buffer} (hb : b.Valid) :
    b.unread.length = b.writePos - b.readPos := by
  have h := hb.write_le
  rw [Buffer.unread, List.length_drop, List.length_take, hb.size, min_eq_left h]

def Bio.unread (s : Bio) (l : List ℕ) : Bytes := l.flatMap fun a => (s.heap a).unread

@[simp] lemma Bio.unread_nil (s : Bio) : s.unread [] = [] := rfl

@[simp] lemma Bio.unread_cons (s : Bio) (a : ℕ) (l : List ℕ) :
    s.unread (a :: l) = (s.heap a).unread ++ s.unread l := rfl

lemma Bio.unread_append (s : Bio) (l l' : List ℕ) :
    s.unread (l ++ l') = s.unread l ++ s.unread l' :=
  List.flatMap_append

/-- A buffer that is not in the list is changed. -/
lemma Bio.unread_congr {s s' : Bio} {l : List ℕ} (h : ∀ a ∈ l, s'.heap a = s.heap a) :
    s'.unread l = s.unread l := by
  unfold Bio.unread
  exact List.flatMap_congr fun a ha => by rw [h a ha]

@[simp] lemma Bio.store_heap_same (s : Bio) (a : ℕ) (b : Buffer) : (s.store a b).heap a = b :=
  Function.update_self _ _ _

lemma Bio.store_heap_ne (s : Bio) {a c : ℕ} (b : Buffer) (h : c ≠ a) :
    (s.store a b).heap c = s.heap c := Function.update_of_ne h _ _

/-- `h :: t` from the read head to the write head, then `free`. -/
structure Ring (s : Bio) (h : ℕ) (t free : List ℕ) : Prop where
  head : s.readHead = h
  last : (h :: t).getLast? = some s.writeHead
  nodup : (h :: t ++ free).Nodup
  alloc : ∀ a ∈ h :: t ++ free, a < s.brk
  linked : (h :: t ++ free ++ [h]).IsChain fun a b => (s.heap a).next = b
  valid : ∀ a ∈ h :: t ++ free, (s.heap a).Valid
  free_empty : ∀ a ∈ free, (s.heap a).writePos = 0
  unread_start : ∀ a ∈ t, (s.heap a).readPos = 0
  full : ∀ a ∈ (h :: t).dropLast,
    (s.heap a).writePos = kBufferLength ∨ a = h ∧ (s.heap a).writePos = 0

/-- Past the read head no buffer is empty. -/
def Bio.Settled (s : Bio) (t : List ℕ) : Prop := ∀ a ∈ t, 0 < (s.heap a).writePos

/-- The ring holds the bytes `q`. -/
def Holds (s : Bio) (q : Bytes) : Prop :=
  s.length = q.length ∧ ∃ h t free, Ring s h t free ∧ s.Settled t ∧ s.unread (h :: t) = q

lemma holds_new : Holds .new [] := by
  refine ⟨rfl, 0, [], [], ⟨rfl, rfl, by simp, ?_, ?_, ?_, by simp, by simp, by simp⟩, ?_, rfl⟩
  · intro a ha
    obtain rfl : a = 0 := by simpa using ha
    exact Nat.one_pos
  · simp [Bio.new, Buffer.new]
  · intro a _
    exact ⟨le_rfl, Nat.zero_le _, by simp [Bio.new, Buffer.new], fun _ => rfl⟩
  · intro a ha
    cases ha

/-! ### Changing a ring -/

lemma isChain_congr {f g : ℕ → ℕ} {l : List ℕ} (h : ∀ a ∈ l.dropLast, f a = g a)
    (hl : l.IsChain fun a b => f a = b) : l.IsChain fun a b => g a = b := by
  induction l with
  | nil => exact .nil
  | cons a l ih =>
    rcases l with _ | ⟨b, l⟩
    · exact .singleton _
    · rw [List.isChain_cons_cons] at hl ⊢
      refine ⟨?_, ih (fun c hc => h c ?_) hl.2⟩
      · rw [← h a (by simp)]
        exact hl.1
      · rw [List.dropLast_cons_of_ne_nil (by simp)]
        exact List.mem_cons_of_mem _ hc

variable {s : Bio} {h : ℕ} {t free : List ℕ}

lemma Ring.ne_of_tail (hr : Ring s h t free) {a : ℕ} (ha : a ∈ t ++ free) : a ≠ h := by
  have hn := hr.nodup
  rw [List.cons_append, List.nodup_cons] at hn
  rintro rfl
  exact hn.1 ha

lemma Ring.with_length (hr : Ring s h t free) (n : ℕ) : Ring { s with length := n } h t free := by
  obtain ⟨h1, h2, h3, h4, h5, h6, h7, h8, h9⟩ := hr
  exact ⟨h1, h2, h3, h4, h5, h6, h7, h8, h9⟩

/-- The buffer at the read head is changed. -/
lemma Ring.store_head (hr : Ring s h t free) {b : Buffer} (hnext : b.next = (s.heap h).next)
    (hb : b.Valid) (hfull : t ≠ [] → b.writePos = kBufferLength ∨ b.writePos = 0) :
    Ring (s.store h b) h t free := by
  have hne : ∀ a ∈ t ++ free, (s.store h b).heap a = s.heap a :=
    fun a ha => s.store_heap_ne b (hr.ne_of_tail ha)
  refine ⟨hr.head, hr.last, hr.nodup, hr.alloc, isChain_congr (fun a _ => ?_) hr.linked,
    ?_, ?_, ?_, ?_⟩
  · rcases eq_or_ne a h with rfl | ha
    · rw [Bio.store_heap_same, hnext]
    · rw [s.store_heap_ne b ha]
  · intro a ha
    rcases List.mem_cons.mp ha with rfl | ha
    · rwa [Bio.store_heap_same]
    · rw [hne a ha]
      exact hr.valid a (List.mem_cons_of_mem _ ha)
  · intro a ha
    rw [hne a (by simp [ha])]
    exact hr.free_empty a ha
  · intro a ha
    rw [hne a (by simp [ha])]
    exact hr.unread_start a ha
  · intro a ha
    rcases eq_or_ne t [] with rfl | ht
    · simp at ha
    · rw [List.dropLast_cons_of_ne_nil ht] at ha
      rcases List.mem_cons.mp ha with rfl | ha
      · rw [Bio.store_heap_same]
        exact (hfull ht).imp_right fun h0 => ⟨rfl, h0⟩
      · have hmem := List.mem_of_mem_dropLast ha
        rw [hne a (by simp [hmem])]
        refine hr.full a ?_
        rw [List.dropLast_cons_of_ne_nil ht]
        exact List.mem_cons_of_mem _ ha

/-- The read head leaves a drained buffer. -/
lemma Ring.advance {h' : ℕ} (hr : Ring s h (h' :: t) free) (hempty : (s.heap h).writePos = 0) :
    Ring { s with readHead := (s.heap h).next } h' t (free ++ [h]) := by
  have hperm : (h' :: t ++ (free ++ [h])).Perm (h :: h' :: t ++ free) := by
    rw [← List.append_assoc, List.cons_append (a := h)]
    exact List.perm_append_singleton _ _
  have hlinked := hr.linked
  simp only [List.cons_append, List.isChain_cons_cons] at hlinked
  refine ⟨hlinked.1, ?_, hperm.nodup_iff.mpr hr.nodup, fun a ha => hr.alloc a (hperm.mem_iff.mp ha),
    ?_, fun a ha => hr.valid a (hperm.mem_iff.mp ha), ?_, ?_, ?_⟩
  · rw [← hr.last]
    simp
  · have hchain : (h' :: t ++ free ++ [h]).IsChain fun a b => (s.heap a).next = b := by
      simpa using hlinked.2
    have hsplit : h' :: t ++ (free ++ [h]) ++ [h'] = (h' :: t ++ free ++ [h]) ++ [h'] := by simp
    rw [hsplit, List.isChain_append]
    refine ⟨hchain, .singleton _, fun x hx y hy => ?_⟩
    rw [Option.mem_def, List.getLast?_concat] at hx
    obtain rfl := Option.some.inj hx
    obtain rfl : h' = y := by simpa using hy
    exact hlinked.1
  · intro a ha
    rcases List.mem_append.mp ha with ha | ha
    · exact hr.free_empty a ha
    · obtain rfl : a = h := by simpa using ha
      exact hempty
  · intro a ha
    exact hr.unread_start a (List.mem_cons_of_mem _ ha)
  · intro a ha
    have hmem : a ∈ h' :: t := List.mem_of_mem_dropLast ha
    refine .inl ((hr.full a ?_).resolve_right ?_)
    · rw [List.dropLast_cons_of_ne_nil (by simp)]
      exact List.mem_cons_of_mem _ ha
    · rintro ⟨rfl, -⟩
      exact hr.ne_of_tail (List.mem_append_left _ hmem) rfl

/-- The write head is the last buffer with bytes. -/
lemma Ring.exists_last (hr : Ring s h t free) : ∃ pre, h :: t = pre ++ [s.writeHead] := by
  have hlast := hr.last
  rw [List.getLast?_eq_some_iff] at hlast
  exact hlast

lemma Ring.writeHead_mem (hr : Ring s h t free) : s.writeHead ∈ h :: t := by
  obtain ⟨pre, hpre⟩ := hr.exists_last
  rw [hpre]
  simp

/-- Away from the write head nothing has changed. -/
lemma Ring.ne_writeHead (hr : Ring s h t free) {pre : List ℕ} (hpre : h :: t = pre ++ [s.writeHead])
    {a : ℕ} (ha : a ∈ pre ++ free) : a ≠ s.writeHead := by
  have hn := hr.nodup
  rw [hpre] at hn
  rintro rfl
  rcases List.mem_append.mp ha with ha | ha
  · have hn' := (List.nodup_append.mp hn).1
    exact (List.nodup_append.mp hn').2.2 _ ha _ (by simp) rfl
  · exact (List.nodup_append.mp hn).2.2 _ (by simp) _ ha rfl

/-- The buffer at the write head takes more bytes. -/
lemma Ring.store_last (hr : Ring s h t free) {b : Buffer}
    (hnext : b.next = (s.heap s.writeHead).next) (hread : b.readPos = (s.heap s.writeHead).readPos)
    (hb : b.Valid) : Ring (s.store s.writeHead b) h t free := by
  obtain ⟨pre, hpre⟩ := hr.exists_last
  have hne : ∀ a ∈ pre ++ free, (s.store s.writeHead b).heap a = s.heap a :=
    fun a ha => s.store_heap_ne b (hr.ne_writeHead hpre ha)
  refine ⟨hr.head, hr.last, hr.nodup, hr.alloc, isChain_congr (fun a _ => ?_) hr.linked,
    ?_, ?_, ?_, ?_⟩
  · rcases eq_or_ne a s.writeHead with rfl | ha
    · rw [Bio.store_heap_same, hnext]
    · rw [s.store_heap_ne b ha]
  · intro a ha
    rcases eq_or_ne a s.writeHead with rfl | hne'
    · rwa [Bio.store_heap_same]
    · rw [s.store_heap_ne b hne']
      exact hr.valid a ha
  · intro a ha
    rw [hne a (by simp [ha])]
    exact hr.free_empty a ha
  · intro a ha
    rcases eq_or_ne a s.writeHead with rfl | hne'
    · rw [Bio.store_heap_same, hread]
      exact hr.unread_start _ ha
    · rw [s.store_heap_ne b hne']
      exact hr.unread_start a ha
  · intro a ha
    have ha' : a ∈ pre := by
      rw [hpre, List.dropLast_concat] at ha
      exact ha
    rw [hne a (by simp [ha'])]
    exact hr.full a ha

/-- A new buffer behind the write head. -/
def Bio.extend (s : Bio) : Bio :=
  let b := s.heap s.writeHead
  { (s.store s.brk (.new b.next)).store s.writeHead { b with next := s.brk } with
    brk := s.brk + 1
    writeHead := s.brk }

lemma Bio.extend_heap_new {s : Bio} (h : s.writeHead < s.brk) :
    s.extend.heap s.brk = .new (s.heap s.writeHead).next :=
  (Function.update_of_ne h.ne' _ _).trans (Function.update_self _ _ _)

lemma Bio.extend_heap_last (s : Bio) :
    s.extend.heap s.writeHead = { s.heap s.writeHead with next := s.brk } :=
  Function.update_self _ _ _

lemma Bio.extend_heap_ne {s : Bio} {a : ℕ} (hw : a ≠ s.writeHead) (hb : a ≠ s.brk) :
    s.extend.heap a = s.heap a :=
  (Function.update_of_ne hw _ _).trans (Function.update_of_ne hb _ _)

lemma Ring.writeHead_lt (hr : Ring s h t free) : s.writeHead < s.brk :=
  hr.alloc _ (List.mem_append_left _ hr.writeHead_mem)

/-- Only the link of the old buffers is changed. -/
lemma Ring.extend_heap_old (hr : Ring s h t free) {a : ℕ} (ha : a ∈ h :: t ++ free) :
    (s.extend.heap a).readPos = (s.heap a).readPos ∧
      (s.extend.heap a).writePos = (s.heap a).writePos ∧
      (s.extend.heap a).data = (s.heap a).data := by
  rcases eq_or_ne a s.writeHead with rfl | hne
  · rw [s.extend_heap_last]
    exact ⟨rfl, rfl, rfl⟩
  · rw [Bio.extend_heap_ne hne (hr.alloc a ha).ne]
    exact ⟨rfl, rfl, rfl⟩

lemma Ring.extend (hr : Ring s h t free) (hfull : (s.heap s.writeHead).writePos = kBufferLength) :
    Ring s.extend h (t ++ [s.brk]) free := by
  obtain ⟨pre, hpre⟩ := hr.exists_last
  have hbrk : ∀ a ∈ h :: t ++ free, a ≠ s.brk := fun a ha => (hr.alloc a ha).ne
  have hnew := Bio.extend_heap_new hr.writeHead_lt
  have hmem : ∀ a, a ∈ h :: (t ++ [s.brk]) ++ free → a = s.brk ∨ a ∈ h :: t ++ free := by
    intro a ha
    simp only [List.cons_append, List.append_assoc, List.mem_cons, List.mem_append,
      List.not_mem_nil] at ha ⊢
    tauto
  refine ⟨hr.head, by simp [Bio.extend, List.getLast?_cons], ?_, ?_, ?_, ?_, ?_, ?_, ?_⟩
  · have hperm : (h :: (t ++ [s.brk]) ++ free).Perm (s.brk :: (h :: t ++ free)) := by
      have : h :: (t ++ [s.brk]) ++ free = (h :: t) ++ s.brk :: free := by simp
      rw [this]
      exact List.perm_middle
    rw [hperm.nodup_iff, List.nodup_cons]
    exact ⟨fun hin => hbrk _ hin rfl, hr.nodup⟩
  · intro a ha
    rcases hmem a ha with rfl | ha
    · exact Nat.lt_succ_self _
    · exact Nat.lt_succ_of_lt (hr.alloc a ha)
  · -- the links before the write head, the new one, and those behind it
    have hlinked := hr.linked
    rw [hpre, List.append_assoc, List.isChain_append] at hlinked
    have hsplit : h :: (t ++ [s.brk]) ++ free ++ [h] =
        (pre ++ [s.writeHead]) ++ (s.brk :: (free ++ [h])) := by
      rw [← hpre]
      simp
    rw [hsplit, List.isChain_append]
    refine ⟨isChain_congr (fun a ha => ?_) hlinked.1, ?_, ?_⟩
    · rw [List.dropLast_concat] at ha
      rw [Bio.extend_heap_ne (hr.ne_writeHead hpre (List.mem_append_left _ ha))
        (hbrk a (by rw [hpre]; simp [ha]))]
    · obtain ⟨f, l, hf⟩ : ∃ f l, free ++ [h] = f :: l := List.exists_cons_of_ne_nil (by simp)
      have hfree := hlinked.2.1
      have hjoin := hlinked.2.2 s.writeHead (by simp) f (by rw [hf]; simp)
      rw [hf, List.isChain_cons_cons, ← hf]
      refine ⟨by rw [hnew, Buffer.new]; exact hjoin, isChain_congr (fun a ha => ?_) hfree⟩
      rw [List.dropLast_concat] at ha
      rw [Bio.extend_heap_ne (hr.ne_writeHead hpre (List.mem_append_right _ ha))
        (hbrk a (by simp [ha]))]
    · intro x hx y hy
      obtain rfl : s.writeHead = x := by simpa using hx
      obtain rfl : s.brk = y := by simpa using hy
      rw [s.extend_heap_last]
  · intro a ha
    rcases hmem a ha with rfl | ha
    · rw [hnew]
      exact ⟨le_rfl, Nat.zero_le _, by simp [Buffer.new], fun _ => rfl⟩
    · obtain ⟨hread, hwrite, hdata⟩ := hr.extend_heap_old ha
      obtain ⟨h1, h2, h3, h4⟩ := hr.valid a ha
      exact ⟨by omega, by omega, by rw [hdata, h3], fun h => by rw [hwrite]; exact h4 (by omega)⟩
  · intro a ha
    rw [(hr.extend_heap_old (List.mem_append_right _ ha)).2.1]
    exact hr.free_empty a ha
  · intro a ha
    rcases List.mem_append.mp ha with ha | ha
    · rw [(hr.extend_heap_old (a := a) (by simp [ha])).1]
      exact hr.unread_start a ha
    · obtain rfl : a = s.brk := by simpa using ha
      rw [hnew]
      rfl
  · intro a ha
    have ha' : a ∈ h :: t := by
      rwa [← List.cons_append, List.dropLast_concat] at ha
    rw [(hr.extend_heap_old (List.mem_append_left _ ha')).2.1]
    rcases eq_or_ne a s.writeHead with rfl | hne
    · exact .inl hfull
    · refine hr.full a ?_
      rw [hpre] at ha' ⊢
      rw [List.dropLast_concat]
      simpa [hne] using ha'

end NodeCore.NodeBio
