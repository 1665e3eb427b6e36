import Mathlib.Dynamics.PeriodicPts.Defs
import NodeCore.NodeBioRuns

/-!
How many buffers the ring of a `NodeBIO` has.

A `Write` that fills the buffer at the write head, with bytes left, puts a new one behind it,
whether or not the next one is drained. As long as the next one is that of the read head then, the
buffers are full but for the first and the last, and so not many more than the bytes need.
-/

namespace NodeCore.NodeBio

open NodeCore.Encoding NodeCore.Loop

/-! ### Circles -/

/-- A list that a function walks along, and back to its head. -/
lemma minimalPeriod_of_circle {α : Type*} {f : α → α} {a : α} {l : List α}
    (hnodup : (a :: l).Nodup) (hchain : (a :: l ++ [a]).IsChain fun x y => f x = y) :
    Function.minimalPeriod f a = (a :: l).length := by
  have hwalk (i : ℕ) (hi : i < (a :: l ++ [a]).length) : f^[i] a = (a :: l ++ [a])[i] := by
    induction i with
    | zero => rfl
    | succ i ih =>
      rw [Function.iterate_succ_apply', ih (by omega)]
      exact List.isChain_iff_getElem.mp hchain i hi
  have hback : Function.IsPeriodicPt f (a :: l).length a := by
    show f^[(a :: l).length] a = a
    rw [hwalk _ (by simp), List.getElem_append_right le_rfl]
    simp
  have hpos : 0 < Function.minimalPeriod f a := hback.minimalPeriod_pos (by simp)
  refine le_antisymm (hback.minimalPeriod_le (by simp)) (Nat.le_of_not_lt fun hlt => ?_)
  have hearly := Function.isPeriodicPt_minimalPeriod f a
  have hcell : (a :: l)[Function.minimalPeriod f a] = (a :: l)[0] := by
    have hiterate : f^[Function.minimalPeriod f a] a = a := hearly
    rw [hwalk _ (by simp at hlt ⊢; omega), List.getElem_append_left hlt] at hiterate
    exact hiterate
  exact hpos.ne' ((hnodup.getElem_inj_iff).mp hcell)

/-! ### The buffers of a ring -/

def Bio.next (s : Bio) (a : ℕ) : ℕ := (s.heap a).next

/-- The number of buffers on the way around, from the read head. -/
noncomputable def Bio.buffers (s : Bio) : ℕ := Function.minimalPeriod s.next s.readHead

variable {s s' : Bio} {h : ℕ} {t free : List ℕ} {q : Bytes}

lemma Ring.buffers (hr : Ring s h t free) : s.buffers = (h :: t ++ free).length := by
  rw [Bio.buffers, hr.head]
  exact minimalPeriod_of_circle hr.nodup hr.linked

/-- The read head moves along the ring. -/
structure Along (s s' : Bio) : Prop where
  next : s'.next = s.next
  head : ∃ i, s'.readHead = s.next^[i] s.readHead

lemma Along.buffers (hs : 0 < s.buffers) (h : Along s s') : s'.buffers = s.buffers := by
  obtain ⟨i, hi⟩ := h.head
  rw [Bio.buffers, h.next, hi]
  exact Function.minimalPeriod_apply_iterate
    (Function.minimalPeriod_pos_iff_mem_periodicPts.mp hs) i

lemma Holds.buffers_pos (hs : Holds s q) : 0 < s.buffers := by
  obtain ⟨-, h, t, free, ring, -⟩ := hs
  rw [ring.buffers]
  exact Nat.succ_pos _

lemma Bio.store_next {a : ℕ} {b : Buffer} (h : b.next = (s.heap a).next) :
    (s.store a b).next = s.next := by
  funext c
  rcases eq_or_ne c a with rfl | hne
  · exact (congrArg Buffer.next (s.store_heap_same c b)).trans h
  · exact congrArg Buffer.next (s.store_heap_ne b hne)

/-- What a round of `Read` does to the ring. -/
lemma readRound_bio {copy : Bool} {expected : ℕ} {r r' : Reading}
    (h : readRound copy expected r = .next r') : ∃ b : Buffer,
      b.next = (r.bio.heap r.bio.readHead).next ∧
      (r'.bio = r.bio.store r.bio.readHead b ∨
        r'.bio = { r.bio.store r.bio.readHead b with readHead := b.next }) := by
  unfold readRound at h
  dsimp only at h
  by_cases hmore : r.bytesRead < expected
  · by_cases hvalid : (r.bio.heap r.bio.readHead).readPos ≤ (r.bio.heap r.bio.readHead).writePos
    · rw [if_pos hmore, if_pos hvalid] at h
      generalize (if copy then _ else _) = out at h
      split_ifs at h with hdrained hgo
      · cases h
        refine ⟨_, ?_, .inr rfl⟩
        rfl
      · cases h
        refine ⟨_, ?_, .inl rfl⟩
        rfl
      · cases h
        refine ⟨_, ?_, .inl rfl⟩
        rfl
    · rw [if_pos hmore, if_neg hvalid] at h
      cases h
  · rw [if_neg hmore] at h
    split_ifs at h

lemma Along.trans {s₁ s₂ s₃ : Bio} (h : Along s₁ s₂) (h' : Along s₂ s₃) : Along s₁ s₃ := by
  obtain ⟨hnext, i, hi⟩ := h
  obtain ⟨hnext', j, hj⟩ := h'
  refine ⟨hnext'.trans hnext, j + i, ?_⟩
  rw [hj, hnext, hi, Function.iterate_add_apply]

lemma readRound_along {copy : Bool} {expected : ℕ} {r r' : Reading}
    (h : readRound copy expected r = .next r') : Along r.bio r'.bio := by
  obtain ⟨b, hb, hbio | hbio⟩ := readRound_bio h
  · rw [hbio]
    exact ⟨Bio.store_next hb, 0, rfl⟩
  · rw [hbio]
    exact ⟨Bio.store_next hb, 1, hb⟩

lemma Reads.along {copy : Bool} {size n : ℕ} {out : Bytes} (h : Reads s copy size n out s') :
    Along s s' := by
  obtain ⟨r, hexits, -, -, rfl⟩ := h
  generalize (if s.length > size then size else s.length) = expected at hexits
  have hnext (r₁ r₂ : Reading) (hr : Along s r₁.bio)
      (hround : readRound copy expected r₁ = .next r₂) : Along s r₂.bio :=
    hr.trans (readRound_along hround)
  have hexit (r₁ r₂ : Reading) (hr : Along s r₁.bio)
      (hround : readRound copy expected r₁ = .exit r₂) : Along s r₂.bio := by
    unfold readRound at hround
    dsimp only at hround
    split_ifs at hround
    cases hround
    exact hr
  obtain ⟨hlinks, i, hi⟩ := Exits.invariant hnext hexit hexits ⟨rfl, 0, rfl⟩
  exact ⟨hlinks, i, hi⟩

/-! ### A ring without free buffers -/

/-- The buffer behind the write head is that of the read head. -/
def Bio.Closed (s : Bio) : Prop := s.next s.writeHead = s.readHead

/-- Then none is free. -/
lemma Ring.free_of_closed (hr : Ring s h t free) (hs : s.Closed) : free = [] := by
  obtain ⟨pre, hpre⟩ := hr.exists_last
  have hlinked := hr.linked
  rw [hpre, List.append_assoc, List.append_assoc, List.singleton_append, List.isChain_append,
    List.isChain_cons] at hlinked
  rcases free with _ | ⟨f, free⟩
  · rfl
  · have hnext : (s.heap s.writeHead).next = f := hlinked.2.1.1 f rfl
    have hf : f = h := hnext.symm.trans (hs.trans hr.head)
    have hne := hr.ne_of_tail (List.mem_append_right t List.mem_cons_self) (a := f)
    exact absurd hf hne

lemma length_full {l : List ℕ} (hl : ∀ a ∈ l, (s.heap a).unread.length = kBufferLength) :
    (s.unread l).length = l.length * kBufferLength := by
  induction l with
  | nil => simp
  | cons a l ih =>
    obtain ⟨ha, hl⟩ := List.forall_mem_cons.mp hl
    rw [Bio.unread_cons, List.length_append, ha, ih hl, List.length_cons, Nat.add_one_mul,
      Nat.add_comm]

/-- **A ring without free buffers** has one more than its bytes need at most. -/
lemma Ring.length_le (hr : Ring s h t []) (hsettled : s.Settled t)
    (hlength : s.length = (s.unread (h :: t)).length) :
    s.buffers ≤ (s.length + kBufferLength - 1) / kBufferLength + 1 := by
  rw [hr.buffers, List.append_nil, List.length_cons]
  apply Nat.succ_le_succ
  rw [Nat.le_div_iff_mul_le kBufferLength_pos]
  rcases t.eq_nil_or_concat with rfl | ⟨mid, last, rfl⟩
  · simp
  · -- the buffers between the first and the last are full, and the last is not empty
    rw [List.concat_eq_append] at hr hsettled hlength ⊢
    have hfull : ∀ a ∈ mid, (s.heap a).unread.length = kBufferLength := by
      intro a ha
      have hmem : a ∈ mid ++ [last] := List.mem_append_left _ ha
      have hinit : a ∈ (h :: (mid ++ [last])).dropLast := by
        rw [← List.cons_append, List.dropLast_concat]
        exact List.mem_cons_of_mem _ ha
      have hvalid := hr.valid a (by simp [ha])
      have hwrite := (hr.full a hinit).resolve_right fun hempty =>
        absurd (hsettled a hmem) (by omega)
      rw [hvalid.length_unread, hr.unread_start a hmem, hwrite, Nat.sub_zero]
    have hlast : 0 < (s.heap last).unread.length := by
      have hmem : last ∈ mid ++ [last] := by simp
      have hsome := hsettled last hmem
      rw [(hr.valid last (by simp)).length_unread, hr.unread_start last hmem]
      omega
    rw [Bio.unread_cons, Bio.unread_append, Bio.unread_cons, Bio.unread_nil, List.append_nil,
      List.length_append, List.length_append, length_full hfull] at hlength
    rw [List.length_append, List.length_singleton, Nat.add_one_mul]
    omega

/-! ### `Write` -/

lemma Bio.put_next (s : Bio) (data : Bytes) : (s.put data).next = s.next :=
  s.store_next rfl

lemma Bio.extend_closed (hlt : s.writeHead < s.brk) (h : s.Closed) : s.extend.Closed := by
  have hnew := congrArg Buffer.next (Bio.extend_heap_new hlt)
  exact hnew.trans h

/-- A `Write` puts no free buffer into the ring. -/
lemma Writes.closed {data : Bytes} (hwrites : Writes s data s') (hlt : s.writeHead < s.brk)
    (h : s.Closed) : s'.Closed := by
  have hput {s : Bio} (data : Bytes) (h : s.Closed) : (s.put data).Closed := by
    show (s.put data).next s.writeHead = s.readHead
    rw [Bio.put_next]
    exact h
  have hnext (w w' : Writing) (hw : w.bio.writeHead < w.bio.brk ∧ w.bio.Closed)
      (hround : writeRound w = .next w') : w'.bio.writeHead < w'.bio.brk ∧ w'.bio.Closed := by
    obtain hcase | ⟨-, hcase⟩ | ⟨-, hcase⟩ | ⟨n, -, -, hcase⟩ := writeRound_cases w
    · cases hcase.symm.trans hround
    · cases hcase.symm.trans hround
    · cases hcase.symm.trans hround
      exact ⟨hw.1, hput _ hw.2⟩
    · cases hcase.symm.trans hround
      exact ⟨Nat.lt_succ_self _, Bio.extend_closed hw.1 (hput _ hw.2)⟩
  have hexit (w : Writing) (r : Bio) (hw : w.bio.writeHead < w.bio.brk ∧ w.bio.Closed)
      (hround : writeRound w = .exit r) : r.Closed := by
    obtain hcase | ⟨-, hcase⟩ | ⟨-, hcase⟩ | ⟨n, -, -, hcase⟩ := writeRound_cases w
    · cases hcase.symm.trans hround
    · cases hcase.symm.trans hround
      exact hw.2
    · cases hcase.symm.trans hround
    · cases hcase.symm.trans hround
  exact Exits.invariant hnext hexit hwrites ⟨hlt, h⟩

/-- One that fits behind the write head puts none at all. -/
lemma Writes.along {data : Bytes} (hwrites : Writes s data s')
    (hfit : (s.heap s.writeHead).writePos + data.length ≤ kBufferLength) : Along s s' := by
  rcases eq_or_ne data [] with rfl | hne
  · obtain rfl := hwrites.unique (.exit writeRound_nil)
    exact ⟨rfl, 0, rfl⟩
  · obtain rfl := hwrites.unique (.next (writeRound_last hne hfit) (.exit writeRound_nil))
    exact ⟨s.put_next data, 0, rfl⟩

/-! ### Runs -/

/-- A `Write` fits behind the write head, or the next buffer is that of the read head. -/
def Op.Roomy (s : Bio) : Op → Prop
  | .write data => (s.heap s.writeHead).writePos + data.length ≤ kBufferLength ∨ s.Closed
  | _ => True

/-- One operation. -/
lemma Holds.buffers_step (hs : Holds s q) {op : Op} {res : Res} {L : ℕ} (hplain : op.Plain)
    (hroomy : op.Roomy s) (hdoes : Does s op res s') (hlength : s'.length ≤ L)
    (hle : s.buffers ≤ (L + kBufferLength - 1) / kBufferLength + 1) :
    s'.buffers ≤ (L + kBufferLength - 1) / kBufferLength + 1 := by
  obtain ⟨-, hs'⟩ := hs.does hdoes
  cases hdoes with
  | write hwrites =>
    obtain hfit | hclosed := hroomy
    · rwa [(hwrites.along hfit).buffers hs.buffers_pos]
    · obtain ⟨-, h, t, free, ring, -⟩ := hs
      have hclosed' := hwrites.closed ring.writeHead_lt hclosed
      obtain ⟨hcount, h', t', free', ring', settled', hunread'⟩ := hs'
      obtain rfl := ring'.free_of_closed hclosed'
      have hbound := ring'.length_le settled' (by rw [hcount, hunread'])
      refine hbound.trans (Nat.succ_le_succ (Nat.div_le_div_right ?_))
      omega
  | read hreads => rwa [hreads.along.buffers hs.buffers_pos]
  | gets | reset => exact hplain.elim

lemma runs_concat {ops : List Op} {op : Op} {res : List Res} (h : Runs s (ops ++ [op]) res s') :
    ∃ res₁ s₁ r, Runs s ops res₁ s₁ ∧ Does s₁ op r s' := by
  induction ops generalizing s res with
  | nil =>
    cases h with
    | cons first rest =>
      cases rest
      exact ⟨_, _, _, .nil, first⟩
  | cons o ops ih =>
    cases h with
    | cons first rest =>
      obtain ⟨res₁, s₁, r, hruns, hdoes⟩ := ih rest
      exact ⟨_, s₁, r, .cons first hruns, hdoes⟩

lemma buffers_new : Bio.new.buffers = 1 :=
  Function.minimalPeriod_eq_one_iff_isFixedPt.mpr rfl

/-- **The size of the ring.** In a run of writes and reads with no more than `L` bytes at a time,
in which no `Write` needs a new buffer while one is free, the ring has no more buffers than the
bytes need and two. -/
theorem buffers_le (ops : List Op) (L : ℕ) (hplain : ∀ op ∈ ops, op.Plain)
    (hlength : ∀ pre res s, pre <+: ops → Runs .new pre res s → s.length ≤ L)
    (hroomy : ∀ pre op res s, pre ++ [op] <+: ops → Runs .new pre res s → op.Roomy s) :
    ∀ pre res s, pre <+: ops → Runs .new pre res s →
      s.buffers ≤ (L + kBufferLength - 1) / kBufferLength + 2 := by
  have hall (pre : List Op) (res : List Res) (s : Bio) (hpre : pre <+: ops)
      (hruns : Runs .new pre res s) :
      s.buffers ≤ (L + kBufferLength - 1) / kBufferLength + 1 := by
    induction pre using List.reverseRecOn generalizing res s with
    | nil =>
      cases hruns
      rw [buffers_new]
      exact Nat.succ_le_succ (Nat.zero_le _)
    | append_singleton pre op ih =>
      have hinit : pre <+: ops := (List.prefix_append pre [op]).trans hpre
      obtain ⟨res₁, s₁, r, hruns₁, hdoes⟩ := runs_concat hruns
      obtain ⟨-, hholds⟩ := holds_new.runs hruns₁
      have hop : op.Plain := hplain op (hpre.subset (by simp))
      exact hholds.buffers_step hop (hroomy _ _ _ _ hpre hruns₁) hdoes
        (hlength _ _ _ hpre hruns) (ih _ _ hinit hruns₁)
  intro pre res s hpre hruns
  exact (hall pre res s hpre hruns).trans (Nat.le_succ _)

/-- Two buffers full of bytes at once: they go behind each other on a fresh ring. -/
theorem buffers_le_two : ∃ res s,
    Runs .new [.write (List.replicate (2 * kBufferLength) 0)] res s ∧
      s.buffers ≤ (2 * kBufferLength + kBufferLength - 1) / kBufferLength + 2 := by
  have hplain : ∀ op ∈ [Op.write (List.replicate (2 * kBufferLength) 0)], op.Plain := by
    simp [Op.Plain]
  obtain ⟨s, hruns, -⟩ := holds_new.plain_runs hplain
  refine ⟨_, s, hruns, ?_⟩
  refine buffers_le [.write (List.replicate (2 * kBufferLength) 0)] (2 * kBufferLength) hplain
    (fun pre res s hpre hruns => ?_) (fun pre op res s hpre hruns => ?_)
    _ _ s (List.prefix_refl _) hruns
  · obtain ⟨-, hlength, -⟩ := holds_new.runs hruns
    obtain rfl | rfl : pre = [] ∨ pre = [.write (List.replicate (2 * kBufferLength) 0)] := by
      rcases pre with _ | ⟨op, pre⟩
      · exact .inl rfl
      · obtain ⟨rfl, hrest⟩ := List.cons_prefix_cons.mp hpre
        exact .inr (by rw [List.prefix_nil.mp hrest])
    · rw [hlength]
      exact Nat.zero_le _
    · rw [hlength]
      simp [specRun, Op.spec]
  · obtain ⟨rfl, rfl⟩ : pre = [] ∧ op = .write (List.replicate (2 * kBufferLength) 0) := by
      rcases pre with _ | ⟨o, pre⟩
      · exact ⟨rfl, (List.cons_prefix_cons.mp hpre).1⟩
      · have hlen := hpre.length_le
        simp at hlen
    cases hruns
    exact .inr rfl

/-! ### The ring grows -/

/-- One byte more than a buffer holds, and all of it read. -/
def cycle : List Op :=
  [.write (List.replicate (kBufferLength + 1) 0), .read false (kBufferLength + 1)]

def cycles : ℕ → List Op
  | 0 => []
  | n + 1 => cycle ++ cycles n

lemma Holds.drained (hs : Holds s []) : ∃ free, Ring s s.writeHead [] free ∧
    (s.heap s.writeHead).writePos = 0 := by
  obtain ⟨-, h, t, free, ring, settled, hunread⟩ := hs
  have hempty (a : ℕ) (ha : a ∈ h :: t) : (s.heap a).writePos - (s.heap a).readPos = 0 := by
    rw [← (ring.valid a (List.mem_append_left _ ha)).length_unread]
    exact congrArg List.length (List.flatMap_eq_nil_iff.mp hunread a ha)
  obtain rfl : t = [] := by
    rcases t with _ | ⟨a, t⟩
    · rfl
    · have hzero := hempty a (by simp)
      have hsome := settled a List.mem_cons_self
      rw [ring.unread_start a List.mem_cons_self] at hzero
      omega
  obtain rfl : h = s.writeHead := by simpa using ring.last
  have hvalid := ring.valid s.writeHead (by simp)
  have hzero := hempty s.writeHead List.mem_cons_self
  have hread := hvalid.read_le
  exact ⟨free, ring, hvalid.drained (by omega)⟩

/-- A drained ring has one buffer more after a cycle, and is drained again. -/
lemma cycle_grows (hs : Holds s []) : ∃ res s', Runs s cycle res s' ∧ Holds s' [] ∧
    s'.buffers = s.buffers + 1 := by
  have hpos := kBufferLength_pos
  obtain ⟨free, ring, hzero⟩ := hs.drained
  generalize hdata : List.replicate (kBufferLength + 1) (0 : UInt8) = data
  have hlen : data.length = kBufferLength + 1 := by
    rw [← hdata, List.length_replicate]
  have htake : (data.take kBufferLength).length = kBufferLength := by
    rw [List.length_take]
    omega
  have hdrop : (data.drop kBufferLength).length = 1 := by
    rw [List.length_drop]
    omega
  obtain ⟨ring₁, -⟩ := ring.put (data.take kBufferLength) (by omega)
  have hfull : ((s.put (data.take kBufferLength)).heap s.writeHead).writePos = kBufferLength := by
    rw [s.put_heap_last]
    show (s.heap s.writeHead).writePos + _ = _
    omega
  have ring₂ := ring₁.extend hfull
  set s₂ := (s.put (data.take kBufferLength)).extend with hs₂
  have hnew : s₂.heap s₂.writeHead = .new _ := Bio.extend_heap_new ring₁.writeHead_lt
  have hlast : writeRound ⟨s₂, data.drop kBufferLength⟩ =
      .next ⟨s₂.put (data.drop kBufferLength), []⟩ := by
    refine writeRound_last (List.ne_nil_of_length_pos (by omega)) ?_
    rw [hnew]
    show 0 + _ ≤ _
    omega
  have hwrites : Writes s data (s₂.put (data.drop kBufferLength)) :=
    .next (writeRound_more (by omega) (by omega)) (.next hlast (.exit writeRound_nil))
  obtain ⟨s₃, hwrites', hholds⟩ := hs.writes data
  obtain rfl := hwrites.unique hwrites'
  obtain ⟨s₄, hreads, hholds'⟩ := hholds.reads false (kBufferLength + 1)
  have hcount : (s₂.put (data.drop kBufferLength)).buffers = s.buffers + 1 := by
    have halong : Along s₂ (s₂.put (data.drop kBufferLength)) := ⟨s₂.put_next _, 0, rfl⟩
    have hpos₂ : 0 < s₂.buffers := by
      rw [ring₂.buffers]
      exact Nat.succ_pos _
    rw [halong.buffers hpos₂, ring₂.buffers, ring.buffers]
    simp [Nat.add_comm]
  refine ⟨_, s₄, .cons (.write (hdata ▸ hwrites)) (.cons (.read hreads) .nil), ?_, ?_⟩
  · rwa [List.nil_append, List.drop_of_length_le hlen.le] at hholds'
  · rw [hreads.along.buffers hholds.buffers_pos, hcount]

lemma Runs.append {ops ops' : List Op} {res res' : List Res} {s₁ s₂ s₃ : Bio}
    (h : Runs s₁ ops res s₂) (h' : Runs s₂ ops' res' s₃) :
    Runs s₁ (ops ++ ops') (res ++ res') s₃ := by
  induction h with
  | nil => exact h'
  | cons first _ ih => exact .cons first (ih h')

/-- And so on. -/
lemma cycles_grow (hs : Holds s []) (n : ℕ) : ∃ res s', Runs s (cycles n) res s' ∧
    s'.buffers = s.buffers + n := by
  induction n generalizing s with
  | zero => exact ⟨[], s, .nil, rfl⟩
  | succ n ih =>
    obtain ⟨res₁, s₁, hruns₁, hs₁, hcount₁⟩ := cycle_grows hs
    obtain ⟨res₂, s₂, hruns₂, hcount₂⟩ := ih hs₁
    exact ⟨_, s₂, hruns₁.append hruns₂, by omega⟩

/-- All the time there are no more bytes than one cycle has. -/
lemma cycles_length (n : ℕ) {pre : List Op} (hpre : pre <+: cycles n) :
    (specRun [] pre).2.length ≤ kBufferLength + 1 := by
  induction n generalizing pre with
  | zero =>
    rw [List.prefix_nil.mp hpre]
    exact Nat.zero_le _
  | succ n ih =>
    rcases pre with _ | ⟨op, pre⟩
    · exact Nat.zero_le _
    · obtain ⟨rfl, hrest⟩ := List.cons_prefix_cons.mp hpre
      rcases pre with _ | ⟨op, pre⟩
      · simp [specRun, Op.spec]
      · have hsecond : op :: pre <+: .read false (kBufferLength + 1) :: cycles n := hrest
        obtain ⟨rfl, hcycles⟩ := List.cons_prefix_cons.mp hsecond
        have hread : (([] : Bytes) ++ List.replicate (kBufferLength + 1) 0).drop
            (kBufferLength + 1) = [] := by
          simp
        show (specRun ((([] : Bytes) ++ List.replicate (kBufferLength + 1) 0).drop
          (kBufferLength + 1)) pre).2.length ≤ _
        rw [hread]
        exact ih hcycles

lemma cycles_plain (n : ℕ) : ∀ op ∈ cycles n, op.Plain := by
  induction n with
  | zero => exact fun op hop => absurd hop List.not_mem_nil
  | succ n ih =>
    intro op hop
    obtain hop | hop := List.mem_append.mp hop
    · simp only [cycle, List.mem_cons, List.not_mem_nil, or_false] at hop
      obtain rfl | rfl := hop
      · trivial
      · trivial
    · exact ih op hop

/-- Four cycles, with no more than a buffer and a byte at a time: five buffers. -/
theorem buffers_grow : ¬ ∀ (ops : List Op) (L : ℕ), (∀ op ∈ ops, op.Plain) →
    (∀ pre res s, pre <+: ops → Runs .new pre res s → s.length ≤ L) →
    ∀ pre res s, pre <+: ops → Runs .new pre res s →
      s.buffers ≤ (L + kBufferLength - 1) / kBufferLength + 2 := by
  intro hall
  obtain ⟨res, s, hruns, hcount⟩ := cycles_grow holds_new 4
  have hlength (pre : List Op) (res : List Res) (s : Bio) (hpre : pre <+: cycles 4)
      (hruns : Runs .new pre res s) : s.length ≤ kBufferLength + 1 := by
    obtain ⟨-, hholds⟩ := holds_new.runs hruns
    rw [hholds.1]
    exact cycles_length 4 hpre
  have hle := hall (cycles 4) (kBufferLength + 1) (cycles_plain 4) hlength _ _ _
    (List.prefix_refl _) hruns
  have hceil : (kBufferLength + 1 + kBufferLength - 1) / kBufferLength = 2 := by
    have hsum : kBufferLength + 1 + kBufferLength - 1 = 2 * kBufferLength := by omega
    rw [hsum, Nat.mul_div_cancel _ kBufferLength_pos]
  rw [hceil, hcount, buffers_new] at hle
  omega

end NodeCore.NodeBio
