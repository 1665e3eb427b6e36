import NodeCore.WritableCalls
import NodeCore.WritableFinish

/-!
What a stream counts: the length that is to be written, and the callbacks that are to be called.
-/

namespace NodeCore.WritableCalls

open NodeCore.Encoding NodeCore.Reentrant NodeCore.Writable NodeCore.WritableBooks
  NodeCore.WritableClear NodeCore.WritableFinish

/-! ### Callbacks that are held -/

/-- The number of callbacks that a callback calls. -/
def cbSize : Cb → ℕ
  | .user => 1
  | .writev more => more + 1

/-- The callback of `clearBuffer`, which is counted as well. -/
def cbBatch : Cb → ℕ
  | .user => 0
  | .writev _ => 1

def frameSize : Frame → Option ℕ
  | .onwrite _ _ cb | .afterDrain cb => some (cbSize cb)
  | .writevCbs n => some n
  | _ => none

def frameBatch : Frame → ℕ
  | .onwrite _ _ cb | .afterDrain cb => cbBatch cb
  | _ => 0

def tickSize : Tick → Option ℕ
  | .afterWrite _ cb => some (cbSize cb)
  | _ => none

def tickBatch : Tick → ℕ
  | .afterWrite _ cb => cbBatch cb
  | _ => 0

/-- The calls of `_writev` whose own callback is to be called. -/
def batches (s : State) (k : List Frame) : ℕ :=
  s.writecb.elim 0 cbBatch + (s.ticks.map tickBatch).sum + (k.map frameBatch).sum

lemma frameBatch_of_size {f : Frame} (h : frameSize f = none) : frameBatch f = 0 := by
  cases f <;> first | rfl | cases h

/-- A frame of a function that calls no callback and does not finish the stream. -/
structure Plain (f : Frame) : Prop where
  size : frameSize f = none
  clear : isClear f = false
  notEnd : ∀ cb, f ≠ .endUncorked cb
  notFinish : f ≠ .finish
  notCb : f ≠ .afterCb

lemma plain_of_quiet {f : Frame} (hf : quiet f = true) (hc : isClear f = false) : Plain f := by
  refine ⟨?_, hc, fun cb heq => ?_, fun heq => ?_, fun heq => ?_⟩
  · cases f <;> first | rfl | cases hf
  all_goals
    rw [heq] at hf
    cases hf

/-! ### The accounts -/

variable (cfg : Config)

/-- Each accepted chunk is left, pending or completed, and the callback of each that is completed
is held or has been called. -/
structure Tokens (t : Tracked) (k : List Frame) (left : List WriteReq) : Prop where
  handed : t.completed <+: t.st.handed
  order : ∀ i, t.st.handed.count i + (left.map WriteReq.id).count i =
    (List.range t.st.accepted).count i
  held : ∀ i, t.called.count i + t.waiting.flatten.count i + t.inHand.flatten.count i =
    t.completed.count i
  ticks : t.waiting.map List.length = t.st.ticks.filterMap tickSize
  frames : t.inHand.map List.length = k.filterMap frameSize
  noError : ∀ cb, .onwriteError cb ∉ t.st.ticks

/-- The counters are right. -/
structure Counts (t : Tracked) (k : List Frame) (left : List WriteReq) : Prop where
  busy : t.st.writing = true → t.st.outstanding = 1 ∧
    ∃ cb, t.st.writecb = some cb ∧ t.pending.length = cbSize cb
  idle : t.st.writing = false → t.st.outstanding = 0 ∧ t.st.writecb = none ∧
    t.st.writelen = 0 ∧ t.pending = []
  pendingcb : t.st.pendingcb = t.pending.length + left.length + t.waiting.flatten.length +
    t.inHand.flatten.length + batches t.st k
  writelen : t.st.writelen = (t.pending.map t.lens).sum
  lens : ∀ e ∈ left, t.lens e.id = reqLen cfg e
  length : t.st.length = t.st.writelen + lenSum cfg left

/-- `'finish'` is emitted once, with nothing left to be written or called. -/
structure Closes (t : Tracked) (k : List Frame) : Prop where
  ended : t.st.ending = true ∨ (∃ cb, .endUncorked cb ∈ k) → t.st.endCalled = true
  closing : .finish ∈ k → t.st.ending = true ∧ t.st.finished = false ∧ t.st.pendingcb = 0
  /-- Nobody calls `finishMaybe` while it emits `'prefinish'` for the last time. -/
  apart : k.Pairwise fun f g => f = .afterCb ∨ f = .finish → g ≠ .finish
  once : t.finishes = [] ∨ t.st.finished = true ∧ t.finishes.length = 1
  settled : ∀ f ∈ t.finishes, f.endCalled = true ∧ f.completed.Perm (List.range f.accepted) ∧
    f.called.Perm (List.range f.accepted)

/-- The accounts are right. -/
def Tallied (t : Tracked) (k : List Frame) : Prop :=
  ∃ left, Phase t.st k left ∧ Tokens t k left ∧ Counts cfg t k left ∧ Closes t k

/-! ### Frames and fields that do not count -/

/-- The states differ in fields that no account is about. -/
def Alike (s s' : State) : Prop :=
  s' = { s with
    needDrain := s'.needDrain
    ended := s'.ended
    corked := s'.corked
    sync := s'.sync
    bufferProcessing := s'.bufferProcessing
    buffer := s'.buffer
    prefinished := s'.prefinished
    drains := s'.drains
    owed := s'.owed }

section Accounts

variable {cfg} {t : Tracked} {s : State} {k l : List Frame} {left : List WriteReq} {f : Frame}

lemma Tokens.congr (h : Tokens t k left) (hs : Alike t.st s) :
    Tokens { t with st := s } k left := by
  rw [hs]
  exact ⟨h.handed, h.order, h.held, h.ticks, h.frames, h.noError⟩

lemma Counts.congr (h : Counts cfg t k left) (hs : Alike t.st s) :
    Counts cfg { t with st := s } k left := by
  rw [hs]
  exact ⟨h.busy, h.idle, h.pendingcb, h.writelen, h.lens, h.length⟩

lemma Closes.congr (h : Closes t k) (hs : Alike t.st s) : Closes { t with st := s } k := by
  rw [hs]
  exact ⟨h.ended, h.closing, h.apart, h.once, h.settled⟩

lemma Tokens.push (h : Tokens t k left) (hf : frameSize f = none) : Tokens t (f :: k) left := by
  refine ⟨h.handed, h.order, h.held, h.ticks, ?_, h.noError⟩
  rw [List.filterMap_cons_none hf]
  exact h.frames

lemma Tokens.pop (h : Tokens t (f :: k) left) (hf : frameSize f = none) : Tokens t k left := by
  refine ⟨h.handed, h.order, h.held, h.ticks, ?_, h.noError⟩
  have hframes := h.frames
  rwa [List.filterMap_cons_none hf] at hframes

lemma batches_cons (f : Frame) : batches s (f :: k) = batches s k + frameBatch f := by
  unfold batches
  rw [List.map_cons, List.sum_cons]
  omega

lemma Counts.restack (h : Counts cfg t k left) (hl : batches t.st l = batches t.st k) :
    Counts cfg t l left := by
  refine ⟨h.busy, h.idle, ?_, h.writelen, h.lens, h.length⟩
  rw [hl]
  exact h.pendingcb

lemma Counts.push (h : Counts cfg t k left) (hf : frameBatch f = 0) :
    Counts cfg t (f :: k) left :=
  h.restack (by rw [batches_cons, hf, Nat.add_zero])

lemma Counts.pop (h : Counts cfg t (f :: k) left) (hf : frameBatch f = 0) :
    Counts cfg t k left :=
  h.restack (by rw [batches_cons, hf, Nat.add_zero])

lemma Closes.push (h : Closes t k) (hend : ∀ cb, f ≠ .endUncorked cb) (hfinish : f ≠ .finish)
    (hcb : f = .afterCb → .finish ∉ k) : Closes t (f :: k) := by
  have hended : (∃ cb, Frame.endUncorked cb ∈ f :: k) → ∃ cb, Frame.endUncorked cb ∈ k := by
    rintro ⟨cb, hm⟩
    exact ⟨cb, (List.mem_cons.mp hm).resolve_left fun heq => hend cb heq.symm⟩
  refine ⟨fun he => h.ended (he.imp_right hended), fun hm => h.closing ?_,
    List.pairwise_cons.mpr ⟨?_, h.apart⟩, h.once, h.settled⟩
  · exact (List.mem_cons.mp hm).resolve_left fun heq => hfinish heq.symm
  · rintro g hg hf rfl
    exact hcb (hf.resolve_right hfinish) hg

/-- The frames of `end` and of `finishMaybe`. -/
def isClosing : Frame → Bool
  | .endUncorked _ | .finish | .afterCb => true
  | _ => false

lemma Closes.push_other (h : Closes t k) (hf : isClosing f = false) : Closes t (f :: k) := by
  refine h.push (fun cb he => ?_) (fun he => ?_) (fun he => ?_)
  all_goals
    rw [he] at hf
    cases hf

lemma Closes.pop (h : Closes t (f :: k)) : Closes t k :=
  ⟨fun he => h.ended (he.imp_right fun ⟨cb, hm⟩ => ⟨cb, List.mem_cons_of_mem f hm⟩),
    fun hm => h.closing (List.mem_cons_of_mem f hm), (List.pairwise_cons.mp h.apart).2, h.once,
    h.settled⟩

lemma Tallied.congr (h : Tallied cfg t k) (hs : Alike t.st s) (hbuf : s.buffer = t.st.buffer)
    (hproc : s.bufferProcessing = t.st.bufferProcessing) : Tallied cfg { t with st := s } k := by
  obtain ⟨left, hp, ht, hc, hcl⟩ := h
  exact ⟨left, hp.congr hbuf hproc rfl, ht.congr hs, hc.congr hs, hcl.congr hs⟩

lemma Tallied.push (h : Tallied cfg t k) (hf : Plain f) : Tallied cfg t (f :: k) := by
  obtain ⟨left, hp, ht, hc, hcl⟩ := h
  exact ⟨left, hp.push hf.clear, ht.push hf.size, hc.push (frameBatch_of_size hf.size),
    hcl.push hf.notEnd hf.notFinish fun heq => absurd heq hf.notCb⟩

lemma Tallied.pop (h : Tallied cfg t (f :: k)) (hf : frameSize f = none)
    (hclear : isClear f = false) : Tallied cfg t k := by
  obtain ⟨left, hp, ht, hc, hcl⟩ := h
  exact ⟨left, hp.pop hclear, ht.pop hf, hc.pop (frameBatch_of_size hf), hcl.pop⟩

/-! ### Finishing -/

lemma Tokens.handed_eq (h : Tokens t k left) : t.st.handed = t.completed ++ t.pending :=
  (List.prefix_iff_eq_append.mp h.handed).symm

/-- With no callback to come, everything has been written and called. -/
lemma Tokens.done (h : Tokens t k left) (hc : Counts cfg t k left) (hzero : t.st.pendingcb = 0) :
    t.completed.Perm (List.range t.st.accepted) ∧ t.called.Perm (List.range t.st.accepted) := by
  have hcount := hc.pendingcb
  rw [hzero] at hcount
  have hpending : t.pending = [] := List.length_eq_zero_iff.mp (by omega)
  have hleft : left = [] := List.length_eq_zero_iff.mp (by omega)
  have hwaiting : t.waiting.flatten = [] := List.length_eq_zero_iff.mp (by omega)
  have hinHand : t.inHand.flatten = [] := List.length_eq_zero_iff.mp (by omega)
  have hcompleted : t.completed.Perm (List.range t.st.accepted) := by
    refine List.perm_iff_count.mpr fun i => ?_
    have horder := h.order i
    rw [h.handed_eq, hpending, hleft, List.append_nil] at horder
    simpa using horder
  refine ⟨hcompleted, List.Perm.trans (List.perm_iff_count.mpr fun i => ?_) hcompleted⟩
  have hheld := h.held i
  rw [hwaiting, hinHand] at hheld
  simpa using hheld

/-- `'finish'` is emitted for the first time. -/
lemma finish_tallied (hp : Phase t.st k left) (ht : Tokens t k left) (hc : Counts cfg t k left)
    (hcl : Closes t k) (hno : .finish ∉ k) (hend : t.st.ending = true)
    (hfin : t.st.finished = false) (hzero : t.st.pendingcb = 0) :
    t.finish.Keeps (Tallied cfg) k := by
  obtain ⟨hcompleted, hcalled⟩ := ht.done hc hzero
  have hnone : t.finishes = [] := hcl.once.resolve_right fun h => by
    rw [hfin] at h
    cases h.1
  refine ⟨left, hp.congr rfl rfl rfl, ⟨ht.handed, ht.order, ht.held, ht.ticks, ht.frames,
    ht.noError⟩, ⟨hc.busy, hc.idle, hc.pendingcb, hc.writelen, hc.lens, hc.length⟩,
    hcl.ended, fun hm => absurd hm hno, hcl.apart, .inr ⟨rfl, ?_⟩, fun f hf => ?_⟩
  · show (t.finishes ++ [_]).length = 1
    rw [hnone]
    rfl
  · have hf : f ∈ t.finishes ++ [⟨t.st.endCalled, t.st.accepted, t.completed, t.called⟩] := hf
    rw [hnone, List.nil_append, List.mem_singleton] at hf
    rw [hf]
    exact ⟨hcl.ended (.inl hend), hcompleted, hcalled⟩

lemma finishMaybe_tallied (h : Tallied cfg t k) (hno : .finish ∉ k) :
    t.finishMaybe.Keeps (Tallied cfg) k := by
  obtain ⟨left, hp, ht, hc, hcl⟩ := h
  have hpre : Alike t.st { t.st with prefinished := true } := rfl
  unfold Tracked.finishMaybe
  split_ifs with hneed hzero
  · obtain ⟨hend, hfin⟩ : t.st.ending = true ∧ t.st.finished = false := by
      simp only [needFinish, Bool.and_eq_true] at hneed
      exact ⟨hneed.1.1.1, by simpa using hneed.1.2⟩
    rcases prefinish_cases t.st with hr | hr
    · rw [hr]
      exact finish_tallied hp ht hc hcl hno hend hfin hzero
    · rw [hr]
      have hcl' := hcl.congr hpre
      have hclosing : Closes { t with st := { t.st with prefinished := true } } (.finish :: k) := by
        refine ⟨fun _ => hcl.ended (.inl hend), fun _ => ⟨hend, hfin, hzero⟩,
          List.pairwise_cons.mpr ⟨?_, hcl.apart⟩, hcl.once, hcl.settled⟩
        rintro g hg - rfl
        exact hno hg
      have hp' : Phase { t.st with prefinished := true } (.finish :: k) left :=
        hp.congr rfl rfl (clears_cons_of rfl k)
      exact ⟨left, hp', (ht.congr hpre).push rfl, (hc.congr hpre).push rfl, hclosing⟩
  · rcases prefinish_cases t.st with hr | hr
    · rw [hr]
      exact ⟨left, hp, ht, hc, hcl⟩
    · rw [hr]
      exact ⟨left, hp.congr rfl rfl rfl, ht.congr hpre, hc.congr hpre, hcl.congr hpre⟩
  · exact ⟨left, hp, ht, hc, hcl⟩

/-! ### Callbacks -/

/-- The callbacks of the topmost frame. -/
lemma Tokens.top {n : ℕ} (h : Tokens t (f :: k) left) (hf : frameSize f = some n) :
    t.inHand = t.top :: t.inHand.tail ∧ t.top.length = n ∧
      t.inHand.tail.map List.length = k.filterMap frameSize := by
  have hframes := h.frames
  rw [List.filterMap_cons_some hf] at hframes
  obtain ⟨ids, rest, hin, hlen, hrest⟩ := List.map_eq_cons_iff.mp hframes
  unfold Tracked.top
  rw [hin]
  exact ⟨rfl, hlen, hrest⟩

/-- While a callback is to come, the stream does not finish. -/
lemma Closes.open (h : Closes t k) (hne : t.st.pendingcb ≠ 0) : .finish ∉ k :=
  fun hm => hne (h.closing hm).2.2

/-- Callbacks are called, or go over to other frames. -/
lemma Tallied.swap {g : List Frame} {p : ℤ} {called : List ℕ} {inHand : List (List ℕ)}
    (h : Tallied cfg t (f :: k)) (hno : .finish ∉ f :: k)
    (hcalls : ∀ i, called.count i + inHand.flatten.count i =
      t.called.count i + t.inHand.flatten.count i)
    (hframes : inHand.map List.length = (g ++ k).filterMap frameSize)
    (hpend : p + t.inHand.flatten.length + frameBatch f =
      t.st.pendingcb + inHand.flatten.length + (g.map frameBatch).sum)
    (hclear : isClear f = false)
    (hg : ∀ x ∈ g, isClear x = false ∧ x ≠ .finish ∧ ∀ cb, x ≠ .endUncorked cb) :
    Tallied cfg { t with
      st := { t.st with pendingcb := p }
      called := called
      inHand := inHand } (g ++ k) := by
  obtain ⟨left, hp, ht, hc, hcl⟩ := h
  have hclears : clears (g ++ k) = clears (f :: k) := by
    rw [clears_append, clears_cons_of hclear]
    have hnil : clears g = [] := List.filter_eq_nil_iff.mpr fun x hx => by simp [(hg x hx).1]
    rw [hnil, List.nil_append]
  have hnone : .finish ∉ g ++ k := fun hm => (List.mem_append.mp hm).elim
    (fun hm => (hg _ hm).2.1 rfl) fun hm => hno (List.mem_cons_of_mem f hm)
  refine ⟨left, hp.congr rfl rfl hclears, ⟨ht.handed, ht.order, fun i => ?_, ht.ticks, hframes,
    ht.noError⟩, ⟨hc.busy, hc.idle, ?_, hc.writelen, hc.lens, hc.length⟩,
    ⟨fun he => ?_, fun hm => absurd hm hnone, ?_, hcl.once, hcl.settled⟩⟩
  · have hheld := ht.held i
    have hcall := hcalls i
    show called.count i + t.waiting.flatten.count i + inHand.flatten.count i = t.completed.count i
    omega
  · have hcount := hc.pendingcb
    rw [batches_cons] at hcount
    have hbatches : batches { t.st with pendingcb := p } (g ++ k) =
        batches t.st k + (g.map frameBatch).sum := by
      simp only [batches, List.map_append, List.sum_append]
      omega
    rw [hbatches]
    show p = (t.pending.length : ℤ) + left.length + t.waiting.flatten.length +
      inHand.flatten.length + (batches t.st k + (g.map frameBatch).sum : ℕ)
    push_cast at hcount hpend ⊢
    omega
  · refine hcl.ended (he.imp_right fun ⟨cb, hm⟩ => ⟨cb, List.mem_cons_of_mem f ?_⟩)
    exact (List.mem_append.mp hm).resolve_left fun hm => (hg _ hm).2.2 cb rfl
  · refine List.pairwise_of_forall_mem_list fun x _ y hy _ heq => hnone ?_
    rw [← heq]
    exact hy

/-- A frame that has a callback to call. -/
lemma Tallied.open {n : ℕ} (h : Tallied cfg t (f :: k)) (hf : frameSize f = some (n + 1)) :
    .finish ∉ f :: k := by
  obtain ⟨left, hp, ht, hc, hcl⟩ := h
  obtain ⟨hin, hlen, -⟩ := ht.top hf
  refine hcl.open fun hzero => ?_
  have hcount := hc.pendingcb
  rw [hzero, hin, List.flatten_cons, List.length_append, hlen] at hcount
  omega

/-- The first callback of the topmost frame is called, and another frame keeps the others. -/
lemma Tallied.callFirst {n : ℕ} {g : List Frame} {p : ℤ} (h : Tallied cfg t (f :: k))
    (hf : frameSize f = some (n + 1)) (hclear : isClear f = false)
    (hg : ∀ x ∈ .writevCbs n :: g, isClear x = false ∧ x ≠ .finish ∧ ∀ cb, x ≠ .endUncorked cb)
    (hnone : g.filterMap frameSize = [])
    (hpend : p + 1 + frameBatch f = t.st.pendingcb + (g.map frameBatch).sum) :
    Tallied cfg { t with
      st := { t.st with pendingcb := p }
      called := t.called ++ t.top.take 1
      inHand := t.top.drop 1 :: t.inHand.tail } (.writevCbs n :: g ++ k) := by
  obtain ⟨left, hp, ht, hc, hcl⟩ := id h
  obtain ⟨hin, hlen, hrest⟩ := ht.top hf
  refine h.swap (h.open hf) (fun i => ?_) ?_ ?_ hclear hg
  · have hsplit := congrArg (List.count i) (List.take_append_drop 1 t.top)
    rw [List.count_append] at hsplit
    rw [hin]
    simp only [List.count_append, List.flatten_cons, List.tail_cons]
    omega
  · have hsize : frameSize (.writevCbs n) = some n := rfl
    rw [List.map_cons, hrest, List.length_drop, hlen, List.filterMap_append,
      List.filterMap_cons_some hsize, hnone]
    rfl
  · have hflat := congrArg (fun l : List (List ℕ) => l.flatten.length) hin
    have hzero : frameBatch (.writevCbs n) = 0 := rfl
    rw [List.map_cons, List.sum_cons, hzero, Nat.zero_add]
    simp only [List.flatten_cons, List.length_append, List.length_drop, hlen] at hflat ⊢
    omega

lemma afterDrain_tallied {cb : Cb} (h : Tallied cfg t (.afterDrain cb :: k)) :
    (t.afterDrain cb).Keeps (Tallied cfg) k := by
  cases cb with
  | user =>
    obtain ⟨left, hp, ht, hc, hcl⟩ := id h
    obtain ⟨hin, hlen, hrest⟩ := ht.top (n := 1) rfl
    have hcalled : Tallied cfg { t with
        st := { t.st with pendingcb := t.st.pendingcb - 1 }
        called := t.called ++ t.top
        inHand := t.inHand.tail } ([.afterCb] ++ k) := by
      refine h.swap (h.open rfl) (fun i => ?_) ?_ ?_ rfl (by simp [isClear])
      · have hflat := congrArg (fun l : List (List ℕ) => l.flatten.count i) hin
        simp only [List.flatten_cons, List.count_append] at hflat ⊢
        omega
      · rw [hrest]
        rfl
      · have hflat := congrArg (fun l : List (List ℕ) => l.flatten.length) hin
        simp only [List.flatten_cons, List.length_append, hlen, frameBatch, cbBatch, List.map_cons,
          List.map_nil, List.sum_cons, List.sum_nil] at hflat ⊢
        push_cast
        omega
    exact hcalled
  | writev more =>
    have hcalled : Tallied cfg { t with
        st := { t.st with pendingcb := t.st.pendingcb - 1 - 1 }
        called := t.called ++ t.top.take 1
        inHand := t.top.drop 1 :: t.inHand.tail } (.writevCbs more :: [.afterCb] ++ k) := by
      refine h.callFirst rfl rfl (by simp [isClear]) rfl ?_
      simp only [frameBatch, cbBatch, List.map_cons, List.map_nil, List.sum_cons, List.sum_nil]
      push_cast
      omega
    exact hcalled

lemma writevCbs_tallied {n : ℕ} (h : Tallied cfg t (.writevCbs n :: k)) :
    (t.writevCbs n).Keeps (Tallied cfg) k := by
  cases n with
  | zero =>
    obtain ⟨left, hp, ht, hc, hcl⟩ := h
    obtain ⟨hin, hlen, hrest⟩ := ht.top (n := 0) rfl
    have hflat : t.inHand.tail.flatten = t.inHand.flatten := by
      rw [hin, List.length_eq_zero_iff.mp hlen]
      rfl
    refine ⟨left, hp.pop rfl, ⟨ht.handed, ht.order, fun i => ?_, ht.ticks, hrest, ht.noError⟩,
      ⟨hc.busy, hc.idle, ?_, hc.writelen, hc.lens, hc.length⟩, hcl.pop.ended, hcl.pop.closing,
      hcl.pop.apart, hcl.once, hcl.settled⟩
    · show _ + t.inHand.tail.flatten.count i = _
      rw [hflat]
      exact ht.held i
    · show _ = (_ : ℤ) + t.inHand.tail.flatten.length + _
      rw [hflat]
      exact (hc.pop rfl).pendingcb
  | succ n =>
    have hcalled : Tallied cfg { t with
        st := { t.st with pendingcb := t.st.pendingcb - 1 }
        called := t.called ++ t.top.take 1
        inHand := t.top.drop 1 :: t.inHand.tail } (.writevCbs n :: [] ++ k) := by
      refine h.callFirst rfl rfl (by simp [isClear]) rfl ?_
      simp only [frameBatch, List.map_nil, List.sum_nil]
      push_cast
      omega
    exact hcalled

lemma afterCb_tallied (h : Tallied cfg t (.afterCb :: k)) :
    t.finishMaybe.Keeps (Tallied cfg) k := by
  obtain ⟨-, -, -, -, hcl⟩ := id h
  refine finishMaybe_tallied (h.pop rfl rfl) fun hm => ?_
  exact (List.pairwise_cons.mp hcl.apart).1 _ hm (.inl rfl) rfl

/-! ### Completions -/

lemma afterWrite_tallied {finished : Bool} {cb : Cb} (h : Tallied cfg t (.afterDrain cb :: k)) :
    (t.afterWrite finished cb).Keeps (Tallied cfg) k := by
  unfold Tracked.afterWrite onwriteDrain
  split_ifs
  · exact h.congr rfl rfl rfl
  · exact afterDrain_tallied h
  · exact afterDrain_tallied h

lemma onwriteAfter_tallied {sync finished : Bool} {cb : Cb}
    (h : Tallied cfg t (.onwrite sync finished cb :: k)) :
    (t.onwriteAfter sync finished cb).Keeps (Tallied cfg) k := by
  obtain ⟨left, hp, ht, hc, hcl⟩ := h
  unfold Tracked.onwriteAfter
  split_ifs
  · -- the tick takes the callbacks over
    obtain ⟨hin, hlen, hrest⟩ := ht.top (n := cbSize cb) rfl
    refine ⟨left, (hp.pop rfl).congr rfl rfl rfl, ⟨ht.handed, ht.order, fun i => ?_, ?_, hrest,
      fun c hm => ht.noError c (by simpa using hm)⟩,
      ⟨hc.busy, hc.idle, ?_, hc.writelen, hc.lens, hc.length⟩, hcl.pop.ended, hcl.pop.closing,
      hcl.pop.apart, hcl.once, hcl.settled⟩
    · have hheld := ht.held i
      have hflat := congrArg (fun l : List (List ℕ) => l.flatten.count i) hin
      show t.called.count i + (t.waiting ++ [t.top]).flatten.count i +
        t.inHand.tail.flatten.count i = t.completed.count i
      simp only [List.flatten_append, List.flatten_cons, List.flatten_nil, List.count_append,
        List.append_nil] at hflat ⊢
      omega
    · show (t.waiting ++ [t.top]).map List.length = (t.st.ticks ++ [_]).filterMap tickSize
      rw [List.map_append, List.filterMap_append, ht.ticks]
      simp [tickSize, hlen]
    · have hcount := hc.pendingcb
      have hflat := congrArg (fun l : List (List ℕ) => l.flatten.length) hin
      rw [batches_cons] at hcount
      show t.st.pendingcb = (t.pending.length : ℤ) + left.length +
        (t.waiting ++ [t.top]).flatten.length + t.inHand.tail.flatten.length +
        batches { t.st with ticks := t.st.ticks ++ [.afterWrite finished cb] } k
      have hbatches : batches { t.st with ticks := t.st.ticks ++ [.afterWrite finished cb] } k =
          batches t.st k + cbBatch cb := by
        simp only [batches, List.map_append, List.sum_append, List.map_cons, List.map_nil,
          List.sum_cons, List.sum_nil, tickBatch]
        omega
      rw [hbatches]
      simp only [List.flatten_append, List.flatten_cons, List.flatten_nil, List.length_append,
        List.append_nil, frameBatch] at hcount hflat ⊢
      push_cast at hcount ⊢
      omega
  · have hframes := ht.frames
    exact afterWrite_tallied ⟨left, (hp.pop rfl).push rfl,
      ⟨ht.handed, ht.order, ht.held, ht.ticks, hframes, ht.noError⟩, hc.restack rfl,
      hcl.pop.push_other rfl⟩

/-! ### Ticks -/

/-- A tick that runs a callback of the user alone. -/
lemma Tallied.tickUser (h : Tallied cfg t k) :
    Tallied cfg { t with st := { t.st with ticks := t.st.ticks ++ [.user] } } k := by
  obtain ⟨left, hp, ht, hc, hcl⟩ := h
  refine ⟨left, hp.congr rfl rfl rfl, ⟨ht.handed, ht.order, ht.held, ?_, ht.frames,
    fun cb hm => ht.noError cb (by simpa using hm)⟩, ⟨hc.busy, hc.idle, ?_, hc.writelen, hc.lens,
    hc.length⟩, hcl.ended, hcl.closing, hcl.apart, hcl.once, hcl.settled⟩
  · show _ = (t.st.ticks ++ [Tick.user]).filterMap tickSize
    rw [List.filterMap_append, ← ht.ticks]
    simp [tickSize]
  · have hbatches : batches { t.st with ticks := t.st.ticks ++ [.user] } k = batches t.st k := by
      simp [batches, tickBatch]
    rw [hbatches]
    exact hc.pendingcb

lemma endWritableDone_tallied (h : Tallied cfg t k) (cb : Bool) :
    (t.on (endWritableDone cb t.st)).Keeps (Tallied cfg) k := by
  unfold endWritableDone
  split_ifs
  · exact h.tickUser.congr rfl rfl rfl
  · exact h.congr rfl rfl rfl

lemma runTick_tallied {tick : Tick} {ticks : List Tick} (h : Tallied cfg t k)
    (hticks : t.st.ticks = tick :: ticks) :
    ({ t with st := { t.st with ticks := ticks } }.runTick tick).Keeps (Tallied cfg) k := by
  obtain ⟨left, hp, ht, hc, hcl⟩ := h
  have hno : ∀ cb, .onwriteError cb ∉ ticks := fun cb hm =>
    ht.noError cb (by rw [hticks]; exact List.mem_cons_of_mem tick hm)
  have hbatches : batches t.st k =
      tickBatch tick + batches { t.st with ticks := ticks } k := by
    simp only [batches, hticks, List.map_cons, List.sum_cons]
    omega
  have hcount := hc.pendingcb
  rw [hbatches] at hcount
  have hsizes := ht.ticks
  rw [hticks] at hsizes
  cases tick with
  | afterWrite finished cb =>
    have hcons : (Tick.afterWrite finished cb :: ticks).filterMap tickSize =
        cbSize cb :: ticks.filterMap tickSize := rfl
    rw [hcons] at hsizes
    obtain ⟨ids, rest, hwaiting, hlen, hrest⟩ := List.map_eq_cons_iff.mp hsizes
    have hhead : t.waiting.headD [] = ids := by
      rw [hwaiting]
      rfl
    have htail : t.waiting.tail = rest := by
      rw [hwaiting]
      rfl
    have hcl' : Closes t (.afterDrain cb :: k) := hcl.push_other rfl
    have hheld : Tallied cfg { t with
        st := { t.st with ticks := ticks }
        waiting := t.waiting.tail
        inHand := t.waiting.headD [] :: t.inHand } (.afterDrain cb :: k) := by
      refine ⟨left, (hp.push (f := .afterDrain cb) rfl).congr rfl rfl rfl, ⟨ht.handed, ht.order,
        fun i => ?_, ?_, ?_, hno⟩, ⟨hc.busy, hc.idle, ?_, hc.writelen, hc.lens, hc.length⟩,
        hcl'.ended, hcl'.closing, hcl'.apart, hcl.once, hcl.settled⟩
      · have hheld := ht.held i
        rw [hwaiting] at hheld
        show t.called.count i + t.waiting.tail.flatten.count i +
          (t.waiting.headD [] :: t.inHand).flatten.count i = t.completed.count i
        rw [hhead, htail]
        simp only [List.flatten_cons, List.count_append] at hheld ⊢
        omega
      · show t.waiting.tail.map List.length = _
        rw [htail]
        exact hrest
      · show (t.waiting.headD [] :: t.inHand).map List.length = _
        rw [hhead, List.map_cons, hlen, ht.frames]
        rfl
      · rw [hwaiting] at hcount
        show t.st.pendingcb = (t.pending.length : ℤ) + left.length +
          t.waiting.tail.flatten.length + (t.waiting.headD [] :: t.inHand).flatten.length +
          batches { t.st with ticks := ticks } (.afterDrain cb :: k)
        rw [hhead, htail, batches_cons]
        simp only [List.flatten_cons, List.length_append, tickBatch, frameBatch] at hcount ⊢
        push_cast at hcount ⊢
        omega
    exact afterWrite_tallied hheld
  | onwriteError cb => exact absurd (by rw [hticks]; exact List.mem_cons_self) (ht.noError cb)
  | user =>
    rw [List.filterMap_cons_none rfl] at hsizes
    have hrest : Tallied cfg { t with st := { t.st with ticks := ticks } } k := by
      refine ⟨left, hp.congr rfl rfl rfl, ⟨ht.handed, ht.order, ht.held, hsizes, ht.frames, hno⟩,
        ⟨hc.busy, hc.idle, ?_, hc.writelen, hc.lens, hc.length⟩, hcl.ended, hcl.closing,
        hcl.apart, hcl.once, hcl.settled⟩
      have hzero : tickBatch .user = 0 := rfl
      rw [hzero, Nat.zero_add] at hcount
      exact hcount
    exact hrest

/-! ### Handing over -/

/-- `_write` or `_writev` is called. -/
lemma Tokens.start {ids : List ℕ} {len : ℤ} {cb : Cb} {lens : ℕ → ℤ} {left' : List WriteReq}
    (h : Tokens t k left) (hhanded : s.handed = t.st.handed) (hticks : s.ticks = t.st.ticks)
    (horder : ∀ i, t.st.handed.count i + ids.count i + (left'.map WriteReq.id).count i =
      (List.range s.accepted).count i) :
    Tokens { t with st := s.startWrite ids len cb, lens := lens } k left' := by
  refine ⟨?_, fun i => ?_, h.held, ?_, h.frames, fun c hm => h.noError c (hticks ▸ hm)⟩
  · show t.completed <+: s.handed ++ ids
    rw [hhanded]
    exact h.handed.trans (List.prefix_append ..)
  · show (s.handed ++ ids).count i + _ = _
    rw [hhanded, List.count_append]
    exact horder i
  · show _ = s.ticks.filterMap tickSize
    rw [hticks]
    exact h.ticks

lemma Counts.start {ids : List ℕ} {len : ℤ} {cb : Cb} {lens : ℕ → ℤ} {left' : List WriteReq}
    (h : Counts cfg t k left) (ht : Tokens t k left) (hw : t.st.writing = false)
    (hhanded : s.handed = t.st.handed) (hticks : s.ticks = t.st.ticks)
    (hout : s.outstanding = t.st.outstanding) (hids : ids.length = cbSize cb)
    (hsum : len = (ids.map lens).sum) (hlens : ∀ e ∈ left', lens e.id = reqLen cfg e)
    (hp : s.pendingcb + left.length = t.st.pendingcb + ids.length + left'.length + cbBatch cb)
    (hl : s.length = len + lenSum cfg left') :
    Counts cfg { t with st := s.startWrite ids len cb, lens := lens } k left' := by
  obtain ⟨hnone, hcb, -, hpending⟩ := h.idle hw
  have hnew : Tracked.pending { t with st := s.startWrite ids len cb, lens := lens } = ids := by
    have hhand := ht.handed_eq
    rw [hpending, List.append_nil] at hhand
    show (s.handed ++ ids).drop t.completed.length = ids
    rw [hhanded, hhand, List.drop_left]
  refine ⟨fun _ => ⟨?_, cb, rfl, by rw [hnew, hids]⟩, (fun hf => by cases hf), ?_, ?_, hlens, hl⟩
  · show s.outstanding + 1 = 1
    rw [hout, hnone]
  · have hcount := h.pendingcb
    have hbatches : batches (s.startWrite ids len cb) k = cbBatch cb + batches t.st k := by
      simp only [batches, State.startWrite, hticks, hcb, Option.elim]
      omega
    rw [hpending] at hcount
    rw [hnew, hbatches]
    show s.pendingcb = (ids.length : ℤ) + left'.length + t.waiting.flatten.length +
      t.inHand.flatten.length + (cbBatch cb + batches t.st k : ℕ)
    rw [List.length_nil] at hcount
    push_cast at hcount ⊢
    omega
  · rw [hnew]
    exact hsum

/-- The stream is not finishing, and other fields change. -/
lemma Closes.free {lens : ℕ → ℤ} (h : Closes t k) (hno : .finish ∉ k)
    (hend : s.ending = t.st.ending) (hfin : s.finished = t.st.finished)
    (hcalled : s.endCalled = t.st.endCalled) : Closes { t with st := s, lens := lens } k := by
  refine ⟨fun he => ?_, fun hm => absurd hm hno, h.apart, ?_, h.settled⟩
  · show s.endCalled = true
    rw [hcalled]
    exact h.ended (he.imp_left fun he => hend ▸ he)
  · show t.finishes = [] ∨ s.finished = true ∧ t.finishes.length = 1
    rw [hfin]
    exact h.once

/-- What is left has a callback to come. -/
lemma Counts.ne_zero (h : Counts cfg t k left) (hleft : left ≠ []) : t.st.pendingcb ≠ 0 := by
  have hpos := List.length_pos_iff.mpr hleft
  have hcount := h.pendingcb
  omega

lemma hands_tallied {r : Result} (hh : Hands cfg t.st k left r) (ht : Tokens t k left)
    (hc : Counts cfg t k left) (hcl : Closes t k) (hw : t.st.writing = false) :
    (t.on r).Keeps (Tallied cfg) k := by
  cases hh with
  | @one e rest c hphase =>
    have hno := hcl.open (hc.ne_zero (List.cons_ne_nil e rest))
    have hlength := hc.length
    rw [(hc.idle hw).2.2.1, lenSum_cons] at hlength
    have ht' : Tokens { t with st := t.st.startWrite [e.id] (reqLen cfg e) .user } k rest := by
      refine ht.start rfl rfl fun i => ?_
      have horder := ht.order i
      rw [List.map_cons, ← List.singleton_append, List.count_append] at horder
      omega
    have hc' : Counts cfg { t with st := t.st.startWrite [e.id] (reqLen cfg e) .user } k rest := by
      refine hc.start ht hw rfl rfl rfl rfl ?_
        (fun x hx => hc.lens x (List.mem_cons_of_mem e hx)) ?_ (by omega)
      · have hlens := hc.lens e List.mem_cons_self
        simp [hlens]
      · simp only [List.length_cons, List.length_nil, cbBatch]
        push_cast
        omega
    have hcl' : Closes { t with st := t.st.startWrite [e.id] (reqLen cfg e) .user } k :=
      hcl.free hno rfl rfl rfl
    exact ⟨rest, hphase, (ht'.push (f := .clearLoop c) rfl).push (f := .doWrite) rfl,
      (hc'.push (f := .clearLoop c) rfl).push (f := .doWrite) rfl,
      (hcl'.push_other (f := .clearLoop c) rfl).push_other rfl⟩
  | none hphase => exact ⟨[], hphase, ht.congr rfl, hc.congr rfl, hcl.congr rfl⟩

lemma clearBuffer_tallied (hb : t.st.bufferProcessing = false) (hw : t.st.writing = false)
    (h : Tallied cfg t k) : (t.on (clearBuffer cfg t.st)).Keeps (Tallied cfg) k := by
  obtain ⟨left, hp, ht, hc, hcl⟩ := h
  rcases clearBuffer_spec cfg hb hp with ⟨hlt, hr, hfast⟩ | hhands
  · obtain ⟨rfl, -⟩ := hp.eq_buffer hb
    have hno := hcl.open (hc.ne_zero (List.ne_nil_of_length_pos (by omega)))
    have hlength := hc.length
    rw [(hc.idle hw).2.2.1, zero_add] at hlength
    have ht' : Tokens { t with st := fastState t.st } k [] :=
      ht.start rfl rfl fun i => by simpa using ht.order i
    have hc' : Counts cfg { t with st := fastState t.st } k [] := by
      refine hc.start ht hw rfl rfl rfl ?_ ?_ nofun ?_ ?_
      · rw [List.length_map, cbSize]
        omega
      · rw [hlength, lenSum, List.map_map]
        exact congrArg List.sum (List.map_congr_left fun e he => (hc.lens e he).symm)
      · simp only [List.length_map, List.length_nil, cbBatch]
        push_cast
        omega
      · show t.st.length = t.st.length + 0
        omega
    have hcl' : Closes { t with st := fastState t.st } k := hcl.free hno rfl rfl rfl
    rw [hr]
    exact ⟨[], hfast, (ht'.push (f := .clearFast) rfl).push (f := .doWrite) rfl,
      (hc'.push (f := .clearFast) rfl).push (f := .doWrite) rfl,
      (hcl'.push_other (f := .clearFast) rfl).push_other rfl⟩
  · exact hands_tallied (t := { t with st := { t.st with bufferProcessing := true } }) hhands
      (ht.congr rfl) (hc.congr rfl) (hcl.congr rfl) hw

lemma clearLoop_tallied {c : ℕ} (h : Tallied cfg t (.clearLoop c :: k)) :
    (t.on (clearLoop cfg t.st c)).Keeps (Tallied cfg) k := by
  obtain ⟨left, hp, ht, hc, hcl⟩ := h
  rcases clearLoop_spec cfg hp with ⟨hw, hr, hend⟩ | ⟨hw, hhands⟩
  · rw [hr]
    exact ⟨left, hend, (ht.pop rfl).congr rfl, (hc.pop rfl).congr rfl, hcl.pop.congr rfl⟩
  · exact hands_tallied hhands (ht.pop rfl) (hc.pop rfl) hcl.pop hw

lemma clearFast_tallied (h : Tallied cfg t (.clearFast :: k)) :
    (t.on (clearFast t.st)).Keeps (Tallied cfg) k := by
  obtain ⟨left, hp, ht, hc, hcl⟩ := h
  obtain ⟨rfl, hend⟩ := clearFast_phase hp
  exact ⟨[], hend, (ht.pop rfl).congr rfl, (hc.pop rfl).congr rfl, hcl.pop.congr rfl⟩

/-! ### Writing -/

/-- The chunks that are not completed have been accepted. -/
lemma Tokens.lt_accepted {i : ℕ} (h : Tokens t k left)
    (hi : i ∈ t.st.handed ∨ i ∈ left.map WriteReq.id) : i < t.st.accepted := by
  refine List.mem_range.mp (List.count_pos_iff.mp ?_)
  have horder := h.order i
  have hpos : 0 < t.st.handed.count i ∨ 0 < (left.map WriteReq.id).count i :=
    hi.imp List.count_pos_iff.mpr List.count_pos_iff.mpr
  omega

lemma count_range_succ (n i : ℕ) :
    (List.range (n + 1)).count i = (List.range n).count i + [n].count i := by
  rw [List.range_succ, List.count_append]

lemma write_tallied {chunk : Chunk} {encoding : EncArg} (h : Tallied cfg t k)
    (hout : accepts cfg t.st chunk encoding = true → .clearFast ∉ k ∧ .finish ∉ k)
    (hthrow : t.st.ended = false → validChunk cfg chunk = true → lenOf cfg chunk encoding ≠ none) :
    (t.write cfg chunk encoding).Keeps (Tallied cfg) k := by
  unfold Tracked.write
  rcases write_cases cfg t.st chunk encoding with ⟨hrefused, hr⟩ | ⟨hnone, hended, hvalid, -⟩ |
    ⟨d, len, ret, hacc, hlen, hd, -, hr⟩
  · have hacc : ¬ accepts cfg t.st chunk encoding = true := by
      rcases hrefused with hr | hr <;> simp [accepts, hr]
    rw [hr, if_neg hacc]
    exact h.push (f := .writeError) (plain_of_quiet rfl rfl)
  · exact absurd hnone (hthrow hended hvalid)
  · obtain ⟨hclear, hno⟩ := hout hacc
    obtain ⟨left, hp, ht, hc, hcl⟩ := h
    set lens := Function.update t.lens t.st.accepted len with hlens
    have hupdate (i : ℕ) (hi : i < t.st.accepted) : lens i = t.lens i :=
      Function.update_of_ne (Nat.ne_of_lt hi) ..
    have hleft : ∀ e ∈ left, lens e.id = reqLen cfg e := fun e he => by
      rw [hupdate e.id (ht.lt_accepted (.inr (List.mem_map_of_mem he)))]
      exact hc.lens e he
    have hpending : t.pending.map lens = t.pending.map t.lens :=
      List.map_congr_left fun i hi => hupdate i (ht.lt_accepted (.inl (List.mem_of_mem_drop hi)))
    rw [if_pos hacc, hlen, Option.getD_some, ← hlens]
    rcases hr with ⟨hbuf, hr⟩ | ⟨hbuf, hr⟩
    · -- the chunk goes into the buffer
      set e : WriteReq := ⟨t.st.accepted, d, encodingOf cfg chunk encoding⟩ with he
      have hreq : reqLen cfg e = len := by
        rw [reqLen, hd]
        rfl
      rw [hr]
      refine ⟨left ++ [e], hp.buffered hclear rfl rfl, ⟨ht.handed, fun i => ?_, ht.held, ht.ticks,
        ht.frames, ht.noError⟩, ⟨hc.busy, hc.idle, ?_, hc.writelen.trans ?_, fun x hx => ?_, ?_⟩,
        hcl.free hno rfl rfl rfl⟩
      · show t.st.handed.count i + ((left ++ [e]).map WriteReq.id).count i =
          (List.range (t.st.accepted + 1)).count i
        rw [List.map_append, List.count_append, count_range_succ, ← ht.order i]
        simp only [List.map_cons, List.map_nil, he]
        omega
      · have hcount := hc.pendingcb
        show t.st.pendingcb + 1 = (t.pending.length : ℤ) + (left ++ [e]).length +
          t.waiting.flatten.length + t.inHand.flatten.length + batches t.st k
        rw [List.length_append, List.length_singleton]
        push_cast
        omega
      · exact congrArg List.sum hpending.symm
      · rcases List.mem_append.mp hx with hx | hx
        · exact hleft x hx
        · rw [List.mem_singleton.mp hx, hreq]
          exact Function.update_self ..
      · have hlength := hc.length
        show t.st.length + len = t.st.writelen + lenSum cfg (left ++ [e])
        rw [lenSum_append, hreq]
        omega
    · -- the chunk is handed over
      have hw : t.st.writing = false := by
        simp only [Buffered, not_or] at hbuf
        simpa using hbuf.1
      have hlength := hc.length
      rw [(hc.idle hw).2.2.1] at hlength
      set s : State := { t.st.charge len ret with pendingcb := t.st.pendingcb + 1 } with hs
      have ht' : Tokens { t with st := s.startWrite [t.st.accepted] len .user, lens := lens } k
          left := by
        refine ht.start rfl rfl fun i => ?_
        show _ = (List.range (t.st.accepted + 1)).count i
        rw [count_range_succ, ← ht.order i]
        omega
      have hc' : Counts cfg { t with
          st := s.startWrite [t.st.accepted] len .user, lens := lens } k left := by
        refine hc.start ht hw rfl rfl rfl rfl ?_ hleft ?_ ?_
        · simp [hlens]
        · simp [hs, cbBatch]
        · simp only [hs, State.charge]
          omega
      have hcl' : Closes { t with
          st := s.startWrite [t.st.accepted] len .user, lens := lens } k :=
        hcl.free hno rfl rfl rfl
      rw [hr]
      refine ⟨left, hp.congr rfl rfl rfl, (ht'.push (f := .write ret) rfl).push (f := .doWrite) rfl,
        (hc'.push (f := .write ret) rfl).push (f := .doWrite) rfl, ?_⟩
      exact (hcl'.push_other (f := .write ret) rfl).push_other rfl

/-! ### Completions, `uncork` and `end` -/

lemma update_tallied (sync finished : Bool) (h : Tallied cfg t k) (hout : t.st.outstanding ≠ 0) :
    Tallied cfg t.update (.onwrite sync finished (t.st.writecb.getD .user) :: k) := by
  obtain ⟨left, hp, ht, hc, hcl⟩ := h
  have hw : t.st.writing = true := by
    by_contra hne
    exact hout (hc.idle (by simpa using hne)).1
  obtain ⟨hone, cb, hcb, hsize⟩ := hc.busy hw
  have hnone : t.update.pending = [] := by
    show t.st.handed.drop t.st.handed.length = []
    exact List.drop_length
  have hcl' : Closes t (.onwrite sync finished (t.st.writecb.getD .user) :: k) :=
    hcl.push_other rfl
  refine ⟨left, (hp.push rfl).congr rfl rfl rfl, ⟨List.prefix_rfl, ht.order, fun i => ?_,
    ht.ticks, ?_, ht.noError⟩, ⟨nofun, fun _ => ⟨?_, rfl, rfl, hnone⟩, ?_, ?_, hc.lens, ?_⟩,
    hcl'.ended, hcl'.closing, hcl'.apart, hcl.once, hcl.settled⟩
  · have hheld := ht.held i
    show t.called.count i + t.waiting.flatten.count i + (t.pending :: t.inHand).flatten.count i =
      t.st.handed.count i
    rw [ht.handed_eq, List.flatten_cons, List.count_append, List.count_append]
    omega
  · show (t.pending :: t.inHand).map List.length = _
    rw [List.map_cons, hsize, ht.frames, hcb]
    rfl
  · show t.st.outstanding - 1 = 0
    rw [hone]
  · have hcount := hc.pendingcb
    have hbatches : batches t.st k = cbBatch cb + batches (onwriteStateUpdate t.st) k := by
      simp only [batches, onwriteStateUpdate, hcb, Option.elim]
      omega
    rw [hbatches] at hcount
    rw [hnone, batches_cons, hcb]
    show t.st.pendingcb = (([] : List ℕ).length : ℤ) + left.length + t.waiting.flatten.length +
      (t.pending :: t.inHand).flatten.length +
        (batches (onwriteStateUpdate t.st) k + cbBatch cb : ℕ)
    rw [List.flatten_cons, List.length_append, List.length_nil]
    push_cast at hcount ⊢
    omega
  · rw [hnone]
    rfl
  · have hlength := hc.length
    show t.st.length - t.st.writelen = 0 + lenSum cfg left
    omega

lemma onwrite_tallied (h : Tallied cfg t k) (hout : t.st.outstanding ≠ 0) :
    (t.onwrite cfg).Keeps (Tallied cfg) k := by
  unfold Tracked.onwrite
  refine Res.Keeps.andThen ?_ fun u hu => onwriteAfter_tallied hu
  have hin := update_tallied t.st.sync (needFinish t.update.st) h hout
  split_ifs with hclear
  · have hb : t.update.st.bufferProcessing = false := by
      simp only [Bool.and_eq_true] at hclear
      simpa using hclear.1.2
    exact clearBuffer_tallied hb rfl hin
  · exact hin

lemma uncork_tallied (h : Tallied cfg t k) : (t.on (uncork cfg t.st)).Keeps (Tallied cfg) k := by
  unfold uncork
  split_ifs with hc
  · have hin : Tallied cfg { t with st := { t.st with corked := t.st.corked - 1 } } k :=
      h.congr rfl rfl rfl
    dsimp only
    split_ifs with hclear
    · simp only [Bool.and_eq_true] at hclear
      have hb : t.st.bufferProcessing = false := by simpa using hclear.1.2
      have hw : t.st.writing = false := by simpa using hclear.1.1.1.1
      exact clearBuffer_tallied (t := { t with st := { t.st with corked := t.st.corked - 1 } })
        hb hw hin
    · exact hin
  · exact h

lemma endUncorked_tallied {cb : Bool} (h : Tallied cfg t (.endUncorked cb :: k)) :
    (t.endUncorked cb).Keeps (Tallied cfg) k := by
  obtain ⟨left, hp, ht, hc, hcl⟩ := id h
  have hcalled : t.st.endCalled = true := hcl.ended (.inr ⟨cb, List.mem_cons_self⟩)
  unfold Tracked.endUncorked
  split_ifs with hnew
  · have hno : .finish ∉ k := fun hm => by
      rw [(hcl.pop.closing hm).1] at hnew
      cases hnew
    have hending : Tallied cfg { t with st := { t.st with ending := true } } k :=
      ⟨left, (hp.pop rfl).congr rfl rfl rfl, ⟨ht.handed, ht.order, ht.held, ht.ticks,
        (ht.pop rfl).frames, ht.noError⟩, ⟨hc.busy, hc.idle, (hc.pop rfl).pendingcb, hc.writelen,
        hc.lens, hc.length⟩, fun _ => hcalled, fun hm => absurd hm hno, hcl.pop.apart, hcl.once,
        hcl.settled⟩
    refine Res.Keeps.andThen (f := Frame.endWritable cb) (finishMaybe_tallied
      (hending.push (plain_of_quiet rfl rfl)) ?_) fun u hu => ?_
    · intro hm
      exact hno ((List.mem_cons.mp hm).resolve_left nofun)
    · exact endWritableDone_tallied (hu.pop rfl rfl) cb
  · exact h.pop rfl rfl

lemma end_tallied {cb : Bool} (h : Tallied cfg t k) : (t.end cfg cb).Keeps (Tallied cfg) k := by
  have hcalled (c : ℕ) : Tallied cfg { t with
      st := { t.st with endCalled := true, corked := c } } (.endUncorked cb :: k) := by
    obtain ⟨left, hp, ht, hc, hcl⟩ := h
    refine ⟨left, (hp.push (f := .endUncorked cb) rfl).congr rfl rfl rfl, ⟨ht.handed, ht.order,
      ht.held, ht.ticks, (ht.push (f := .endUncorked cb) rfl).frames, ht.noError⟩, ⟨hc.busy,
      hc.idle, (hc.push (f := .endUncorked cb) rfl).pendingcb, hc.writelen, hc.lens, hc.length⟩,
      fun _ => rfl, fun hm => hcl.closing ((List.mem_cons.mp hm).resolve_left nofun),
      List.pairwise_cons.mpr ⟨nofun, hcl.apart⟩, hcl.once, hcl.settled⟩
  unfold Tracked.end
  refine Res.Keeps.andThen ?_ fun u hu => endUncorked_tallied hu
  split_ifs
  · exact uncork_tallied (hcalled 1)
  · exact hcalled t.st.corked

lemma exec_tallied (h : Tallied cfg t (f :: k)) : (t.exec cfg f).Keeps (Tallied cfg) k := by
  cases f with
  | user => exact h.pop rfl rfl
  | doWrite => exact (h.pop rfl rfl).congr rfl rfl rfl
  | write ret => exact (h.pop rfl rfl).congr rfl rfl rfl
  | writeError => exact (h.pop rfl rfl).tickUser.congr rfl rfl rfl
  | clearLoop c => exact clearLoop_tallied h
  | clearFast => exact clearFast_tallied h
  | onwrite sync finished cb => exact onwriteAfter_tallied h
  | onwriteError => exact h.pop rfl rfl
  | afterDrain cb => exact afterDrain_tallied h
  | afterCb => exact afterCb_tallied h
  | writevCbs n => exact writevCbs_tallied h
  | finish =>
    obtain ⟨left, hp, ht, hc, hcl⟩ := id h
    obtain ⟨hend, hfin, hzero⟩ := hcl.closing List.mem_cons_self
    refine finish_tallied (hp.pop rfl) (ht.pop rfl) (hc.pop rfl) hcl.pop (fun hm => ?_) hend hfin
      hzero
    exact (List.pairwise_cons.mp hcl.apart).1 _ hm (.inr rfl) rfl
  | endUncorked cb => exact endUncorked_tallied h
  | endWritable cb => exact endWritableDone_tallied (h.pop rfl rfl) cb

end Accounts

/-! ### Runs -/

/-- A `write` does not throw, and one that is accepted is not made from inside `_writev` or the last
`'prefinish'`. Writes do not fail. -/
def Allowed (m : Machine Tracked Frame) : Act → Prop
  | .write chunk encoding =>
    (accepts cfg m.st.st chunk encoding = true → .clearFast ∉ m.stack ∧ .finish ∉ m.stack) ∧
      (m.st.st.ended = false → validChunk cfg chunk = true → lenOf cfg chunk encoding ≠ none)
  | _ => True

lemma call_tallied {m : Machine Tracked Frame} {a : Act} {r : Outcome}
    (hr : callOf cfg m.st a = some r) (hallowed : Allowed cfg m a)
    (h : Tallied cfg m.st m.stack) : r.Keeps (Tallied cfg) (.user :: m.stack) := by
  have hu : Tallied cfg m.st (.user :: m.stack) := h.push (plain_of_quiet rfl rfl)
  cases a with
  | write chunk encoding =>
    cases hr
    refine write_tallied hu (fun hacc => ?_) hallowed.2
    simpa using hallowed.1 hacc
  | cork =>
    cases hr
    exact hu.congr rfl rfl rfl
  | uncork =>
    cases hr
    exact uncork_tallied hu
  | «end» cb =>
    cases hr
    exact end_tallied hu
  | onwrite er =>
    unfold callOf at hr
    dsimp only at hr
    split_ifs at hr with hout
    cases hr
    refine onwrite_tallied hu fun hzero => hout ?_
    simp [hzero]
  | ret => cases hr
  | tick => cases hr

lemma tallied_step {m m' : Machine Tracked Frame} {a : Act} (h : Tallied cfg m.st m.stack)
    (hs : step cfg m a = some m') (hallowed : Allowed cfg m a) :
    Tallied cfg m'.st m'.stack := by
  have hpop (t : Tracked) (k : List Frame) (h : Tallied cfg t (.user :: k)) : Tallied cfg t k :=
    h.pop rfl rfl
  have hcalled (hc : (callOf cfg m.st a).map (enter .user m) = some m') :
      Tallied cfg m'.st m'.stack := by
    obtain ⟨r, hr, rfl⟩ := Option.map_eq_some_iff.mp hc
    exact enter_keeps hpop (call_tallied cfg hr hallowed h)
  cases a with
  | ret =>
    unfold step at hs
    dsimp only at hs
    split_ifs at hs
    cases hs
    refine resume_keeps (fun t f k _ hk => exec_tallied hk) (fun t f k hb hk => ?_) h
    cases f with
    | user => exact hpop t k hk
    | _ => cases hb
  | tick =>
    unfold step at hs
    dsimp only at hs
    split at hs
    · next tick ticks hstack hticks =>
      cases hs
      rw [hstack] at h
      have hrun := runTick_tallied h hticks
      rwa [Res.Keeps, List.append_nil] at hrun
    · cases hs
  | _ => exact hcalled hs

/-- The chunks whose completion has not been processed. -/
def uncompleted (t : Tracked) : List ℕ := (List.range t.st.accepted).filter (· ∉ t.completed)

/-- The chunks whose callback has not been called. -/
def uncalled (t : Tracked) : List ℕ := (List.range t.st.accepted).filter (· ∉ t.called)

/-- What remains of a list without repetitions. -/
lemma filter_notMem_perm {l l₁ l₂ : List ℕ} (h : (l₁ ++ l₂).Perm l) (hl : l.Nodup) :
    (l.filter (· ∉ l₁)).Perm l₂ := by
  have hdisjoint := (List.nodup_append'.mp (h.nodup_iff.mpr hl)).2.2
  have hfirst : l₁.filter (· ∉ l₁) = [] := List.filter_eq_nil_iff.mpr fun i hi => by simpa using hi
  have hrest : l₂.filter (· ∉ l₁) = l₂ := List.filter_eq_self.mpr fun i hi => by
    simpa using fun h₁ => hdisjoint h₁ hi
  have hperm := (h.filter (· ∉ l₁)).symm
  rwa [List.filter_append, hfirst, hrest, List.nil_append] at hperm

/-- What the counters say, and what there was when `'finish'` was emitted. -/
structure Balanced (m : Machine Tracked Frame) : Prop where
  length : m.st.st.length = ((uncompleted m.st).map m.st.lens).sum
  once : m.st.called.Nodup
  known : ∀ i ∈ m.st.called, i < m.st.st.accepted
  pendingcb : m.st.st.pendingcb = (uncalled m.st).length + batches m.st.st m.stack
  finishes : m.st.finishes.length ≤ 1
  finish : ∀ f ∈ m.st.finishes, f.endCalled = true ∧
    ∀ i < f.accepted, i ∈ f.completed ∧ i ∈ f.called

/-- **The accounts of a stream are right**, in every run of such steps. -/
theorem balanced {m : Machine Tracked Frame}
    (h : Run (step cfg) (fun m a _ => Allowed cfg m a) init m) : Balanced m := by
  have h0 : Tallied cfg (init : Machine Tracked Frame).st [] :=
    ⟨[], .idle rfl rfl, ⟨List.prefix_rfl, fun _ => rfl, fun _ => rfl, rfl, rfl, nofun⟩,
      ⟨nofun, fun _ => ⟨rfl, rfl, rfl, rfl⟩, rfl, rfl, nofun, rfl⟩,
      ⟨fun he => by simp [init, Tracked.new, State.new] at he, nofun, List.Pairwise.nil, .inl rfl,
        nofun⟩⟩
  have htallied : Tallied cfg m.st m.stack := h.invariant
    (I := fun m => Tallied cfg m.st m.stack) h0
    fun n a n' hn hs hallowed => tallied_step cfg hn hs hallowed
  obtain ⟨left, hp, ht, hc, hcl⟩ := htallied
  have hcompleted : (m.st.completed ++ (m.st.pending ++ left.map WriteReq.id)).Perm
      (List.range m.st.st.accepted) := by
    refine List.perm_iff_count.mpr fun i => ?_
    have horder := ht.order i
    rw [ht.handed_eq] at horder
    simp only [List.count_append] at horder ⊢
    omega
  have hcalled : (m.st.called ++ (m.st.waiting.flatten ++ m.st.inHand.flatten ++
      (m.st.pending ++ left.map WriteReq.id))).Perm (List.range m.st.st.accepted) := by
    refine (List.perm_iff_count.mpr fun i => ?_).trans hcompleted
    have hheld := ht.held i
    simp only [List.count_append] at hheld ⊢
    omega
  refine ⟨?_, (List.nodup_append'.mp (hcalled.nodup_iff.mpr List.nodup_range)).1, fun i hi => ?_,
    ?_, ?_, fun f hf => ?_⟩
  · have hperm := filter_notMem_perm hcompleted List.nodup_range
    have hsum := (hperm.map m.st.lens).sum_eq
    have hleft : (left.map WriteReq.id).map m.st.lens = left.map (reqLen cfg) := by
      rw [List.map_map]
      exact List.map_congr_left hc.lens
    unfold uncompleted
    rw [hsum, List.map_append, List.sum_append, hleft, ← hc.writelen]
    exact hc.length
  · exact List.mem_range.mp (hcalled.subset (List.mem_append_left _ hi))
  · have hperm := filter_notMem_perm hcalled List.nodup_range
    have hcount := hc.pendingcb
    unfold uncalled
    rw [hperm.length_eq]
    simp only [List.length_append, List.length_map]
    push_cast
    omega
  · rcases hcl.once with hnone | ⟨-, hone⟩
    · rw [hnone]
      exact Nat.zero_le 1
    · exact hone.le
  · obtain ⟨hend, hcompleted, hcalled⟩ := hcl.settled f hf
    refine ⟨hend, fun i hi => ⟨?_, ?_⟩⟩
    · exact hcompleted.mem_iff.mpr (List.mem_range.mpr hi)
    · exact hcalled.mem_iff.mpr (List.mem_range.mpr hi)

/-- A byte stream with a `_writev`. -/
def batchConfig : Config := ⟨16, false, true, some (js "utf8"), true⟩

/-- Two writes are buffered behind a first one, and handed over together when it completes. -/
def batch : List Act :=
  [.write (.buf [97]) none, .ret, .write (.buf [98]) none, .write (.buf [99]) none,
    .onwrite false, .ret, .ret]

/-- The stream is ended, the batch completes, and its callbacks return. -/
def batchEnds : List Act := [.end false, .onwrite false, .ret, .ret, .ret]

theorem balanced_batch :
    ∃ m, Run (step batchConfig) (fun m a _ => Allowed batchConfig m a) init m ∧
      m.st.called = [0, 1, 2] ∧ m.st.finishes.length = 1 ∧ Balanced m := by
  have hrun : ∃ m, Run (step batchConfig) (fun m a _ => Allowed batchConfig m a) init m ∧
      m.st.called = [0, 1, 2] ∧ m.st.finishes.length = 1 :=
    ⟨_, Run.of_path .refl (w := batch ++ batchEnds)
      ⟨_, rfl, ⟨by decide, by decide⟩, _, rfl, trivial, _, rfl, ⟨by decide, by decide⟩,
        _, rfl, ⟨by decide, by decide⟩, _, rfl, trivial, _, rfl, trivial, _, rfl, trivial,
        _, rfl, trivial, _, rfl, trivial, _, rfl, trivial, _, rfl, trivial, _, rfl, trivial, rfl⟩,
      rfl, rfl⟩
  obtain ⟨m, hm, hcalled, hfinishes⟩ := hrun
  exact ⟨m, hm, hcalled, hfinishes, balanced batchConfig hm⟩

/-- The callback of the batch is counted with those of its two writes. -/
theorem batch_counted :
    ¬ ∀ m, Run (step batchConfig) (fun m a _ => Allowed batchConfig m a) init m →
      m.st.st.pendingcb = (uncalled m.st).length := by
  intro h
  have hbatch := h _ (Run.of_path .refl (w := batch)
    ⟨_, rfl, ⟨by decide, by decide⟩, _, rfl, trivial, _, rfl, ⟨by decide, by decide⟩,
      _, rfl, ⟨by decide, by decide⟩, _, rfl, trivial, _, rfl, trivial, _, rfl, trivial, rfl⟩)
  exact absurd hbatch (by decide)

end NodeCore.WritableCalls
