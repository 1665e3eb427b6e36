import NodeCore.WritableClear

/-!
The order in which chunks reach `_write` and `_writev`.

What has been handed over and what is still buffered is, in this order, everything accepted.
-/

namespace NodeCore.WritableOrder

open NodeCore.Encoding NodeCore.Reentrant NodeCore.Writable NodeCore.WritableBooks
  NodeCore.WritableClear

/-! ### The order -/

/-- What is handed over and what is left is everything, in order. -/
def Queue (s : State) (left : List WriteReq) : Prop :=
  s.handed ++ left.map WriteReq.id = List.range s.accepted

/-- Nothing is out of order. -/
def Ordered (s : State) (k : List Frame) : Prop := ∃ left, Phase s k left ∧ Queue s left

lemma Ordered.queue {s : State} {k : List Frame} (h : Ordered s k) :
    Queue s (remaining s k) := by
  obtain ⟨left, hp, hq⟩ := h
  rwa [hp.eq_remaining] at hq

/-! ### Functions that hand nothing over -/

/-- The two states agree on the buffer and on what has left it. -/
structure SameQueue (s t : State) : Prop where
  handed : t.handed = s.handed
  buffer : t.buffer = s.buffer
  accepted : t.accepted = s.accepted
  bufferProcessing : t.bufferProcessing = s.bufferProcessing

lemma Queue.congr {s t : State} {left : List WriteReq} (h : Queue s left)
    (hh : t.handed = s.handed) (ha : t.accepted = s.accepted) : Queue t left := by
  rwa [Queue, hh, ha]

section Ordered

variable {s t : State} {k : List Frame}

lemma Ordered.congr (h : Ordered s k) (hs : SameQueue s t) : Ordered t k := by
  obtain ⟨left, hp, hq⟩ := h
  exact ⟨left, hp.congr hs.buffer hs.bufferProcessing rfl, hq.congr hs.handed hs.accepted⟩

/-- Frames other than those of `clearBuffer`, below a function. -/
lemma Ordered.push (h : Ordered s k) {f : Frame} (hf : isClear f = false) :
    Ordered s (f :: k) := by
  obtain ⟨left, hp, hq⟩ := h
  exact ⟨left, hp.push hf, hq⟩

lemma Ordered.pop {f : Frame} (h : Ordered s (f :: k)) (hf : isClear f = false) :
    Ordered s k := by
  obtain ⟨left, hp, hq⟩ := h
  exact ⟨left, hp.pop hf, hq⟩

lemma Ordered.keeping {r : Result} (hr : Keeping s r) (h : Ordered s k) :
    r.Keeps Ordered k := by
  refine hr.keeps (fun t hst hk => ?_) (fun t f l hf hk => hk.push (isClear_of_light hf)) h
  obtain ⟨n, pf, f, ts, rfl⟩ := hst
  exact hk.congr ⟨rfl, rfl, rfl, rfl⟩

lemma Ordered.drain (h : Ordered s k) (cb : Cb) :
    Ordered { s with needDrain := false, drains := s.drains + 1, owed := false }
      (.afterDrain cb :: k) := by
  have ht : Ordered { s with needDrain := false, drains := s.drains + 1, owed := false } k :=
    h.congr ⟨rfl, rfl, rfl, rfl⟩
  exact ht.push rfl

lemma Ordered.onwriteAfter (h : Ordered s k) (sync finished : Bool) (cb : Cb) :
    (onwriteAfter sync finished cb s).Keeps Ordered k := by
  rcases onwriteAfter_cases sync finished cb s with hd | hr
  · rw [hd]
    exact h.drain cb
  · exact h.keeping hr

lemma Ordered.endUncorked (h : Ordered s k) (cb : Bool) :
    (endUncorked cb s).Keeps Ordered k := by
  unfold Writable.endUncorked
  split_ifs
  · have ht : Ordered { s with ending := true } k := h.congr ⟨rfl, rfl, rfl, rfl⟩
    refine Res.Keeps.andThen ((ht.push rfl).keeping (keeping_finishMaybe _)) fun u hu => ?_
    exact (hu.pop rfl).congr ⟨rfl, rfl, rfl, rfl⟩
  · exact h

lemma Ordered.runTick (h : Ordered s k) (t : Tick) : (runTick s t).Keeps Ordered k := by
  rcases runTick_cases s t with ⟨cb, hd⟩ | hr
  · rw [hd]
    exact h.drain cb
  · exact h.keeping hr

end Ordered

/-! ### Handing over -/

variable (cfg : Config)

/-- The first write that is left, or none. -/
lemma hands_keeps {s : State} {k : List Frame} {left : List WriteReq} {r : Result}
    (h : Hands cfg s k left r) (hq : Queue s left) : r.Keeps Ordered k := by
  cases h with
  | one hphase =>
    refine ⟨_, hphase, ?_⟩
    simpa [Queue, State.startWrite] using hq
  | none hphase => exact ⟨[], hphase, hq.congr rfl rfl⟩

lemma clearBuffer_keeps {s : State} {k : List Frame} (hb : s.bufferProcessing = false)
    (h : Ordered s k) : (clearBuffer cfg s).Keeps Ordered k := by
  obtain ⟨left, hp, hq⟩ := h
  rcases clearBuffer_spec cfg hb hp with ⟨-, hr, hfast⟩ | hhands
  · rw [hr]
    refine ⟨[], hfast, ?_⟩
    obtain ⟨rfl, -⟩ := hp.eq_buffer hb
    simpa [Queue, fastState, State.startWrite] using hq
  · exact hands_keeps cfg hhands (hq.congr rfl rfl)

lemma clearLoop_keeps {s : State} {k : List Frame} {c : ℕ} (h : Ordered s (.clearLoop c :: k)) :
    (clearLoop cfg s c).Keeps Ordered k := by
  obtain ⟨left, hp, hq⟩ := h
  rcases clearLoop_spec cfg hp with ⟨-, hr, hend⟩ | ⟨-, hhands⟩
  · rw [hr]
    exact ⟨left, hend, hq.congr rfl rfl⟩
  · exact hands_keeps cfg hhands hq

lemma clearFast_keeps {s : State} {k : List Frame} (h : Ordered s (.clearFast :: k)) :
    (clearFast s).Keeps Ordered k := by
  obtain ⟨left, hp, hq⟩ := h
  obtain ⟨rfl, hend⟩ := clearFast_phase hp
  exact ⟨[], hend, hq.congr rfl rfl⟩

/-! ### Writing

A chunk is either put at the end of the buffer or handed over at once. The first is right
unless `_writev` has been given the buffer already and `clearBuffer` is about to empty it, the
second unless an earlier chunk is left. -/

/-- A write that is accepted finds the stream in order. -/
def InOrder (m : Stream) : Act → Prop
  | .write chunk encoding => accepts cfg m.st chunk encoding = true →
      if Buffered m.st then .clearFast ∉ m.stack else remaining m.st m.stack = []
  | _ => True

lemma write_keeps {s : State} {k : List Frame} {chunk : Chunk} {encoding : EncArg}
    (hgood : accepts cfg s chunk encoding = true →
      if Buffered s then .clearFast ∉ k else remaining s k = []) (h : Ordered s k) :
    (Writable.write cfg s chunk encoding).Keeps Ordered k := by
  rcases write_cases cfg s chunk encoding with ⟨-, hw⟩ | ⟨-, -, -, hw⟩ |
    ⟨d, len, ret, hacc, -, -, -, hw⟩
  · rw [hw]
    exact h.push (f := .writeError) rfl
  · rw [hw]
    exact h.congr ⟨rfl, rfl, rfl, rfl⟩
  · have hgood := hgood hacc
    obtain ⟨left, hp, hq⟩ := h
    rcases hw with ⟨hbuf, hw⟩ | ⟨hbuf, hw⟩
    · -- behind everything that is left
      rw [if_pos hbuf] at hgood
      rw [hw]
      refine ⟨_, hp.buffered hgood rfl rfl, ?_⟩
      have hrange : List.range (s.accepted + 1) = List.range s.accepted ++ [s.accepted] :=
        List.range_succ
      change s.handed ++ (left ++ [_]).map WriteReq.id = List.range (s.accepted + 1)
      rw [List.map_append, ← List.append_assoc, hq, hrange]
      rfl
    · -- nothing is left
      rw [if_neg hbuf, ← hp.eq_remaining] at hgood
      obtain rfl := hgood
      rw [hw]
      refine ⟨[], hp.congr rfl rfl (by simp [clears, isClear]), ?_⟩
      have hhanded : s.handed = List.range s.accepted := by simpa [Queue] using hq
      change (s.handed ++ [s.accepted]) ++ [] = List.range (s.accepted + 1)
      rw [List.append_nil, hhanded, List.range_succ]

/-! ### The other functions -/

lemma onwrite_keeps {s : State} {k : List Frame} (er : Bool) (h : Ordered s k) :
    (onwrite cfg er s).Keeps Ordered k := by
  have ht : Ordered (onwriteStateUpdate s) k := h.congr ⟨rfl, rfl, rfl, rfl⟩
  unfold onwrite
  dsimp only
  split_ifs with her hclear
  · exact ht.keeping (keeping_onwriteError _ _ _)
  · have hb : (onwriteStateUpdate s).bufferProcessing = false := by
      simp only [Bool.and_eq_true] at hclear
      simpa using hclear.1.2
    exact Res.Keeps.andThen (clearBuffer_keeps cfg hb (ht.push rfl)) fun u hu =>
      (hu.pop rfl).onwriteAfter _ _ _
  · exact ht.onwriteAfter _ _ _

lemma uncork_keeps {s : State} {k : List Frame} (h : Ordered s k) :
    (uncork cfg s).Keeps Ordered k := by
  unfold uncork
  split_ifs with hc
  · have ht : Ordered { s with corked := s.corked - 1 } k := h.congr ⟨rfl, rfl, rfl, rfl⟩
    dsimp only
    split_ifs with hclear
    · have hb : s.bufferProcessing = false := by
        simp only [Bool.and_eq_true] at hclear
        simpa using hclear.1.2
      exact clearBuffer_keeps cfg hb ht
    · exact ht
  · exact h

lemma end_keeps {s : State} {k : List Frame} (cb : Bool) (h : Ordered s k) :
    (Writable.end cfg cb s).Keeps Ordered k := by
  have ht : Ordered { s with endCalled := true } k := h.congr ⟨rfl, rfl, rfl, rfl⟩
  have hc : Ordered { s with endCalled := true, corked := 1 } k := h.congr ⟨rfl, rfl, rfl, rfl⟩
  unfold Writable.end
  refine Res.Keeps.andThen (f := Frame.endUncorked cb) ?_ fun u hu =>
    (hu.pop rfl).endUncorked cb
  split_ifs
  · exact uncork_keeps cfg (hc.push rfl)
  · exact ht.push rfl

lemma exec_keeps {s : State} {f : Frame} {k : List Frame} (h : Ordered s (f :: k)) :
    (exec cfg s f).Keeps Ordered k := by
  cases f with
  | clearLoop c => exact clearLoop_keeps cfg h
  | clearFast => exact clearFast_keeps h
  | user => exact h.pop rfl
  | doWrite => exact (h.pop rfl).congr ⟨rfl, rfl, rfl, rfl⟩
  | write ret => exact (h.pop rfl).congr ⟨rfl, rfl, rfl, rfl⟩
  | writeError => exact (h.pop rfl).congr ⟨rfl, rfl, rfl, rfl⟩
  | onwrite sync finished cb => exact (h.pop rfl).onwriteAfter sync finished cb
  | onwriteError => exact h.pop rfl
  | afterDrain cb => exact (h.pop rfl).keeping (keeping_afterDrain cb s)
  | afterCb => exact (h.pop rfl).keeping (keeping_finishMaybe s)
  | writevCbs n => exact (h.pop rfl).keeping (keeping_writevCbs s n)
  | finish => exact (h.pop rfl).keeping (keeping_finish s)
  | endUncorked cb => exact (h.pop rfl).endUncorked cb
  | endWritable cb => exact (h.pop rfl).congr ⟨rfl, rfl, rfl, rfl⟩

lemma call_keeps {m : Stream} {a : Act} {r : Result} (hr : callOf cfg m.st a = some r)
    (hgood : InOrder cfg m a) (h : Ordered m.st m.stack) :
    r.Keeps Ordered (.user :: m.stack) := by
  have hu : Ordered m.st (.user :: m.stack) := h.push rfl
  cases a with
  | write chunk encoding =>
    obtain rfl := Option.some.inj hr
    refine write_keeps cfg (fun hacc => ?_) hu
    have hg := hgood hacc
    split_ifs at hg ⊢
    · simpa using hg
    · exact hg
  | cork =>
    obtain rfl := Option.some.inj hr
    exact hu.congr ⟨rfl, rfl, rfl, rfl⟩
  | uncork =>
    obtain rfl := Option.some.inj hr
    exact uncork_keeps cfg hu
  | «end» cb =>
    obtain rfl := Option.some.inj hr
    exact end_keeps cfg cb hu
  | onwrite er =>
    simp only [callOf] at hr
    split_ifs at hr
    obtain rfl := Option.some.inj hr
    exact onwrite_keeps cfg er hu
  | ret => cases hr
  | tick => cases hr

/-- A byte stream with a high-water mark, without `_writev`. -/
def byteConfig (highWaterMark : ℤ) : Config := ⟨highWaterMark, false, true, some (js "utf8"), false⟩

end NodeCore.WritableOrder
