import NodeCore.Writable

/-!
What the functions of a stream do, for the invariants of its runs.

Most of them touch nothing but callbacks that are owed, whether the stream has finished, and
the queue of ticks.
-/

namespace NodeCore.WritableBooks

open NodeCore.Encoding NodeCore.Reentrant NodeCore.Writable

/-! ### Keeping the books -/

/-- The states differ in the counts of callbacks, in the flags of finishing and in the ticks. -/
def Books (s t : State) : Prop :=
  ∃ n pf f ts, t = { s with pendingcb := n, prefinished := pf, finished := f, ticks := ts }

lemma Books.refl (s : State) : Books s s := ⟨_, _, _, _, rfl⟩

lemma Books.trans {s t u : State} (h : Books s t) (h' : Books t u) : Books s u := by
  obtain ⟨n, pf, f, ts, rfl⟩ := h
  obtain ⟨n', pf', f', ts', rfl⟩ := h'
  exact ⟨n', pf', f', ts', rfl⟩

/-- A frame of a function that only keeps the books. -/
def light : Frame → Bool
  | .finish | .afterCb | .writevCbs _ | .onwriteError => true
  | _ => false

/-- The function only keeps the books. -/
def Keeping (s : State) (r : Result) : Prop := Books s r.state ∧ ∀ f ∈ r.frames, light f = true

lemma Keeping.ret {s t : State} (h : Books s t) : Keeping s (.ret t) := ⟨h, by simp⟩

lemma Keeping.call {s t : State} (h : Books s t) {fs : List Frame}
    (hf : ∀ f ∈ fs, light f = true) : Keeping s (.call t fs) := ⟨h, hf⟩

lemma Keeping.of_books {s t : State} {r : Result} (h : Books s t) (hr : Keeping t r) :
    Keeping s r := ⟨h.trans hr.1, hr.2⟩

lemma Keeping.andThen {s : State} {r : Result} {f : Frame} {g : State → Result}
    (hr : Keeping s r) (hf : light f = true) (hg : ∀ t, Keeping t (g t)) :
    Keeping s (r.andThen f g) := by
  cases r with
  | ret t => exact .of_books hr.1 (hg t)
  | call t fs =>
    refine ⟨hr.1, fun x hx => ?_⟩
    rcases List.mem_append.mp hx with hx | hx
    · exact hr.2 x hx
    · rw [List.mem_singleton.mp hx, hf]

/-- An invariant that reads nothing of the books is kept. -/
lemma Keeping.keeps {I : State → List Frame → Prop} {s : State} {r : Result} {k : List Frame}
    (hr : Keeping s r) (hbooks : ∀ t, Books s t → I s k → I t k)
    (hpush : ∀ t f l, light f = true → I t l → I t (f :: l)) (h : I s k) : r.Keeps I k := by
  obtain ⟨hs, hf⟩ := hr
  exact Res.Keeps.of_push (hbooks _ hs h) fun f hmem l hl => hpush _ f l (hf f hmem) hl

lemma keeping_prefinish (s : State) : Keeping s (prefinish s) := by
  unfold prefinish
  split_ifs
  · exact .call ⟨s.pendingcb, true, s.finished, s.ticks, rfl⟩ (by simp)
  · exact .ret (.refl s)

lemma keeping_finish (s : State) : Keeping s (finish s) :=
  .call ⟨s.pendingcb, s.prefinished, true, s.ticks, rfl⟩ (by simp)

lemma keeping_finishMaybe (s : State) : Keeping s (finishMaybe s) := by
  unfold finishMaybe
  split_ifs
  · exact (keeping_prefinish s).andThen rfl keeping_finish
  · exact keeping_prefinish s
  · exact .ret (.refl s)

lemma books_pendingcb (s : State) (n : ℤ) : Books s { s with pendingcb := n } :=
  ⟨n, s.prefinished, s.finished, s.ticks, rfl⟩

lemma books_ticks (s : State) (ts : List Tick) : Books s { s with ticks := ts } :=
  ⟨s.pendingcb, s.prefinished, s.finished, ts, rfl⟩

lemma keeping_callCb (s : State) (cb : Cb) : Keeping s (callCb s cb) := by
  cases cb with
  | user => exact .call (.refl s) (by simp)
  | writev more => exact .call (books_pendingcb s _) (by simp [light])

lemma keeping_writevCbs (s : State) (n : ℕ) : Keeping s (writevCbs s n) := by
  cases n with
  | zero => exact .ret (.refl s)
  | succ n => exact .call (books_pendingcb s _) (by simp [light])

lemma keeping_afterDrain (cb : Cb) (s : State) : Keeping s (afterDrain cb s) :=
  (Keeping.of_books (books_pendingcb s _) (keeping_callCb _ cb)).andThen rfl keeping_finishMaybe

lemma keeping_onwriteErrorEvent (s : State) : Keeping s (onwriteErrorEvent s) :=
  .call (.refl s) (by simp)

lemma keeping_onwriteError (sync : Bool) (cb : Cb) (s : State) :
    Keeping s (onwriteError sync cb s) := by
  unfold onwriteError
  split_ifs
  · exact .of_books (books_ticks s _) (keeping_onwriteErrorEvent _)
  · exact (Keeping.of_books (books_pendingcb s _) (keeping_callCb _ cb)).andThen rfl
      keeping_onwriteErrorEvent

/-! ### Emitting `'drain'` -/

/-- `afterWrite` emits `'drain'`, or it only keeps the books. -/
lemma afterWrite_cases (finished : Bool) (cb : Cb) (s : State) :
    afterWrite finished cb s = .call
        { s with needDrain := false, drains := s.drains + 1, owed := false } [.afterDrain cb] ∨
      Keeping s (afterWrite finished cb s) := by
  unfold afterWrite onwriteDrain
  split_ifs
  · exact .inl rfl
  · exact .inr (keeping_afterDrain cb s)
  · exact .inr (keeping_afterDrain cb s)

lemma onwriteAfter_cases (sync finished : Bool) (cb : Cb) (s : State) :
    onwriteAfter sync finished cb s = .call
        { s with needDrain := false, drains := s.drains + 1, owed := false } [.afterDrain cb] ∨
      Keeping s (onwriteAfter sync finished cb s) := by
  unfold onwriteAfter
  split_ifs
  · exact .inr (.ret (books_ticks s _))
  · exact afterWrite_cases finished cb s

lemma runTick_cases (s : State) (t : Tick) :
    (∃ cb, runTick s t = .call
        { s with needDrain := false, drains := s.drains + 1, owed := false } [.afterDrain cb]) ∨
      Keeping s (runTick s t) := by
  cases t with
  | afterWrite finished cb => exact (afterWrite_cases finished cb s).imp_left fun h => ⟨cb, h⟩
  | onwriteError cb =>
    exact .inr (.of_books (books_pendingcb s _) (keeping_callCb _ cb))
  | user => exact .inr (.call (.refl s) (by simp))

/-! ### Writing -/

variable (cfg : Config)

/-- The length that a chunk adds, once it is accepted. -/
def lenOf (chunk : Chunk) (encoding : EncArg) : Option ℤ :=
  (decodeChunk cfg chunk (encodingOf cfg chunk encoding)).bind cfg.len

/-- The write is accepted: the stream has not ended, and nothing throws. -/
def accepts (s : State) (chunk : Chunk) (encoding : EncArg) : Bool :=
  !s.ended && validChunk cfg chunk && (lenOf cfg chunk encoding).isSome

/-- The chunk goes into the buffer. -/
def Buffered (s : State) : Prop := s.writing = true ∨ 0 < s.corked

instance : DecidablePred Buffered := fun s =>
  inferInstanceAs (Decidable (s.writing = true ∨ 0 < s.corked))

/-- `write` refuses the chunk, throws, buffers the chunk or hands it over. -/
lemma write_cases (s : State) (chunk : Chunk) (encoding : EncArg) :
    ((s.ended = true ∨ validChunk cfg chunk = false) ∧
        Writable.write cfg s chunk encoding = .call s [.writeError]) ∨
      (lenOf cfg chunk encoding = none ∧ s.ended = false ∧ validChunk cfg chunk = true ∧
        Writable.write cfg s chunk encoding = .ret { s with pendingcb := s.pendingcb + 1 }) ∨
      ∃ d len ret, accepts cfg s chunk encoding = true ∧ lenOf cfg chunk encoding = some len ∧
        cfg.len d = some len ∧ ret = decide (s.length + len < cfg.highWaterMark) ∧
        ((Buffered s ∧ Writable.write cfg s chunk encoding = writeRet ret
            { s.charge len ret with
              pendingcb := s.pendingcb + 1
              buffer := s.buffer ++ [⟨s.accepted, d, encodingOf cfg chunk encoding⟩] }) ∨
          (¬ Buffered s ∧ Writable.write cfg s chunk encoding =
            .call (({ s.charge len ret with pendingcb := s.pendingcb + 1 } : State).startWrite
              [s.accepted] len .user) [.doWrite, .write ret])) := by
  unfold Writable.write
  by_cases hv : s.ended || !validChunk cfg chunk
  · rw [if_pos hv]
    exact .inl ⟨by simpa using hv, rfl⟩
  · rw [if_neg hv]
    obtain ⟨he, hc⟩ : s.ended = false ∧ validChunk cfg chunk = true := by simpa using hv
    refine .inr ?_
    cases hd : decodeChunk cfg chunk (encodingOf cfg chunk encoding) with
    | none =>
      have hl : lenOf cfg chunk encoding = none := by rw [lenOf, hd]; rfl
      exact .inl ⟨hl, he, hc, by simp [writeOrBuffer, hd]⟩
    | some d =>
      cases hlen : cfg.len d with
      | none =>
        have hl : lenOf cfg chunk encoding = none := by rw [lenOf, hd]; exact hlen
        exact .inl ⟨hl, he, hc, by simp [writeOrBuffer, hd, hlen]⟩
      | some len =>
        have hl : lenOf cfg chunk encoding = some len := by rw [lenOf, hd]; exact hlen
        refine .inr ⟨d, len, _, by simp [accepts, he, hc, hl], hl, hlen, rfl, ?_⟩
        by_cases hb : Buffered s
        · have hb' : (s.writing || decide (0 < s.corked)) = true := by simpa [Buffered] using hb
          exact .inl ⟨hb, by simp [writeOrBuffer, hd, hlen, hb', Res.andThen, State.charge]⟩
        · have hb' : ¬ (s.writing || decide (0 < s.corked)) = true := by
            simpa [Buffered] using hb
          exact .inr ⟨hb, by simp [writeOrBuffer, hd, hlen, hb', Res.andThen, State.charge,
            doWrite]⟩

/-! ### Steps -/

/-- What foreign code calls. -/
def callOf (s : State) : Act → Option Result
  | .write chunk encoding => some (Writable.write cfg s chunk encoding)
  | .cork => some (.ret (cork s))
  | .uncork => some (uncork cfg s)
  | .end cb => some (Writable.end cfg cb s)
  | .onwrite er => if s.outstanding = 0 then none else some (onwrite cfg er s)
  | .ret | .tick => none

/-- A step keeps an invariant that the function called, the frames below and the ticks keep. -/
theorem step_keeps {I : State → List Frame → Prop} {m m' : Stream} {a : Act}
    (hs : step cfg m a = some m') (h : I m.st m.stack)
    (hpop : ∀ s k, I s (.user :: k) → I s k)
    (hcall : ∀ r, callOf cfg m.st a = some r → r.Keeps I (.user :: m.stack))
    (hexec : ∀ s f k, boundary f = false → I s (f :: k) → (exec cfg s f).Keeps I k)
    (htick : ∀ t ts, m.stack = [] → m.st.ticks = t :: ts →
      (runTick { m.st with ticks := ts } t).Keeps I []) : I m'.st m'.stack := by
  have hcalled : ∀ r, callOf cfg m.st a = some r → step cfg m a = some (enter .user m r) →
      I m'.st m'.stack := by
    intro r hr hm
    obtain rfl := Option.some.inj (hm.symm.trans hs)
    exact enter_keeps hpop (hcall r hr)
  cases a with
  | write chunk encoding => exact hcalled _ rfl rfl
  | cork => exact hcalled _ rfl rfl
  | uncork => exact hcalled _ rfl rfl
  | «end» cb => exact hcalled _ rfl rfl
  | onwrite er =>
    by_cases ho : m.st.outstanding = 0
    · rw [step, if_pos ho] at hs
      cases hs
    · exact hcalled _ (if_neg ho) (if_neg ho)
  | ret =>
    simp only [step] at hs
    split_ifs at hs
    obtain rfl := Option.some.inj hs
    refine resume_keeps hexec (fun s f k hb hk => ?_) h
    cases f with
    | user => exact hpop s k hk
    | _ => cases hb
  | tick =>
    simp only [step] at hs
    split at hs
    · next t ts hstack hticks =>
      obtain rfl := Option.some.inj hs
      have hr := htick t ts hstack hticks
      rwa [Res.Keeps, List.append_nil] at hr
    · cases hs

end NodeCore.WritableBooks
