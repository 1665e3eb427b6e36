import NodeCore.WritableBooks

/-!
The promise of a `write` that returns `false`: `'drain'` comes once everything is written.

`needDrain` stands for the promise. Every write computes it anew from the current length, so
that one which returns `true` takes back what an earlier one has promised.
-/

namespace NodeCore.WritableDrain

open NodeCore.Encoding NodeCore.Reentrant NodeCore.Writable NodeCore.WritableBooks

/-! ### The promise -/

/-- A frame that there is only after `end`. -/
def late : Frame → Bool
  | .writeError | .endUncorked _ | .endWritable _ => true
  | _ => false

/-- Until `end` is called, `needDrain` is set if a write has returned `false` since the last
`'drain'`, or is going to. -/
structure Promise (s : State) (k : List Frame) : Prop where
  drain : s.endCalled = false → s.owed = true ∨ .write false ∈ k → s.needDrain = true
  ended : s.ended = true → s.endCalled = true
  late : ∀ f ∈ k, late f = true → s.endCalled = true

/-- The states agree on what the promise is about. -/
structure SamePromise (s t : State) : Prop where
  needDrain : t.needDrain = s.needDrain
  owed : t.owed = s.owed
  ended : t.ended = s.ended
  endCalled : t.endCalled = s.endCalled
  drains : t.drains = s.drains

lemma Promise.congr {s t : State} {k : List Frame} (h : Promise s k) (hs : SamePromise s t) :
    Promise t k := by
  obtain ⟨h1, h2, h3, h4, -⟩ := hs
  refine ⟨fun he ho => ?_, fun he => ?_, fun f hf hl => ?_⟩
  · rw [h1]
    rw [h2] at ho
    exact h.drain (h4.symm.trans he) ho
  · exact h4.trans (h.ended (h3.symm.trans he))
  · exact h4.trans (h.late f hf hl)

/-- A frame that promises nothing and may be there before `end`. -/
def plain (f : Frame) : Bool := f ≠ .write false && !late f

lemma Promise.push {s : State} {k : List Frame} (h : Promise s k) {f : Frame}
    (hf : plain f = true) : Promise s (f :: k) := by
  obtain ⟨hne, hl⟩ : f ≠ .write false ∧ WritableDrain.late f = false := by
    simpa [plain] using hf
  refine ⟨fun he ho => h.drain he ?_, h.ended, fun x hx hxl => ?_⟩
  · rcases ho with ho | ho
    · exact .inl ho
    · rcases List.mem_cons.mp ho with rfl | ho
      · exact absurd rfl hne
      · exact .inr ho
  · rcases List.mem_cons.mp hx with rfl | hx
    · rw [hl] at hxl
      cases hxl
    · exact h.late x hx hxl

lemma Promise.pop {s : State} {k : List Frame} {f : Frame} (h : Promise s (f :: k)) :
    Promise s k :=
  ⟨fun he ho => h.drain he (ho.imp_right (List.mem_cons_of_mem f)), h.ended,
    fun x hx => h.late x (List.mem_cons_of_mem f hx)⟩

/-- After `end` has been called there is nothing to keep. -/
lemma Promise.of_endCalled {s : State} {k : List Frame} (h : s.endCalled = true) :
    Promise s k :=
  ⟨fun he => absurd (h.symm.trans he) (by decide), fun _ => h, fun _ _ _ => h⟩

/-! ### Within a step

A `'drain'` during a step settles everything, unless a write that is to return `false` is
below. What there was at the start of the step says whether it is. -/

/-- What holds during a step that starts from `m₀`. -/
structure Within (m₀ : Stream) (s : State) (k : List Frame) : Prop where
  write : .write false ∈ k → .write false ∈ m₀.stack
  drains : m₀.st.drains ≤ s.drains
  ends : m₀.st.endCalled = true → s.endCalled = true
  promise : (m₀.st.endCalled = false → .write false ∈ m₀.stack →
    s.drains = m₀.st.drains) → Promise s k

section Within

variable {m₀ : Stream} {s t : State} {k : List Frame}

lemma Within.congr (h : Within m₀ s k) (hs : SamePromise s t) : Within m₀ t k :=
  ⟨h.write, hs.drains ▸ h.drains, fun he => hs.endCalled.trans (h.ends he),
    fun hd => (h.promise (hs.drains ▸ hd)).congr hs⟩

lemma Within.push (h : Within m₀ s k) {f : Frame} (hf : plain f = true) :
    Within m₀ s (f :: k) := by
  refine ⟨fun hw => h.write ?_, h.drains, h.ends, fun hd => (h.promise hd).push hf⟩
  rcases List.mem_cons.mp hw with rfl | hw
  · cases hf
  · exact hw

lemma Within.pop {f : Frame} (h : Within m₀ s (f :: k)) : Within m₀ s k :=
  ⟨fun hw => h.write (List.mem_cons_of_mem f hw), h.drains, h.ends,
    fun hd => (h.promise hd).pop⟩

/-- The state that a late frame goes on with. -/
lemma Within.popLate {f : Frame} (h : Within m₀ s (f :: k)) (hf : late f = true)
    (he : t.endCalled = s.endCalled) (hd : t.drains = s.drains) : Within m₀ t k := by
  refine ⟨h.pop.write, hd ▸ h.drains, fun h₀ => he.trans (h.ends h₀), fun hk => ?_⟩
  have hlate := (h.promise (hd ▸ hk)).late f List.mem_cons_self hf
  exact .of_endCalled (he.trans hlate)

/-- `'drain'` is emitted. -/
lemma Within.drain (h : Within m₀ s k) :
    Within m₀ { s with needDrain := false, drains := s.drains + 1, owed := false } k := by
  have hle := h.drains
  refine ⟨h.write, by simp only; omega, h.ends, fun hd => ?_⟩
  by_cases he : m₀.st.endCalled = false
  · have hmem : .write false ∉ m₀.stack := fun hw => by
      have := hd he hw
      simp only at this
      omega
    have hs := h.promise fun _ hw => absurd hw hmem
    refine ⟨fun _ ho => ?_, hs.ended, hs.late⟩
    rcases ho with ho | ho
    · cases ho
    · exact absurd (h.write ho) hmem
  · exact .of_endCalled (h.ends (by simpa using he))

lemma plain_of_light {f : Frame} (h : light f = true) : plain f = true := by
  cases f <;> first | rfl | cases h

lemma Within.keeping {r : Result} (hr : Keeping s r) (h : Within m₀ s k) :
    r.Keeps (Within m₀) k := by
  refine hr.keeps (fun t hst hk => ?_) (fun t f l hf hk => hk.push (plain_of_light hf)) h
  obtain ⟨n, pf, f, ts, rfl⟩ := hst
  exact hk.congr ⟨rfl, rfl, rfl, rfl, rfl⟩

lemma Within.onwriteAfter (h : Within m₀ s k) (sync finished : Bool) (cb : Cb) :
    (onwriteAfter sync finished cb s).Keeps (Within m₀) k := by
  rcases onwriteAfter_cases sync finished cb s with hd | hr
  · rw [hd]
    exact h.drain.push (f := .afterDrain cb) rfl
  · exact h.keeping hr

lemma Within.runTick (h : Within m₀ s k) (t : Tick) :
    (runTick s t).Keeps (Within m₀) k := by
  rcases runTick_cases s t with ⟨cb, hd⟩ | hr
  · rw [hd]
    exact h.drain.push (f := .afterDrain cb) rfl
  · exact h.keeping hr

/-! ### Functions -/

variable (cfg : Config)

lemma Within.startWrite (h : Within m₀ s k) (ids : List ℕ) (len : ℤ) (cb : Cb) :
    Within m₀ (s.startWrite ids len cb) (.doWrite :: k) := by
  have ht : Within m₀ (s.startWrite ids len cb) k := h.congr ⟨rfl, rfl, rfl, rfl, rfl⟩
  exact ht.push rfl

lemma Within.clearFrom (h : Within m₀ s k) (c : ℕ) :
    (clearFrom cfg s c).Keeps (Within m₀) k := by
  unfold Writable.clearFrom
  cases s.buffer[c]? with
  | some entry => exact (h.push (f := .clearLoop c) rfl).startWrite _ _ _
  | none => exact h.congr ⟨rfl, rfl, rfl, rfl, rfl⟩

lemma Within.clearBuffer (h : Within m₀ s k) :
    (clearBuffer cfg s).Keeps (Within m₀) k := by
  unfold Writable.clearBuffer
  dsimp only
  split_ifs
  · have ht : Within m₀ { s with bufferProcessing := true, pendingcb := s.pendingcb + 1 } k :=
      h.congr ⟨rfl, rfl, rfl, rfl, rfl⟩
    exact (ht.push (f := .clearFast) rfl).startWrite _ _ _
  · exact (h.congr ⟨rfl, rfl, rfl, rfl, rfl⟩ :
      Within m₀ { s with bufferProcessing := true } k).clearFrom cfg 0

lemma Within.onwrite (h : Within m₀ s k) (er : Bool) :
    (onwrite cfg er s).Keeps (Within m₀) k := by
  have ht : Within m₀ (onwriteStateUpdate s) k := h.congr ⟨rfl, rfl, rfl, rfl, rfl⟩
  unfold Writable.onwrite
  dsimp only
  split_ifs
  · exact ht.keeping (keeping_onwriteError _ _ _)
  · exact Res.Keeps.andThen ((ht.push rfl).clearBuffer cfg) fun u hu =>
      hu.pop.onwriteAfter _ _ _
  · exact ht.onwriteAfter _ _ _

lemma Within.uncork (h : Within m₀ s k) : (uncork cfg s).Keeps (Within m₀) k := by
  unfold Writable.uncork
  dsimp only
  have ht : Within m₀ { s with corked := s.corked - 1 } k :=
    h.congr ⟨rfl, rfl, rfl, rfl, rfl⟩
  split_ifs
  · exact ht.clearBuffer cfg
  · exact ht
  · exact h

lemma Within.endUncorked {cb : Bool} (h : Within m₀ s (.endUncorked cb :: k)) :
    (endUncorked cb s).Keeps (Within m₀) k := by
  unfold Writable.endUncorked
  split_ifs
  · -- the frame that is left is as late as the one that is gone
    have ht : Within m₀ { s with ending := true } (.endWritable cb :: k) := by
      have hw := h.popLate (t := { s with ending := true }) rfl rfl rfl
      refine ⟨fun hm => hw.write ?_, hw.drains, hw.ends, fun hd => .of_endCalled ?_⟩
      · simpa using hm
      · exact (h.promise hd).late _ List.mem_cons_self rfl
    exact Res.Keeps.andThen (ht.keeping (keeping_finishMaybe _)) fun u hu =>
      hu.popLate rfl rfl rfl
  · exact h.pop

lemma Within.end (h : Within m₀ s k) (cb : Bool) :
    (Writable.end cfg cb s).Keeps (Within m₀) k := by
  have ht : Within m₀ { s with endCalled := true } (.endUncorked cb :: k) := by
    refine ⟨fun hm => h.write (by simpa using hm), h.drains, fun _ => rfl,
      fun _ => .of_endCalled rfl⟩
  have hc : Within m₀ { s with endCalled := true, corked := 1 } (.endUncorked cb :: k) :=
    ht.congr ⟨rfl, rfl, rfl, rfl, rfl⟩
  unfold Writable.end
  refine Res.Keeps.andThen (f := Frame.endUncorked cb) ?_ fun u hu => hu.endUncorked
  split_ifs
  · exact hc.uncork cfg
  · exact ht

lemma Within.exec {f : Frame} (h : Within m₀ s (f :: k)) :
    (exec cfg s f).Keeps (Within m₀) k := by
  cases f with
  | user => exact h.pop
  | doWrite => exact h.pop.congr ⟨rfl, rfl, rfl, rfl, rfl⟩
  | write ret =>
    cases ret with
    | true => exact h.pop.congr ⟨rfl, Bool.or_false _, rfl, rfl, rfl⟩
    | false =>
      -- the promise that was going to be made is made
      refine ⟨h.pop.write, h.drains, h.ends, fun hd => ?_⟩
      have hs := h.promise hd
      exact ⟨fun he _ => hs.drain he (.inr List.mem_cons_self), hs.pop.ended, hs.pop.late⟩
  | writeError => exact h.popLate rfl rfl rfl
  | clearLoop c =>
    unfold Writable.exec Writable.clearLoop
    dsimp only
    split_ifs
    · exact h.pop.congr ⟨rfl, rfl, rfl, rfl, rfl⟩
    · exact h.pop.clearFrom cfg (c + 1)
  | clearFast => exact h.pop.congr ⟨rfl, rfl, rfl, rfl, rfl⟩
  | onwrite sync finished cb => exact h.pop.onwriteAfter sync finished cb
  | onwriteError => exact h.pop
  | afterDrain cb => exact h.pop.keeping (keeping_afterDrain cb s)
  | afterCb => exact h.pop.keeping (keeping_finishMaybe s)
  | writevCbs n => exact h.pop.keeping (keeping_writevCbs s n)
  | finish => exact h.pop.keeping (keeping_finish s)
  | endUncorked cb => exact h.endUncorked
  | endWritable cb => exact h.popLate rfl rfl rfl

end Within

/-! ### Writing -/

variable (cfg : Config)

/-- Until `end` is called: no write that returns `true` finds `needDrain` set, no chunk is
refused as invalid, and no `'drain'` comes during a write that is to return `false`. -/
def Safe (m : Stream) (a : Act) (m' : Stream) : Prop :=
  m.st.endCalled = false →
    (∀ chunk encoding, a = .write chunk encoding → validChunk cfg chunk = true ∧
      ∀ len, lenOf cfg chunk encoding = some len → m.st.needDrain = true →
        cfg.highWaterMark ≤ m.st.length + len) ∧
    (m'.st.drains ≠ m.st.drains → .write false ∉ m.stack)

/-- An accepted chunk, and the promise that it makes. -/
lemma Promise.charge {s : State} {k : List Frame} (h : Promise s k) {l : ℤ}
    (hneed : s.endCalled = false → s.needDrain = true → cfg.highWaterMark ≤ s.length + l) :
    Promise (s.charge l (s.length + l < cfg.highWaterMark))
      (.write (s.length + l < cfg.highWaterMark) :: k) := by
  refine ⟨fun he ho => ?_, h.ended, fun f hf hl => ?_⟩
  · by_cases hlt : s.length + l < cfg.highWaterMark
    · have ho' : s.owed = true ∨ .write false ∈ k := by
        simpa [hlt, State.charge] using ho
      have := hneed he (h.drain he ho')
      omega
    · simp [State.charge, hlt]
  · rcases List.mem_cons.mp hf with rfl | hf
    · cases hl
    · exact h.late f hf hl

lemma write_keeps {s : State} {k : List Frame} {chunk : Chunk} {encoding : EncArg}
    (hvalid : s.endCalled = false → validChunk cfg chunk = true)
    (hneed : ∀ len, s.endCalled = false → lenOf cfg chunk encoding = some len →
      s.needDrain = true → cfg.highWaterMark ≤ s.length + len) (h : Promise s k) :
    (Writable.write cfg s chunk encoding).Keeps Promise k := by
  rcases write_cases cfg s chunk encoding with ⟨hrefused, hw⟩ | ⟨-, -, -, hw⟩ |
    ⟨d, len, ret, -, hlen, -, rfl, hw⟩
  · have he : s.endCalled = true := by
      rcases hrefused with he | hv
      · exact h.ended he
      · by_contra hne
        rw [hvalid (by simpa using hne)] at hv
        cases hv
    rw [hw]
    exact .of_endCalled he
  · rw [hw]
    exact h.congr ⟨rfl, rfl, rfl, rfl, rfl⟩
  · have hc := h.charge cfg (l := len) fun he => hneed len he hlen
    rcases hw with ⟨-, hw⟩ | ⟨-, hw⟩
    · rw [hw]
      refine ⟨fun he ho => hc.drain he ?_, hc.ended, hc.pop.late⟩
      rcases ho with ho | ho
      · rcases Bool.or_eq_true_iff.mp ho with ho | ho
        · exact .inl ho
        · refine .inr (List.mem_cons.mpr (.inl ?_))
          rw [Bool.not_eq_true'] at ho
          rw [ho]
      · exact .inr (List.mem_cons_of_mem _ ho)
    · rw [hw]
      rw [Res.keeps_call]
      refine Promise.push (f := .doWrite) ?_ rfl
      exact hc.congr ⟨rfl, rfl, rfl, rfl, rfl⟩

lemma Within.call {m₀ : Stream} {s : State} {a : Act} {r : Result}
    (hr : callOf cfg s a = some r) (hne : ∀ chunk encoding, a ≠ .write chunk encoding)
    {k : List Frame} (h : Within m₀ s k) : r.Keeps (Within m₀) k := by
  cases a with
  | write chunk encoding => exact absurd rfl (hne chunk encoding)
  | cork =>
    obtain rfl := Option.some.inj hr
    exact h.congr ⟨rfl, rfl, rfl, rfl, rfl⟩
  | uncork =>
    obtain rfl := Option.some.inj hr
    exact h.uncork cfg
  | «end» cb =>
    obtain rfl := Option.some.inj hr
    exact h.end cfg cb
  | onwrite er =>
    simp only [callOf] at hr
    split_ifs at hr
    obtain rfl := Option.some.inj hr
    exact h.onwrite cfg er
  | ret => cases hr
  | tick => cases hr

/-- **A step keeps the promise.** -/
theorem step_promise {m m' : Stream} {a : Act} (h : Promise m.st m.stack)
    (hs : step cfg m a = some m') (hsafe : Safe cfg m a m') : Promise m'.st m'.stack := by
  by_cases hw : ∃ chunk encoding, a = .write chunk encoding
  · obtain ⟨chunk, encoding, rfl⟩ := hw
    obtain rfl := Option.some.inj hs
    refine enter_keeps (fun s k hk => hk.pop) (write_keeps cfg (fun he => ?_) ?_ (h.push rfl))
    · exact ((hsafe he).1 chunk encoding rfl).1
    · exact fun len he => ((hsafe he).1 chunk encoding rfl).2 len
  · have h0 : Within m m.st m.stack := ⟨id, le_rfl, id, fun _ => h⟩
    have hin : Within m m'.st m'.stack := by
      refine step_keeps cfg hs h0 (fun s k hk => hk.pop) (fun r hr => ?_)
        (fun s f k _ hk => hk.exec cfg) fun t ts hstack _ => ?_
      · exact (h0.push (f := .user) rfl).call cfg hr fun chunk encoding ha =>
          hw ⟨chunk, encoding, ha⟩
      · have ht : Within m { m.st with ticks := ts } m.stack :=
          h0.congr ⟨rfl, rfl, rfl, rfl, rfl⟩
        rw [hstack] at ht
        exact ht.runTick t
    refine hin.promise fun he hmem => ?_
    by_contra hd
    exact (hsafe he).2 hd hmem

/-- With `needDrain` set and nothing left to write, `afterWrite` emits `'drain'`. -/
lemma afterWrite_drain {s : State} (hn : s.needDrain = true) (hl : s.length = 0) (cb : Cb) :
    (afterWrite false cb s).state.drains = s.drains + 1 := by
  have hd : s.length = 0 ∧ s.needDrain = true := ⟨hl, hn⟩
  have hdrain : onwriteDrain s = .call
      { s with needDrain := false, drains := s.drains + 1, owed := false } [] := if_pos hd
  simp [afterWrite, hdrain, Res.andThen]

/-- **The promise of `false` is kept**, in every run that is safe: `needDrain` is set as long
as `'drain'` is owed, and `afterWrite` emits it once the length is back to 0. -/
theorem drain_promised {m : Stream} (h : Run (step cfg) (Safe cfg) init m)
    (howed : m.st.owed = true) (hend : m.st.endCalled = false) :
    m.st.needDrain = true ∧
      ∀ cb, m.st.length = 0 → (afterWrite false cb m.st).state.drains = m.st.drains + 1 := by
  have h0 : Promise init.st init.stack := by
    refine ⟨fun _ ho => ?_, fun he => absurd he (by decide), fun f hf => (by cases hf)⟩
    rcases ho with ho | ho
    · cases ho
    · cases ho
  have hn : m.st.needDrain = true := by
    have hm := h.invariant h0 fun n a n' hn hs hsafe => step_promise cfg hn hs hsafe
    exact hm.drain hend (.inl howed)
  exact ⟨hn, fun cb hl => afterWrite_drain hn hl cb⟩

/-- A byte stream with a high-water mark of 3. -/
def smallConfig : Config := ⟨3, false, true, some (js "utf8"), false⟩

/-- Two writes that return `false`. -/
def fullWrites : List Act :=
  [.write (.buf [97, 98, 99]) none, .ret, .write (.buf [100]) none]

theorem drain_promised_full :
    ∃ m, Run (step smallConfig) (Safe smallConfig) init m ∧ m.st.owed = true ∧
      m.st.endCalled = false ∧ m.st.needDrain = true := by
  have hwrite : ∀ {m m' : Stream} {b : Bytes}, m'.st.drains = m.st.drains →
      3 ≤ m.st.length + b.length → Safe smallConfig m (.write (.buf b) none) m' := by
    intro m m' b hd hl _
    refine ⟨fun chunk encoding ha => ?_, fun hne => absurd hd hne⟩
    obtain ⟨rfl, rfl⟩ := Act.write.inj ha
    refine ⟨rfl, fun len hlen _ => ?_⟩
    obtain rfl := Option.some.inj hlen
    exact hl
  have hrun : ∃ m, Run (step smallConfig) (Safe smallConfig) init m ∧ m.st.owed = true ∧
      m.st.endCalled = false :=
    ⟨_, Run.of_path .refl (w := fullWrites)
      ⟨_, rfl, hwrite rfl (by decide), _, rfl,
        fun _ => ⟨fun chunk encoding ha => (nomatch ha), fun hne => absurd rfl hne⟩,
        _, rfl, hwrite rfl (by decide), rfl⟩, rfl, rfl⟩
  obtain ⟨m, hm, ho, he⟩ := hrun
  exact ⟨m, hm, ho, he, (drain_promised smallConfig hm ho he).1⟩

/-- A write that returns `false` and, with part of it written, one that returns `true`. -/
def refilled : List Act :=
  [.write (.buf [97, 98]) none, .ret, .write (.buf [99, 100]) none, .onwrite false, .ret, .ret,
    .write (.buf []) none]

theorem true_takes_back_false :
    ¬ ∀ m, Run (step smallConfig) (fun _ _ _ => True) init m → m.st.owed = true →
      m.st.endCalled = false → m.st.needDrain = true := by
  intro h
  have := h _ (Run.of_path .refl (w := refilled)
    ⟨_, rfl, trivial, _, rfl, trivial, _, rfl, trivial, _, rfl, trivial, _, rfl, trivial,
      _, rfl, trivial, _, rfl, trivial, rfl⟩) rfl rfl
  exact absurd this (by decide)

end NodeCore.WritableDrain
