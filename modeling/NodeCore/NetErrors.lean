import NodeCore.Net

/-!
How often a socket fails. A write that fails is reported by the writable side and once more by
`_destroy`; without such writes `errorEmitted` sees to it that there is one `'error'`.
-/

namespace NodeCore.NetErrors

open NodeCore.Encoding NodeCore.Reentrant NodeCore.Net

/-- **What is claimed.** -/
structure Sound (s : Socket) : Prop where
  errors : s.errors ≤ 1
  closes : s.closes ≤ 1

/-- **The condition on a step.** No write fails, at once or later, and none comes after `end`. -/
def Ok (m : System) : Act → Prop
  | .write i _ _ => (m.st.sockets i).ws.ended = false
  | .wrote w => ∀ i k, m.stack = .write i :: k → (m.st.sockets i).connecting = true ∨
      (m.st.sockets i).handle = true ∧ w ≠ .failed
  | .written i failed => failed = true →
      (m.st.sockets i).destroyed = true ∨ (m.st.sockets i).requests.head? ≠ some true
  | _ => True

/-! ### The writable side -/

section Writable

open NodeCore.Writable

/-- No `'error'` of the writable side is to come. -/
def Quiet (l : List Writable.Frame) : Prop := .onwriteError ∉ l

/-- The function leaves it so. -/
abbrev Calm (k : List Writable.Frame) (r : Result) : Prop := r.Keeps (fun _ l => Quiet l) k

variable {cfg : Config} {k : List Writable.Frame}

lemma Quiet.cons {f : Writable.Frame} (h : Quiet k) (hf : f ≠ .onwriteError) : Quiet (f :: k) :=
  fun hmem => (List.mem_cons.mp hmem).elim (fun he => hf he.symm) h

lemma calm_finishMaybe (h : Quiet k) (s : Writable.State) : Calm k (finishMaybe s) := by
  have hprefinish : ∀ k, Quiet k → Calm k (prefinish s) := by
    intro k h
    unfold prefinish
    split_ifs <;> exact h
  unfold finishMaybe
  split_ifs
  · exact Res.Keeps.andThen (hprefinish _ (h.cons (by decide))) fun _ _ => h
  · exact hprefinish k h
  · exact h

lemma calm_clearFrom (h : Quiet k) (s : Writable.State) (c : ℕ) : Calm k (clearFrom cfg s c) := by
  unfold clearFrom
  cases s.buffer[c]? with
  | none => exact h
  | some entry =>
    have hloop : Quiet (.clearLoop c :: k) := h.cons Writable.Frame.noConfusion
    exact hloop.cons (by decide)

lemma calm_clearBuffer (h : Quiet k) (s : Writable.State) : Calm k (clearBuffer cfg s) := by
  unfold clearBuffer
  dsimp only
  split_ifs
  · exact Quiet.cons (h.cons (by decide)) (by decide)
  · exact calm_clearFrom h _ 0

lemma calm_callCb (h : Quiet k) (s : Writable.State) (cb : Cb) : Calm k (callCb s cb) := by
  cases cb with
  | user => exact h
  | writev more => exact h.cons Writable.Frame.noConfusion

lemma calm_afterDrain (h : Quiet k) (s : Writable.State) (cb : Cb) : Calm k (afterDrain cb s) :=
  Res.Keeps.andThen (calm_callCb (h.cons (by decide)) _ cb) fun s _ => calm_finishMaybe h s

lemma calm_afterWrite (h : Quiet k) (s : Writable.State) (finished : Bool) (cb : Cb) :
    Calm k (afterWrite finished cb s) := by
  unfold afterWrite
  refine Res.Keeps.andThen ?_ fun s _ => calm_afterDrain h s cb
  have hk : Quiet (.afterDrain cb :: k) := h.cons Writable.Frame.noConfusion
  unfold onwriteDrain
  split_ifs <;> exact hk

lemma calm_onwriteAfter (h : Quiet k) (s : Writable.State) (sync finished : Bool) (cb : Cb) :
    Calm k (onwriteAfter sync finished cb s) := by
  unfold onwriteAfter
  split_ifs
  · exact h
  · exact calm_afterWrite h s finished cb

/-- A write that has not failed. -/
lemma calm_onwrite (h : Quiet k) (s : Writable.State) : Calm k (onwrite cfg false s) := by
  unfold onwrite
  dsimp only
  rw [if_neg Bool.false_ne_true]
  refine Res.Keeps.andThen ?_ fun s _ => calm_onwriteAfter h s _ _ _
  split_ifs
  · exact calm_clearBuffer (h.cons Writable.Frame.noConfusion) _
  · exact h.cons Writable.Frame.noConfusion

lemma calm_write (h : Quiet k) (s : Writable.State) (chunk : Chunk) (encoding : EncArg) :
    Calm k (Writable.write cfg s chunk encoding) := by
  unfold Writable.write
  split_ifs
  · exact h.cons (by decide)
  · dsimp only
    cases hr : writeOrBuffer cfg { s with pendingcb := s.pendingcb + 1 } chunk
        (encodingOf cfg chunk encoding) with
    | none => exact h
    | some r =>
      obtain ⟨r, ret⟩ := r
      have hk : Quiet (.write ret :: k) := h.cons Writable.Frame.noConfusion
      refine Res.Keeps.andThen (f := Writable.Frame.write ret) ?_ fun _ _ => h
      unfold writeOrBuffer at hr
      simp only [Option.bind_eq_bind, Option.bind_eq_some_iff] at hr
      obtain ⟨chunk', -, len, -, hr⟩ := hr
      split_ifs at hr
      all_goals
        obtain ⟨rfl, -⟩ := Prod.mk.inj (Option.some.inj hr)
      · exact hk
      · exact hk.cons (by decide)

lemma calm_uncork (h : Quiet k) (s : Writable.State) : Calm k (uncork cfg s) := by
  unfold uncork
  dsimp only
  split_ifs
  · exact calm_clearBuffer h _
  · exact h
  · exact h

lemma calm_endUncorked (h : Quiet k) (s : Writable.State) (cb : Bool) :
    Calm k (endUncorked cb s) := by
  unfold endUncorked
  split_ifs
  · exact Res.Keeps.andThen (calm_finishMaybe (h.cons Writable.Frame.noConfusion) _) fun _ _ => h
  · exact h

lemma calm_end (h : Quiet k) (s : Writable.State) (cb : Bool) :
    Calm k (Writable.end cfg cb s) := by
  unfold Writable.end
  refine Res.Keeps.andThen ?_ fun s _ => calm_endUncorked h s cb
  split_ifs
  · exact calm_uncork (h.cons Writable.Frame.noConfusion) _
  · exact h.cons Writable.Frame.noConfusion

lemma calm_runTick (h : Quiet k) (s : Writable.State) (tick : Tick) :
    Calm k (runTick s tick) := by
  cases tick with
  | afterWrite finished cb => exact calm_afterWrite h s finished cb
  | onwriteError cb => exact calm_callCb h _ cb
  | user => exact h

lemma calm_exec {f : Writable.Frame} (h : Quiet (f :: k)) (s : Writable.State) :
    Calm k (Writable.exec cfg s f) := by
  have hk : Quiet k := fun hmem => h (List.mem_cons_of_mem f hmem)
  cases f with
  | user => exact hk
  | doWrite => exact hk
  | write ret => exact hk
  | writeError => exact hk
  | clearLoop c =>
    show Calm k (clearLoop cfg s c)
    unfold clearLoop
    split_ifs
    · exact hk
    · exact calm_clearFrom hk s (c + 1)
  | clearFast => exact hk
  | onwrite sync finished cb => exact calm_onwriteAfter hk s sync finished cb
  | onwriteError => exact hk
  | afterDrain cb => exact calm_afterDrain hk s cb
  | afterCb => exact calm_finishMaybe hk s
  | writevCbs n =>
    cases n with
    | zero => exact hk
    | succ n => exact hk.cons Writable.Frame.noConfusion
  | finish => exact hk
  | endUncorked cb => exact calm_endUncorked hk s cb
  | endWritable cb => exact hk

end Writable

/-! ### Sockets -/

/-- What `_destroy` has announced is all that has been emitted or will be, and a handle that is
closed calls back once. -/
structure Fine (s : Socket) : Prop where
  errors : s.errors + s.errorTicks = if s.errorEmitted then 1 else 0
  closes : s.closes + s.closing.toNat + s.handle.toNat ≤ 1

structure Once (t : State) (k : List Frame) : Prop where
  fine : ∀ i, Fine (t.sockets i)
  quiet : ∀ i, .writable i .onwriteError ∉ k

lemma Fine.sound {s : Socket} (h : Fine s) : Sound s := by
  obtain ⟨h1, h2⟩ := h
  constructor
  · split_ifs at h1 <;> omega
  · omega

lemma fine_new (handle connecting : Bool) : Fine (.new handle connecting) :=
  ⟨rfl, by cases handle <;> simp [Socket.new]⟩

variable {cfg : Writable.Config} {t : State} {k : List Frame}

lemma Once.put (h : Once t k) {i : ℕ} {s : Socket} (hs : Fine s) : Once (t.put i s) k := by
  refine ⟨fun j => ?_, h.quiet⟩
  rcases eq_or_ne j i with rfl | hne
  · simpa [State.put]
  · simpa [State.put, hne] using h.fine j

lemma Once.push (h : Once t k) {f : Frame} (hf : ∀ i, f ≠ .writable i .onwriteError) :
    Once t (f :: k) := by
  refine ⟨h.fine, fun i hmem => ?_⟩
  rcases List.mem_cons.mp hmem with he | hmem
  · exact hf i he.symm
  · exact h.quiet i hmem

lemma Once.pop {f : Frame} (h : Once t (f :: k)) : Once t k :=
  ⟨h.fine, fun i hmem => h.quiet i (List.mem_cons_of_mem f hmem)⟩

lemma Once.onWritable (h : Once t k) (i : ℕ) {r : Writable.Result} (hr : Calm [] r) :
    (t.onWritable i r).Keeps Once k := by
  cases r with
  | ret ws => exact h.put ⟨(h.fine i).1, (h.fine i).2⟩
  | call ws fs =>
    have hput : Once (t.put i { t.sockets i with ws := ws }) k :=
      h.put ⟨(h.fine i).1, (h.fine i).2⟩
    refine ⟨hput.fine, fun j hmem => ?_⟩
    unfold State.onWritable Res.within at hmem
    rw [Res.frames_call] at hmem
    rcases List.mem_append.mp hmem with hmem | hmem
    · rcases List.mem_append.mp hmem with hmem | hmem
      · dsimp only at hmem
        split at hmem
        · cases List.mem_singleton.mp hmem
        · cases hmem
      · obtain ⟨f, hf, he⟩ := List.mem_map.mp hmem
        cases he
        exact hr (List.mem_append_left [] hf)
    · exact h.quiet j hmem

lemma quiet_nil : Quiet [] := List.not_mem_nil

lemma Once.onwrite (h : Once t k) (i : ℕ) : (t.onwrite cfg i false).Keeps Once k := by
  unfold State.onwrite
  simp only [Bool.false_and, Bool.false_eq_true, if_false]
  exact h.onWritable i (calm_onwrite quiet_nil _)

lemma Once.errorOnce (h : Once t k) (i : ℕ) (exception : Bool) :
    Once (t.errorOnce i exception) k := by
  unfold State.errorOnce
  dsimp only
  split_ifs with he
  · refine h.put ⟨?_, (h.fine i).2⟩
    have herrors := (h.fine i).errors
    simp only [Bool.and_eq_true, Bool.not_eq_true'] at he
    rw [he.2, if_neg Bool.false_ne_true] at herrors
    simp only [if_true]
    omega
  · exact h

lemma Once.destroyEnd (h : Once t k) (i : ℕ) (exception : Bool) :
    Once (t.destroyEnd i exception) k := by
  have he := h.errorOnce i exception
  have hfine := he.fine i
  unfold State.destroyEnd
  dsimp only
  split_ifs
  · have hput := he.put (i := i) (s := { (t.errorOnce i exception).sockets i with
      destroyed := true, decrements := ((t.errorOnce i exception).sockets i).decrements + 1 })
      ⟨hfine.1, hfine.2⟩
    exact ⟨hput.fine, hput.quiet⟩
  · exact he.put ⟨hfine.1, hfine.2⟩

/-- A socket is destroyed, and no write has failed. -/
lemma Once._destroy (h : Once t k) (i : ℕ) (exception : Bool) :
    (t._destroy cfg i exception false).Keeps Once k := by
  have hfine := h.fine i
  unfold State._destroy
  simp only [Bool.false_eq_true, if_false]
  split_ifs
  · exact h.errorOnce i exception
  · have hput : Once (t.put i { t.sockets i with
        connecting := false
        closing := (t.sockets i).closing || (t.sockets i).handle
        handle := false }) k := by
      refine h.put ⟨hfine.errors, ?_⟩
      have hcloses := hfine.closes
      cases hc : (t.sockets i).closing <;> cases hh : (t.sockets i).handle <;> simp_all
    exact hput.destroyEnd i exception

/-! ### Steps -/

lemma Once.exec {f : Frame} (h : Once t (f :: k)) : (t.exec cfg f).Keeps Once k := by
  cases f with
  | user => exact h.pop
  | writable i f =>
    have hf : f ≠ .onwriteError := by
      rintro rfl
      exact h.quiet i List.mem_cons_self
    unfold State.exec
    dsimp only
    rw [if_neg hf]
    refine h.pop.onWritable i (calm_exec (fun hmem => ?_) _)
    exact hf (List.mem_singleton.mp hmem).symm
  | write i => exact h.pop
  | connect i => exact h.pop.push (f := .write i) fun _ => Frame.noConfusion
  | destroy i exception => exact h.pop.destroyEnd i exception
  | destroyed i exception => exact h.pop.errorOnce i exception

lemma Once.write (h : Once t k) {i : ℕ} (hi : (t.sockets i).ws.ended = false)
    (chunk : Writable.Chunk) (encoding : EncArg) :
    (t.write cfg i chunk encoding).Keeps Once k := by
  have hgo : (t.onWritable i (Writable.write cfg (t.sockets i).ws chunk encoding)).Keeps Once k :=
    h.onWritable i (calm_write quiet_nil _ chunk encoding)
  unfold State.write
  cases chunk with
  | null => exact h
  | obj => exact h
  | str s => simpa only [hi, Bool.false_eq_true, if_false] using hgo
  | buf b => simpa only [hi, Bool.false_eq_true, if_false] using hgo

lemma Once.writeGeneric (h : Once t k) {i : ℕ} {w : Wrote}
    (hok : (t.sockets i).connecting = true ∨ (t.sockets i).handle = true ∧ w ≠ .failed) :
    (t._writeGeneric cfg i w).Keeps Once k := by
  unfold State._writeGeneric
  dsimp only
  by_cases hc : (t.sockets i).connecting = true
  · rw [if_pos hc]
    exact h.put ⟨(h.fine i).1, (h.fine i).2⟩
  · obtain ⟨hh, hw⟩ := hok.resolve_left hc
    rw [if_neg hc, if_neg (by rw [hh]; decide)]
    cases w with
    | failed => exact absurd rfl hw
    | flushed =>
      have hput : Once (t.put i { t.sockets i with
          requests := (t.sockets i).requests ++ [false] }) k :=
        h.put ⟨(h.fine i).1, (h.fine i).2⟩
      exact hput.onwrite i
    | pending => exact h.put ⟨(h.fine i).1, (h.fine i).2⟩

lemma Once.afterWrite (h : Once t k) {i : ℕ} {failed : Bool} (hok : failed = true →
      (t.sockets i).destroyed = true ∨ (t.sockets i).requests.head? ≠ some true) :
    (t.afterWrite cfg i failed).Keeps Once k := by
  unfold State.afterWrite
  dsimp only
  cases hrequests : (t.sockets i).requests with
  | nil => exact h
  | cons cb requests =>
    have hput : Once (t.put i { t.sockets i with requests := requests }) k :=
      h.put ⟨(h.fine i).1, (h.fine i).2⟩
    dsimp only
    split_ifs with hd hf hcb
    · exact hput
    · have hcb : cb = false := by
        have hhead := (hok hf).resolve_left hd
        rw [hrequests] at hhead
        cases cb with
        | false => rfl
        | true => exact absurd rfl hhead
      rw [hcb]
      exact hput._destroy i true
    · exact hput.onwrite i
    · exact hput

lemma Once.afterConnect (h : Once t k) (i : ℕ) (ok : Bool) :
    (t.afterConnect cfg i ok).Keeps Once k := by
  unfold State.afterConnect
  dsimp only
  split_ifs
  · exact h
  · have hput : Once (t.put i { t.sockets i with connecting := false, deferred := false }) k :=
      h.put ⟨(h.fine i).1, (h.fine i).2⟩
    exact hput.push (f := .connect i) fun _ => Frame.noConfusion
  · exact h.put ⟨(h.fine i).1, (h.fine i).2⟩
  · have hput : Once (t.put i { t.sockets i with connecting := false }) k :=
      h.put ⟨(h.fine i).1, (h.fine i).2⟩
    exact hput._destroy i true

lemma Once.add (h : Once t k) (handle connecting : Bool) :
    Once (t.add (.new handle connecting)) k := by
  have hput : Once (t.put t.count (.new handle connecting)) k := h.put (fine_new _ _)
  exact ⟨hput.fine, hput.quiet⟩

/-- A new socket is accepted, whatever has happened to it. -/
lemma Once.accept (h : Once t k) (i : ℕ) (v : Server) :
    Once { t.put i { t.sockets i with server := true } with server := v } k := by
  have hput : Once (t.put i { t.sockets i with server := true }) k :=
    h.put ⟨(h.fine i).1, (h.fine i).2⟩
  exact ⟨hput.fine, hput.quiet⟩

lemma Once.onconnection (h : Once t k) (fails : Bool) :
    (t.onconnection cfg fails).Keeps Once k := by
  unfold State.onconnection
  dsimp only
  split_ifs
  · exact h
  · have hkeeps : ((t.add (.new true false))._destroy cfg t.count true false).Keeps Once k :=
      (h.add true false)._destroy t.count true
    have hstate : Once ((t.add (.new true false))._destroy cfg t.count true false).state k :=
      ⟨hkeeps.fine, fun i hmem => hkeeps.quiet i (List.mem_append_right _ hmem)⟩
    exact hstate.accept _ _
  · exact (h.add true false).accept _ _

lemma Once.send (h : Once t k) (i child : ℕ) : Once (t.send i child) k := by
  have hfine := h.fine i
  have hs : Fine { t.sockets i with handle := false, sent := true } := by
    refine ⟨hfine.errors, ?_⟩
    have hcloses := hfine.closes
    show (t.sockets i).closes + (t.sockets i).closing.toNat + 0 ≤ 1
    omega
  unfold State.send
  dsimp only
  split_ifs
  · have h' : Once { t with server := { t.server with
        connections := t.server.connections - 1 } } k := ⟨h.fine, h.quiet⟩
    exact h'.put hs
  · have h' : Once { t with server := { t.server.setupSlave child with
        connections := (t.server.setupSlave child).connections - 1 } } k := ⟨h.fine, h.quiet⟩
    exact h'.put hs
  · exact h.put hs

/-- What foreign code calls. -/
lemma Once.callOf {m : System} {a : Act} {r : Outcome} (h : Once m.st k) (hok : Ok m a)
    (hr : callOf cfg m.st a = some r) : r.Keeps Once k := by
  cases a with
  | socket connecting =>
    obtain rfl := Option.some.inj hr
    exact h.add connecting connecting
  | write i chunk encoding =>
    obtain rfl := Option.some.inj hr
    exact h.write hok chunk encoding
  | cork i =>
    obtain rfl := Option.some.inj hr
    exact h.onWritable i quiet_nil
  | uncork i =>
    obtain rfl := Option.some.inj hr
    exact h.onWritable i (calm_uncork quiet_nil _)
  | «end» i cb =>
    obtain rfl := Option.some.inj hr
    exact h.onWritable i (calm_end quiet_nil _ cb)
  | destroy i exception =>
    obtain rfl := Option.some.inj hr
    exact h._destroy i exception
  | close =>
    obtain rfl := Option.some.inj hr
    exact ⟨h.fine, h.quiet⟩
  | send i child =>
    unfold Net.callOf at hr
    dsimp only at hr
    split_ifs at hr
    obtain rfl := Option.some.inj hr
    exact h.send i child
  | _ => cases hr

/-- What the event loop calls. -/
lemma Once.eventOf {m : System} {a : Act} {r : Outcome} (h : Once m.st k) (hok : Ok m a)
    (hr : eventOf cfg m.st a = some r) : r.Keeps Once k := by
  cases Event.of_some hr with
  | connection fails _ => exact h.onconnection fails
  | connected i ok => exact h.afterConnect i ok
  | written i failed => exact h.afterWrite hok
  | closed i hc =>
    refine h.put ⟨(h.fine i).errors, ?_⟩
    have hcloses := (h.fine i).closes
    rw [hc] at hcloses
    have hone : true.toNat = 1 := rfl
    show (m.st.sockets i).closes + 1 + 0 + (m.st.sockets i).handle.toNat ≤ 1
    omega
  | reply child => exact ⟨h.fine, h.quiet⟩
  | disconnect child => exact ⟨h.fine, h.quiet⟩
  | tickWritable i tick ts => exact h.onWritable i (calm_runTick quiet_nil _ _)
  | tickError i hpos =>
    have heq : m.st.tickError i = m.st.put i { m.st.sockets i with
        errorTicks := (m.st.sockets i).errorTicks - 1, errors := (m.st.sockets i).errors + 1 } := by
      simp [State.tickError, State.emitError, State.put]
    rw [heq]
    refine h.put ⟨?_, (h.fine i).closes⟩
    have herrors := (h.fine i).errors
    show (m.st.sockets i).errors + 1 + ((m.st.sockets i).errorTicks - 1) = _
    rw [← herrors]
    omega
  | tickClose _ => exact ⟨h.fine, h.quiet⟩

lemma Once.step {m m' : System} {a : Act} (h : Once m.st m.stack) (hok : Ok m a)
    (hs : step cfg m a = some m') : Once m'.st m'.stack := by
  refine step_keeps hs h (fun t k h => h.push fun _ => Frame.noConfusion)
    (fun t f k _ h => h.pop) (fun t f k h => h.exec) (fun w i k ha hk h => ?_)
    (fun r hr h => h.callOf hok hr) fun r hk hr => ?_
  · subst ha
    exact h.writeGeneric (hok i k hk)
  · have h0 : Once m.st [] := hk ▸ h
    exact h0.eventOf hok hr

lemma once_init (maxConnections : ℤ) :
    Once (init maxConnections).st (init maxConnections).stack :=
  ⟨fun _ => fine_new _ _, fun _ => List.not_mem_nil⟩

/-- **A socket fails once** in every run in which no write fails: there is one `'error'` at most,
and one `'close'`. -/
theorem fails_once (cfg : Writable.Config) (maxConnections : ℤ) {m : System}
    (h : Run (step cfg) (fun m a _ => Ok m a) (init maxConnections) m) (i : ℕ) :
    Sound (m.st.sockets i) := by
  have honce : Once m.st m.stack :=
    h.invariant (I := fun m => Once m.st m.stack) (once_init maxConnections)
      fun _ _ _ h hs hok => h.step hok hs
  exact (honce.fine i).sound

/-- The options of a socket. -/
def plain : Writable.Config := ⟨16384, false, false, none, false⟩

/-- A socket that cannot be connected, and is destroyed twice. -/
def refused : List Act :=
  [.socket true, .write 0 (.buf [1]) none, .wrote .pending, .connected 0 false,
    .destroy 0 true, .tickError 0, .destroy 0 true, .closed 0]

theorem fails_once_refused :
    ∃ m, Run (step plain) (fun m a _ => Ok m a) (init 0) m ∧ (m.st.sockets 0).errors = 1 ∧
      Sound (m.st.sockets 0) := by
  have hrun : ∃ m, Run (step plain) (fun m a _ => Ok m a) (init 0) m ∧
      (m.st.sockets 0).errors = 1 :=
    ⟨_, Run.of_path .refl (w := refused)
      ⟨_, rfl, trivial, _, rfl, rfl, _, rfl, fun i k h => .inl (by cases h; rfl),
        _, rfl, trivial, _, rfl, trivial, _, rfl, trivial, _, rfl, trivial, _, rfl, trivial, rfl⟩,
      rfl⟩
  obtain ⟨m, hm, herrors⟩ := hrun
  exact ⟨m, hm, herrors, fails_once plain 0 hm 0⟩

/-- A write fails when its request completes. -/
def brokenPipe : List Act :=
  [.connection false, .write 0 (.buf [1]) none, .wrote .pending, .written 0 true, .ret, .ret,
    .tickError 0]

/-- The writable side emits `'error'`, and then `_destroy` does. -/
theorem fails_twice :
    ¬ ∀ m, Run (step plain) (fun _ _ _ => True) (init 0) m → ∀ i, Sound (m.st.sockets i) := by
  intro h
  have hrun : ∃ m, Run (step plain) (fun _ _ _ => True) (init 0) m ∧
      (m.st.sockets 0).errors = 2 :=
    ⟨_, Run.of_path .refl (w := brokenPipe)
      ⟨_, rfl, trivial, _, rfl, trivial, _, rfl, trivial, _, rfl, trivial, _, rfl, trivial,
        _, rfl, trivial, _, rfl, trivial, rfl⟩, rfl⟩
  obtain ⟨m, hm, herrors⟩ := hrun
  have hsound := (h m hm 0).errors
  omega

end NodeCore.NetErrors
