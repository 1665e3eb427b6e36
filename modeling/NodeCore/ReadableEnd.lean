import NodeCore.ReadableEvents

/-!
A readable stream ends once, when it has been told to and everything has been read.

Until `'end'` is emitted, `endReadable` is called on a stream that has ended with nothing left in
its buffer. After that the stream stays empty: nothing can be pushed or unshifted any more.
-/

namespace NodeCore.ReadableEnd

open NodeCore.Encoding NodeCore.Reentrant NodeCore.ReadableEvents
open NodeCore.Readable (State Frame Tick Chunk maybeReadMore)

variable {α σ : Type}

/-! ### Before the end -/

/-- `'end'` has not been emitted; it is queued only once the stream has been told to end. -/
structure Early (w : Watched α σ) : Prop where
  told : w.st.ended → w.pushed ∨ w.unshifted
  queued : .end ∈ w.st.ticks → w.st.ended
  ends : w.ends = []
  endEmitted : w.st.endEmitted = false
  late : w.late = []
  threw : w.threw = false

/-- A function that keeps the stream before its end. -/
abbrev KeepsEarly (r : Outcome α σ) : Prop := r.Keeps (fun w _ => Early w) []

/-- A change of what neither the end nor the queue knows of. -/
lemma Early.set {w : Watched α σ} (h : Early w) {s : State α σ} (hended : s.ended = w.st.ended)
    (hemitted : s.endEmitted = w.st.endEmitted) (hticks : .end ∈ s.ticks → .end ∈ w.st.ticks) :
    Early { w with st := s } where
  told := fun hs => h.told (hended ▸ hs)
  queued := fun hs => hended.trans (h.queued (hticks hs))
  ends := h.ends
  endEmitted := hemitted.trans h.endEmitted
  late := h.late
  threw := h.threw

lemma KeepsEarly.andThen {r : Outcome α σ} {f : Frame} {g : Watched α σ → Outcome α σ}
    (hr : KeepsEarly r) (hg : ∀ w, Early w → KeepsEarly (g w)) : KeepsEarly (r.andThen f g) :=
  Res.Keeps.andThen (I := fun w _ => Early w) hr hg

section Early

variable {mode : Mode α σ} {w : Watched α σ}

lemma Early.wake (h : Early w) : Early w.wake :=
  ⟨h.told, h.queued, h.ends, h.endEmitted, h.late, h.threw⟩

lemma Early.emitReadable (h : Early w) : KeepsEarly w.emitReadable := by
  unfold Watched.emitReadable Readable.emitReadable
  split_ifs with hwake hemitted hsync hemitted hsync
  · simp [hemitted] at hwake
  · simp [hsync] at hwake
  · exact h.wake.set rfl rfl id
  · exact h.set rfl rfl id
  · refine h.set rfl rfl fun ht => ?_
    simpa using ht
  · exact h.set rfl rfl id

lemma Early.endReadable (h : Early w) (hended : w.st.ended) (hlen : w.st.length ≤ 0) :
    Early w.endReadable := by
  unfold Watched.endReadable Readable.endReadable
  rw [if_neg hlen.not_gt]
  split_ifs
  · exact ⟨fun _ => h.told hended, fun _ => rfl, h.ends, h.endEmitted, h.late, h.threw⟩
  · exact h

lemma Early.addChunkDone (h : Early w) : KeepsEarly w.addChunkDone := by
  unfold Watched.addChunkDone Readable.addChunkDone maybeReadMore
  refine h.set ?_ ?_ fun ht => ?_
  · split_ifs <;> rfl
  · split_ifs <;> rfl
  · split_ifs at ht
    · simpa using ht
    · exact ht

lemma Early.chunkAdded (h : Early w) : KeepsEarly w.chunkAdded := by
  unfold Watched.chunkAdded
  refine KeepsEarly.andThen ?_ fun w hw => hw.addChunkDone
  split_ifs
  · exact h.emitReadable
  · exact h

/-- The first `null`. -/
lemma Early.onEofChunk (h : Early w) (htold : w.pushed ∨ w.unshifted) :
    KeepsEarly (w.onEofChunk mode) := by
  unfold Watched.onEofChunk
  extract_lets chunk s w'
  have hs : s.endEmitted = w.st.endEmitted := by
    unfold s
    split_ifs <;> rfl
  have hw : Early w' :=
    ⟨fun _ => htold, fun _ => rfl, h.ends, hs.trans h.endEmitted, h.late, h.threw⟩
  split_ifs with hlen
  · exact hw.emitReadable
  · exact hw.endReadable rfl (not_lt.mp hlen)

lemma Early.addNull (h : Early w) (htold : w.pushed ∨ w.unshifted) :
    KeepsEarly (w.addNull mode) := by
  have hw : Early { w with st := { w.st with reading := false } } := h.set rfl rfl id
  unfold Watched.addNull
  dsimp only
  split_ifs
  · exact hw
  · exact hw.onEofChunk htold

lemma Early.readableAddChunk (h : Early w) (chunk : Watched.Given α) :
    KeepsEarly (w.readableAddChunk mode chunk) := by
  unfold Watched.readableAddChunk
  split
  · exact h
  · exact Early.addNull ⟨fun _ => .inl rfl, h.queued, h.ends, h.endEmitted, h.late, h.threw⟩
      (.inl rfl)
  · split_ifs
    · exact h.set rfl rfl id
    · exact h
    · split
      · exact Early.chunkAdded ⟨h.told, h.queued, h.ends, h.endEmitted, h.late, h.threw⟩
      · exact h.set rfl rfl id

lemma Early.push (h : Early w) (chunk : Chunk) (encoding : EncArg) :
    KeepsEarly (w.push mode chunk encoding) := by
  unfold Watched.push
  cases chunk with
  | invalid => exact h.readableAddChunk _
  | null => exact h.readableAddChunk _
  | buf b => exact h.readableAddChunk _
  | str text =>
    dsimp only
    split_ifs
    · split
      · exact h.readableAddChunk _
      · exact h
    · exact h.readableAddChunk _

lemma Early.pushObject (h : Early w) (chunk : Option α) (encoding : Bool) :
    KeepsEarly (w.pushObject mode chunk encoding) := by
  cases chunk with
  | none => exact h.readableAddChunk .null
  | some o => exact h.readableAddChunk (if encoding then .units [o] else .object o)

lemma Early.unshift (h : Early w) (chunk : Option (List α)) :
    KeepsEarly (w.unshift mode chunk) := by
  cases chunk with
  | none =>
    exact Early.addNull ⟨fun _ => .inr rfl, h.queued, h.ends, h.endEmitted, h.late, h.threw⟩
      (.inr rfl)
  | some chunk =>
    have hw : Early { w with st := w.st.prepend chunk } := h.set rfl rfl id
    unfold Watched.unshift
    dsimp only
    split_ifs
    · exact h
    · exact h
    · exact hw.chunkAdded

/-! #### Reading -/

lemma Early.howMuchToRead (h : Early w) (n : Option ℤ) :
    Early { w with st := (Watched.howMuchToRead mode n w.st).2 } := by
  obtain ⟨hwm, need, -, hs⟩ := Watched.howMuchToRead_state mode n w.st
  rw [hs]
  exact h.set rfl rfl id

lemma Early.give (h : Early w) (n : Option ℤ) (found : Bool) (ret : Option (List α)) :
    Early (w.give n found ret) :=
  ⟨h.told, h.queued, h.ends, h.endEmitted, (if_pos h.ends).trans h.late, h.threw⟩

lemma Early.readEnd (h : Early w) (n : ℤ) (nOrig : Option ℤ) (found : Bool) :
    Early (w.readEnd mode n nOrig found) := by
  unfold Watched.readEnd
  dsimp only
  refine Early.give ?_ _ _ _
  generalize (if 0 < n then Watched.fromList mode n w.st.length w.st.buffer
    else (none, w.st.buffer)) = r
  have hset (s : State α σ) (hs : Early { w with st := s }) : Early
      (if s.ended ∧ !s.endEmitted ∧ s.length = 0 then Watched.endReadable { w with st := s }
        else { w with st := s }) := by
    split_ifs with hend
    · exact hs.endReadable hend.1 hend.2.2.le
    · exact hs
  refine hset _ (h.set ?_ ?_ fun ht => ?_)
  · split_ifs <;> rfl
  · split_ifs <;> rfl
  · split_ifs at ht <;> exact ht

lemma Early.readDone (h : Early w) (n : ℤ) (nOrig : Option ℤ) (found : Bool) :
    KeepsEarly (w.readDone mode n nOrig found) := by
  have hsync : Early { w with st := { w.st with sync := false } } := h.set rfl rfl id
  unfold Watched.readDone
  dsimp only
  split_ifs
  · exact (hsync.howMuchToRead nOrig).readEnd _ _ _
  · exact hsync.readEnd _ _ _

lemma Early.readFrom (h : Early w) (n : ℤ) (nOrig : Option ℤ) (found : Bool) :
    KeepsEarly (w.readFrom mode n nOrig found) := by
  unfold Watched.readFrom
  split_ifs with hend hlen
  · exact (h.endReadable hend.2 hlen.le).give _ _ _
  · exact h.give _ _ _
  · exact h.set rfl rfl id
  · exact h.readEnd _ _ _

lemma Early.read (h : Early w) (n : Option ℤ) : KeepsEarly (w.read mode n) := by
  unfold Watched.read
  extract_lets src s w' found
  have hw : Early w' := h.set rfl rfl id
  split_ifs
  · exact hw.emitReadable
  · exact (hw.howMuchToRead n).readFrom _ _ _

lemma Early.readMoreDone (h : Early w) : KeepsEarly w.readMoreDone := h.set rfl rfl id

lemma Early.readMoreLoop (h : Early w) : KeepsEarly (w.readMoreLoop mode) := by
  unfold Watched.readMoreLoop
  split_ifs
  · exact KeepsEarly.andThen (h.read _) fun w hw => hw.readMoreDone
  · exact h.readMoreDone

lemma Early.exec (h : Early w) (f : Frame) : KeepsEarly (w.exec mode f) := by
  cases f with
  | user => exact h
  | addChunk => exact h.addChunkDone
  | read n nOrig found => exact h.readDone n nOrig found
  | readMore len =>
    unfold Watched.exec Watched.readMoreAfter
    dsimp only
    split_ifs
    · exact h.readMoreDone
    · exact h.readMoreLoop

lemma Early.onReadable (h : Early w) : KeepsEarly (w.onReadable mode) := by
  unfold Watched.onReadable
  extract_lets src w'
  have hw : Early w' := h.set rfl rfl id
  split_ifs
  · exact h
  · exact hw.read _
  · exact hw.emitReadable
  · exact hw

end Early

/-! ### After the end -/

/-- `'end'` has been emitted. -/
structure Over (w : Watched α σ) : Prop where
  ended : w.st.ended
  endEmitted : w.st.endEmitted
  length : w.st.length = 0
  once : ∃ e, w.ends = [e] ∧ (e.pushed ∨ e.unshifted) ∧ e.length = 0
  late : w.late = []
  threw : w.threw = false

/-- A function that keeps the stream at its end, and is finished when foreign code runs. -/
def KeepsOver (r : Outcome α σ) : Prop := Over r.state ∧ r.frames = []

section Over

variable {mode : Mode α σ} {w : Watched α σ}

lemma Over.set (h : Over w) {s : State α σ} (hended : s.ended = w.st.ended)
    (hemitted : s.endEmitted = w.st.endEmitted) (hlen : s.length = w.st.length) :
    Over { w with st := s } :=
  ⟨hended ▸ h.ended, hemitted ▸ h.endEmitted, hlen.trans h.length, h.once, h.late, h.threw⟩

lemma Over.emitReadable (h : Over w) : KeepsOver w.emitReadable := by
  have hwake : Over w.wake := ⟨h.ended, h.endEmitted, h.length, h.once, h.late, h.threw⟩
  unfold Watched.emitReadable Readable.emitReadable
  split_ifs with hasleep hemitted hsync hemitted hsync
  · simp [hemitted] at hasleep
  · simp [hsync] at hasleep
  · exact ⟨hwake.set rfl rfl rfl, rfl⟩
  · exact ⟨h.set rfl rfl rfl, rfl⟩
  · exact ⟨h.set rfl rfl rfl, rfl⟩
  · exact ⟨h.set rfl rfl rfl, rfl⟩

lemma Over.addNull (h : Over w) : KeepsOver (w.addNull mode) := by
  unfold Watched.addNull
  dsimp only
  rw [if_pos h.ended]
  exact ⟨h.set rfl rfl rfl, rfl⟩

lemma Over.readableAddChunk (h : Over w) (chunk : Watched.Given α) :
    KeepsOver (w.readableAddChunk mode chunk) := by
  unfold Watched.readableAddChunk
  split
  · exact ⟨h, rfl⟩
  · exact Over.addNull ⟨h.ended, h.endEmitted, h.length, h.once, h.late, h.threw⟩
  · rw [if_pos h.ended]
    split_ifs
    · exact ⟨h.set rfl rfl rfl, rfl⟩
    · exact ⟨h, rfl⟩

lemma Over.push (h : Over w) (chunk : Chunk) (encoding : EncArg) :
    KeepsOver (w.push mode chunk encoding) := by
  unfold Watched.push
  cases chunk with
  | invalid => exact h.readableAddChunk _
  | null => exact h.readableAddChunk _
  | buf b => exact h.readableAddChunk _
  | str text =>
    dsimp only
    split_ifs
    · split
      · exact h.readableAddChunk _
      · exact ⟨h, rfl⟩
    · exact h.readableAddChunk _

lemma Over.pushObject (h : Over w) (chunk : Option α) (encoding : Bool) :
    KeepsOver (w.pushObject mode chunk encoding) := by
  cases chunk with
  | none => exact h.readableAddChunk .null
  | some o => exact h.readableAddChunk (if encoding then .units [o] else .object o)

lemma Over.unshift (h : Over w) (chunk : Option (List α)) :
    KeepsOver (w.unshift mode chunk) := by
  cases chunk with
  | none => exact Over.addNull ⟨h.ended, h.endEmitted, h.length, h.once, h.late, h.threw⟩
  | some chunk =>
    unfold Watched.unshift
    dsimp only
    rw [if_pos h.endEmitted]
    split_ifs
    · exact ⟨h, rfl⟩
    · exact ⟨h, rfl⟩

/-- There is nothing to read, and `'end'` is not queued again. -/
lemma Over.readFrom (h : Over w) (nOrig : Option ℤ) (found : Bool) :
    KeepsOver (w.readFrom mode 0 nOrig found) := by
  have hend : w.endReadable = w := by
    unfold Watched.endReadable Readable.endReadable
    rw [if_neg h.length.not_gt, if_neg (by simp [h.endEmitted])]
  unfold Watched.readFrom
  rw [if_pos ⟨rfl, h.ended⟩, if_pos h.length, hend]
  refine ⟨⟨h.ended, h.endEmitted, h.length, h.once, ?_, h.threw⟩, rfl⟩
  simp [Watched.give, h.late]

lemma Over.read (h : Over w) (n : Option ℤ) : KeepsOver (w.read mode n) := by
  unfold Watched.read
  extract_lets src s w' found
  have hw : Over w' := h.set rfl rfl rfl
  have hmuch : Watched.howMuchToRead mode n s = (0, s) := by
    have hempty : s.length = 0 ∧ s.ended := ⟨h.length, h.ended⟩
    unfold Watched.howMuchToRead Readable.howMuchToRead
    rw [if_neg fun hobject => hobject.2 hempty, if_pos hempty]
  split_ifs
  · exact hw.emitReadable
  · rw [hmuch]
    exact hw.readFrom n found

lemma Over.onReadable (h : Over w) : KeepsOver (w.onReadable mode) := by
  unfold Watched.onReadable
  rw [if_pos (by simp [h.endEmitted])]
  exact ⟨h, rfl⟩

lemma Over.runTick (mode : Mode α σ) (h : Over w) (t : Tick) : KeepsOver (w.runTick mode t) := by
  cases t with
  | emitReadable => exact ⟨⟨h.ended, h.endEmitted, h.length, h.once, h.late, h.threw⟩, rfl⟩
  | readMore =>
    unfold Watched.runTick Watched.readMoreLoop
    dsimp only
    rw [if_neg (by simp [h.ended])]
    exact ⟨h.set rfl rfl rfl, rfl⟩
  | «end» =>
    unfold Watched.runTick
    dsimp only
    rw [if_neg (by simp [h.endEmitted])]
    exact ⟨h, rfl⟩

end Over

/-! ### Runs -/

variable (mode : Mode α σ)

/-- Nothing of the stream is waiting for foreign code to return. -/
def Finished (k : List Frame) : Prop := ∀ f ∈ k, f = .user

/-- Where a stream stands. -/
def Stage (w : Watched α σ) (k : List Frame) : Prop := Early w ∨ Over w ∧ Finished k

/-- The tick that emits `'end'`. -/
lemma Early.runTick {w : Watched α σ} {ts : List Tick} {t : Tick} (h : Early w)
    (hticks : w.st.ticks = t :: ts) :
    (Watched.runTick mode { w with st := { w.st with ticks := ts } } t).Keeps Stage [] := by
  have hw : Early { w with st := { w.st with ticks := ts } } :=
    h.set rfl rfl fun ht => hticks ▸ List.mem_cons_of_mem t ht
  cases t with
  | emitReadable => exact .inl hw.wake
  | readMore => exact .inl hw.readMoreLoop
  | «end» =>
    have hended : w.st.ended := h.queued (hticks ▸ List.mem_cons_self)
    unfold Watched.runTick
    dsimp only
    split_ifs with hend
    · have hlen : w.st.length = 0 := by simpa [h.endEmitted] using hend
      have hends (e : End) : w.ends ++ [e] = [e] := by rw [h.ends, List.nil_append]
      exact .inr ⟨⟨hended, rfl, hlen, ⟨_, hends _, h.told hended, hlen⟩, h.late, h.threw⟩, nofun⟩
    · exact .inl hw

lemma keeps_stage {w : Watched α σ} {k : List Frame} {r : Outcome α σ} (h : Stage w k)
    (hearly : Early w → KeepsEarly r) (hover : Over w → KeepsOver r) :
    r.Keeps Stage (.user :: k) := by
  rcases h with h | ⟨h, hk⟩
  · exact .inl (hearly h)
  · obtain ⟨hr, hframes⟩ := hover h
    refine .inr ⟨hr, ?_⟩
    rw [hframes]
    exact List.forall_mem_cons.mpr ⟨rfl, hk⟩

theorem step_stage {m m' : System α σ} {a : Act α} (h : Stage m.st m.stack)
    (hs : step mode m a = some m') : Stage m'.st m'.stack := by
  have hpop (w : Watched α σ) (k : List Frame) (hw : Stage w (.user :: k)) : Stage w k :=
    hw.imp_right fun hw => ⟨hw.1, (List.forall_mem_cons.mp hw.2).2⟩
  have hcalled (r : Outcome α σ) (hearly : Early m.st → KeepsEarly r)
      (hover : Over m.st → KeepsOver r) (hr : some (enter .user m r) = some m') :
      Stage m'.st m'.stack := by
    rw [← Option.some.inj hr]
    exact enter_keeps hpop (keeps_stage h hearly hover)
  cases a with
  | push chunk encoding =>
    unfold step callOf at hs
    dsimp only at hs
    split_ifs at hs
    · cases hs
    · exact hcalled _ (·.push chunk encoding) (·.push chunk encoding) hs
  | pushObject chunk encoding =>
    unfold step callOf at hs
    dsimp only at hs
    split_ifs at hs
    · exact hcalled _ (·.pushObject chunk encoding) (·.pushObject chunk encoding) hs
    · cases hs
  | unshift chunk =>
    unfold step callOf at hs
    dsimp only at hs
    split_ifs at hs
    · cases hs
    · exact hcalled _ (·.unshift chunk) (·.unshift chunk) hs
  | unshiftObject chunk =>
    unfold step callOf at hs
    dsimp only at hs
    split_ifs at hs
    · exact hcalled _ (·.unshift _) (·.unshift _) hs
    · cases hs
  | read n => exact hcalled _ (·.read n) (·.read n) hs
  | onReadable => exact hcalled _ (·.onReadable) (·.onReadable) hs
  | flow flowing =>
    exact hcalled (.ret { m.st with st := { m.st.st with flowing := flowing } })
      (fun hw => hw.set rfl rfl id) (fun hw => ⟨hw.set rfl rfl rfl, rfl⟩) hs
  | ret =>
    unfold step at hs
    dsimp only at hs
    split_ifs at hs
    rw [← Option.some.inj hs]
    refine resume_keeps (fun w f k hf hw => ?_) (fun w f k hf hw => ?_) h
    · rcases hw with hw | ⟨-, hk⟩
      · exact .inl (hw.exec f)
      · rw [hk f List.mem_cons_self] at hf
        cases hf
    · exact hw.imp_right fun hw => ⟨hw.1, (List.forall_mem_cons.mp hw.2).2⟩
  | tick =>
    obtain ⟨w, k⟩ := m
    unfold step at hs
    dsimp only at hs
    split at hs
    · rename_i t ts hticks
      rw [← Option.some.inj hs]
      rcases h with h | ⟨h, -⟩
      · have htick := h.runTick mode hticks
        rw [Res.Keeps, List.append_nil] at htick
        exact htick
      · have htick := Over.runTick mode
          (h.set (s := { w.st with ticks := ts }) rfl rfl rfl) t
        exact .inr ⟨htick.1, fun f hf => by simp [htick.2] at hf⟩
    · cases hs

/-- What is promised of `'end'`. -/
structure Disciplined (w : Watched α σ) : Prop where
  once : w.ends.length ≤ 1
  /-- It comes after `null` has been given to `push` or `unshift`, to an empty buffer. -/
  told : ∀ e ∈ w.ends, (e.pushed ∨ e.unshifted) ∧ e.length = 0
  late : w.late = []
  threw : w.threw = false

/-- **The end of a stream**, in every state of every run. -/
theorem end_disciplined {highWaterMark : ℤ} {m : System α σ}
    (h : Run (step mode) (fun _ _ _ => True) (init mode highWaterMark) m) :
    Disciplined m.st := by
  have hinit : Early (init mode highWaterMark).st := ⟨nofun, nofun, rfl, rfl, rfl, rfl⟩
  have hstage := h.invariant (I := fun m => Stage m.st m.stack) (.inl hinit)
    fun n a n' hn hs _ => step_stage mode hn hs
  rcases hstage with hearly | ⟨hover, -⟩
  · exact ⟨by simp [hearly.ends], by simp [hearly.ends], hearly.late, hearly.threw⟩
  · obtain ⟨e, hends, he⟩ := hover.once
    refine ⟨by simp [hends], ?_, hover.late, hover.threw⟩
    rw [hends]
    exact List.forall_mem_singleton.mpr he

/-- The buffer is filled again by `unshift` while `'end'` is queued. -/
def filledAgain : List (Act UInt8) :=
  [.read none, .ret, .push (.buf [97]) none, .ret, .push .null none, .read none,
    .unshift (some [97]), .tick, .tick, .read none, .tick, .read none,
    .push (.buf [98]) none]

theorem end_disciplined_filledAgain :
    ∃ m, Run (step .bytes) (fun _ _ _ => True) (init .bytes 16) m ∧
      m.st.ends = [⟨true, false, 0⟩] ∧ m.st.st.taken = [97] ∧ Disciplined m.st := by
  have hrun : ∃ m, Run (step .bytes) (fun _ _ _ => True) (init .bytes 16) m ∧
      m.st.ends = [⟨true, false, 0⟩] ∧ m.st.st.taken = [97] :=
    ⟨_, Run.of_foldlM (w := filledAgain) rfl, rfl, rfl⟩
  obtain ⟨m, hm, hends, htaken⟩ := hrun
  exact ⟨m, hm, hends, htaken, end_disciplined .bytes hm⟩

/-- `null` given to `unshift`. -/
theorem ended_by_unshift :
    ¬ ∀ m, Run (step .bytes) (fun _ _ _ => True) (init .bytes 16) m →
      ∀ e ∈ m.st.ends, e.pushed = true := by
  intro h
  have hend := h _ (Run.of_foldlM (w := [.read none, .ret, .unshift none, .tick]) rfl)
    ⟨false, true, 0⟩ List.mem_cons_self
  cases hend

end NodeCore.ReadableEnd
