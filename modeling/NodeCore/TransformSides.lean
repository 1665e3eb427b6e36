import NodeCore.Transform
import NodeCore.WritableFinish
import NodeCore.WritableOrder
import NodeCore.ReadableWake

/-!
What the two sides of a `Transform` do to each other.

Each side goes on as if the other one, and `_transform`, were foreign code.
-/

namespace NodeCore.TransformSides

open NodeCore.Encoding NodeCore.Reentrant NodeCore.Transform

/-! ### Calls of `_write` -/

section Writable

open NodeCore.Writable

/-- The frame of a call of `_write`. -/
def isWrite : Writable.Frame → Bool
  | .doWrite => true
  | _ => false

/-- The function calls no `_write`; it emits `'prefinish'` only while nothing is written, and once
the stream is ending. -/
structure Still (s : Writable.State) (r : Result) : Prop where
  handed : r.state.handed = s.handed
  outstanding : r.state.outstanding = s.outstanding
  writing : r.state.writing = s.writing
  ending : s.ending → r.state.ending
  prefinished : r.state.prefinished → s.prefinished ∨ s.writing = false ∧ r.state.ending
  frames : ∀ fs, r.frames ≠ .doWrite :: fs

/-- The function calls no `_write`, or the first thing that it calls is `_write` with a chunk. -/
def Hands (s : Writable.State) (r : Result) : Prop :=
  Still s r ∨ ∃ id fs, r.frames = .doWrite :: fs ∧ r.state.handed = s.handed ++ [id] ∧
    r.state.outstanding = s.outstanding + 1 ∧ (s.ending → r.state.ending)

variable {s u : Writable.State} {r : Result}

lemma Still.ret (hh : u.handed = s.handed) (ho : u.outstanding = s.outstanding)
    (hw : u.writing = s.writing) (he : s.ending → u.ending) (hp : u.prefinished = s.prefinished) :
    Still s (.ret u) :=
  ⟨hh, ho, hw, he, fun h => .inl (hp ▸ h), nofun⟩

lemma Still.of_eq (h : Still u r) (hh : u.handed = s.handed) (ho : u.outstanding = s.outstanding)
    (hw : u.writing = s.writing) (he : s.ending → u.ending) (hp : u.prefinished = s.prefinished) :
    Still s r :=
  ⟨h.handed.trans hh, h.outstanding.trans ho, h.writing.trans hw, fun hs => h.ending (he hs),
    fun hr => (h.prefinished hr).imp (hp ▸ ·) (hw ▸ ·), h.frames⟩

lemma Still.andThen (hr : Still s r) {f : Writable.Frame} (hf : isWrite f = false)
    {g : Writable.State → Result} (hg : ∀ u, Still u (g u)) : Still s (r.andThen f g) := by
  cases r with
  | ret u =>
    have hu := hg u
    refine ⟨hu.handed.trans hr.handed, hu.outstanding.trans hr.outstanding,
      hu.writing.trans hr.writing, fun hs => hu.ending (hr.ending hs), fun hp => ?_, hu.frames⟩
    rcases hu.prefinished hp with hp | ⟨hw, he⟩
    · exact (hr.prefinished hp).imp_right fun h => ⟨h.1, hu.ending h.2⟩
    · exact .inr ⟨hr.writing.symm.trans hw, he⟩
  | call u fs =>
    refine ⟨hr.handed, hr.outstanding, hr.writing, hr.ending, hr.prefinished, fun gs hgs => ?_⟩
    cases fs with
    | nil =>
      obtain rfl := (List.cons.inj hgs).1
      cases hf
    | cons f' fs => exact hr.frames fs (congrArg (· :: fs) (List.cons.inj hgs).1)

lemma Hands.andThen (hr : Hands s r) {f : Writable.Frame} (hf : isWrite f = false)
    {g : Writable.State → Result} (hg : ∀ u, Still u (g u)) : Hands s (r.andThen f g) := by
  rcases hr with hr | ⟨id, fs, hfs, hh, ho, he⟩
  · exact .inl (hr.andThen hf hg)
  · cases r with
    | ret u => cases hfs
    | call u gs => exact .inr ⟨id, fs ++ [f], congrArg (· ++ [f]) hfs, hh, ho, he⟩

/-- From a state that does not differ in what is handed over. -/
lemma Hands.of_eq (h : Hands u r) (hh : u.handed = s.handed) (ho : u.outstanding = s.outstanding)
    (hw : u.writing = s.writing) (he : u.ending = s.ending) (hp : u.prefinished = s.prefinished) :
    Hands s r := by
  rcases h with h | ⟨id, fs, hfs, hh', ho', he'⟩
  · exact .inl (h.of_eq hh ho hw (he ▸ id) hp)
  · exact .inr ⟨id, fs, hfs, by rw [hh', hh], by rw [ho', ho], he ▸ he'⟩

lemma prefinish_still (hneed : needFinish s) : Still s (prefinish s) := by
  simp only [needFinish, Bool.and_eq_true, Bool.not_eq_true'] at hneed
  unfold prefinish
  split_ifs
  · exact ⟨rfl, rfl, rfl, id, fun _ => .inr ⟨hneed.2, hneed.1.1.1⟩,
      fun fs h => List.cons_ne_nil _ fs h.symm⟩
  · exact .ret rfl rfl rfl id rfl

lemma finishMaybe_still (s : Writable.State) : Still s (finishMaybe s) := by
  unfold finishMaybe
  split_ifs with hneed
  · exact (prefinish_still hneed).andThen rfl fun u => ⟨rfl, rfl, rfl, id, .inl, nofun⟩
  · exact prefinish_still hneed
  · exact .ret rfl rfl rfl id rfl

lemma callCb_still (s : Writable.State) (cb : Cb) : Still s (callCb s cb) := by
  cases cb with
  | user => exact ⟨rfl, rfl, rfl, id, .inl, nofun⟩
  | writev more => exact ⟨rfl, rfl, rfl, id, .inl, nofun⟩

lemma afterDrain_still (cb : Cb) (s : Writable.State) : Still s (afterDrain cb s) := by
  have hcb : Still s (callCb { s with pendingcb := s.pendingcb - 1 } cb) :=
    (callCb_still _ cb).of_eq rfl rfl rfl id rfl
  exact hcb.andThen rfl finishMaybe_still

lemma afterWrite_still (finished : Bool) (cb : Cb) (s : Writable.State) :
    Still s (afterWrite finished cb s) := by
  unfold afterWrite onwriteDrain
  refine Still.andThen ?_ rfl (afterDrain_still cb)
  split_ifs
  · exact ⟨rfl, rfl, rfl, id, .inl, nofun⟩
  · exact .ret rfl rfl rfl id rfl
  · exact .ret rfl rfl rfl id rfl

lemma onwriteAfter_still (sync finished : Bool) (cb : Cb) (s : Writable.State) :
    Still s (onwriteAfter sync finished cb s) := by
  unfold onwriteAfter
  split_ifs
  · exact .ret rfl rfl rfl id rfl
  · exact afterWrite_still finished cb s

lemma endWritableDone_still (cb : Bool) (s : Writable.State) : Still s (endWritableDone cb s) :=
  .ret rfl rfl rfl id rfl

lemma endUncorked_still (cb : Bool) (s : Writable.State) : Still s (endUncorked cb s) := by
  unfold endUncorked
  split_ifs
  · have hfinish : Still s (finishMaybe { s with ending := true }) :=
      (finishMaybe_still _).of_eq rfl rfl rfl (fun _ => rfl) rfl
    exact hfinish.andThen rfl (endWritableDone_still cb)
  · exact .ret rfl rfl rfl id rfl

variable (cfg : Writable.Config)

lemma clearFrom_hands (s : Writable.State) (c : ℕ) : Hands s (clearFrom cfg s c) := by
  unfold clearFrom
  split
  · exact .inr ⟨_, _, rfl, rfl, rfl, id⟩
  · exact .inl (.ret rfl rfl rfl id rfl)

lemma clearBuffer_hands (hv : cfg.writev = false) (s : Writable.State) :
    Hands s (clearBuffer cfg s) := by
  unfold clearBuffer
  dsimp only
  rw [if_neg (by simp [hv])]
  exact (clearFrom_hands cfg { s with bufferProcessing := true } 0).of_eq rfl rfl rfl rfl rfl

lemma write_hands (s : Writable.State) (chunk : Chunk) (encoding : EncArg) :
    Hands s (Writable.write cfg s chunk encoding) := by
  rcases WritableBooks.write_cases cfg s chunk encoding with ⟨-, hr⟩ | ⟨-, -, -, hr⟩ |
    ⟨d, len, ret, -, -, -, -, ⟨-, hr⟩ | ⟨-, hr⟩⟩
  · rw [hr]
    exact .inl ⟨rfl, rfl, rfl, id, .inl, nofun⟩
  · rw [hr]
    exact .inl (.ret rfl rfl rfl id rfl)
  · rw [hr]
    exact .inl (.ret rfl rfl rfl id rfl)
  · rw [hr]
    exact .inr ⟨_, _, rfl, rfl, rfl, id⟩

lemma uncork_hands (hv : cfg.writev = false) (s : Writable.State) : Hands s (uncork cfg s) := by
  unfold uncork
  dsimp only
  split_ifs
  · exact (clearBuffer_hands cfg hv { s with corked := s.corked - 1 }).of_eq rfl rfl rfl rfl rfl
  · exact .inl (.ret rfl rfl rfl id rfl)
  · exact .inl (.ret rfl rfl rfl id rfl)

lemma end_hands (hv : cfg.writev = false) (cb : Bool) (s : Writable.State) :
    Hands s (Writable.end cfg cb s) := by
  unfold Writable.end
  refine Hands.andThen (f := Writable.Frame.endUncorked cb) ?_ rfl (endUncorked_still cb)
  split_ifs
  · exact (uncork_hands cfg hv { s with endCalled := true, corked := 1 }).of_eq rfl rfl rfl rfl rfl
  · exact .inl (.ret rfl rfl rfl id rfl)

/-- Without an error, the completion of a write. -/
lemma onwrite_hands (hv : cfg.writev = false) (s : Writable.State) :
    Hands (onwriteStateUpdate s) (Writable.onwrite cfg false s) := by
  unfold Writable.onwrite
  refine Hands.andThen ?_ rfl (onwriteAfter_still _ _ _)
  split_ifs
  · exact clearBuffer_hands cfg hv _
  · exact .inl (.ret rfl rfl rfl id rfl)

lemma exec_hands (s : Writable.State) (f : Writable.Frame) :
    Hands s (Writable.exec cfg s f) := by
  cases f with
  | user => exact .inl (.ret rfl rfl rfl id rfl)
  | doWrite => exact .inl (.ret rfl rfl rfl id rfl)
  | write ret => exact .inl (.ret rfl rfl rfl id rfl)
  | writeError => exact .inl (.ret rfl rfl rfl id rfl)
  | clearLoop c =>
    show Hands s (if s.writing then .ret (clearEnd s (c + 1)) else clearFrom cfg s (c + 1))
    split_ifs
    · exact .inl (.ret rfl rfl rfl id rfl)
    · exact clearFrom_hands cfg s (c + 1)
  | clearFast => exact .inl (.ret rfl rfl rfl id rfl)
  | onwrite sync finished cb => exact .inl (onwriteAfter_still sync finished cb s)
  | onwriteError => exact .inl ⟨rfl, rfl, rfl, id, .inl, nofun⟩
  | afterDrain cb => exact .inl (afterDrain_still cb s)
  | afterCb => exact .inl (finishMaybe_still s)
  | writevCbs n =>
    cases n with
    | zero => exact .inl (.ret rfl rfl rfl id rfl)
    | succ n => exact .inl ⟨rfl, rfl, rfl, id, .inl, nofun⟩
  | finish => exact .inl ⟨rfl, rfl, rfl, id, .inl, nofun⟩
  | endUncorked cb => exact .inl (endUncorked_still cb s)
  | endWritable cb => exact .inl (endWritableDone_still cb s)

lemma runTick_still (s : Writable.State) (t : Tick) : Still s (Writable.runTick s t) := by
  cases t with
  | afterWrite finished cb => exact afterWrite_still finished cb s
  | onwriteError cb => exact (callCb_still _ cb).of_eq rfl rfl rfl id rfl
  | user => exact ⟨rfl, rfl, rfl, id, .inl, nofun⟩

end Writable

/-! ### Calls of `_read` -/

section Readable

open NodeCore.ReadableEvents NodeCore.ReadableWake
open NodeCore.Readable (Tick Chunk maybeReadMore)

variable {α σ : Type}

/-- The first thing that the function calls is `_read`. -/
def Reads (r : ReadableEvents.Outcome α σ) : Prop :=
  ∃ n nOrig flag fs, r.frames = .read n nOrig flag :: fs

/-- Nobody waits in vain. -/
def Awake (w : Watched α σ) : Prop := w.asleep → Queued w.st

/-- The function calls `_read`; or else it does not start to read, does not end the stream and,
under the condition, leaves nobody asleep. -/
def Quiet (C : Prop) (w : Watched α σ) (r : ReadableEvents.Outcome α σ) : Prop :=
  Reads r ∨ (r.state.st.reading → w.st.reading) ∧ r.state.st.ended = w.st.ended ∧
    (C → Awake w → Awake r.state)

variable {C : Prop} {mode : Mode α σ} {w u : Watched α σ} {r : ReadableEvents.Outcome α σ}

lemma Quiet.state (hreading : r.state.st.reading → w.st.reading)
    (hended : r.state.st.ended = w.st.ended) (hawake : C → Awake w → Awake r.state) :
    Quiet C w r := .inr ⟨hreading, hended, hawake⟩

lemma Quiet.of_state (h : Quiet C u r) (hreading : u.st.reading → w.st.reading)
    (hended : u.st.ended = w.st.ended) (hawake : C → Awake w → Awake u) : Quiet C w r :=
  h.imp_right fun h => ⟨fun hr => hreading (h.1 hr), h.2.1.trans hended,
    fun hc ha => h.2.2 hc (hawake hc ha)⟩

lemma Quiet.mono {C' : Prop} (h : Quiet C w r) (hc : C' → C) : Quiet C' w r :=
  h.imp_right fun h => ⟨h.1, h.2.1, fun h' => h.2.2 (hc h')⟩

lemma Quiet.andThen (h : Quiet C w r) {f : Readable.Frame}
    {g : Watched α σ → ReadableEvents.Outcome α σ} (hg : ∀ u, Quiet True u (g u)) :
    Quiet C w (r.andThen f g) := by
  cases r with
  | ret u =>
    rcases h with ⟨_, _, _, _, hfs⟩ | ⟨hr, he, ha⟩
    · cases hfs
    · exact (hg u).imp_right fun hu => ⟨fun h => hr (hu.1 h), hu.2.1.trans he,
        fun hc hw => hu.2.2 trivial (ha hc hw)⟩
  | call u fs =>
    refine h.imp_left ?_
    rintro ⟨n, nOrig, flag, gs, hgs⟩
    exact ⟨n, nOrig, flag, gs ++ [f], congrArg (· ++ [f]) hgs⟩

lemma emitReadable_quiet (w : Watched α σ) : Quiet True w w.emitReadable := by
  unfold Watched.emitReadable Readable.emitReadable
  split_ifs with hwake hemitted hsync hemitted hsync
  · simp [hemitted] at hwake
  · simp [hsync] at hwake
  · exact .state id rfl fun _ _ => nofun
  · exact .state id rfl fun _ ha => ha
  · exact .state id rfl fun _ _ _ => List.mem_append_right _ List.mem_cons_self
  · simp [hemitted, hsync] at hwake

lemma addChunkDone_quiet (w : Watched α σ) : Quiet True w w.addChunkDone := by
  unfold Watched.addChunkDone Readable.addChunkDone maybeReadMore
  split_ifs
  · exact .state id rfl fun _ ha hs => List.mem_append_left _ (ha hs)
  · exact .state id rfl fun _ ha => ha

lemma chunkAdded_quiet (w : Watched α σ) : Quiet True w w.chunkAdded := by
  unfold Watched.chunkAdded
  refine Quiet.andThen ?_ addChunkDone_quiet
  split_ifs
  · exact emitReadable_quiet w
  · exact .state id rfl fun _ ha => ha

lemma chunkAdded_reading (w : Watched α σ) : w.chunkAdded.state.st.reading → w.st.reading := by
  rcases chunkAdded_quiet w with ⟨n, nOrig, flag, fs, hfs⟩ | h
  · unfold Watched.chunkAdded Watched.emitReadable Readable.emitReadable at hfs
    split_ifs at hfs <;> cases hfs
  · exact h.1

/-! #### Pushing -/

/-- `push` takes the chunk: it is valid, and the decoder does not throw. -/
def Takes (mode : Mode α σ) (w : Watched α σ) : Watched.Given α → Prop
  | .invalid => False
  | .null => True
  | chunk => chunk.length = 0 ∨ (chunk.decode mode w.st.decoder).1.isSome

/-- What `push` of a stream in byte mode gives to `readableAddChunk`, if nothing throws. -/
def given (mode : Mode α σ) (chunk : Chunk) (encoding : EncArg) : Option (Watched.Given α) :=
  match chunk with
  | .invalid => some .invalid
  | .null => some .null
  | .buf b => some (.buf b)
  | .str text =>
    let encoding := match encoding with
      | none | some [] => mode.defaultEncoding
      | some e => e
    if some encoding ≠ mode.codec.encoding then (newBuffer text (some encoding)).map .buf
    else some (.units (mode.codec.units text))

def givenObject (chunk : Option α) (encoding : Bool) : Watched.Given α :=
  match chunk with
  | none => .null
  | some o => if encoding then .units [o] else .object o

lemma push_given (w : Watched α σ) (chunk : Chunk) (encoding : EncArg) :
    w.push mode chunk encoding =
      (given mode chunk encoding).elim (.ret w) (w.readableAddChunk mode) := by
  unfold Watched.push given
  cases chunk with
  | invalid => rfl
  | null => rfl
  | buf b => rfl
  | str text =>
    rcases encoding with _ | _ | ⟨c, rest⟩
    · dsimp only
      split_ifs
      · cases newBuffer text (some mode.defaultEncoding) <;> rfl
      · rfl
    · dsimp only
      split_ifs
      · cases newBuffer text (some mode.defaultEncoding) <;> rfl
      · rfl
    · dsimp only
      split_ifs
      · cases newBuffer text (some (c :: rest)) <;> rfl
      · rfl

lemma pushObject_given (w : Watched α σ) (chunk : Option α) (encoding : Bool) :
    w.pushObject mode chunk encoding = w.readableAddChunk mode (givenObject chunk encoding) := by
  cases chunk with
  | none => rfl
  | some o => rfl

/-- `null` ends the reading that there is. -/
lemma addNull_reading (w : Watched α σ) : (w.addNull mode).state.st.reading = false := by
  unfold Watched.addNull Watched.onEofChunk
  extract_lets src w' chunk s v
  have hv : v.st.reading = false := by
    unfold v s
    split_ifs <;> rfl
  split_ifs
  · rfl
  · unfold Watched.emitReadable Readable.emitReadable
    split_ifs <;> exact hv
  · unfold Watched.endReadable Readable.endReadable
    split_ifs <;> exact hv

lemma readableAddChunk_quiet (w : Watched α σ) {chunk : Watched.Given α} (hnull : chunk ≠ .null) :
    Quiet True w (w.readableAddChunk mode chunk) := by
  unfold Watched.readableAddChunk
  split
  · exact .state id rfl fun _ ha => ha
  · exact absurd rfl hnull
  · split_ifs
    · exact .state nofun rfl fun _ ha => ha
    · exact .state id rfl fun _ ha => ha
    · split
      · exact (chunkAdded_quiet _).of_state nofun rfl fun _ ha => ha
      · exact .state id rfl fun _ ha => ha

lemma readableAddChunk_takes {chunk : Watched.Given α} (h : Takes mode w chunk)
    (hended : w.st.ended = false) : (w.readableAddChunk mode chunk).state.st.reading = false := by
  unfold Watched.readableAddChunk
  split
  · cases h
  · exact addNull_reading _
  · rename_i hinvalid hnull
    have htakes : chunk.length = 0 ∨ (chunk.decode mode w.st.decoder).1.isSome := by
      cases chunk with
      | invalid => exact absurd rfl hinvalid
      | null => exact absurd rfl hnull
      | buf b => exact h
      | units l => exact h
      | object o => exact h
    split_ifs with hlen hend
    · rfl
    · rw [hended] at hend
      cases hend
    · have hsome := htakes.resolve_left hlen
      split
      · rw [← Bool.not_eq_true]
        exact fun hr => Bool.false_ne_true (chunkAdded_reading _ hr)
      · rename_i hnone
        rw [hnone] at hsome
        cases hsome

lemma unshift_quiet (w : Watched α σ) (chunk : List α) :
    Quiet True w (w.unshift mode (some chunk)) := by
  unfold Watched.unshift
  dsimp only
  split_ifs
  · exact .state id rfl fun _ ha => ha
  · exact .state id rfl fun _ ha => ha
  · exact (chunkAdded_quiet _).of_state id rfl fun _ ha => ha

/-! #### Reading -/

lemma endReadable_quiet (hended : w.st.ended = true) : Quiet True w (.ret w.endReadable) := by
  unfold Watched.endReadable Readable.endReadable
  split_ifs
  · exact .state id rfl fun _ ha => ha
  · exact .state id hended.symm fun _ ha hs => List.mem_append_left _ (ha hs)
  · exact .state id rfl fun _ ha => ha

/-- `read` returns, maybe with nothing. -/
lemma give_quiet {n : Option ℤ} {flag : Bool} {ret : Option (List α)}
    (hmiss : C → Watched.asks n → w.st.ended = false → ret = none → Queued w.st) :
    Quiet C w (.ret (w.give n flag ret)) := by
  refine .state id rfl fun hc ha hs => ?_
  simp only [Res.state_ret, Watched.give, Bool.or_eq_true, Bool.and_eq_true, Bool.not_eq_true',
    decide_eq_true_eq] at hs
  rcases hs with hs | ⟨⟨hn, hended⟩, hret⟩
  · exact ha hs
  · exact hmiss hc hn hended hret

lemma readEnd_quiet {n : ℤ} {nOrig : Option ℤ} (flag : Bool)
    (hmiss : C → Watched.asks nOrig → w.st.ended = false → found mode n w.st = none →
      Queued w.st) : Quiet C w (.ret (w.readEnd mode n nOrig flag)) := by
  obtain ⟨s, hf, heq⟩ := readEnd_fetched w n nOrig flag
  rw [heq]
  split_ifs with hend
  · have hends := endReadable_quiet (w := { w with st := s }) hend.1
    rcases hends with ⟨_, _, _, _, hfs⟩ | ⟨hr, he, ha⟩
    · cases hfs
    · refine (give_quiet fun hc hn hopen _ => ?_).of_state (fun h => hf.reading ▸ hr h)
        (he.trans hf.ended) fun _ hw => ha trivial fun hs => hf.queued (hw hs)
      rw [Watched.endReadable_ended hend.1] at hopen
      cases hopen
  · exact (give_quiet fun hc hn hopen hret =>
      hf.queued (hmiss hc hn (hf.ended ▸ hopen) hret)).of_state (fun h => hf.reading ▸ h) hf.ended
        fun _ hw hs => hf.queued (hw hs)

/-- The frame of a `read` that finds something, or is not asked to wait. -/
def Fed (mode : Mode α σ) (w : Watched α σ) (n : ℤ) (nOrig : Option ℤ) : Prop :=
  let n := if !w.st.reading then (Watched.howMuchToRead mode nOrig w.st).1 else n
  Watched.asks nOrig → w.st.ended = false → found mode n w.st = none → Queued w.st

lemma readDone_quiet (w : Watched α σ) (n : ℤ) (nOrig : Option ℤ) (flag : Bool) :
    Quiet (Fed mode w n nOrig) w (w.readDone mode n nOrig flag) := by
  unfold Watched.readDone Fed
  dsimp only
  split_ifs with hreading
  · rw [Watched.howMuchToRead_sync]
    obtain ⟨hwm, need, -, hs⟩ :=
      Watched.howMuchToRead_state mode nOrig { w.st with sync := false }
    rw [hs]
    have hread := readEnd_quiet (C := Watched.asks nOrig → w.st.ended = false →
        found mode (Watched.howMuchToRead mode nOrig w.st).1 w.st = none → Queued w.st)
      (w := { w with st :=
        { w.st with sync := false, highWaterMark := hwm, needReadable := need } }) flag fun hc => hc
    exact hread.of_state id rfl fun _ ha => ha
  · have hread := readEnd_quiet (C := Watched.asks nOrig → w.st.ended = false →
        found mode n w.st = none → Queued w.st)
      (w := { w with st := { w.st with sync := false } }) flag fun hc => hc
    exact hread.of_state id rfl fun _ ha => ha

/-- A `read` that finds nothing asks for more, unless a `_read` is under way. -/
def Seeks (mode : Mode α σ) (w : Watched α σ) (n : Option ℤ) : Prop :=
  let k := (Watched.howMuchToRead mode n w.st).1
  let s := (Watched.howMuchToRead mode n w.st).2
  Watched.asks n → found mode k s = none → s.needReadable ∨ s.length - k ≤ s.highWaterMark

lemma readFrom_quiet (w : Watched α σ) (n : ℤ) (nOrig : Option ℤ) (flag : Bool) :
    Quiet (w.st.reading = false ∧ (Watched.asks nOrig → found mode n w.st = none →
      w.st.needReadable ∨ w.st.length - n ≤ w.st.highWaterMark)) w
        (w.readFrom mode n nOrig flag) := by
  unfold Watched.readFrom
  split_ifs with hend hlen hread
  · rcases endReadable_quiet hend.2 with ⟨_, _, _, _, hfs⟩ | ⟨hr, he, ha⟩
    · cases hfs
    · refine (give_quiet fun _ _ hopen _ => ?_).of_state hr he fun _ => ha trivial
      rw [Watched.endReadable_ended hend.2] at hopen
      cases hopen
  · refine give_quiet fun _ _ hopen _ => ?_
    rw [hend.2] at hopen
    cases hopen
  · exact .inl ⟨n, nOrig, flag, [], rfl⟩
  · refine readEnd_quiet flag fun hc hn hopen hnone => absurd ⟨hc.2 hn hnone, ?_⟩ hread
    simp [hopen, hc.1]

lemma read_quiet (w : Watched α σ) (n : Option ℤ) :
    Quiet (w.st.reading = false ∧ Seeks mode w n) w (w.read mode n) := by
  unfold Watched.read
  extract_lets src s w' flag
  obtain ⟨hk, hhwm, hneed⟩ := Watched.howMuchToRead_congr mode n (s := w.st) (u := s)
    rfl rfl rfl rfl rfl rfl
  obtain ⟨hwm, need, -, hs⟩ := Watched.howMuchToRead_state mode n w.st
  obtain ⟨hwm', need', -, hs'⟩ := Watched.howMuchToRead_state mode n s
  rw [hs, hs'] at hhwm hneed
  split_ifs
  · have hemit : Quiet True w w'.emitReadable :=
      (emitReadable_quiet w').of_state id rfl fun _ ha => ha
    exact hemit.mono fun _ => trivial
  · dsimp only
    rw [hs', hk]
    refine ((readFrom_quiet _ _ _ _).imp_right fun h => ⟨h.1, h.2.1, fun hc => h.2.2 ?_⟩)
    obtain ⟨hreading, hseeks⟩ := hc
    unfold Seeks at hseeks
    rw [hs] at hseeks
    dsimp only at hhwm hneed
    rw [hhwm, hneed]
    exact ⟨hreading, hseeks⟩

/-- A `read(0)` asks nobody to wait. -/
lemma read_zero_quiet (hreading : w.st.reading = false) :
    Quiet True w (w.read mode (some 0)) :=
  (read_quiet w (some 0)).mono fun _ => ⟨hreading, nofun⟩

lemma readMoreDone_quiet (w : Watched α σ) : Quiet True w w.readMoreDone :=
  .state id rfl fun _ ha => ha

lemma readMoreLoop_quiet (w : Watched α σ) : Quiet True w (w.readMoreLoop mode) := by
  unfold Watched.readMoreLoop
  split_ifs with hloop
  · have hreading : w.st.reading = false := by
      simp only [Bool.and_eq_true, Bool.not_eq_true'] at hloop
      exact hloop.1.1.1
    exact (read_zero_quiet hreading).andThen readMoreDone_quiet
  · exact readMoreDone_quiet w

/-- What a frame has to meet so that nobody falls asleep. -/
def FedFrame (mode : Mode α σ) (w : Watched α σ) : Readable.Frame → Prop
  | .read n nOrig _ => Fed mode w n nOrig
  | _ => True

lemma exec_quiet (w : Watched α σ) (f : Readable.Frame) :
    Quiet (FedFrame mode w f) w (w.exec mode f) := by
  cases f with
  | user => exact .state id rfl fun _ ha => ha
  | addChunk => exact addChunkDone_quiet w
  | read n nOrig flag => exact readDone_quiet w n nOrig flag
  | readMore len =>
    show Quiet True w (if len = w.st.length then w.readMoreDone else w.readMoreLoop mode)
    split_ifs
    · exact readMoreDone_quiet w
    · exact readMoreLoop_quiet w

lemma onReadable_quiet (w : Watched α σ) : Quiet True w (w.onReadable mode) := by
  unfold Watched.onReadable
  extract_lets src w'
  have hw {r : ReadableEvents.Outcome α σ} (hr : Quiet True w' r) : Quiet True w r :=
    hr.of_state id rfl fun _ ha => ha
  split_ifs with hend hreading hlen
  · exact .state id rfl fun _ ha => ha
  · exact hw (read_zero_quiet (by simpa using hreading))
  · exact hw (emitReadable_quiet w')
  · exact .state id rfl fun _ ha => ha

lemma runTick_quiet {t : Tick} {ts : List Tick} (hticks : w.st.ticks = t :: ts) :
    Quiet True w (Watched.runTick mode { w with st := { w.st with ticks := ts } } t) := by
  have hpop (ht : t ≠ .emitReadable) (ha : Awake w) :
      Awake { w with st := { w.st with ticks := ts } } := fun hs => by
    have hq := ha hs
    rw [Queued, hticks] at hq
    exact (List.mem_cons.mp hq).resolve_left ht.symm
  cases t with
  | emitReadable => exact .state id rfl fun _ _ hs => absurd hs Bool.false_ne_true
  | readMore =>
    exact (readMoreLoop_quiet _).of_state id rfl fun _ => hpop fun h => (by cases h)
  | «end» =>
    have hne : (Tick.end : Tick) ≠ .emitReadable := fun h => (by cases h)
    unfold Watched.runTick
    dsimp only
    split_ifs
    · exact .state id rfl fun _ => hpop hne
    · exact .state id rfl fun _ => hpop hne

end Readable

end NodeCore.TransformSides
