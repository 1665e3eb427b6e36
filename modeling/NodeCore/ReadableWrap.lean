import NodeCore.ReadableDecoded

/-!
`Readable.wrap`: an old-style stream as the source of a readable stream.

The handlers of `'data'` and `'end'` decode with the decoder of the wrapper and push what it gives.
The old stream emits when it likes, also inside `_read`, which resumes it; when it is asked to pause
makes no difference then. The consumer reads in whatever way and whenever it likes.
-/

namespace NodeCore.ReadableWrap

open NodeCore.Encoding NodeCore.Reentrant NodeCore.Readable NodeCore.ReadableConserve
open NodeCore.ReadableDecoded

/-- What the handlers push. -/
def given : Data → Chunk
  | .str s => .str s
  | .buf b => .buf b

variable {α σ : Type} (codec : Codec α σ) (data : List α → Data) (defaultEncoding : Str)

/-! ### The handlers -/

/-- The handler of `'data'`. Where the decoder throws, nothing is pushed. -/
def onData (s : State α σ) (b : Bytes) : Res (State α σ) Frame :=
  match codec.write s.decoder b with
  | (none, decoder) => .ret { s with decoder := decoder }
  | (some text, decoder) =>
    if text = [] then .ret { s with decoder := decoder }
    else push codec defaultEncoding { s with decoder := decoder } (given (data text)) none

/-- The handler of `'end'`, before its `self.push(null)`. -/
def onEnd (s : State α σ) : Res (State α σ) Frame :=
  if s.ended then .ret s
  else
    let text := codec.finish s.decoder
    if text = [] then .ret s else push codec defaultEncoding s (given (data text)) none

/-! ### Runs -/

/-- How far the old stream has got. -/
inductive Phase
  | emitting
  /-- In the handler of `'end'`, before `self.push(null)`. -/
  | ending
  | ended
  deriving DecidableEq

structure World (α σ : Type) where
  system : System α σ
  /-- What the old stream has still to emit. -/
  rest : List Bytes
  phase : Phase

def World.start (highWaterMark : ℤ) (chunks : List Bytes) : World α σ :=
  ⟨init codec highWaterMark, chunks, .emitting⟩

/-- What the consumer does; all that is pushed comes from the handlers. -/
def Consumes : Act α → Prop
  | .push .. | .unshift .. => False
  | _ => True

variable [DecidableEq α]

inductive Step : World α σ → World α σ → Prop
  | consume {w : World α σ} {a : Act α} {m : System α σ} (ha : Consumes a)
      (hfresh : Fresh w.system a) (h : step codec defaultEncoding w.system a = some m) :
      Step w { w with system := m }
  | data {w : World α σ} {b : Bytes} {rest : List Bytes} (hphase : w.phase = .emitting)
      (hrest : w.rest = b :: rest) :
      Step w ⟨enter .user w.system (onData codec data defaultEncoding w.system.st b), rest,
        .emitting⟩
  | tail {w : World α σ} (hphase : w.phase = .emitting) (hrest : w.rest = []) :
      Step w ⟨enter .user w.system (onEnd codec data defaultEncoding w.system.st), [], .ending⟩
  | null {w : World α σ} (hphase : w.phase = .ending) :
      Step w ⟨enter .user w.system (push codec defaultEncoding w.system.st .null none), [], .ended⟩

/-- The states that are reached with these chunks. -/
def Reachable (highWaterMark : ℤ) (chunks : List Bytes) : World α σ → Prop :=
  Relation.ReflTransGen (Step codec data defaultEncoding) (.start codec highWaterMark chunks)

/-- The old stream has ended, and nothing is left to read. -/
def World.Complete (w : World α σ) : Prop := w.phase = .ended ∧ w.system.st.length = 0

/-! ### What comes of the chunks -/

/-- What an item adds, and what becomes of the decoder. -/
def added (d : σ) (item : Item α) : List α × σ :=
  if item.length = 0 then ([], d)
  else ((item.decode codec d).1.getD [], (item.decode codec d).2)

/-- A push of what the decoder has given. -/
def pushedText (d : σ) (text : List α) : List α × σ :=
  match pushed codec defaultEncoding (given (data text)) none with
  | none => ([], d)
  | some item => added codec d item

def dataText (d : σ) (b : Bytes) : List α × σ :=
  match codec.write d b with
  | (none, d) => ([], d)
  | (some text, d) => if text = [] then ([], d) else pushedText codec data defaultEncoding d text

def endText (d : σ) : List α × σ :=
  if codec.finish d = [] then ([], d)
  else pushedText codec data defaultEncoding d (codec.finish d)

/-- Everything that comes of the chunks: in the handlers, and in `onEofChunk` at the end. -/
def wrapText : σ → List Bytes → List α
  | d, [] =>
    (endText codec data defaultEncoding d).1 ++
      codec.finish (endText codec data defaultEncoding d).2
  | d, b :: rest =>
    (dataText codec data defaultEncoding d b).1 ++
      wrapText (dataText codec data defaultEncoding d b).2 rest

/-- What is still to come. -/
def World.ahead (w : World α σ) : List α :=
  match w.phase with
  | .emitting => wrapText codec data defaultEncoding w.system.st.decoder w.rest
  | .ending => codec.finish w.system.st.decoder
  | .ended => []

/-! ### The consumer changes nothing of it -/

/-- Nothing has been pushed, decoded or ended. -/
structure Quiet (s t : State α σ) : Prop where
  accepted : t.accepted = s.accepted
  decoder : t.decoder = s.decoder
  ended : t.ended = s.ended

section Quiet

omit [DecidableEq α]

variable {s t u : State α σ}

lemma Quiet.refl (s : State α σ) : Quiet s s := ⟨rfl, rfl, rfl⟩

lemma Quiet.trans (h : Quiet s t) (h' : Quiet t u) : Quiet s u :=
  ⟨h'.accepted.trans h.accepted, h'.decoder.trans h.decoder, h'.ended.trans h.ended⟩

/-- The function, up to where it calls foreign code, leaves it as it is. -/
def Hushed (s : State α σ) (r : Res (State α σ) Frame) : Prop := Quiet s r.state

lemma Hushed.andThen {r : Res (State α σ) Frame} {f : Frame}
    {k : State α σ → Res (State α σ) Frame} (hr : Hushed s r) (hk : ∀ t, Hushed t (k t)) :
    Hushed s (r.andThen f k) := by
  cases r with
  | ret t => exact hr.trans (hk t)
  | call t fs => exact hr

lemma emitReadable_hushed (s : State α σ) : Hushed s (emitReadable s) := by
  unfold emitReadable
  split_ifs <;> exact ⟨rfl, rfl, rfl⟩

lemma endReadable_quiet (h : s.ended = true) : Quiet s (endReadable s) := by
  unfold endReadable
  split_ifs
  · exact ⟨rfl, rfl, h.symm⟩
  · exact .refl s

lemma addChunkDone_hushed (s : State α σ) : Hushed s (addChunkDone s) := by
  unfold addChunkDone maybeReadMore
  split_ifs
  · exact ⟨rfl, rfl, rfl⟩
  · exact .refl s

lemma chunkAdded_hushed (s : State α σ) : Hushed s (chunkAdded s) := by
  unfold chunkAdded
  refine Hushed.andThen ?_ addChunkDone_hushed
  split_ifs
  · exact emitReadable_hushed s
  · exact .refl s

lemma howMuchToRead_hushed (n : Option ℤ) (s : State α σ) : Quiet s (howMuchToRead n s).2 := by
  unfold howMuchToRead
  split_ifs
  · exact .refl s
  · split
    · split <;> exact .refl s
    · dsimp only
      split_ifs <;> exact ⟨rfl, rfl, rfl⟩

lemma readEnd_hushed (n : ℤ) (found : Bool) (s : State α σ) : Quiet s (readEnd n found s) := by
  have hcut : (if 0 < n then fromList n s.length s.buffer else (none, s.buffer)) = cut n s := rfl
  have hlast (t : State α σ) : Quiet t
      (if t.ended = true ∧ (!t.endEmitted) = true ∧ t.length = 0 then endReadable t else t) := by
    split_ifs with h
    · exact endReadable_quiet h.1
    · exact .refl t
  have hgive (t : State α σ) (ret : Option (List α)) : Quiet t (t.give found ret) := ⟨rfl, rfl, rfl⟩
  unfold readEnd
  rw [hcut]
  refine (Quiet.trans ?_ (hlast _)).trans (hgive _ _)
  split_ifs <;> exact ⟨rfl, rfl, rfl⟩

lemma readDone_hushed (n : ℤ) (nOrig : Option ℤ) (found : Bool) (s : State α σ) :
    Hushed s (readDone n nOrig found s) := by
  have hsync : Quiet s { s with sync := false } := ⟨rfl, rfl, rfl⟩
  unfold readDone
  dsimp only
  split_ifs
  · exact (hsync.trans (howMuchToRead_hushed nOrig _)).trans (readEnd_hushed _ found _)
  · exact hsync.trans (readEnd_hushed n found _)

lemma readFrom_hushed (n : ℤ) (nOrig : Option ℤ) (found : Bool) (s : State α σ) :
    Hushed s (readFrom n nOrig found s) := by
  unfold readFrom
  split_ifs with hend
  · exact (endReadable_quiet hend.2).trans ⟨rfl, rfl, rfl⟩
  · exact ⟨rfl, rfl, rfl⟩
  · exact ⟨rfl, rfl, rfl⟩
  · exact readEnd_hushed n found s

lemma read_hushed (n : Option ℤ) (s : State α σ) : Hushed s (read n s) := by
  have hcalled : Quiet s { s with
      calledRead := true
      emittedReadable := s.emittedReadable && !(n.all fun n => 0 < n) } := ⟨rfl, rfl, rfl⟩
  unfold Readable.read
  dsimp only
  split_ifs
  · exact hcalled.trans (emitReadable_hushed _)
  · exact (hcalled.trans (howMuchToRead_hushed n _)).trans (readFrom_hushed _ n _ _)

lemma readMoreDone_hushed (s : State α σ) : Hushed s (readMoreDone s) := ⟨rfl, rfl, rfl⟩

lemma readMoreLoop_hushed (s : State α σ) : Hushed s (readMoreLoop s) := by
  unfold readMoreLoop
  split_ifs
  · exact Hushed.andThen (read_hushed _ s) readMoreDone_hushed
  · exact readMoreDone_hushed s

lemma exec_hushed (s : State α σ) (f : Frame) : Hushed s (exec s f) := by
  cases f with
  | user => exact .refl s
  | addChunk => exact addChunkDone_hushed s
  | read n nOrig found => exact readDone_hushed n nOrig found s
  | readMore len =>
    unfold exec readMoreAfter
    dsimp only
    split_ifs
    · exact readMoreDone_hushed s
    · exact readMoreLoop_hushed s

lemma onReadable_hushed (s : State α σ) : Hushed s (onReadable s) := by
  have hlistening : Quiet s { s with
      readableListening := true
      emittedReadable := false
      needReadable := true } := ⟨rfl, rfl, rfl⟩
  unfold onReadable
  dsimp only
  split_ifs
  · exact .refl s
  · exact hlistening.trans (read_hushed _ _)
  · exact hlistening.trans (emitReadable_hushed _)
  · exact hlistening

lemma runTick_hushed (s : State α σ) (t : Tick) : Hushed s (runTick s t) := by
  cases t with
  | emitReadable => exact .refl s
  | readMore => exact readMoreLoop_hushed s
  | «end» =>
    unfold runTick
    dsimp only
    split_ifs
    · exact ⟨rfl, rfl, rfl⟩
    · exact .refl s

lemma enter_st (m : System α σ) (r : Res (State α σ) Frame) :
    (enter .user m r).st = r.state := by
  cases r <;> rfl

lemma resume_quiet (m : System α σ) : Quiet m.st (resume exec boundary m.st m.stack).st := by
  refine resume_keeps (I := fun s _ => Quiet m.st s) (fun s f k _ hs => ?_) (fun s f k _ hs => hs)
    (.refl m.st)
  have hexec := hs.trans (exec_hushed s f)
  unfold Res.Keeps
  exact hexec

end Quiet

/-- **The consumer pushes nothing**, decodes nothing and ends nothing. -/
lemma consume_quiet {m m' : System α σ} {a : Act α} (ha : Consumes a)
    (h : step codec defaultEncoding m a = some m') : Quiet m.st m'.st := by
  cases a with
  | push chunk encoding => exact absurd ha id
  | unshift chunk => exact absurd ha id
  | read n =>
    obtain rfl := Option.some.inj h
    rw [enter_st]
    exact read_hushed n m.st
  | onReadable =>
    obtain rfl := Option.some.inj h
    rw [enter_st]
    exact onReadable_hushed m.st
  | flow flowing =>
    obtain rfl := Option.some.inj h
    exact ⟨rfl, rfl, rfl⟩
  | ret =>
    simp only [step] at h
    split_ifs at h
    obtain rfl := Option.some.inj h
    exact resume_quiet m
  | tick =>
    simp only [step] at h
    split at h
    · next t ts _ _ =>
      obtain rfl := Option.some.inj h
      have hticks : Quiet m.st { m.st with ticks := ts } := ⟨rfl, rfl, rfl⟩
      exact hticks.trans (runTick_hushed _ t)
    · cases h

/-! ### What a push does -/

section Push

omit [DecidableEq α]

variable {s : State α σ}

lemma readableAddChunk_state (hended : s.ended = false) {item : Item α} (hnull : item ≠ .null)
    (hvalid : item ≠ .invalid) {r : State α σ} (hr : (readableAddChunk codec s item).state = r) :
    r.accepted = s.accepted ++ (added codec s.decoder item).1 ∧
      r.decoder = (added codec s.decoder item).2 ∧ r.ended = false := by
  subst hr
  cases item with
  | null => exact absurd rfl hnull
  | invalid => exact absurd rfl hvalid
  | buf | units =>
    unfold readableAddChunk added
    dsimp only
    split_ifs with h0 h1
    · exact ⟨(List.append_nil _).symm, rfl, hended⟩
    · exact absurd (hended.symm.trans h1) Bool.false_ne_true
    · split
      · next chunk decoder hdecode =>
        rw [hdecode]
        have hq := chunkAdded_hushed { s.append chunk with decoder := decoder, reading := false }
        exact ⟨hq.accepted, hq.decoder, hq.ended.trans hended⟩
      · next decoder hdecode =>
        rw [hdecode]
        exact ⟨(List.append_nil _).symm, rfl, hended⟩

lemma push_state (hended : s.ended = false) (text : List α) {r : State α σ}
    (hr : (push codec defaultEncoding s (given (data text)) none).state = r) :
    r.accepted = s.accepted ++ (pushedText codec data defaultEncoding s.decoder text).1 ∧
      r.decoder = (pushedText codec data defaultEncoding s.decoder text).2 ∧ r.ended = false := by
  unfold pushedText
  rw [push_eq] at hr
  cases hdata : data text with
  | buf b =>
    rw [hdata] at hr
    exact readableAddChunk_state codec hended (by simp) (by simp) hr
  | str text =>
    rw [hdata] at hr
    have hitem : ∀ item, pushed codec defaultEncoding (given (.str text)) none = some item →
        item ≠ .null ∧ item ≠ .invalid := by
      intro item hitem
      unfold given pushed at hitem
      dsimp only at hitem
      split_ifs at hitem
      · obtain ⟨b, -, rfl⟩ := Option.map_eq_some_iff.mp hitem
        simp
      · obtain rfl := Option.some.inj hitem
        simp
    cases hp : pushed codec defaultEncoding (given (.str text)) none with
    | none =>
      rw [hp] at hr
      subst hr
      exact ⟨(List.append_nil _).symm, rfl, hended⟩
    | some item =>
      rw [hp] at hr
      exact readableAddChunk_state codec hended (hitem item hp).1 (hitem item hp).2 hr

lemma pushedText_eq {text : List α} {item : Item α}
    (h : pushed codec defaultEncoding (given (data text)) none = some item) (d : σ) :
    pushedText codec data defaultEncoding d text = added codec d item := by
  unfold pushedText
  rw [h]

lemma onData_state (hended : s.ended = false) (b : Bytes) {r : State α σ}
    (hr : (onData codec data defaultEncoding s b).state = r) :
    r.accepted = s.accepted ++ (dataText codec data defaultEncoding s.decoder b).1 ∧
      r.decoder = (dataText codec data defaultEncoding s.decoder b).2 ∧ r.ended = false := by
  unfold dataText
  unfold onData at hr
  rcases hw : codec.write s.decoder b with ⟨_ | text, decoder⟩ <;> rw [hw] at hr
  · subst hr
    exact ⟨(List.append_nil _).symm, rfl, hended⟩
  · dsimp only at hr ⊢
    split_ifs at hr ⊢
    · subst hr
      exact ⟨(List.append_nil _).symm, rfl, hended⟩
    · have hdecoded : ({ s with decoder := decoder } : State α σ).ended = false := hended
      exact push_state codec data defaultEncoding hdecoded text hr

lemma onEnd_state (hended : s.ended = false) {r : State α σ}
    (hr : (onEnd codec data defaultEncoding s).state = r) :
    r.accepted = s.accepted ++ (endText codec data defaultEncoding s.decoder).1 ∧
      r.decoder = (endText codec data defaultEncoding s.decoder).2 ∧ r.ended = false := by
  unfold endText
  unfold onEnd at hr
  rw [hended, if_neg Bool.false_ne_true] at hr
  dsimp only at hr
  split_ifs at hr ⊢
  · subst hr
    exact ⟨(List.append_nil _).symm, rfl, hended⟩
  · exact push_state codec data defaultEncoding hended _ hr

lemma push_null (hended : s.ended = false) : push codec defaultEncoding s .null none =
    onEofChunk codec { s with reading := false } := by
  show (if s.ended then _ else _) = _
  rw [hended, if_neg Bool.false_ne_true]

/-- `onEofChunk` appends what the decoder gives at the end. -/
lemma push_null_state (hended : s.ended = false) {r : State α σ}
    (hr : (push codec defaultEncoding s .null none).state = r) :
    r.accepted = s.accepted ++ codec.finish s.decoder ∧ r.ended = true := by
  subst hr
  rw [push_null codec defaultEncoding hended]
  unfold onEofChunk
  dsimp only
  set u : State α σ := if codec.finish s.decoder ≠ [] then
    State.append { s with reading := false } (codec.finish s.decoder)
    else { s with reading := false } with hu
  have haccepted : u.accepted = s.accepted ++ codec.finish s.decoder := by
    rw [hu]
    split_ifs with hne
    · rfl
    · rw [not_not.mp hne, List.append_nil]
  have hq (r : Res (State α σ) Frame) (h : Hushed { u with ended := true } r) :
      r.state.accepted = s.accepted ++ codec.finish s.decoder ∧ r.state.ended = true :=
    ⟨h.accepted.trans haccepted, h.ended⟩
  split_ifs
  · exact hq _ (emitReadable_hushed _)
  · exact hq _ (endReadable_quiet rfl)

end Push

/-! ### Whole runs -/

/-- Between two steps nothing is lost of what has come and is to come. -/
structure Sound (chunks : List Bytes) (w : World α σ) : Prop where
  good : Good w.system.st w.system.stack
  ended : w.phase = .ended ↔ w.system.st.ended = true
  told : w.system.st.accepted ++ w.ahead codec data defaultEncoding =
    wrapText codec data defaultEncoding codec.start chunks

variable {codec data defaultEncoding} {chunks : List Bytes} {w w' : World α σ}

omit [DecidableEq α] in
lemma Sound.not_ended (h : Sound codec data defaultEncoding chunks w) (hphase : w.phase ≠ .ended) :
    w.system.st.ended = false := by
  cases hended : w.system.st.ended with
  | false => rfl
  | true => exact absurd (h.ended.mpr hended) hphase

omit [DecidableEq α] in
lemma onData_runs {s : State α σ} {k : List Frame} (h : Running s k) (b : Bytes) :
    Runs (onData codec data defaultEncoding s b) k := by
  unfold onData
  split
  · exact h.congr ⟨rfl, rfl, rfl, rfl⟩
  · next text decoder _ =>
    have hd : Running { s with decoder := decoder } k := h.congr ⟨rfl, rfl, rfl, rfl⟩
    split_ifs
    · exact hd
    · exact hd.push codec defaultEncoding _ none

omit [DecidableEq α] in
lemma onEnd_runs {s : State α σ} {k : List Frame} (h : Running s k) :
    Runs (onEnd codec data defaultEncoding s) k := by
  unfold onEnd
  dsimp only
  split_ifs
  · exact h
  · exact h
  · exact h.push codec defaultEncoding _ none

/-- **A step keeps it.** -/
lemma Sound.step (h : Sound codec data defaultEncoding chunks w)
    (hs : Step codec data defaultEncoding w w') : Sound codec data defaultEncoding chunks w' := by
  have hu := h.good.user
  have htold := h.told
  cases hs with
  | consume ha hfresh hstep =>
    have hq := consume_quiet codec defaultEncoding ha hstep
    refine ⟨step_good codec defaultEncoding h.good hstep hfresh, ?_, ?_⟩
    · rw [hq.ended]
      exact h.ended
    · unfold World.ahead at htold ⊢
      rw [hq.accepted, hq.decoder]
      exact htold
  | @data b rest hphase hrest =>
    have hended := h.not_ended (by rw [hphase]; decide)
    obtain ⟨haccepted, hdecoder, hstill⟩ := onData_state codec data defaultEncoding
      hended b (enter_st w.system _).symm
    refine ⟨(onData_runs hu b).enter, ?_, ?_⟩
    · dsimp only
      rw [hstill]
      simp
    · unfold World.ahead at htold ⊢
      rw [hphase, hrest] at htold
      dsimp only at htold ⊢
      rw [haccepted, hdecoder, List.append_assoc]
      exact htold
  | tail hphase hrest =>
    have hended := h.not_ended (by rw [hphase]; decide)
    obtain ⟨haccepted, hdecoder, hstill⟩ := onEnd_state codec data defaultEncoding
      hended (enter_st w.system _).symm
    refine ⟨(onEnd_runs hu).enter, ?_, ?_⟩
    · dsimp only
      rw [hstill]
      simp
    · unfold World.ahead at htold ⊢
      rw [hphase, hrest] at htold
      dsimp only at htold ⊢
      rw [haccepted, hdecoder, List.append_assoc]
      exact htold
  | null hphase =>
    have hended := h.not_ended (by rw [hphase]; decide)
    obtain ⟨haccepted, hstill⟩ := push_null_state codec defaultEncoding
      hended (enter_st w.system _).symm
    refine ⟨(hu.push codec defaultEncoding .null none).enter, ?_, ?_⟩
    · dsimp only
      rw [hstill]
      simp
    · unfold World.ahead at htold ⊢
      rw [hphase] at htold
      dsimp only at htold ⊢
      rw [haccepted, List.append_nil]
      exact htold

lemma sound_of_reachable {highWaterMark : ℤ}
    (h : Reachable codec data defaultEncoding highWaterMark chunks w) :
    Sound codec data defaultEncoding chunks w := by
  induction h with
  | refl => exact ⟨⟨⟨rfl, rfl⟩, rfl⟩, by simp [World.start, init, State.new], rfl⟩
  | tail _ hs ih => exact ih.step hs

/-- **What has been read in the end** is what comes of the chunks, whoever read when. -/
theorem taken_of_complete {highWaterMark : ℤ}
    (h : Reachable codec data defaultEncoding highWaterMark chunks w) (hw : w.Complete) :
    w.system.st.taken = wrapText codec data defaultEncoding codec.start chunks := by
  obtain ⟨hgood, -, htold⟩ := sound_of_reachable h
  have hdata := hgood.conserved.data
  have hlength := hgood.conserved.length_eq
  rw [hw.2] at hlength
  have hnil : w.system.st.buffer.flatten = [] := List.length_eq_zero_iff.mp (by omega)
  unfold World.ahead at htold
  rw [hw.1] at htold
  rw [hnil, List.append_nil] at hdata
  rw [hdata, ← htold]
  exact (List.append_nil _).symm

/-! ### A run that comes to its end

Everything is emitted at once, and then read at once. -/

/-- Nobody has read yet. -/
structure Unread (m : System α σ) : Prop where
  stack : m.stack = []
  sync : m.st.sync = true
  needReadable : m.st.needReadable = false
  flowing : m.st.flowing = false

section Unread

omit [DecidableEq α]

variable {s : State α σ} {m : System α σ}

/-- The function returns, with everything as if nobody had read. -/
def Returns (r : Res (State α σ) Frame) : Prop := ∃ s, r = .ret s ∧ Unread ⟨s, []⟩

lemma Unread.of (h : Unread m) : Unread ⟨m.st, []⟩ := ⟨rfl, h.sync, h.needReadable, h.flowing⟩

lemma Unread.emitReadable (h : Unread ⟨s, []⟩) : Returns (emitReadable s) := by
  have hsync : s.sync = true := h.sync
  unfold Readable.emitReadable
  rw [if_pos hsync]
  split_ifs <;> exact ⟨_, rfl, rfl, hsync, rfl, h.flowing⟩

lemma Unread.chunkAdded (h : Unread ⟨s, []⟩) : Returns (chunkAdded s) := by
  have hneed : s.needReadable = false := h.needReadable
  unfold Readable.chunkAdded
  rw [hneed, if_neg Bool.false_ne_true]
  refine ⟨_, rfl, ?_⟩
  unfold maybeReadMore
  split_ifs
  · exact ⟨rfl, h.sync, h.needReadable, h.flowing⟩
  · exact h

lemma Unread.push (h : Unread ⟨s, []⟩) (hended : s.ended = false) (text : List α) :
    Returns (Readable.push codec defaultEncoding s (given (data text)) none) := by
  have hadd (item : Item α) (hnull : item ≠ .null) (hvalid : item ≠ .invalid) :
      Returns (readableAddChunk codec s item) := by
    cases item with
    | null => exact absurd rfl hnull
    | invalid => exact absurd rfl hvalid
    | buf | units =>
      unfold readableAddChunk
      dsimp only
      split_ifs with _ hs
      · exact ⟨_, rfl, rfl, h.sync, h.needReadable, h.flowing⟩
      · exact absurd (hended.symm.trans hs) Bool.false_ne_true
      · split
        · exact Unread.chunkAdded ⟨rfl, h.sync, h.needReadable, h.flowing⟩
        · exact ⟨_, rfl, rfl, h.sync, h.needReadable, h.flowing⟩
  rw [push_eq]
  cases data text with
  | buf b => exact hadd (.buf b) (by simp) (by simp)
  | str text =>
    unfold given pushed
    dsimp only
    split_ifs
    · cases newBuffer text (some defaultEncoding) with
      | none => exact ⟨s, rfl, h⟩
      | some b => exact hadd (.buf b) (by simp) (by simp)
    · exact hadd (.units _) (by simp) (by simp)

lemma Unread.onData (h : Unread ⟨s, []⟩) (hended : s.ended = false) (b : Bytes) :
    Returns (onData codec data defaultEncoding s b) := by
  unfold ReadableWrap.onData
  rcases codec.write s.decoder b with ⟨_ | text, decoder⟩
  · exact ⟨_, rfl, rfl, h.sync, h.needReadable, h.flowing⟩
  · have hd : Unread ⟨{ s with decoder := decoder }, []⟩ :=
      ⟨rfl, h.sync, h.needReadable, h.flowing⟩
    dsimp only
    split_ifs
    · exact ⟨_, rfl, hd⟩
    · exact hd.push hended text

lemma Unread.onEnd (h : Unread ⟨s, []⟩) (hended : s.ended = false) :
    Returns (onEnd codec data defaultEncoding s) := by
  unfold ReadableWrap.onEnd
  rw [hended, if_neg Bool.false_ne_true]
  dsimp only
  split_ifs
  · exact ⟨s, rfl, h⟩
  · exact h.push hended _

lemma Unread.enter (h : Unread m) {r : Res (State α σ) Frame} (hr : Returns r) :
    Unread (enter .user m r) := by
  obtain ⟨s, rfl, hs⟩ := hr
  exact ⟨h.stack, hs.sync, hs.needReadable, hs.flowing⟩

lemma Unread.push_null (h : Unread ⟨s, []⟩) (hended : s.ended = false) :
    Returns (Readable.push codec defaultEncoding s .null none) := by
  rw [ReadableWrap.push_null codec defaultEncoding hended]
  unfold onEofChunk
  dsimp only
  set u : State α σ := if codec.finish s.decoder ≠ [] then
    State.append { s with reading := false } (codec.finish s.decoder)
    else { s with reading := false } with hu
  have hunread : Unread ⟨{ u with ended := true }, []⟩ := by
    rw [hu]
    split_ifs <;> exact ⟨rfl, h.sync, h.needReadable, h.flowing⟩
  split_ifs
  · exact hunread.emitReadable
  · refine ⟨_, rfl, ?_⟩
    unfold endReadable
    split_ifs
    · exact ⟨rfl, hunread.sync, hunread.needReadable, hunread.flowing⟩
    · exact hunread

/-- One `read()` takes everything. -/
lemma Unread.read_all (h : Unread m) (hc : Conserved m.st) (hended : m.st.ended = true)
    (hpos : m.st.length ≠ 0) : ∃ s, read none m.st = .ret s ∧ s.length = 0 := by
  set u : State α σ := { m.st with
    calledRead := true
    emittedReadable := m.st.emittedReadable && !((none : Option ℤ).all fun n => 0 < n) } with hu
  have hflowing : u.flowing = false := h.flowing
  have hmuch : howMuchToRead none u = (u.length, u) := by
    unfold howMuchToRead
    rw [if_neg fun h0 => hpos h0.1, hflowing]
  have hread : read none m.st =
      readFrom u.length none (decide ((none : Option ℤ) = none ∧ 0 < u.length)) u := by
    have hnone : ¬ ((none : Option ℤ) = some 0 ∧ u.needReadable = true ∧
        (u.highWaterMark ≤ u.length ∨ u.ended = true)) := fun h0 => by cases h0.1
    have hfrom : read none m.st = readFrom (howMuchToRead none u).1 none
        (decide ((none : Option ℤ) = none ∧ 0 < u.length)) (howMuchToRead none u).2 := by
      unfold Readable.read
      exact if_neg hnone
    rw [hfrom, hmuch]
  have hlength := hc.length_eq
  have hcut : cut u.length u = (some u.buffer.flatten, []) := by
    have hbuffer : u.buffer = m.st.buffer := rfl
    have hsame : u.length = m.st.length := rfl
    unfold cut fromList
    rw [if_pos (by omega)]
    cases hb : u.buffer with
    | nil =>
      rw [← hbuffer, hb] at hlength
      exact absurd hlength hpos
    | cons chunk rest =>
      dsimp only
      rw [if_neg hpos, if_pos le_rfl]
  refine ⟨_, by rw [hread]; unfold readFrom; rw [if_neg fun h0 => hpos h0.1,
    if_neg fun hdo => hdo.2 (.inl hended)], ?_⟩
  rw [(readEnd_same _ _ u).length, hcut]
  exact sub_self _

end Unread

/-- Emitting goes on to the end. -/
lemma exists_ended {highWaterMark : ℤ} {chunks : List Bytes} {w : World α σ}
    (h : Reachable codec data defaultEncoding highWaterMark chunks w)
    (hphase : w.phase = .emitting) (hunread : Unread w.system) :
    ∃ w', Reachable codec data defaultEncoding highWaterMark chunks w' ∧ w'.phase = .ended ∧
      Unread w'.system := by
  have hended := (sound_of_reachable h).not_ended (by rw [hphase]; decide)
  cases hrest : w.rest with
  | cons b rest =>
    exact exists_ended (h.tail (.data hphase hrest)) rfl
      (hunread.enter (hunread.of.onData hended b))
  | nil =>
    have htail := h.tail (.tail hphase hrest)
    have hreturns : Returns (onEnd codec data defaultEncoding w.system.st) :=
      hunread.of.onEnd hended
    have hunread' := hunread.enter hreturns
    have hended' := (sound_of_reachable htail).not_ended (fun hend => by cases hend)
    exact ⟨_, htail.tail (.null rfl), rfl,
      hunread'.enter (hunread'.of.push_null hended')⟩
termination_by w.rest.length
decreasing_by
  rw [hrest]
  exact Nat.lt_succ_self _

variable (codec data defaultEncoding)

/-- **The old stream can be read to its end.** -/
theorem exists_complete (highWaterMark : ℤ) (chunks : List Bytes) :
    ∃ w : World α σ, Reachable codec data defaultEncoding highWaterMark chunks w ∧ w.Complete := by
  have hstart : Reachable codec data defaultEncoding highWaterMark chunks
      (.start codec highWaterMark chunks) := .refl
  obtain ⟨w, hw, hphase, hunread⟩ := exists_ended hstart rfl ⟨rfl, rfl, rfl, rfl⟩
  have hsound := sound_of_reachable hw
  by_cases hzero : w.system.st.length = 0
  · exact ⟨w, hw, hphase, hzero⟩
  · obtain ⟨s, hread, hs⟩ := hunread.read_all hsound.good.conserved (hsound.ended.mp hphase) hzero
    have hstep : step codec defaultEncoding w.system (.read none) = some ⟨s, w.system.stack⟩ := by
      show some (enter .user w.system (read none w.system.st)) = _
      rw [hread]
      rfl
    have hread : Consumes (.read none : Act α) := trivial
    exact ⟨_, hw.tail (.consume hread trivial hstep), hphase, hs⟩

end NodeCore.ReadableWrap
