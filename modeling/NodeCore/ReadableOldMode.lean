import NodeCore.ReadableConserve

/-!
A readable stream in old mode: `pause`, `resume` and the events `'data'`.

The handler that `emitDataEvents` installs reads all there is while the stream is not paused. It
waits for the next event `'readable'` when it has found nothing, or when it has been paused; in the
second case `resume` has the event emitted again. Nobody else listens to `'readable'` or reads, and
nobody pipes. The handler does not look at `paused` between its `read()` and the event: the
`_read` that this `read()` calls can pause the stream in vain.
-/

namespace NodeCore.ReadableOldMode

open NodeCore.Encoding NodeCore.Reentrant NodeCore.Readable NodeCore.ReadableConserve

/-! ### The code -/

variable {α σ : Type}

structure Old (α σ : Type) where
  st : State α σ
  /-- `emitDataEvents` has been called. -/
  old : Bool
  /-- The variables of `emitDataEvents`. -/
  paused : Bool
  readable : Bool
  /-- The events `'data'`, and whether the stream was paused. -/
  data : List (Bool × List α)

/-- The rest of a function. -/
inductive Stage
  /-- A listener is running. -/
  | user
  /-- `_read` is running. -/
  | source
  /-- `emit('readable')` -/
  | readable
  /-- The loop of the handler. -/
  | loop
  /-- `this.read(0)`, at the end of the first `resume`. -/
  | readZero
  /-- In `read`, after `_read`, for the loop or for `read(0)`. -/
  | read (byLoop : Bool) (n : ℤ) (found : Bool)
  | addChunk
  | readMore (len : ℤ)
  deriving DecidableEq

/-- Code outside of the stream. -/
def Stage.foreign : Stage → Bool
  | .user | .source => true
  | _ => false

def stage (byLoop : Bool) : Frame → Stage
  | .user => .user
  | .addChunk => .addChunk
  | .read n _ found => .read byLoop n found
  | .readMore len => .readMore len

/-- A function calls `_read`, and otherwise it emits `'readable'`. -/
def called (byLoop : Bool) (fs : List Frame) : List Stage :=
  match fs with
  | .read .. :: _ => .source :: fs.map (stage byLoop)
  | _ => .readable :: fs.map (stage byLoop)

namespace Old

variable (w : Old α σ)

/-- What a function of the stream does that emits no event but `'readable'`. -/
def on (byLoop : Bool) : Res (State α σ) Frame → Old α σ × List Stage
  | .ret s => ({ w with st := s }, [])
  | .call s fs => ({ w with st := s }, called byLoop fs)

/-- `'error'` is emitted where nothing has been pushed. -/
def push (codec : Codec α σ) (defaultEncoding : Str) (chunk : Chunk) (encoding : EncArg) :
    Old α σ × List Stage :=
  match Readable.push codec defaultEncoding w.st chunk encoding with
  | .call s [] => ({ w with st := s }, if chunk = .null then [.readable] else [.user])
  | r => w.on false r

def emitDataEvents (startPaused : Bool) : Old α σ × List Stage :=
  ({ w with old := true, paused := startPaused, readable := false }, [.readable])

def pause : Old α σ × List Stage :=
  if w.old then ({ w with paused := true }, []) else w.emitDataEvents true

def resume : Old α σ × List Stage :=
  if w.old then
    let w := { w with paused := false }
    if w.readable then
      ({ w with st := { w.st with ticks := w.st.ticks ++ [.emitReadable] } }, [])
    else w.on false (read (some 0) w.st)
  else ((w.emitDataEvents false).1, (w.emitDataEvents false).2 ++ [.readZero])

/-- `on('data')` -/
def onData : Old α σ × List Stage := if w.old then (w, []) else w.emitDataEvents false

/-- The loop has read `c`. -/
def received (c : Option (List α)) : Old α σ × List Stage :=
  match c with
  | none => ({ w with readable := false, st := { w.st with needReadable := true } }, [])
  | some c => ({ w with data := w.data ++ [(w.paused, c)] }, [.user, .loop])

/-- What `read()` returns once it knows how much to read. -/
def value (s : State α σ) : Option (List α) :=
  let (n, s) := howMuchToRead none s
  if n = 0 ∧ s.ended then none else (cut n s).1

def loop : Old α σ × List Stage :=
  if w.paused then (w, [])
  else
    match read none w.st with
    | .ret s => { w with st := s }.received (value w.st)
    | .call s fs => ({ w with st := s }, called true fs)

/-- What `read()` returns after `_read`. -/
def valueDone (n : ℤ) (s : State α σ) : Option (List α) :=
  if !s.reading then (cut (howMuchToRead none s).1 s).1 else (cut n s).1

/-- The code of a frame. -/
def exec : Stage → Old α σ × List Stage
  | .user | .source => (w, [])
  | .readable => if w.old then ({ w with readable := true }, [.loop]) else (w, [])
  | .loop => w.loop
  | .readZero => w.on false (read (some 0) w.st)
  | .read true n found =>
    { w with st := (readDone n none found w.st).state }.received (valueDone n w.st)
  | .read false n found => w.on false (readDone n (some 0) found w.st)
  | .addChunk => w.on false (addChunkDone w.st)
  | .readMore len => w.on false (readMoreAfter len w.st)

def runTick : Tick → Old α σ × List Stage
  | .emitReadable => (w, [.readable])
  | .readMore => w.on false (readMoreLoop w.st)
  | .end =>
    if !w.st.endEmitted && w.st.length = 0 then
      ({ w with st := { w.st with endEmitted := true } }, [.user])
    else (w, [])

end Old

/-- What foreign code does, and what goes on by itself. -/
inductive Act
  | push (chunk : Chunk) (encoding : EncArg)
  | pause
  | resume
  | onData
  /-- It returns. -/
  | ret
  | tick
  /-- The code of the innermost frame runs. -/
  | run
  deriving DecidableEq

abbrev System (α σ : Type) := Machine (Old α σ) Stage

def call (stack : List Stage) (r : Old α σ × List Stage) : System α σ := ⟨r.1, r.2 ++ stack⟩

variable (codec : Codec α σ) (defaultEncoding : Str)

/-- One step. With an empty stack code outside of the stream runs, too. -/
def step (m : System α σ) (a : Act) : Option (System α σ) :=
  if (m.stack.head?.getD .user).foreign then
    match a with
    | .push chunk encoding =>
      some (call m.stack (m.st.push codec defaultEncoding chunk encoding))
    | .pause => some (call m.stack m.st.pause)
    | .resume => some (call m.stack m.st.resume)
    | .onData => some (call m.stack m.st.onData)
    | .ret => if m.stack = [] then none else some ⟨m.st, m.stack.tail⟩
    | .tick =>
      match m.stack, m.st.st.ticks with
      | [], t :: ts =>
        some (call [] ({ m.st with st := { m.st.st with ticks := ts } }.runTick t))
      | _, _ => none
    | .run => none
  else
    match m.stack, a with
    | f :: k, .run => some (call k (m.st.exec f))
    | _, _ => none

/-- A stream that nobody has switched. -/
def start (s : State α σ) : System α σ := ⟨⟨s, false, false, false, []⟩, []⟩

/-- The `read()` of the loop, after `_read`. -/
def Stage.ofLoop : Stage → Bool
  | .read byLoop _ _ => byLoop
  | _ => false

/-- The `read()` of the loop has called `_read`, which has not returned. -/
def inRead (stack : List Stage) : Prop := ∃ f ∈ stack, f.ofLoop = true

/-- When that `_read` has returned, the stream is not paused, or nothing is there. -/
def Awake (m : System α σ) : Prop :=
  m.stack.head?.any Stage.ofLoop = true → m.st.paused = true → m.st.st.length = 0

/-- And until then `resume` does not call `_read` again. -/
def Fits (m : System α σ) (a : Act) : Prop :=
  Awake m ∧ (inRead m.stack → a = .resume →
    m.st.readable = true ∨ m.st.st.reading = true ∨ m.st.st.ended = true)

instance (stack : List Stage) : Decidable (inRead stack) :=
  inferInstanceAs (Decidable (∃ f ∈ stack, f.ofLoop = true))

instance (m : System α σ) : Decidable (Awake m) :=
  inferInstanceAs (Decidable (_ → _ → _))

instance (m : System α σ) (a : Act) : Decidable (Fits m a) :=
  inferInstanceAs (Decidable (_ ∧ (_ → _ → _)))

/-! ### What the functions of the stream keep -/

section Functions

variable {codec : Codec α σ} {defaultEncoding : Str} {s t : State α σ} {P : Prop} {l : List α}

/-- `'readable'` is on a tick, or, if `P`, will be emitted later. -/
def Queued (P : Prop) (s : State α σ) : Prop := P ∨ Tick.emitReadable ∈ s.ticks

/-- Nothing is there, and the next push emits `'readable'`. -/
def Idle (s : State α σ) : Prop :=
  s.length = 0 ∧ (s.ended = true ∨ s.needReadable = true ∧ s.emittedReadable = false)

/-- The handler will be called again when there is something to read. -/
def Waits (P : Prop) (s : State α σ) : Prop := Queued P s ∨ Idle s

/-- No data has been taken but `l`, and the stream does not flow. -/
def Untouched (l : List α) (s : State α σ) : Prop := s.taken = l ∧ s.flowing = false

/-- The frames start with a call of `_read`. -/
def reads : List Frame → Bool
  | .read .. :: _ => true
  | _ => false

/-- A function of the stream that lets the handler wait, unless it calls it. -/
def Keeps (P : Prop) (l : List α) : Res (State α σ) Frame → Prop
  | .ret s => Untouched l s ∧ Waits P s
  | .call s fs => Untouched l s ∧ (reads fs = true → Waits P s) ∧
      ∀ n nOrig found, .read n nOrig found ∈ fs → n = 0

lemma Keeps.andThen {r : Res (State α σ) Frame} {f : Frame}
    {g : State α σ → Res (State α σ) Frame} (hr : Keeps P l r)
    (hf : ∀ n nOrig found, f ≠ .read n nOrig found)
    (hg : ∀ s, Untouched l s → Waits P s → Keeps P l (g s)) : Keeps P l (r.andThen f g) := by
  cases r with
  | ret s => exact hg s hr.1 hr.2
  | call s fs =>
    obtain ⟨hs, hwaits, hzero⟩ := hr
    refine ⟨hs, fun h => hwaits ?_, fun n nOrig found hmem => ?_⟩
    · cases fs with
      | nil => cases f <;> first | exact absurd rfl (hf _ _ _) | cases h
      | cons f' fs => cases f' <;> first | rfl | cases h
    · rcases List.mem_append.mp hmem with hmem | hmem
      · exact hzero n nOrig found hmem
      · exact absurd (List.mem_singleton.mp hmem).symm (hf n nOrig found)

/-- A change that leaves the handler waiting. -/
lemma Waits.change (h : Waits P s) (hticks : s.ticks <+: t.ticks) (hlength : t.length = s.length)
    (hended : t.ended = s.ended) (hemitted : t.emittedReadable = s.emittedReadable)
    (hneed : s.needReadable = true → t.needReadable = true) : Waits P t := by
  rcases h with hq | ⟨hzero, he | ⟨hn, hnot⟩⟩
  · exact .inl (hq.imp_right fun hq => hticks.subset hq)
  · exact .inr ⟨hlength.trans hzero, .inl (hended.trans he)⟩
  · exact .inr ⟨hlength.trans hzero, .inr ⟨hneed hn, hemitted.trans hnot⟩⟩

lemma emitReadable_keeps (hs : Untouched l s)
    (h : s.emittedReadable = true → Queued P s ∨ s.length = 0 ∧ s.ended = true) :
    Keeps P l (emitReadable s) := by
  unfold emitReadable
  split_ifs with hemitted hsync
  · refine ⟨hs, ?_⟩
    rcases h hemitted with hq | ⟨hlength, hended⟩
    · exact .inl hq
    · exact .inr ⟨hlength, .inl hended⟩
  · exact ⟨hs, .inl (.inr (List.mem_append_right _ List.mem_cons_self))⟩
  · refine ⟨hs, fun hreads => ?_, fun _ _ _ hmem => ?_⟩
    · cases hreads
    · cases hmem

/-- It sets what is set. -/
lemma endReadable_eq (h : s.ended = true) :
    ∃ ticks, endReadable s = { s with ticks := s.ticks ++ ticks } := by
  unfold Readable.endReadable
  split_ifs
  · exact ⟨[.end], by rw [← h]⟩
  · exact ⟨[], by rw [List.append_nil]⟩

lemma addChunkDone_keeps (hs : Untouched l s) (h : Waits P s) : Keeps P l (addChunkDone s) := by
  unfold addChunkDone maybeReadMore
  split_ifs
  · exact ⟨hs, h.change (List.prefix_append _ _) rfl rfl rfl id⟩
  · exact ⟨hs, h⟩

lemma chunkAdded_keeps (hs : Untouched l s)
    (h : Queued P s ∨ s.needReadable = true ∧ s.emittedReadable = false) :
    Keeps P l (chunkAdded s) := by
  unfold chunkAdded
  refine Keeps.andThen ?_ (fun _ _ _ h => by cases h) fun s => addChunkDone_keeps
  split_ifs with hneed
  · refine emitReadable_keeps hs fun hemitted => ?_
    rcases h with hq | ⟨-, hnot⟩
    · exact .inl hq
    · rw [hemitted] at hnot
      cases hnot
  · exact ⟨hs, .inl (h.resolve_right fun h => hneed h.1)⟩

lemma chunkAdded_ne (s t : State α σ) : chunkAdded s ≠ .call t [] := by
  unfold chunkAdded
  generalize (if s.needReadable = true then emitReadable s else .ret s) = r
  intro h
  cases r with
  | ret s => cases h
  | call s fs => cases fs <;> cases h

lemma onEofChunk_keeps (hs : Untouched l s) (h : Waits P s) (hended : s.ended = false) :
    Keeps P l (onEofChunk codec s) := by
  unfold onEofChunk
  extract_lets chunk s' t
  have hs' : Untouched l s' ∧ s'.ticks = s.ticks ∧
      s'.emittedReadable = s.emittedReadable ∧ s.length ≤ s'.length := by
    unfold s'
    split_ifs
    · refine ⟨hs, rfl, rfl, ?_⟩
      show s.length ≤ s.length + chunk.length
      omega
    · exact ⟨hs, rfl, rfl, le_rfl⟩
  obtain ⟨hs', hticks, hemitted, hlength⟩ := hs'
  have ht : Untouched l t := hs'
  have hcases : Queued P t ∨ s.length = 0 ∧ t.emittedReadable = false := by
    rcases h with hq | ⟨hzero, he | ⟨-, he⟩⟩
    · exact .inl (hq.imp_right fun hq => show Tick.emitReadable ∈ s'.ticks from hticks ▸ hq)
    · rw [hended] at he
      cases he
    · exact .inr ⟨hzero, hemitted.trans he⟩
  split_ifs with hpos
  · refine emitReadable_keeps ht fun he => .inl ?_
    rcases hcases with hq | ⟨-, hnot⟩
    · exact hq
    · rw [he] at hnot
      cases hnot
  · have hwaits : Waits P t := hcases.imp_right fun hzero => by
      refine ⟨le_antisymm (not_lt.mp hpos) ?_, .inl rfl⟩
      show 0 ≤ s'.length
      omega
    obtain ⟨ticks, heq⟩ := endReadable_eq (s := t) rfl
    rw [heq]
    exact ⟨ht, hwaits.change (List.prefix_append _ _) rfl rfl rfl id⟩

/-- All that a push does: an error, nothing that counts, a chunk, or the end. -/
inductive Pushed (codec : Codec α σ) (s : State α σ) (chunk : Chunk) :
    Res (State α σ) Frame → Prop
  | error (hnull : chunk ≠ .null) : Pushed codec s chunk (.call s [])
  | same (decoder : σ) (reading : Bool) (hreading : reading = true → s.reading = true) :
    Pushed codec s chunk (.ret { s with decoder := decoder, reading := reading })
  | added (hended : s.ended = false) (c : List α) (decoder : σ) :
    Pushed codec s chunk (chunkAdded { s.append c with decoder := decoder, reading := false })
  | eof (hnull : chunk = .null) (hended : s.ended = false) :
    Pushed codec s chunk (onEofChunk codec { s with reading := false })

lemma pushed_item (chunk : Chunk) (item : Item α) (hchunk : chunk ≠ .null) (hitem : item ≠ .null) :
    Pushed codec s chunk (readableAddChunk codec s item) := by
  unfold readableAddChunk
  split
  · exact .error hchunk
  · exact absurd rfl hitem
  · split_ifs with hempty hended
    · exact .same s.decoder false fun h => by cases h
    · exact .error hchunk
    · split
      · exact .added (Bool.eq_false_of_not_eq_true hended) _ _
      · exact .same _ s.reading id

lemma pushed (codec : Codec α σ) (defaultEncoding : Str) (s : State α σ) (chunk : Chunk)
    (encoding : EncArg) : Pushed codec s chunk (push codec defaultEncoding s chunk encoding) := by
  cases chunk with
  | invalid => exact pushed_item .invalid .invalid (fun h => by cases h) fun h => by cases h
  | buf b => exact pushed_item (.buf b) (.buf b) (fun h => by cases h) fun h => by cases h
  | null =>
    show Pushed codec s .null (if s.ended then .ret { s with reading := false }
      else onEofChunk codec { s with reading := false })
    split_ifs with hended
    · exact .same s.decoder false fun h => by cases h
    · exact .eof rfl (Bool.eq_false_of_not_eq_true hended)
  | str text =>
    unfold push
    dsimp only
    split_ifs
    · split
      · exact pushed_item (.str text) (.buf _) (fun h => by cases h) fun h => by cases h
      · exact .same s.decoder s.reading id
    · exact pushed_item (.str text) (.units _) (fun h => by cases h) fun h => by cases h

/-- A push, unless it emits `'error'`. -/
lemma Pushed.keeps {chunk : Chunk} {r : Res (State α σ) Frame} (hp : Pushed codec s chunk r)
    (hs : Untouched l s) (h : Waits P s) : Keeps P l r ∨ chunk ≠ .null ∧ r = .call s [] := by
  cases hp with
  | error hnull => exact .inr ⟨hnull, rfl⟩
  | same decoder reading => exact .inl ⟨hs, h.change List.prefix_rfl rfl rfl rfl id⟩
  | added hended c decoder =>
    refine .inl (chunkAdded_keeps hs ?_)
    rcases h with hq | ⟨-, he | hneed⟩
    · exact .inl hq
    · rw [hended] at he
      cases he
    · exact .inr hneed
  | eof hnull hended =>
    refine .inl (onEofChunk_keeps hs ?_ hended)
    exact h.change List.prefix_rfl rfl rfl rfl id

/-! ### `read(0)` -/

lemma howMuchToRead_zero (s : State α σ) : howMuchToRead (some 0) s = (0, s) := by
  unfold howMuchToRead
  split_ifs <;> rfl

/-- `read` returns nothing. -/
lemma give_none (s : State α σ) (found : Bool) :
    ∃ starved, s.give found none = { s with starved := starved } := by
  refine ⟨s.starved || found, ?_⟩
  simp [State.give]

lemma readEnd_zero (found : Bool) (s : State α σ) : ∃ ticks starved,
    readEnd 0 found s = { s with
      needReadable := true, ticks := s.ticks ++ ticks, starved := starved } := by
  have hneed : (if s.length = 0 ∧ (!s.ended) = true then
      { s with needReadable := true } else { s with needReadable := true }) =
      { s with needReadable := true } := by
    split_ifs <;> rfl
  have hend : readEnd 0 found s = (if s.ended = true ∧ (!s.endEmitted) = true ∧ s.length = 0
      then endReadable { s with needReadable := true }
      else { s with needReadable := true }).give found none := by
    unfold readEnd
    simp only [lt_irrefl, if_false, if_true, ite_self]
  split_ifs at hend with hended
  · obtain ⟨ticks, heq⟩ := endReadable_eq (s := { s with needReadable := true }) hended.1
    obtain ⟨starved, hgive⟩ := give_none (endReadable { s with needReadable := true }) found
    exact ⟨ticks, starved, by rw [hend, hgive, heq]⟩
  · obtain ⟨starved, hgive⟩ := give_none { s with needReadable := true } found
    exact ⟨[], starved, by rw [hend, hgive, List.append_nil]⟩

lemma readEnd_zero_keeps (h : Waits P s) (hs : Untouched l s) (found : Bool) :
    Keeps P l (.ret (readEnd 0 found s)) := by
  obtain ⟨ticks, starved, heq⟩ := readEnd_zero found s
  rw [heq]
  exact ⟨hs, h.change (List.prefix_append _ _) rfl rfl rfl fun _ => rfl⟩

lemma read_zero_eq (s : State α σ) : read (some 0) s =
    if s.needReadable = true ∧ (s.highWaterMark ≤ s.length ∨ s.ended)
    then emitReadable { s with calledRead := true }
    else readFrom 0 (some 0) false { s with calledRead := true } := by
  unfold Readable.read
  simp [howMuchToRead_zero]

lemma read_zero_keeps (hs : Untouched l s) (h : Waits P s) : Keeps P l (read (some 0) s) := by
  rw [read_zero_eq]
  set u : State α σ := { s with calledRead := true }
  have hu : Untouched l u := hs
  have hcalled : Waits P u := h.change List.prefix_rfl rfl rfl rfl id
  unfold readFrom
  split_ifs with hemit hended hlength hreading
  · refine emitReadable_keeps hu fun hemitted => ?_
    rcases hcalled with hq | ⟨hzero, he | ⟨-, hnot⟩⟩
    · exact .inl hq
    · exact .inr ⟨hzero, he⟩
    · rw [hemitted] at hnot
      cases hnot
  · obtain ⟨ticks, heq⟩ := endReadable_eq (s := u) hended.2
    obtain ⟨starved, hgive⟩ := give_none (endReadable u) false
    rw [hgive, heq]
    exact ⟨hu, hcalled.change (List.prefix_append _ _) rfl rfl rfl id⟩
  · obtain ⟨starved, hgive⟩ := give_none u false
    rw [hgive]
    exact ⟨hu, hcalled.change List.prefix_rfl rfl rfl rfl id⟩
  · refine ⟨hu, fun _ => hcalled.change List.prefix_rfl rfl rfl rfl fun hn => ?_,
      fun n nOrig found hmem => ?_⟩
    · exact Bool.or_eq_true_iff.mpr (.inl hn)
    · cases List.mem_singleton.mp hmem
      rfl
  · exact readEnd_zero_keeps hcalled hu false

/-- `read(0)`, after `_read`. -/
lemma readDone_zero_keeps (hs : Untouched l s) (h : Waits P s) (found : Bool) :
    Keeps P l (readDone 0 (some 0) found s) := by
  have hsync : Waits P { s with sync := false } := h.change List.prefix_rfl rfl rfl rfl id
  unfold readDone
  simp only [howMuchToRead_zero]
  split_ifs
  · exact readEnd_zero_keeps hsync hs found
  · exact readEnd_zero_keeps hsync hs found

lemma readMoreDone_keeps (hs : Untouched l s) (h : Waits P s) : Keeps P l (readMoreDone s) :=
  ⟨hs, h.change List.prefix_rfl rfl rfl rfl id⟩

lemma readMoreLoop_keeps (hs : Untouched l s) (h : Waits P s) : Keeps P l (readMoreLoop s) := by
  unfold readMoreLoop
  split_ifs
  · exact (read_zero_keeps hs h).andThen (fun _ _ _ h => by cases h) fun s => readMoreDone_keeps
  · exact readMoreDone_keeps hs h

lemma readMoreAfter_keeps (hs : Untouched l s) (h : Waits P s) (len : ℤ) :
    Keeps P l (readMoreAfter len s) := by
  unfold readMoreAfter
  split_ifs
  · exact readMoreDone_keeps hs h
  · exact readMoreLoop_keeps hs h

/-! ### `read()` -/

/-- While `_read` runs for a `read()` that has counted on `n`. -/
structure Held (l : List α) (n : ℤ) (s : State α σ) : Prop where
  untouched : Untouched l s
  sync : s.sync = true
  length : s.reading = true → s.length = n
  emitted : s.emittedReadable = true → Tick.emitReadable ∈ s.ticks

variable {n : ℤ}

lemma Held.later (h : Held l n s) (ticks : List Tick) :
    Held l n { s with ticks := s.ticks ++ ticks } :=
  ⟨h.untouched, h.sync, h.length, fun he => List.mem_append_left _ (h.emitted he)⟩

lemma Held.endReadable (h : Held l n s) (hended : s.ended = true) :
    Held l n (endReadable s) := by
  obtain ⟨ticks, heq⟩ := endReadable_eq hended
  rw [heq]
  exact h.later ticks

lemma Held.emitReadable (h : Held l n s) : ∃ t, emitReadable s = .ret t ∧ Held l n t := by
  unfold Readable.emitReadable
  rw [if_pos h.sync]
  split_ifs with hemitted
  · exact ⟨_, rfl, h.untouched, h.sync, h.length, h.emitted⟩
  · exact ⟨_, rfl, h.untouched, h.sync, h.length, fun _ =>
      List.mem_append_right _ List.mem_cons_self⟩

lemma Held.chunkAdded (h : Held l n s) : ∃ t, chunkAdded s = .ret t ∧ Held l n t := by
  have hemit : ∃ t, (if s.needReadable then Readable.emitReadable s else .ret s) = .ret t ∧
      Held l n t := by
    split_ifs
    · exact h.emitReadable
    · exact ⟨s, rfl, h⟩
  obtain ⟨t, heq, ht⟩ := hemit
  refine ⟨maybeReadMore t, by rw [Readable.chunkAdded, heq]; rfl, ?_⟩
  unfold maybeReadMore
  split_ifs
  · exact ⟨ht.untouched, ht.sync, ht.length, (ht.later [.readMore]).emitted⟩
  · exact ht

lemma Held.onEofChunk (h : Held l n s) (hreading : s.reading = false) :
    ∃ t, onEofChunk codec s = .ret t ∧ Held l n t := by
  unfold Readable.onEofChunk
  extract_lets chunk s' t
  have ht : Held l n t := by
    have hs' : Untouched l s' ∧ s'.sync = s.sync ∧ s'.reading = s.reading ∧
        s'.emittedReadable = s.emittedReadable ∧ s'.ticks = s.ticks := by
      unfold s'
      split_ifs
      · exact ⟨h.untouched, rfl, rfl, rfl, rfl⟩
      · exact ⟨h.untouched, rfl, rfl, rfl, rfl⟩
    obtain ⟨huntouched, hsync, hread, hemitted, hticks⟩ := hs'
    refine ⟨huntouched, hsync.trans h.sync, fun hr => ?_, fun he => ?_⟩
    · have := hreading.symm.trans (hread.symm.trans hr)
      cases this
    · show Tick.emitReadable ∈ s'.ticks
      rw [hticks]
      exact h.emitted (hemitted.symm.trans he)
  split_ifs
  · exact ht.emitReadable
  · exact ⟨_, rfl, ht.endReadable rfl⟩

lemma Pushed.held {chunk : Chunk} {r : Res (State α σ) Frame} (hp : Pushed codec s chunk r)
    (h : Held l n s) : (∃ t, r = .ret t ∧ Held l n t) ∨ chunk ≠ .null ∧ r = .call s [] := by
  have hidle : ∀ reading, (reading = true → s.reading = true) →
      Held l n { s with reading := reading } := fun reading hreading =>
    ⟨h.untouched, h.sync, fun hr => h.length (hreading hr), h.emitted⟩
  cases hp with
  | error hnull => exact .inr ⟨hnull, rfl⟩
  | same decoder reading hreading =>
    obtain ⟨huntouched, hsync, hlength, hemitted⟩ := hidle reading hreading
    exact .inl ⟨_, rfl, huntouched, hsync, hlength, hemitted⟩
  | added hended c decoder =>
    refine .inl (Held.chunkAdded ⟨h.untouched, h.sync, fun hr => ?_, h.emitted⟩)
    cases hr
  | eof hnull hended =>
    exact .inl ((hidle false fun hr => by cases hr).onEofChunk rfl)

/-- A `read(0)` that does not call `_read`. -/
lemma Held.read_zero (h : Held l n s) (hnot : s.reading = true ∨ s.ended = true) :
    ∃ t, read (some 0) s = .ret t ∧ Held l n t := by
  have hu : Held l n { s with calledRead := true } :=
    ⟨h.untouched, h.sync, h.length, h.emitted⟩
  rw [read_zero_eq]
  unfold readFrom
  rw [if_neg (c := _ ∧ ¬ _) fun hc => hc.2 hnot.symm]
  split_ifs with hemit hended hlength
  · exact hu.emitReadable
  · obtain ⟨starved, hgive⟩ := give_none (Readable.endReadable { s with calledRead := true }) false
    obtain ⟨huntouched, hsync, hlength, hemitted⟩ := hu.endReadable hended.2
    exact ⟨_, rfl, by rw [hgive]; exact ⟨huntouched, hsync, hlength, hemitted⟩⟩
  · obtain ⟨starved, hgive⟩ := give_none { s with calledRead := true } false
    exact ⟨_, rfl, by rw [hgive]; exact ⟨h.untouched, h.sync, h.length, h.emitted⟩⟩
  · obtain ⟨ticks, starved, heq⟩ := readEnd_zero false { s with calledRead := true }
    exact ⟨_, rfl, by rw [heq]; exact
      ⟨h.untouched, h.sync, h.length, (h.later ticks).emitted⟩⟩

lemma howMuchToRead_all (hflow : s.flowing = false) : howMuchToRead none s = (s.length, s) := by
  unfold howMuchToRead
  rw [hflow]
  split_ifs with hend
  · rw [hend.1]
  · rfl

lemma cut_all (h : Conserved s) :
    cut s.length s = if s.length = 0 then (none, s.buffer) else (some s.buffer.flatten, []) := by
  have hlen := h.length_eq
  unfold cut
  split_ifs with hpos hzero hzero
  · omega
  · unfold fromList
    split
    · next hbuf =>
      rw [hbuf] at hlen
      exact absurd hlen hzero
    · next chunk rest hbuf =>
      rw [if_neg hzero, if_pos le_rfl, hbuf]
  · rfl
  · omega

lemma readEnd_flags (n : ℤ) (found : Bool) (s : State α σ) :
    (readEnd n found s).flowing = s.flowing ∧
    (readEnd n found s).emittedReadable = s.emittedReadable ∧
    s.ticks <+: (readEnd n found s).ticks ∧
    ((readEnd n found s).length = 0 →
      (readEnd n found s).ended = true ∨ (readEnd n found s).needReadable = true) := by
  unfold readEnd Readable.endReadable State.give
  rcases (if 0 < n then fromList n s.length s.buffer else (none, s.buffer)) with ⟨ret, list⟩
  dsimp only
  split_ifs <;> simp_all

/-- The loop's `read()` takes everything. -/
lemma readEnd_all (hc : Conserved s) (hs : Untouched l s)
    (hemitted : s.emittedReadable = true → Tick.emitReadable ∈ s.ticks) (found : Bool) :
    Untouched (l ++ (cut s.length s).1.getD []) (readEnd s.length found s) ∧
      Waits P (readEnd s.length found s) := by
  have hsame := readEnd_same s.length found s
  obtain ⟨hflow, hem, hticks, hneed⟩ := readEnd_flags s.length found s
  have hzero : (readEnd s.length found s).length = 0 := by
    rw [hsame.length, cut_all hc]
    split_ifs <;> simp_all
  refine ⟨⟨?_, hflow.trans hs.2⟩, ?_⟩
  · rw [hsame.taken, hs.1]
  · by_cases he : (readEnd s.length found s).emittedReadable = true
    · exact .inl (.inr (hticks.subset (hemitted (hem ▸ he))))
    · exact .inr ⟨hzero, (hneed hzero).imp_right fun hn => ⟨hn, Bool.eq_false_of_not_eq_true he⟩⟩

/-- What `read()` returns is what there is. -/
lemma value_eq (hc : Conserved s) (hflow : s.flowing = false) :
    Old.value s = (cut s.length s).1 := by
  unfold Old.value
  rw [howMuchToRead_all hflow]
  dsimp only
  split_ifs with hend
  · rw [cut_all hc, if_pos hend.1]
  · rfl

lemma read_all (P : Prop) (hc : Conserved s) (hs : Untouched l s) :
    (∃ t, read none s = .ret t ∧ Untouched (l ++ (Old.value s).getD []) t ∧ Waits P t) ∨
    ∃ t found, read none s = .call t [.read s.length none found] ∧ Held l s.length t := by
  set u : State α σ := { s with calledRead := true, emittedReadable := false } with hu
  have hcu : Conserved u := hc.congr ⟨rfl, rfl, rfl, rfl⟩
  have hsu : Untouched l u := hs
  have hvalue : (cut u.length u).1 = Old.value s := (value_eq hc hs.2).symm
  have hread : ∃ found, read none s = readFrom s.length none found u := by
    refine ⟨decide (0 < s.length), ?_⟩
    unfold Readable.read
    simp [hu, howMuchToRead_all, hs.2]
  obtain ⟨found, hread⟩ := hread
  rw [hread]
  unfold readFrom
  split_ifs with hend hlength hcall
  · obtain ⟨ticks, heq⟩ := endReadable_eq (s := u) hend.2
    obtain ⟨starved, hgive⟩ := give_none (Readable.endReadable u) found
    refine .inl ⟨_, rfl, ?_⟩
    rw [hgive, heq, ← hvalue, cut_all hcu, if_pos hlength, Option.getD_none, List.append_nil]
    exact ⟨hsu, .inr ⟨hlength, .inl hend.2⟩⟩
  · exact absurd hend.1 hlength
  · refine .inr ⟨_, found, rfl, hsu, rfl, fun _ => rfl, fun he => ?_⟩
    cases he
  · refine .inl ⟨_, rfl, ?_⟩
    rw [← hvalue]
    exact readEnd_all hcu hsu (fun he => by cases he) found

/-- `read()` goes on after `_read`. -/
lemma readDone_all (P : Prop) (hc : Conserved s) (h : Held l n s) (found : Bool) :
    ∃ t, readDone n none found s = .ret t ∧ Old.valueDone n s = (cut s.length s).1 ∧
      Untouched (l ++ (cut s.length s).1.getD []) t ∧ Waits P t := by
  set u : State α σ := { s with sync := false } with hu
  have hcu : Conserved u := hc.congr ⟨rfl, rfl, rfl, rfl⟩
  have hsu : Untouched l u := h.untouched
  have hdone : readDone n none found s = .ret (readEnd s.length found u) ∧
      Old.valueDone n s = (cut s.length s).1 := by
    have hmuch : howMuchToRead none { s with sync := false } = (s.length, u) :=
      howMuchToRead_all hsu.2
    unfold readDone Old.valueDone
    dsimp only
    rw [hmuch, howMuchToRead_all h.untouched.2]
    split_ifs with hreading
    · exact ⟨rfl, rfl⟩
    · rw [← h.length (by simpa using hreading)]
      exact ⟨rfl, rfl⟩
  obtain ⟨hret, hvalue⟩ := hdone
  exact ⟨_, hret, hvalue, readEnd_all hcu hsu h.emitted found⟩

end Functions

/-! ### The handler -/

section Handler

variable {codec : Codec α σ} {defaultEncoding : Str} {base : List α} {w : Old α σ}
  {k : List Stage}

/-- `resume` will have `'readable'` emitted again. -/
def Sleeps (w : Old α σ) : Prop := w.old = true → w.paused = true ∧ w.readable = true

def Ready (w : Old α σ) : Prop := Waits (Sleeps w) w.st

/-- What has been taken: `base`, and then what the events carry. -/
def Old.given (base : List α) (w : Old α σ) : List α := base ++ w.data.flatMap Prod.snd

structure Sound (base : List α) (w : Old α σ) : Prop where
  conserved : Conserved w.st
  untouched : Untouched (w.given base) w.st
  awake : ∀ e ∈ w.data, e.1 = false

/-- The frames that there are outside of the `read()` of the loop. -/
def Stage.Fine (old : Bool) : Stage → Prop
  | .loop => old = true
  | .read true _ _ => False
  | .read false n _ => n = 0
  | _ => True

/-- What holds before the innermost frame goes on. -/
def Awaits (m : System α σ) : Prop :=
  match m.stack with
  | .readable :: _ => True
  | .loop :: _ => m.st.paused = true → Ready m.st
  | _ => Ready m.st

structure Outside (base : List α) (m : System α σ) : Prop where
  sound : Sound base m.st
  fine : ∀ f ∈ m.stack, f.Fine m.st.old
  awaits : Awaits m

/-- Inside of the `_read` that the loop has called there is foreign code only. -/
structure Inside (base : List α) (m : System α σ) : Prop where
  sound : Sound base m.st
  old : m.st.old = true
  frames : ∃ fs n found k, m.stack = fs ++ .read true n found :: k ∧
    (∀ f ∈ fs, f.foreign = true) ∧ (∀ f ∈ k, f.Fine true) ∧ Held (m.st.given base) n m.st.st

lemma Ready.awaits (h : Ready w) (k : List Stage) : Awaits ⟨w, k⟩ := by
  unfold Awaits
  dsimp only
  split
  · trivial
  · exact fun _ => h
  · exact h

lemma Awaits.ready {m : System α σ} (h : Awaits m)
    (hforeign : (m.stack.head?.getD .user).foreign = true) : Ready m.st := by
  unfold Awaits at h
  split at h
  · next heq =>
    rw [heq] at hforeign
    cases hforeign
  · next heq =>
    rw [heq] at hforeign
    cases hforeign
  · exact h

lemma ready_of_new (hold : w.old = false) : Ready w := by
  refine .inl (.inl fun h => ?_)
  rw [hold] at h
  cases h

lemma Stage.Fine.grow {f : Stage} {old : Bool} (h : f.Fine old) : f.Fine true := by
  cases f with
  | loop => rfl
  | read byLoop n found => cases byLoop <;> exact h
  | _ => trivial

lemma not_inRead {old : Bool} (h : ∀ f ∈ k, f.Fine old) : ¬ inRead k := by
  rintro ⟨f, hmem, hf⟩
  have hfine := h f hmem
  cases f with
  | read byLoop n found =>
    obtain rfl : byLoop = true := hf
    exact hfine
  | _ => cases hf

lemma Sound.put {s : State α σ} (h : Sound base w) (hc : Conserved s)
    (hs : Untouched (w.given base) s) : Sound base { w with st := s } :=
  ⟨hc, hs, h.awake⟩

lemma conserved_of_runs {r : Res (State α σ) Frame} {k : List Frame} (h : Runs r k) :
    Conserved r.state := by
  cases r with
  | ret s => exact Running.conserved h
  | call s fs => exact Good.conserved h

lemma Sound.running (h : Sound base w) : Running w.st [] := ⟨h.conserved, rfl, rfl⟩

/-- A function of the stream runs over frames that are fine. -/
lemma Sound.on {r : Res (State α σ) Frame} (h : Sound base w) (hk : ∀ f ∈ k, f.Fine w.old)
    (hr : Runs r []) (hkeeps : Keeps (Sleeps w) (w.given base) r) :
    Outside base (call k (w.on false r)) := by
  cases r with
  | ret s =>
    exact ⟨h.put (conserved_of_runs hr) hkeeps.1, hk, Ready.awaits (w := { w with st := s })
      hkeeps.2 k⟩
  | call s fs =>
    obtain ⟨hs, hwaits, hzero⟩ := hkeeps
    have hmap : ∀ f ∈ fs.map (stage false), f.Fine w.old := by
      intro f hf
      obtain ⟨g, hg, rfl⟩ := List.mem_map.mp hf
      cases g with
      | read n nOrig found => exact hzero n nOrig found hg
      | _ => trivial
    refine ⟨h.put (conserved_of_runs hr) hs, fun f hf => ?_, ?_⟩
    · rcases List.mem_append.mp hf with hf | hf
      · change f ∈ called false fs at hf
        unfold called at hf
        split at hf
        all_goals
          rcases List.mem_cons.mp hf with rfl | hf
          · trivial
          · exact hmap f hf
      · exact hk f hf
    · cases fs with
      | nil => trivial
      | cons g fs =>
        cases g with
        | read => exact hwaits rfl
        | _ => trivial

/-! ### What foreign code does -/

/-- A push emits `'error'`, or it is a function of the stream. -/
lemma Old.push_eq (codec : Codec α σ) (defaultEncoding : Str) (w : Old α σ) (chunk : Chunk)
    (encoding : EncArg) :
    (Readable.push codec defaultEncoding w.st chunk encoding = .call w.st [] ∧ chunk ≠ .null ∧
      w.push codec defaultEncoding chunk encoding = (w, [.user])) ∨
    ((Readable.push codec defaultEncoding w.st chunk encoding ≠ .call w.st [] ∨ chunk = .null) ∧
      w.push codec defaultEncoding chunk encoding =
        w.on false (Readable.push codec defaultEncoding w.st chunk encoding)) := by
  have hp := pushed codec defaultEncoding w.st chunk encoding
  unfold Old.push
  generalize Readable.push codec defaultEncoding w.st chunk encoding = r at hp
  cases hp with
  | error hnull => exact .inl ⟨rfl, hnull, by rw [if_neg hnull]⟩
  | same => exact .inr ⟨.inl fun h => (by cases h), rfl⟩
  | added hended c decoder =>
    refine .inr ⟨.inl (chunkAdded_ne _ _), ?_⟩
    generalize hr : chunkAdded _ = r
    cases r with
    | ret s => rfl
    | call s fs =>
      cases fs with
      | nil => exact absurd hr (chunkAdded_ne _ _)
      | cons f fs => rfl
  | eof hnull hended =>
    refine .inr ⟨.inr hnull, ?_⟩
    unfold onEofChunk Readable.emitReadable
    extract_lets chunk' s' t
    split_ifs <;> rfl

lemma Sound.push (h : Sound base w) (hk : ∀ f ∈ k, f.Fine w.old) (hready : Ready w)
    (codec : Codec α σ) (defaultEncoding : Str) (chunk : Chunk) (encoding : EncArg) :
    Outside base (call k (w.push codec defaultEncoding chunk encoding)) := by
  rcases Old.push_eq codec defaultEncoding w chunk encoding with ⟨-, -, heq⟩ | ⟨hnot, heq⟩
  · rw [heq]
    exact ⟨h, List.forall_mem_cons.mpr ⟨trivial, hk⟩, hready⟩
  · rw [heq]
    refine h.on hk (h.running.push codec defaultEncoding chunk encoding) ?_
    rcases (pushed codec defaultEncoding w.st chunk encoding).keeps h.untouched hready with
      hkeeps | ⟨hnull, herror⟩
    · exact hkeeps
    · exact absurd herror (hnot.resolve_right hnull)

/-- The switch to old mode. -/
lemma Sound.emitDataEvents (h : Sound base w) (hk : ∀ f ∈ k, f.Fine w.old) (startPaused : Bool) :
    Outside base (call k (w.emitDataEvents startPaused)) :=
  ⟨⟨h.conserved, h.untouched, h.awake⟩,
    List.forall_mem_cons.mpr ⟨trivial, fun f hf => (hk f hf).grow⟩, trivial⟩

lemma Sound.pause (h : Sound base w) (hk : ∀ f ∈ k, f.Fine w.old) (hready : Ready w) :
    Outside base (call k w.pause) := by
  unfold Old.pause
  split_ifs with hold
  · refine ⟨⟨h.conserved, h.untouched, h.awake⟩, hk, Ready.awaits ?_ k⟩
    exact hready.imp_left fun hq => hq.imp_left fun hsleeps hold => ⟨rfl, (hsleeps hold).2⟩
  · exact h.emitDataEvents hk true

lemma Sound.resume (h : Sound base w) (hk : ∀ f ∈ k, f.Fine w.old) (hready : Ready w) :
    Outside base (call k w.resume) := by
  unfold Old.resume
  dsimp only
  split_ifs with hold hreadable
  · refine ⟨⟨h.conserved.congr ⟨rfl, rfl, rfl, rfl⟩, h.untouched, h.awake⟩, hk,
      Ready.awaits ?_ k⟩
    exact .inl (.inr (List.mem_append_right _ List.mem_cons_self))
  · have hrun : Sound base { w with paused := false } := ⟨h.conserved, h.untouched, h.awake⟩
    refine hrun.on hk (hrun.running.read (some 0)) (read_zero_keeps h.untouched ?_)
    -- It has not been asleep, since it has found nothing.
    exact hready.imp_left fun hq => hq.imp_left fun hsleeps => absurd (hsleeps hold).2 hreadable
  · exact ⟨⟨h.conserved, h.untouched, h.awake⟩, List.forall_mem_cons.mpr ⟨trivial,
      List.forall_mem_cons.mpr ⟨trivial, fun f hf => (hk f hf).grow⟩⟩, trivial⟩

lemma Sound.onData (h : Sound base w) (hk : ∀ f ∈ k, f.Fine w.old) (hready : Ready w) :
    Outside base (call k w.onData) := by
  unfold Old.onData
  split_ifs
  · exact ⟨h, hk, hready.awaits k⟩
  · exact h.emitDataEvents hk false

lemma Sound.runTick {ticks : List Tick} {t : Tick} (h : Sound base w) (hready : Ready w)
    (hticks : w.st.ticks = t :: ticks) :
    Outside base (call [] ({ w with st := { w.st with ticks := ticks } }.runTick t)) := by
  have hrest : Sound base { w with st := { w.st with ticks := ticks } } :=
    ⟨h.conserved.congr ⟨rfl, rfl, rfl, rfl⟩, h.untouched, h.awake⟩
  have hnil : ∀ f ∈ ([] : List Stage), f.Fine w.old := fun f hf => by cases hf
  by_cases ht : t = .emitReadable
  · subst ht
    exact ⟨hrest, fun f hf => by cases List.mem_singleton.mp hf; trivial, trivial⟩
  have hwaits : Waits (Sleeps w) { w.st with ticks := ticks } := by
    refine hready.imp_left fun hq => hq.imp_right fun hmem => ?_
    rw [hticks] at hmem
    exact List.mem_of_ne_of_mem (Ne.symm ht) hmem
  cases t with
  | emitReadable => exact absurd rfl ht
  | readMore =>
    exact hrest.on hnil hrest.running.readMoreLoop (readMoreLoop_keeps h.untouched hwaits)
  | «end» =>
    unfold Old.runTick
    dsimp only
    split_ifs
    · refine ⟨⟨hrest.conserved.congr ⟨rfl, rfl, rfl, rfl⟩, h.untouched, h.awake⟩,
        fun f hf => by cases List.mem_singleton.mp hf; trivial, ?_⟩
      exact hwaits.change List.prefix_rfl rfl rfl rfl id
    · exact ⟨hrest, hnil, hwaits⟩

/-! ### What the frames do -/

/-- The loop has read, with nothing there afterwards. -/
lemma Sound.received {s : State α σ} {c : Option (List α)} (h : Sound base w)
    (hold : w.old = true) (hk : ∀ f ∈ k, f.Fine w.old) (hc : Conserved s)
    (hs : Untouched (w.given base ++ c.getD []) s) (hwaits : Waits False s)
    (hpaused : c = none ∨ w.paused = false) :
    Outside base (call k ({ w with st := s }.received c)) := by
  have hready : ∀ P : Prop, Waits P s := fun P => hwaits.imp_left fun hq => hq.imp_left False.elim
  cases c with
  | none =>
    refine ⟨⟨hc.congr ⟨rfl, rfl, rfl, rfl⟩, ?_, h.awake⟩, hk, Ready.awaits ?_ k⟩
    · rw [Option.getD_none, List.append_nil] at hs
      exact hs
    · exact (hready _).change List.prefix_rfl rfl rfl rfl fun _ => rfl
  | some c =>
    have hawake : w.paused = false := hpaused.resolve_left fun hnone => by cases hnone
    refine ⟨⟨hc, ?_, fun e he => ?_⟩, List.forall_mem_cons.mpr ⟨trivial,
      List.forall_mem_cons.mpr ⟨hold, hk⟩⟩, hready _⟩
    · have hgiven : { w with st := s, data := w.data ++ [(w.paused, c)] }.given base =
          w.given base ++ c := by
        simp [Old.given]
      exact hgiven ▸ hs
    · rcases List.mem_append.mp he with he | he
      · exact h.awake e he
      · rw [List.mem_singleton.mp he]
        exact hawake

lemma Outside.loop (h : Outside base ⟨w, .loop :: k⟩) :
    Outside base (call k w.loop) ∨ Inside base (call k w.loop) := by
  obtain ⟨hsound, hfine, hawaits⟩ := h
  obtain ⟨hold, hk⟩ := List.forall_mem_cons.mp hfine
  have hold : w.old = true := hold
  unfold Old.loop
  split_ifs with hpaused
  · exact .inl ⟨hsound, hk, (hawaits hpaused).awaits k⟩
  · have hrun := conserved_of_runs (hsound.running.read none)
    rcases read_all False hsound.conserved hsound.untouched with
      ⟨s, hread, hs, hwaits⟩ | ⟨s, found, hread, hheld⟩
    · rw [hread] at hrun ⊢
      exact .inl (hsound.received hold hk hrun hs hwaits
        (.inr (Bool.eq_false_of_not_eq_true hpaused)))
    · rw [hread] at hrun ⊢
      refine .inr ⟨hsound.put hrun hheld.untouched, hold, [.source], _, found, k, rfl, ?_,
        fun f hf => (hk f hf).grow, hheld⟩
      exact fun f hf => by cases List.mem_singleton.mp hf; rfl

/-- A frame outside of the `read()` of the loop goes on. -/
lemma Outside.exec {f : Stage} (h : Outside base ⟨w, f :: k⟩) (hf : f.foreign = false) :
    Outside base (call k (w.exec f)) ∨ Inside base (call k (w.exec f)) := by
  have hsound := h.sound
  obtain ⟨hfine, hk⟩ := List.forall_mem_cons.mp h.fine
  cases f with
  | user => cases hf
  | source => cases hf
  | loop => exact h.loop
  | readable =>
    refine .inl ?_
    show Outside base (call k (if w.old then ({ w with readable := true }, [.loop]) else (w, [])))
    split_ifs with hold
    · refine ⟨⟨hsound.conserved, hsound.untouched, hsound.awake⟩,
        List.forall_mem_cons.mpr ⟨hold, hk⟩, fun hpaused => ?_⟩
      exact .inl (.inl fun _ => ⟨hpaused, rfl⟩)
    · exact ⟨hsound, hk, (ready_of_new (Bool.eq_false_of_not_eq_true hold)).awaits k⟩
  | readZero =>
    exact .inl (hsound.on hk (hsound.running.read (some 0))
      (read_zero_keeps hsound.untouched h.awaits))
  | addChunk =>
    refine .inl (hsound.on hk ?_ (addChunkDone_keeps hsound.untouched h.awaits))
    exact hsound.running.addChunk.addChunkDone
  | readMore len =>
    refine .inl (hsound.on hk ?_ (readMoreAfter_keeps hsound.untouched h.awaits len))
    exact (hsound.running.readMore len).exec (by rintro ⟨⟩)
  | read byLoop n found =>
    cases byLoop with
    | true => exact hfine.elim
    | false =>
      obtain rfl : n = 0 := hfine
      refine .inl (hsound.on hk (hsound.running.readDone (some 0) found fun _ hne => ?_)
        (readDone_zero_keeps hsound.untouched h.awaits found))
      have := hsound.conserved.length_eq
      omega

/-! ### Inside of the `_read` of the loop -/

/-- The `read()` of the loop goes on. -/
lemma Sound.goOn {n : ℤ} (h : Sound base w) (hold : w.old = true) (hk : ∀ f ∈ k, f.Fine true)
    (hheld : Held (w.given base) n w.st) (found : Bool)
    (hawake : w.paused = true → w.st.length = 0) :
    Outside base (call k (w.exec (.read true n found))) := by
  obtain ⟨s, hdone, hvalue, hs, hwaits⟩ := readDone_all False h.conserved hheld found
  have hrun := conserved_of_runs (h.running.readDone none found fun hr _ => (hheld.length hr).ge)
  show Outside base (call k ({ w with st := (readDone n none found w.st).state }.received
    (Old.valueDone n w.st)))
  rw [hdone] at hrun ⊢
  rw [hvalue]
  refine h.received hold (fun f hf => hold ▸ hk f hf) hrun hs hwaits ?_
  by_cases hpaused : w.paused = true
  · exact .inl (by rw [cut_all h.conserved, if_pos (hawake hpaused)])
  · exact .inr (Bool.eq_false_of_not_eq_true hpaused)

namespace Inside

/-- The stream is paused, or is not any more. -/
lemma setPaused (h : Inside base ⟨w, k⟩) (paused : Bool) :
    Inside base ⟨{ w with paused := paused }, k⟩ :=
  ⟨⟨h.sound.conserved, h.sound.untouched, h.sound.awake⟩, h.old, h.frames⟩

lemma later (h : Inside base ⟨w, k⟩) (ticks : List Tick) :
    Inside base ⟨{ w with st := { w.st with ticks := w.st.ticks ++ ticks } }, k⟩ := by
  obtain ⟨hsound, hold, fs, n, found, k', rfl, hforeign, hk, hheld⟩ := h
  exact ⟨hsound.put (hsound.conserved.congr ⟨rfl, rfl, rfl, rfl⟩) hheld.untouched, hold, fs, n,
    found, k', rfl, hforeign, hk, hheld.later ticks⟩

lemma push (h : Inside base ⟨w, k⟩) (codec : Codec α σ) (defaultEncoding : Str) (chunk : Chunk)
    (encoding : EncArg) : Inside base (call k (w.push codec defaultEncoding chunk encoding)) := by
  obtain ⟨hsound, hold, fs, n, found, k', rfl, hforeign, hk, hheld⟩ := h
  have hrun := conserved_of_runs (hsound.running.push codec defaultEncoding chunk encoding)
  rcases Old.push_eq codec defaultEncoding w chunk encoding with ⟨-, -, heq⟩ | ⟨hnot, heq⟩
  · rw [heq]
    exact ⟨hsound, hold, .user :: fs, n, found, k', rfl, List.forall_mem_cons.mpr ⟨rfl, hforeign⟩,
      hk, hheld⟩
  · rw [heq]
    rcases (pushed codec defaultEncoding w.st chunk encoding).held hheld with
      ⟨s, hret, hh⟩ | ⟨hnull, herror⟩
    · rw [hret] at hrun ⊢
      exact ⟨hsound.put hrun hh.untouched, hold, fs, n, found, k', rfl, hforeign, hk, hh⟩
    · exact absurd herror (hnot.resolve_right hnull)

lemma pause (h : Inside base ⟨w, k⟩) : Inside base (call k w.pause) := by
  rw [Old.pause, if_pos h.old]
  exact h.setPaused true

lemma resume (h : Inside base ⟨w, k⟩)
    (hnot : w.readable = true ∨ w.st.reading = true ∨ w.st.ended = true) :
    Inside base (call k w.resume) := by
  unfold Old.resume
  dsimp only
  rw [if_pos h.old]
  split_ifs with hreadable
  · exact (h.setPaused false).later [.emitReadable]
  · obtain ⟨hsound, hold, fs, n, found, k', rfl, hforeign, hk, hheld⟩ := h.setPaused false
    obtain ⟨s, hread, hh⟩ := hheld.read_zero (hnot.resolve_left hreadable)
    have hrun := conserved_of_runs (hsound.running.read (some 0))
    show Inside base (call _ (Old.on _ false (read (some 0) w.st)))
    rw [hread] at hrun ⊢
    exact ⟨hsound.put hrun hh.untouched, hold, fs, n, found, k', rfl, hforeign, hk, hh⟩

lemma inRead {m : System α σ} (h : Inside base m) : inRead m.stack := by
  obtain ⟨-, -, fs, n, found, k, hstack, -⟩ := h
  rw [hstack]
  exact ⟨_, List.mem_append_right _ List.mem_cons_self, rfl⟩

end Inside

/-! ### Steps -/

lemma Inside.act {m m' : System α σ} {a : Act} (h : Inside base m)
    (hs : step codec defaultEncoding m a = some m') (hfits : Fits m a) :
    Outside base m' ∨ Inside base m' := by
  have hin := h.inRead
  obtain ⟨w, stack⟩ := m
  have ⟨hsound, hold, fs, n, found, k, hstack, hforeign, hk, hheld⟩ := h
  obtain rfl : stack = fs ++ .read true n found :: k := hstack
  cases fs with
  | nil =>
    cases a with
    | run =>
      obtain rfl := Option.some.inj hs
      exact .inl (hsound.goOn hold hk hheld found (hfits.1 rfl))
    | _ => cases hs
  | cons f fs =>
    change (if f.foreign = true then _ else _) = _ at hs
    rw [if_pos (hforeign f List.mem_cons_self)] at hs
    cases a with
    | push chunk encoding =>
      obtain rfl := Option.some.inj hs
      exact .inr (h.push codec defaultEncoding chunk encoding)
    | pause =>
      obtain rfl := Option.some.inj hs
      exact .inr h.pause
    | resume =>
      obtain rfl := Option.some.inj hs
      exact .inr (h.resume (hfits.2 hin rfl))
    | onData =>
      obtain rfl := Option.some.inj hs
      refine .inr ?_
      show Inside base (call (f :: fs ++ .read true n found :: k) w.onData)
      rw [Old.onData, if_pos hold]
      exact h
    | ret =>
      obtain rfl := Option.some.inj hs
      exact .inr ⟨hsound, hold, fs, n, found, k, rfl,
        fun g hg => hforeign g (List.mem_cons_of_mem f hg), hk, hheld⟩
    | tick => cases hs
    | run => cases hs

lemma Outside.act {m m' : System α σ} {a : Act} (h : Outside base m)
    (hs : step codec defaultEncoding m a = some m') : Outside base m' ∨ Inside base m' := by
  unfold step at hs
  by_cases hforeign : (m.stack.head?.getD .user).foreign = true
  · rw [if_pos hforeign] at hs
    have hready := h.awaits.ready hforeign
    cases a with
    | push chunk encoding =>
      obtain rfl := Option.some.inj hs
      exact .inl (h.sound.push h.fine hready codec defaultEncoding chunk encoding)
    | pause =>
      obtain rfl := Option.some.inj hs
      exact .inl (h.sound.pause h.fine hready)
    | resume =>
      obtain rfl := Option.some.inj hs
      exact .inl (h.sound.resume h.fine hready)
    | onData =>
      obtain rfl := Option.some.inj hs
      exact .inl (h.sound.onData h.fine hready)
    | ret =>
      dsimp only at hs
      split_ifs at hs
      obtain rfl := Option.some.inj hs
      exact .inl ⟨h.sound, fun f hf => h.fine f (List.mem_of_mem_tail hf), hready.awaits _⟩
    | tick =>
      dsimp only at hs
      split at hs
      · next t ts hstack hticks =>
        obtain rfl := Option.some.inj hs
        exact .inl (h.sound.runTick hready hticks)
      · cases hs
    | run => cases hs
  · rw [if_neg hforeign] at hs
    obtain ⟨w, stack⟩ := m
    cases stack with
    | nil => exact absurd rfl hforeign
    | cons f k =>
      cases a with
      | run =>
        obtain rfl := Option.some.inj hs
        exact h.exec (Bool.eq_false_of_not_eq_true hforeign)
      | _ => cases hs

end Handler

/-! ### Runs -/

section Runs

variable {codec : Codec α σ} {defaultEncoding : Str} {s : State α σ} {m m' : System α σ}

lemma run_sound (hc : Conserved s) (hflow : s.flowing = false)
    (h : Run (step codec defaultEncoding) (fun m a _ => Fits m a) (start s) m) :
    Outside s.taken m ∨ Inside s.taken m := by
  have h0 : Outside s.taken (start s) :=
    ⟨⟨hc, ⟨(List.append_nil _).symm, hflow⟩, fun e he => (by cases he)⟩,
      fun f hf => (by cases hf), ready_of_new rfl⟩
  refine h.invariant (I := fun m => Outside s.taken m ∨ Inside s.taken m) (.inl h0)
    fun n a n' hn hs hfits => ?_
  rcases hn with hn | hn
  · exact hn.act hs
  · exact hn.act hs hfits

/-- Outside of the `_read` of the loop nothing stays there. -/
lemma Outside.empty {base : List α} (h : Outside base m) (hold : m.st.old = true)
    (hpaused : m.st.paused = false) (hforeign : (m.stack.head?.getD .user).foreign = true)
    (hticks : Tick.emitReadable ∉ m.st.st.ticks) :
    m.st.st.buffer.flatten = [] ∧ m.st.st.length = 0 := by
  have hlength : m.st.st.length = 0 := by
    rcases h.awaits.ready hforeign with (hsleeps | hmem) | hidle
    · have hasleep := (hsleeps hold).1
      rw [hpaused] at hasleep
      cases hasleep
    · exact absurd hmem hticks
    · exact hidle.1
  refine ⟨List.length_eq_zero_iff.mp ?_, hlength⟩
  have := h.sound.conserved.length_eq
  omega

lemma resume_data (hs : step codec defaultEncoding m .resume = some m') :
    m'.st.data = m.st.data := by
  unfold step at hs
  by_cases hforeign : (m.stack.head?.getD .user).foreign = true
  · rw [if_pos hforeign] at hs
    obtain rfl := Option.some.inj hs
    show m.st.resume.1.data = m.st.data
    unfold Old.resume Old.on
    dsimp only
    split_ifs
    · rfl
    · split <;> rfl
    · rfl
  · rw [if_neg hforeign] at hs
    cases hstack : m.stack <;> rw [hstack] at hs <;> cases hs

/-- The loop goes on although the stream has been paused. -/
lemma Inside.emits {base : List α} {a : Act} (h : Inside base m)
    (hs : step codec defaultEncoding m a = some m') (hnot : ¬ Awake m) :
    ∃ e ∈ m'.st.data, e.1 = true := by
  obtain ⟨w, stack⟩ := m
  obtain ⟨hsound, -, fs, n, found, k, rfl, hforeign, -, hheld⟩ := h
  have hheld : Held (w.given base) n w.st := hheld
  simp only [Awake, not_forall] at hnot
  obtain ⟨htop, hpaused, hlength⟩ := hnot
  cases fs with
  | cons f fs =>
    have hf := hforeign f List.mem_cons_self
    have htop : f.ofLoop = true := htop
    cases f <;> cases hf <;> cases htop
  | nil =>
    cases a with
    | run =>
      obtain rfl := Option.some.inj hs
      obtain ⟨s, hdone, hvalue, -, -⟩ := readDone_all False hsound.conserved hheld found
      refine ⟨(true, w.st.buffer.flatten), ?_, rfl⟩
      show _ ∈ ({ w with st := (readDone n none found w.st).state }.received
        (Old.valueDone n w.st)).1.data
      rw [hvalue, cut_all hsound.conserved, if_neg hlength]
      show _ ∈ w.data ++ [(w.paused, w.st.buffer.flatten)]
      rw [hpaused]
      exact List.mem_append_right _ List.mem_cons_self
    | _ => cases hs

lemma Outside.awake {base : List α} (h : Outside base m) : Awake m := by
  intro htop
  obtain ⟨f, hf, hloop⟩ := (Option.any_eq_true _ _).mp htop
  exact absurd ⟨f, List.mem_of_mem_head? hf, hloop⟩ (not_inRead h.fine)

/-- **In old mode no data is lost**, and none is emitted while the stream is paused, in every run
in which the `_read` of the loop lets it go on; outside of that `_read` nothing stays buffered. A
step that is taken there while the stream is paused, with something buffered, breaks this. -/
theorem oldMode_conserves (hc : Conserved s) (hflow : s.flowing = false)
    (h : Run (step codec defaultEncoding) (fun m a _ => Fits m a) (start s) m) :
    s.taken ++ m.st.data.flatMap Prod.snd ++ m.st.st.buffer.flatten = m.st.st.accepted ∧
    (∀ e ∈ m.st.data, e.1 = false) ∧
    (m.st.old = true → m.st.paused = false → (m.stack.head?.getD .user).foreign = true →
      ¬ inRead m.stack → Tick.emitReadable ∉ m.st.st.ticks →
      m.st.st.buffer.flatten = [] ∧ m.st.st.length = 0) ∧
    ∀ a m', step codec defaultEncoding m a = some m' →
      ((∀ e ∈ m'.st.data, e.1 = false) ↔ Awake m) := by
  have hplace := run_sound hc hflow h
  have hsound : Sound s.taken m.st := hplace.elim Outside.sound Inside.sound
  refine ⟨?_, hsound.awake, fun hold hpaused hforeign hout hticks => ?_, fun a m' hs =>
    ⟨fun hdata => ?_, fun hawake => ?_⟩⟩
  · have hdata := hsound.conserved.data
    rwa [hsound.untouched.1] at hdata
  · rcases hplace with hplace | hplace
    · exact hplace.empty hold hpaused hforeign hticks
    · exact absurd hplace.inRead hout
  · rcases hplace with hplace | hplace
    · exact hplace.awake
    · by_contra hnot
      obtain ⟨e, he, hpaused⟩ := hplace.emits hs hnot
      rw [hdata e he] at hpaused
      cases hpaused
  · by_cases ha : a = .resume
    · subst ha
      rw [resume_data hs]
      exact hsound.awake
    · have hfits : Fits m a := ⟨hawake, fun _ h => absurd h ha⟩
      rcases hplace with hplace | hplace
      · rcases hplace.act hs with h' | h'
        · exact h'.sound.awake
        · exact h'.sound.awake
      · rcases hplace.act hs hfits with h' | h'
        · exact h'.sound.awake
        · exact h'.sound.awake

/-- A listener of `'data'` that pauses the stream and pushes, before it is resumed. -/
def pausedInData : List Act :=
  [.push (.buf [1, 2]) none, .onData, .run, .run, .ret, .run, .pause, .push (.buf [3]) none,
    .run, .run, .run, .ret, .run, .resume, .tick, .ret, .run, .run, .tick, .run, .run, .ret, .run]

theorem oldMode_conserves_paused :
    ∃ m : System UInt8 Unit, m.st.data = [(false, [1, 2]), (false, [3])] ∧
      m.st.data.flatMap Prod.snd ++ m.st.st.buffer.flatten = m.st.st.accepted ∧
      m.st.st.buffer.flatten = [] := by
  have hrun : (pausedInData.foldlM
      (fun m a => if Fits m a then step .bytes (js "utf8") m a else none)
      (start (.new .bytes 16))).any (fun m : System UInt8 Unit =>
        decide (m.st.data = [(false, [1, 2]), (false, [3])]) && m.stack.isEmpty && m.st.old &&
          !m.st.paused && m.st.st.ticks.isEmpty) = true := by
    decide +kernel
  obtain ⟨m, hm, hend⟩ := (Option.any_eq_true _ _).mp hrun
  simp only [Bool.and_eq_true, decide_eq_true_eq, List.isEmpty_iff, Bool.not_eq_true'] at hend
  obtain ⟨⟨⟨⟨hdata, hstack⟩, hold⟩, hpaused⟩, hticks⟩ := hend
  have hreach : Run (step .bytes (js "utf8")) (fun m a _ => Fits m a) (start (.new .bytes 16)) m :=
    Run.of_checked hm
  obtain ⟨haccepted, -, hempty, -⟩ := oldMode_conserves ⟨rfl, rfl⟩ rfl hreach
  refine ⟨m, hdata, haccepted, (hempty hold hpaused ?_ ?_ ?_).1⟩
  · rw [hstack]
    rfl
  · rw [hstack]
    rintro ⟨f, hf, -⟩
    cases hf
  · rw [hticks]
    exact List.not_mem_nil

/-- A `_read` that pushes at once and pauses the stream. -/
def pausedInRead : List Act :=
  [.onData, .run, .run, .push (.buf [120]) none, .pause, .ret, .run]

theorem oldMode_emits_paused :
    ¬ ∀ m : System UInt8 Unit,
      Run (step .bytes (js "utf8")) (fun _ _ _ => True) (start (.new .bytes 16)) m →
      ∀ e ∈ m.st.data, e.1 = false := by
  intro hall
  have hrun : (pausedInRead.foldlM (step .bytes (js "utf8")) (start (.new .bytes 16))).any
      (fun m => m.st.data.any fun e => e.1) = true := by
    decide +kernel
  obtain ⟨m, hm, hpaused⟩ := (Option.any_eq_true _ _).mp hrun
  obtain ⟨e, he, hp⟩ := List.any_eq_true.mp hpaused
  rw [hall m (Run.of_foldlM hm) e he] at hp
  cases hp

end Runs

end NodeCore.ReadableOldMode
