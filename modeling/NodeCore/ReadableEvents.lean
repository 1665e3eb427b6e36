import NodeCore.Readable

/-!
A readable stream, in byte mode or in object mode, with the events that it emits.

Its state is that of `Readable`. An object is a chunk of one element.
-/

namespace NodeCore.ReadableEvents

open NodeCore.Encoding NodeCore.Reentrant NodeCore.Readable

/-- The options, which never change. -/
structure Mode (α σ : Type) where
  objectMode : Bool
  codec : Codec α σ
  defaultEncoding : Str
  /-- `decoder.write` of an object, `none` where it throws. -/
  writeObject : σ → α → Option α × σ

/-- A byte stream without a decoder. -/
def Mode.bytes : Mode UInt8 Unit := ⟨false, .bytes, js "utf8", fun s o => (some o, s)⟩

/-- What there was when `'end'` was emitted. -/
structure End where
  pushed : Bool
  unshifted : Bool
  length : ℤ
  deriving DecidableEq

structure Watched (α σ : Type) where
  st : State α σ
  /-- `push`, or `unshift`, has been given `null`. -/
  pushed : Bool
  unshifted : Bool
  /-- The `'end'` events. -/
  ends : List End
  /-- What `read` has returned after `'end'`. -/
  late : List α
  /-- `endReadable` has thrown. -/
  threw : Bool
  /-- Some `read()` or `read(n)` has returned `null` before the end, and `'readable'` has not been
  emitted since. -/
  asleep : Bool
  /-- A chunk has been pushed after such a `read`. -/
  due : Bool
  deriving DecidableEq

variable {α σ : Type}

abbrev Outcome (α σ : Type) := Res (Watched α σ) Frame

namespace Watched

variable (mode : Mode α σ)

def new (highWaterMark : ℤ) : Watched α σ where
  st := .new mode.codec highWaterMark
  pushed := false
  unshifted := false
  ends := []
  late := []
  threw := false
  asleep := false
  due := false

variable (w : Watched α σ)

/-- What a function of the stream does that emits no event. -/
def on (r : Res (State α σ) Frame) : Outcome α σ := r.map fun s => { w with st := s }

/-! ### Events -/

/-- `'readable'` is emitted. -/
def wake : Watched α σ := { w with asleep := false, due := false }

def emitReadable : Outcome α σ :=
  if !w.st.emittedReadable && !w.st.sync then w.wake.on (Readable.emitReadable w.st)
  else w.on (Readable.emitReadable w.st)

/-- `endReadable`; nothing is done after it has thrown. -/
def endReadable : Watched α σ :=
  if 0 < w.st.length then { w with threw := true } else { w with st := Readable.endReadable w.st }

lemma endReadable_ended {w : Watched α σ} (h : w.st.ended = true) :
    w.endReadable.st.ended = true := by
  unfold endReadable Readable.endReadable
  split_ifs
  · exact h
  · rfl
  · exact h

/-! ### Pushing -/

def addChunkDone : Outcome α σ := w.on (Readable.addChunkDone w.st)

/-- `readableAddChunk` with the chunk in the buffer. -/
def chunkAdded : Outcome α σ :=
  (if w.st.needReadable then w.emitReadable else .ret w).andThen .addChunk addChunkDone

def onEofChunk : Outcome α σ :=
  let chunk := mode.codec.finish w.st.decoder
  let s := if chunk ≠ [] then w.st.append chunk else w.st
  let w := { w with st := { s with ended := true } }
  if 0 < w.st.length then w.emitReadable else .ret w.endReadable

/-- What `push` gives to `readableAddChunk`. -/
inductive Given (α : Type)
  | invalid
  | null
  /-- A Buffer, for the decoder if there is one. -/
  | buf (b : Bytes)
  /-- A string in the encoding of the decoder, or an object with an encoding. -/
  | units (l : List α)
  /-- An object, for the decoder if there is one. -/
  | object (o : α)

namespace Given

def length : Given α → ℕ
  | .invalid | .null => 0
  | .buf b => b.length
  | .units l => l.length
  | .object _ => 1

/-- What is put in the buffer, and what becomes of the decoder. -/
def decode (decoder : σ) : Given α → Option (List α) × σ
  | .invalid | .null => (none, decoder)
  | .buf b => mode.codec.write decoder b
  | .units l => (some l, decoder)
  | .object o => ((mode.writeObject decoder o).1.map ([·]), (mode.writeObject decoder o).2)

end Given

/-- `readableAddChunk(null)`. -/
def addNull : Outcome α σ :=
  let w := { w with st := { w.st with reading := false } }
  if w.st.ended then .ret w else w.onEofChunk mode

/-- `readableAddChunk` at the end of the buffer; where the decoder throws, nothing is added. -/
def readableAddChunk (chunk : Given α) : Outcome α σ :=
  match chunk with
  | .invalid => .call w []
  | .null => { w with pushed := true }.addNull mode
  | chunk =>
    if chunk.length = 0 then .ret { w with st := { w.st with reading := false } }
    else if w.st.ended then .call w []
    else
      match chunk.decode mode w.st.decoder with
      | (some chunk, decoder) =>
        { w with
          st := { w.st.append chunk with decoder := decoder, reading := false }
          due := w.asleep }.chunkAdded
      | (none, decoder) => .ret { w with st := { w.st with decoder := decoder } }

/-- `push` of a stream in byte mode; where the `Buffer` constructor throws, the state stays. -/
def push (chunk : Chunk) (encoding : EncArg) : Outcome α σ :=
  match chunk with
  | .invalid => w.readableAddChunk mode .invalid
  | .null => w.readableAddChunk mode .null
  | .buf b => w.readableAddChunk mode (.buf b)
  | .str text =>
    let encoding := match encoding with
      | none | some [] => mode.defaultEncoding
      | some e => e
    if some encoding ≠ mode.codec.encoding then
      match newBuffer text (some encoding) with
      | some b => w.readableAddChunk mode (.buf b)
      | none => .ret w
    else w.readableAddChunk mode (.units (mode.codec.units text))

/-- `push` of a stream in object mode, with or without an encoding; `none` is `null`. -/
def pushObject (chunk : Option α) (encoding : Bool) : Outcome α σ :=
  match chunk with
  | none => w.readableAddChunk mode .null
  | some o => w.readableAddChunk mode (if encoding then .units [o] else .object o)

/-- `unshift`; `none` is `null`. -/
def unshift (chunk : Option (List α)) : Outcome α σ :=
  match chunk with
  | none => { w with unshifted := true }.addNull mode
  | some chunk =>
    if chunk = [] then .ret w
    else if w.st.endEmitted then .call w []
    else { w with st := w.st.prepend chunk }.chunkAdded

/-! ### Reading -/

/-- `howMuchToRead`, with what it changes. -/
def howMuchToRead (n : Option ℤ) (s : State α σ) : ℤ × State α σ :=
  if mode.objectMode ∧ ¬ (s.length = 0 ∧ s.ended) then (if n = some 0 then 0 else 1, s)
  else Readable.howMuchToRead n s

/-- All that `howMuchToRead` does to a stream. -/
lemma howMuchToRead_state (n : Option ℤ) (s : State α σ) :
    ∃ hwm need, (s.needReadable → need = true) ∧
      (howMuchToRead mode n s).2 = { s with highWaterMark := hwm, needReadable := need } := by
  unfold howMuchToRead Readable.howMuchToRead
  cases n with
  | none =>
    refine ⟨s.highWaterMark, s.needReadable, id, ?_⟩
    dsimp only
    split_ifs
    · rfl
    · rfl
    · rfl
    · split <;> rfl
  | some n =>
    dsimp only
    split_ifs
    all_goals first
      | exact ⟨s.highWaterMark, s.needReadable, id, rfl⟩
      | exact ⟨_, s.needReadable, id, rfl⟩
      | exact ⟨_, true, fun _ => rfl, rfl⟩

/-- All that `howMuchToRead` looks at. -/
lemma howMuchToRead_congr (n : Option ℤ) {s u : State α σ} (hlength : u.length = s.length)
    (hended : u.ended = s.ended) (hflowing : u.flowing = s.flowing)
    (hbuffer : u.buffer = s.buffer) (hhwm : u.highWaterMark = s.highWaterMark)
    (hneed : u.needReadable = s.needReadable) :
    (howMuchToRead mode n u).1 = (howMuchToRead mode n s).1 ∧
      (howMuchToRead mode n u).2.highWaterMark = (howMuchToRead mode n s).2.highWaterMark ∧
      (howMuchToRead mode n u).2.needReadable = (howMuchToRead mode n s).2.needReadable := by
  cases s
  cases u
  dsimp only at hlength hended hflowing hbuffer hhwm hneed
  subst hlength hended hflowing hbuffer hhwm hneed
  unfold howMuchToRead Readable.howMuchToRead
  cases n with
  | none =>
    dsimp only
    split_ifs
    · exact ⟨rfl, rfl, rfl⟩
    · exact ⟨rfl, rfl, rfl⟩
    · exact ⟨rfl, rfl, rfl⟩
    · split <;> exact ⟨rfl, rfl, rfl⟩
  | some n =>
    dsimp only
    split_ifs <;> exact ⟨rfl, rfl, rfl⟩

lemma howMuchToRead_sync (n : Option ℤ) (s : State α σ) :
    (howMuchToRead mode n { s with sync := false }).1 = (howMuchToRead mode n s).1 :=
  (howMuchToRead_congr mode n (s := s) (u := { s with sync := false }) rfl rfl rfl rfl rfl rfl).1

/-- `fromList`: what it returns, and the list that is left. -/
def fromList (n length : ℤ) (list : List (List α)) : Option (List α) × List (List α) :=
  match mode.objectMode, list with
  | true, chunk :: rest => if length = 0 then (none, chunk :: rest) else (some chunk, rest)
  | _, list => Readable.fromList n length list

/-- The call is `read()` or `read(n)` for a positive number. -/
def asks (n : Option ℤ) : Bool := n.all (0 < ·)

/-- `read` returns `ret`. -/
def give (n : Option ℤ) (found : Bool) (ret : Option (List α)) : Watched α σ :=
  { w with
    st := w.st.give found ret
    late := if w.ends = [] then w.late else w.late ++ ret.getD []
    asleep := w.asleep || asks n && !w.st.ended && ret = none }

/-- `read`, from the test of `n > 0` on. -/
def readEnd (n : ℤ) (nOrig : Option ℤ) (found : Bool) : Watched α σ :=
  let (ret, list) :=
    if 0 < n then fromList mode n w.st.length w.st.buffer else (none, w.st.buffer)
  let s : State α σ := { w.st with buffer := list }
  let s : State α σ :=
    if ret = none then { s with needReadable := true } else { s with length := s.length - n }
  let s : State α σ := if s.length = 0 ∧ !s.ended then { s with needReadable := true } else s
  let w := { w with st := s }
  let w := if s.ended ∧ !s.endEmitted ∧ s.length = 0 then w.endReadable else w
  w.give nOrig found ret

/-- `read`, after `_read`. -/
def readDone (n : ℤ) (nOrig : Option ℤ) (found : Bool) : Outcome α σ :=
  let w := { w with st := { w.st with sync := false } }
  if !w.st.reading then
    let (n, s) := howMuchToRead mode nOrig w.st
    .ret ({ w with st := s }.readEnd mode n nOrig found)
  else .ret (w.readEnd mode n nOrig found)

/-- `read` from the point where it knows how much to read. -/
def readFrom (n : ℤ) (nOrig : Option ℤ) (found : Bool) : Outcome α σ :=
  if n = 0 ∧ w.st.ended then
    .ret ((if w.st.length = 0 then w.endReadable else w).give nOrig found none)
  else if (w.st.needReadable ∨ w.st.length - n ≤ w.st.highWaterMark) ∧
      ¬ (w.st.ended ∨ w.st.reading) then
    w.on (.call { w.st with
      reading := true
      sync := true
      needReadable := w.st.needReadable || w.st.length = 0 } [.read n nOrig found])
  else .ret (w.readEnd mode n nOrig found)

/-- `Readable.prototype.read`; `none` is no argument. -/
def read (n : Option ℤ) : Outcome α σ :=
  let s : State α σ := { w.st with
    calledRead := true
    emittedReadable := w.st.emittedReadable && !asks n }
  let w : Watched α σ := { w with st := s }
  if n = some 0 ∧ w.st.needReadable ∧ (w.st.highWaterMark ≤ w.st.length ∨ w.st.ended) then
    w.emitReadable
  else
    let found : Bool := n = none ∧ 0 < w.st.length
    let (k, s) := howMuchToRead mode n w.st
    { w with st := s }.readFrom mode k n found

/-! ### `maybeReadMore_` -/

def readMoreDone : Outcome α σ := w.on (Readable.readMoreDone w.st)

/-- A round of the loop. -/
def readMoreLoop : Outcome α σ :=
  if !w.st.reading && !w.st.flowing && !w.st.ended && w.st.length < w.st.highWaterMark then
    (w.read mode (some 0)).andThen (.readMore w.st.length) readMoreDone
  else w.readMoreDone

def readMoreAfter (len : ℤ) : Outcome α σ :=
  if len = w.st.length then w.readMoreDone else w.readMoreLoop mode

/-! ### The system -/

def exec : Frame → Outcome α σ
  | .user => .ret w
  | .addChunk => w.addChunkDone
  | .read n nOrig found => w.readDone mode n nOrig found
  | .readMore len => w.readMoreAfter mode len

def runTick : Tick → Outcome α σ
  | .emitReadable => .call w.wake []
  | .readMore => w.readMoreLoop mode
  | .end =>
    if !w.st.endEmitted && w.st.length = 0 then
      .call { w with
        st := { w.st with endEmitted := true }
        ends := w.ends ++ [⟨w.pushed, w.unshifted, w.st.length⟩] } []
    else .ret w

/-- The first `on('readable')` of a stream that has not ended. -/
def onReadable : Outcome α σ :=
  if w.st.endEmitted || w.st.readableListening then .ret w
  else
    let w := { w with st := { w.st with
      readableListening := true, emittedReadable := false, needReadable := true } }
    if !w.st.reading then w.read mode (some 0)
    else if w.st.length ≠ 0 then w.emitReadable
    else .ret w

end Watched

/-- What foreign code does, and what the event loop does when none is running. -/
inductive Act (α : Type)
  | push (chunk : Chunk) (encoding : EncArg)
  | pushObject (chunk : Option α) (encoding : Bool)
  | unshift (chunk : Option (List α))
  | unshiftObject (chunk : Option α)
  | read (n : Option ℤ)
  | onReadable
  /-- `pipe` and `unpipe` set the flag. -/
  | flow (flowing : Bool)
  /-- It returns. -/
  | ret
  | tick
  deriving DecidableEq

abbrev System (α σ : Type) := Machine (Watched α σ) Frame

variable (mode : Mode α σ)

/-- A new stream. -/
def init (highWaterMark : ℤ) : System α σ := ⟨.new mode highWaterMark, []⟩

/-- What foreign code calls. -/
def callOf (w : Watched α σ) : Act α → Option (Outcome α σ)
  | .push chunk encoding => if mode.objectMode then none else some (w.push mode chunk encoding)
  | .pushObject chunk encoding =>
    if mode.objectMode then some (w.pushObject mode chunk encoding) else none
  | .unshift chunk => if mode.objectMode then none else some (w.unshift mode chunk)
  | .unshiftObject chunk =>
    if mode.objectMode then some (w.unshift mode (chunk.map ([·]))) else none
  | .read n => some (w.read mode n)
  | .onReadable => some (w.onReadable mode)
  | .flow flowing => some (.ret { w with st := { w.st with flowing := flowing } })
  | .ret | .tick => none

def step (m : System α σ) : Act α → Option (System α σ)
  | .ret => if m.stack = [] then none else
      some (resume (Watched.exec mode) boundary m.st m.stack)
  | .tick =>
    match m.stack, m.st.st.ticks with
    | [], t :: ts =>
      let r := { m.st with st := { m.st.st with ticks := ts } }.runTick mode t
      some ⟨r.state, r.frames⟩
    | _, _ => none
  | a => (callOf mode m.st a).map (enter .user m)

/-! ### Byte mode

In byte mode the stream, without its events, is the stream of `Readable`. -/

namespace Watched

variable {mode} (w : Watched α σ)

@[simp] lemma on_map (r : Res (State α σ) Frame) : (w.on r).map st = r := by
  cases r with
  | ret s => rfl
  | call s fs => rfl

lemma emitReadable_map : w.emitReadable.map st = Readable.emitReadable w.st := by
  unfold emitReadable
  split_ifs
  · exact on_map _ _
  · exact on_map _ _

lemma endReadable_st (h : w.st.length ≤ 0) : w.endReadable.st = Readable.endReadable w.st := by
  unfold endReadable
  rw [if_neg h.not_gt]

lemma chunkAdded_map : w.chunkAdded.map st = Readable.chunkAdded w.st := by
  unfold chunkAdded Readable.chunkAdded
  rw [Res.map_andThen fun u => u.on_map _]
  refine congrArg (Res.andThen · _ _) ?_
  split_ifs
  · exact w.emitReadable_map
  · rfl

lemma onEofChunk_map : (w.onEofChunk mode).map st = Readable.onEofChunk mode.codec w.st := by
  unfold onEofChunk Readable.onEofChunk
  dsimp only
  split_ifs with hchunk hlen hlen
  · exact emitReadable_map _
  · exact congrArg Res.ret (endReadable_st _ (not_lt.mp hlen))
  · exact emitReadable_map _
  · exact congrArg Res.ret (endReadable_st _ (not_lt.mp hlen))

lemma addNull_map :
    (w.addNull mode).map st = Readable.readableAddChunk mode.codec w.st .null := by
  unfold addNull Readable.readableAddChunk
  dsimp only
  split_ifs
  · rfl
  · exact onEofChunk_map _

lemma buf_map (b : Bytes) : (w.readableAddChunk mode (.buf b)).map st =
    Readable.readableAddChunk mode.codec w.st (.buf b) := by
  unfold readableAddChunk Readable.readableAddChunk
  by_cases hb : b.length = 0
  · simp only [Given.length, Item.length, hb, ↓reduceIte]
    rfl
  by_cases hended : w.st.ended
  · simp only [Given.length, Item.length, hb, hended, ↓reduceIte]
    rfl
  simp only [Given.length, Item.length, hb, hended, Given.decode, Item.decode, ↓reduceIte,
    Bool.false_eq_true]
  rcases mode.codec.write w.st.decoder b with ⟨_ | chunk, decoder⟩
  · rfl
  · exact chunkAdded_map _

lemma units_map (l : List α) : (w.readableAddChunk mode (.units l)).map st =
    Readable.readableAddChunk mode.codec w.st (.units l) := by
  unfold readableAddChunk Readable.readableAddChunk
  by_cases hl : l.length = 0
  · simp only [Given.length, Item.length, hl, ↓reduceIte]
    rfl
  by_cases hended : w.st.ended
  · simp only [Given.length, Item.length, hl, hended, ↓reduceIte]
    rfl
  simp only [Given.length, Item.length, hl, hended, Given.decode, Item.decode, ↓reduceIte,
    Bool.false_eq_true]
  exact chunkAdded_map _

lemma push_map (chunk : Chunk) (encoding : EncArg) : (w.push mode chunk encoding).map st =
    Readable.push mode.codec mode.defaultEncoding w.st chunk encoding := by
  cases chunk with
  | invalid => rfl
  | null => exact addNull_map _
  | buf b => exact w.buf_map b
  | str text =>
    unfold push Readable.push
    rcases encoding with _ | _ | ⟨c, rest⟩
    · dsimp only
      split_ifs
      · cases newBuffer text (some mode.defaultEncoding) with
        | none => rfl
        | some b => exact w.buf_map b
      · exact w.units_map _
    · dsimp only
      split_ifs
      · cases newBuffer text (some mode.defaultEncoding) with
        | none => rfl
        | some b => exact w.buf_map b
      · exact w.units_map _
    · dsimp only
      split_ifs
      · cases newBuffer text (some (c :: rest)) with
        | none => rfl
        | some b => exact w.buf_map b
      · exact w.units_map _

lemma unshift_map (chunk : List α) :
    (w.unshift mode (some chunk)).map st = Readable.unshift w.st chunk := by
  unfold unshift Readable.unshift
  dsimp only
  split_ifs
  · rfl
  · rfl
  · exact chunkAdded_map _

variable (hmode : mode.objectMode = false)

include hmode

lemma howMuchToRead_bytes (n : Option ℤ) (s : State α σ) :
    howMuchToRead mode n s = Readable.howMuchToRead n s := by
  unfold howMuchToRead
  rw [if_neg (by simp [hmode])]

lemma fromList_bytes (n length : ℤ) (list : List (List α)) :
    fromList mode n length list = Readable.fromList n length list := by
  unfold fromList
  rw [hmode]

lemma readEnd_st (n : ℤ) (nOrig : Option ℤ) (found : Bool) :
    (w.readEnd mode n nOrig found).st = Readable.readEnd n found w.st := by
  unfold readEnd Readable.readEnd
  rw [fromList_bytes hmode]
  dsimp only
  split_ifs
  all_goals first
    | rfl
    | rename_i hend
      exact congrArg (State.give · _ _) (endReadable_st _ hend.2.2.le)

lemma readDone_map (n : ℤ) (nOrig : Option ℤ) (found : Bool) :
    (w.readDone mode n nOrig found).map st = Readable.readDone n nOrig found w.st := by
  unfold readDone Readable.readDone
  dsimp only
  rw [howMuchToRead_bytes hmode]
  split_ifs
  · exact congrArg Res.ret (readEnd_st _ hmode _ _ _)
  · exact congrArg Res.ret (readEnd_st _ hmode _ _ _)

lemma readFrom_map (n : ℤ) (nOrig : Option ℤ) (found : Bool) :
    (w.readFrom mode n nOrig found).map st = Readable.readFrom n nOrig found w.st := by
  unfold readFrom Readable.readFrom
  split_ifs with hend hlen
  · exact congrArg (fun s => Res.ret (State.give s _ _)) (endReadable_st _ hlen.le)
  · rfl
  · exact on_map _ _
  · exact congrArg Res.ret (readEnd_st _ hmode _ _ _)

lemma read_map (n : Option ℤ) : (w.read mode n).map st = Readable.read n w.st := by
  unfold read Readable.read
  dsimp only
  rw [howMuchToRead_bytes hmode]
  split_ifs
  · exact emitReadable_map _
  · exact readFrom_map _ hmode _ _ _

lemma readMoreLoop_map : (w.readMoreLoop mode).map st = Readable.readMoreLoop w.st := by
  unfold readMoreLoop Readable.readMoreLoop
  split_ifs
  · rw [Res.map_andThen fun u => u.on_map _, w.read_map hmode]
  · exact on_map _ _

lemma exec_map (f : Frame) : (w.exec mode f).map st = Readable.exec w.st f := by
  cases f with
  | user => rfl
  | addChunk => exact w.on_map (Readable.addChunkDone w.st)
  | read n nOrig found => exact w.readDone_map hmode n nOrig found
  | readMore len =>
    change (w.readMoreAfter mode len).map st = Readable.readMoreAfter len w.st
    unfold readMoreAfter Readable.readMoreAfter
    split_ifs
    · exact on_map _ _
    · exact w.readMoreLoop_map hmode

lemma runTick_map (t : Tick) : (w.runTick mode t).map st = Readable.runTick w.st t := by
  cases t with
  | emitReadable => rfl
  | readMore => exact w.readMoreLoop_map hmode
  | «end» =>
    unfold runTick Readable.runTick
    dsimp only
    split_ifs
    · rfl
    · rfl

lemma onReadable_map : (w.onReadable mode).map st = Readable.onReadable w.st := by
  unfold onReadable Readable.onReadable
  dsimp only
  split_ifs
  · rfl
  · exact read_map _ hmode _
  · exact emitReadable_map _
  · rfl

end Watched

/-- What foreign code may do with a stream in byte mode. -/
def ofBytes : Readable.Act α → Act α
  | .push chunk encoding => .push chunk encoding
  | .unshift chunk => .unshift (some chunk)
  | .read n => .read n
  | .onReadable => .onReadable
  | .flow flowing => .flow flowing
  | .ret => .ret
  | .tick => .tick

/-- **The events follow the stream**: a step of `Readable` is a step here. -/
theorem step_map [DecidableEq α] (hmode : mode.objectMode = false) (m : System α σ)
    {a : Readable.Act α} {n : Readable.System α σ}
    (hs : Readable.step mode.codec mode.defaultEncoding (m.map Watched.st) a = some n) :
    (step mode m (ofBytes a)).map (Machine.map Watched.st) = some n := by
  have hbytes (r : Outcome α σ) : (if mode.objectMode then none else some r) = some r :=
    if_neg (by simp [hmode])
  have hcalled (r : Outcome α σ) (r' : Res (State α σ) Frame) (hr : r.map Watched.st = r')
      (hn : enter .user (m.map Watched.st) r' = n) : (enter .user m r).map Watched.st = n := by
    rw [enter_map, hr, hn]
  cases a with
  | push chunk encoding =>
    unfold step ofBytes callOf
    dsimp only
    rw [hbytes]
    exact congrArg some (hcalled _ _ (m.st.push_map chunk encoding) (Option.some.inj hs))
  | unshift chunk =>
    unfold Readable.step at hs
    dsimp only at hs
    split_ifs at hs
    unfold step ofBytes callOf
    dsimp only
    rw [hbytes]
    exact congrArg some (hcalled _ _ (m.st.unshift_map chunk) (Option.some.inj hs))
  | read n =>
    exact congrArg some (hcalled _ _ (m.st.read_map hmode n) (Option.some.inj hs))
  | onReadable =>
    exact congrArg some (hcalled _ _ (m.st.onReadable_map hmode) (Option.some.inj hs))
  | flow flowing => exact hs
  | ret =>
    unfold Readable.step at hs
    unfold step ofBytes
    by_cases hstack : m.stack = []
    · rw [if_pos (by exact hstack)] at hs
      cases hs
    rw [if_neg (by exact hstack)] at hs
    rw [if_neg hstack, ← hs]
    exact congrArg some (resume_map fun w f => Watched.exec_map w hmode f)
  | tick =>
    unfold Readable.step at hs
    unfold step ofBytes
    obtain ⟨w, k⟩ := m
    dsimp only [Machine.map] at hs ⊢
    cases k with
    | cons f k => cases hs
    | nil =>
      cases hticks : w.st.ticks with
      | nil =>
        rw [hticks] at hs
        cases hs
      | cons t ts =>
        rw [hticks] at hs
        have hrun := Watched.runTick_map { w with st := { w.st with ticks := ts } } hmode t
        dsimp only at hs ⊢
        rw [← hrun] at hs
        refine Eq.trans (congrArg some ?_) hs
        cases Watched.runTick mode { w with st := { w.st with ticks := ts } } t with
        | ret u => rfl
        | call u fs => rfl

end NodeCore.ReadableEvents
