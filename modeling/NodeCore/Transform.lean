import NodeCore.Writable
import NodeCore.ReadableEvents

/-!
`Transform`: a writable and a readable stream, with one `_transform` between them.

Both sides are those of `Writable` and `ReadableEvents`; what they call is foreign code, but for
`_write`, `_read` and the first listener of `'prefinish'`, which are here. Foreign code runs in
`_transform` and `_flush`, and wherever it does on the two sides. A stream has no `_writev`.
-/

namespace NodeCore.Transform

open NodeCore.Encoding NodeCore.Reentrant NodeCore.ReadableEvents
open NodeCore.Readable (Codec)

/-! ### State -/

/-- The options. -/
structure Config (α σ : Type) where
  highWaterMark : ℤ
  objectMode : Bool
  decodeStrings : Bool
  defaultEncoding : Str
  codec : Codec α σ
  /-- `decoder.write` of an object, `none` where it throws. -/
  writeObject : σ → α → Option α × σ
  /-- The stream has a `_flush`. -/
  flush : Bool

variable {α σ : Type}

def Config.mode (cfg : Config α σ) : Mode α σ :=
  ⟨cfg.objectMode, cfg.codec, cfg.defaultEncoding, cfg.writeObject⟩

def Config.writable (cfg : Config α σ) : Writable.Config :=
  ⟨cfg.highWaterMark, cfg.objectMode, cfg.decodeStrings, some cfg.defaultEncoding, false⟩

/-- What there was when `_flush` was called. -/
structure Flush where
  accepted : ℕ
  completed : ℕ
  deriving DecidableEq

structure State (α σ : Type) where
  ws : Writable.State
  rs : Watched α σ
  needTransform : Bool
  transforming : Bool
  writecb : Bool
  /-- The number of the chunk. -/
  writechunk : Option ℕ
  /-- For each accepted chunk, whether it is a truthy value when it reaches `_write`. -/
  truths : List Bool
  /-- The numbers of the chunks given to `_transform`, in order. -/
  passed : List ℕ
  /-- The number of times that a callback of `_transform` has been called. -/
  completed : ℕ
  /-- The calls of `_flush`. -/
  flushes : List Flush
  /-- Its callback has not been called. -/
  flushing : Bool
  deriving DecidableEq

/-- What `_transform` gives to its callback, or to `push`. -/
inductive Data (α : Type)
  | null
  | chunk (c : Readable.Chunk)
  | object (o : α)
  deriving DecidableEq

/-- The rest of a function, after foreign code it called. -/
inductive Frame (α : Type)
  /-- Foreign code called here. -/
  | user
  | writable (f : Writable.Frame)
  | readable (f : Readable.Frame)
  /-- `_write` is called with this chunk. -/
  | write (id : ℕ)
  /-- `_read` is called. -/
  | read
  /-- The listener of `'prefinish'` is called. -/
  | prefinish
  /-- The other listeners of `'prefinish'` are called. -/
  | listeners
  /-- `afterTransform` pushes the data. -/
  | push (data : Data α)
  /-- In `afterTransform`, after the data. -/
  | afterPush (er : Bool)
  /-- In `afterTransform`, after the callback of the write. -/
  | afterCb
  deriving DecidableEq

abbrev Outcome (α σ : Type) := Res (State α σ) (Frame α)

/-- `new Transform`. -/
def State.new (cfg : Config α σ) : State α σ :=
  let rs := Watched.new cfg.mode cfg.highWaterMark
  { ws := .new
    rs := { rs with st := { rs.st with needReadable := true, sync := false } }
    needTransform := false
    transforming := false
    writecb := false
    writechunk := none
    truths := []
    passed := []
    completed := 0
    flushes := []
    flushing := false }

namespace State

variable (cfg : Config α σ) (t : State α σ)

/-! ### The two sides -/

/-- A function of the writable side. It stops for `_write`, for `'prefinish'` or for foreign
code. -/
def onWritable (r : Writable.Result) : Outcome α σ :=
  r.within (fun s => { t with ws := s }) .writable fun s fs =>
    match fs with
    | .doWrite :: _ => [.write (s.handed.getLastD 0)]
    | _ => if !t.ws.prefinished && s.prefinished then [.prefinish] else []

/-- A function of the readable side. It stops for `_read` or for foreign code. -/
def onReadable (r : ReadableEvents.Outcome α σ) : Outcome α σ :=
  r.within (fun w => { t with rs := w }) .readable fun _ fs =>
    match fs with
    | .read .. :: _ => [.read]
    | _ => []

/-! ### `_write` and `_read` -/

/-- `rs.needReadable || rs.length < rs.highWaterMark` -/
def wanted : Bool := t.rs.st.needReadable || t.rs.st.length < t.rs.st.highWaterMark

/-- `Transform.prototype._read`. -/
def _read : Outcome α σ :=
  match t.writechunk with
  | some id =>
    if t.truths.getD id false && t.writecb && !t.transforming then
      .call { t with transforming := true, passed := t.passed ++ [id] } []
    else .ret { t with needTransform := true }
  | none => .ret { t with needTransform := true }

/-- `Transform.prototype._write`. -/
def _write (id : ℕ) : Outcome α σ :=
  let t := { t with writecb := true, writechunk := some id }
  if !t.transforming && (t.needTransform || t.wanted) then t._read else .ret t

/-! ### `afterTransform` -/

/-- The end of `afterTransform`. -/
def afterCb : Outcome α σ :=
  let t := { t with rs := { t.rs with st := { t.rs.st with reading := false } } }
  if t.wanted then t._read else .ret t

def afterPush (er : Bool) : Outcome α σ :=
  (t.onWritable (Writable.onwrite cfg.writable er t.ws)).andThen .afterCb afterCb

/-- `Transform.prototype.push`. -/
def push (r : ReadableEvents.Outcome α σ) : Outcome α σ :=
  onReadable { t with needTransform := false } r

/-- The push of `afterTransform`. -/
def pushData (data : Data α) : Outcome α σ :=
  match data with
  | .null | .chunk .null => .ret t
  | .chunk c => t.push (t.rs.push cfg.mode c none)
  | .object o => t.push (t.rs.pushObject cfg.mode (some o) false)

/-- `afterTransform`; without a `writecb` it emits `'error'`. -/
def afterTransform (er : Bool) (data : Data α) : Outcome α σ :=
  let t := { t with transforming := false, completed := t.completed + 1 }
  if !t.writecb then .call t []
  else .call { t with writechunk := none, writecb := false } [.push data, .afterPush er]

/-! ### The end -/

/-- `done`; where it throws, the state stays. -/
def done (er : Bool) : Outcome α σ :=
  if er then .call t []
  else if t.ws.length ≠ 0 || t.transforming then .ret t
  else t.push (t.rs.readableAddChunk cfg.mode .null)

def listeners : Outcome α σ := .call t []

/-- The listener of `'prefinish'`. -/
def prefinish : Outcome α σ :=
  (if cfg.flush then
    .call { t with flushes := t.flushes ++ [⟨t.ws.accepted, t.completed⟩], flushing := true } []
  else t.done cfg false).andThen .listeners listeners

/-! ### Writing -/

/-- Whether `_write` gets a truthy value; an object is what the flag says. -/
def truthy (chunk : Writable.Chunk) (object : Bool) : Bool :=
  match chunk with
  | .null => false
  | .str s => cfg.writable.decodeStrings && !cfg.writable.objectMode || s ≠ []
  | .buf _ => true
  | .obj => object

/-- `write`, with what becomes of the chunk. -/
def write (chunk : Writable.Chunk) (encoding : EncArg) (object : Bool) : Outcome α σ :=
  let r := Writable.write cfg.writable t.ws chunk encoding
  let truths :=
    if r.state.accepted = t.ws.accepted then t.truths else t.truths ++ [truthy cfg chunk object]
  onWritable { t with truths := truths } r

/-! ### The system -/

def exec : Frame α → Outcome α σ
  | .user => .ret t
  | .writable f => t.onWritable (Writable.exec cfg.writable t.ws f)
  | .readable f => t.onReadable (t.rs.exec cfg.mode f)
  | .write id => t._write id
  | .read => t._read
  | .prefinish => t.prefinish cfg
  | .listeners => t.listeners
  | .push data => t.pushData cfg data
  | .afterPush er => t.afterPush cfg er
  | .afterCb => t.afterCb

end State

def boundary : Frame α → Bool
  | .user | .writable .user | .readable .user => true
  | _ => false

/-- The code of the stream is about to go on. -/
def running : Frame α → Bool
  | .write _ | .read | .prefinish | .push _ => true
  | _ => false

/-- What foreign code does, and what the event loop does when none is running. -/
inductive Act (α : Type)
  | write (chunk : Writable.Chunk) (encoding : EncArg) (object : Bool)
  | cork
  | uncork
  | end (cb : Bool)
  | push (chunk : Readable.Chunk) (encoding : EncArg)
  | pushObject (chunk : Option α) (encoding : Bool)
  | unshift (chunk : Option (List α))
  | unshiftObject (chunk : Option α)
  | read (n : Option ℤ)
  | onReadable
  | flow (flowing : Bool)
  /-- The callback of `_transform`. -/
  | transformed (er : Bool) (data : Data α)
  /-- The callback of `_flush`. -/
  | flushed (er : Bool)
  /-- Foreign code returns, or the code of the stream goes on. -/
  | ret
  /-- A tick of either side. -/
  | tickWritable
  | tickReadable
  deriving DecidableEq

abbrev System (α σ : Type) := Machine (State α σ) (Frame α)

variable (cfg : Config α σ)

/-- A new stream. -/
def init : System α σ := ⟨.new cfg, []⟩

/-- The data is of the kind that `push` takes. -/
def fits : Data α → Bool
  | .null => true
  | .chunk _ => !cfg.objectMode
  | .object _ => cfg.objectMode

/-- What foreign code calls. -/
def callOf (t : State α σ) : Act α → Option (Outcome α σ)
  | .write chunk encoding object => some (t.write cfg chunk encoding object)
  | .cork => some (t.onWritable (.ret (Writable.cork t.ws)))
  | .uncork => some (t.onWritable (Writable.uncork cfg.writable t.ws))
  | .end cb => some (t.onWritable (Writable.end cfg.writable cb t.ws))
  | .push chunk encoding =>
    (ReadableEvents.callOf cfg.mode t.rs (.push chunk encoding)).map t.push
  | .pushObject chunk encoding =>
    (ReadableEvents.callOf cfg.mode t.rs (.pushObject chunk encoding)).map t.push
  | .unshift chunk => (ReadableEvents.callOf cfg.mode t.rs (.unshift chunk)).map t.onReadable
  | .unshiftObject chunk =>
    (ReadableEvents.callOf cfg.mode t.rs (.unshiftObject chunk)).map t.onReadable
  | .read n => (ReadableEvents.callOf cfg.mode t.rs (.read n)).map t.onReadable
  | .onReadable => (ReadableEvents.callOf cfg.mode t.rs .onReadable).map t.onReadable
  | .flow flowing => (ReadableEvents.callOf cfg.mode t.rs (.flow flowing)).map t.onReadable
  | .transformed er data =>
    if t.completed < t.passed.length ∧ fits cfg data then some (t.afterTransform er data) else none
  | .flushed er => if t.flushing then some ({ t with flushing := false }.done cfg er) else none
  | .ret | .tickWritable | .tickReadable => none

def step (m : System α σ) : Act α → Option (System α σ)
  | .ret => if m.stack = [] then none else
      some (resume (State.exec cfg) boundary m.st m.stack)
  | .tickWritable =>
    match m.stack, m.st.ws.ticks with
    | [], tick :: ts =>
      let r := m.st.onWritable (Writable.runTick { m.st.ws with ticks := ts } tick)
      some ⟨r.state, r.frames⟩
    | _, _ => none
  | .tickReadable =>
    match m.stack, m.st.rs.st.ticks with
    | [], tick :: ts =>
      let r := m.st.onReadable
        ({ m.st.rs with st := { m.st.rs.st with ticks := ts } }.runTick cfg.mode tick)
      some ⟨r.state, r.frames⟩
    | _, _ => none
  | a => if m.stack.head?.any running then none else (callOf cfg m.st a).map (enter .user m)

end NodeCore.Transform
