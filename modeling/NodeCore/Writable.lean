import NodeCore.Encoding
import NodeCore.Reentrant

/-!
`Writable`: the state of a writable stream and everything that changes it.

Foreign code runs inside `_write` and `_writev`, in write callbacks, in handlers of `'drain'`,
`'error'`, `'prefinish'` and `'finish'`, and outside of the stream; it may call any of the
functions below wherever it runs. Handlers of `'error'` are there, so that no event throws.
-/

namespace NodeCore.Writable

open NodeCore.Encoding NodeCore.Reentrant

/-! ### State -/

/-- A chunk given to `write`. -/
inductive Chunk
  | null
  | str (s : Str)
  | buf (b : Bytes)
  | obj
  deriving DecidableEq

/-- The options, which never change. -/
structure Config where
  highWaterMark : ℤ
  objectMode : Bool
  decodeStrings : Bool
  defaultEncoding : EncArg
  /-- The stream has a `_writev`. -/
  writev : Bool

/-- A buffered write, with its number among the accepted ones. -/
structure WriteReq where
  id : ℕ
  chunk : Chunk
  encoding : EncArg
  deriving DecidableEq

/-- A write callback: one that the user gave, or the one of `clearBuffer`, which calls
`more + 1` of those. -/
inductive Cb
  | user
  | writev (more : ℕ)
  deriving DecidableEq

/-- The rest of a function, after foreign code it called. -/
inductive Frame
  /-- Foreign code called here. -/
  | user
  /-- In `doWrite`, after `_write` or `_writev`. -/
  | doWrite
  /-- In `write`, before it returns `ret`. -/
  | write (ret : Bool)
  /-- In `write`, after an `'error'` of its own. -/
  | writeError
  /-- In the loop of `clearBuffer`, at index `c`. -/
  | clearLoop (c : ℕ)
  /-- In `clearBuffer`, after `_writev`. -/
  | clearFast
  /-- In `onwrite`, after `clearBuffer`. -/
  | onwrite (sync finished : Bool) (cb : Cb)
  /-- In `onwriteError`, after the callback. -/
  | onwriteError
  /-- In `afterWrite`, after `onwriteDrain`. -/
  | afterDrain (cb : Cb)
  /-- In `afterWrite`, after the callback. -/
  | afterCb
  /-- In the callback of `clearBuffer`, with callbacks to go. -/
  | writevCbs (n : ℕ)
  /-- In `finishMaybe`, after `'prefinish'`. -/
  | finish
  /-- In `end`, after it uncorked. -/
  | endUncorked (cb : Bool)
  /-- In `endWritable`, after `finishMaybe`. -/
  | endWritable (cb : Bool)
  deriving DecidableEq

/-- What a `nextTick` runs. -/
inductive Tick
  | afterWrite (finished : Bool) (cb : Cb)
  | onwriteError (cb : Cb)
  /-- A callback of the user, and nothing else. -/
  | user
  deriving DecidableEq

structure State where
  needDrain : Bool
  ending : Bool
  ended : Bool
  /-- Set right before `'finish'` is emitted. -/
  finished : Bool
  length : ℤ
  writing : Bool
  corked : ℕ
  sync : Bool
  bufferProcessing : Bool
  writecb : Option Cb
  writelen : ℤ
  buffer : List WriteReq
  pendingcb : ℤ
  prefinished : Bool
  /-- The queue of `process.nextTick`. -/
  ticks : List Tick
  /-- The number of chunks that `write` has accepted. -/
  accepted : ℕ
  /-- The numbers of the chunks given to `_write` and `_writev`, in order. -/
  handed : List ℕ
  /-- Calls of `_write` and `_writev` whose callback has not been called. -/
  outstanding : ℕ
  /-- The number of `'drain'` events. -/
  drains : ℕ
  /-- A `write` has returned `false` since the last `'drain'`. -/
  owed : Bool
  /-- `end` has been called. -/
  endCalled : Bool
  deriving DecidableEq

/-- `new WritableState`. -/
def State.new : State where
  needDrain := false
  ending := false
  ended := false
  finished := false
  length := 0
  writing := false
  corked := 0
  sync := true
  bufferProcessing := false
  writecb := none
  writelen := 0
  buffer := []
  pendingcb := 0
  prefinished := false
  ticks := []
  accepted := 0
  handed := []
  outstanding := 0
  drains := 0
  owed := false
  endCalled := false

abbrev Result := Res State Frame

/-! ### Finishing -/

def needFinish (s : State) : Bool := s.ending && s.length = 0 && !s.finished && !s.writing

def prefinish (s : State) : Result :=
  if !s.prefinished then .call { s with prefinished := true } [] else .ret s

/-- The end of `finishMaybe`: `'finish'` is emitted. -/
def finish (s : State) : Result := .call { s with finished := true } []

def finishMaybe (s : State) : Result :=
  if needFinish s then
    if s.pendingcb = 0 then (prefinish s).andThen .finish finish else prefinish s
  else .ret s

/-! ### Writing -/

/-- `doWrite`, up to the call of `_write` or `_writev`. -/
def State.startWrite (s : State) (ids : List ℕ) (len : ℤ) (cb : Cb) : State :=
  { s with
    writelen := len
    writecb := some cb
    writing := true
    sync := true
    handed := s.handed ++ ids
    outstanding := s.outstanding + 1 }

def doWrite (s : State) (ids : List ℕ) (len : ℤ) (cb : Cb) : Result :=
  .call (s.startWrite ids len cb) [.doWrite]

def doWriteDone (s : State) : Result := .ret { s with sync := false }

variable (cfg : Config)

/-- `state.objectMode ? 1 : chunk.length`, which throws for `null` and `undefined`. -/
def Config.len (chunk : Chunk) : Option ℤ :=
  if cfg.objectMode then some 1
  else match chunk with
    | .str s => some s.length
    | .buf b => some b.length
    | .null | .obj => none

/-- The rest of the loop of `clearBuffer` after it is left at index `c`. -/
def clearEnd (s : State) (c : ℕ) : State :=
  { s with
    buffer := if c < s.buffer.length then s.buffer.drop c else []
    bufferProcessing := false }

/-- The loop of `clearBuffer` from index `c` on. -/
def clearFrom (s : State) (c : ℕ) : Result :=
  match s.buffer[c]? with
  | some entry =>
    .call (s.startWrite [entry.id] ((cfg.len entry.chunk).getD 0) .user) [.doWrite, .clearLoop c]
  | none => .ret (clearEnd s c)

def clearLoop (s : State) (c : ℕ) : Result :=
  if s.writing then .ret (clearEnd s (c + 1)) else clearFrom cfg s (c + 1)

def clearFast (s : State) : Result := .ret { s with buffer := [], bufferProcessing := false }

def clearBuffer (s : State) : Result :=
  let s := { s with bufferProcessing := true }
  if cfg.writev && 1 < s.buffer.length then
    let s := { s with pendingcb := s.pendingcb + 1 }
    .call (s.startWrite (s.buffer.map WriteReq.id) s.length (.writev (s.buffer.length - 1)))
      [.doWrite, .clearFast]
  else clearFrom cfg s 0

/-- `write` returns. -/
def writeRet (ret : Bool) (s : State) : Result := .ret { s with owed := s.owed || !ret }

/-- The callback of a refused write is called later; `write` returns `false`. -/
def writeError (s : State) : Result := writeRet false { s with ticks := s.ticks ++ [.user] }

/-- `decodeChunk`; it throws where the `Buffer` constructor does. -/
def decodeChunk (chunk : Chunk) (encoding : EncArg) : Option Chunk :=
  match chunk with
  | .str s =>
    if !cfg.objectMode && cfg.decodeStrings then (newBuffer s encoding).map .buf
    else some chunk
  | _ => some chunk

/-- The first half of `writeOrBuffer`. -/
def State.charge (s : State) (len : ℤ) (ret : Bool) : State :=
  { s with length := s.length + len, needDrain := !ret, accepted := s.accepted + 1 }

/-- `writeOrBuffer`, with what it returns. -/
def writeOrBuffer (s : State) (chunk : Chunk) (encoding : EncArg) : Option (Result × Bool) := do
  let chunk ← decodeChunk cfg chunk encoding
  let len ← cfg.len chunk
  let ret : Bool := s.length + len < cfg.highWaterMark
  let t := s.charge len ret
  if s.writing || 0 < s.corked then
    some (.ret { t with buffer := t.buffer ++ [⟨s.accepted, chunk, encoding⟩] }, ret)
  else some (doWrite t [s.accepted] len .user, ret)

/-- `validChunk`. -/
def validChunk (chunk : Chunk) : Bool :=
  match chunk with
  | .obj => cfg.objectMode
  | _ => true

/-- The encoding that `write` goes on with. -/
def encodingOf (chunk : Chunk) (encoding : EncArg) : EncArg :=
  match chunk, encoding with
  | .buf _, _ => some (js "buffer")
  | _, none | _, some [] => cfg.defaultEncoding
  | _, some n => some n

/-- `Writable.prototype.write`; a throw leaves the state as it is. -/
def write (s : State) (chunk : Chunk) (encoding : EncArg) : Result :=
  if s.ended || !validChunk cfg chunk then
    (Res.call s []).andThen .writeError writeError
  else
    let s := { s with pendingcb := s.pendingcb + 1 }
    match writeOrBuffer cfg s chunk (encodingOf cfg chunk encoding) with
    | some (r, ret) => r.andThen (.write ret) (writeRet ret)
    | none => .ret s

/-! ### Completions -/

def callCb (s : State) : Cb → Result
  | .user => .call s []
  | .writev more => .call { s with pendingcb := s.pendingcb - 1 } [.writevCbs more]

def writevCbs (s : State) : ℕ → Result
  | 0 => .ret s
  | n + 1 => .call { s with pendingcb := s.pendingcb - 1 } [.writevCbs n]

def afterDrain (cb : Cb) (s : State) : Result :=
  (callCb { s with pendingcb := s.pendingcb - 1 } cb).andThen .afterCb finishMaybe

def onwriteDrain (s : State) : Result :=
  if s.length = 0 ∧ s.needDrain then
    .call { s with needDrain := false, drains := s.drains + 1, owed := false } []
  else .ret s

def afterWrite (finished : Bool) (cb : Cb) (s : State) : Result :=
  (if !finished then onwriteDrain s else .ret s).andThen (.afterDrain cb) (afterDrain cb)

/-- The end of `onwriteError`: `'error'` is emitted. -/
def onwriteErrorEvent (s : State) : Result := .call s []

def onwriteError (sync : Bool) (cb : Cb) (s : State) : Result :=
  if sync then onwriteErrorEvent { s with ticks := s.ticks ++ [.onwriteError cb] }
  else (callCb { s with pendingcb := s.pendingcb - 1 } cb).andThen .onwriteError onwriteErrorEvent

/-- The end of `onwrite`. -/
def onwriteAfter (sync finished : Bool) (cb : Cb) (s : State) : Result :=
  if sync then .ret { s with ticks := s.ticks ++ [.afterWrite finished cb] }
  else afterWrite finished cb s

def onwriteStateUpdate (s : State) : State :=
  { s with
    writing := false
    writecb := none
    length := s.length - s.writelen
    writelen := 0
    outstanding := s.outstanding - 1 }

/-- `onwrite`, without or with an error. -/
def onwrite (er : Bool) (s : State) : Result :=
  let sync := s.sync
  let cb := s.writecb.getD .user
  let s := onwriteStateUpdate s
  if er then onwriteError sync cb s
  else
    let finished := needFinish s
    (if !finished && s.corked = 0 && !s.bufferProcessing && s.buffer ≠ [] then clearBuffer cfg s
      else .ret s).andThen (.onwrite sync finished cb) (onwriteAfter sync finished cb)

/-! ### `cork`, `uncork` and `end` -/

def cork (s : State) : State := { s with corked := s.corked + 1 }

def uncork (s : State) : Result :=
  if 0 < s.corked then
    let s := { s with corked := s.corked - 1 }
    if !s.writing && s.corked = 0 && !s.finished && !s.bufferProcessing && s.buffer ≠ [] then
      clearBuffer cfg s
    else .ret s
  else .ret s

/-- The end of `endWritable`; a callback that is given too late is called later. -/
def endWritableDone (cb : Bool) (s : State) : Result :=
  .ret { s with
    ticks := if cb && s.finished then s.ticks ++ [.user] else s.ticks
    ended := true }

def endUncorked (cb : Bool) (s : State) : Result :=
  if !s.ending && !s.finished then
    (finishMaybe { s with ending := true }).andThen (.endWritable cb) (endWritableDone cb)
  else .ret s

/-- `end` without a chunk; with one it is `write` and then this. -/
def «end» (cb : Bool) (s : State) : Result :=
  let s := { s with endCalled := true }
  (if 0 < s.corked then uncork cfg { s with corked := 1 } else .ret s).andThen
    (.endUncorked cb) (endUncorked cb)

/-! ### The system -/

def exec (s : State) : Frame → Result
  | .user => .ret s
  | .doWrite => doWriteDone s
  | .write ret => writeRet ret s
  | .writeError => writeError s
  | .clearLoop c => clearLoop cfg s c
  | .clearFast => clearFast s
  | .onwrite sync finished cb => onwriteAfter sync finished cb s
  | .onwriteError => onwriteErrorEvent s
  | .afterDrain cb => afterDrain cb s
  | .afterCb => finishMaybe s
  | .writevCbs n => writevCbs s n
  | .finish => finish s
  | .endUncorked cb => endUncorked cb s
  | .endWritable cb => endWritableDone cb s

def boundary : Frame → Bool
  | .user => true
  | _ => false

def runTick (s : State) : Tick → Result
  | .afterWrite finished cb => afterWrite finished cb s
  | .onwriteError cb => callCb { s with pendingcb := s.pendingcb - 1 } cb
  | .user => .call s []

/-- What foreign code does, and what the event loop does when none is running. -/
inductive Act
  | write (chunk : Chunk) (encoding : EncArg)
  | cork
  | uncork
  | end (cb : Bool)
  /-- A callback of `_write` or `_writev`, with an error or without. -/
  | onwrite (er : Bool)
  /-- It returns. -/
  | ret
  | tick
  deriving DecidableEq

abbrev Stream := Machine State Frame

/-- A new stream. -/
def init : Stream := ⟨.new, []⟩

def step (m : Stream) : Act → Option Stream
  | .write chunk encoding => some (enter .user m (write cfg m.st chunk encoding))
  | .cork => some { m with st := cork m.st }
  | .uncork => some (enter .user m (uncork cfg m.st))
  | .end cb => some (enter .user m («end» cfg cb m.st))
  | .onwrite er =>
    if m.st.outstanding = 0 then none else some (enter .user m (onwrite cfg er m.st))
  | .ret => if m.stack = [] then none else some (resume (exec cfg) boundary m.st m.stack)
  | .tick =>
    match m.stack, m.st.ticks with
    | [], t :: ts =>
      let r := runTick { m.st with ticks := ts } t
      some ⟨r.state, r.frames⟩
    | _, _ => none

end NodeCore.Writable
