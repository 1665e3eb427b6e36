import NodeCore.Writable

/-!
`net`: sockets, the server that has accepted them, and the processes they are handed to.

The writable side of a socket is that of `Writable`; its `_write` is here. Foreign code runs where
it does on the writable side, and in handlers of the events of sockets and of the server. What
the reading side and the handlers of `'finish'` do to a socket is to call `destroy`. No socket
is connected again.
-/

namespace NodeCore.Net

open NodeCore.Encoding NodeCore.Reentrant

/-! ### State -/

structure Socket where
  ws : Writable.State
  /-- It has a `_handle`. -/
  handle : Bool
  connecting : Bool
  /-- `_writeGeneric` listens on `'connect'`. -/
  deferred : Bool
  destroyed : Bool
  errorEmitted : Bool
  /-- It has a `server`. -/
  server : Bool
  /-- It has been handed to another process. -/
  sent : Bool
  /-- The requests of the handle under way, and whether each has a `cb`. -/
  requests : List Bool
  /-- The callback of `_handle.close` is still to come. -/
  closing : Bool
  /-- The ticks that emit `'error'`. -/
  errorTicks : ℕ
  /-- The number of `'error'` events. -/
  errors : ℕ
  /-- The number of `'close'` events. -/
  closes : ℕ
  /-- How often it has been taken off the count of its server. -/
  decrements : ℕ

/-- `new Socket`, with a handle or without. -/
def Socket.new (handle connecting : Bool) : Socket where
  ws := .new
  handle := handle
  connecting := connecting
  deferred := false
  destroyed := false
  errorEmitted := false
  server := false
  sent := false
  requests := []
  closing := false
  errorTicks := 0
  errors := 0
  closes := 0
  decrements := 0

/-- A `SocketListSend`. -/
structure Slave where
  child : ℕ
  /-- It has been asked to close, and has not called back. -/
  asked : Bool
  deriving DecidableEq

structure Server where
  handle : Bool
  connections : ℤ
  maxConnections : ℤ
  usingSlaves : Bool
  slaves : List Slave
  /-- In `close`. -/
  left : ℤ
  /-- The ticks that emit `'close'`. -/
  closeTicks : ℕ
  /-- The number of `'close'` events. -/
  closes : ℕ
  deriving DecidableEq

/-- A server that listens. -/
def Server.new (maxConnections : ℤ) : Server where
  handle := true
  connections := 0
  maxConnections := maxConnections
  usingSlaves := false
  slaves := []
  left := 0
  closeTicks := 0
  closes := 0

structure State where
  sockets : ℕ → Socket
  /-- How many sockets there are. -/
  count : ℕ
  server : Server
  /-- The children that have disconnected. -/
  gone : List ℕ

def State.new (maxConnections : ℤ) : State where
  sockets _ := .new false false
  count := 0
  server := .new maxConnections
  gone := []

/-- The rest of a function, after foreign code it called. -/
inductive Frame
  /-- Foreign code called here. -/
  | user
  | writable (i : ℕ) (f : Writable.Frame)
  /-- `_writeGeneric` is called. -/
  | write (i : ℕ)
  /-- In `'connect'`, before a deferred `_writeGeneric`. -/
  | connect (i : ℕ)
  /-- In `_destroy`, after its callback. -/
  | destroy (i : ℕ) (exception : Bool)
  /-- In `_destroy` of a destroyed socket, after its callback. -/
  | destroyed (i : ℕ) (exception : Bool)
  deriving DecidableEq

abbrev Outcome := Res State Frame

/-! ### The server -/

namespace Server

variable (s : Server)

/-- `_emitCloseIfDrained`. -/
def emitCloseIfDrained : Server :=
  if s.handle || s.connections ≠ 0 then s else { s with closeTicks := s.closeTicks + 1 }

/-- A socket is destroyed. -/
def decrement : Server := { s with connections := s.connections - 1 }.emitCloseIfDrained

/-- `onSlaveClose`. -/
def onSlaveClose : Server :=
  let s := { s with left := s.left - 1 }
  if s.left ≠ 0 then s else { s with connections := 0 }.emitCloseIfDrained

/-- Whether the slave of the child is asked to close. -/
def ask (child : ℕ) (asked : Bool) : Server :=
  { s with slaves := s.slaves.map fun (l : Slave) =>
      if l.child = child then { l with asked := asked } else l }

/-- The callback of the `SocketListSend` of a child that has been asked. -/
def answer (child : ℕ) : Server :=
  if s.slaves.any fun (l : Slave) => l.child = child && l.asked then
    (s.ask child false).onSlaveClose
  else s

/-- `slave.close(onSlaveClose)`: one that is not connected calls back at once. -/
def closeSlave (gone : List ℕ) (s : Server) (l : Slave) : Server :=
  if l.child ∈ gone then s.onSlaveClose else s.ask l.child true

/-- `close`; without a handle it throws. -/
def close (gone : List ℕ) : Server :=
  if !s.handle then s
  else
    let s := { s with handle := false }
    if s.usingSlaves then
      s.slaves.foldl (closeSlave gone)
        { s with connections := s.connections + 1, left := s.slaves.length }
    else s.emitCloseIfDrained

/-- `_setupSlave`. -/
def setupSlave (child : ℕ) : Server :=
  { s with usingSlaves := true, slaves := s.slaves ++ [⟨child, false⟩] }

end Server

/-! ### Sockets -/

namespace State

variable (cfg : Writable.Config) (t : State)

def put (i : ℕ) (s : Socket) : State := { t with sockets := Function.update t.sockets i s }

/-- A function of the writable side. It stops for `_write` or for foreign code. -/
def onWritable (i : ℕ) (r : Writable.Result) : Outcome :=
  r.within (fun ws => t.put i { t.sockets i with ws := ws }) (.writable i) fun _ fs =>
    match fs with
    | .doWrite :: _ => [.write i]
    | _ => []

/-- `'error'` is emitted. -/
def emitError (i : ℕ) : State :=
  t.put i { t.sockets i with errors := (t.sockets i).errors + 1 }

/-- `state.onwrite`, the callback of a write. When it is called within `_write`, it emits `'error'`
right away. -/
def onwrite (i : ℕ) (er : Bool) : Outcome :=
  let t := if er && (t.sockets i).ws.sync then t.emitError i else t
  t.onWritable i (Writable.onwrite cfg er (t.sockets i).ws)

/-- The end of `fireErrorCallbacks`. -/
def errorOnce (i : ℕ) (exception : Bool) : State :=
  let s := t.sockets i
  if exception && !s.errorEmitted then
    t.put i { s with errorTicks := s.errorTicks + 1, errorEmitted := true }
  else t

/-- The end of `_destroy`. -/
def destroyEnd (i : ℕ) (exception : Bool) : State :=
  let t := t.errorOnce i exception
  let s := { t.sockets i with destroyed := true }
  if s.server then
    { t.put i { s with decrements := s.decrements + 1 } with server := t.server.decrement }
  else t.put i s

/-- `Socket.prototype._destroy`, with or without a callback. -/
def _destroy (i : ℕ) (exception cb : Bool) : Outcome :=
  let s := t.sockets i
  if s.destroyed then
    (if cb then t.onwrite cfg i exception else .ret t).andThen (.destroyed i exception)
      fun t => .ret (t.errorOnce i exception)
  else
    let t := t.put i
      { s with connecting := false, closing := s.closing || s.handle, handle := false }
    (if cb then t.onwrite cfg i exception else .ret t).andThen (.destroy i exception)
      fun t => .ret (t.destroyEnd i exception)

end State

/-- What becomes of a write that is given to the handle. -/
inductive Wrote
  | failed | flushed | pending
  deriving DecidableEq

namespace State

variable (cfg : Writable.Config) (t : State)

/-- `_writeGeneric`. -/
def _writeGeneric (i : ℕ) (wrote : Wrote) : Outcome :=
  let s := t.sockets i
  if s.connecting then .ret (t.put i { s with deferred := true })
  else if !s.handle then t._destroy cfg i true true
  else match wrote with
    | .failed => t._destroy cfg i true true
    | .flushed => (t.put i { s with requests := s.requests ++ [false] }).onwrite cfg i false
    | .pending => .ret (t.put i { s with requests := s.requests ++ [true] })

/-- `afterWrite` of the oldest request. -/
def afterWrite (i : ℕ) (failed : Bool) : Outcome :=
  let s := t.sockets i
  match s.requests with
  | [] => .ret t
  | cb :: requests =>
    let t := t.put i { s with requests := requests }
    if s.destroyed then .ret t
    else if failed then t._destroy cfg i true cb
    else if cb then t.onwrite cfg i false
    else .ret t

/-- `afterConnect`. -/
def afterConnect (i : ℕ) (ok : Bool) : Outcome :=
  let s := t.sockets i
  if s.destroyed || !s.connecting then .ret t
  else if ok then
    .call (t.put i { s with connecting := false, deferred := false })
      (if s.deferred then [.connect i] else [])
  else (t.put i { s with connecting := false })._destroy cfg i true false

/-- `Socket.prototype.write`; it throws for anything but a string or a Buffer. -/
def write (i : ℕ) (chunk : Writable.Chunk) (encoding : EncArg) : Outcome :=
  match chunk with
  | .null | .obj => .ret t
  | .str _ | .buf _ =>
    let t := if (t.sockets i).ws.ended then t.emitError i else t
    t.onWritable i (Writable.write cfg (t.sockets i).ws chunk encoding)

/-- A new socket, which has been given a handle or none. -/
def add (s : Socket) : State := { t.put t.count s with count := t.count + 1 }

/-- `onconnection`. The new socket starts to read, which may fail. -/
def onconnection (fails : Bool) : Outcome :=
  let v := t.server
  if v.maxConnections ≠ 0 ∧ v.maxConnections ≤ v.connections then .ret t
  else
    let i := t.count
    let t := t.add (.new true false)
    let t := if fails then (t._destroy cfg i true false).state else t
    .ret { t.put i { t.sockets i with server := true } with
      server := { t.server with connections := t.server.connections + 1 } }

/-- `handleConversion['net.Socket'].send`, to a connected child; without a handle it throws. -/
def send (i child : ℕ) : State :=
  let s := t.sockets i
  let t :=
    if s.server then
      let v := t.server
      let v := if v.slaves.any fun (l : Slave) => l.child = child then v else v.setupSlave child
      { t with server := { v with connections := v.connections - 1 } }
    else t
  t.put i { s with handle := false, sent := true }

/-- The child disconnects. -/
def disconnect (child : ℕ) : State :=
  { t with server := t.server.answer child, gone := child :: t.gone }

/-- A tick emits `'error'`. -/
def tickError (i : ℕ) : State :=
  let s := t.sockets i
  (t.put i { s with errorTicks := s.errorTicks - 1 }).emitError i

/-! ### The system -/

def exec : Frame → Outcome
  | .user => .ret t
  | .writable i f =>
    let t := if f = .onwriteError then t.emitError i else t
    t.onWritable i (Writable.exec cfg (t.sockets i).ws f)
  | .write _ => .ret t
  | .connect i => .call t [.write i]
  | .destroy i exception => .ret (t.destroyEnd i exception)
  | .destroyed i exception => .ret (t.errorOnce i exception)

end State

def boundary : Frame → Bool
  | .user | .writable _ .user => true
  | _ => false

/-- The code of the socket is about to go on. -/
def running : Frame → Bool
  | .write _ => true
  | _ => false

/-- What foreign code does, and what the event loop does when none is running. -/
inductive Act
  /-- `net.connect`, or `new Socket` without a handle. -/
  | socket (connecting : Bool)
  | write (i : ℕ) (chunk : Writable.Chunk) (encoding : EncArg)
  | cork (i : ℕ)
  | uncork (i : ℕ)
  | end (i : ℕ) (cb : Bool)
  /-- `destroy`, or an error while reading. -/
  | destroy (i : ℕ) (exception : Bool)
  | close
  | send (i child : ℕ)
  /-- `_writeGeneric` goes on. -/
  | wrote (w : Wrote)
  /-- Foreign code returns. -/
  | ret
  | connection (fails : Bool)
  | connected (i : ℕ) (ok : Bool)
  | written (i : ℕ) (failed : Bool)
  /-- The callback of `_handle.close`. -/
  | closed (i : ℕ)
  /-- A child reports that its sockets are closed. -/
  | reply (child : ℕ)
  | disconnect (child : ℕ)
  | tickWritable (i : ℕ)
  | tickError (i : ℕ)
  | tickClose

abbrev System := Machine State Frame

def init (maxConnections : ℤ) : System := ⟨.new maxConnections, []⟩

variable (cfg : Writable.Config)

/-- What foreign code calls. -/
def callOf (t : State) : Act → Option Outcome
  | .socket connecting => some (.ret (t.add (.new connecting connecting)))
  | .write i chunk encoding => some (t.write cfg i chunk encoding)
  | .cork i => some (t.onWritable i (.ret (Writable.cork (t.sockets i).ws)))
  | .uncork i => some (t.onWritable i (Writable.uncork cfg (t.sockets i).ws))
  | .end i cb => some (t.onWritable i (Writable.end cfg cb (t.sockets i).ws))
  | .destroy i exception => some (t._destroy cfg i exception false)
  | .close => some (.ret { t with server := t.server.close t.gone })
  | .send i child => if child ∈ t.gone then none else some (.ret (t.send i child))
  | _ => none

/-- What the event loop calls. -/
def eventOf (t : State) : Act → Option Outcome
  | .connection fails => if t.server.handle then some (t.onconnection cfg fails) else none
  | .connected i ok => some (t.afterConnect cfg i ok)
  | .written i failed => some (t.afterWrite cfg i failed)
  | .closed i =>
    let s := t.sockets i
    if s.closing then some (.ret (t.put i { s with closing := false, closes := s.closes + 1 }))
    else none
  | .reply child => some (.ret { t with server := t.server.answer child })
  | .disconnect child => some (.ret (t.disconnect child))
  | .tickWritable i =>
    let ws := (t.sockets i).ws
    match ws.ticks with
    | tick :: ts => some (t.onWritable i (Writable.runTick { ws with ticks := ts } tick))
    | [] => none
  | .tickError i => if 0 < (t.sockets i).errorTicks then some (.ret (t.tickError i)) else none
  | .tickClose =>
    let v := t.server
    if 0 < v.closeTicks then
      some (.ret { t with
        server := { v with closeTicks := v.closeTicks - 1, closes := v.closes + 1 } })
    else none
  | _ => none

/-- The sockets that an action is about are there. -/
def Act.known (t : State) : Act → Bool
  | .write i _ _ | .cork i | .uncork i | .end i _ | .destroy i _ | .send i _ | .connected i _
  | .written i _ | .closed i | .tickWritable i | .tickError i => i < t.count
  | _ => true

def step (m : System) (a : Act) : Option System :=
  match a, m.stack with
  | .ret, [] => none
  | .ret, .write _ :: _ => none
  | .ret, f :: k => some (resume (State.exec cfg) boundary m.st (f :: k))
  | .wrote w, .write i :: k =>
    match m.st._writeGeneric cfg i w with
    | .ret t => some (resume (State.exec cfg) boundary t k)
    | .call t fs => some ⟨t, fs ++ k⟩
  | a, stack =>
    if !a.known m.st || stack.head?.any running then none
    else match callOf cfg m.st a, stack with
      | some r, _ => some (enter .user m r)
      | none, [] => (eventOf cfg m.st a).map fun r => ⟨r.state, r.frames⟩
      | none, _ :: _ => none

/-! ### What a step does -/

variable {cfg}

lemma step_cases {m m' : System} {a : Act} (h : step cfg m a = some m') :
    (a = .ret ∧ m' = resume (State.exec cfg) boundary m.st m.stack) ∨
    (∃ w i k, a = .wrote w ∧ m.stack = .write i :: k ∧
      m' = match m.st._writeGeneric cfg i w with
        | .ret t => resume (State.exec cfg) boundary t k
        | .call t fs => ⟨t, fs ++ k⟩) ∨
    (∃ r, callOf cfg m.st a = some r ∧ m' = enter .user m r) ∨
    ∃ r, m.stack = [] ∧ eventOf cfg m.st a = some r ∧ m' = ⟨r.state, r.frames⟩ := by
  unfold step at h
  split at h
  · cases h
  · cases h
  · rename_i f k _ hk
    exact .inl ⟨rfl, (Option.some.inj h).symm.trans (by rw [hk])⟩
  · rename_i w i k hk
    refine .inr (.inl ⟨w, i, k, rfl, hk, ?_⟩)
    cases hr : m.st._writeGeneric cfg i w with
    | ret t =>
      rw [hr] at h
      exact (Option.some.inj h).symm
    | call t fs =>
      rw [hr] at h
      exact (Option.some.inj h).symm
  · rename_i a _ _ _ _ _ _
    split_ifs at h
    cases hr : callOf cfg m.st a with
    | some r =>
      rw [hr] at h
      exact .inr (.inr (.inl ⟨r, rfl, (Option.some.inj h).symm⟩))
    | none =>
      rw [hr] at h
      cases hstack : m.stack with
      | cons f k =>
        rw [hstack] at h
        cases h
      | nil =>
        rw [hstack] at h
        obtain ⟨r, hr, rfl⟩ := Option.map_eq_some_iff.mp h
        exact .inr (.inr (.inr ⟨r, rfl, hr, rfl⟩))

variable (cfg) in
/-- What the event loop calls, action by action. -/
inductive Event (t : State) : Act → Outcome → Prop
  | connection (fails : Bool) (hv : t.server.handle = true) :
      Event t (.connection fails) (t.onconnection cfg fails)
  | connected (i : ℕ) (ok : Bool) : Event t (.connected i ok) (t.afterConnect cfg i ok)
  | written (i : ℕ) (failed : Bool) : Event t (.written i failed) (t.afterWrite cfg i failed)
  | closed (i : ℕ) (hc : (t.sockets i).closing = true) :
      Event t (.closed i) (.ret (t.put i { t.sockets i with
        closing := false, closes := (t.sockets i).closes + 1 }))
  | reply (child : ℕ) :
      Event t (.reply child) (.ret { t with server := t.server.answer child })
  | disconnect (child : ℕ) : Event t (.disconnect child) (.ret (t.disconnect child))
  | tickWritable (i : ℕ) (tick : Writable.Tick) (ts : List Writable.Tick) :
      Event t (.tickWritable i)
        (t.onWritable i (Writable.runTick { (t.sockets i).ws with ticks := ts } tick))
  | tickError (i : ℕ) (hpos : 0 < (t.sockets i).errorTicks) :
      Event t (.tickError i) (.ret (t.tickError i))
  | tickClose (hpos : 0 < t.server.closeTicks) :
      Event t .tickClose (.ret { t with server := { t.server with
        closeTicks := t.server.closeTicks - 1, closes := t.server.closes + 1 } })

lemma Event.of_some {t : State} {a : Act} {r : Outcome} (hr : eventOf cfg t a = some r) :
    Event cfg t a r := by
  cases a with
  | connection fails =>
    obtain ⟨hv, hr⟩ := Option.ite_none_right_eq_some.mp hr
    exact Option.some.inj hr ▸ .connection fails hv
  | connected i ok => exact Option.some.inj hr ▸ .connected i ok
  | written i failed => exact Option.some.inj hr ▸ .written i failed
  | closed i =>
    obtain ⟨hc, hr⟩ := Option.ite_none_right_eq_some.mp hr
    exact Option.some.inj hr ▸ .closed i hc
  | reply child => exact Option.some.inj hr ▸ .reply child
  | disconnect child => exact Option.some.inj hr ▸ .disconnect child
  | tickWritable i =>
    unfold eventOf at hr
    dsimp only at hr
    split at hr
    · next tick ts _ => exact Option.some.inj hr ▸ .tickWritable i tick ts
    · cases hr
  | tickError i =>
    obtain ⟨hpos, hr⟩ := Option.ite_none_right_eq_some.mp hr
    exact Option.some.inj hr ▸ .tickError i hpos
  | tickClose =>
    obtain ⟨hpos, hr⟩ := Option.ite_none_right_eq_some.mp hr
    exact Option.some.inj hr ▸ .tickClose hpos
  | _ => cases hr

variable (cfg) in
/-- The frames that a step resumes meet `P`. -/
def Resumes (P : State → Frame → List Frame → Prop) (m : System) : Act → Prop
  | .ret => Along (State.exec cfg) boundary P m.st m.stack
  | .wrote w => ∀ i k t, m.stack = .write i :: k → m.st._writeGeneric cfg i w = .ret t →
      Along (State.exec cfg) boundary P t k
  | _ => True

/-- A step keeps what each of the functions keeps that it may run. -/
lemma step_along {I : State → List Frame → Prop} {P : State → Frame → List Frame → Prop}
    {m m' : System} {a : Act} (h : step cfg m a = some m') (hI : I m.st m.stack)
    (hP : Resumes cfg P m a) (hpush : ∀ t k, I t k → I t (.user :: k))
    (hpop : ∀ t f k, boundary f = true ∨ running f = true → I t (f :: k) → I t k)
    (hexec : ∀ t f k, I t (f :: k) → P t f k → (State.exec cfg t f).Keeps I k)
    (hwrote : ∀ w i k, a = .wrote w → m.stack = .write i :: k → I m.st k →
      (m.st._writeGeneric cfg i w).Keeps I k)
    (hcall : ∀ r, callOf cfg m.st a = some r → I m.st (.user :: m.stack) →
      r.Keeps I (.user :: m.stack))
    (hevent : ∀ r, m.stack = [] → eventOf cfg m.st a = some r → r.Keeps I []) :
    I m'.st m'.stack := by
  have hresume : ∀ t k, I t k → Along (State.exec cfg) boundary P t k →
      I (resume (State.exec cfg) boundary t k).st (resume (State.exec cfg) boundary t k).stack :=
    fun t k => resume_along (fun t f k _ => hexec t f k) fun t f k hf => hpop t f k (.inl hf)
  rcases step_cases h with ⟨rfl, rfl⟩ | ⟨w, i, k, rfl, hk, rfl⟩ | ⟨r, hr, rfl⟩ | ⟨r, hk, hr, rfl⟩
  · exact hresume _ _ hI hP
  · rw [hk] at hI
    have hkeep := hwrote w i k rfl hk (hpop m.st (.write i) k (.inr rfl) hI)
    cases hr : m.st._writeGeneric cfg i w with
    | ret t =>
      rw [hr] at hkeep
      exact hresume t k hkeep (hP i k t hk hr)
    | call t fs =>
      rw [hr] at hkeep
      exact hkeep
  · exact enter_keeps (fun t k => hpop t .user k (.inl rfl)) (hcall r hr (hpush _ _ hI))
  · have hkeep := hevent r hk hr
    unfold Res.Keeps at hkeep
    rwa [List.append_nil] at hkeep

lemma along_true (t : State) (k : List Frame) :
    Along (State.exec cfg) boundary (fun _ _ _ => True) t k := by
  induction k generalizing t with
  | nil => trivial
  | cons f k ih => exact fun _ => ⟨trivial, fun t' _ => ih t'⟩

lemma step_keeps {I : State → List Frame → Prop} {m m' : System} {a : Act}
    (h : step cfg m a = some m') (hI : I m.st m.stack)
    (hpush : ∀ t k, I t k → I t (.user :: k))
    (hpop : ∀ t f k, boundary f = true ∨ running f = true → I t (f :: k) → I t k)
    (hexec : ∀ t f k, I t (f :: k) → (State.exec cfg t f).Keeps I k)
    (hwrote : ∀ w i k, a = .wrote w → m.stack = .write i :: k → I m.st k →
      (m.st._writeGeneric cfg i w).Keeps I k)
    (hcall : ∀ r, callOf cfg m.st a = some r → I m.st (.user :: m.stack) →
      r.Keeps I (.user :: m.stack))
    (hevent : ∀ r, m.stack = [] → eventOf cfg m.st a = some r → r.Keeps I []) :
    I m'.st m'.stack := by
  have hP : Resumes cfg (fun _ _ _ => True) m a := by
    cases a with
    | ret => exact along_true _ _
    | wrote w => exact fun _ _ _ _ _ => along_true _ _
    | _ => trivial
  exact step_along h hI hP hpush hpop (fun t f k h _ => hexec t f k h) hwrote hcall hevent

end NodeCore.Net
