import NodeCore.Encoding
import NodeCore.Reentrant

/-!
A cluster: the master with its table of listening handles, and the workers it sends connections
to, over one channel for each worker.

A message of a function that throws goes no further, and what the function has done stays. The
errors of a closed channel are handled by the caller. A query and its answer are matched by the
worker, so that the numbers that only match them are left out.
-/

namespace NodeCore.Cluster

open NodeCore.Encoding NodeCore.Reentrant

/-! ### State -/

/-- What the master sends to a worker. -/
inductive ToWorker
  | newconn (seq : ℕ) (key : Str) (handle : ℕ)
  /-- The answer to `queryServer`. -/
  | reply (key : Str) (shared errno : Bool)
  deriving DecidableEq

/-- What a worker sends to the master. -/
inductive ToMaster
  | queryServer (key : Str) (shared : Bool)
  | ack (seq : ℕ) (accepted : Bool)
  | close (key : Str)
  deriving DecidableEq

/-- The channel of a worker as the master sees it. It is closing from `disconnect()` until the
message that is being read is complete. -/
inductive Channel
  | open
  | closing
  | closed
  deriving DecidableEq

structure Worker where
  channel : Channel
  toWorker : List ToWorker
  toMaster : List ToMaster
  /-- `handles` of the worker: the keys that it listens on, and whether the handle is shared. -/
  servers : List (Str × Bool)

structure SharedHandle where
  /-- `errno` is set, and there is no handle. -/
  errno : Bool
  workers : List ℕ
  /-- `this.handle !== null`. -/
  handle : Bool

/-- `this.server`, while the master binds it. -/
inductive Server
  | binding
  | failed
  | null
  deriving DecidableEq

structure RoundRobinHandle where
  key : Str
  all : List ℕ
  free : List ℕ
  handles : List ℕ
  /-- `this.handle !== null`. -/
  handle : Bool
  server : Server
  /-- The workers that are answered once the server is bound. -/
  waiting : List ℕ

inductive Obj
  | shared (h : SharedHandle)
  | roundRobin (h : RoundRobinHandle)

/-- What the reply to a `newconn` is given to. -/
structure Callback where
  self : ℕ
  handle : ℕ
  worker : ℕ
  deriving DecidableEq

structure State where
  workers : ℕ → Worker
  ids : ℕ
  /-- `handles` of the master, in the order in which the keys have come. -/
  handles : List (Str × ℕ)
  objects : ℕ → Obj
  nextObject : ℕ
  callbacks : List (ℕ × Callback)
  seq : ℕ
  /-- The connections that have come so far. -/
  connections : ℕ
  /-- The connections that the master has closed after a worker said that it had accepted them. -/
  accepted : List ℕ
  /-- The connections that the master has closed unserved. -/
  closed : List ℕ
  /-- The connections that have been given to a server of a worker. -/
  taken : List ℕ

def init : State where
  workers := fun _ => ⟨.closed, [], [], []⟩
  ids := 0
  handles := []
  objects := fun _ => .shared ⟨true, [], false⟩
  nextObject := 0
  callbacks := []
  seq := 0
  connections := 0
  accepted := []
  closed := []
  taken := []

namespace State

variable (s : State)

def setWorker (w : ℕ) (p : Worker) : State := { s with workers := Function.update s.workers w p }

def setObj (i : ℕ) (o : Obj) : State := { s with objects := Function.update s.objects i o }

variable {s} in
lemma setObj_same (i : ℕ) (o : Obj) : (s.setObj i o).objects i = o := Function.update_self ..

variable {s} in
lemma setObj_ne {i j : ℕ} (h : j ≠ i) (o : Obj) : (s.setObj i o).objects j = s.objects j :=
  Function.update_of_ne h ..

/-- `handles[key]`. -/
def lookup (key : Str) : Option ℕ := (s.handles.find? (·.1 = key)).map Prod.snd

/-- `delete handles[key]`. -/
def delete (key : Str) : State := { s with handles := s.handles.filter (·.1 ≠ key) }

/-- `sendHelper`. -/
def send (w : ℕ) (m : ToWorker) : State :=
  let p := s.workers w
  { s with
    seq := s.seq + 1
    workers := if p.channel = .open then
      Function.update s.workers w { p with toWorker := p.toWorker ++ [m] } else s.workers }

/-- `RoundRobinHandle.prototype.handoff`. -/
def handoff (i w : ℕ) : State :=
  match s.objects i with
  | .shared _ => s
  | .roundRobin r =>
    if w ∉ r.all then s
    else match r.handles with
      | [] => s.setObj i (.roundRobin { r with free := r.free ++ [w] })
      | h :: hs =>
        let t := s.setObj i (.roundRobin { r with handles := hs })
        { t with callbacks := t.callbacks ++ [(t.seq, Callback.mk i h w)] }.send w
          (.newconn t.seq r.key h)

/-- `RoundRobinHandle.prototype.distribute`. -/
def distribute (i h : ℕ) : State :=
  match s.objects i with
  | .shared _ => s
  | .roundRobin r =>
    match r.free with
    | [] => s.setObj i (.roundRobin { r with handles := r.handles ++ [h] })
    | w :: ws =>
      (s.setObj i (.roundRobin { r with handles := r.handles ++ [h], free := ws })).handoff i w

end State

/-! ### Removing a worker -/

/-- What `remove` returns. -/
inductive Removed
  | no
  | yes
  | throw
  deriving DecidableEq

def SharedHandle.remove (h : SharedHandle) (w : ℕ) : SharedHandle × Removed :=
  if w ∉ h.workers then (h, .throw) -- `assert(index !== -1)`
  else
    let h' := { h with workers := h.workers.erase w }
    if h'.workers ≠ [] then (h', .no)
    else if h.handle then ({ h' with handle := false }, .yes)
    else (h', .throw)

/-- The handles of the queue are closed with the last worker, also when there is no listening
handle yet, which throws. -/
def RoundRobinHandle.remove (r : RoundRobinHandle) (w : ℕ) : RoundRobinHandle × Removed :=
  if w ∉ r.all then (r, .no)
  else
    let r' := { r with all := r.all.filter (· ≠ w), free := r.free.erase w }
    if r'.all ≠ [] then (r', .no)
    else if r.handle then ({ r' with handles := [], handle := false }, .yes)
    else ({ r' with handles := [] }, .throw)

namespace State

variable (s : State)

def remove (i w : ℕ) : State × Removed :=
  match s.objects i with
  | .shared h => (s.setObj i (.shared (h.remove w).1), (h.remove w).2)
  | .roundRobin r =>
    let t := s.setObj i (.roundRobin (r.remove w).1)
    ({ t with closed := t.closed ++ if (r.remove w).1.handles = [] then r.handles else [] },
      (r.remove w).2)

/-- The loop over the handles, for a worker that has gone. It ends when one throws. -/
def removeFrom (w : ℕ) : List (Str × ℕ) → State → State
  | [], s => s
  | (key, i) :: rest, s =>
    match s.remove i w with
    | (t, .no) => removeFrom w rest t
    | (t, .yes) => removeFrom w rest (t.delete key)
    | (t, .throw) => t

/-- The event `'disconnect'`. -/
def disconnect (w : ℕ) : State :=
  removeFrom w s.handles (s.setWorker w { s.workers w with channel := .closed })

/-! ### Messages to the master -/

/-- `close`, and whether it returns. -/
def close (w : ℕ) (key : Str) : State × Bool :=
  match s.lookup key with
  | none => (s, false)
  | some i =>
    match s.remove i w with
    | (t, .no) => (t, true)
    | (t, .yes) => (t.delete key, true)
    | (t, .throw) => (t, false)

/-- A reply to a `newconn`. -/
def ack (seq : ℕ) (accepted : Bool) : State × Bool :=
  match s.callbacks.find? (·.1 = seq) with
  | none => (s, false)
  | some (_, c) =>
    let t := { s with callbacks := s.callbacks.eraseP (·.1 = seq) }
    let t := if accepted then { t with accepted := t.accepted ++ [c.handle] }
      else t.distribute c.self c.handle
    (t.handoff c.self c.worker, true)

/-- `done`, in `RoundRobinHandle.prototype.add`. -/
def done (i : ℕ) (key : Str) (w : ℕ) : State := (s.send w (.reply key false false)).handoff i w

/-- `handles[key]`, made if there is none; `errno` says whether a shared handle has failed. -/
def object (key : Str) (shared errno : Bool) : State × ℕ :=
  match s.lookup key with
  | some i => (s, i)
  | none =>
    let o := if shared then .shared ⟨errno, [], !errno⟩
      else .roundRobin ⟨key, [], [], [], false, .binding, []⟩
    ({ s.setObj s.nextObject o with
        nextObject := s.nextObject + 1,
        handles := s.handles ++ [(key, s.nextObject)] }, s.nextObject)

/-- `handle.add(worker, send)`. -/
def add (i : ℕ) (key : Str) (w : ℕ) : State × Bool :=
  match s.objects i with
  | .shared h =>
    if w ∈ h.workers then (s, false)
    else
      let t := s.setObj i (.shared { h with workers := h.workers ++ [w] })
      ((if h.errno then t.delete key else t).send w (.reply key true h.errno), true)
  | .roundRobin r =>
    if w ∈ r.all then (s, false)
    else
      let r' := { r with all := r.all ++ [w] }
      if r.server = .null then
        if r.handle then ((s.setObj i (.roundRobin r')).done i key w, true)
        else (s.setObj i (.roundRobin r'), false)
      else (s.setObj i (.roundRobin { r' with waiting := r.waiting ++ [w] }), true)

def queryServer (w : ℕ) (key : Str) (shared errno : Bool) : State × Bool :=
  (s.object key shared errno).1.add (s.object key shared errno).2 key w

/-- A message of a worker; `errno` is the outcome of binding a shared handle. -/
def onmessage (w : ℕ) (errno : Bool) : ToMaster → State × Bool
  | .queryServer key shared => s.queryServer w key shared errno
  | .ack seq accepted => s.ack seq accepted
  | .close key => s.close w key

/-! ### Events of a server -/

/-- The workers that were added while the server was bound. -/
def doneAll (i : ℕ) (key : Str) : List ℕ → State → State
  | [], s => s
  | w :: ws, s => doneAll i key ws (s.done i key w)

def failAll (key : Str) : List ℕ → State → State
  | [], s => s
  | w :: ws, s => failAll key ws ((s.delete key).send w (.reply key false true))

def listening (i : ℕ) : Option State :=
  match s.objects i with
  | .shared _ => none
  | .roundRobin r =>
    if r.server = .binding then
      some (doneAll i r.key r.waiting
        (s.setObj i (.roundRobin { r with handle := true, server := .null, waiting := [] })))
    else none

def error (i : ℕ) : Option State :=
  match s.objects i with
  | .shared _ => none
  | .roundRobin r =>
    if r.server = .binding then
      some (failAll r.key r.waiting
        (s.setObj i (.roundRobin { r with server := .failed, waiting := [] })))
    else none

/-- `onconnection` of the listening handle. -/
def connection (i : ℕ) : Option State :=
  match s.objects i with
  | .shared _ => none
  | .roundRobin r =>
    if r.handle then
      some ({ s with connections := s.connections + 1 }.distribute i s.connections)
    else none

/-! ### Workers -/

/-- A worker sends a message. -/
def report (w : ℕ) (m : ToMaster) : State :=
  let p := s.workers w
  if p.channel = .open then s.setWorker w { p with toMaster := p.toMaster ++ [m] } else s

/-- A worker handles a message. -/
def receive (w : ℕ) : ToWorker → State
  | .newconn seq key handle =>
    let accepted := (s.workers w).servers.any (·.1 = key)
    { s with taken := if accepted then s.taken ++ [handle] else s.taken }.report w
      (.ack seq accepted)
  | .reply key shared errno =>
    let p := s.workers w
    if errno || p.servers.any (·.1 = key) then s
    else s.setWorker w { p with servers := p.servers ++ [(key, shared)] }

/-- A worker closes what it listens on. -/
def closeServer (w : ℕ) (key : Str) : State :=
  let p := s.workers w
  match p.servers.find? (·.1 = key) with
  | none => s
  | some (_, shared) =>
    let t := s.setWorker w { p with servers := p.servers.filter (·.1 ≠ key) }
    if shared then t else t.report w (.close key)

end State

/-! ### Steps -/

inductive Act
  | fork
  /-- A worker is about to listen. -/
  | listen (w : ℕ) (key : Str) (shared : Bool)
  /-- A worker closes what it listens on. -/
  | closeServer (w : ℕ) (key : Str)
  /-- A worker handles the next message from the master. -/
  | receive (w : ℕ)
  /-- The master handles the next message from a worker. -/
  | deliver (w : ℕ) (errno : Bool)
  /-- The channel of a worker is closed, by either side; `buffering` says that the master is
  reading a message. -/
  | hangup (w : ℕ) (buffering : Bool) (read : ℕ)
  | listening (i : ℕ)
  | error (i : ℕ)
  | connection (i : ℕ)
  deriving DecidableEq

/-- The channel of a worker is closed. What the worker has sent is lost, but for the messages that
have been read and wait for their turn, and the one that is being read. -/
def hangup (s : State) (w : ℕ) (buffering : Bool) (read : ℕ) : Option State :=
  let p := s.workers w
  if p.channel ≠ .open then none
  else if buffering then
    if p.toMaster = [] then none
    else some (s.setWorker w { p with channel := .closing, toMaster := p.toMaster.take (read + 1) })
  else some ((s.setWorker w { p with toMaster := p.toMaster.take read }).disconnect w)

def deliver (s : State) (w : ℕ) (errno : Bool) : Option State :=
  let p := s.workers w
  match p.toMaster with
  | [] => none
  | m :: ms =>
    let (t, returned) := (s.setWorker w { p with toMaster := ms }).onmessage w errno m
    some (if p.channel = .closing && returned then t.disconnect w else t)

def step (s : State) (a : Act) : Option State :=
  match a with
  | .fork =>
    some { s.setWorker s.ids ⟨.open, [], [], []⟩ with ids := s.ids + 1 }
  | .listen w key shared => some (s.report w (.queryServer key shared))
  | .closeServer w key => some (s.closeServer w key)
  | .receive w =>
    match (s.workers w).toWorker with
    | [] => none
    | m :: ms => some ((s.setWorker w { s.workers w with toWorker := ms }).receive w m)
  | .deliver w errno => deliver s w errno
  | .hangup w buffering read => hangup s w buffering read
  | .listening i => s.listening i
  | .error i => s.error i
  | .connection i => s.connection i

end NodeCore.Cluster
