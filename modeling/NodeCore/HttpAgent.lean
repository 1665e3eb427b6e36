import NodeCore.HttpResponse
import NodeCore.Reentrant

/-!
`ClientRequest` and `Agent`: requests, and the pool of sockets that they are given.

What a request writes is kept with the socket, each piece with the request that wrote it. The
callbacks of `process.nextTick` run one after the other, and other code may run between them. The
parsers of the sockets and the errors that requests emit are left out.
-/

namespace NodeCore.HttpAgent

open NodeCore.Encoding NodeCore.Regex NodeCore.HttpOutgoing

/-! ### Requests -/

/-- A request with an agent. Its `connection` is filled in for the time of a call. -/
structure ClientRequest extends Message where
  /-- As `toUpperCase` leaves it. -/
  method : Str
  path : Str
  /-- What `_renderHeaders` returns. -/
  headers : Headers
  /-- The host, the port and the local address, as the agent puts them together. -/
  name : Str
  /-- `req.socket`, which is also `req.connection`. -/
  socket : Option ℕ
  /-- `req.res` is there. -/
  res : Bool
  /-- The response has `responseOnEnd` as a listener, and has not ended. -/
  responding : Bool
  /-- The request has been ended, and nothing of it was left while it had an open socket. -/
  complete : Bool
  deriving DecidableEq

namespace ClientRequest

def requestLine (method path : Str) : Str := method ++ js " " ++ path ++ js " HTTP/1.1\r\n"

/-- The methods that have no body by default. -/
def bodilessMethod (method : Str) : Bool :=
  method = js "GET" || method = js "HEAD" || method = js "CONNECT"

/-- `getHeader('expect')` as a condition. -/
def expects (headers : Headers) : Bool :=
  headers.any fun h => toLowerCase h.1 = js "expect" && h.2 ≠ .one []

/-- The constructor, up to `addRequest`; the headers of an object have the host and the
authorization among them. A request does not send the date. -/
def new (method path : Str) (headers : HeadersArg) (name : Str) : ClientRequest :=
  let m := { Message.new with
    agent := true, useChunkedEncodingByDefault := !bodilessMethod method }
  let m :=
    match headers with
    | .array headers => m.storeHeader (requestLine method path) headers []
    | .object headers =>
      if expects headers then m.storeHeader (requestLine method path) headers [] else m
  { m with
    last := false
    shouldKeepAlive := true
    method := method
    path := path
    headers := match headers with
      | .array _ => []
      | .object headers => headers
    name := name
    socket := none
    res := false
    responding := false
    complete := false }

variable (r : ClientRequest)

/-- `_implicitHeader`, where no header has been stored. -/
def implicitHeader : ClientRequest :=
  if r.header = [] then
    { r with toMessage := r.toMessage.storeHeader (requestLine r.method r.path) r.headers [] }
  else r

/-- `setHeader` and `removeHeader`, which throw once the header has been stored. -/
def setHeaders (headers : Headers) : ClientRequest :=
  if r.header = [] then { r with headers := headers } else r

/-- `addTrailers`, where the values are given as text. -/
def addTrailers (headers : List (Str × Str)) : ClientRequest := { r with trailer := render headers }

/-- `write`. -/
def write (chunk : Data) (encoding : EncArg) : ClientRequest :=
  let r := r.implicitHeader
  { r with toOutgoingMessage := (OutgoingMessage.write id r.toOutgoingMessage chunk encoding).1 }

/-- `end`. -/
def «end» (data : Option Data) (encoding : EncArg) : ClientRequest :=
  if r.finished then r
  else
    let r := r.implicitHeader
    { r with toOutgoingMessage := (OutgoingMessage.end id r.toOutgoingMessage data encoding).1 }

/-- The callback that the constructor gives to `_deferToConnect`. A socket that is not writable
has been closed or destroyed, and does not connect any more. -/
def deferToConnect : ClientRequest :=
  match r.connection with
  | none => r
  | some c => if c.writable then { r with toOutgoingMessage := r.toOutgoingMessage.flush } else r

end ClientRequest

/-! ### The agent -/

structure Socket where
  name : Str
  writable : Bool
  destroyed : Bool
  /-- `'close'` has been emitted. -/
  closed : Bool
  /-- What its `write` returns. -/
  room : Bool
  httpMessage : Option ℕ
  /-- The listeners of the agent are attached. -/
  pooled : Bool
  /-- How often `socketCloseListener` is attached. -/
  closeListeners : ℕ
  /-- The calls of its `write`, with the requests that made them. -/
  log : List (ℕ × Entry)
  /-- The requests that it has been given to. -/
  holders : List ℕ
  deriving DecidableEq

/-- A socket that starts to connect. -/
def Socket.new (name : Str) : Socket :=
  ⟨name, true, false, false, true, none, true, 0, [], []⟩

/-- A callback of `process.nextTick`. -/
inductive Tick
  /-- In `ClientRequest.prototype.onSocket`. -/
  | onSocket (i j : ℕ)
  /-- In `responseOnEnd`. -/
  | free (j : ℕ)
  deriving DecidableEq

structure Agent where
  maxSockets : ℕ
  /-- `self.requests`: those that wait for a socket. -/
  requests : Str → List ℕ
  /-- `self.sockets`. -/
  sockets : Str → List ℕ
  request : ℕ → ClientRequest
  nextRequest : ℕ
  socket : ℕ → Socket
  nextSocket : ℕ
  ticks : List Tick

def init (maxSockets : ℕ) : Agent where
  maxSockets := maxSockets
  requests := fun _ => []
  sockets := fun _ => []
  request := fun _ => .new [] [] (.object []) []
  nextRequest := 0
  socket := fun _ => .new []
  nextSocket := 0
  ticks := []

namespace Agent

variable (s : Agent)

def setRequest (i : ℕ) (r : ClientRequest) : Agent :=
  { s with request := Function.update s.request i r }

def setSocket (j : ℕ) (k : Socket) : Agent := { s with socket := Function.update s.socket j k }

/-- `socket.destroy()`. -/
def destroy (j : ℕ) : Agent :=
  s.setSocket j { s.socket j with destroyed := true, writable := false }

/-- `socket.destroySoon()`, up to the end of what has been written. -/
def destroySoon (j : ℕ) : Agent := s.setSocket j { s.socket j with writable := false }

/-- The new socket is `s.nextSocket`. -/
def createSocket (name : Str) : Agent :=
  { s.setSocket s.nextSocket (.new name) with
    nextSocket := s.nextSocket + 1
    sockets := Function.update s.sockets name (s.sockets name ++ [s.nextSocket]) }

/-- The listener of the event `'free'`. -/
def free (j : ℕ) : Agent :=
  let name := (s.socket j).name
  match (s.socket j).destroyed, s.requests name with
  | false, i :: rest =>
    { s with
      requests := Function.update s.requests name rest
      ticks := s.ticks ++ [.onSocket i j] }
  | _, _ => s.destroy j

def addRequest (i : ℕ) : Agent :=
  let name := (s.request i).name
  if (s.sockets name).length < s.maxSockets then
    { s.createSocket name with ticks := s.ticks ++ [.onSocket i s.nextSocket] }
  else { s with requests := Function.update s.requests name (s.requests name ++ [i]) }

def removeSocket (j : ℕ) : Agent :=
  let name := (s.socket j).name
  let t := { s with sockets := Function.update s.sockets name ((s.sockets name).erase j) }
  if t.requests name ≠ [] then (t.createSocket name).free t.nextSocket else t

/-! ### Calls of a request -/

/-- The connection of a request. -/
def view (i : ℕ) : Option Connection :=
  (s.request i).socket.map fun j =>
    let k := s.socket j
    ⟨k.httpMessage = some i, k.writable, k.destroyed, 0, k.room, []⟩

/-- A method of a request is called. -/
def call (i : ℕ) (f : ClientRequest → ClientRequest) : Agent :=
  let r := f { s.request i with connection := s.view i }
  let out := r.finished && r.output = [] && (s.view i).any fun c => c.mine && !c.destroyed
  let t := s.setRequest i { r with connection := none, complete := r.complete || out }
  match (s.request i).socket with
  | none => t
  | some j =>
    let written := (r.connection.map (·.written)).getD []
    t.setSocket j { s.socket j with log := (s.socket j).log ++ written.map fun e => (i, e) }

/-- The callback in `onSocket`. -/
def onSocket (i j : ℕ) : Agent :=
  let k := s.socket j
  let t := s.setRequest i { s.request i with socket := some j }
  let t := t.setSocket j { k with
    httpMessage := some i, closeListeners := k.closeListeners + 1, holders := k.holders ++ [i] }
  t.call i ClientRequest.deferToConnect

def tick : Option Agent :=
  match s.ticks with
  | [] => none
  | .onSocket i j :: rest => some ({ s with ticks := rest }.onSocket i j)
  | .free j :: rest =>
    let t := { s with ticks := rest }
    some (if (t.socket j).pooled then t.free j else t)

/-! ### Events of a socket -/

/-- The header of a response has been parsed. -/
def parserOnIncomingClient (j : ℕ) (shouldKeepAlive : Bool) : Option Agent :=
  let k := s.socket j
  match k.httpMessage with
  | none => none
  | some i =>
    let r := s.request i
    if k.destroyed then none
    else if r.res then some (s.destroy j) -- the server has sent a double response
    else some (s.setRequest i { r with
      res := true, responding := true, shouldKeepAlive := r.shouldKeepAlive && shouldKeepAlive })

/-- The socket is detached for a response that upgrades the connection. -/
def upgrade (j : ℕ) : Option Agent :=
  let k := s.socket j
  match k.httpMessage with
  | none => none
  | some i =>
    if k.destroyed || (s.request i).res then none
    else
      let t := s.setRequest i { s.request i with res := true }
      let t := if k.pooled then t.removeSocket j else t
      some (t.setSocket j { t.socket j with
        pooled := false, closeListeners := k.closeListeners - 1 })

def responseOnEnd (i : ℕ) : Option Agent :=
  let r := s.request i
  match r.socket with
  | none => none
  | some j =>
    if !r.responding then none
    else
      let t := s.setRequest i { r with responding := false }
      let k := s.socket j
      if r.shouldKeepAlive then
        some { t.setSocket j { k with closeListeners := k.closeListeners - 1 } with
          ticks := s.ticks ++ [.free j] }
      else some (if k.writable then t.destroySoon j else t)

/-- What `socketCloseListener` does to the output of the request. -/
def socketCloseListener (j : ℕ) : Agent :=
  match (s.socket j).httpMessage with
  | none => s
  | some i => s.setRequest i { s.request i with output := [] }

/-- The event `'close'`. -/
def close (j : ℕ) : Option Agent :=
  let k := s.socket j
  if k.destroyed && !k.closed then
    let t := s.setSocket j { k with closed := true }
    let t := if k.pooled then t.removeSocket j else t
    some (if k.closeListeners ≠ 0 then t.socketCloseListener j else t)
  else none

end Agent

/-! ### Steps -/

inductive Act
  /-- `new ClientRequest`. -/
  | request (method path : Str) (headers : HeadersArg) (name : Str)
  | setHeaders (i : ℕ) (headers : Headers)
  | addTrailers (i : ℕ) (headers : List (Str × Str))
  | write (i : ℕ) (chunk : Data) (encoding : EncArg)
  | «end» (i : ℕ) (data : Option Data) (encoding : EncArg)
  /-- The next callback of `process.nextTick` runs. -/
  | tick
  | response (j : ℕ) (shouldKeepAlive : Bool)
  | responseEnd (i : ℕ)
  | upgrade (j : ℕ)
  /-- By an error, `abort`, or the end of the socket. -/
  | destroy (j : ℕ)
  /-- The server has closed its side. -/
  | destroySoon (j : ℕ)
  | close (j : ℕ)
  | room (j : ℕ) (room : Bool)
  deriving DecidableEq

/-- A call of a request that has been made. -/
def Agent.method (s : Agent) (i : ℕ) (f : ClientRequest → ClientRequest) : Option Agent :=
  if i < s.nextRequest then some (s.call i f) else none

/-- An event of a socket that has been made. -/
def Agent.event (s : Agent) (j : ℕ) (t : Option Agent) : Option Agent :=
  if j < s.nextSocket then t else none

def step (s : Agent) (a : Act) : Option Agent :=
  match a with
  | .request method path headers name =>
    some ({ s.setRequest s.nextRequest (.new method path headers name) with
      nextRequest := s.nextRequest + 1 }.addRequest s.nextRequest)
  | .setHeaders i headers => s.method i (·.setHeaders headers)
  | .addTrailers i headers => s.method i (·.addTrailers headers)
  | .write i chunk encoding => s.method i (·.write chunk encoding)
  | .end i data encoding => s.method i (·.end data encoding)
  | .tick => s.tick
  | .response j shouldKeepAlive => s.event j (s.parserOnIncomingClient j shouldKeepAlive)
  | .responseEnd i => s.responseOnEnd i
  | .upgrade j => s.event j (s.upgrade j)
  | .destroy j => s.event j (some (s.destroy j))
  | .destroySoon j => s.event j (some (s.destroySoon j))
  | .close j => s.event j (s.close j)
  | .room j room => s.event j (some (s.setSocket j { s.socket j with room := room }))

end NodeCore.HttpAgent
