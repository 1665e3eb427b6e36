import NodeCore.StringDecoderUtf8

/-!
The channel between a process and its child: one end of it, with the code of `setupChannel`.

The loop of `channel.onread` takes one step for each line, so that what the listeners on
`'message'` call comes between two of them. A handle arrives with its message.
-/

namespace NodeCore.Ipc

open NodeCore.Encoding NodeCore.StringDecoder

/-! ### Messages -/

/-- What can be sent along, by the names in `handleConversion`. -/
inductive HandleType
  | netNative | netServer | netSocket | dgramNative | dgramSocket
  deriving DecidableEq

/-- What goes over the channel. -/
inductive Wire (M : Type)
  | plain (message : M)
  /-- `NODE_HANDLE`. -/
  | handle (type : HandleType) (message : M)
  /-- `NODE_HANDLE_ACK`. -/
  | ack
  deriving DecidableEq

def Wire.isHandle {M : Type} : Wire M → Bool
  | .handle _ _ => true
  | _ => false

/-- The message of the user in it. -/
def Wire.user {M : Type} : Wire M → Option M
  | .plain m => some m
  | .handle _ m => some m
  | .ack => none

/-- There is no lone surrogate in it. -/
def WellFormed (s : Str) : Prop := ∃ chars : List Char, s = chars.flatMap charUnits

/-- `JSON`. -/
structure Json (M : Type) where
  stringify : Wire M → Str
  parse : Str → Option (Wire M)
  parse_stringify : ∀ w, parse (stringify w) = some w
  oneLine : ∀ w, 10 ∉ stringify w
  ack : WellFormed (stringify .ack)

/-- What `send` writes for a message. -/
def Json.line {M : Type} (json : Json M) (w : Wire M) : Str := json.stringify w ++ [10]

def Json.bytes {M : Type} (json : Json M) (w : Wire M) : Bytes := writeUtf8 (json.line w)

/-- Two messages, with a letter for each way to send one of them. -/
def letter : Wire Bool → Char
  | .plain m => bif m then 'P' else 'p'
  | .handle .netNative m => bif m then 'N' else 'n'
  | .handle .netServer m => bif m then 'S' else 's'
  | .handle .netSocket m => bif m then 'C' else 'c'
  | .handle .dgramNative m => bif m then 'D' else 'd'
  | .handle .dgramSocket m => bif m then 'U' else 'u'
  | .ack => 'a'

def letters : Json Bool where
  stringify w := charUnits (letter w)
  parse s := (.ack :: [false, true].flatMap fun m => [.plain m, .handle .netNative m,
    .handle .netServer m, .handle .netSocket m, .handle .dgramNative m,
    .handle .dgramSocket m]).find? fun w => charUnits (letter w) = s
  parse_stringify w := by
    rcases w with ⟨_ | _⟩ | ⟨_ | _ | _ | _ | _, _ | _⟩ | _ <;> decide
  oneLine w := by
    rcases w with ⟨_ | _⟩ | ⟨_ | _ | _ | _ | _, _ | _⟩ | _ <;> decide
  ack := ⟨['a'], rfl⟩

/-- Why `'error'` is emitted. -/
inductive Fault
  | channelClosed | alreadyDisconnected
  deriving DecidableEq

inductive Event (M : Type)
  /-- `'message'`, or `'internalMessage'` by its `cmd`. -/
  | message (m : M)
  | disconnect
  /-- `'error'`, and whether the end of the channel is being handled. -/
  | error (fault : Fault) (atEof : Bool)
  deriving DecidableEq

/-! ### One end -/

structure Target (M : Type) where
  connected : Bool
  handleQueue : Option (List (Wire M))
  decoder : Decoder
  /-- `jsonBuffer`, from `start` on. -/
  jsonBuffer : Str
  /-- The loop of `onread` runs. -/
  looping : Bool
  buffering : Bool
  /-- `finish` listens on `'message'` and `'internalMessage'`. -/
  finishing : Bool
  /-- The channel is closed. -/
  closed : Bool
  /-- The messages of servers that are not listening yet. -/
  servers : List M
  /-- In a worker of a cluster `listen` asks the master. -/
  worker : Bool
  /-- What has been written to the channel. -/
  written : List (Wire M)
  /-- What has been emitted. -/
  log : List (Event M)
  /-- An assertion has failed, or `JSON.parse` or the decoder has thrown. -/
  crashed : Bool

def Target.new (M : Type) (worker : Bool) : Target M where
  connected := true
  handleQueue := none
  decoder := .new
  jsonBuffer := []
  looping := false
  buffering := false
  finishing := false
  closed := false
  servers := []
  worker := worker
  written := []
  log := []
  crashed := false

/-- `jsonBuffer.indexOf('\n')`: the text before it, and behind it. -/
def takeLine : Str → Option (Str × Str)
  | [] => none
  | c :: s => if c = 10 then some ([], s) else (takeLine s).map fun r => (c :: r.1, r.2)

namespace Target

variable {M : Type} (t : Target M)

def emit (e : Event M) : Target M := { t with log := t.log ++ [e] }

/-- `target.send`. While an acknowledgement is waited for, everything is queued. -/
def send (w : Wire M) : Target M :=
  if !t.connected then t.emit (.error .channelClosed false)
  else match t.handleQueue with
    | some queue => { t with handleQueue := some (queue ++ [w]) }
    | none => { t with
        written := t.written ++ [w]
        handleQueue := if w.isHandle then some [] else none }

/-- `finish`. -/
def finish : Target M := { t with finishing := false, closed := true }.emit .disconnect

/-- The listeners behind those of the code and the user. -/
def finishIf : Target M := if t.finishing && !t.crashed then t.finish else t

/-- `target.disconnect`. -/
def disconnect (atEof : Bool) : Target M :=
  if !t.connected then t.emit (.error .alreadyDisconnected atEof)
  else
    let t := { t with connected := false }
    if t.buffering then { t with finishing := true } else t.finish

/-- An acknowledgement: what is queued is sent. -/
def drain : Target M :=
  match t.handleQueue with
  | none => { t with crashed := true }
  | some queue => queue.foldl send { t with handleQueue := none }

/-- `handleMessage` of a message of the user. -/
def emitMessage (m : M) : Target M := (t.emit (.message m)).finishIf

/-- `got`: only a server, which has to listen first, is emitted later. -/
def got (type : HandleType) (m : M) : Target M :=
  if type = .netServer then { t with servers := t.servers ++ [m] } else t.emitMessage m

/-- `handleMessage`. -/
def handle : Wire M → Target M
  | .plain m => t.emitMessage m
  | .ack => t.drain.finishIf
  | .handle type m => ((t.send .ack).got type m).finishIf

/-- The servers begin to listen in the next tick. -/
def tick : Target M :=
  if t.worker then t else t.servers.foldl emitMessage { t with servers := [] }

/-- `channel.onread` with a chunk, up to the loop. -/
def read (chunk : Bytes) : Target M :=
  match StringDecoder.write utf8 t.decoder chunk with
  | (some text, d) =>
    { t with decoder := d, jsonBuffer := t.jsonBuffer ++ text, looping := true }
  | (none, _) => { t with crashed := true }

/-- One round of the loop, or what comes after it. -/
def line (json : Json M) : Target M :=
  match takeLine t.jsonBuffer with
  | some (text, rest) =>
    match json.parse text with
    | some w => { t with jsonBuffer := rest }.handle w
    | none => { t with crashed := true }
  | none => { t with looping := false, buffering := t.jsonBuffer ≠ [] }.tick

/-- `channel.onread` at the end. -/
def eof : Target M := { { t with buffering := false }.disconnect true with closed := true }

/-- In a worker, the server of place `i` has begun to listen. -/
def listening (i : ℕ) : Target M :=
  match t.servers[i]? with
  | some m => { t with servers := t.servers.eraseIdx i }.emitMessage m
  | none => t

end Target

/-- What happens at one end. -/
inductive Act (M : Type)
  | read (chunk : Bytes)
  | line
  | eof
  | send (m : M) (handle : Option HandleType)
  | disconnect
  | listening (i : ℕ)

/-- The message with its handle. -/
def toWire {M : Type} (m : M) : Option HandleType → Wire M
  | none => .plain m
  | some type => .handle type m

/-- A closed channel reads no more; the loop runs to its end. -/
def step {M : Type} (json : Json M) (t : Target M) (a : Act M) : Target M :=
  if t.crashed then t
  else match a with
    | .read chunk => if t.looping || t.closed then t else t.read chunk
    | .line => if t.looping then t.line json else t
    | .eof => if t.looping || t.closed then t else t.eof
    | .send m handle => t.send (toWire m handle)
    | .disconnect => t.disconnect false
    | .listening i => if t.looping || !t.worker then t else t.listening i

end NodeCore.Ipc
