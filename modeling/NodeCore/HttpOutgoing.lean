import NodeCore.Encoding

/-!
`OutgoingMessage`: the output queue of an HTTP message and the ways into it.

A connection is seen through the calls made to its `write`, in order. The arrays `output` and
`outputEncodings`, which change only together, are one list of pairs.
-/

namespace NodeCore.HttpOutgoing

open NodeCore.Encoding

/-- A piece of output with the encoding it was given. -/
abbrev Entry := Data × EncArg

structure Connection where
  /-- `connection._httpMessage` is this message. -/
  mine : Bool
  writable : Bool
  destroyed : Bool
  corked : ℕ
  /-- What its `write` returns. -/
  room : Bool
  /-- The calls of its `write`. -/
  written : List Entry
  deriving DecidableEq

def Connection.write (c : Connection) (data : Data) (encoding : EncArg) : Connection :=
  { c with written := c.written ++ [(data, encoding)] }

def Connection.cork (c : Connection) : Connection := { c with corked := c.corked + 1 }
def Connection.uncork (c : Connection) : Connection := { c with corked := c.corked - 1 }

inductive Event
  | finish | drain
  /-- The `TypeError` of reading `_httpMessage` off a missing connection. -/
  | threw
  deriving DecidableEq

structure OutgoingMessage where
  output : List Entry
  chunkedEncoding : Bool
  hasBody : Bool
  trailer : Str
  finished : Bool
  /-- Empty until the header has been stored. -/
  header : Str
  headerSent : Bool
  /-- The socket, which is also the connection. -/
  connection : Option Connection
  emitted : List Event
  deriving DecidableEq

/-- The state the constructor leaves. -/
def OutgoingMessage.new : OutgoingMessage where
  output := []
  chunkedEncoding := false
  hasBody := true
  trailer := []
  finished := false
  header := []
  headerSent := false
  connection := none
  emitted := []

def crlf : Str := js "\r\n"
def crlfBuf : Data := .buf (writeUtf8 crlf)

/-- `len.toString(16)`. -/
def toString16 (n : ℕ) : Str := (Nat.toDigits 16 n).map fun c => UInt16.ofNat c.toNat

def truthy : EncArg → Bool
  | none | some [] => false
  | some _ => true

def isStr : Data → Bool
  | .str _ => true
  | .buf _ => false

/-- A chunk as an operand of `+`: a Buffer goes through its `toString`. -/
def text : Data → Str
  | .str s => s
  | .buf b => utf8Slice b

/-- The test of `_buffer` for appending a string to the last entry. -/
def joins (last : Entry) (encoding : EncArg) : Bool :=
  (truthy encoding && last.2 == encoding) || (!truthy encoding && isStr last.1)

/-- What `_buffer` does to the queue. -/
def enqueue (q : List Entry) (data : Data) (encoding : EncArg) : List Entry :=
  match data, q.getLast? with
  | .str s, some last =>
    if joins last encoding then q.dropLast ++ [(.str (text last.1 ++ s), last.2)]
    else q ++ [(data, encoding)]
  | _, _ => q ++ [(data, encoding)]

namespace OutgoingMessage

/-- `_buffer`. -/
def buffer (m : OutgoingMessage) (data : Data) (encoding : EncArg) : OutgoingMessage :=
  if data.length = 0 then m else { m with output := enqueue m.output data encoding }

end OutgoingMessage

/-- The loop of `_writeRaw` and of `_flush`, with the entries it leaves. -/
def shiftOut (c : Connection) : List Entry → Connection × List Entry
  | [] => (c, [])
  | x :: q => if c.writable then shiftOut (c.write x.1 x.2) q else (c, x :: q)

namespace OutgoingMessage

/-- `_writeRaw`. -/
def writeRaw (m : OutgoingMessage) (data : Data) (encoding : EncArg) : OutgoingMessage × Bool :=
  if data.length = 0 then (m, true)
  else match m.connection with
    | none => (m.buffer data encoding, false)
    | some c =>
      if c.mine && c.writable && !c.destroyed then
        let r := shiftOut c m.output
        let m := { m with connection := some r.1, output := r.2 }
        -- the connection stopped being writable while the queue went out
        if r.2 ≠ [] then (m.buffer data encoding, false)
        else ({ m with connection := some (r.1.write data encoding) }, c.room)
      else if c.destroyed then (m, false)
      else (m.buffer data encoding, false)

/-- `_send`. -/
def send (m : OutgoingMessage) (data : Data) (encoding : EncArg) : OutgoingMessage × Bool :=
  if m.headerSent then m.writeRaw data encoding
  else match data with
    | .str s => { m with headerSent := true }.writeRaw (.str (m.header ++ s)) encoding
    | .buf b =>
      { m with headerSent := true
               output := (.str m.header, some (js "ascii")) :: m.output }.writeRaw (.buf b) encoding

def cork (m : OutgoingMessage) : OutgoingMessage :=
  { m with connection := m.connection.map Connection.cork }
def uncork (m : OutgoingMessage) : OutgoingMessage :=
  { m with connection := m.connection.map Connection.uncork }

/-- The second branch of the chunked case of `write`: the chunk in four sends. -/
def sendParts (m : OutgoingMessage) (chunk : Data) : OutgoingMessage × Bool :=
  let m := m.cork
  let m := (m.send (.str (toString16 chunk.length)) none).1
  let m := (m.send crlfBuf none).1
  let m := (m.send chunk none).1
  let r := m.send crlfBuf none
  (r.1.uncork, r.2)

/-- The names for which a string takes the second branch. -/
def unfriendly (encoding : EncArg) : Bool :=
  encoding == some (js "hex") || encoding == some (js "base64") || encoding == some (js "binary")

variable (implicitHeader : OutgoingMessage → OutgoingMessage)

/-- `write`, over the `_implicitHeader` of the subclass. -/
def write (m : OutgoingMessage) (chunk : Data) (encoding : EncArg) : OutgoingMessage × Bool :=
  let m := if m.header = [] then implicitHeader m else m
  if !m.hasBody then (m, true)
  else if chunk.length = 0 then (m, true)
  else if m.chunkedEncoding then
    match chunk with
    | .str s =>
      if unfriendly encoding then m.sendParts chunk
      else
        m.send (.str (toString16 (byteLength s encoding) ++ crlf ++ s ++ crlf)) encoding
    | .buf _ => m.sendParts chunk
  else m.send chunk encoding

/-- `_finish`. -/
def finish (m : OutgoingMessage) : OutgoingMessage := { m with emitted := m.emitted ++ [.finish] }

/-- The last statement of `end`. -/
def finishIfOut (m : OutgoingMessage) : OutgoingMessage :=
  if m.output ≠ [] then m
  else match m.connection with
    | none => { m with emitted := m.emitted ++ [.threw] }
    | some c => if c.mine then m.finish else m

/-- A chunk given to `end` that counts as given: the empty string does not. -/
def given : Option Data → Option Data
  | some (.str []) | none => none
  | some d => some d

/-- `end`. -/
def «end» (m : OutgoingMessage) (data : Option Data) (encoding : EncArg) :
    OutgoingMessage × Bool :=
  if m.finished then (m, false)
  else
    let m := if m.header = [] then implicitHeader m else m
    let data := if m.hasBody then given data else none
    let m := if data.isSome then m.cork else m
    let m :=
      match data with
      | some d => (write implicitHeader m d encoding).1
      | none => m
    let r :=
      if m.chunkedEncoding then m.send (.str (js "0\r\n" ++ m.trailer ++ js "\r\n")) none
      else m.send (.str []) none
    let m := if data.isSome then r.1.uncork else r.1
    ({ m with finished := true }.finishIfOut, r.2)

/-- `_flush`. -/
def flush (m : OutgoingMessage) : OutgoingMessage :=
  match m.connection with
  | none => m
  | some c =>
    let r := shiftOut c m.output
    let m' := { m with connection := some r.1, output := r.2 }
    if r.2 ≠ [] then m'
    else if m.finished then m'.finish
    else if m.output ≠ [] ∧ c.room then { m' with emitted := m'.emitted ++ [.drain] }
    else m'

/-- `assignSocket` of a server response. -/
def assignSocket (m : OutgoingMessage) (socket : Connection) : OutgoingMessage :=
  { m with connection := some { socket with mine := true } }.flush

/-- `writeContinue` of a server response. -/
def writeContinue (m : OutgoingMessage) : OutgoingMessage :=
  (m.writeRaw (.str (js "HTTP/1.1 100 Continue" ++ crlf ++ crlf)) (some (js "ascii"))).1

end OutgoingMessage

end NodeCore.HttpOutgoing
