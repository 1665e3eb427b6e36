import NodeCore.PlainObject

/-!
The HTTP parser between its C callbacks and the messages it delivers.

The native half collects the pieces of the URL and of the header lines, and hands them to
JavaScript at once, at the end of the headers, or in batches when there are too many or when
they are trailers. What the tokenizer calls, and how it cuts the pieces, is arbitrary here.
-/

namespace NodeCore.HttpParser

open NodeCore.Encoding

/-! ### `IncomingMessage` -/

inductive HeaderValue
  | one (s : Str)
  | many (l : List Str)
  deriving DecidableEq

/-- A headers object, in the order of its insertions. -/
abbrev Headers := List (Str × HeaderValue)

/-- What the tokenizer knows at the end of the headers. -/
structure Info where
  method : Option Str
  statusCode : ℕ
  versionMajor : ℕ
  versionMinor : ℕ
  upgrade : Bool
  deriving DecidableEq

structure IncomingMessage where
  info : Info
  url : Str
  headers : Headers
  trailers : Headers
  complete : Bool
  deriving DecidableEq

/-- The headers whose values are joined with commas. -/
def commaSeparated : List Str :=
  ["accept", "accept-charset", "accept-encoding", "accept-language", "connection", "cookie",
    "pragma", "link", "www-authenticate", "proxy-authenticate", "sec-websocket-extensions",
    "sec-websocket-protocol"].map js

def Headers.set (dest : Headers) (field : Str) (v : HeaderValue) : Headers :=
  dest.map fun h => if h.1 = field then (field, v) else h

/-- The switch of `_addHeaderLine`, with the name in lower case. -/
def addField (dest : Headers) (field value : Str) : Headers :=
  if field = js "set-cookie" then
    match dest.lookup field with
    | some (.many l) => dest.set field (.many (l ++ [value]))
    | some (.one _) => dest
    | none => dest ++ [(field, .many [value])]
  else if field ∈ commaSeparated ∨ (js "x-").isPrefixOf field then
    match dest.lookup field with
    | some (.one s) => dest.set field (.one (s ++ js ", " ++ value))
    | some (.many _) => dest
    | none => dest ++ [(field, .one value)]
  else if (dest.lookup field).isSome ∨ field ∈ inherited then dest
  else dest ++ [(field, .one value)]

def addLine (dest : Headers) (field value : Str) : Headers :=
  addField dest (toLowerCase field) value

/-- `_addHeaderLine`: the lines of a complete message are its trailers. -/
def IncomingMessage.addHeaderLine (m : IncomingMessage) (line : Str × Str) : IncomingMessage :=
  if m.complete then { m with trailers := addLine m.trailers line.1 line.2 }
  else { m with headers := addLine m.headers line.1 line.2 }

/-! ### The parser -/

structure Parser where
  /-- `url_` -/
  nativeUrl : Bytes
  /-- `fields_`, as far as `num_fields_`. -/
  fields : List Bytes
  /-- `values_`, as far as `num_values_`. -/
  values : List Bytes
  haveFlushed : Bool
  /-- `_headers`, by pairs. -/
  headers : List (Str × Str)
  /-- `_url` -/
  url : Str
  maxHeaderPairs : ℤ
  /-- `incoming` is not `null`: then it is the message delivered last. -/
  incoming : Bool
  delivered : List IncomingMessage
  deriving DecidableEq

/-- A parser after `Init`, on a new connection. -/
def Parser.init (maxHeaderPairs : ℤ) : Parser where
  nativeUrl := []
  fields := []
  values := []
  haveFlushed := false
  headers := []
  url := []
  maxHeaderPairs := maxHeaderPairs
  incoming := false
  delivered := []

/-- `Update` of the last of the strings. -/
def updateLast (l : List Bytes) (at_ : Bytes) : List Bytes :=
  match l.getLast? with
  | some s => l.dropLast ++ [s ++ at_]
  | none => l

namespace Parser

/-- `CreateHeaders`. -/
def createHeaders (p : Parser) : List (Str × Str) :=
  (p.fields.zip p.values).map fun h => (utf8Slice h.1, utf8Slice h.2)

/-- `parserOnHeaders`. -/
def onHeaders (p : Parser) (headers : List (Str × Str)) (url : Str) : Parser :=
  { p with
    headers :=
      if p.maxHeaderPairs ≤ 0 ∨ 2 * (p.headers.length : ℤ) < p.maxHeaderPairs then
        p.headers ++ headers
      else p.headers
    url := p.url ++ url }

/-- `Flush`. -/
def flush (p : Parser) : Parser :=
  { p.onHeaders p.createHeaders (utf8Slice p.nativeUrl) with
    nativeUrl := []
    haveFlushed := true }

def onMessageBegin (p : Parser) : Parser := { p with nativeUrl := [], fields := [], values := [] }

def onUrl (p : Parser) (at_ : Bytes) : Parser := { p with nativeUrl := p.nativeUrl ++ at_ }

/-- There are 32 places, and the last one is never used. -/
def onHeaderField (p : Parser) (at_ : Bytes) : Parser :=
  if p.fields.length = p.values.length then
    if p.fields.length + 1 = 32 then { p.flush with fields := [at_], values := [] }
    else { p with fields := p.fields ++ [at_] }
  else { p with fields := updateLast p.fields at_ }

def onHeaderValue (p : Parser) (at_ : Bytes) : Parser :=
  if p.values.length ≠ p.fields.length then { p with values := p.values ++ [at_] }
  else { p with values := updateLast p.values at_ }

/-- The number of header lines that count. -/
def limit (p : Parser) (n : ℕ) : ℕ :=
  if 0 < p.maxHeaderPairs then min n ((p.maxHeaderPairs.toNat + 1) / 2) else n

/-- `parserOnHeadersComplete`, with the headers and the URL of its `info`, if they are set. -/
def headersComplete (p : Parser) (info : Info) (given : Option (List (Str × Str) × Str)) :
    Parser :=
  let headers := (given.map Prod.fst).getD p.headers
  let p := if given.isNone then { p with headers := [] } else p
  -- an empty URL counts as none
  let noUrl := (given.map Prod.snd).getD [] = []
  let url := if noUrl then p.url else (given.map Prod.snd).getD []
  let p := if noUrl then { p with url := [] } else p
  let m : IncomingMessage := ⟨info, url, [], [], false⟩
  let m := (headers.take (p.limit headers.length)).foldl IncomingMessage.addHeaderLine m
  { p with incoming := true, delivered := p.delivered ++ [m] }

/-- `on_headers_complete`. A response has no URL of its own. -/
def onHeadersComplete (p : Parser) (info : Info) : Parser :=
  let p :=
    if p.haveFlushed then p.flush.headersComplete info none
    else p.headersComplete info
      (some (p.createHeaders, if info.method.isSome then utf8Slice p.nativeUrl else []))
  { p with fields := [], values := [] }

/-- The message is done: its trailers are added. -/
def finishLast (delivered : List IncomingMessage) (trailers : List (Str × Str)) :
    List IncomingMessage :=
  match delivered.getLast? with
  | some m =>
    delivered.dropLast ++ [trailers.foldl IncomingMessage.addHeaderLine { m with complete := true }]
  | none => delivered

/-- `parserOnMessageComplete`. -/
def messageComplete (p : Parser) : Parser :=
  if p.incoming then
    { p with delivered := finishLast p.delivered p.headers, headers := [], url := [] }
  else p

/-- `on_message_complete`. -/
def onMessageComplete (p : Parser) : Parser :=
  (if p.fields ≠ [] then p.flush else p).messageComplete

/-- `_dump` of this or of an earlier message. -/
def dump (p : Parser) : Parser := { p with incoming := false }

end Parser

/-! ### Messages -/

/-- What happens between the beginning and the end of a message, the end of its headers
apart. The body does not touch the parser. -/
inductive Event
  | url (at_ : Bytes)
  | field (at_ : Bytes)
  | value (at_ : Bytes)
  | body
  | dump
  deriving DecidableEq

def Parser.event (p : Parser) : Event → Parser
  | .url b => p.onUrl b
  | .field b => p.onHeaderField b
  | .value b => p.onHeaderValue b
  | .body => p
  | .dump => p.dump

/-- A message as the tokenizer reports it. -/
structure Message where
  head : List Event
  info : Info
  rest : List Event
  /-- A response has no URL. -/
  noUrl : info.method = none → ∀ b, Event.url b ∉ head

/-- A message up to some event after its headers. -/
def Parser.progress (p : Parser) (m : Message) : Parser :=
  m.rest.foldl Parser.event
    ((m.head.foldl Parser.event p.onMessageBegin).onHeadersComplete m.info)

def Parser.message (p : Parser) (m : Message) : Parser := (p.progress m).onMessageComplete

end NodeCore.HttpParser
