import NodeCore.HttpHeader
import NodeCore.PlainObject

/-!
`ServerResponse`: the headers set for it, its status, and the calls that send it.

Objects keep their keys in the order in which they have come; names that look like array indices,
which come first, are left out. A status code is a number.
-/

namespace NodeCore.HttpOutgoing

open NodeCore.Encoding NodeCore.Regex

/-! ### State -/

/-- What the constructor reads off a request. -/
structure Request where
  method : Str
  httpVersionMajor : ℕ
  httpVersionMinor : ℕ
  /-- `headers.te`. -/
  te : Option Str

structure ServerResponse extends Message where
  /-- `_headers`, each with its key, and with its name out of `_headerNames`. -/
  headers : Option (List (Str × Str × HeaderValue))
  expectContinue : Bool
  sent100 : Bool
  deriving DecidableEq

def ServerResponse.new (req : Request) : ServerResponse :=
  let old := req.httpVersionMajor < 1 || req.httpVersionMinor < 1
  { Message.new with
    hasBody := !(req.method = js "HEAD")
    sendDate := true
    useChunkedEncodingByDefault :=
      if old then test chunkExpression (req.te.getD (js "undefined")) else true
    shouldKeepAlive := !old
    statusCode := some 200
    headers := none
    expectContinue := false
    sent100 := false }

/-- `STATUS_CODES`. -/
def statusCodes : List (ℕ × String) :=
  [(100, "Continue"), (101, "Switching Protocols"), (102, "Processing"), (200, "OK"),
    (201, "Created"), (202, "Accepted"), (203, "Non-Authoritative Information"),
    (204, "No Content"), (205, "Reset Content"), (206, "Partial Content"), (207, "Multi-Status"),
    (300, "Multiple Choices"), (301, "Moved Permanently"), (302, "Moved Temporarily"),
    (303, "See Other"), (304, "Not Modified"), (305, "Use Proxy"), (307, "Temporary Redirect"),
    (400, "Bad Request"), (401, "Unauthorized"), (402, "Payment Required"), (403, "Forbidden"),
    (404, "Not Found"), (405, "Method Not Allowed"), (406, "Not Acceptable"),
    (407, "Proxy Authentication Required"), (408, "Request Time-out"), (409, "Conflict"),
    (410, "Gone"), (411, "Length Required"), (412, "Precondition Failed"),
    (413, "Request Entity Too Large"), (414, "Request-URI Too Large"),
    (415, "Unsupported Media Type"), (416, "Requested Range Not Satisfiable"),
    (417, "Expectation Failed"), (418, "I'm a teapot"), (422, "Unprocessable Entity"),
    (423, "Locked"), (424, "Failed Dependency"), (425, "Unordered Collection"),
    (426, "Upgrade Required"), (428, "Precondition Required"), (429, "Too Many Requests"),
    (431, "Request Header Fields Too Large"), (500, "Internal Server Error"),
    (501, "Not Implemented"), (502, "Bad Gateway"), (503, "Service Unavailable"),
    (504, "Gateway Time-out"), (505, "HTTP Version Not Supported"),
    (506, "Variant Also Negotiates"), (507, "Insufficient Storage"),
    (509, "Bandwidth Limit Exceeded"), (510, "Not Extended"),
    (511, "Network Authentication Required")]

def toString10 (n : ℕ) : Str := (Nat.toDigits 10 n).map fun c => UInt16.ofNat c.toNat

/-- `STATUS_CODES[statusCode] || 'unknown'`. -/
def reasonOf (statusCode : ℕ) : Str := js ((statusCodes.lookup statusCode).getD "unknown")

/-- The headers given to `writeHead`. -/
inductive HeadersArg
  | object (headers : Headers)
  | array (headers : Headers)
  deriving DecidableEq

def HeadersArg.toHeaders : HeadersArg → Headers
  | .object headers => headers
  | .array headers => headers

/-- `headers[key] = value`, which makes no property `__proto__`. -/
def setKey (headers : Headers) (key : Str) (value : HeaderValue) : Headers :=
  if key = js "__proto__" then headers else assign headers key value

/-- `headers[field]`, where there is something. -/
def valueAt (headers : Headers) (field : Str) : Option HeaderValue :=
  match headers.find? (·.1 = field) with
  | some h => some h.2
  | none => (objectPrototype.lookup field).map .one

/-- `writeHead` with headers of both kinds. -/
def mergeHeaders (headers : Headers) : HeadersArg → Headers
  | .array obj => obj ++ obj.filterMap fun h => (valueAt headers h.1).map fun v => (h.1, v)
  | .object obj => obj.foldl (fun hs h => if h.1 = [] then hs else setKey hs h.1 h.2) headers

namespace ServerResponse

variable (r : ServerResponse)

/-- `setHeader`, `none` where it throws. -/
def setHeader (name : Str) (value : HeaderValue) : Option ServerResponse :=
  if r.header ≠ [] then none
  else
    let key := toLowerCase name
    let headers := r.headers.getD []
    some { r with headers := some (
      if key = js "__proto__" then headers else assign headers key (name, value)) }

def removeHeader (name : Str) : Option ServerResponse :=
  if r.header ≠ [] then none
  else some { r with headers := r.headers.map (·.filter (·.1 ≠ toLowerCase name)) }

/-- `_renderHeaders`. -/
def renderHeaders : Option Headers :=
  if r.header ≠ [] then none
  else some (((r.headers.getD []).map Prod.snd).foldl (fun hs h => setKey hs h.1 h.2) [])

/-- The headers that `writeHead` stores. -/
def allHeaders (obj : Option HeadersArg) : Option Headers :=
  match obj, r.headers with
  | some obj, some _ => r.renderHeaders.map (mergeHeaders · obj)
  | none, some _ => r.renderHeaders
  | some obj, none => some obj.toHeaders
  | none, none => some []

/-- A status that goes without a body. -/
def noBody (statusCode : ℕ) : Bool :=
  statusCode = 204 || statusCode = 304 || (100 ≤ statusCode && statusCode ≤ 199)

def statusLine (statusCode : ℕ) (reasonPhrase : Option Str) : Str :=
  js "HTTP/1.1 " ++ toString10 statusCode ++ js " " ++
    reasonPhrase.getD (reasonOf statusCode) ++ crlf

/-- `writeHead`, `none` where it throws. -/
def writeHead (date : Str) (statusCode : ℕ) (reasonPhrase : Option Str) (obj : Option HeadersArg) :
    Option ServerResponse :=
  (r.allHeaders obj).map fun headers =>
    let r := { r with statusCode := some statusCode }
    let r := { r with
      hasBody := r.hasBody && !noBody statusCode
      shouldKeepAlive := r.shouldKeepAlive && !(r.expectContinue && !r.sent100) }
    { r with
      toMessage := r.toMessage.storeHeader (statusLine statusCode reasonPhrase) headers date }

/-- `_implicitHeader`, where no header has been stored. -/
def implicitHeader (date : Str) : ServerResponse :=
  if r.header = [] then (r.writeHead date (r.statusCode.getD 200) none none).getD r else r

/-- `write`. -/
def write (date : Str) (chunk : Data) (encoding : EncArg) : ServerResponse :=
  let r := r.implicitHeader date
  { r with toOutgoingMessage := (OutgoingMessage.write id r.toOutgoingMessage chunk encoding).1 }

/-- `addTrailers`, where the values are given as text. -/
def addTrailers (headers : List (Str × Str)) : ServerResponse :=
  { r with trailer := render headers }

/-- `end`. -/
def «end» (date : Str) (data : Option Data) (encoding : EncArg) : ServerResponse :=
  if r.finished then r
  else
    let r := r.implicitHeader date
    { r with toOutgoingMessage := (OutgoingMessage.end id r.toOutgoingMessage data encoding).1 }

/-- `assignSocket`. -/
def assignSocket (socket : Connection) : ServerResponse :=
  { r with toOutgoingMessage := r.toOutgoingMessage.assignSocket socket }

end ServerResponse

end NodeCore.HttpOutgoing
