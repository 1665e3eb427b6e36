import Mathlib.Data.List.DropRight
import NodeCore.UriComponent

/-!
`url.parse` and `url.format`.

A URL is cut from both ends: the protocol and the slashes, then, where there is a host, what
comes before the last `@` and what comes before the first unit that no host has, and from the
rest the hash and the search. `none` is an exception: the `URIError` of a text before the `@` that
cannot be decoded, or cannot be encoded again. `parseQueryString` is left out.
-/

namespace NodeCore.UrlParse

open Encoding Uri

/-- The part of the language that is a table, and the encoder of domain names. -/
structure Tables where
  /-- `String.prototype.toLowerCase` -/
  toLowerCase : Str → Str
  /-- `punycode.encode` -/
  encode : Str → Str

/-! ### Units and patterns -/

/-- What `String.prototype.trim` takes off. -/
def spaces : Str :=
  [9, 10, 11, 12, 13, 32, 0xA0, 0x1680, 0x180E, 0x2000, 0x2001, 0x2002, 0x2003, 0x2004, 0x2005,
    0x2006, 0x2007, 0x2008, 0x2009, 0x200A, 0x2028, 0x2029, 0x202F, 0x205F, 0x3000, 0xFEFF]

def isSpace (c : UInt16) : Bool := c ∈ spaces

def trim (s : Str) : Str := (s.dropWhile isSpace).rdropWhile isSpace

def delims : Str := js "<>\"` \x0d\n\t"

def unwise : Str := js "{}|\\^`" ++ delims

def autoEscape : Str := js "'" ++ unwise

def nonHostChars : Str := js "%/?;#" ++ autoEscape

def hostEndingChars : Str := js "/?#"

def hostnameMaxLen : ℕ := 255

def isLetter (c : UInt16) : Bool := (65 ≤ c ∧ c ≤ 90) ∨ (97 ≤ c ∧ c ≤ 122)

def isDigit (c : UInt16) : Bool := 48 ≤ c ∧ c ≤ 57

/-- `[a-z0-9.+-]`, in either case. -/
def isProtocolChar (c : UInt16) : Bool := isLetter c || isDigit c || c ∈ js ".+-"

/-- `[a-z0-9A-Z_-]` -/
def isHostnameChar (c : UInt16) : Bool := isLetter c || isDigit c || c ∈ js "_-"

/-- What `.` does not match. -/
def lineTerminators : Str := [10, 13, 0x2028, 0x2029]

/-- `/^([a-z0-9.+-]+:)/i`, and what follows the match. -/
def protocolPattern (s : Str) : Option (Str × Str) :=
  match s.dropWhile isProtocolChar with
  | 58 :: rest =>
    if s.takeWhile isProtocolChar = [] then none
    else some (s.takeWhile isProtocolChar ++ [58], rest)
  | _ => none

def hostlessProtocol (proto : Str) : Bool := proto = js "javascript" ∨ proto = js "javascript:"

/-- The same list as the last. -/
def unsafeProtocol (proto : Str) : Bool := proto = js "javascript" ∨ proto = js "javascript:"

def slashedProtocol (proto : Str) : Bool :=
  [js "http", js "https", js "ftp", js "gopher", js "file",
    js "http:", js "https:", js "ftp:", js "gopher:", js "file:"].any fun p => proto = p

/-- `[^@\/]` -/
def isUserChar (c : UInt16) : Bool := c ≠ 64 ∧ c ≠ 47

/-- `/^\/\/[^@\/]+@[^@\/]+/` -/
def userAtHost (s : Str) : Bool :=
  match s with
  | 47 :: 47 :: rest =>
    match rest.dropWhile isUserChar with
    | 64 :: c :: _ => rest.takeWhile isUserChar ≠ [] ∧ isUserChar c
    | _ => false
  | _ => false

/-- `lastIndexOf('@')`: what is before it and what is behind. -/
def cutLastAt : Str → Option (Str × Str)
  | [] => none
  | c :: s =>
    match cutLastAt s with
    | some (auth, rest) => some (c :: auth, rest)
    | none => if c = 64 then some ([], s) else none

/-- `/:[0-9]*$/`: what is before the match, and the digits. -/
def portPattern (host : Str) : Option (Str × Str) :=
  match host.reverse.dropWhile isDigit with
  | 58 :: rest => some (rest.reverse, host.rtakeWhile isDigit)
  | _ => none

/-- `/^[a-z0-9A-Z_-]{0,63}$/` -/
def hostnamePartPattern (part : Str) : Bool := part.all isHostnameChar ∧ part.length ≤ 63

/-- `/^([a-z0-9A-Z_-]{0,63})(.*)$/` -/
def hostnamePartStart (part : Str) : Option (Str × Str) :=
  let start := (part.takeWhile isHostnameChar).take 63
  let rest := part.drop start.length
  if ∃ c ∈ rest, c ∈ lineTerminators then none else some (start, rest)

/-- `split(c).join(esc)` -/
def replaceAll (c : UInt16) (esc s : Str) : Str := s.flatMap fun d => if d = c then esc else [d]

/-- `encodeURIComponent(ae)`, or `escape(ae)` where that changes nothing. -/
def escapeOf (ae : UInt16) : Str :=
  match encodeURIComponent [ae] with
  | some esc => if esc = [ae] then escaped ae.toUInt8 else esc
  | none => []

/-! ### The stages of `parse` -/

variable (T : Tables)

/-- What is known once the protocol and the slashes are off. -/
structure Front where
  proto : Option Str
  slashes : Bool
  /-- There is a hostname. -/
  hosted : Bool
  rest : Str

def takeProtocol (rest : Str) : Option Str × Str :=
  match protocolPattern rest with
  | some (proto, rest) => (some proto, rest)
  | none => (none, rest)

def startsWithSlashes (rest : Str) : Bool := rest.take 2 = [47, 47]

/-- `slashes` is read again further down, also where it was not set. -/
def front (url : Str) (slashesDenoteHost : Bool) : Front :=
  let (proto, rest) := takeProtocol (trim url)
  let slashes := (slashesDenoteHost || proto.isSome || userAtHost rest) && startsWithSlashes rest
  let hostless := proto.any hostlessProtocol
  ⟨proto, slashes && !hostless, !hostless && (slashes || proto.any fun p => !slashedProtocol p),
    if slashes && !hostless then rest.drop 2 else rest⟩

/-- The last `@` that no host-ending character comes before. -/
def splitAuth (rest : Str) : Option Str × Str :=
  match cutLastAt (rest.takeWhile (· ∉ hostEndingChars)) with
  | some (auth, host) => (some auth, host ++ rest.dropWhile (· ∉ hostEndingChars))
  | none => (none, rest)

/-- `Url.prototype.parseHost`: the port, and the hostname. -/
def parseHost (host : Str) : Option Str × Str :=
  match portPattern host with
  | some (host, port) => (if port = [] then none else some port, host)
  | none => (none, host)

def ipv6Hostname (hostname : Str) : Bool := hostname.head? = some 91 ∧ hostname.getLast? = some 93

/-- A unit that is not in ASCII counts as an `x`. -/
def placeholder (c : UInt16) : UInt16 := if 127 < c then 120 else c

def validPart (part : Str) : Bool :=
  part = [] || hostnamePartPattern part || hostnamePartPattern (part.map placeholder)

/-- The loop over the parts of the hostname: those that are kept, and, from the first that is not
valid, those that are not part of the host. -/
def validParts : List Str → List Str × List Str
  | [] => ([], [])
  | part :: hostparts =>
    if validPart part then
      let (valid, notHost) := validParts hostparts
      (part :: valid, notHost)
    else
      match hostnamePartStart part with
      | some (start, bit) => ([start], bit :: hostparts)
      | none => ([], hostparts)

/-- `join('.')` -/
def join (parts : List Str) : Str := [46].intercalate parts

/-- The hostname as far as it is valid, and the rest with what is not. -/
def validate (hostname rest : Str) : Str × Str :=
  let (valid, notHost) := validParts (hostname.splitOn 46)
  (join valid, if notHost = [] then rest else 47 :: join notHost ++ rest)

/-- IDNA, part by part. -/
def toASCII (hostname : Str) : Str :=
  join ((hostname.splitOn 46).map fun s =>
    if s.all isHostnameChar then s else js "xn--" ++ T.encode s)

/-- The host as it is printed, its brackets included, and what is left behind it. -/
structure Host where
  hostname : Str
  ipv6 : Bool
  rest : Str

/-- From the hostname as it is written to the one that is used. -/
def readHostname (hostname rest : Str) : Host :=
  let ipv6 := ipv6Hostname hostname
  let (hostname, rest) := if ipv6 then (hostname, rest) else validate hostname rest
  let hostname := if hostnameMaxLen < hostname.length then [] else T.toLowerCase hostname
  ⟨if ipv6 then hostname else toASCII T hostname, ipv6,
    if ipv6 ∧ rest.head? ≠ some 47 then 47 :: rest else rest⟩

/-- What is read where there is a hostname. -/
structure Authority extends Host where
  auth : Option Str
  port : Option Str

def readAuthority (rest : Str) : Option Authority :=
  let (auth, rest) := splitAuth rest
  let (port, hostname) := parseHost (rest.takeWhile (· ∉ nonHostChars))
  let host := readHostname T hostname (rest.dropWhile (· ∉ nonHostChars))
  match auth with
  | some auth => (decodeURIComponent auth).map fun auth => ⟨host, some auth, port⟩
  | none => some ⟨host, none, port⟩

def escapeRest (rest : Str) : Str :=
  autoEscape.foldl (fun rest ae => replaceAll ae (escapeOf ae) rest) rest

/-! ### The record, `format` and `parse` -/

/-- `Url`, with `none` for `null`. -/
structure Url where
  protocol : Option Str
  slashes : Bool
  auth : Option Str
  host : Option Str
  port : Option Str
  hostname : Option Str
  hash : Option Str
  search : Option Str
  query : Option Str
  pathname : Option Str
  path : Option Str
  href : Option Str

/-- `replace(/%3A/i, ':')`: the first one only. -/
def replaceColon : Str → Str
  | 37 :: 51 :: c :: s => if c = 65 ∨ c = 97 then 58 :: s else 37 :: replaceColon (51 :: c :: s)
  | c :: s => c :: replaceColon s
  | [] => []

def formatAuth (auth : Str) : Option Str :=
  if auth = [] then some []
  else (encodeURIComponent auth).map fun auth => replaceColon auth ++ [64]

/-- `host`, with `none` for `false`. -/
def formatHost (u : Url) (auth : Str) : Option Str :=
  let host := u.host.getD []
  let hostname := u.hostname.getD []
  if host ≠ [] then some (auth ++ host)
  else if hostname ≠ [] then
    some (auth ++ (if 58 ∉ hostname then hostname else 91 :: hostname ++ [93]) ++
      if u.port.getD [] = [] then [] else 58 :: u.port.getD [])
  else none

/-- `replace(/[?#]/g, encodeURIComponent)` -/
def escapePathname (pathname : Str) : Str :=
  pathname.flatMap fun c => if c = 63 ∨ c = 35 then escapeOf c else [c]

/-- `replace('#', '%23')`: the first one only. -/
def escapeSearch (search : Str) : Str :=
  match search.dropWhile (· ≠ 35) with
  | [] => search
  | _ :: rest => search.takeWhile (· ≠ 35) ++ js "%23" ++ rest

/-- `c` in front, unless it is there or there is nothing. -/
def withFirst (c : UInt16) (s : Str) : Str := if s ≠ [] ∧ s.head? ≠ some c then c :: s else s

/-- `Url.prototype.format`, where `query` is no object. -/
def format (u : Url) : Option Str :=
  (formatAuth (u.auth.getD [])).map fun auth =>
    let protocol := u.protocol.getD []
    let host := formatHost u auth
    let protocol :=
      if protocol ≠ [] ∧ protocol.getLast? ≠ some 58 then protocol ++ [58] else protocol
    let slashes := u.slashes || (protocol = [] || slashedProtocol protocol) && host.isSome
    let pathname := if slashes then withFirst 47 (u.pathname.getD []) else u.pathname.getD []
    let host := if slashes then [47, 47] ++ host.getD [] else host.getD []
    protocol ++ host ++ escapePathname pathname ++ escapeSearch (withFirst 63 (u.search.getD [])) ++
      withFirst 35 (u.hash.getD [])

def nonEmpty (s : Str) : Option Str := if s = [] then none else some s

/-- `this.host` -/
def Authority.host (a : Authority) : Str := a.hostname ++ a.port.elim [] fun port => 58 :: port

/-- `this.hostname`: without the brackets, which the host keeps. -/
def Authority.name (a : Authority) : Str := if a.ipv6 then a.hostname.tail.dropLast else a.hostname

/-- The parts of what is behind the host. -/
structure Tail where
  pathname : Str
  search : Str
  hash : Str

def cutTail (rest : Str) : Tail :=
  let hash := rest.dropWhile (· ≠ 35)
  let rest := rest.takeWhile (· ≠ 35)
  ⟨rest.takeWhile (· ≠ 63), rest.dropWhile (· ≠ 63), hash⟩

/-- The record, before `href` is filled in. -/
def fill (f : Front) (a : Option Authority) : Url :=
  let protocol := f.proto.map T.toLowerCase
  let rest := a.elim f.rest (·.rest)
  let tail := cutTail (if protocol.any unsafeProtocol then rest else escapeRest rest)
  let pathname :=
    if tail.pathname = [] ∧ f.proto.any slashedProtocol ∧ a.any (·.name ≠ []) then [47]
    else tail.pathname
  { protocol
    slashes := f.slashes
    auth := a.bind (·.auth)
    host := a.map (·.host)
    port := a.bind (·.port)
    hostname := a.map (·.name)
    hash := nonEmpty tail.hash
    search := nonEmpty tail.search
    query := (nonEmpty tail.search).map List.tail
    pathname := nonEmpty pathname
    path := nonEmpty (pathname ++ tail.search)
    href := none }

/-- `Url.prototype.parse` -/
def parse (url : Str) (slashesDenoteHost : Bool) : Option Url :=
  let f := front url slashesDenoteHost
  let a := if f.hosted then (readAuthority T f.rest).map some else some none
  a.bind fun a =>
    let u := fill T f a
    (format u).map fun href => { u with href := some href }

end NodeCore.UrlParse
