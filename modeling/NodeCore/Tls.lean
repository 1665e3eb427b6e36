import NodeCore.Encoding
import NodeCore.Regex

/-!
`checkServerIdentity`: the names of a certificate against a host.

A name becomes the source text of a regular expression. `regExp` reads such texts; what the
engine makes of one outside the part of the syntax it reads is a parameter.
-/

namespace NodeCore.Tls

open NodeCore.Encoding NodeCore.Regex

/-- What the function uses of the engine and of other modules. -/
structure Env where
  /-- `toUpperCase` of a code unit outside ASCII, as far as it gives a single unit. -/
  upper : UInt16 → UInt16
  /-- `new RegExp(source, 'i')` for other sources: the test, or a `SyntaxError`. -/
  otherRegExp : Str → Option (Str → Bool)
  /-- `net.isIP`. -/
  isIP : Str → Bool
  /-- `url.parse(s).hostname`; `none` is `null`. -/
  hostname : Str → Option Str

/-! ### The patterns -/

/-- The characters that `.` does not match. -/
def lineTerminator (c : UInt16) : Bool := c = 10 ∨ c = 13 ∨ c = 0x2028 ∨ c = 0x2029

def any (c : UInt16) : Bool := !lineTerminator c

/-- The `Canonicalize` of a case-insensitive match. -/
def canonicalize (env : Env) (c : UInt16) : UInt16 :=
  if c < 128 then (if 97 ≤ c ∧ c ≤ 122 then c - 32 else c)
  else if env.upper c < 128 then c
  else env.upper c

def lit (env : Env) (d : UInt16) : Term UInt16 :=
  .one fun c => canonicalize env c == canonicalize env d

/-- `[a-z0-9\-_]`, as a set of characters. -/
def wordSet : Str := js "abcdefghijklmnopqrstuvwxyz0123456789-_"

def word (env : Env) (c : UInt16) : Bool :=
  wordSet.any fun d => canonicalize env d == canonicalize env c

/-- The text `[a-z0-9\-_]*`, less its first character. -/
def wordTail : Str := js "a-z0-9\\-_]*"

/-- `[\.,\-\\\^\$+?*\[\]\(\):!\|{}]` -/
def special (c : UInt16) : Bool := js ".,-\\^$+?*[]():!|\x7b\x7d" |>.contains c

/-- Reads the text of a pattern. Escapes are of special characters only, the one class is
that of a word, and nothing else is repeated; `skip` characters have been read already. -/
def parse (env : Env) : ℕ → Str → Option (List (Term UInt16))
  | _, [] => some []
  | skip + 1, _ :: r => parse env skip r
  | 0, c :: r =>
    if c = 94 then (parse env 0 r).map (.bol :: ·)
    else if c = 36 then (parse env 0 r).map (.eol :: ·)
    else if c = 46 then (parse env 0 r).map (.one any :: ·)
    else if c = 91 then
      if wordTail.isPrefixOf r then (parse env wordTail.length r).map (.many (word env) :: ·)
      else none
    else if c = 92 then
      match r with
      | d :: _ => if special d then (parse env 1 r).map (lit env d :: ·) else none
      | [] => none
    else if special c then none
    else (parse env 0 r).map (lit env c :: ·)

/-- `new RegExp(source, 'i')`, as its `test`. -/
def regExp (env : Env) (source : Str) : Option (Str → Bool) :=
  match parse env 0 source with
  | some t => some (test t)
  | none => env.otherRegExp source

/-! ### `regexpify` -/

/-- `/\.$/.test(s)`. -/
def endsWithDot (s : Str) : Bool := s.getLast? == some 46

def uniform (host : Str) : Str := if endsWithDot host then host else host ++ [46]

def isStar (c : UInt16) : Bool := c = 42
def isDot (c : UInt16) : Bool := c = 46

/-- `/\*/` -/
def hasStar : List (Term UInt16) := [.one isStar]

/-- `/[\.\*].*\*/` -/
def lateStar : List (Term UInt16) :=
  [.one fun c => isDot c || isStar c, .many any, .one isStar]

/-- `/\*.*\..+\..+/` -/
def starTwoDots : List (Term UInt16) :=
  [.one isStar, .many any, .one isDot, .one any, .many any, .one isDot, .one any, .many any]

/-- `[a-z0-9\\-_\.]`, in which a range goes from the backslash to the underscore. -/
def afterStar (c : UInt16) : Bool :=
  (97 ≤ c ∧ c ≤ 122) ∨ (48 ≤ c ∧ c ≤ 57) ∨ (92 ≤ c ∧ c ≤ 95) ∨ c = 46

/-- The replacement of wildcards, and the escaping; `skip` characters belong to the latest
match. -/
def escape : ℕ → Str → Str
  | _, [] => []
  | skip + 1, _ :: r => escape skip r
  | 0, c :: r =>
    match c == 42, r with
    | true, sub :: _ =>
      if afterStar sub then
        91 :: wordTail ++ (if sub = 45 then [92, 45] else [sub]) ++ escape 1 r
      else 92 :: c :: escape 0 r
    | _, _ => if special c then 92 :: c :: escape 0 r else c :: escape 0 r

def regexpify (env : Env) (host : Str) (wildcards : Bool) : Option (Str → Bool) :=
  let host := uniform host
  if !wildcards && test hasStar host || test lateStar host ||
      test hasStar host && !test starTwoDots host then
    some (test [.eol, .one any])
  else regExp env (94 :: escape 0 host ++ [36])

/-! ### `checkServerIdentity` -/

inductive CommonName
  | missing
  | one (s : Str)
  | many (l : List Str)

structure Cert where
  /-- Empty where there is none. -/
  subjectaltname : Str
  CN : CommonName

/-- `s.split(/, /g)`; `skip` characters belong to the latest separator. -/
def splitComma : ℕ → Str → List Str
  | _, [] => [[]]
  | skip + 1, _ :: r => splitComma skip r
  | 0, c :: r =>
    if c = 44 ∧ r.head? = some 32 then [] :: splitComma 1 r
    else match splitComma 0 r with
      | h :: t => (c :: h) :: t
      | [] => [[c]]

/-- The names that start with a prefix, without it. -/
def withPrefix (p : Str) (names : List Str) : List Str :=
  names.filterMap fun a => if p.isPrefixOf a then some (a.drop p.length) else none

def altnames (cert : Cert) : List Str :=
  if cert.subjectaltname = [] then [] else splitComma 0 cert.subjectaltname

def dnsNames (cert : Cert) : List Str := withPrefix (js "DNS:") (altnames cert)
def ips (cert : Cert) : List Str := withPrefix (js "IP Address:") (altnames cert)

/-- A missing host name is turned into a string later. -/
def uriNames (env : Env) (cert : Cert) : List Str :=
  (withPrefix (js "URI:") (altnames cert)).map fun u => (env.hostname u).getD (js "null")

def commonNames (cert : Cert) : List Str :=
  match cert.CN with
  | .missing => [js "undefined"]
  | .one s => [s]
  | .many l => l

/-- `none` is the `SyntaxError` of a pattern. -/
def checkServerIdentity (env : Env) (host : Str) (cert : Cert) : Option Bool :=
  if env.isIP host then some ((ips cert).any (· == host))
  else do
    let dns ← (dnsNames cert).mapM fun name => regexpify env name true
    let uris ← (uriNames env cert).mapM fun name => regexpify env name false
    let names := dns ++ uris
    let names ←
      if names = [] then (commonNames cert).mapM fun name => regexpify env name true
      else some names
    return names.any fun re => re (uniform host)

end NodeCore.Tls
