import NodeCore.Loop
import NodeCore.Path

/-!
`fs.realpathSync` and `fs.realpath`, outside Windows, on a file system that does not change.

The loop of the one and the callbacks of the other share the state of a walk.
-/

namespace NodeCore.Realpath

open NodeCore.Encoding NodeCore.Path NodeCore.Loop

/-! ### What the system says -/

structure Stat where
  symbolicLink : Bool
  dev : ℕ
  ino : ℕ
  deriving DecidableEq

/-- The answers of a file system; the root is a directory. -/
structure System (E : Type) where
  cwd : Str
  absolute_cwd : absolute cwd = true
  lstat : Str → Except E Stat
  stat : Str → Except E Unit
  readlink : Str → Except E Str
  root : ∃ st, lstat [slash] = .ok st ∧ st.symbolicLink = false

abbrev Cache := Str → Option Str

/-! ### A walk -/

/-- `.` of a regular expression does not match it. -/
def terminator (c : UInt16) : Bool := c = 10 ∨ c = 13 ∨ c = 0x2028 ∨ c = 0x2029

/-- What `(.*?)` of `nextPartRe` matches, of what is before the next slash: the first place where
the expression matches is behind the last line terminator. -/
def part (name : Str) : Str := name.rtakeWhile fun c => !terminator c

structure Walk where
  p : Str
  pos : ℕ
  current : Str
  base : Str
  previous : Str
  seenLinks : ℕ × ℕ → Option Str
  knownHard : Str → Bool
  cache : Option Cache

namespace Walk

variable (w : Walk)

/-- `start`. -/
def start : Walk :=
  let root := w.p.takeWhile (· = slash)
  { w with pos := root.length, current := root, base := root, previous := [] }

/-- The walk of a resolved path. -/
def new (p : Str) (cache : Option Cache) : Walk :=
  start ⟨p, 0, [], [], [], fun _ => none, fun _ => false, cache⟩

/-- The next part. -/
def next : Walk :=
  let name := (w.p.drop w.pos).takeWhile (· ≠ slash)
  let slashes := ((w.p.drop w.pos).drop name.length).takeWhile (· = slash)
  { w with
    previous := w.current
    current := w.current ++ part name ++ slashes
    base := w.current ++ part name
    pos := w.pos + name.length + slashes.length }

/-- `cache[key] = value`, if there is a cache. -/
def record (key value : Str) : Walk :=
  { w with cache := w.cache.map fun cache => Function.update cache key (some value) }

def known : Bool := w.knownHard w.base || w.cache.any fun cache => cache w.base = some w.base

/-- What the cache has for `base`. -/
def cached : Option Str := w.cache.bind fun cache => cache w.base

/-- `base` is not a link. -/
def hard : Walk :=
  { w.record w.base w.base with knownHard := Function.update w.knownHard w.base true }

/-- Resolves the link, and starts over. -/
def jump {E : Type} (sys : System E) (resolvedLink : Str) : Walk :=
  start { w with p := resolve sys.cwd [resolvedLink, w.p.drop w.pos] }

def see (id : ℕ × ℕ) (linkTarget : Str) : Walk :=
  { w with seenLinks := Function.update w.seenLinks id (some linkTarget) }

/-- `pathModule.resolve(previous, linkTarget)`. -/
def resolveLink {E : Type} (sys : System E) (linkTarget : Str) : Str :=
  resolve sys.cwd [w.previous, linkTarget]

end Walk

/-! ### `realpathSync` -/

/-- What it returns or throws, and the cache then. -/
abbrev Result (E : Type) := Except E Str × Option Cache

variable {E : Type} (sys : System E)

/-- The target of the link at `base` is known. -/
def follow (w : Walk) (id : ℕ × ℕ) (linkTarget : Str) : Walk :=
  let resolvedLink := w.resolveLink sys linkTarget
  ((w.record w.base resolvedLink).see id linkTarget).jump sys resolvedLink

/-- The loop, for a part that is not known. -/
def visit (w : Walk) : Round Walk (Result E) :=
  match sys.lstat w.base with
  | .error e => .exit (.error e, w.cache)
  | .ok st =>
    if st.symbolicLink = false then .next w.hard
    else match w.seenLinks (st.dev, st.ino) with
      | some linkTarget => .next (follow sys w (st.dev, st.ino) linkTarget)
      | none =>
        match sys.stat w.base with
        | .error e => .exit (.error e, w.cache)
        | .ok _ =>
          match sys.readlink w.base with
          | .error e => .exit (.error e, w.cache)
          | .ok linkTarget => .next (follow sys w (st.dev, st.ino) linkTarget)

def body (original : Str) (w : Walk) : Round Walk (Result E) :=
  if w.p.length ≤ w.pos then .exit (.ok w.p, (w.record original w.p).cache)
  else
    let w := w.next
    if w.known then .next w
    else match w.cached with
      | some resolvedLink => .next (w.jump sys resolvedLink)
      | none => visit sys w

/-- What a round does, by what it finds at the next part. -/
inductive BodyCase (original : Str) (w : Walk) : Round Walk (Result E) → Prop
  | finished (h : w.p.length ≤ w.pos) :
      BodyCase original w (.exit (.ok w.p, (w.record original w.p).cache))
  | known (h : w.pos < w.p.length) (hk : w.next.known = true) : BodyCase original w (.next w.next)
  | cached (h : w.pos < w.p.length) (hk : w.next.known = false) (resolvedLink : Str)
      (hc : w.next.cached = some resolvedLink) :
      BodyCase original w (.next (w.next.jump sys resolvedLink))
  | lstat (h : w.pos < w.p.length) (hk : w.next.known = false) (hc : w.next.cached = none) (e : E)
      (hlstat : sys.lstat w.next.base = .error e) :
      BodyCase original w (.exit (.error e, w.next.cache))
  | hard (h : w.pos < w.p.length) (hk : w.next.known = false) (hc : w.next.cached = none)
      (st : Stat) (hlstat : sys.lstat w.next.base = .ok st) (hst : st.symbolicLink = false) :
      BodyCase original w (.next w.next.hard)
  | seen (h : w.pos < w.p.length) (hk : w.next.known = false) (hc : w.next.cached = none)
      (st : Stat) (hlstat : sys.lstat w.next.base = .ok st) (hst : st.symbolicLink = true)
      (linkTarget : Str) (hseen : w.next.seenLinks (st.dev, st.ino) = some linkTarget) :
      BodyCase original w (.next (follow sys w.next (st.dev, st.ino) linkTarget))
  | stat (h : w.pos < w.p.length) (hk : w.next.known = false) (hc : w.next.cached = none)
      (st : Stat) (hlstat : sys.lstat w.next.base = .ok st) (hst : st.symbolicLink = true)
      (hseen : w.next.seenLinks (st.dev, st.ino) = none) (e : E)
      (hstat : sys.stat w.next.base = .error e) :
      BodyCase original w (.exit (.error e, w.next.cache))
  | unread (h : w.pos < w.p.length) (hk : w.next.known = false) (hc : w.next.cached = none)
      (st : Stat) (hlstat : sys.lstat w.next.base = .ok st) (hst : st.symbolicLink = true)
      (hseen : w.next.seenLinks (st.dev, st.ino) = none) (hstat : sys.stat w.next.base = .ok ())
      (e : E) (hread : sys.readlink w.next.base = .error e) :
      BodyCase original w (.exit (.error e, w.next.cache))
  | read (h : w.pos < w.p.length) (hk : w.next.known = false) (hc : w.next.cached = none)
      (st : Stat) (hlstat : sys.lstat w.next.base = .ok st) (hst : st.symbolicLink = true)
      (hseen : w.next.seenLinks (st.dev, st.ino) = none) (hstat : sys.stat w.next.base = .ok ())
      (linkTarget : Str) (hread : sys.readlink w.next.base = .ok linkTarget) :
      BodyCase original w (.next (follow sys w.next (st.dev, st.ino) linkTarget))

lemma body_cases (original : Str) (w : Walk) :
    BodyCase sys original w (body sys original w) := by
  unfold body
  by_cases h : w.p.length ≤ w.pos
  · rw [if_pos h]
    exact .finished h
  rw [if_neg h]
  have h := not_le.mp h
  dsimp only
  cases hk : w.next.known with
  | true => exact .known h hk
  | false =>
    rw [if_neg Bool.false_ne_true]
    cases hc : w.next.cached with
    | some resolvedLink => exact .cached h hk resolvedLink hc
    | none =>
      dsimp only
      unfold visit
      cases hlstat : sys.lstat w.next.base with
      | error e => exact .lstat h hk hc e hlstat
      | ok st =>
        dsimp only
        cases hst : st.symbolicLink with
        | false => exact .hard h hk hc st hlstat hst
        | true =>
          rw [if_neg (Bool.noConfusion)]
          cases hseen : w.next.seenLinks (st.dev, st.ino) with
          | some linkTarget => exact .seen h hk hc st hlstat hst linkTarget hseen
          | none =>
            dsimp only
            cases hstat : sys.stat w.next.base with
            | error e => exact .stat h hk hc st hlstat hst hseen e hstat
            | ok _ =>
              dsimp only
              cases hread : sys.readlink w.next.base with
              | error e => exact .unread h hk hc st hlstat hst hseen hstat e hread
              | ok linkTarget => exact .read h hk hc st hlstat hst hseen hstat linkTarget hread

/-- `realpathSync` returns or throws. -/
def Returns (p : Str) (cache : Option Cache) (r : Result E) : Prop :=
  let p := resolve sys.cwd [p]
  match cache.bind fun cache => cache p with
  | some path => r = (.ok path, cache)
  | none => Exits (body sys p) (.new p cache) r

/-! ### `realpath` -/

/-- What is to be called back. -/
inductive Callback (E : Type)
  | loop | lstat
  | stat (id : ℕ × ℕ)
  | readlink (id : ℕ × ℕ)
  /-- `cb` itself. -/
  | cb (r : Except E Str)
  | none

structure Async (E : Type) where
  walk : Walk
  callback : Callback E
  /-- The calls of `cb`. -/
  calls : List (Except E Str)

namespace Async

variable {sys} (a : Async E)

/-- `return cb(..)`. -/
def call (r : Except E Str) : Async E := { a with callback := .none, calls := a.calls ++ [r] }

def gotResolvedLink (sys : System E) (resolvedLink : Str) : Async E :=
  { a with walk := a.walk.jump sys resolvedLink, callback := .loop }

/-- Without an error; `base` is the parameter, which may be left out. -/
def gotTarget (sys : System E) (target : Str) (base : Option Str) : Async E :=
  let resolvedLink := a.walk.resolveLink sys target
  { a with walk := a.walk.record (base.getD (js "undefined")) resolvedLink }.gotResolvedLink sys
    resolvedLink

/-- `LOOP`. -/
def loop (sys : System E) (original : Str) : Async E :=
  if a.walk.p.length ≤ a.walk.pos then
    { a with walk := a.walk.record original a.walk.p }.call (.ok a.walk.p)
  else
    let a := { a with walk := a.walk.next }
    if a.walk.known then { a with callback := .loop }
    else match a.walk.cached with
      | some resolvedLink => a.gotResolvedLink sys resolvedLink
      | none => { a with callback := .lstat }

def gotStat (sys : System E) : Except E Stat → Async E
  | .error e => a.call (.error e)
  | .ok st =>
    if st.symbolicLink = false then { a with walk := a.walk.hard, callback := .loop }
    else match a.walk.seenLinks (st.dev, st.ino) with
      | some target => a.gotTarget sys target (some a.walk.base)
      | none => { a with callback := .stat (st.dev, st.ino) }

/-- The callback of `fs.readlink`. -/
def gotLink (sys : System E) (id : ℕ × ℕ) : Except E Str → Async E
  | .error e => a.call (.error e)
  | .ok target => { a with walk := a.walk.see id target }.gotTarget sys target none

end Async

/-- What is called back next. -/
def turn (original : Str) (a : Async E) : Round (Async E) (List (Except E Str) × Option Cache) :=
  match a.callback with
  | .loop => .next (a.loop sys original)
  | .lstat => .next (a.gotStat sys (sys.lstat a.walk.base))
  | .stat id =>
    match sys.stat a.walk.base with
    | .error e => .next (a.call (.error e))
    | .ok _ => .next { a with callback := .readlink id }
  | .readlink id => .next (a.gotLink sys id (sys.readlink a.walk.base))
  | .cb r => .next (a.call r)
  | .none => .exit (a.calls, a.walk.cache)

/-- `realpath` calls back, and leaves the cache, when nothing is to be called any more. -/
def Calls (p : Str) (cache : Option Cache) (r : List (Except E Str) × Option Cache) : Prop :=
  let p := resolve sys.cwd [p]
  let callback := match cache.bind fun cache => cache p with
    | some path => Callback.cb (.ok path)
    | none => .loop
  Exits (turn sys p) ⟨.new p cache, callback, []⟩ r

/-! ### A chain of links -/

/-- Three links, each to the next, and a directory. -/
def chain : System Unit where
  cwd := js "/"
  absolute_cwd := rfl
  lstat path :=
    if path = js "/" ∨ path = js "/d" then .ok ⟨false, 1, 0⟩
    else if path = js "/a" then .ok ⟨true, 1, 1⟩
    else if path = js "/b" then .ok ⟨true, 1, 2⟩
    else if path = js "/c" then .ok ⟨true, 1, 3⟩
    else .error ()
  stat path :=
    if path = js "/" ∨ path = js "/a" ∨ path = js "/b" ∨ path = js "/c" ∨ path = js "/d" then .ok ()
    else .error ()
  readlink path :=
    if path = js "/a" then .ok (js "b")
    else if path = js "/b" then .ok (js "c")
    else if path = js "/c" then .ok (js "d")
    else .error ()
  root := ⟨⟨false, 1, 0⟩, rfl, rfl⟩

end NodeCore.Realpath
