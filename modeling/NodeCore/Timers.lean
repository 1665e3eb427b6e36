import NodeCore.Linklist
import NodeCore.Reentrant

/-!
Timers (`timers.js`). All items with one delay share a list and its handle; items that do not
keep the loop alive share `unrefList`, which is sorted.

The callbacks are code that is not known: it may call any function again, return or throw. A frame
is what is left of a function of this module when it stops at a callback or goes round a loop.
-/

namespace NodeCore.Timers

open NodeCore.Linklist Function

/-! ### State -/

inductive Obj
  /-- A `Timer` that is a list. -/
  | list (n : ℕ)
  | unrefList
  /-- A `Timeout`. -/
  | timeout (n : ℕ)
  /-- Another object that is enrolled. -/
  | item (n : ℕ)
  deriving DecidableEq

/-- Whose handler of `ontimeout` it is. -/
inductive Who
  | list (n : ℕ)
  | unref
  deriving DecidableEq

inductive Frame
  /-- About to look at the first item. -/
  | loop (who : Who) (now : ℚ)
  /-- In the callback of an item. -/
  | calling (who : Who) (now : ℚ)
  /-- `_unrefActive` looks for the place of `item`, and has come to `cur`. -/
  | walk (item cur : Obj) (msecs when : ℚ)
  deriving DecidableEq

inductive Event
  | started (timer : Obj) (time delay : ℚ)
  | ran (timer : Obj) (time : ℚ)
  | cleared (timer : Obj)
  deriving DecidableEq

structure State where
  links : Links Obj
  /-- Nothing for `undefined` and `NaN`. -/
  idleTimeout : Obj → Option ℚ
  idleStart : Obj → ℚ
  onTimeout : Obj → Bool
  /-- The item has a domain that has been disposed of. -/
  disposed : Obj → Bool
  lists : ℚ → Option ℕ
  /-- How many lists and how many `Timeout`s there have been. -/
  made : ℕ
  timeouts : ℕ
  msecs : ℕ → ℚ
  closed : ℕ → Bool
  /-- When the handle of a list fires. -/
  due : ℕ → Option ℚ
  unrefMade : Bool
  unrefDue : Option ℚ
  unrefWhen : ℚ
  /-- `Timer.now()` and `Date.now()`. -/
  now : ℚ
  date : ℚ
  ticks : List Who
  stack : List Frame
  /-- An assertion has failed; nothing is said of what follows. -/
  failed : Bool
  /-- The items that have been started and have since neither been taken out by `listOnTimeout`
  nor unenrolled nor moved to `unrefList`. -/
  isActive : Obj → Bool
  log : List Event

def start : State :=
  { links := unlinked, idleTimeout := fun _ => none, idleStart := fun _ => 0
    onTimeout := fun _ => false, disposed := fun _ => false, lists := fun _ => none, made := 0
    timeouts := 0, msecs := fun _ => 0, closed := fun _ => false, due := fun _ => none
    unrefMade := false, unrefDue := none, unrefWhen := -1, now := 0, date := 0, ticks := []
    stack := [], failed := false, isActive := fun _ => false, log := [] }

def TIMEOUT_MAX : ℚ := 2147483647

namespace State

def assert (t : State) (b : Bool) : State := { t with failed := t.failed || !b }

/-- `list.start(msecs, 0)`: whole milliseconds, and nothing for a handle that is closed. -/
def startList (t : State) (n : ℕ) (msecs : ℚ) : State :=
  if t.closed n then t else { t with due := update t.due n (some (t.now + ⌊msecs⌋)) }

def startUnref (t : State) (msecs : ℚ) : State := { t with unrefDue := some (t.now + ⌊msecs⌋) }

def close (t : State) (n : ℕ) : State :=
  { t with closed := update t.closed n true, due := update t.due n none }

def deleteList (t : State) (msecs : ℚ) : State := { t with lists := update t.lists msecs none }

/-- `L.append` to a list with a handle. -/
def appendTo (t : State) (n : ℕ) (item : Obj) : State :=
  { t with links := t.links.append (.list n) item, isActive := update t.isActive item true }

/-- `L.remove`. -/
def takeOut (t : State) (item : Obj) : State :=
  { t with links := t.links.remove item, isActive := update t.isActive item false }

/-! ### Items of a list -/

def makeList (t : State) (msecs : ℚ) : State :=
  let n := t.made
  let t := { t with made := n + 1 }.startList n msecs
  { t with
    links := t.links.init (.list n)
    lists := update t.lists msecs (some n)
    msecs := update t.msecs n msecs }

def insert (t : State) (item : Obj) (msecs : ℚ) : State :=
  let t := { t with
    idleStart := update t.idleStart item t.now
    idleTimeout := update t.idleTimeout item (some msecs) }
  if msecs < 0 then t
  else
    match t.lists msecs with
    | some n =>
      let t := t.appendTo n item
      t.assert (¬ t.links.isEmpty (.list n))
    | none =>
      let n := t.made
      let t := (t.makeList msecs).appendTo n item
      t.assert (¬ t.links.isEmpty (.list n))

/-- If `lists[msecs]` is empty, it is stopped. -/
def stopEmpty (t : State) : Option ℚ → State
  | none => t
  | some msecs =>
    match t.lists msecs with
    | none => t
    | some n => if t.links.isEmpty (.list n) then (t.close n).deleteList msecs else t

def unenroll (t : State) (item : Obj) : State :=
  let t := t.takeOut item
  let t := t.stopEmpty (t.idleTimeout item)
  { t with idleTimeout := update t.idleTimeout item (some (-1)) }

def enroll (t : State) (item : Obj) (msecs : Option ℚ) : State :=
  let t := if t.links.next item ≠ none then t.unenroll item else t
  { t with
    idleTimeout := update t.idleTimeout item (msecs.map (min TIMEOUT_MAX))
    links := t.links.init item }

def active (t : State) (item : Obj) : State :=
  match t.idleTimeout item with
  | none => t
  | some msecs =>
    if 0 ≤ msecs then
      match t.lists msecs with
      | none => t.insert item msecs
      | some n =>
        if t.links.isEmpty (.list n) then t.insert item msecs
        else { t with idleStart := update t.idleStart item t.now }.appendTo n item
    else t

/-- `after`, or 1 where it is no number from 1 to `TIMEOUT_MAX`. -/
def delay (after : Option ℚ) : ℚ :=
  match after with
  | none => 1
  | some after => if 1 ≤ after ∧ after ≤ TIMEOUT_MAX then after else 1

/-- `new Timeout(after)`, with its callback, if any, and the domain of the process, which may have
been disposed of. -/
def makeTimer (t : State) (callback domain : Bool) (after : ℚ) : State :=
  let timer := Obj.timeout t.timeouts
  { t with
    timeouts := t.timeouts + 1
    idleTimeout := update t.idleTimeout timer (some after)
    links := t.links.init timer
    idleStart := update t.idleStart timer 0
    onTimeout := update t.onTimeout timer callback
    disposed := update t.disposed timer domain
    log := t.log ++ [Event.started timer t.now after] }

def setTimeout (t : State) (callback domain : Bool) (after : Option ℚ) : State :=
  (t.makeTimer callback domain (delay after)).active (.timeout t.timeouts)

def clearTimeout (t : State) (timer : Obj) : State :=
  let t := { t with log := t.log ++ [Event.cleared timer] }
  if t.onTimeout timer then
    { t with onTimeout := update t.onTimeout timer false }.unenroll timer
  else t

/-! ### Items that do not keep the loop alive -/

def makeUnref (t : State) : State :=
  if t.unrefMade then t
  else { t with
    unrefMade := true, links := t.links.init .unrefList, unrefDue := none, unrefWhen := -1 }

def unrefActive (t : State) (item : Obj) : State :=
  match t.idleTimeout item with
  | none => t
  | some msecs =>
    if msecs ≤ 0 then t
    else
      let t := (t.takeOut item).makeUnref
      let t := { t with idleStart := update t.idleStart item t.date }
      if t.links.isEmpty .unrefList then
        let t := { t with links := t.links.append .unrefList item }.startUnref msecs
        { t with unrefWhen := t.date + msecs }
      else
        match t.links.prev .unrefList with
        | none => t
        | some cur => { t with stack := .walk item cur msecs (t.date + msecs) :: t.stack }

/-- One round of the walk. -/
def walk (t : State) (item cur : Obj) (msecs when : ℚ) (k : List Frame) : State :=
  if cur = .unrefList then { t with links := t.links.append .unrefList item, stack := k }
  else if (t.idleTimeout cur).any fun timeout => decide (when < t.idleStart cur + timeout) then
    let t := { t with links := t.links.append cur item, stack := k }
    if when < t.unrefWhen then { t.startUnref msecs with unrefWhen := when } else t
  else
    match t.links.prev cur with
    | none => { t with stack := k }
    | some cur => { t with stack := .walk item cur msecs when :: k }

/-! ### The handlers -/

/-- An item that is due is out of its list; its callback is called, if there is one. -/
def callback (t : State) (who : Who) (now : ℚ) (first : Obj) (k : List Frame) : State :=
  if t.onTimeout first && !t.disposed first then
    { t with stack := .calling who now :: k, log := t.log ++ [Event.ran first t.now] }
  else { t with stack := .loop who now :: k }

/-- One round of the loop of `listOnTimeout`. -/
def listOnTimeout (t : State) (n : ℕ) (now : ℚ) (k : List Frame) : State :=
  match t.links.peek (.list n) with
  | none =>
    let t := t.assert (t.links.isEmpty (.list n))
    { (t.close n).deleteList (t.msecs n) with stack := k }
  | some first =>
    let diff := now - t.idleStart first
    if diff < t.msecs n then { t.startList n (t.msecs n - diff) with stack := k }
    else
      let t := t.takeOut first
      let t := t.assert (t.links.peek (.list n) ≠ some first)
      t.callback (.list n) now first k

/-- One round of the loop of `unrefTimeout`. -/
def unrefTimeout (t : State) (now : ℚ) (k : List Frame) : State :=
  match t.links.peek .unrefList with
  | none => { t with unrefWhen := -1, stack := k }
  | some first =>
    let diff := now - t.idleStart first
    match (t.idleTimeout first).filter (diff < ·) with
    | some timeout =>
      { t.startUnref (timeout - diff) with unrefWhen := now + (timeout - diff), stack := k }
    | none => { t with links := t.links.remove first }.callback .unref now first k

/-! ### Steps -/

/-- The module itself is running, and no other code. -/
def busy (t : State) : Bool :=
  match t.stack with
  | .loop .. :: _ | .walk .. :: _ => true
  | _ => false

/-- The handle of `who` fires now, if ever. -/
def dueOf (t : State) : Who → Option ℚ
  | .list n => t.due n
  | .unref => t.unrefDue

/-- The handler of `ontimeout` reads the clock. -/
def enter (t : State) (who : Who) : State :=
  { t with stack := .loop who (match who with | .list _ => t.now | .unref => t.date) :: t.stack }

/-- The handle has fired, and does not repeat. -/
def stop (t : State) : Who → State
  | .list n => { t with due := update t.due n none }
  | .unref => { t with unrefDue := none }

/-- An object that other code can name. -/
def known (t : State) : Obj → Bool
  | .list _ | .unrefList => false
  | .timeout n => n < t.timeouts
  | .item _ => true

end State

/-- What other code calls. -/
inductive Call
  | setTimeout (callback domain : Bool) (after : Option ℚ)
  | clearTimeout (timer : Obj)
  | enroll (item : Obj) (msecs : Option ℚ)
  | active (item : Obj)
  | unenroll (item : Obj)
  | unrefActive (item : Obj)
  /-- `item._onTimeout` is given a function, or none. -/
  | assign (item : Obj) (callback : Bool)
  /-- The domain of the item is disposed of. -/
  | dispose (item : Obj)

def Call.item : Call → Option Obj
  | .setTimeout .. => none
  | .clearTimeout o | .enroll o _ | .active o | .unenroll o | .unrefActive o | .assign o _
  | .dispose o => some o

def State.call (t : State) : Call → State
  | .setTimeout callback domain after => t.setTimeout callback domain after
  | .clearTimeout timer => t.clearTimeout timer
  | .enroll item msecs => t.enroll item msecs
  | .active item => t.active item
  | .unenroll item => t.unenroll item
  | .unrefActive item => t.unrefActive item
  | .assign item callback => { t with onTimeout := update t.onTimeout item callback }
  | .dispose item => { t with disposed := update t.disposed item true }

inductive Act
  | call (c : Call)
  /-- The loop runs a handle that is due. -/
  | fire (who : Who)
  /-- `process.nextTick` runs what an exception left. -/
  | tick
  /-- One round of the loop on top. -/
  | iterate
  /-- The callback on top returns, or throws. -/
  | ret
  | throw
  /-- The clocks go on. -/
  | elapse (d e : ℚ)

def step (t : State) : Act → Option State
  | .call c => if t.busy || !(c.item.all t.known) then none else some (t.call c)
  | .fire who =>
    if t.stack = [] ∧ (t.dueOf who).any (· ≤ t.now) then some ((t.stop who).enter who) else none
  | .tick =>
    match t.busy, t.ticks with
    | false, who :: ticks => some ({ t with ticks := ticks }.enter who)
    | _, _ => none
  | .iterate =>
    match t.stack with
    | .loop (.list n) now :: k => some (t.listOnTimeout n now k)
    | .loop .unref now :: k => some (t.unrefTimeout now k)
    | .walk item cur msecs when :: k => some (t.walk item cur msecs when k)
    | _ => none
  | .ret =>
    match t.stack with
    | .calling who now :: k => some { t with stack := .loop who now :: k }
    | _ => none
  | .throw =>
    match t.stack with
    | .calling who _ :: k => some { t with stack := k, ticks := t.ticks ++ [who] }
    | _ => none
  | .elapse d e =>
    if 0 ≤ d ∧ 0 ≤ e then some { t with now := t.now + d, date := t.date + e } else none

end NodeCore.Timers
