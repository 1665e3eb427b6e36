import NodeCore.Encoding
import NodeCore.Reentrant

/-!
`EventEmitter`: the table of listeners of one emitter, and everything that changes it.

A listener may call any of the functions below before it returns, so that a function runs in
small steps, its frames on one stack with those of the listeners it has called. A domain is not
attached, and the warning about a leak of listeners is only printed.
-/

namespace NodeCore.Events

open NodeCore.Encoding NodeCore.Reentrant

/-! ### State -/

/-- The name of an event, none of them a property of `Object.prototype`. -/
inductive EventType
  | error
  | newListener
  | removeListener
  | named (name : Str)
  deriving DecidableEq

/-- A function: of the caller, without a property `listener`, or `g` of a call of `once`. -/
inductive Fn
  | user (n : ℕ)
  | once (k : ℕ)
  deriving DecidableEq

/-- What the table holds for a type. Arrays are known by identity. -/
inductive Slot
  | undefined
  | fn (f : Fn)
  | array (id : ℕ)
  deriving DecidableEq

structure State where
  /-- `_events`, and its keys in the order in which they have come. -/
  events : EventType → Slot
  keys : List EventType
  arrays : ℕ → List Fn
  nextArray : ℕ
  /-- `type` and `listener` of each call of `once`. -/
  wrappers : List (EventType × Fn)
  /-- The calls of `once` whose listener has been called. -/
  applied : List ℕ

def State.new : State := ⟨fun _ => .undefined, [], fun _ => [], 0, [], []⟩

namespace State

variable (s : State)

/-- What `listeners(type)` returns. -/
def listeners (type : EventType) : List Fn :=
  match s.events type with
  | .undefined => []
  | .fn f => [f]
  | .array id => s.arrays id

/-- The property `listener` of a function. -/
def listener : Fn → Option Fn
  | .user _ => none
  | .once k => s.wrappers[k]?.map Prod.snd

/-- `this._events[type] = slot`. -/
def set (type : EventType) (slot : Slot) : State :=
  { s with
    events := Function.update s.events type slot
    keys := if type ∈ s.keys then s.keys else s.keys ++ [type] }

def setArray (id : ℕ) (list : List Fn) : State :=
  { s with arrays := Function.update s.arrays id list }

/-- `this._events[type] = [f, g]`. -/
def setNewArray (type : EventType) (list : List Fn) : State :=
  { (s.setArray s.nextArray list).set type (.array s.nextArray) with nextArray := s.nextArray + 1 }

/-- `this._events = {}`. -/
def clear : State := { s with events := fun _ => .undefined, keys := [] }

variable {s}

lemma listeners_fn {type : EventType} {f : Fn} (h : s.events type = .fn f) :
    s.listeners type = [f] := by
  rw [listeners, h]

lemma listeners_array {type : EventType} {id : ℕ} (h : s.events type = .array id) :
    s.listeners type = s.arrays id := by
  rw [listeners, h]

lemma set_events (s : State) (type type' : EventType) (slot : Slot) :
    (s.set type slot).events type' = if type' = type then slot else s.events type' := by
  simp [set, Function.update_apply]

lemma set_listeners_ne {type type' : EventType} (slot : Slot) (h : type' ≠ type) :
    (s.set type slot).listeners type' = s.listeners type' := by
  rw [listeners, set_events, if_neg h]
  rfl

@[simp] lemma set_listeners_undefined (type : EventType) :
    (s.set type .undefined).listeners type = [] := by
  rw [listeners, set_events, if_pos rfl]

lemma setArray_listeners {type : EventType} {id : ℕ} (h : s.events type = .array id)
    (list : List Fn) : (s.setArray id list).listeners type = list := by
  have hevents : (s.setArray id list).events type = .array id := h
  rw [listeners_array hevents]
  exact Function.update_self ..

lemma setArray_listeners_ne {type : EventType} {id : ℕ} (h : s.events type ≠ .array id)
    (list : List Fn) : (s.setArray id list).listeners type = s.listeners type := by
  have hevents : (s.setArray id list).events type = s.events type := rfl
  unfold listeners
  rw [hevents]
  cases hslot : s.events type with
  | undefined => rfl
  | fn f => rfl
  | array j => exact Function.update_of_ne (fun hj => h (by rw [hslot, hj])) ..

end State

/-! ### Frames -/

/-- The rest of a function. -/
inductive Frame
  /-- A listener is running, or code outside of the emitter. -/
  | user
  /-- A call of `emit(type)`. -/
  | emit (type : EventType)
  /-- The loop of `emit`, over what is left of the copied list. -/
  | listeners (rest : List Fn)
  /-- In `g`, after `this.removeListener(type, g)`. -/
  | apply (k : ℕ)
  /-- In `addListener`, after `'newListener'`. -/
  | add (type : EventType) (listener : Fn)
  /-- A call of `removeAllListeners`. -/
  | removeAll (type : Option EventType)
  /-- The loop of `removeAllListeners()` over the keys. -/
  | removeKeys (keys : List EventType)
  /-- The loop of `removeAllListeners(type)` over an array. -/
  | removeEach (type : EventType) (id : ℕ)
  /-- In `removeAllListeners(type)`, `this._events[type] = undefined`. -/
  | unset (type : EventType)
  /-- In `removeAllListeners()`, `this._events = {}`. -/
  | clear
  deriving DecidableEq

/-- How far a frame gets: frames to run next, or an exception. -/
inductive Out
  | frames (s : State) (fs : List Frame)
  | throw

namespace State

variable (s : State)

/-- `list[i] === listener || (list[i].listener && list[i].listener === listener)`. -/
def isListener (listener f : Fn) : Bool := f = listener || s.listener f = some listener

/-- The loop from the end of the list. -/
def position (listener : Fn) (list : List Fn) : Option ℕ :=
  (list.reverse.findIdx? (s.isListener listener)).map fun i => list.length - 1 - i

/-- `if (this._events[type]) this.emit(type, …)`. -/
def emitIf (type : EventType) : List Frame :=
  if s.events type = .undefined then [] else [.emit type]

def removeListener (type : EventType) (listener : Fn) : State × List Frame :=
  match s.events type with
  | .undefined => (s, [])
  | .fn f =>
    if s.isListener listener f then
      (s.set type .undefined, (s.set type .undefined).emitIf .removeListener)
    else (s, [])
  | .array id =>
    match s.position listener (s.arrays id) with
    | none => (s, [])
    | some i =>
      let t := if (s.arrays id).length = 1 then (s.setArray id []).set type .undefined
        else s.setArray id ((s.arrays id).eraseIdx i)
      (t, t.emitIf .removeListener)

/-- A function is called: one of the caller, or `g` up to `listener.apply`. -/
def invoke : Fn → State × List Frame
  | .user _ => (s, [.user])
  | .once k =>
    match s.wrappers[k]? with
    | none => (s, [])
    | some (type, _) =>
      ((s.removeListener type (.once k)).1, (s.removeListener type (.once k)).2 ++ [.apply k])

def addListener (type : EventType) (listener : Fn) : State × List Frame :=
  (s, s.emitIf .newListener ++ [.add type listener])

/-- The rest of `addListener`. -/
def add (type : EventType) (listener : Fn) : State :=
  match s.events type with
  | .undefined => s.set type (.fn listener)
  | .array id => s.setArray id (s.arrays id ++ [listener])
  | .fn f => s.setNewArray type [f, listener]

def once (type : EventType) (listener : Fn) : State × List Frame :=
  { s with wrappers := s.wrappers ++ [(type, listener)] }.addListener type (.once s.wrappers.length)

def removeAllListeners (type : Option EventType) : Out :=
  if s.events .removeListener = .undefined then
    match type with
    | none => .frames s.clear []
    | some type => .frames (if s.events type = .undefined then s else s.set type .undefined) []
  else
    match type with
    | none =>
      .frames s [.removeKeys (s.keys.filter (· ≠ .removeListener)),
        .removeAll (some .removeListener), .clear]
    | some type =>
      match s.events type with
      | .undefined => .throw -- `listeners.length` of undefined
      | .fn f => .frames (s.removeListener type f).1 ((s.removeListener type f).2 ++ [.unset type])
      | .array id => .frames s [.removeEach type id, .unset type]

/-- `emit(type)`, up to the first listener. -/
def emit (type : EventType) : Out :=
  match s.events type with
  | .undefined => if type = .error then .throw else .frames s []
  | .fn f => .frames (s.invoke f).1 (s.invoke f).2
  | .array id =>
    if type = .error ∧ s.arrays id = [] then .throw else .frames s [.listeners (s.arrays id)]

/-- The code of a frame. -/
def exec : Frame → Out
  | .user => .frames s [.user]
  | .emit type => s.emit type
  | .listeners [] => .frames s []
  | .listeners (f :: rest) => .frames (s.invoke f).1 ((s.invoke f).2 ++ [.listeners rest])
  | .apply k =>
    match s.wrappers[k]? with
    | none => .frames s []
    | some (_, listener) =>
      let t := { s with applied := k :: s.applied }
      .frames (t.invoke listener).1 (t.invoke listener).2
  | .add type listener => .frames (s.add type listener) []
  | .removeAll type => s.removeAllListeners type
  | .removeKeys [] => .frames s []
  | .removeKeys (key :: keys) => .frames s [.removeAll (some key), .removeKeys keys]
  | .removeEach type id =>
    match (s.arrays id).getLast? with
    | none => .frames s []
    | some f =>
      .frames (s.removeListener type f).1 ((s.removeListener type f).2 ++ [.removeEach type id])
  | .unset type => .frames (s.set type .undefined) []
  | .clear => .frames s.clear []

end State

/-! ### Steps -/

/-- What can happen next. -/
inductive Act
  | on (type : EventType) (listener : Fn)
  | once (type : EventType) (listener : Fn)
  | removeListener (type : EventType) (listener : Fn)
  | removeAllListeners (type : Option EventType)
  | emit (type : EventType)
  /-- The listener returns. -/
  | ret
  /-- The listener throws. -/
  | throw
  /-- The code of the innermost frame runs. -/
  | run
  deriving DecidableEq

/-- An exception goes up to the innermost code outside of the emitter, which may catch it. -/
def unwind (stack : List Frame) : List Frame := stack.dropWhile (· ≠ .user)

/-- The call of a function, with the frames that it leaves. -/
def call (stack : List Frame) (r : State × List Frame) : Machine State Frame :=
  ⟨r.1, r.2 ++ stack⟩

/-- One step. With an empty stack, or a frame `user` on top, code outside of the emitter runs. -/
def step (m : Machine State Frame) (a : Act) : Option (Machine State Frame) :=
  if m.stack.head?.getD .user = .user then
    match a with
    | .on type listener => some (call m.stack (m.st.addListener type listener))
    | .once type listener => some (call m.stack (m.st.once type listener))
    | .removeListener type listener => some (call m.stack (m.st.removeListener type listener))
    | .removeAllListeners type => some (call m.stack (m.st, [.removeAll type]))
    | .emit type => some (call m.stack (m.st, [.emit type]))
    | .ret => if m.stack = [] then none else some ⟨m.st, m.stack.tail⟩
    | .throw => if m.stack = [] then none else some ⟨m.st, unwind m.stack.tail⟩
    | .run => none
  else
    match m.stack, a with
    | f :: k, .run =>
      match m.st.exec f with
      | .frames s fs => some ⟨s, fs ++ k⟩
      | .throw => some ⟨m.st, unwind k⟩
    | _, _ => none

def init : Machine State Frame := ⟨.new, []⟩

end NodeCore.Events
