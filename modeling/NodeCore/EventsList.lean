import NodeCore.EventsOnce

/-!
`EventEmitter` as an ordered list per type: whatever the table holds for a type, `listeners` and
`listenerCount` answer as if it were a list.

No `'newListener'` or `'removeListener'` is listened for, so that no listener runs in a call.
-/

namespace NodeCore.Events

open NodeCore.Encoding NodeCore.Reentrant

/-! ### Calls -/

/-- `EventEmitter.listenerCount(emitter, type)` -/
def State.listenerCount (s : State) (type : EventType) : ℕ :=
  match s.events type with
  | .undefined => 0
  | .fn _ => 1
  | .array id => (s.arrays id).length

inductive Call
  | addListener (type : EventType) (listener : Fn)
  | once (type : EventType) (listener : Fn)
  | removeListener (type : EventType) (listener : Fn)
  /-- With or without a type. -/
  | removeAllListeners (type : Option EventType)
  | listeners (type : EventType)
  | listenerCount (type : EventType)
  deriving DecidableEq

/-- What a call returns. -/
inductive Answer
  | emitter
  | listeners (list : List Fn)
  | count (n : ℕ)
  deriving DecidableEq

/-- The call does not listen for `'newListener'` or `'removeListener'`. -/
def Call.Quiet : Call → Prop
  | .addListener type _ | .once type _ => type ≠ .newListener ∧ type ≠ .removeListener
  | _ => True

/-- What the call begins with, if it changes the table. -/
def Call.act : Call → Option Act
  | .addListener type listener => some (.on type listener)
  | .once type listener => some (.once type listener)
  | .removeListener type listener => some (.removeListener type listener)
  | .removeAllListeners type => some (.removeAllListeners type)
  | .listeners _ | .listenerCount _ => none

/-- The frames run until none is left. -/
inductive Finishes : Machine State Frame → State → Prop
  | done (s : State) : Finishes ⟨s, []⟩ s
  | run {m m' : Machine State Frame} {s : State} (h : step m .run = some m')
      (hm : Finishes m' s) : Finishes m s

/-- A call from outside of the emitter, up to its return. -/
inductive Performs (s : State) : Call → Answer → State → Prop
  | change {c : Call} {a : Act} {m : Machine State Frame} {t : State} (ha : c.act = some a)
      (h : step ⟨s, []⟩ a = some m) (hm : Finishes m t) : Performs s c .emitter t
  | listeners (type : EventType) : Performs s (.listeners type) (.listeners (s.listeners type)) s
  | listenerCount (type : EventType) :
    Performs s (.listenerCount type) (.count (s.listenerCount type)) s

/-- Calls one after the other. -/
inductive Performed : State → List Call → List Answer → State → Prop
  | nil (s : State) : Performed s [] [] s
  | cons {s t u : State} {c : Call} {a : Answer} {calls : List Call} {answers : List Answer}
      (h : Performs s c a t) (hs : Performed t calls answers u) :
      Performed s (c :: calls) (a :: answers) u

/-! ### Lists -/

/-- Deletes the last entry that matches. -/
def eraseLast {α : Type*} (p : α → Bool) (list : List α) : List α := (list.reverse.eraseP p).reverse

/-- An ordered list per type, and the function that each wrapper wraps. -/
structure Lists where
  lists : EventType → List Fn
  wrapped : List Fn

namespace Lists

variable (r : Lists)

/-- An entry is the function looked for, or wraps it. -/
def isEntry (listener : Fn) : Fn → Bool
  | .user n => Fn.user n = listener
  | .once k => Fn.once k = listener || r.wrapped[k]? = some listener

def update (type : EventType) (list : List Fn) : Lists :=
  { r with lists := Function.update r.lists type list }

def call : Call → Lists × Answer
  | .addListener type listener => (r.update type (r.lists type ++ [listener]), .emitter)
  | .once type listener =>
    ({ r.update type (r.lists type ++ [.once r.wrapped.length]) with
      wrapped := r.wrapped ++ [listener] }, .emitter)
  | .removeListener type listener =>
    (r.update type (eraseLast (r.isEntry listener) (r.lists type)), .emitter)
  | .removeAllListeners none => ({ r with lists := fun _ => [] }, .emitter)
  | .removeAllListeners (some type) => (r.update type [], .emitter)
  | .listeners type => (r, .listeners (r.lists type))
  | .listenerCount type => (r, .count (r.lists type).length)

def answers : Lists → List Call → List Answer
  | _, [] => []
  | r, c :: calls => (r.call c).2 :: (r.call c).1.answers calls

variable {r}

lemma update_self (type : EventType) (list : List Fn) : (r.update type list).lists type = list :=
  Function.update_self ..

lemma update_ne {type type' : EventType} (list : List Fn) (h : type' ≠ type) :
    (r.update type list).lists type' = r.lists type' := Function.update_of_ne h ..

end Lists

/-! ### The last entry that matches -/

lemma eraseLast_of_findIdx? {α : Type*} {p : α → Bool} {list : List α} {j : ℕ}
    (h : list.reverse.findIdx? p = some j) :
    list.eraseIdx (list.length - 1 - j) = eraseLast p list := by
  obtain ⟨hlt, hp, hmin⟩ := List.findIdx?_eq_some_iff_getElem.mp h
  have hsplit : list.reverse =
      list.reverse.take j ++ list.reverse[j] :: list.reverse.drop (j + 1) := by
    rw [← List.drop_eq_getElem_cons hlt, List.take_append_drop]
  have hfront : ∀ a ∈ list.reverse.take j, ¬ p a = true := by
    intro a ha
    obtain ⟨i, hi, rfl⟩ := List.mem_take_iff_getElem.mp ha
    exact hmin i (by omega)
  generalize list.reverse[j] = x at hp hsplit
  have htake : (list.reverse.take j).length = j := by
    rw [List.length_take]
    omega
  generalize list.reverse.take j = front at hsplit hfront htake
  generalize list.reverse.drop (j + 1) = back at hsplit
  have hlist : list = back.reverse ++ (x :: front.reverse) := by
    have := congrArg List.reverse hsplit
    simpa using this
  unfold eraseLast
  rw [hsplit, List.eraseP_append_right _ hfront, List.eraseP_cons_of_pos hp, hlist,
    List.eraseIdx_append_of_length_le (by simp; omega)]
  have hzero : (back.reverse ++ x :: front.reverse).length - 1 - j - back.reverse.length = 0 := by
    simp
    omega
  rw [hzero]
  simp

lemma eraseLast_of_none {α : Type*} {p : α → Bool} {list : List α}
    (h : list.reverse.findIdx? p = none) : eraseLast p list = list := by
  rw [List.findIdx?_eq_none_iff] at h
  unfold eraseLast
  rw [List.eraseP_of_forall_not (fun a ha => by simp [h a ha]), List.reverse_reverse]

/-! ### The table stands for lists -/

/-- The table answers as the lists do. -/
structure Stands (s : State) (r : Lists) : Prop where
  lists : ∀ type, s.listeners type = r.lists type
  wrapped : s.wrappers.map Prod.snd = r.wrapped
  bound : ∀ {type id}, s.events type = .array id → id < s.nextArray
  inj : ∀ {type type' id}, s.events type = .array id → s.events type' = .array id → type = type'
  newListener : s.events .newListener = .undefined
  removeListener : s.events .removeListener = .undefined

namespace Stands

variable {s : State} {r : Lists}

lemma isListener (h : Stands s r) (listener f : Fn) :
    s.isListener listener f = r.isEntry listener f := by
  cases f with
  | user n => simp [State.isListener, Lists.isEntry, State.listener]
  | once k =>
    have hlistener : s.listener (.once k) = r.wrapped[k]? := by
      rw [← h.wrapped, List.getElem?_map]
      rfl
    unfold State.isListener Lists.isEntry
    rw [hlistener]

lemma listenerCount (h : Stands s r) (type : EventType) :
    s.listenerCount type = (r.lists type).length := by
  rw [← h.lists]
  unfold State.listenerCount State.listeners
  cases s.events type <;> rfl

/-- Another value for one type, an array only if it is the type's own or new. -/
lemma set (h : Stands s r) {type : EventType} {slot : Slot} {list : List Fn}
    (hnew : type ≠ .newListener ∨ slot = .undefined)
    (hremove : type ≠ .removeListener ∨ slot = .undefined)
    (harray : ∀ id, slot ≠ .array id) (hlist : (s.set type slot).listeners type = list) :
    Stands (s.set type slot) (r.update type list) := by
  have hevents {type' : EventType} {id : ℕ} (ha : (s.set type slot).events type' = .array id) :
      s.events type' = .array id := by
    rw [State.set_events] at ha
    split_ifs at ha
    · exact absurd ha (harray id)
    · exact ha
  refine ⟨fun type' => ?_, h.wrapped, fun ha => h.bound (hevents ha),
    fun ha ha' => h.inj (hevents ha) (hevents ha'), ?_, ?_⟩
  · rcases eq_or_ne type' type with rfl | hne
    · rw [hlist, Lists.update_self]
    · rw [State.set_listeners_ne _ hne, Lists.update_ne _ hne, h.lists]
  · rw [State.set_events]
    split_ifs with ht
    · exact hnew.resolve_left (fun hne => hne ht.symm)
    · exact h.newListener
  · rw [State.set_events]
    split_ifs with ht
    · exact hremove.resolve_left (fun hne => hne ht.symm)
    · exact h.removeListener

lemma setArray (h : Stands s r) {type : EventType} {id : ℕ} (hslot : s.events type = .array id)
    (list : List Fn) : Stands (s.setArray id list) (r.update type list) := by
  refine ⟨fun type' => ?_, h.wrapped, h.bound, h.inj, h.newListener, h.removeListener⟩
  rcases eq_or_ne type' type with rfl | hne
  · rw [State.setArray_listeners hslot, Lists.update_self]
  · rw [State.setArray_listeners_ne (fun h' => hne (h.inj h' hslot)), Lists.update_ne _ hne,
      h.lists]

lemma setNewArray (h : Stands s r) {type : EventType} (hnew : type ≠ .newListener)
    (hremove : type ≠ .removeListener) (list : List Fn) :
    Stands (s.setNewArray type list) (r.update type list) := by
  have hevents (type' : EventType) : (s.setNewArray type list).events type' =
      if type' = type then .array s.nextArray else s.events type' := State.set_events ..
  have hold {type' : EventType} {id : ℕ} (ha : (s.setNewArray type list).events type' = .array id) :
      type' = type ∧ id = s.nextArray ∨ s.events type' = .array id ∧ id < s.nextArray := by
    rw [hevents] at ha
    split_ifs at ha with ht
    · cases ha
      exact .inl ⟨ht, rfl⟩
    · exact .inr ⟨ha, h.bound ha⟩
  refine ⟨fun type' => ?_, h.wrapped, fun ha => ?_, fun ha ha' => ?_, ?_, ?_⟩
  · rcases eq_or_ne type' type with rfl | hne
    · rw [Lists.update_self]
      simp [State.setNewArray, State.listeners, State.set, State.setArray]
    · have hother : s.events type' ≠ .array s.nextArray := fun h' => (h.bound h').ne rfl
      rw [Lists.update_ne _ hne, ← h.lists]
      show ((s.setArray s.nextArray list).set type _).listeners type' = _
      rw [State.set_listeners_ne _ hne, State.setArray_listeners_ne hother]
  · show _ < s.nextArray + 1
    rcases hold ha with ⟨-, rfl⟩ | ⟨-, hlt⟩ <;> omega
  · rcases hold ha with ⟨ht, hid⟩ | ⟨he, hlt⟩ <;> rcases hold ha' with ⟨ht', hid'⟩ | ⟨he', hlt'⟩
    · exact ht.trans ht'.symm
    · omega
    · omega
    · exact h.inj he he'
  · rw [hevents, if_neg hnew.symm]
    exact h.newListener
  · rw [hevents, if_neg hremove.symm]
    exact h.removeListener

/-! ### One call -/

lemma add (h : Stands s r) {type : EventType} (listener : Fn) (hnew : type ≠ .newListener)
    (hremove : type ≠ .removeListener) :
    Stands (s.add type listener) (r.update type (r.lists type ++ [listener])) := by
  unfold State.add
  rw [← h.lists]
  split
  · next hslot =>
    refine h.set (.inl hnew) (.inl hremove) (fun id hid => by cases hid) ?_
    simp [State.listeners, State.set_events, hslot]
  · next id hslot =>
    rw [State.listeners_array hslot]
    exact h.setArray hslot _
  · next f hslot =>
    rw [State.listeners_fn hslot]
    exact h.setNewArray hnew hremove _

lemma unset (h : Stands s r) (type : EventType) :
    Stands (s.set type .undefined) (r.update type []) :=
  h.set (.inr rfl) (.inr rfl) (fun id hid => by cases hid) (by simp)

lemma same (h : Stands s r) {type : EventType} {list : List Fn} (hlist : list = r.lists type) :
    Stands s (r.update type list) := by
  unfold Lists.update
  rwa [hlist, Function.update_eq_self]

lemma remove (h : Stands s r) (type : EventType) (listener : Fn) :
    Stands (s.removeListener type listener).1
      (r.update type (eraseLast (r.isEntry listener) (r.lists type))) := by
  have hp : s.isListener listener = r.isEntry listener := funext (h.isListener listener)
  unfold State.removeListener
  split
  · next hslot =>
    have hnil : r.lists type = [] := by rw [← h.lists, State.listeners, hslot]
    rw [hnil]
    exact h.same hnil.symm
  · next f hslot =>
    have hone : r.lists type = [f] := by rw [← h.lists, State.listeners_fn hslot]
    rw [hp, hone]
    split_ifs with hf
    · rw [show eraseLast (r.isEntry listener) [f] = [] by simp [eraseLast, hf]]
      exact h.unset type
    · rw [show eraseLast (r.isEntry listener) [f] = [f] by simp [eraseLast, hf]]
      exact h.same hone.symm
  · next id hslot =>
    have harray : r.lists type = s.arrays id := by rw [← h.lists, State.listeners_array hslot]
    rw [harray]
    unfold State.position
    rw [hp]
    cases hj : (s.arrays id).reverse.findIdx? (r.isEntry listener) with
    | none =>
      rw [eraseLast_of_none hj]
      exact h.same harray.symm
    | some j =>
      rw [← eraseLast_of_findIdx? hj]
      dsimp only [Option.map_some]
      split_ifs with hlen
      · -- the only entry: the array is left empty and unset
        have hlt : j < (s.arrays id).reverse.length :=
          (List.findIdx?_eq_some_iff_getElem.mp hj).1
        rw [List.length_reverse, hlen] at hlt
        have hnil : (s.arrays id).eraseIdx ((s.arrays id).length - 1 - j) = [] := by
          rw [List.eraseIdx_eq_nil_iff]
          exact .inr ⟨hlen, by omega⟩
        rw [hnil]
        have hset := (h.setArray hslot []).unset type
        unfold Lists.update at hset ⊢
        rwa [Function.update_idem] at hset
      · exact h.setArray hslot _

lemma wrap (h : Stands s r) (type : EventType) (listener : Fn) :
    Stands { s with wrappers := s.wrappers ++ [(type, listener)] }
      { r with wrapped := r.wrapped ++ [listener] } :=
  ⟨h.lists, by simp [h.wrapped], h.bound, h.inj, h.newListener, h.removeListener⟩

end Stands

/-! ### Calls and their answers -/

lemma step_run_nil (s : State) : step ⟨s, []⟩ .run = none := rfl

/-- From where the frames finish, they do so in one way. -/
lemma Finishes.unique {m : Machine State Frame} {s t : State} (h : Finishes m s)
    (h' : Finishes m t) : s = t := by
  induction h with
  | done s =>
    cases h' with
    | done => rfl
    | run h _ => rw [step_run_nil] at h; cases h
  | run hstep _ ih =>
    cases h' with
    | done => rw [step_run_nil] at hstep; cases hstep
    | run hstep' hm' =>
      rw [hstep] at hstep'
      cases hstep'
      exact ih hm'

/-- With nobody told of a new listener, `addListener` is done when the listener is in. -/
lemma addListener_finishes {s : State} (h : s.events .newListener = .undefined)
    (type : EventType) (listener : Fn) :
    Finishes (call [] (s.addListener type listener)) (s.add type listener) := by
  have hframes : call [] (s.addListener type listener) = ⟨s, [.add type listener]⟩ := by
    simp [call, State.addListener, State.emitIf, h]
  rw [hframes]
  exact .run rfl (.done _)

lemma removeListener_frames (s : State) (type : EventType) (listener : Fn) :
    (s.removeListener type listener).2 = [] ∨ (s.removeListener type listener).2 =
      (s.removeListener type listener).1.emitIf .removeListener := by
  unfold State.removeListener
  split
  · exact .inl rfl
  · split_ifs
    · exact .inr rfl
    · exact .inl rfl
  · split
    · exact .inl rfl
    · exact .inr rfl

namespace Stands

variable {s : State} {r : Lists}

lemma removeListener_finishes (h : Stands s r) (type : EventType) (listener : Fn) :
    Finishes (call [] (s.removeListener type listener)) (s.removeListener type listener).1 := by
  have hnone : (s.removeListener type listener).1.emitIf .removeListener = [] :=
    if_pos (h.remove type listener).removeListener
  have hframes : (s.removeListener type listener).2 = [] := by
    rcases removeListener_frames s type listener with hf | hf
    · exact hf
    · exact hf.trans hnone
  unfold call
  rw [hframes]
  exact .done _

lemma removeAll_finishes {s t : State} {type : Option EventType}
    (h : s.removeAllListeners type = .frames t []) : Finishes ⟨s, [.removeAll type]⟩ t := by
  have hstep : step ⟨s, [.removeAll type]⟩ .run = some ⟨t, []⟩ := by
    simp [step, State.exec, h]
  exact .run hstep (.done t)

lemma clear (h : Stands s r) : Stands s.clear { r with lists := fun _ => [] } :=
  ⟨fun _ => rfl, h.wrapped, (fun ha => by cases ha), (fun ha _ => by cases ha), rfl, rfl⟩

lemma removeAll (h : Stands s r) (type : Option EventType) :
    ∃ t, Finishes ⟨s, [.removeAll type]⟩ t ∧
      Stands t (r.call (.removeAllListeners type)).1 := by
  cases type with
  | none => exact ⟨s.clear, removeAll_finishes (if_pos h.removeListener), h.clear⟩
  | some type =>
    refine ⟨_, removeAll_finishes (if_pos h.removeListener), ?_⟩
    show Stands (if s.events type = .undefined then s else s.set type .undefined) (r.update type [])
    split_ifs with hslot
    · refine h.same ?_
      rw [← h.lists, State.listeners, hslot]
    · exact h.unset type

/-- A call that changes the table comes to its end, and does to the lists what it should. -/
lemma change (h : Stands s r) {c : Call} {a : Act} (ha : c.act = some a) (hc : c.Quiet) :
    ∃ m t, step ⟨s, []⟩ a = some m ∧ Finishes m t ∧ Stands t (r.call c).1 ∧
      (r.call c).2 = .emitter := by
  cases c with
  | addListener type listener =>
    cases ha
    exact ⟨_, _, rfl, addListener_finishes h.newListener type listener,
      h.add listener hc.1 hc.2, rfl⟩
  | once type listener =>
    cases ha
    have hwrap := h.wrap type listener
    have hlen : s.wrappers.length = r.wrapped.length := by rw [← h.wrapped, List.length_map]
    have hadd := hwrap.add (.once s.wrappers.length) hc.1 hc.2
    have hlists : (r.call (.once type listener)).1 =
        { r.update type (r.lists type ++ [.once s.wrappers.length]) with
          wrapped := r.wrapped ++ [listener] } := by
      rw [hlen]
      rfl
    exact ⟨_, _, rfl, addListener_finishes hwrap.newListener type _, hlists ▸ hadd, rfl⟩
  | removeListener type listener =>
    cases ha
    exact ⟨_, _, rfl, h.removeListener_finishes type listener, h.remove type listener, rfl⟩
  | removeAllListeners type =>
    cases ha
    obtain ⟨t, hrun, ht⟩ := h.removeAll type
    exact ⟨_, t, rfl, hrun, ht, by cases type <;> rfl⟩
  | listeners type => cases ha
  | listenerCount type => cases ha

lemma performs (h : Stands s r) {c : Call} {a : Answer} {t : State} (hc : c.Quiet)
    (hp : Performs s c a t) : a = (r.call c).2 ∧ Stands t (r.call c).1 := by
  cases hp with
  | change ha hstep hm =>
    obtain ⟨m, u, hstep', hm', hu, hanswer⟩ := h.change ha hc
    rw [hstep] at hstep'
    cases hstep'
    rw [hm.unique hm']
    exact ⟨hanswer.symm, hu⟩
  | listeners type => exact ⟨congrArg _ (h.lists type), h⟩
  | listenerCount type => exact ⟨congrArg _ (h.listenerCount type), h⟩

lemma exists_performs (h : Stands s r) {c : Call} (hc : c.Quiet) : ∃ a t, Performs s c a t := by
  cases hact : c.act with
  | some a =>
    obtain ⟨m, t, hstep, hm, -, -⟩ := h.change hact hc
    exact ⟨_, t, .change hact hstep hm⟩
  | none =>
    cases c with
    | listeners type => exact ⟨_, s, .listeners type⟩
    | listenerCount type => exact ⟨_, s, .listenerCount type⟩
    | addListener type listener => cases hact
    | once type listener => cases hact
    | removeListener type listener => cases hact
    | removeAllListeners type => cases hact

/-! ### Any sequence of calls -/

lemma performed (h : Stands s r) {calls : List Call} (hcalls : ∀ c ∈ calls, c.Quiet)
    {answers : List Answer} {t : State} (hp : Performed s calls answers t) :
    answers = r.answers calls := by
  induction hp generalizing r with
  | nil s => rfl
  | cons hc _ ih =>
    obtain ⟨rfl, ht⟩ := h.performs (hcalls _ List.mem_cons_self) hc
    rw [ih ht fun c hc => hcalls c (List.mem_cons_of_mem _ hc)]
    rfl

lemma exists_performed (h : Stands s r) {calls : List Call} (hcalls : ∀ c ∈ calls, c.Quiet) :
    ∃ answers t, Performed s calls answers t := by
  induction calls generalizing s r with
  | nil => exact ⟨[], s, .nil s⟩
  | cons c calls ih =>
    have hc := hcalls c List.mem_cons_self
    obtain ⟨a, t, hp⟩ := h.exists_performs hc
    obtain ⟨answers, u, hu⟩ := ih (h.performs hc hp).2 fun d hd =>
      hcalls d (List.mem_cons_of_mem _ hd)
    exact ⟨a :: answers, u, .cons hp hu⟩

end Stands

/-- An emitter without listeners, in a program with functions that have a property `listener`
already: wrappers of other emitters, or functions that somebody has given one. -/
def State.fresh (wrappers : List (EventType × Fn)) : State := { State.new with wrappers }

lemma stands_fresh (wrappers : List (EventType × Fn)) :
    Stands (.fresh wrappers) ⟨fun _ => [], wrappers.map Prod.snd⟩ :=
  ⟨fun _ => rfl, rfl, (fun ha => by cases ha), (fun ha _ => by cases ha), rfl, rfl⟩

/-- Every sequence of calls comes to its end, and all that `listeners` and `listenerCount` answer
on the way is what the lists answer. -/
theorem listeners_ordered (wrappers : List (EventType × Fn)) (calls : List Call)
    (hcalls : ∀ c ∈ calls, c.Quiet) :
    (∃ answers t, Performed (.fresh wrappers) calls answers t) ∧
    ∀ answers t, Performed (.fresh wrappers) calls answers t →
      answers = Lists.answers ⟨fun _ => [], wrappers.map Prod.snd⟩ calls :=
  ⟨(stands_fresh wrappers).exists_performed hcalls,
    fun _ _ hp => (stands_fresh wrappers).performed hcalls hp⟩

/-- The same function before and after a wrapper of it: `removeListener` takes the last of them. -/
def removeTwice : List Call :=
  [.addListener .error (.user 0), .once .error (.user 0), .addListener .error (.user 1),
    .removeListener .error (.user 0), .listeners .error, .removeListener .error (.user 0),
    .listeners .error, .listenerCount .error]

theorem listeners_ordered_removeTwice : ∃ answers t, Performed (.fresh []) removeTwice answers t ∧
    answers = [.emitter, .emitter, .emitter, .emitter, .listeners [.user 0, .user 1], .emitter,
      .listeners [.user 1], .count 1] := by
  have hquiet : ∀ c ∈ removeTwice, c.Quiet := by
    simp [removeTwice, Call.Quiet]
  obtain ⟨⟨answers, t, hp⟩, hall⟩ := listeners_ordered [] removeTwice hquiet
  refine ⟨answers, t, hp, (hall answers t hp).trans ?_⟩
  decide

end NodeCore.Events
