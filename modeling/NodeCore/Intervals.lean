import NodeCore.TimersRings

/-!
Intervals, and timers that do not keep the loop alive (`timers.js`).

`unref` takes a `Timeout` off its list and gives it a handle of its own. What such a handle calls
has the handle for `this`, and not the `Timeout`: the function that `setInterval` makes looks there
for a handle to start again, finds none, and puts the `Timeout` back on a list.
-/

namespace NodeCore.Intervals

open NodeCore.Linklist NodeCore.Reentrant NodeCore.Timers Function

/-! ### State -/

/-- `timer._handle`. -/
structure Handle where
  /-- There is a function. -/
  ontimeout : Bool
  due : Option ℚ
  closed : Bool
  /-- It keeps the loop alive. -/
  refed : Bool
  deriving DecidableEq

/-- What has called a callback that is running. -/
inductive Caller
  | list (item : Obj)
  | handle (n : ℕ)
  deriving DecidableEq

structure State where
  timers : Timers.State
  /-- `timer._repeat`. -/
  repeats : ℕ → Bool
  /-- The delay that the function which `setInterval` has made was given; nothing for the callback
  of a `setTimeout`. -/
  interval : ℕ → Option ℚ
  handle : ℕ → Option Handle
  /-- Innermost first. -/
  callers : List Caller
  /-- `unref` has been called. -/
  unrefed : ℕ → Bool

def start : State :=
  { timers := Timers.start, repeats := fun _ => false, interval := fun _ => none
    handle := fun _ => none, callers := [], unrefed := fun _ => false }

/-- Nothing happens to a handle that is closed. -/
def Handle.start (h : Handle) (now msecs : ℚ) : Handle :=
  if h.closed then h else { h with due := some (now + ⌊msecs⌋) }

def Handle.unref (h : Handle) : Handle := if h.closed then h else { h with refed := false }

/-- `handle.ontimeout = null` and `close`. -/
def Handle.close (h : Handle) : Handle :=
  { h with ontimeout := false, due := none, closed := true }

namespace State

def setTimeout (s : State) (callback domain : Bool) (after : Option ℚ) : State :=
  let n := s.timers.timeouts
  { s with
    timers := s.timers.setTimeout callback domain after
    repeats := update s.repeats n false
    interval := update s.interval n none
    handle := update s.handle n none
    unrefed := update s.unrefed n false }

def setInterval (s : State) (domain : Bool) (rate : Option ℚ) : State :=
  let n := s.timers.timeouts
  { s with
    timers := s.timers.setTimeout true domain rate
    repeats := update s.repeats n true
    interval := update s.interval n (some (Timers.State.delay rate))
    handle := update s.handle n none
    unrefed := update s.unrefed n false }

def clearTimeout (s : State) (n : ℕ) : State :=
  match s.handle n with
  | none => { s with timers := s.timers.clearTimeout (.timeout n) }
  | some h =>
    let t := { s.timers with log := s.timers.log ++ [Event.cleared (.timeout n)] }
    if t.onTimeout (.timeout n) then
      { s with
        timers := { t with onTimeout := update t.onTimeout (.timeout n) false }
        handle := update s.handle n (some h.close) }
    else { s with timers := t }

def clearInterval (s : State) (n : ℕ) : State :=
  if s.repeats n then { s with repeats := update s.repeats n false }.clearTimeout n else s

def unref (s : State) (n : ℕ) : State :=
  let s := { s with unrefed := update s.unrefed n true }
  match s.handle n with
  | none =>
    let t := s.timers
    let now := t.now
    let t := if t.idleStart (.timeout n) = 0 then
      { t with idleStart := update t.idleStart (.timeout n) now } else t
    let delay := max 0 (t.idleStart (.timeout n) + (t.idleTimeout (.timeout n)).getD 0 - now)
    let h : Handle := ⟨t.onTimeout (.timeout n), none, false, true⟩
    { s with
      timers := t.unenroll (.timeout n)
      handle := update s.handle n (some (h.start now delay).unref) }
  | some h => { s with handle := update s.handle n (some h.unref) }

/-- The last lines of the function that `setInterval` has made, with the handle of `this`. -/
def rearm (s : State) (n : ℕ) (rate : ℚ) (handle : Option Handle) : State :=
  if s.repeats n then
    match handle with
    | some h => { s with handle := update s.handle n (some (h.start s.timers.now rate)) }
    | none =>
      let t := { s.timers with idleTimeout := update s.timers.idleTimeout (.timeout n) (some rate) }
      { s with timers := t.active (.timeout n) }
  else s

/-- What is left of the callback when the code of the user returns. -/
def finish (s : State) : Caller → State
  | .list (.timeout n) =>
    match s.interval n with
    | some rate => s.rearm n rate (s.handle n)
    | none => s
  | .list _ => s
  | .handle n =>
    match s.interval n with
    | some rate => s.rearm n rate none
    | none => s

end State

/-! ### Steps -/

inductive Act
  | setTimeout (callback domain : Bool) (after : Option ℚ)
  | setInterval (domain : Bool) (rate : Option ℚ)
  | clearTimeout (n : ℕ)
  | clearInterval (n : ℕ)
  | unref (n : ℕ)
  /-- The domain of a timer is disposed of. -/
  | dispose (n : ℕ)
  /-- The loop runs the handle of a list, or of a timer. -/
  | fire (n : ℕ)
  | fireHandle (n : ℕ)
  | tick
  | iterate
  | ret
  | throw
  | elapse (d e : ℚ)

/-- A callback is on top. -/
def calling (t : Timers.State) : Bool :=
  match t.stack with
  | .calling .. :: _ => true
  | _ => false

/-- Code that is not of this module calls a function, with a timer that there is. -/
def State.allows (s : State) (n : ℕ) : Bool := !s.timers.busy && s.timers.known (.timeout n)

def step (s : State) : Act → Option State
  | .setTimeout callback domain after =>
    if s.timers.busy then none else some (s.setTimeout callback domain after)
  | .setInterval domain rate => if s.timers.busy then none else some (s.setInterval domain rate)
  | .clearTimeout n => if s.allows n then some (s.clearTimeout n) else none
  | .clearInterval n => if s.allows n then some (s.clearInterval n) else none
  | .unref n => if s.allows n then some (s.unref n) else none
  | .dispose n => if s.allows n then
      some { s with timers := s.timers.call (.dispose (.timeout n)) } else none
  | .fire n => if s.callers = [] then
      (Timers.step s.timers (.fire (.list n))).map fun t => { s with timers := t } else none
  | .fireHandle n =>
    match s.handle n with
    | none => none
    | some h =>
      if s.timers.stack = [] ∧ s.callers = [] ∧ h.due.any (· ≤ s.timers.now) then
        let s := { s with handle := update s.handle n (some { h with due := none }) }
        if s.timers.disposed (.timeout n) then some s
        -- without a function there is nothing that could be called, and the process ends
        else if h.ontimeout then some { s with callers := [.handle n] } else none
      else none
  | .tick => (Timers.step s.timers .tick).map fun t => { s with timers := t }
  | .iterate =>
    match s.timers.stack with
    | .loop (.list n) now :: k =>
      let t := s.timers.listOnTimeout n now k
      -- the frame below may be that of a callback, too
      let called := if calling t ∧ t.stack.length = s.timers.stack.length then
        (s.timers.links.peek (.list n)).map Caller.list else none
      some { s with timers := t, callers := called.toList ++ s.callers }
    | _ => none
  | .ret =>
    match s.callers with
    | [] => none
    | .list item :: callers =>
      if calling s.timers then
        let s := { s with callers }.finish (.list item)
        (Timers.step s.timers .ret).map fun t => { s with timers := t }
      else none
    | .handle n :: callers =>
      if s.timers.stack = [] then some ({ s with callers }.finish (.handle n)) else none
  | .throw =>
    match s.callers with
    | [] => none
    | .list _ :: callers =>
      (Timers.step s.timers .throw).map fun t => { s with timers := t, callers }
    | .handle _ :: callers =>
      if s.timers.stack = [] then some { s with callers } else none
  | .elapse d e => (Timers.step s.timers (.elapse d e)).map fun t => { s with timers := t }

/-! ### The claim -/

/-- A timer that has been unrefed is on no list, and its handle does not keep the loop alive. -/
def Stays (s : State) : Prop := ∀ n, s.unrefed n = true →
  (∀ k, ¬ On s.timers k (.timeout n)) ∧ ∀ h, s.handle n = some h → h.refed = false

/-- The callback of an interval returns to the handle of the timer, and the interval goes on. -/
def Rearms (s : State) : Act → Prop
  | .ret =>
    match s.callers with
    | .handle n :: _ => (s.interval n).isSome = true ∧ s.repeats n = true
    | _ => False
  | _ => False

instance (s : State) (a : Act) : Decidable (Rearms s a) := by
  unfold Rearms
  split
  · split <;> infer_instance
  · infer_instance

/-! ### What holds in every state -/

/-- As long as the handle of a timer does not put it back, the timers that have one are on no
list, and neither are those whose callback is running. -/
structure Kept (s : State) (ring : Obj → List Obj) : Prop where
  good : Good s.timers ring
  made : ∀ n, s.handle n ≠ none → s.timers.known (.timeout n) = true
  off : ∀ n, s.handle n ≠ none → ∀ h, .timeout n ∉ ring h
  listed : ∀ o, .list o ∈ s.callers → (∀ h, o ∉ ring h) ∧ s.timers.known o = true
  handled : ∀ n, .handle n ∈ s.callers → s.handle n ≠ none
  distinct : s.callers.Nodup
  rate : ∀ n m, s.interval n = some m → 0 < m
  unrefed : ∀ n, s.unrefed n = true ↔ s.handle n ≠ none
  refed : ∀ n h, s.handle n = some h → h.refed = false

section

variable {s : State} {ring ring' : Obj → List Obj} {t t' : Timers.State}

lemma known_congr (h : t'.timeouts = t.timeouts) (o : Obj) : t'.known o = t.known o := by
  cases o with
  | timeout n => rw [Timers.State.known, Timers.State.known, h]
  | list n => rfl
  | unrefList => rfl
  | item n => rfl

lemma timeouts_setTimeout (t : Timers.State) (callback domain : Bool) (after : Option ℚ) :
    (t.setTimeout callback domain after).timeouts = t.timeouts + 1 := by
  have hdelay : (t.makeTimer callback domain (Timers.State.delay after)).idleTimeout
      (.timeout t.timeouts) = some (Timers.State.delay after) := update_self ..
  obtain ⟨_, _, _, _, _, _, _, heq⟩ := active_eq hdelay (delay_pos after).le
  rw [Timers.State.setTimeout, heq]
  rfl

lemma timeouts_clearTimeout (t : Timers.State) (o : Obj) :
    (t.clearTimeout o).timeouts = t.timeouts := by
  unfold Timers.State.clearTimeout
  dsimp only
  split_ifs
  · obtain ⟨_, _, _, heq⟩ := unenroll_eq { t with
      log := t.log ++ [Event.cleared o], onTimeout := update t.onTimeout o false } o
    rw [heq]
  · rfl

lemma allows_iff {n : ℕ} :
    s.allows n = true ↔ s.timers.busy = false ∧ s.timers.known (.timeout n) = true := by
  rw [State.allows, Bool.and_eq_true, Bool.not_eq_true']

/-- A timer that is on no list is put on one. -/
lemma good_active (g : Good t ring) (hbusy : t.busy = false) {n : ℕ}
    (hknown : t.known (.timeout n) = true) (hoff : ∀ h, .timeout n ∉ ring h) {rate : ℚ}
    (hrate : 0 < rate) :
    ∃ m, Good ({ t with idleTimeout := update t.idleTimeout (.timeout n) (some rate) }.active
        (.timeout n)) (behind ring (.list m) (.timeout n)) ∧
      ({ t with idleTimeout := update t.idleTimeout (.timeout n) (some rate) }.active
        (.timeout n)).timeouts = t.timeouts := by
  have hdelay : { t with
      idleTimeout := update t.idleTimeout (.timeout n) (some rate) }.idleTimeout (.timeout n) =
        some rate := update_self ..
  have hl := g.linked.setDelay hoff (some rate)
  obtain ⟨m, hactive⟩ := hl.active_of_pos hdelay hrate.le
    ((known_congr (t := t) rfl (.timeout n)).trans hknown)
  have hp := plain_active
    { t with idleTimeout := update t.idleTimeout (.timeout n) (some rate) } (.timeout n)
  refine ⟨m, g.plain hbusy hactive ⟨hp.stack, hp.ticks, hp.made, hp.unref⟩, ?_⟩
  obtain ⟨_, _, _, _, _, _, _, heq⟩ := active_eq hdelay hrate.le
  rw [heq]

/-- Code that is not of the module runs. -/
lemma busy_of_calling (h : calling t = true) : t.busy = false := by
  unfold calling at h
  unfold Timers.State.busy
  split at h
  · rename_i heq
    rw [heq]
  · cases h

namespace Kept

/-- The timers of the module go on, and nothing comes onto a list. -/
lemma shrink (k : Kept s ring) (g : Good t' ring') (hsub : ∀ h, ∀ o ∈ ring' h, o ∈ ring h)
    (htimeouts : t'.timeouts = s.timers.timeouts) : Kept { s with timers := t' } ring' := by
  refine ⟨g, fun n hn => (known_congr htimeouts _).trans (k.made n hn),
    fun n hn h hmem => k.off n hn h (hsub h _ hmem), fun o ho => ?_, k.handled, k.distinct, k.rate,
    k.unrefed, k.refed⟩
  obtain ⟨hoff, hknown⟩ := k.listed o ho
  exact ⟨fun h hmem => hoff h (hsub h o hmem), (known_congr htimeouts o).trans hknown⟩

/-- One step of the module that is neither a call nor a round. -/
lemma idle (k : Kept s ring) {a : Timers.Act} (hs : Timers.step s.timers a = some t')
    (ha : a.Idle) : Kept { s with timers := t' } ring := by
  have hstep := step_cases hs
  obtain ⟨due, unrefDue, now, date, ticks, stack, -, heq⟩ := hstep.idle_eq ha
  exact k.shrink (k.good.idle hstep ha) (fun h o ho => ho) (by rw [heq])

/-- A timer gets a handle that does not keep the loop alive, or its handle changes. -/
lemma setHandle (k : Kept s ring) {n : ℕ} (hknown : s.timers.known (.timeout n) = true)
    (hoff : ∀ h, .timeout n ∉ ring h) {h : Handle} (hrefed : h.refed = false) :
    Kept { s with handle := update s.handle n (some h), unrefed := update s.unrefed n true }
      ring := by
  refine ⟨k.good, fun m hm => ?_, fun m hm => ?_, k.listed, fun m hm => ?_, k.distinct, k.rate,
    fun m => ?_, fun m h' hm => ?_⟩
  · by_cases hmn : m = n
    · exact hmn ▸ hknown
    · dsimp only at hm
      rw [update_of_ne hmn] at hm
      exact k.made m hm
  · by_cases hmn : m = n
    · exact hmn ▸ hoff
    · dsimp only at hm
      rw [update_of_ne hmn] at hm
      exact k.off m hm
  · dsimp only
    by_cases hmn : m = n
    · rw [hmn, update_self]
      exact Option.some_ne_none h
    · rw [update_of_ne hmn]
      exact k.handled m hm
  · dsimp only
    by_cases hmn : m = n
    · rw [hmn, update_self, update_self]
      exact iff_of_true rfl (Option.some_ne_none h)
    · rw [update_of_ne hmn, update_of_ne hmn]
      exact k.unrefed m
  · dsimp only at hm
    by_cases hmn : m = n
    · rw [hmn, update_self] at hm
      exact Option.some.inj hm ▸ hrefed
    · rw [update_of_ne hmn] at hm
      exact k.refed m h' hm

/-- The handle that a timer has changes. -/
lemma changeHandle (k : Kept s ring) {n : ℕ} {h g : Handle} (hn : s.handle n = some h)
    (hrefed : g.refed = h.refed) :
    Kept { s with handle := update s.handle n (some g) } ring := by
  have hne : s.handle n ≠ none := by
    rw [hn]
    exact Option.some_ne_none h
  have hset := k.setHandle (k.made n hne) (k.off n hne) (hrefed.trans (k.refed n h hn))
  rwa [← (k.unrefed n).mpr hne, update_eq_self] at hset

/-- A timer that is new. -/
lemma created (k : Kept s ring) (hbusy : s.timers.busy = false) (callback domain repeats : Bool)
    (after interval : Option ℚ) (hrate : ∀ m, interval = some m → 0 < m) :
    ∃ ring', Kept { s with
      timers := s.timers.setTimeout callback domain after
      repeats := update s.repeats s.timers.timeouts repeats
      interval := update s.interval s.timers.timeouts interval
      handle := update s.handle s.timers.timeouts none
      unrefed := update s.unrefed s.timers.timeouts false } ring' := by
  obtain ⟨n, hl⟩ := k.good.linked.setTimeout callback domain after
  have htimeouts := timeouts_setTimeout s.timers callback domain after
  have hnew {o : Obj} (ho : s.timers.known o = true) : o ≠ .timeout s.timers.timeouts := by
    rintro rfl
    simp [Timers.State.known] at ho
  have hold {o : Obj} (ho : s.timers.known o = true) :
      (s.timers.setTimeout callback domain after).known o = true := by
    cases o with
    | timeout m =>
      simp only [Timers.State.known, htimeouts, decide_eq_true_eq] at ho ⊢
      omega
    | list m => exact ho
    | unrefList => exact ho
    | item m => exact ho
  refine ⟨_, k.good.plain hbusy hl (plain_setTimeout ..), fun m hm => ?_, fun m hm h hmem => ?_,
    fun o ho => ?_, fun m hm => ?_, k.distinct, fun m r hm => ?_, fun m => ?_, fun m h hm => ?_⟩
  · dsimp only at hm
    have hmn : m ≠ s.timers.timeouts := by
      rintro rfl
      exact hm (update_self ..)
    rw [update_of_ne hmn] at hm
    exact hold (k.made m hm)
  · dsimp only at hm
    have hmn : m ≠ s.timers.timeouts := by
      rintro rfl
      exact hm (update_self ..)
    rw [update_of_ne hmn] at hm
    rcases k.good.linked.mem_behind.mp hmem with ⟨heq, -⟩ | ⟨-, hmem⟩
    · exact hmn (Obj.timeout.inj heq)
    · exact k.off m hm h hmem
  · obtain ⟨hoff, hknown⟩ := k.listed o ho
    refine ⟨fun h hmem => ?_, hold hknown⟩
    rcases k.good.linked.mem_behind.mp hmem with ⟨heq, -⟩ | ⟨-, hmem⟩
    · exact hnew hknown heq
    · exact hoff h hmem
  · have hhandle := k.handled m hm
    dsimp only
    rwa [update_of_ne fun heq => hnew (k.made m hhandle) (congrArg Obj.timeout heq)]
  · dsimp only at hm
    by_cases hmn : m = s.timers.timeouts
    · rw [hmn, update_self] at hm
      exact hrate r hm
    · rw [update_of_ne hmn] at hm
      exact k.rate m r hm
  · dsimp only
    by_cases hmn : m = s.timers.timeouts
    · rw [hmn, update_self, update_self]
      simp
    · rw [update_of_ne hmn, update_of_ne hmn]
      exact k.unrefed m
  · dsimp only at hm
    by_cases hmn : m = s.timers.timeouts
    · rw [hmn, update_self] at hm
      cases hm
    · rw [update_of_ne hmn] at hm
      exact k.refed m h hm

lemma clearTimeout (k : Kept s ring) (hbusy : s.timers.busy = false) {n : ℕ}
    (hknown : s.timers.known (.timeout n) = true) : ∃ ring', Kept (s.clearTimeout n) ring' := by
  unfold State.clearTimeout
  cases hhandle : s.handle n with
  | none =>
    have htimeouts := timeouts_clearTimeout s.timers (.timeout n)
    have hp := plain_clearTimeout s.timers (.timeout n)
    rcases k.good.linked.clearTimeout (Timers.State.known_isItem hknown) with hl | hl
    · exact ⟨ring, k.shrink (k.good.plain hbusy hl hp) (fun h o ho => ho) htimeouts⟩
    · exact ⟨_, k.shrink (k.good.plain hbusy hl hp) (fun h o => mem_of_without) htimeouts⟩
  | some h =>
    -- the timer is on no list, and only its handle has anything to do with it
    have hidle (onTimeout : Obj → Bool) (log : List Event) :
        Kept { s with timers := { s.timers with onTimeout := onTimeout, log := log } } ring :=
      k.shrink (k.good.plain hbusy (k.good.linked.idle s.timers.idleStart onTimeout
        s.timers.disposed s.timers.unrefWhen s.timers.now s.timers.date s.timers.ticks
        s.timers.stack log) ⟨rfl, rfl, le_rfl, id⟩) (fun h o ho => ho) rfl
    dsimp only
    split_ifs
    · exact ⟨ring, (hidle _ _).changeHandle hhandle rfl⟩
    · exact ⟨ring, hidle s.timers.onTimeout _⟩

lemma clearInterval (k : Kept s ring) (hbusy : s.timers.busy = false) {n : ℕ}
    (hknown : s.timers.known (.timeout n) = true) : ∃ ring', Kept (s.clearInterval n) ring' := by
  unfold State.clearInterval
  split_ifs
  · have hrepeats : Kept { s with repeats := update s.repeats n false } ring :=
      ⟨k.good, k.made, k.off, k.listed, k.handled, k.distinct, k.rate, k.unrefed, k.refed⟩
    exact hrepeats.clearTimeout hbusy hknown
  · exact ⟨ring, k⟩

lemma unref (k : Kept s ring) (hbusy : s.timers.busy = false) {n : ℕ}
    (hknown : s.timers.known (.timeout n) = true) : ∃ ring', Kept (s.unref n) ring' := by
  unfold State.unref
  dsimp only
  cases hhandle : s.handle n with
  | none =>
    have hidle (idleStart : Obj → ℚ) :
        Good { s.timers with idleStart := idleStart } ring :=
      k.good.plain hbusy (k.good.linked.idle idleStart s.timers.onTimeout s.timers.disposed
        s.timers.unrefWhen s.timers.now s.timers.date s.timers.ticks s.timers.stack
        s.timers.log) ⟨rfl, rfl, le_rfl, id⟩
    have hout (idleStart : Obj → ℚ) : Kept { s with
        timers := { s.timers with idleStart := idleStart }.unenroll (.timeout n) }
          (without ring (.timeout n)) := by
      have hg := hidle idleStart
      obtain ⟨_, _, _, heq⟩ := unenroll_eq { s.timers with idleStart := idleStart } (.timeout n)
      refine k.shrink (hg.plain hbusy (hg.linked.unenroll trivial) (plain_unenroll ..))
        (fun h o => mem_of_without) ?_
      rw [heq]
    have hstill (idleStart : Obj → ℚ) :
        ({ s.timers with idleStart := idleStart }.unenroll (.timeout n)).known (.timeout n) =
          true := by
      obtain ⟨_, _, _, heq⟩ := unenroll_eq { s.timers with idleStart := idleStart } (.timeout n)
      rw [heq]
      exact hknown
    refine ⟨without ring (.timeout n), ?_⟩
    dsimp only
    split_ifs
    · exact (hout _).setHandle (hstill _) k.good.linked.takeOut_notMem rfl
    · exact (hout s.timers.idleStart).setHandle (hstill s.timers.idleStart)
        k.good.linked.takeOut_notMem rfl
  | some h =>
    have hne : s.handle n ≠ none := by
      rw [hhandle]
      exact Option.some_ne_none h
    have hrefed := k.refed n h hhandle
    refine ⟨ring, k.setHandle hknown (k.off n hne) ?_⟩
    unfold Handle.unref
    split_ifs
    · exact hrefed
    · rfl

/-- A callback is done. -/
lemma pop (k : Kept s ring) {c : Caller} {callers : List Caller} (hs : s.callers = c :: callers) :
    Kept { s with callers := callers } ring := by
  have hmem {c' : Caller} (h : c' ∈ callers) : c' ∈ s.callers := hs ▸ List.mem_cons_of_mem _ h
  have hdistinct := k.distinct
  rw [hs] at hdistinct
  exact ⟨k.good, k.made, k.off, fun o ho => k.listed o (hmem ho),
    fun n hn => k.handled n (hmem hn), (List.nodup_cons.mp hdistinct).2, k.rate, k.unrefed, k.refed⟩

/-- A callback that a list has called returns. -/
lemma finish_list (k : Kept s ring) {item : Obj} {callers : List Caller}
    (hs : s.callers = .list item :: callers) (hcalling : calling s.timers = true) :
    ∃ ring', Kept ({ s with callers := callers }.finish (.list item)) ring' := by
  have hpop := k.pop hs
  have hbusy := busy_of_calling hcalling
  obtain ⟨hoff, hknown⟩ := k.listed item (hs ▸ List.mem_cons_self)
  have hdistinct := k.distinct
  rw [hs] at hdistinct
  have hnew := (List.nodup_cons.mp hdistinct).1
  cases item with
  | timeout n =>
    unfold State.finish
    dsimp only
    cases hinterval : s.interval n with
    | none => exact ⟨ring, hpop⟩
    | some rate =>
      unfold State.rearm
      dsimp only
      split_ifs
      · cases hhandle : s.handle n with
        | some h =>
          refine ⟨ring, hpop.changeHandle hhandle ?_⟩
          unfold Handle.start
          split_ifs <;> rfl
        | none =>
          -- the timer comes onto a list again
          obtain ⟨m, hg, htimeouts⟩ :=
            good_active k.good hbusy hknown hoff (k.rate n rate hinterval)
          refine ⟨_, hg, fun n' hn' => (known_congr htimeouts _).trans (k.made n' hn'),
            fun n' hn' h hmem => ?_, fun o ho => ?_, hpop.handled, hpop.distinct, hpop.rate,
            hpop.unrefed, hpop.refed⟩
          · rcases k.good.linked.mem_behind.mp hmem with ⟨heq, -⟩ | ⟨-, hmem⟩
            · rw [Obj.timeout.inj heq] at hn'
              exact hn' hhandle
            · exact k.off n' hn' h hmem
          · obtain ⟨hoff', hknown'⟩ := hpop.listed o ho
            refine ⟨fun h hmem => ?_, (known_congr htimeouts o).trans hknown'⟩
            rcases k.good.linked.mem_behind.mp hmem with ⟨rfl, -⟩ | ⟨-, hmem⟩
            · exact hnew ho
            · exact hoff' h hmem
      · exact ⟨ring, hpop⟩
  | list m => exact ⟨ring, hpop⟩
  | unrefList => exact ⟨ring, hpop⟩
  | item m => exact ⟨ring, hpop⟩

/-- One round of the loop of `listOnTimeout`. -/
lemma iterate (k : Kept s ring) {n : ℕ} {now : ℚ} {frames : List Frame}
    (hs : s.timers.stack = .loop (.list n) now :: frames) {s' : State}
    (h : step s .iterate = some s') : ∃ ring', Kept s' ring' := by
  have hn := k.good.list_made hs
  have hhead : Obj.list n ∈ s.timers.heads := by simpa using hn
  have hround := k.good.linked.listOnTimeout hn now frames
  rw [step] at h
  simp only [hs] at h
  obtain rfl := Option.some.inj h
  clear h
  revert hround
  generalize s.timers.listOnTimeout n now frames = t'
  intro hround
  cases hround with
  | finish hring =>
    have hlength : ¬ (frames.length = (Frame.loop (.list n) now :: frames).length) := by simp
    refine ⟨ring, ?_⟩
    simp only [hlength, and_false, if_false, Option.toList_none, List.nil_append]
    exact k.shrink (k.good.finish hs hring) (fun h o ho => ho) rfl
  | wait first rest hring hdiff =>
    have hlength : ¬ (frames.length = (Frame.loop (.list n) now :: frames).length) := by simp
    refine ⟨ring, ?_⟩
    simp only [hlength, and_false, if_false, Option.toList_none, List.nil_append]
    refine k.shrink (k.good.wait hs _) (fun h o ho => ho) ?_
    obtain ⟨due, heq⟩ :=
      startList_eq s.timers n (s.timers.msecs n - (now - s.timers.idleStart first))
    rw [heq]
  | take first rest hring hdiff =>
    have hfirst : first ∈ ring (.list n) := hring ▸ List.mem_cons_self
    have hknown := k.good.linked.known _ hhead first hfirst
    have hpeek := k.good.linked.rings.peek hhead
    rw [hring, List.head?_cons] at hpeek
    have hg := k.good.take hs hring
    obtain ⟨f, log, heq, hf⟩ := callback_eq (s.timers.takeOut first) (.list n) now first frames
    have hshrink := k.shrink hg (fun h o => mem_of_without) (by rw [heq]; rfl)
    refine ⟨without ring first, ?_⟩
    rw [heq] at hshrink ⊢
    rw [hpeek]
    split_ifs
    · -- the callback of the first item is called
      refine ⟨hshrink.good, hshrink.made, hshrink.off, fun o ho => ?_, fun m hm => ?_, ?_,
        hshrink.rate, hshrink.unrefed, hshrink.refed⟩
      · rcases List.mem_cons.mp ho with ho | ho
        · rw [Caller.list.inj ho]
          exact ⟨k.good.linked.takeOut_notMem, (known_congr rfl first).trans hknown⟩
        · exact hshrink.listed o ho
      · rcases List.mem_cons.mp hm with hm | hm
        · cases hm
        · exact hshrink.handled m hm
      · exact List.nodup_cons.mpr ⟨fun hmem => (k.listed first hmem).1 _ hfirst, k.distinct⟩
    · exact hshrink

/-- The handle of a timer fires. -/
lemma fireHandle (k : Kept s ring) {n : ℕ} {s' : State} (h : step s (.fireHandle n) = some s') :
    Kept s' ring := by
  rw [step] at h
  cases hhandle : s.handle n with
  | none =>
    rw [hhandle] at h
    cases h
  | some hd =>
    simp only [hhandle] at h
    have hchange := k.changeHandle (g := { hd with due := none }) hhandle rfl
    split_ifs at h with hfires hdisposed hontimeout
    · obtain rfl := Option.some.inj h
      exact hchange
    · obtain rfl := Option.some.inj h
      refine ⟨hchange.good, hchange.made, hchange.off, fun o ho => ?_, fun m hm => ?_,
        List.nodup_singleton _, hchange.rate, hchange.unrefed, hchange.refed⟩
      · cases List.mem_singleton.mp ho
      · obtain rfl := Caller.handle.inj (List.mem_singleton.mp hm)
        dsimp only
        rw [update_self]
        exact Option.some_ne_none _

/-- A callback returns. What the handle of a timer has called does not put the timer back. -/
lemma ret (k : Kept s ring) {s' : State} (h : step s .ret = some s') (ha : ¬ Rearms s .ret) :
    ∃ ring', Kept s' ring' := by
  rw [step] at h
  split at h
  · cases h
  · rename_i item callers hs
    split_ifs at h with hcalling
    obtain ⟨ring', k'⟩ := k.finish_list hs hcalling
    obtain ⟨t, ht, rfl⟩ := Option.map_eq_some_iff.mp h
    exact ⟨ring', k'.idle ht trivial⟩
  · rename_i n callers hs
    split_ifs at h with hstack
    obtain rfl := Option.some.inj h
    refine ⟨ring, ?_⟩
    unfold State.finish State.rearm
    dsimp only
    cases hinterval : s.interval n with
    | none => exact k.pop hs
    | some rate =>
      dsimp only
      split_ifs with hrepeats
      · refine absurd ?_ ha
        rw [Rearms, hs]
        exact ⟨by rw [hinterval]; rfl, hrepeats⟩
      · exact k.pop hs

lemma throw (k : Kept s ring) {s' : State} (h : step s .throw = some s') : Kept s' ring := by
  rw [step] at h
  split at h
  · cases h
  · rename_i item callers hs
    obtain ⟨t, ht, rfl⟩ := Option.map_eq_some_iff.mp h
    exact (k.pop hs).idle ht trivial
  · rename_i n callers hs
    split_ifs at h with hstack
    obtain rfl := Option.some.inj h
    exact k.pop hs

/-- **One step** after which no handle has put its timer back. -/
lemma step (k : Kept s ring) {a : Act} {s' : State} (h : Intervals.step s a = some s')
    (ha : ¬ Rearms s a) : ∃ ring', Kept s' ring' := by
  cases a with
  | setTimeout callback domain after =>
    rw [Intervals.step] at h
    split_ifs at h with hbusy
    obtain rfl := Option.some.inj h
    exact k.created (Bool.eq_false_of_not_eq_true hbusy) callback domain false after none nofun
  | setInterval domain rate =>
    rw [Intervals.step] at h
    split_ifs at h with hbusy
    obtain rfl := Option.some.inj h
    refine k.created (Bool.eq_false_of_not_eq_true hbusy) true domain true rate _ fun m hm => ?_
    exact Option.some.inj hm ▸ delay_pos rate
  | clearTimeout n =>
    rw [Intervals.step] at h
    split_ifs at h with hallows
    obtain rfl := Option.some.inj h
    obtain ⟨hbusy, hknown⟩ := allows_iff.mp hallows
    exact k.clearTimeout hbusy hknown
  | clearInterval n =>
    rw [Intervals.step] at h
    split_ifs at h with hallows
    obtain rfl := Option.some.inj h
    obtain ⟨hbusy, hknown⟩ := allows_iff.mp hallows
    exact k.clearInterval hbusy hknown
  | unref n =>
    rw [Intervals.step] at h
    split_ifs at h with hallows
    obtain rfl := Option.some.inj h
    obtain ⟨hbusy, hknown⟩ := allows_iff.mp hallows
    exact k.unref hbusy hknown
  | dispose n =>
    rw [Intervals.step] at h
    split_ifs at h with hallows
    obtain rfl := Option.some.inj h
    obtain ⟨hbusy, -⟩ := allows_iff.mp hallows
    refine ⟨ring, k.shrink (k.good.plain hbusy (k.good.linked.idle s.timers.idleStart
      s.timers.onTimeout _ s.timers.unrefWhen s.timers.now s.timers.date s.timers.ticks
      s.timers.stack s.timers.log) ⟨rfl, rfl, le_rfl, id⟩) (fun h o ho => ho) rfl⟩
  | fire n =>
    rw [Intervals.step] at h
    split_ifs at h with hcallers
    obtain ⟨t, ht, rfl⟩ := Option.map_eq_some_iff.mp h
    exact ⟨ring, k.idle ht trivial⟩
  | fireHandle n => exact ⟨ring, k.fireHandle h⟩
  | tick =>
    obtain ⟨t, ht, rfl⟩ := Option.map_eq_some_iff.mp h
    exact ⟨ring, k.idle ht trivial⟩
  | iterate =>
    have hs := h
    rw [Intervals.step] at hs
    split at hs
    · rename_i n now frames hstack
      exact k.iterate hstack h
    · cases hs
  | ret => exact k.ret h ha
  | throw => exact ⟨ring, k.throw h⟩
  | elapse d e =>
    obtain ⟨t, ht, rfl⟩ := Option.map_eq_some_iff.mp h
    exact ⟨ring, k.idle ht trivial⟩

lemma stays (k : Kept s ring) : Stays s := by
  intro n hn
  have hhandle := (k.unrefed n).mp hn
  refine ⟨fun m hon => ?_, fun h hh => k.refed n h hh⟩
  exact k.off n hhandle _ ((on_iff k.good.linked).mp hon)

/-- A handle puts its timer back, and the loop is kept alive. -/
lemma not_stays (k : Kept s ring) {a : Act} {s' : State} (h : Intervals.step s a = some s')
    (ha : Rearms s a) : ¬ Stays s' := by
  obtain ⟨rfl, n, callers, hs, hinterval, hrepeats⟩ : a = .ret ∧ ∃ n callers,
      s.callers = .handle n :: callers ∧ (s.interval n).isSome = true ∧ s.repeats n = true := by
    unfold Rearms at ha
    split at ha
    · split at ha
      · rename_i n callers hs
        exact ⟨rfl, n, callers, hs, ha⟩
      · exact ha.elim
    · exact ha.elim
  obtain ⟨rate, hrate⟩ := Option.isSome_iff_exists.mp hinterval
  rw [Intervals.step] at h
  simp only [hs] at h
  split_ifs at h with hstack
  obtain rfl := Option.some.inj h
  have hhandle := k.handled n (hs ▸ List.mem_cons_self)
  have hbusy : s.timers.busy = false := by rw [Timers.State.busy, hstack]
  obtain ⟨m, hg, -⟩ :=
    good_active k.good hbusy (k.made n hhandle) (k.off n hhandle) (k.rate n rate hrate)
  have hback : { s with callers := callers }.finish (.handle n) = { s with
      callers := callers
      timers := { s.timers with
        idleTimeout := update s.timers.idleTimeout (.timeout n) (some rate) }.active
          (.timeout n) } := by
    unfold State.finish State.rearm
    dsimp only
    rw [hrate]
    exact if_pos hrepeats
  intro hstays
  rw [hback] at hstays
  refine (hstays n ((k.unrefed n).mpr hhandle)).1 m ((on_iff hg.linked).mpr ?_)
  exact k.good.linked.mem_behind.mpr (.inl ⟨rfl, rfl⟩)

end Kept

lemma kept_start : Kept start fun _ => [] :=
  ⟨good_start, fun _ hn => absurd rfl hn, fun _ hn => absurd rfl hn,
    fun _ ho => absurd ho List.not_mem_nil, fun _ hn => absurd hn List.not_mem_nil, List.nodup_nil,
    nofun, fun _ => iff_of_false Bool.false_ne_true fun hn => hn rfl, nofun⟩

lemma kept_of_run (h : Run step (fun s a _ => ¬ Rearms s a) start s) : ∃ ring, Kept s ring := by
  refine h.invariant (I := fun s => ∃ ring, Kept s ring) ⟨_, kept_start⟩ ?_
  rintro s a s' ⟨ring, k⟩ hs ha
  exact k.step hs ha

/-- **Timers that have been unrefed stay so**, until the callback of an interval returns to the
handle of its timer while the interval goes on; then, and only then, one does not. -/
theorem unref_stays_iff (h : Run step (fun s a _ => ¬ Rearms s a) start s) :
    Stays s ∧ ∀ a s', step s a = some s' → (Stays s' ↔ ¬ Rearms s a) := by
  obtain ⟨ring, k⟩ := kept_of_run h
  refine ⟨k.stays, fun a s' hs => ⟨fun hstays ha => k.not_stays hs ha hstays, fun ha => ?_⟩⟩
  obtain ⟨ring', k'⟩ := k.step hs ha
  exact k'.stays

/-- A timeout and an interval are unrefed and fire; the callback of the interval clears it. -/
def cleared : List Act :=
  [.setTimeout true false (some 10), .unref 0, .setInterval false (some 10), .unref 1,
    .elapse 10 10, .fireHandle 0, .ret, .fireHandle 1, .clearInterval 1, .ret]

theorem unref_stays_iff_cleared : ∃ s,
    (Run step (fun s a _ => ¬ Rearms s a) start s ∧ s.unrefed 0 = true ∧ s.unrefed 1 = true) ∧
    Stays s ∧ ∀ a s', step s a = some s' → (Stays s' ↔ ¬ Rearms s a) := by
  have hrun : ((cleared.foldlM (fun s a => if ¬ Rearms s a then step s a else none) start).any
      fun s => s.unrefed 0 && s.unrefed 1) = true := by
    decide +kernel
  rw [Option.any_eq_true] at hrun
  obtain ⟨s, hs, hp⟩ := hrun
  rw [Bool.and_eq_true] at hp
  exact ⟨s, ⟨.of_checked hs, hp⟩, unref_stays_iff (.of_checked hs)⟩

/-- An interval that is unrefed and fires once. -/
def once : List Act :=
  [.setInterval false (some 10), .unref 0, .elapse 10 10, .fireHandle 0, .ret]

/-- It is on a list again. -/
theorem not_stays_once : ¬ ∀ s, Run step (fun _ _ _ => True) start s → Stays s := by
  intro h
  have hrun : ((once.foldlM step start).any fun s => s.unrefed 0 && decide (1 < s.timers.made) &&
      decide (Ring s.timers.links (.list 1) [.timeout 0])) = true := by
    decide +kernel
  rw [Option.any_eq_true] at hrun
  obtain ⟨s, hs, hp⟩ := hrun
  simp only [Bool.and_eq_true, decide_eq_true_eq] at hp
  obtain ⟨⟨hunrefed, hmade⟩, hring⟩ := hp
  exact (h s (.of_foldlM hs) 0 hunrefed).1 1 ⟨hmade, _, hring, List.mem_cons_self⟩

end

end NodeCore.Intervals
