import Mathlib.Data.Fintype.Card
import Mathlib.Data.Fin.Basic
import NodeCore.Forest

/-!
Domains: the stack of those that have been entered, and what has been added to which.

A program is what user code calls, with what in turn is called meanwhile. Its run lists the calls
that have returned, each with the state before and after.
-/

namespace NodeCore.Domain

open NodeCore.Forest

/-- What can be added to one of `n` domains. -/
inductive Obj (n : ℕ)
  | domain (d : Fin n)
  | emitter (k : ℕ)
  | timer (k : ℕ)
  deriving DecidableEq

variable {n : ℕ}

structure State (n : ℕ) where
  /-- The domain that was entered last comes first. -/
  stack : List (Fin n)
  /-- `exports.active` and `process.domain`, which are always assigned together; `null` and
  `undefined` are no domain. -/
  active : Option (Fin n)
  /-- `ee.domain`. -/
  link : Obj n → Option (Fin n)
  members : Fin n → List (Obj n)
  _disposed : Fin n → Bool

/-- An emitter or a timer has been made with the domain that was active then; a domain has none. -/
def State.start (link : Obj n → Option (Fin n)) : State n where
  stack := []
  active := none
  link
    | .domain _ => none
    | e => link e
  members _ := []
  _disposed _ := false

/-- The stack after pops until `d` has come, or nothing more. -/
def popUntil (d : Fin n) : List (Fin n) → List (Fin n)
  | [] => []
  | e :: stack => if e = d then stack else popUntil d stack

namespace State

variable (s : State n)

/-- The domain above a domain. -/
def parent (d : Fin n) : Option (Fin n) := s.link (.domain d)

def enter (d : Fin n) : State n :=
  if s._disposed d then s else { s with stack := d :: s.stack, active := some d }

def exit (d : Fin n) : State n :=
  if s._disposed d then s
  else { s with stack := popUntil d s.stack, active := (popUntil d s.stack).head? }

def remove (d : Fin n) (ee : Obj n) : State n :=
  { s with
    link := Function.update s.link ee none
    members := Function.update s.members d ((s.members d).erase ee) }

/-- The last two lines of `add`. -/
def join (d : Fin n) (ee : Obj n) : State n :=
  { s with
    link := Function.update s.link ee (some d)
    members := Function.update s.members d (s.members d ++ [ee]) }

/-- Taken from the domain that it has. -/
def detach (ee : Obj n) : State n :=
  match s.link ee with
  | some d => s.remove d ee
  | none => s

/-- Whether the loop over `this.domain` and up meets `ee`. It has passed all domains after `n`
steps, so without an answer by then it does not end. -/
def circular (d : Fin n) : Obj n → Option Bool
  | .domain e =>
    match s.parent d with
    | some p => climb s.parent n p e
    | none => some false
  | _ => some false

/-- Whether a circle is the reason to return, and the state; nothing when `add` does not. -/
def add (d : Fin n) (ee : Obj n) : Option (Bool × State n) :=
  if s._disposed d then some (false, s)
  else if s.link ee = some d then some (false, s)
  else ((s.detach ee).circular d ee).map fun refused =>
    (refused, if refused then s.detach ee else (s.detach ee).join d ee)

/-- What `dispose` does when user code has been told. -/
def finish (d : Fin n) : State n :=
  let s := s.detach (.domain d)
  { s with
    members := Function.update s.members d []
    _disposed := Function.update s._disposed d true }

end State

/-- What user code does. -/
inductive Program (n : ℕ)
  | done
  | throw
  | enter (d : Fin n) (rest : Program n)
  | exit (d : Fin n) (rest : Program n)
  | add (d : Fin n) (ee : Obj n) (rest : Program n)
  | remove (d : Fin n) (ee : Obj n) (rest : Program n)
  /-- `body` is what runs in listeners and in the end methods of the members. -/
  | dispose (d : Fin n) (body rest : Program n)
  /-- A function that `bind` has made, as `run` does, is called. The domain is not entered when
  `this` is a domain, or when `intercept` emits the error instead. -/
  | call (d : Fin n) (enters : Bool) (body rest : Program n)
  /-- What `body` throws is caught. -/
  | attempt (body rest : Program n)

/-- A call that has returned: before is `s`, after is `t`, and `u` is when `body` has run. -/
inductive Step (n : ℕ)
  | enter (d : Fin n) (s t : State n)
  | exit (d : Fin n) (s t : State n)
  | add (d : Fin n) (ee : Obj n) (refused : Bool) (s t : State n)
  | remove (d : Fin n) (ee : Obj n) (s t : State n)
  | dispose (d : Fin n) (s u t : State n)
  | call (d : Fin n) (enters : Bool) (s u t : State n)

inductive Ending
  | normal | thrown | hangs
  deriving DecidableEq

structure Run (n : ℕ) where
  ending : Ending
  state : State n
  steps : List (Step n)

/-- First `r`, and what comes then when it ends normally. -/
def Run.andThen (r : Run n) (next : State n → Run n) : Run n :=
  match r.ending with
  | .normal => let q := next r.state; ⟨q.ending, q.state, r.steps ++ q.steps⟩
  | _ => r

/-- One call that returns. -/
def Run.one (step : Step n) (t : State n) : Run n := ⟨.normal, t, [step]⟩

def exec : Program n → State n → Run n
  | .done, s => ⟨.normal, s, []⟩
  | .throw, s => ⟨.thrown, s, []⟩
  | .enter d rest, s => (Run.one (.enter d s (s.enter d)) (s.enter d)).andThen (exec rest)
  | .exit d rest, s => (Run.one (.exit d s (s.exit d)) (s.exit d)).andThen (exec rest)
  | .add d ee rest, s =>
    match s.add d ee with
    | none => ⟨.hangs, s, []⟩
    | some (refused, t) => (Run.one (.add d ee refused s t) t).andThen (exec rest)
  | .remove d ee rest, s =>
    (Run.one (.remove d ee s (s.remove d ee)) (s.remove d ee)).andThen (exec rest)
  | .dispose d body rest, s =>
    if s._disposed d then (Run.one (.dispose d s s s) s).andThen (exec rest)
    else
      ((exec body (s.exit d)).andThen fun u =>
        Run.one (.dispose d s u (u.finish d)) (u.finish d)).andThen (exec rest)
  | .call d enters body rest, s =>
    if s._disposed d then (Run.one (.call d enters s s s) s).andThen (exec rest)
    else
      ((exec body (if enters then s.enter d else s)).andThen fun u =>
        let t := if enters then u.exit d else u
        Run.one (.call d enters s u t) t).andThen (exec rest)
  | .attempt body rest, s =>
    let r := exec body s
    match r.ending with
    | .thrown => (Run.mk .normal r.state r.steps).andThen (exec rest)
    | _ => r.andThen (exec rest)

/-! ### What a run consists of -/

namespace Run

variable {r : Run n} {next : State n → Run n} {step : Step n} {t : State n}

lemma andThen_normal (h : r.ending = .normal) : r.andThen next =
    ⟨(next r.state).ending, (next r.state).state, r.steps ++ (next r.state).steps⟩ := by
  unfold andThen
  rw [h]

lemma andThen_other (h : r.ending ≠ .normal) : r.andThen next = r := by
  unfold andThen
  split
  · exact absurd ‹_› h
  · rfl

/-- If `C` holds of all steps, then so does `P`, and `I` of the end. -/
def All (C P : Step n → Prop) (I : State n → Prop) (r : Run n) : Prop :=
  (∀ step ∈ r.steps, C step) → (∀ step ∈ r.steps, P step) ∧ I r.state

variable {C P : Step n → Prop} {I : State n → Prop}

lemma All.none {e : Ending} (hI : I t) : (Run.mk e t []).All C P I :=
  fun _ => ⟨List.forall_mem_nil P, hI⟩

lemma All.one (h : C step → P step ∧ I t) : (Run.one step t).All C P I := fun hC =>
  have hstep := h (hC step (List.mem_singleton_self step))
  ⟨fun _ hs => List.mem_singleton.mp hs ▸ hstep.1, hstep.2⟩

lemma All.andThen (h : r.All C P I) (hnext : ∀ s, I s → (next s).All C P I) :
    (r.andThen next).All C P I := by
  by_cases hr : r.ending = .normal
  · rw [andThen_normal hr]
    intro hC
    obtain ⟨hsteps, hI⟩ := h fun step hs => hC step (List.mem_append_left _ hs)
    obtain ⟨hsteps', hI'⟩ := hnext _ hI fun step hs => hC step (List.mem_append_right _ hs)
    exact ⟨fun step hs => (List.mem_append.mp hs).elim (hsteps step) (hsteps' step), hI'⟩
  · rwa [andThen_other hr]

end Run

/-- What is asked of the calls, to know of all steps and states of a run whose steps meet `C`. -/
structure Kept (C P : Step n → Prop) (I : State n → Prop) : Prop where
  enter : ∀ d s, I s → P (.enter d s (s.enter d)) ∧ I (s.enter d)
  exit : ∀ d s, I s → P (.exit d s (s.exit d)) ∧ I (s.exit d)
  add : ∀ d ee refused s t, I s → s.add d ee = some (refused, t) → C (.add d ee refused s t) →
    P (.add d ee refused s t) ∧ I t
  remove : ∀ d ee s, I s → P (.remove d ee s (s.remove d ee)) ∧ I (s.remove d ee)
  disposed : ∀ d s, I s → s._disposed d = true → P (.dispose d s s s)
  dispose : ∀ d s u, I s → s._disposed d = false → I u →
    P (.dispose d s u (u.finish d)) ∧ I (u.finish d)
  idle : ∀ d enters s, I s → s._disposed d = true → P (.call d enters s s s)
  call : ∀ d enters s u, I s → s._disposed d = false → I u →
    P (.call d enters s u (if enters then u.exit d else u))

/-- **A run**, when each call keeps what holds. -/
lemma Kept.exec {C P : Step n → Prop} {I : State n → Prop} (h : Kept C P I) (p : Program n)
    (s : State n) (hs : I s) : (exec p s).All C P I := by
  induction p generalizing s with
  | done => exact .none hs
  | throw => exact .none hs
  | enter d rest ih => exact (Run.All.one fun _ => h.enter d s hs).andThen ih
  | exit d rest ih => exact (Run.All.one fun _ => h.exit d s hs).andThen ih
  | add d ee rest ih =>
    unfold Domain.exec
    cases ha : s.add d ee with
    | none => exact .none hs
    | some x => exact (Run.All.one fun hC => h.add d ee x.1 s x.2 hs ha hC).andThen ih
  | remove d ee rest ih => exact (Run.All.one fun _ => h.remove d ee s hs).andThen ih
  | dispose d body rest ihBody ih =>
    unfold Domain.exec
    cases hd : s._disposed d with
    | true => exact (Run.All.one fun _ => ⟨h.disposed d s hs hd, hs⟩).andThen ih
    | false =>
      refine Run.All.andThen ((ihBody _ (h.exit d s hs).2).andThen fun u hu => ?_) ih
      exact .one fun _ => h.dispose d s u hs hd hu
  | call d enters body rest ihBody ih =>
    unfold Domain.exec
    cases hd : s._disposed d with
    | true => exact (Run.All.one fun _ => ⟨h.idle d enters s hs hd, hs⟩).andThen ih
    | false =>
      have hbegin : I (if enters then s.enter d else s) := by
        cases enters with
        | true => exact (h.enter d s hs).2
        | false => exact hs
      have hend : ∀ u, I u → I (if enters then u.exit d else u) := fun u hu => by
        cases enters with
        | true => exact (h.exit d u hu).2
        | false => exact hu
      refine Run.All.andThen ((ihBody _ hbegin).andThen fun u hu => ?_) ih
      exact .one fun _ => ⟨h.call d enters s u hs hd hu, hend u hu⟩
  | attempt body rest ihBody ih =>
    have hbody := ihBody s hs
    unfold Domain.exec
    dsimp only
    split
    · exact Run.All.andThen hbody ih
    · exact hbody.andThen ih

end NodeCore.Domain
