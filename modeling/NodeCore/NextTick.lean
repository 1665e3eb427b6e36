import NodeCore.Reentrant

/-!
`process.nextTick`: the queue of callbacks that run before the event loop goes on, shared between
`startup.processNextTick` and `MakeCallback`, and what becomes of an exception.

Foreign code is the scripts, the callbacks and the handlers of exceptions. An exception that nobody
handles ends the process, which takes no further step.
-/

namespace NodeCore.NextTick

open NodeCore.Reentrant

/-! ### State -/

structure Tock where
  callback : ℕ
  domain : Option ℕ
  deriving DecidableEq

inductive Frame
  /-- `_tickCallback` runs a callback. -/
  | tick
  /-- `_tickDomainCallback` runs a callback, in a domain or in none. -/
  | domainTick (domain : Option ℕ)
  /-- `MakeCallback` runs its callback. -/
  | call (domain : Option ℕ)
  /-- `MakeCallback` runs the queue. -/
  | ticked
  /-- `_fatalException` runs the handlers of a domain or of the process, for a handler of
  `depth` other domains that threw. -/
  | fatal (domain : Option ℕ) (depth : ℕ)
  /-- Native code returns to the script that called it, or to the event loop. -/
  | boundary
  deriving DecidableEq

namespace Frame

def isBoundary : Frame → Bool
  | boundary => true
  | _ => false

/-- A loop over the queue. -/
def loops : Frame → Bool
  | tick => true
  | domainTick _ => true
  | _ => false

end Frame

structure State where
  queue : List Tock
  /-- `infoBox[kLength]` and `infoBox[kIndex]`. -/
  length : ℕ
  index : ℕ
  inTick : Bool
  lastThrew : Bool
  usingDomains : Bool
  exiting : Bool
  /-- `process.domain`, and `domain._stack` from the top. -/
  domain : Option ℕ
  stack : List ℕ
  disposed : List ℕ
  /-- The immediates that call `_tickCallback`, or `_tickDomainCallback`. -/
  immediates : List Bool
  /-- Everything that has been queued. -/
  history : List Tock
  /-- What has been taken from the queue, and whether it was called. -/
  log : List (Tock × Bool)
  /-- A loop over the queue is active. -/
  looping : Bool
  /-- How often the queue has been found waiting, with no loop active. -/
  calls : ℕ

def init : State where
  queue := []
  length := 0
  index := 0
  inTick := false
  lastThrew := false
  usingDomains := false
  exiting := false
  domain := none
  stack := []
  disposed := []
  immediates := []
  history := []
  log := []
  looping := false
  calls := 0

namespace State

variable (s : State)

/-! ### Domains -/

/-- `Domain.prototype.enter`. -/
def enter (d : ℕ) : State :=
  if d ∈ s.disposed then s else { s with domain := some d, stack := d :: s.stack }

/-- `Domain.prototype.exit`. -/
def exit (d : ℕ) : State :=
  if d ∈ s.disposed then s
  else
    let stack := (s.stack.dropWhile (· ≠ d)).tail
    { s with domain := stack.head?, stack := stack }

def exitOf : Option ℕ → State
  | none => s
  | some d => s.exit d

lemma enter_frame (d : ℕ) :
    ∃ domain stack, s.enter d = { s with domain := domain, stack := stack } := by
  unfold enter
  split_ifs <;> exact ⟨_, _, rfl⟩

lemma exitOf_frame (d : Option ℕ) :
    ∃ domain stack, s.exitOf d = { s with domain := domain, stack := stack } := by
  unfold exitOf exit
  split
  · exact ⟨_, _, rfl⟩
  · dsimp only
    split_ifs <;> exact ⟨_, _, rfl⟩

/-! ### The queue -/

/-- `nextTick`, and `_nextDomainTick` in its place once domains are used. -/
def nextTick (callback : ℕ) : State :=
  if s.exiting then s
  else
    let tock : Tock := ⟨callback, if s.usingDomains then s.domain else none⟩
    { s with queue := s.queue ++ [tock], length := s.length + 1, history := s.history ++ [tock] }

def tickDone : State :=
  let s :=
    if s.length ≠ 0 then
      if s.length ≤ s.index then { s with queue := [], length := 0 }
      else
        let queue := s.queue.drop s.index
        { s with queue := queue, length := queue.length }
    else s
  { s with inTick := false, index := 0 }

@[simp] lemma tickDone_log : s.tickDone.log = s.log := by
  unfold tickDone
  split_ifs <;> rfl

@[simp] lemma tickDone_calls : s.tickDone.calls = s.calls := by
  unfold tickDone
  split_ifs <;> rfl

/-- `nextTickQueue[infoBox[kIndex]++]`. -/
def take (tock : Tock) (called : Bool) : State :=
  { s with index := s.index + 1, log := s.log ++ [(tock, called)] }

/-- A loop ends. -/
def leave : State := { s with looping := false }

/-- A loop starts. -/
def start : State := { s with inTick := true, looping := true }

/-- The queue is found waiting. -/
def found : State :=
  { s with calls := if s.looping || s.queue = [] then s.calls else s.calls + 1 }

/-- The loop of `_tickCallback`; the index does not pass the end of the queue. -/
def tickLoop : Res State Frame :=
  if s.index < s.length then
    match s.queue[s.index]? with
    | none => .ret s
    | some tock => .call (s.take tock true) [.tick]
  else .ret s.tickDone.leave

/-- The loop of `_tickDomainCallback`, which has `n` callbacks before it. -/
def domainLoop : ℕ → State → Res State Frame
  | 0, s => .ret s.tickDone.leave
  | n + 1, s =>
    match s.queue[s.index]? with
    | none => .ret s
    | some tock =>
      match tock.domain with
      | none => .call { s.take tock true with lastThrew := true } [.domainTick none]
      | some d =>
        if d ∈ s.disposed then domainLoop n (s.take tock false)
        else .call { (s.take tock true).enter d with lastThrew := true } [.domainTick (some d)]

def tickCallback : Res State Frame :=
  let s := s.found
  if s.inTick then .ret s
  else if s.length = 0 then .ret { s with index := 0 }
  else s.start.tickLoop

def tickDomainCallback : Res State Frame :=
  let s := s.found
  if s.lastThrew then .ret { s with lastThrew := false }
  else if s.inTick then .ret s
  else if s.length = 0 then .ret { s with index := 0 }
  else domainLoop (s.length - s.index) s.start

/-- `process._tickCallback`, before and after `_setupDomainUse`. -/
def tickFunction (domains : Bool) : Res State Frame :=
  if domains then s.tickDomainCallback else s.tickCallback

/-! ### `MakeCallback` -/

/-- The end of `MakeCallback`. -/
def processTicks : Res State Frame :=
  if s.length = 0 then .ret { s with index := 0 }
  else (s.tickFunction s.usingDomains).andThen .ticked .ret

/-- `MakeCallback`, for an object with a domain or without one. -/
def makeCallback (domain : Option ℕ) (callback : State → Res State Frame) : Res State Frame :=
  match (if s.usingDomains then domain else none) with
  | none => (callback s).andThen (.call none) processTicks
  | some d =>
    if d ∈ s.disposed then .ret s
    else (callback (s.enter d)).andThen (.call (some d)) fun s => (s.exit d).processTicks

/-- A handler returns, and `_fatalException` schedules `_tickCallback`. -/
def handled (domain : Option ℕ) (depth : ℕ) : State :=
  let s := if domain.isSome then { s with domain := none, stack := [] } else s
  { s with immediates := s.immediates ++ List.replicate (depth + 1) s.usingDomains }

end State

/-! ### Steps -/

/-- What follows foreign code that returns. -/
def exec (s : State) : Frame → Res State Frame
  | .tick => s.tickLoop
  | .domainTick domain =>
    let s := { s with lastThrew := false }.exitOf domain
    State.domainLoop (s.length - s.index) s
  | .call domain => (s.exitOf domain).processTicks
  | .ticked => .ret s
  | .fatal domain depth => .ret (s.handled domain depth)
  | .boundary => .ret s

/-- `FatalException`: the handlers run, those of the active domain if there is one. -/
def fatalException (s : State) (depth : ℕ) (k : List Frame) : Machine State Frame :=
  match s.domain with
  | none => ⟨s, .fatal none depth :: k⟩
  | some d =>
    if d ∈ s.disposed then
      resume exec Frame.isBoundary
        { s with immediates := s.immediates ++ List.replicate depth s.usingDomains } k
    else ⟨s, .fatal (some d) depth :: k⟩

/-- An exception that foreign code throws. -/
def unwind (s : State) : List Frame → Option (Machine State Frame)
  | [] => none
  | .tick :: k => unwind s.tickDone.leave k
  -- only with `lastThrew` set does `finally` call `tickDone`
  | .domainTick _ :: k => unwind (if s.lastThrew then s.tickDone else s).leave k
  | .call _ :: k => some (fatalException s 0 k)
  | .ticked :: k => some (fatalException s 0 k)
  -- a handler of the process threw
  | .fatal none _ :: _ => none
  -- a handler of a domain threw, and the domain around it is asked
  | .fatal (some d) depth :: k =>
    match (if s.domain = some d then s.stack.tail else s.stack) with
    | [] => none
    | top :: below =>
      some (fatalException { s with domain := some top, stack := top :: below } (depth + 1) k)
  | .boundary :: k => some ⟨s, k⟩

inductive Act
  /-- Native code calls a script, from the event loop or from a script. -/
  | makeCallback (domain : Option ℕ)
  /-- The event loop runs an immediate of `_fatalException`. -/
  | immediate
  | nextTick (callback : ℕ)
  /-- A script calls `_tickCallback`, or `_tickDomainCallback`. -/
  | tickCallback (domains : Bool)
  /-- `_setupDomainUse`. -/
  | useDomains
  | enter (d : ℕ)
  | exit (d : ℕ)
  /-- The end of `Domain.prototype.dispose`. -/
  | dispose (d : ℕ)
  /-- `process._exiting` is set. -/
  | exiting
  | ret
  | throw
  deriving DecidableEq

/-- A script runs, and not the event loop. -/
def script (m : Machine State Frame) (s : State) : Option (Machine State Frame) :=
  if m.stack = [] then none else some { m with st := s }

def step (m : Machine State Frame) : Act → Option (Machine State Frame)
  | .makeCallback domain =>
    some (Reentrant.enter .boundary m (m.st.makeCallback domain (.call · [])))
  | .immediate =>
    match m.stack, m.st.immediates with
    | [], domains :: rest =>
      some (Reentrant.enter .boundary m (m.st.makeCallback m.st.domain
        fun s => { s with immediates := rest }.tickFunction domains))
    | _, _ => none
  | .nextTick callback => script m (m.st.nextTick callback)
  | .tickCallback domains =>
    if m.stack = [] || domains && !m.st.usingDomains then none
    else some (Reentrant.enter .boundary m (m.st.tickFunction domains))
  | .useDomains => script m { m.st with usingDomains := true }
  | .enter d => script m (m.st.enter d)
  | .exit d => script m (m.st.exit d)
  | .dispose d => script m { m.st with disposed := d :: m.st.disposed }
  | .exiting => script m { m.st with exiting := true }
  | .ret =>
    if m.stack = [] then none else some (resume exec Frame.isBoundary m.st m.stack)
  | .throw => unwind m.st m.stack

def start : Machine State Frame := ⟨init, []⟩

end NodeCore.NextTick
