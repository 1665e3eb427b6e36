import NodeCore.HttpResponse
import NodeCore.Reentrant

/-!
`connectionListener` of an HTTP server: the requests that come over one connection, and the
responses that take turns on its socket.

A request and its response have one number, in the order in which they come. Foreign code runs in
the listeners of the events, those of `'finish'` that come after the server's own included. A
write that fails destroys the socket after it has returned.
-/

namespace NodeCore.HttpOutgoing

/-- `ServerResponse.prototype.writeContinue`. -/
def ServerResponse.writeContinue (r : ServerResponse) : ServerResponse :=
  { r with toOutgoingMessage := r.toOutgoingMessage.writeContinue, sent100 := true }

end NodeCore.HttpOutgoing

namespace NodeCore.HttpPipeline

open NodeCore.Encoding NodeCore.HttpOutgoing NodeCore.Reentrant

/-! ### State -/

inductive Record
  /-- `socket.write` on behalf of a response. -/
  | wrote (i : ℕ) (x : Entry)
  /-- The `'finish'` of a response, with its `finished` and its `output`. -/
  | finish (i : ℕ) (finished : Bool) (output : List Entry)
  /-- The socket is destroyed. -/
  | destroyed
  deriving DecidableEq

structure State where
  responses : ℕ → ServerResponse
  /-- How many requests there have been. -/
  count : ℕ
  incoming : List ℕ
  outgoing : List ℕ
  /-- `socket._httpMessage`. -/
  httpMessage : Option ℕ
  writable : Bool
  destroyed : Bool
  corked : ℕ
  /-- What `socket.write` returns. -/
  room : Bool
  /-- The socket has ended, or closed: no request comes any more. -/
  ended : Bool
  /-- `abortIncoming` has taken out a request. -/
  aborted : Bool
  /-- The assertion about `incoming` has failed. -/
  failed : Bool
  log : List Record

def State.new : State where
  responses _ := .new ⟨[], 1, 1, none⟩
  count := 0
  incoming := []
  outgoing := []
  httpMessage := none
  writable := true
  destroyed := false
  corked := 0
  room := true
  ended := false
  aborted := false
  failed := false
  log := []

/-- The rest of a function, after foreign code it called. -/
inductive Frame
  /-- Foreign code called here. -/
  | user
  /-- In `assignSocket`, before `_flush`. -/
  | flush (i : ℕ)
  /-- In `_finish`, before the other listeners of `'finish'`. -/
  | listeners
  /-- In `abortIncoming` of the socket's `'end'` or `'close'`, after an `'aborted'`. -/
  | aborted (close : Bool)
  /-- In `abortIncoming`, after the `'close'` of a request. -/
  | abort (close : Bool)
  deriving DecidableEq

abbrev Outcome := Res State Frame

/-! ### Calls of a handler -/

inductive Call
  | setHeader (name : Str) (value : HeaderValue)
  | removeHeader (name : Str)
  | statusCode (code : ℕ)
  | addTrailers (headers : List (Str × Str))
  | writeContinue
  | writeHead (statusCode : ℕ) (reasonPhrase : Option Str) (obj : Option HeadersArg)
  | write (chunk : Data) (encoding : EncArg)
  | end (data : Option Data) (encoding : EncArg)

/-- What the call makes of the response. One that throws leaves it as it is. -/
def Call.run (date : Str) (r : ServerResponse) : Call → ServerResponse
  | .setHeader name value => (r.setHeader name value).getD r
  | .removeHeader name => (r.removeHeader name).getD r
  | .statusCode code => { r with statusCode := some code }
  | .addTrailers headers => r.addTrailers headers
  | .writeContinue => r.writeContinue
  | .writeHead code reason obj => (r.writeHead date code reason obj).getD r
  | .write chunk encoding => r.write date chunk encoding
  | .end data encoding => r.end date data encoding

/-! ### The responses and the socket -/

namespace State

variable (t : State)

/-- The socket as the response sees it. -/
def connection (i : ℕ) : Connection where
  mine := t.httpMessage = some i
  writable := t.writable
  destroyed := t.destroyed
  corked := t.corked
  room := t.room
  written := []

/-- The response before one of its functions runs. -/
def response (i : ℕ) : ServerResponse :=
  let r := t.responses i
  { r with connection := r.connection.map fun _ => t.connection i, emitted := [] }

/-- One of its functions has run. -/
def keep (i : ℕ) (r : ServerResponse) : State :=
  { t with
    responses := Function.update t.responses i r
    corked := (r.connection.map Connection.corked).getD t.corked
    log := t.log ++ (r.connection.elim [] Connection.written).map (.wrote i) }

/-- `socket.end`, and `socket.destroySoon`; what this destroys in the end is an act of its own. -/
def endSocket : State := { t with writable := false }

/-- `socket.destroy`. -/
def destroy : State :=
  { t with writable := false, destroyed := true, log := t.log ++ [.destroyed] }

/-- `assignSocket` up to the `'socket'` event. -/
def assign (i : ℕ) : State :=
  { t with
    httpMessage := some i
    responses := Function.update t.responses i
      { t.responses i with connection := some (t.connection i) } }

/-- `assignSocket`, whose assertion may fail. -/
def assignSocket (i : ℕ) : Outcome :=
  if t.httpMessage.isSome then .ret t else .call (t.assign i) [.flush i]

/-- `detachSocket`, after its assertion. -/
def detach (i : ℕ) : State :=
  { t with
    httpMessage := none
    responses := Function.update t.responses i { t.responses i with connection := none } }

/-- The server's listener of `'finish'`. -/
def onFinish (i : ℕ) : Outcome :=
  if t.incoming ≠ [] ∧ t.incoming.head? ≠ some i then .ret { t with failed := true }
  else
    let t := { t with incoming := t.incoming.tail }
    if t.httpMessage ≠ some i then .ret t
    else
      let t := t.detach i
      if (t.responses i).last then .ret t.endSocket
      else match t.outgoing with
        | [] => .ret t
        | m :: outgoing => { t with outgoing := outgoing }.assignSocket m

/-- `'finish'` is emitted. -/
def finish (i : ℕ) : Outcome :=
  let r := t.responses i
  ({ t with log := t.log ++ [Record.finish i r.finished r.output] }.onFinish i).andThen .listeners
    fun t => .call t []

/-- A function of the response, with the event that it ends with. -/
def perform (i : ℕ) (r : ServerResponse) : Outcome :=
  let t := t.keep i r
  match r.emitted with
  | .finish :: _ => t.finish i
  | .drain :: _ => .call t []
  | _ => .ret t

/-- `_flush`. -/
def flush (i : ℕ) : Outcome :=
  let r := t.response i
  t.perform i { r with toOutgoingMessage := r.toOutgoingMessage.flush }

/-- The loop of `abortIncoming`, and the rest of its caller. -/
def abort (close : Bool) : Outcome :=
  match t.incoming with
  | _ :: incoming => .call { t with incoming := incoming, aborted := true } [.aborted close]
  | [] => if close then .call t [] else .ret t.endSocket

/-- `socket.onend`; an error of `parser.finish` is an act of its own. -/
def onend (httpAllowHalfOpen : Bool) : Outcome :=
  let t := { t with ended := true }
  if !httpAllowHalfOpen then t.abort false
  else
    let last (i : ℕ) : State :=
      { t with responses := Function.update t.responses i { t.responses i with last := true } }
    match t.outgoing.getLast?, t.httpMessage with
    | some i, _ => .ret (last i)
    | none, some i => .ret (last i)
    | none, none => .ret t.endSocket

/-- `parser.onIncoming`. The request may expect `100-continue`, which a listener may check. -/
def onIncoming (req : Request) (shouldKeepAlive expect check : Bool) : Outcome :=
  let i := t.count
  let r := { ServerResponse.new req with shouldKeepAlive := shouldKeepAlive }
  let t := { t with
    responses := Function.update t.responses i r
    count := i + 1
    incoming := t.incoming ++ [i] }
  -- a new response has no listener of `'socket'`, and nothing to flush
  let t := if t.httpMessage.isSome then { t with outgoing := t.outgoing ++ [i] } else t.assign i
  if expect then
    let r := { t.response i with expectContinue := true }
    .call (t.keep i (if check then r else r.writeContinue)) []
  else .call t []

/-! ### The system -/

def exec : Frame → Outcome
  | .user => .ret t
  | .flush i => t.flush i
  | .listeners => .call t []
  | .aborted close => .call t [.abort close]
  | .abort close => t.abort close

end State

def boundary : Frame → Bool
  | .user => true
  | _ => false

/-- What foreign code does, and what comes over the connection when none is running. -/
inductive Act
  | call (i : ℕ) (date : Str) (c : Call)
  | endSocket
  /-- Also after a write or a read that fails, a timeout, and once an ended socket is flushed. -/
  | destroy
  | room (room : Bool)
  /-- Foreign code returns. -/
  | ret
  /-- Foreign code throws. -/
  | throw
  | request (req : Request) (shouldKeepAlive expect check : Bool)
  /-- The other side has ended. -/
  | eof
  /-- The socket has closed. -/
  | close

abbrev System := Machine State Frame

def init : System := ⟨.new, []⟩

variable (httpAllowHalfOpen : Bool)

/-- What foreign code calls. -/
def callOf (t : State) : Act → Option Outcome
  | .call i date c => if i < t.count then some (t.perform i (c.run date (t.response i))) else none
  | .endSocket => some (.ret t.endSocket)
  | .destroy => some (.ret t.destroy)
  | .room room => some (.ret { t with room := room })
  | _ => none

/-- What the event loop calls. -/
def eventOf (t : State) : Act → Option Outcome
  | .request req shouldKeepAlive expect check =>
    if t.ended then none else some (t.onIncoming req shouldKeepAlive expect check)
  | .eof => if t.ended then none else some (t.onend httpAllowHalfOpen)
  | .close => if t.destroyed then some ({ t with ended := true }.abort true) else none
  | _ => none

def step (m : System) (a : Act) : Option System :=
  match a, m.stack with
  | .ret, [] | .throw, [] => none
  | .ret, k => some (resume State.exec boundary m.st k)
  | .throw, k => some ⟨m.st, (k.dropWhile fun f => !boundary f).tail⟩
  | a, stack =>
    match callOf m.st a, stack with
    | some r, _ => some (enter .user m r)
    | none, [] => (eventOf httpAllowHalfOpen m.st a).map fun r => ⟨r.state, r.frames⟩
    | none, _ :: _ => none

/-! ### What a step does -/

variable {httpAllowHalfOpen}

lemma eventOf_cases {t : State} {a : Act} {r : Outcome}
    (h : eventOf httpAllowHalfOpen t a = some r) :
    (∃ req shouldKeepAlive expect check, t.ended = false ∧
      r = t.onIncoming req shouldKeepAlive expect check) ∨
    r = t.onend httpAllowHalfOpen ∨ r = { t with ended := true }.abort true := by
  unfold eventOf at h
  cases a with
  | request req shouldKeepAlive expect check =>
    dsimp only at h
    split_ifs at h with hended
    exact .inl ⟨req, shouldKeepAlive, expect, check, Bool.eq_false_iff.mpr hended,
      (Option.some.inj h).symm⟩
  | eof =>
    dsimp only at h
    split_ifs at h
    exact .inr (.inl (Option.some.inj h).symm)
  | close =>
    dsimp only at h
    split_ifs at h
    exact .inr (.inr (Option.some.inj h).symm)
  | _ => cases h

lemma step_cases {m m' : System} {a : Act} (h : step httpAllowHalfOpen m a = some m') :
    (a = .ret ∧ m' = resume State.exec boundary m.st m.stack) ∨
    (a = .throw ∧ m' = ⟨m.st, (m.stack.dropWhile fun f => !boundary f).tail⟩) ∨
    (∃ r, callOf m.st a = some r ∧ m' = enter .user m r) ∨
    ∃ r, m.stack = [] ∧ eventOf httpAllowHalfOpen m.st a = some r ∧
      m' = ⟨r.state, r.frames⟩ := by
  unfold step at h
  split at h
  · cases h
  · cases h
  · exact .inl ⟨rfl, (Option.some.inj h).symm⟩
  · exact .inr (.inl ⟨rfl, (Option.some.inj h).symm⟩)
  · rename_i a _ _ _ _ _ _
    cases hr : callOf m.st a with
    | some r =>
      rw [hr] at h
      exact .inr (.inr (.inl ⟨r, rfl, (Option.some.inj h).symm⟩))
    | none =>
      rw [hr] at h
      cases hstack : m.stack with
      | cons f k =>
        rw [hstack] at h
        cases h
      | nil =>
        rw [hstack] at h
        obtain ⟨r, hr, rfl⟩ := Option.map_eq_some_iff.mp h
        exact .inr (.inr (.inr ⟨r, rfl, hr, rfl⟩))

/-- A step keeps what each of the functions keeps that it may run. -/
lemma step_keeps {I : State → List Frame → Prop} {m m' : System} {a : Act}
    (h : step httpAllowHalfOpen m a = some m') (hI : I m.st m.stack)
    (hpop : ∀ t f k, I t (f :: k) → I t k)
    (hexec : ∀ t f k, I t (f :: k) → (t.exec f).Keeps I k)
    (hcall : ∀ r, callOf m.st a = some r → r.Keeps I (.user :: m.stack))
    (hevent : ∀ r, m.stack = [] → eventOf httpAllowHalfOpen m.st a = some r → r.Keeps I []) :
    I m'.st m'.stack := by
  rcases step_cases h with ⟨-, rfl⟩ | ⟨-, rfl⟩ | ⟨r, hr, rfl⟩ | ⟨r, hk, hr, rfl⟩
  · exact resume_keeps (fun t f k _ => hexec t f k) (fun t f k _ => hpop t f k) hI
  · have hsuffix : ∀ k k' : List Frame, k' <:+ k → I m.st k → I m.st k' := by
      rintro k k' ⟨fs, rfl⟩ hk
      induction fs with
      | nil => exact hk
      | cons f fs ih => exact ih (hpop _ f _ hk)
    exact hsuffix _ _ ((List.tail_suffix _).trans (List.dropWhile_suffix _)) hI
  · exact enter_keeps (fun t k => hpop t .user k) (hcall r hr)
  · have hkeep := hevent r hk hr
    unfold Res.Keeps at hkeep
    rwa [List.append_nil] at hkeep

end NodeCore.HttpPipeline
