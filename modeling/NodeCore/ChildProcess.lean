import NodeCore.IpcDisconnect

/-!
A `ChildProcess` and its `'close'`: the places that call `maybeClose`, for every `stdio` that
`spawn` takes.

The channel is the one of `Ipc`. A stream of `stdio` is known by its place, and emits `'close'` at
most once.
-/

namespace NodeCore.ChildProcess

open NodeCore.Ipc NodeCore.IpcDisconnect NodeCore.Ledger

/-! ### What is given as `stdio` -/

inductive Item
  | undefined | ignore | pipe | ipc
  | number (n : ℤ)
  /-- It has a number as its `fd`. -/
  | file
  /-- A handle, or an object with one. -/
  | handle
  | other
  deriving DecidableEq

inductive Stdio
  | ignore | pipe | inherit
  | array (items : List Item)
  | other

/-- What `reduce` makes of an item. -/
inductive Entry
  | ignore
  | pipe (ipc : Bool)
  | fd
  | wrap
  deriving DecidableEq

/-- Nothing for an error; `ipc` is there if an item before has been `'ipc'`. -/
def entry (ipc : Bool) (i : ℕ) : Item → Option Entry
  | .undefined => some (if i < 3 then .pipe false else .ignore)
  | .ignore => some .ignore
  | .pipe => some (.pipe false)
  | .ipc => if ipc then none else some (.pipe true)
  | .number n => some (if n < 0 then .pipe false else .fd)
  | .file => some .fd
  | .handle => some .wrap
  | .other => none

def reduce (ipc : Bool) (i : ℕ) : List Item → Option (List Entry)
  | [] => some []
  | item :: items => (entry ipc i item).bind fun e =>
    (reduce (ipc || e = .pipe true) (i + 1) items).map (e :: ·)

def Stdio.items : Stdio → Option (List Item)
  | .ignore => some [.ignore, .ignore, .ignore]
  | .pipe => some [.pipe, .pipe, .pipe]
  | .inherit => some [.number 0, .number 1, .number 2]
  | .array items => some (items ++ List.replicate (3 - items.length) .undefined)
  | .other => none

/-! ### The child -/

structure Socket where
  /-- There is none when the process has no id. -/
  handle : Bool
  readable : Bool
  /-- Its `'close'` has `maybeClose` as a listener. -/
  listening : Bool
  /-- It has emitted `'close'`. -/
  closed : Bool
  deriving DecidableEq

inductive Event
  | exit (exitCode : Option ℤ) (signalCode : Option String)
  | error
  | close (exitCode : Option ℤ) (signalCode : Option String)
  deriving DecidableEq

def Event.isClose : Event → Bool
  | .close _ _ => true
  | _ => false

structure Child (M : Type) where
  closesNeeded : ℕ
  closesGot : ℕ
  exitCode : Option ℤ
  signalCode : Option String
  /-- `_handle` is `null` again. -/
  exited : Bool
  stdio : List (Option Socket)
  /-- The channel, with the code of `setupChannel`. -/
  channel : Option (Target M)
  /-- What has been emitted. -/
  log : List Event

namespace Child

variable {M : Type} (c : Child M)

/-- The constructor. -/
def new (M : Type) : Child M where
  closesNeeded := 1
  closesGot := 0
  exitCode := none
  signalCode := none
  exited := false
  stdio := []
  channel := none
  log := []

def emit (e : Event) : Child M := { c with log := c.log ++ [e] }

def maybeClose : Child M :=
  let c := { c with closesGot := c.closesGot + 1 }
  if c.closesGot = c.closesNeeded then c.emit (.close c.exitCode c.signalCode) else c

/-- One round of `stdio.forEach`; `pid` is not 0 if the process has been `started`. -/
def attach (started : Bool) (c : Child M) : Entry → Child M
  | .ignore | .fd => { c with stdio := c.stdio ++ [none] }
  | .pipe true => { c with closesNeeded := c.closesNeeded + 1, stdio := c.stdio ++ [none] }
  | .pipe false | .wrap =>
    let readable := decide (0 < c.stdio.length)
    let socket : Socket := ⟨started, readable, readable && started, false⟩
    { c with
      closesNeeded := c.closesNeeded + (readable && started).toNat
      stdio := c.stdio ++ [some socket] }

/-- `spawn`, where the process itself can be spawned. In a `worker` of a cluster channels are a
little different. -/
def spawn (M : Type) (worker started : Bool) (stdio : Stdio) : Option (Child M) :=
  (stdio.items.bind (reduce false 0)).map fun entries =>
    { entries.foldl (attach started) (new M) with
      channel := if .pipe true ∈ entries then some (.new M worker) else none }

/-- `onexit`; a listener may throw, as an error does that nobody listens to. -/
def onexit (exitCode : ℤ) (signalCode : Option String) (throws : Bool) : Child M :=
  let c : Child M := match signalCode with
    | some signal => { c with exited := true, signalCode := some signal }
    | none => { c with exited := true, exitCode := some exitCode }
  let c := c.emit (if exitCode = -1 then .error else .exit c.exitCode c.signalCode)
  if throws then c else c.maybeClose

/-- A stream emits `'close'`. -/
def closeSocket (i : ℕ) : Child M :=
  match c.stdio[i]?.join with
  | some socket =>
    if socket.handle && !socket.closed then
      let c := { c with stdio := c.stdio.set i (some { socket with closed := true }) }
      if socket.listening then c.maybeClose else c
    else c
  | none => c

end Child

/-- The channel reads, and its end can come. -/
def reads {M : Type} (t : Target M) : Bool := !t.crashed && !t.looping && !t.closed

inductive Act (M : Type)
  | exit (exitCode : ℤ) (signalCode : Option String) (throws : Bool)
  | close (i : ℕ)
  | channel (a : Ipc.Act M)
  /-- The end of the channel, with a listener that throws. -/
  | eofThrows

def step {M : Type} (json : Json M) (c : Child M) : Act M → Child M
  | .exit exitCode signalCode throws =>
    if c.exited then c else c.onexit exitCode signalCode throws
  | .close i => c.closeSocket i
  | .channel .eof =>
    match c.channel with
    | some t => if reads t then { c with channel := some t.eof }.maybeClose else c
    | none => c
  | .channel a => { c with channel := c.channel.map (Ipc.step json · a) }
  | .eofThrows =>
    match c.channel with
    | some t =>
      if reads t then { c with channel := some ({ t with buffering := false }.disconnect true) }
      else c
    | none => c

/-! ### When the child has closed -/

namespace Child

variable {M : Type} (c : Child M)

/-- The readable streams and the channel are closed. -/
def Closed : Prop :=
  (∀ socket, some socket ∈ c.stdio → socket.handle = true → socket.readable = true →
    socket.closed = true) ∧ ∀ t, c.channel = some t → t.closed = true

def closes : ℕ := c.log.countP Event.isClose

end Child

/-- `'close'` is emitted once, and when the process has exited and everything is closed. -/
structure Sound {M : Type} (c : Child M) : Prop where
  atMost : c.closes ≤ 1
  after : 0 < c.closes → c.exited = true ∧ c.Closed
  emitted : c.exited = true → c.Closed → c.closes = 1

/-! ### The steps that keep it -/

/-- `finish` runs with a message: of the user, an acknowledgement, or one of a server that listens
now. -/
def Speaks {M : Type} (json : Json M) (t : Target M) : Prop :=
  match takeLine t.jsonBuffer with
  | some (text, _) => ∃ w, json.parse text = some w ∧ (w = .ack → t.handleQueue ≠ none)
  | none => t.worker = false ∧ t.servers ≠ []

/-- A local `disconnect` closes the channel: it is called, or it has waited for this message. -/
def Leaves {M : Type} (json : Json M) (t : Target M) : Ipc.Act M → Prop
  | .disconnect => t.connected = true ∧ t.buffering = false
  | .line => t.finishing = true ∧ t.looping = true ∧ Speaks json t
  | .listening i => t.finishing = true ∧ t.looping = false ∧ t.worker = true ∧ i < t.servers.length
  | _ => False

/-- The step closes no open channel by a local `disconnect`, and no listener throws where
`maybeClose` would be next. -/
def StepOk {M : Type} (json : Json M) (c : Child M) : Act M → Prop
  | .exit _ _ throws => c.exited = false → throws = false
  | .close _ => True
  | .channel a => ∀ t, c.channel = some t → t.crashed = false → t.closed = false →
    ¬Leaves json t a
  | .eofThrows => ∀ t, c.channel = some t → reads t = true → t.connected = false

/-! ### What is still waited for -/

def Socket.awaited (socket : Socket) : Bool := socket.listening && !socket.closed

namespace Child

variable {M : Type} (c : Child M)

/-- How many calls of `maybeClose` are still to come. -/
def due : ℕ :=
  (!c.exited).toNat + c.stdio.countP (·.any Socket.awaited) + (c.channel.any (!·.closed)).toNat

end Child

/-- The books of a child, where some calls of `maybeClose` are `lost`. -/
structure Books {M : Type} (lost : ℕ) (c : Child M) : Prop where
  needed : c.closesNeeded = c.closesGot + c.due + lost
  emitted : c.closes = if c.due + lost = 0 then 1 else 0
  listening : ∀ socket, some socket ∈ c.stdio →
    socket.listening = (socket.readable && socket.handle)

variable {M : Type} {c : Child M}

lemma due_eq_zero (h : ∀ socket, some socket ∈ c.stdio →
    socket.listening = (socket.readable && socket.handle)) :
    c.due = 0 ↔ c.exited = true ∧ c.Closed := by
  have hstdio : c.stdio.countP (·.any Socket.awaited) = 0 ↔
      ∀ socket, some socket ∈ c.stdio → socket.handle = true → socket.readable = true →
        socket.closed = true := by
    rw [List.countP_eq_zero]
    constructor
    · intro hall socket hs hh hr
      simpa [Socket.awaited, h socket hs, hh, hr] using hall _ hs
    · rintro hall (_ | socket) hs
      · simp
      · have := hall socket hs
        simp only [Option.any_some, Socket.awaited, h socket hs]
        grind
  have hchannel : (c.channel.any (!·.closed)).toNat = 0 ↔
      ∀ t, c.channel = some t → t.closed = true := by
    cases c.channel with
    | none => simp
    | some t => simp
  have hexited : (!c.exited).toNat = 0 ↔ c.exited = true := by cases c.exited <;> simp
  rw [Child.due, Nat.add_eq_zero_iff, Nat.add_eq_zero_iff, hexited, hstdio, hchannel, and_assoc]
  rfl

lemma Books.sound (h : Books 0 c) : Sound c := by
  have hdue := due_eq_zero h.listening
  have hemitted := h.emitted
  rw [add_zero] at hemitted
  refine ⟨?_, ?_, ?_⟩
  · rw [hemitted]
    split_ifs <;> omega
  · intro hpos
    rw [hemitted] at hpos
    by_contra hne
    rw [if_neg (mt hdue.mp hne)] at hpos
    exact lt_irrefl _ hpos
  · intro hexited hclosed
    rw [hemitted, if_pos (hdue.mpr ⟨hexited, hclosed⟩)]

/-- Where a call is lost, nothing is emitted any more. -/
lemma Books.not_sound {lost : ℕ} (h : Books lost c) (hlost : lost ≠ 0) (hexited : c.exited = true)
    (hclosed : c.Closed) : ¬Sound c := by
  intro hs
  have hone := hs.emitted hexited hclosed
  rw [h.emitted, if_neg (by omega)] at hone
  exact zero_ne_one hone

/-- One of those that are waited for has called `maybeClose`. -/
lemma books_maybeClose {lost : ℕ} (hneeded : c.closesNeeded = c.closesGot + 1 + c.due + lost)
    (hcloses : c.closes = 0) (h : ∀ socket, some socket ∈ c.stdio →
      socket.listening = (socket.readable && socket.handle)) : Books lost c.maybeClose := by
  by_cases hlast : c.closesGot + 1 = c.closesNeeded
  · have heq : c.maybeClose =
        { c with
          closesGot := c.closesGot + 1
          log := c.log ++ [.close c.exitCode c.signalCode] } := by
      simp only [Child.maybeClose, if_pos hlast, Child.emit]
    rw [heq]
    refine ⟨hneeded, ?_, h⟩
    have hlog : c.log.countP Event.isClose = 0 := hcloses
    have hdue : Child.due { c with
          closesGot := c.closesGot + 1
          log := c.log ++ [.close c.exitCode c.signalCode] } = c.due := rfl
    rw [hdue, if_pos (by omega), Child.closes, List.countP_append, hlog]
    rfl
  · have heq : c.maybeClose = { c with closesGot := c.closesGot + 1 } := by
      simp only [Child.maybeClose, if_neg hlast]
    rw [heq]
    refine ⟨hneeded, ?_, h⟩
    have hdue : Child.due { c with closesGot := c.closesGot + 1 } = c.due := rfl
    rw [hdue, if_neg (by omega)]
    exact hcloses

/-! ### The channel -/

/-- `finish` does not run with a message: it does not listen, or the channel is closed already. -/
def Still (t : Target M) : Prop := t.closed = true ∨ t.finishing = false

/-- The channel is neither closed nor is `finish` to run. -/
structure Keeps (t t' : Target M) : Prop where
  still : Still t'
  closed : t'.closed = t.closed

lemma Still.keeps {t t' : Target M} (h : Still t) (hs : Same t t') : Keeps t t' :=
  ⟨h.imp hs.closed.trans hs.finishing.trans, hs.closed⟩

lemma Keeps.trans {t t' t'' : Target M} (h : Keeps t t') (h' : Keeps t' t'') : Keeps t t'' :=
  ⟨h'.still, h'.closed.trans h.closed⟩

lemma keeps_finishIf {t : Target M} (h : Still t) : Keeps t t.finishIf := by
  unfold Target.finishIf
  split_ifs with hf
  · have hfinishing : t.finishing = true := (Bool.and_eq_true_iff.mp hf).1
    have hclosed : t.closed = true :=
      h.resolve_right fun hne => Bool.false_ne_true (hne.symm.trans hfinishing)
    exact ⟨.inr rfl, hclosed.symm⟩
  · exact ⟨h, rfl⟩

lemma keeps_emitMessage {t : Target M} (h : Still t) (m : M) : Keeps t (t.emitMessage m) := by
  have hs : Keeps t (t.emit (.message m)) := h.keeps (same_emit t rfl rfl)
  exact hs.trans (keeps_finishIf hs.still)

lemma keeps_handle {t : Target M} (h : Still t) (w : Wire M) : Keeps t (t.handle w) := by
  cases w with
  | plain m => exact keeps_emitMessage h m
  | ack =>
    have hs : Keeps t t.drain := h.keeps (same_drain t)
    exact hs.trans (keeps_finishIf hs.still)
  | handle type m =>
    have hs : Keeps t (t.send .ack) := h.keeps (same_send t .ack)
    have hgot : Keeps t ((t.send .ack).got type m) := by
      unfold Target.got
      split_ifs
      · exact hs.trans (hs.still.keeps ⟨rfl, rfl, rfl, rfl, rfl⟩)
      · exact hs.trans (keeps_emitMessage hs.still m)
    exact hgot.trans (keeps_finishIf hgot.still)

lemma keeps_emitMessages (ms : List M) {t : Target M} (h : Still t) :
    Keeps t (ms.foldl Target.emitMessage t) := by
  induction ms generalizing t with
  | nil => exact ⟨h, rfl⟩
  | cons m ms ih =>
    have hm := keeps_emitMessage h m
    exact hm.trans (ih hm.still)

lemma keeps_tick {t : Target M} (h : Still t) : Keeps t t.tick := by
  unfold Target.tick
  split_ifs
  · exact ⟨h, rfl⟩
  · have hs : Keeps t { t with servers := [] } := h.keeps ⟨rfl, rfl, rfl, rfl, rfl⟩
    exact hs.trans (keeps_emitMessages _ hs.still)

lemma keeps_line (json : Json M) {t : Target M} (h : Still t) : Keeps t (t.line json) := by
  unfold Target.line
  cases takeLine t.jsonBuffer with
  | none =>
    have hs : Keeps t { t with looping := false, buffering := t.jsonBuffer ≠ [] } :=
      h.keeps ⟨rfl, rfl, rfl, rfl, rfl⟩
    exact hs.trans (keeps_tick hs.still)
  | some r =>
    dsimp only
    cases json.parse r.1 with
    | none => exact h.keeps ⟨rfl, rfl, rfl, rfl, rfl⟩
    | some w =>
      have hs : Keeps t { t with jsonBuffer := r.2 } := h.keeps ⟨rfl, rfl, rfl, rfl, rfl⟩
      exact hs.trans (keeps_handle hs.still w)

/-- Where `finish` waits, it goes on to wait if there is no message. -/
lemma closed_line_silent {json : Json M} {t : Target M} (h : ¬Speaks json t) :
    (t.line json).closed = t.closed := by
  unfold Speaks at h
  unfold Target.line
  cases hline : takeLine t.jsonBuffer with
  | none =>
    rw [hline] at h
    dsimp only at h ⊢
    unfold Target.tick
    split_ifs with hworker
    · rfl
    · have hservers : t.servers = [] := by
        by_contra hne
        exact h ⟨Bool.eq_false_of_not_eq_true hworker, hne⟩
      rw [hservers]
      rfl
  | some r =>
    rw [hline] at h
    dsimp only at h ⊢
    cases hparse : json.parse r.1 with
    | none => rfl
    | some w =>
      dsimp only
      have hack : w = .ack ∧ t.handleQueue = none := by
        by_contra hne
        exact h ⟨w, hparse, fun hw hqueue => hne ⟨hw, hqueue⟩⟩
      obtain ⟨rfl, hqueue⟩ := hack
      simp [Target.handle, Target.drain, hqueue, Target.finishIf]

lemma not_still {t : Target M} (h : ¬Still t) : t.closed = false ∧ t.finishing = true := by
  obtain ⟨hclosed, hfinishing⟩ := not_or.mp h
  exact ⟨Bool.eq_false_of_not_eq_true hclosed, Bool.eq_true_of_not_eq_false hfinishing⟩

/-- Only its end or a local `disconnect` closes a channel. -/
lemma closed_step {json : Json M} {t : Target M} {a : Ipc.Act M} (ha : a ≠ .eof)
    (hleaves : t.crashed = false → t.closed = false → ¬Leaves json t a) :
    (Ipc.step json t a).closed = t.closed := by
  unfold Ipc.step
  by_cases hcrashed : t.crashed = true
  · rw [if_pos hcrashed]
  rw [if_neg hcrashed]
  replace hleaves := hleaves (Bool.eq_false_of_not_eq_true hcrashed)
  cases a with
  | read chunk =>
    dsimp only
    split_ifs
    · rfl
    · unfold Target.read
      split <;> rfl
  | line =>
    dsimp only
    split_ifs with hlooping
    · by_cases hstill : Still t
      · exact (keeps_line json hstill).closed
      · obtain ⟨hclosed, hfinishing⟩ := not_still hstill
        exact closed_line_silent fun hs => hleaves hclosed ⟨hfinishing, hlooping, hs⟩
    · rfl
  | eof => exact absurd rfl ha
  | send m handle => exact (same_send t _).closed
  | disconnect =>
    dsimp only
    unfold Target.disconnect
    by_cases hconnected : t.connected = true
    · by_cases hbuffering : t.buffering = true
      · simp [hconnected, hbuffering]
      · have hclosed : t.closed = true := by
          by_contra hne
          exact hleaves (Bool.eq_false_of_not_eq_true hne)
            ⟨hconnected, Bool.eq_false_of_not_eq_true hbuffering⟩
        simp [hconnected, hbuffering, Target.finish, Target.emit, hclosed]
    · simp [hconnected, Target.emit]
  | listening i =>
    dsimp only
    split_ifs with hwait
    · rfl
    · unfold Target.listening
      cases hserver : t.servers[i]? with
      | none => rfl
      | some m =>
        have hstill : Still t := by
          by_contra hne
          obtain ⟨hclosed, hfinishing⟩ := not_still hne
          obtain ⟨hi, -⟩ := List.getElem?_eq_some_iff.mp hserver
          exact hleaves hclosed ⟨hfinishing, by simp_all, by simp_all, hi⟩
        have hs : Keeps t { t with servers := t.servers.eraseIdx i } :=
          hstill.keeps ⟨rfl, rfl, rfl, rfl, rfl⟩
        exact (hs.trans (keeps_emitMessage hs.still m)).closed

lemma crashed_send (t : Target M) (w : Wire M) : (t.send w).crashed = t.crashed := by
  unfold Target.send
  split_ifs
  · rfl
  all_goals cases t.handleQueue <;> rfl

lemma crashed_sends (ws : List (Wire M)) (t : Target M) :
    (ws.foldl Target.send t).crashed = t.crashed := by
  induction ws generalizing t with
  | nil => rfl
  | cons w ws ih => rw [List.foldl_cons, ih, crashed_send]

/-- `finish` waits for a message. -/
structure Waits (t : Target M) : Prop where
  finishing : t.finishing = true
  crashed : t.crashed = false

lemma Waits.finishIf {t : Target M} (h : Waits t) : t.finishIf.closed = true := by
  rw [Target.finishIf, if_pos (by rw [h.finishing, h.crashed]; rfl)]
  rfl

lemma Waits.emitMessage {t : Target M} (h : Waits t) (m : M) : (t.emitMessage m).closed = true :=
  Waits.finishIf (t := t.emit (.message m)) ⟨h.finishing, h.crashed⟩

lemma Waits.handle {t : Target M} (h : Waits t) {w : Wire M}
    (hack : w = .ack → t.handleQueue ≠ none) : (t.handle w).closed = true := by
  cases w with
  | plain m => exact h.emitMessage m
  | ack =>
    obtain ⟨queue, hqueue⟩ := Option.ne_none_iff_exists'.mp (hack rfl)
    refine Waits.finishIf ⟨(same_drain t).finishing.trans h.finishing, ?_⟩
    rw [Target.drain, hqueue]
    exact (crashed_sends queue _).trans h.crashed
  | handle type m =>
    have hs : Waits (t.send .ack) :=
      ⟨(same_send t .ack).finishing.trans h.finishing, (crashed_send t .ack).trans h.crashed⟩
    rw [Target.handle, Target.got]
    split_ifs
    · exact Waits.finishIf ⟨hs.finishing, hs.crashed⟩
    · have hclosed := hs.emitMessage m
      exact (keeps_finishIf (.inl hclosed)).closed.trans hclosed

lemma Waits.line {json : Json M} {t : Target M} (h : Waits t) (hs : Speaks json t) :
    (t.line json).closed = true := by
  unfold Speaks at hs
  unfold Target.line
  cases hline : takeLine t.jsonBuffer with
  | none =>
    rw [hline] at hs
    obtain ⟨hworker, hservers⟩ := hs
    obtain ⟨m, ms, hms⟩ := List.exists_cons_of_ne_nil hservers
    dsimp only
    rw [Target.tick, if_neg (by simp [hworker])]
    dsimp only
    rw [hms, List.foldl_cons]
    have hclosed := Waits.emitMessage (t := { t with
      looping := false, buffering := t.jsonBuffer ≠ [], servers := [] })
      ⟨h.finishing, h.crashed⟩ m
    exact (keeps_emitMessages ms (.inl hclosed)).closed.trans hclosed
  | some r =>
    rw [hline] at hs
    obtain ⟨w, hparse, hack⟩ := hs
    dsimp only
    rw [hparse]
    exact Waits.handle (t := { t with jsonBuffer := r.2 }) ⟨h.finishing, h.crashed⟩ hack

/-- A local `disconnect` that closes the channel does so. -/
lemma closed_of_leaves {json : Json M} {t : Target M} {a : Ipc.Act M} (hcrashed : t.crashed = false)
    (h : Leaves json t a) : (Ipc.step json t a).closed = true := by
  unfold Ipc.step
  rw [if_neg (by simp [hcrashed])]
  cases a with
  | line =>
    obtain ⟨hfinishing, hlooping, hs⟩ := h
    dsimp only
    rw [if_pos hlooping]
    exact Waits.line ⟨hfinishing, hcrashed⟩ hs
  | disconnect =>
    obtain ⟨hconnected, hbuffering⟩ := h
    simp [Target.disconnect, hconnected, hbuffering, Target.finish, Target.emit]
  | listening i =>
    obtain ⟨hfinishing, hlooping, hworker, hi⟩ := h
    dsimp only
    rw [if_neg (by simp [hlooping, hworker]), Target.listening, List.getElem?_eq_getElem hi]
    exact Waits.emitMessage (t := { t with servers := t.servers.eraseIdx i })
      ⟨hfinishing, hcrashed⟩ _
  | read | eof | send => exact h.elim

/-! ### What the child does -/

/-- A step keeps the books, and loses a call exactly if it is not as it should be. -/
def Kept (json : Json M) (lost : ℕ) (c : Child M) (a : Act M) : Prop :=
  ∃ lost', Books lost' (step json c a) ∧ (lost' = 0 ↔ lost = 0 ∧ StepOk json c a)

/-- Nothing has changed but what is waited for. -/
structure Alike (c c' : Child M) : Prop where
  closesNeeded : c'.closesNeeded = c.closesNeeded
  closesGot : c'.closesGot = c.closesGot
  closes : c'.closes = c.closes
  listening : (∀ socket, some socket ∈ c.stdio →
      socket.listening = (socket.readable && socket.handle)) →
    ∀ socket, some socket ∈ c'.stdio → socket.listening = (socket.readable && socket.handle)

namespace Books

variable {lost : ℕ} {c' : Child M} (h : Books lost c) (ha : Alike c c')

include h ha

lemma alike (hdue : c'.due = c.due) : Books lost c' where
  needed := by rw [ha.closesNeeded, ha.closesGot, hdue, h.needed]
  emitted := by rw [ha.closes, hdue, h.emitted]
  listening := ha.listening h.listening

/-- One that is waited for has closed, and calls `maybeClose`. -/
lemma called (hdue : c.due = c'.due + 1) : Books lost c'.maybeClose := by
  refine books_maybeClose ?_ ?_ (ha.listening h.listening)
  · have := h.needed
    rw [ha.closesNeeded, ha.closesGot]
    omega
  · rw [ha.closes, h.emitted, if_neg (by omega)]

/-- One that is waited for has closed, and does not call `maybeClose`. -/
lemma lose (hdue : c.due = c'.due + 1) : Books (lost + 1) c' where
  needed := by
    have := h.needed
    rw [ha.closesNeeded, ha.closesGot]
    omega
  emitted := by rw [ha.closes, h.emitted, if_neg (by omega), if_neg (by omega)]
  listening := ha.listening h.listening

end Books

variable {lost : ℕ}

/-- `onexit`, up to `maybeClose`. -/
lemma exists_onexit (c : Child M) (exitCode : ℤ) (signalCode : Option String) (throws : Bool) :
    ∃ c', c.onexit exitCode signalCode throws = (if throws then c' else c'.maybeClose) ∧
      Alike c c' ∧ c'.exited = true ∧ c'.stdio = c.stdio ∧ c'.channel = c.channel := by
  have hcloses : ∀ (c' : Child M) (e : Event), c'.closes = c.closes → e.isClose = false →
      (c'.emit e).closes = c.closes := by
    intro c' e hc he
    rw [Child.closes, Child.emit, List.countP_append, ← hc, Child.closes]
    simp [he]
  have hevent : ∀ (code : Option ℤ) (signal : Option String),
      (if exitCode = -1 then Event.error else .exit code signal).isClose = false := by
    intro code signal
    split_ifs <;> rfl
  cases signalCode with
  | none => exact ⟨_, rfl, ⟨rfl, rfl, hcloses _ _ rfl (hevent _ _), id⟩, rfl, rfl, rfl⟩
  | some signal => exact ⟨_, rfl, ⟨rfl, rfl, hcloses _ _ rfl (hevent _ _), id⟩, rfl, rfl, rfl⟩

lemma kept_exit (json : Json M) (h : Books lost c) (exitCode : ℤ) (signalCode : Option String)
    (throws : Bool) : Kept json lost c (.exit exitCode signalCode throws) := by
  unfold Kept
  simp only [step, StepOk]
  by_cases hexited : c.exited = true
  · rw [if_pos hexited]
    exact ⟨lost, h, by simp [hexited]⟩
  · rw [if_neg hexited]
    obtain ⟨c', heq, ha, hexit, hstdio, hchannel⟩ := exists_onexit c exitCode signalCode throws
    have hdue : c.due = c'.due + 1 := by
      have hopen := Bool.eq_false_of_not_eq_true hexited
      simp only [Child.due, hexit, hstdio, hchannel, hopen, Bool.not_true, Bool.not_false,
        Bool.toNat_true, Bool.toNat_false]
      omega
    rw [heq]
    cases throws with
    | true => exact ⟨lost + 1, h.lose ha hdue, by simp [hexited]⟩
    | false => exact ⟨lost, h.called ha hdue, by simp⟩

lemma kept_close (json : Json M) (h : Books lost c) (i : ℕ) : Kept json lost c (.close i) := by
  refine ⟨lost, ?_, by simp [StepOk]⟩
  simp only [step, Child.closeSocket]
  cases hjoin : c.stdio[i]?.join with
  | none => exact h
  | some socket =>
    have hsocket : c.stdio[i]? = some (some socket) := Option.join_eq_some_iff.mp hjoin
    obtain ⟨hi, hget⟩ := List.getElem?_eq_some_iff.mp hsocket
    dsimp only
    by_cases hopen : (socket.handle && !socket.closed) = true
    · rw [if_pos hopen]
      obtain ⟨c', hc'⟩ : ∃ c' : Child M,
        c' = { c with stdio := c.stdio.set i (some { socket with closed := true }) } := ⟨_, rfl⟩
      have hlistening := h.listening socket (List.mem_of_getElem? hsocket)
      have ha : Alike c c' := by
        refine ⟨by rw [hc'], by rw [hc'], by rw [hc']; rfl, fun hall s hs => ?_⟩
        rw [hc'] at hs
        rcases List.mem_or_eq_of_mem_set hs with hs | hs
        · exact hall s hs
        · rw [Option.some.inj hs]
          exact hlistening
      have hcount : c.stdio.countP (·.any Socket.awaited) =
          c'.stdio.countP (·.any Socket.awaited) + socket.listening.toNat := by
        have hclosed : socket.closed = false := by simp_all
        have hpos : socket.listening = true → 0 < c.stdio.countP (·.any Socket.awaited) := by
          intro hl
          exact List.countP_pos_iff.mpr ⟨_, List.mem_of_getElem? hsocket, by
            simp [Socket.awaited, hl, hclosed]⟩
        rw [hc', List.countP_set hi, hget]
        cases hl : socket.listening with
        | false => simp [Socket.awaited, hl]
        | true =>
          have := hpos hl
          simp [Socket.awaited, hl, hclosed]
          omega
      have hdue : c.due = c'.due + socket.listening.toNat := by
        have hrest : c'.exited = c.exited ∧ c'.channel = c.channel := by rw [hc']; exact ⟨rfl, rfl⟩
        simp only [Child.due, hcount, hrest.1, hrest.2]
        omega
      rw [← hc']
      cases hl : socket.listening with
      | true => exact h.called ha (by rw [hdue, hl]; rfl)
      | false => exact h.alike ha (by rw [hdue, hl]; rfl)
    · rw [if_neg hopen]
      exact h

/-- The channel is another one now. -/
lemma due_channel {t : Target M} (ht : c.channel = some t) (t' : Target M) :
    c.due + (!t'.closed).toNat =
      Child.due { c with channel := some t' } + (!t.closed).toNat := by
  simp only [Child.due, ht, Option.any_some]
  omega

lemma kept_eof (json : Json M) (h : Books lost c) : Kept json lost c (.channel .eof) := by
  refine ⟨lost, ?_, by simp [StepOk, Leaves]⟩
  simp only [step]
  cases ht : c.channel with
  | none => exact h
  | some t =>
    dsimp only
    by_cases hreads : reads t = true
    · rw [if_pos hreads]
      have hclosed : t.closed = false := by simp_all [reads]
      refine h.called ⟨rfl, rfl, rfl, id⟩ ?_
      have hdue := due_channel ht t.eof
      rw [hclosed] at hdue
      exact hdue
    · rw [if_neg hreads]
      exact h

lemma kept_channel (json : Json M) (h : Books lost c) {a : Ipc.Act M} (ha : a ≠ .eof) :
    Kept json lost c (.channel a) := by
  have hstep : step json c (.channel a) =
      { c with channel := c.channel.map (Ipc.step json · a) } := by
    cases a with
    | eof => exact absurd rfl ha
    | _ => rfl
  unfold Kept
  rw [hstep]
  cases ht : c.channel with
  | none =>
    refine ⟨lost, h.alike ⟨rfl, rfl, rfl, id⟩ ?_, by simp [StepOk, ht]⟩
    simp [Child.due, ht]
  | some t =>
    have hdue := due_channel ht (Ipc.step json t a)
    by_cases hok : t.crashed = false → t.closed = false → ¬Leaves json t a
    · rw [closed_step ha hok] at hdue
      exact ⟨lost, h.alike ⟨rfl, rfl, rfl, id⟩ (Nat.add_right_cancel hdue).symm, by
        simpa [StepOk, ht] using fun _ => hok⟩
    · simp only [not_forall, not_not] at hok
      obtain ⟨hcrashed, hclosed, hleaves⟩ := hok
      rw [closed_of_leaves hcrashed hleaves, hclosed] at hdue
      exact ⟨lost + 1, h.lose ⟨rfl, rfl, rfl, id⟩ hdue, by
        simp [StepOk, ht, hcrashed, hclosed, hleaves]⟩

lemma kept_eofThrows (json : Json M) (h : Books lost c) : Kept json lost c .eofThrows := by
  unfold Kept
  simp only [step, StepOk]
  cases ht : c.channel with
  | none => exact ⟨lost, h, by simp⟩
  | some t =>
    dsimp only
    by_cases hreads : reads t = true
    · rw [if_pos hreads]
      obtain ⟨t', ht'⟩ : ∃ t', t' = { t with buffering := false }.disconnect true := ⟨_, rfl⟩
      have hdue := due_channel ht t'
      rw [← ht']
      by_cases hconnected : t.connected = true
      · have hclosed : t.closed = false := by simp_all [reads]
        have hclosed' : t'.closed = true := by
          simp [ht', Target.disconnect, hconnected, Target.finish, Target.emit]
        rw [hclosed, hclosed'] at hdue
        exact ⟨lost + 1, h.lose ⟨rfl, rfl, rfl, id⟩ hdue, by simp [hconnected, hreads]⟩
      · have hclosed : t'.closed = t.closed := by
          simp [ht', Target.disconnect, hconnected, Target.emit]
        rw [hclosed] at hdue
        exact ⟨lost, h.alike ⟨rfl, rfl, rfl, id⟩ (Nat.add_right_cancel hdue).symm, by
          simp [hconnected]⟩
    · rw [if_neg hreads]
      exact ⟨lost, h, by simp [hreads]⟩

lemma kept_step (json : Json M) (h : Books lost c) (a : Act M) : Kept json lost c a := by
  cases a with
  | exit exitCode signalCode throws => exact kept_exit json h exitCode signalCode throws
  | close i => exact kept_close json h i
  | channel a =>
    by_cases ha : a = .eof
    · subst ha
      exact kept_eof json h
    · exact kept_channel json h ha
  | eofThrows => exact kept_eofThrows json h

lemma books_run (json : Json M) (h : Books lost c) (acts : List (Act M)) :
    ∃ lost', Books lost' (run (step json) c acts) ∧
      (lost' = 0 ↔ lost = 0 ∧ Along (step json) (StepOk json) c acts) := by
  induction acts generalizing lost c with
  | nil => exact ⟨lost, h, by simp [Along]⟩
  | cons a acts ih =>
    obtain ⟨lost₁, h₁, hiff₁⟩ := kept_step json h a
    obtain ⟨lost₂, h₂, hiff₂⟩ := ih h₁
    exact ⟨lost₂, h₂, by rw [hiff₂, hiff₁, Along, and_assoc]⟩

/-! ### Where it starts -/

lemma entry_ipc {ipc : Bool} {i : ℕ} {item : Item} (h : entry ipc i item = some (.pipe true)) :
    ipc = false := by
  cases item with
  | ipc =>
    by_contra hne
    simp [entry, Bool.eq_true_of_not_eq_false hne] at h
  | undefined | number n =>
    simp only [entry, Option.some.injEq] at h
    split_ifs at h
    all_goals cases h
  | ignore | pipe | file | handle | other => simp [entry] at h

/-- There is at most one `'ipc'`. -/
lemma count_reduce {ipc : Bool} {i : ℕ} {items : List Item} {entries : List Entry}
    (h : reduce ipc i items = some entries) : entries.count (.pipe true) + ipc.toNat ≤ 1 := by
  induction items generalizing ipc i entries with
  | nil =>
    rw [reduce, Option.some.injEq] at h
    rw [← h]
    simpa using Bool.toNat_le ipc
  | cons item items ih =>
    obtain ⟨e, he, hrest⟩ := Option.bind_eq_some_iff.mp h
    obtain ⟨es, hes, rfl⟩ := Option.map_eq_some_iff.mp hrest
    have hle := ih hes
    by_cases hipc : e = .pipe true
    · subst hipc
      simpa [entry_ipc he] using hle
    · rw [List.count_cons_of_ne hipc]
      simpa [hipc] using hle

/-- The count of `closesNeeded`, in the loop of `spawn`. -/
structure Attached (entries : List Entry) (c : Child M) : Prop where
  needed : c.closesNeeded =
    1 + c.stdio.countP (·.any Socket.awaited) + entries.count (.pipe true)
  closesGot : c.closesGot = 0
  exited : c.exited = false
  log : c.log = []
  listening : ∀ socket, some socket ∈ c.stdio →
    socket.listening = (socket.readable && socket.handle)

lemma attached_attach {entries : List Entry} (h : Attached entries c) (started : Bool)
    (e : Entry) : Attached (entries ++ [e]) (Child.attach started c e) := by
  have hplain : e = .ignore ∨ e = .fd →
      Attached (entries ++ [e]) { c with stdio := c.stdio ++ [none] } := by
    intro he
    refine ⟨?_, h.closesGot, h.exited, h.log, ?_⟩
    · have hcount : [e].count (.pipe true) = 0 := by rcases he with rfl | rfl <;> rfl
      simpa [List.countP_append, List.count_append, hcount] using h.needed
    · simpa using h.listening
  have hsocket : e = .pipe false ∨ e = .wrap →
      Attached (entries ++ [e]) (Child.attach started c .wrap) := by
    intro he
    refine ⟨?_, h.closesGot, h.exited, h.log, ?_⟩
    · have hcount : [e].count (.pipe true) = 0 := by rcases he with rfl | rfl <;> rfl
      have hneeded := h.needed
      simp only [Child.attach, List.countP_append, List.count_append, hcount, hneeded,
        List.countP_singleton, Option.any_some, Socket.awaited]
      cases decide (0 < c.stdio.length) && started
      · simp
      · simp
        omega
    · intro socket hs
      rcases List.mem_append.mp hs with hs | hs
      · exact h.listening socket hs
      · rw [Option.some.inj (List.mem_singleton.mp hs)]
  match e with
  | .ignore => exact hplain (.inl rfl)
  | .fd => exact hplain (.inr rfl)
  | .pipe false => exact hsocket (.inl rfl)
  | .wrap => exact hsocket (.inr rfl)
  | .pipe true =>
    refine ⟨?_, h.closesGot, h.exited, h.log, ?_⟩
    · have hneeded := h.needed
      simp only [Child.attach, List.countP_append, List.count_append, hneeded]
      simp
      omega
    · simpa [Child.attach] using h.listening

lemma attached_foldl {entries : List Entry} (h : Attached entries c) (started : Bool)
    (es : List Entry) : Attached (entries ++ es) (es.foldl (Child.attach started) c) := by
  induction es generalizing entries c with
  | nil => simpa using h
  | cons e es ih => simpa using ih (attached_attach h started e)

lemma books_spawn {worker started : Bool} {stdio : Stdio}
    (h : Child.spawn M worker started stdio = some c) : Books 0 c := by
  obtain ⟨entries, hentries, rfl⟩ := Option.map_eq_some_iff.mp h
  obtain ⟨items, -, hreduce⟩ := Option.bind_eq_some_iff.mp hentries
  have hone : entries.count (.pipe true) ≤ 1 := by simpa using count_reduce hreduce
  have hnew : Attached [] (Child.new M) := by
    refine ⟨rfl, rfl, rfl, rfl, ?_⟩
    simp [Child.new]
  have ha := attached_foldl hnew started entries
  rw [List.nil_append] at ha
  obtain ⟨c, hc⟩ : ∃ c, c = entries.foldl (Child.attach started) (Child.new M) := ⟨_, rfl⟩
  rw [← hc] at ha ⊢
  obtain ⟨channel, hchannel⟩ : ∃ channel,
    channel = if .pipe true ∈ entries then some (Target.new M worker) else none := ⟨_, rfl⟩
  have hopen : (channel.any fun t => !t.closed).toNat = entries.count (.pipe true) := by
    by_cases hipc : Entry.pipe true ∈ entries
    · have hpos := List.count_pos_iff.mpr hipc
      rw [hchannel, if_pos hipc]
      simp only [Option.any_some, Target.new, Bool.not_false, Bool.toNat_true]
      omega
    · rw [hchannel, if_neg hipc, List.count_eq_zero_of_not_mem hipc]
      rfl
  rw [← hchannel]
  refine ⟨?_, ?_, ha.listening⟩
  · simp only [Child.due, ha.needed, ha.closesGot, ha.exited, hopen, Bool.not_false,
      Bool.toNat_true]
    omega
  · rw [if_neg (by simp [Child.due, ha.exited]), Child.closes, ha.log]
    rfl

/-! ### The runs of a child -/

/-- **`'close'` of a child.** Whatever its `stdio` is, and in every order of events: as long as no
local `disconnect` closes the channel, and no listener throws where `maybeClose` would be next,
`'close'` is emitted at most once, not before the process has exited and everything is closed, and
then it has been. A run at whose end everything is closed is like this only if each of its steps
is. -/
theorem close_sound (json : Json M) {worker started : Bool} {stdio : Stdio}
    (h : Child.spawn M worker started stdio = some c) (acts : List (Act M)) :
    (Along (step json) (StepOk json) c acts → ∀ n, Sound (run (step json) c (acts.take n))) ∧
    ((run (step json) c acts).exited = true → (run (step json) c acts).Closed →
      Sound (run (step json) c acts) → Along (step json) (StepOk json) c acts) := by
  have hbooks := books_spawn h
  constructor
  · intro hok n
    obtain ⟨lost, hlost, hiff⟩ := books_run json hbooks (acts.take n)
    rw [hiff.mpr ⟨rfl, hok.take n⟩] at hlost
    exact hlost.sound
  · intro hexited hclosed hs
    obtain ⟨lost, hlost, hiff⟩ := books_run json hbooks acts
    by_contra hne
    exact hlost.not_sound (fun hzero => hne (hiff.mp hzero).2) hexited hclosed hs

/-- A pipe and a channel. -/
def piped : Stdio := .array [.ignore, .pipe, .ignore, .ipc]

/-- The other side closes the channel, the process exits, and its output ends. -/
theorem close_sound_piped : ∃ c, Child.spawn Bool false true piped = some c ∧
    ∀ n, Sound (run (step letters) c
      ([.channel .eof, .exit 0 none false, .close 1].take n)) := by
  obtain ⟨c, hc⟩ : ∃ c, Child.spawn Bool false true piped = some c := ⟨_, rfl⟩
  refine ⟨c, hc, (close_sound letters hc _).1 ⟨?_, ?_, ?_, trivial⟩⟩
  · exact fun _ _ _ _ h => h
  · exact fun _ => rfl
  · trivial

/-- Only a channel. -/
def forked : Stdio := .array [.ignore, .ignore, .ignore, .ipc]

/-- The channel is closed by a local `disconnect`, and the process exits. -/
theorem never_closes : ∃ c, Child.spawn Bool false true forked = some c ∧
    ¬Sound (run (step letters) c [.channel .disconnect, .exit 0 none false]) := by
  refine ⟨_, rfl, fun h => ?_⟩
  have hstdio : ∀ s ∈ (run (step letters) ((Child.spawn Bool false true forked).getD (.new Bool))
      [.channel .disconnect, .exit 0 none false]).stdio, s = none := by decide
  have hone := h.emitted rfl ⟨fun s hs => absurd (hstdio _ hs) (Option.some_ne_none s), ?_⟩
  · exact absurd hone (by decide)
  · intro t ht
    cases ht
    rfl

end NodeCore.ChildProcess
