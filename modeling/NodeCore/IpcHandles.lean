import NodeCore.IpcPair
import NodeCore.Ledger

/-!
The acknowledgements of handles. Neither end waits for one for ever, unless an end has to
acknowledge a handle while it waits itself: its acknowledgement is queued.
-/

namespace NodeCore.IpcHandles

open NodeCore.Encoding NodeCore.Ipc NodeCore.IpcTransport NodeCore.IpcPair NodeCore.Ledger

variable {M : Type} (json : Json M)

/-- All that has been sent has been read and handled, and an end waits for an acknowledgement. -/
structure Deadlock (p : Pair M) : Prop where
  quiet : ∀ s, p.flight json s = [] ∧ (p.ends s).looping = false
  waiting : ∃ s, (p.ends s).handleQueue.isSome = true

/-- **The condition on a step.** A handle is not handled by an end that waits. -/
def Ok (p : Pair M) : Side × Move M → Prop
  | (_, .send m handle) => WellFormed (json.stringify (toWire m handle))
  | (s, .line) => ∀ type m, next json (p.ends s) = some (.handle type m) →
      (p.ends s).handleQueue = none
  | _ => True

def isAck : Wire M → Bool
  | .ack => true
  | _ => false

/-- A message of the user, to be written some time. -/
def Sendable (w : Wire M) : Prop := isAck w = false ∧ WellFormed (json.stringify w)

/-- `ahead s` is still to be handled by `s`. For every acknowledgement that is waited for, either
its handle is still ahead or the acknowledgement is. -/
structure Sane (p : Pair M) (ahead : Side → List (Wire M)) : Prop where
  taken : ∀ s, p.taken s ≤ ((p.ends s.other).written.flatMap json.bytes).length
  input : ∀ s, Ahead json (p.ends s) (p.flight json s) (ahead s)
  isOpen : ∀ s, Open (p.ends s)
  sendable : ∀ s, ∀ w ∈ pending (p.ends s), Sendable json w
  owed : ∀ s, (ahead s.other).countP Wire.isHandle + (ahead s).countP isAck = waits (p.ends s)

variable {json}

lemma sane_new (workers : Side → Bool) : Sane json (.new M workers) fun _ => [] where
  taken _ := Nat.zero_le _
  input s := ahead_new (workers s)
  isOpen _ := ⟨rfl, rfl, rfl, rfl⟩
  sendable _ := nofun
  owed _ := rfl

/-- No end waits when nothing is ahead. -/
lemma Sane.not_deadlock {p : Pair M} {ahead : Side → List (Wire M)} (h : Sane json p ahead) :
    ¬ Deadlock json p := by
  rintro ⟨hquiet, s, hs⟩
  have hnil : ∀ s, ahead s = [] := by
    intro s
    have ha := h.input s
    rw [(hquiet s).1] at ha
    exact ha.rest (hquiet s).2
  have hw := h.owed s
  rw [hnil, hnil] at hw
  simp [waits, hs] at hw

/-! ### One end at a time -/

/-- What is ahead after the end `s` has handled all but `ws` and written `new`. -/
def after (ahead : Side → List (Wire M)) (s : Side) (ws new : List (Wire M)) (x : Side) :
    List (Wire M) :=
  if x = s then ws else ahead x ++ new

@[simp] lemma after_self (ahead : Side → List (Wire M)) (s : Side) (ws new : List (Wire M)) :
    after ahead s ws new s = ws :=
  if_pos rfl

@[simp] lemma after_other (ahead : Side → List (Wire M)) (s : Side) (ws new : List (Wire M)) :
    after ahead s ws new s.other = ahead s.other ++ new :=
  if_neg s.other_ne

lemma after_nil (ahead : Side → List (Wire M)) (s : Side) : after ahead s (ahead s) [] = ahead := by
  funext x
  unfold after
  split_ifs with hx
  · rw [hx]
  · exact List.append_nil _

/-- What is on the way to the other end grows by what is written. -/
lemma flight_put_other {p : Pair M} {s : Side} {t : Target M} {new : List (Wire M)}
    (hw : t.written = (p.ends s).written ++ new)
    (htaken : p.taken s.other ≤ ((p.ends s).written.flatMap json.bytes).length) :
    (p.put s t).flight json s.other = p.flight json s.other ++ new.flatMap json.bytes := by
  simp only [Pair.flight, Side.other_other, Pair.put_ends, Pair.put_taken]
  rw [hw, List.flatMap_append, List.drop_append_of_le_length htaken]

lemma flight_put_self (p : Pair M) (s : Side) (t : Target M) :
    (p.put s t).flight json s = p.flight json s := by
  simp only [Pair.flight, Pair.put_ends_other, Pair.put_taken]

/-- The end `s` has come to the state `t`. -/
lemma Sane.put {p : Pair M} {ahead : Side → List (Wire M)} (h : Sane json p ahead) {s : Side}
    {t : Target M} {ws new : List (Wire M)} (hw : t.written = (p.ends s).written ++ new)
    (hnew : ∀ w ∈ new, WellFormed (json.stringify w))
    (hahead : Ahead json t (p.flight json s) ws) (hopen : Open t)
    (hsend : ∀ w ∈ pending t, Sendable json w)
    (hself : (ahead s.other ++ new).countP Wire.isHandle + ws.countP isAck = waits t)
    (hother : ws.countP Wire.isHandle + (ahead s.other ++ new).countP isAck =
      waits (p.ends s.other)) :
    Sane json (p.put s t) (after ahead s ws new) := by
  have htaken : p.taken s.other ≤ ((p.ends s).written.flatMap json.bytes).length := by
    simpa using h.taken s.other
  constructor
  · intro x
    rcases s.eq_or_other x with rfl | rfl
    · simpa using h.taken x
    · rw [Side.other_other, Pair.put_ends, Pair.put_taken, hw, List.flatMap_append,
        List.length_append]
      exact le_trans htaken (Nat.le_add_right _ _)
  · intro x
    rcases s.eq_or_other x with rfl | rfl
    · rw [Pair.put_ends, flight_put_self, after_self]
      exact hahead
    · rw [Pair.put_ends_other, flight_put_other hw htaken, after_other]
      exact (h.input s.other).writeAll hnew
  · intro x
    rcases s.eq_or_other x with rfl | rfl
    · rwa [Pair.put_ends]
    · rw [Pair.put_ends_other]
      exact h.isOpen _
  · intro x
    rcases s.eq_or_other x with rfl | rfl
    · rwa [Pair.put_ends]
    · rw [Pair.put_ends_other]
      exact h.sendable _
  · intro x
    rcases s.eq_or_other x with rfl | rfl
    · rwa [Pair.put_ends, after_self, after_other]
    · rwa [Pair.put_ends_other, Side.other_other, after_self, after_other]

/-- The end `s` has emitted something. -/
lemma Sane.said {p : Pair M} {ahead : Side → List (Wire M)} (h : Sane json p ahead) (s : Side)
    (log : List (Event M)) (servers : List M) :
    Sane json (p.put s (said (p.ends s) log servers)) ahead := by
  have hw := h.owed s.other
  rw [Side.other_other] at hw
  have hput : Sane json (p.put s (IpcPair.said (p.ends s) log servers))
      (after ahead s (ahead s) []) :=
    h.put (List.append_nil _).symm nofun ((h.input s).same ⟨rfl, rfl, rfl⟩)
      (said_open (h.isOpen s) _ _) (h.sendable s) (by rw [List.append_nil]; exact h.owed s)
      (by rw [List.append_nil]; exact hw)
  rwa [after_nil] at hput

/-- `ws` are sent when the messages ahead are `rest`, one of them less if it is the
acknowledgement. -/
lemma Sane.sends {p : Pair M} {ahead : Side → List (Wire M)} (h : Sane json p ahead) {s : Side}
    {t t' : Target M} {ws new rest : List (Wire M)} (hs : Sends t t' ws new)
    (ht : t.written = (p.ends s).written) (hahead : Ahead json t (p.flight json s) rest)
    (hws : ∀ w ∈ pending t ++ ws, Sendable json w)
    (hself : (ahead s.other).countP Wire.isHandle + rest.countP isAck = waits t)
    (hother : rest.countP Wire.isHandle + (ahead s.other).countP isAck =
      waits (p.ends s.other)) :
    Sane json (p.put s t') (after ahead s rest new) := by
  rw [hs.order, List.forall_mem_append] at hws
  have hack : new.countP isAck = 0 := by
    rw [List.countP_eq_zero]
    intro w hw
    rw [(hws.1 w hw).1]
    exact Bool.false_ne_true
  refine h.put (by rw [hs.written, ht]) (fun w hw => (hws.1 w hw).2) (hahead.same hs.input)
    hs.isOpen hws.2 ?_ ?_
  · rw [List.countP_append, ← hs.owes, ← hself]
    omega
  · rw [List.countP_append, hack]
    exact hother

/-! ### Steps -/

/-- The end `s` has gone on reading. -/
lemma Sane.same {p : Pair M} {ahead : Side → List (Wire M)} (h : Sane json p ahead) {s : Side}
    {t : Target M} {ws : List (Wire M)} (hw : t.written = (p.ends s).written)
    (hq : t.handleQueue = (p.ends s).handleQueue) (hopen : Open t)
    (hahead : Ahead json t (p.flight json s) ws)
    (hack : ws.countP isAck = (ahead s).countP isAck)
    (hhandle : ws.countP Wire.isHandle = (ahead s).countP Wire.isHandle) :
    Sane json (p.put s t) (after ahead s ws []) := by
  have hother := h.owed s.other
  rw [Side.other_other] at hother
  refine h.put (by rw [hw, List.append_nil]) nofun hahead hopen ?_ ?_ ?_
  · rw [pending, hq]
    exact h.sendable s
  · rw [List.append_nil, hack, waits, hq]
    exact h.owed s
  · rw [List.append_nil, hhandle]
    exact hother

lemma Sane.send {p : Pair M} {ahead : Side → List (Wire M)} (h : Sane json p ahead) (s : Side)
    {w : Wire M} (hw : Sendable json w) :
    ∃ new, Sends (p.ends s) ((p.ends s).send w) [w] new ∧
      Sane json (p.put s ((p.ends s).send w)) (after ahead s (ahead s) new) := by
  obtain ⟨new, hs⟩ := sends_send (h.isOpen s) w
  have hother := h.owed s.other
  rw [Side.other_other] at hother
  refine ⟨new, hs, h.sends hs rfl (h.input s) ?_ (h.owed s) hother⟩
  rw [List.forall_mem_append, List.forall_mem_singleton]
  exact ⟨h.sendable s, hw⟩

section Handle

variable {p : Pair M} {ahead : Side → List (Wire M)} {s : Side} {ws : List (Wire M)} {rest : Str}

/-- The first message ahead is one without a handle. -/
lemma Sane.handlePlain (h : Sane json p ahead) {m : M} (hws : ahead s = .plain m :: ws)
    (hrest : Ahead json { p.ends s with jsonBuffer := rest } (p.flight json s) ws) :
    Sane json (p.put s ({ p.ends s with jsonBuffer := rest }.handle (.plain m)))
      (after ahead s ws []) := by
  obtain ⟨h1, h2, h3, h4⟩ := h.isOpen s
  have hopen : Open { p.ends s with jsonBuffer := rest } := ⟨h1, h2, h3, h4⟩
  rw [Target.handle, emitMessage_of_open hopen]
  refine h.same rfl rfl (said_open hopen _ _) (hrest.same ⟨rfl, rfl, rfl⟩) ?_ ?_
  · simp [hws, isAck]
  · simp [hws, Wire.isHandle]

/-- It is one with a handle, and its end does not wait. -/
lemma Sane.handleHandle (h : Sane json p ahead) {type : HandleType} {m : M}
    (hws : ahead s = .handle type m :: ws)
    (hrest : Ahead json { p.ends s with jsonBuffer := rest } (p.flight json s) ws)
    (hfree : (p.ends s).handleQueue = none) :
    Sane json (p.put s ({ p.ends s with jsonBuffer := rest }.handle (.handle type m)))
      (after ahead s ws [.ack]) := by
  obtain ⟨h1, h2, h3, h4⟩ := h.isOpen s
  have hopen : Open { p.ends s with jsonBuffer := rest } := ⟨h1, h2, h3, h4⟩
  have hself := h.owed s
  have hother := h.owed s.other
  rw [Side.other_other] at hother
  rw [hws, List.countP_cons] at hself hother
  have hhandle : (if Wire.isHandle (.handle type m) = true then 1 else 0) = 1 := rfl
  have hack : [(.ack : Wire M)].countP isAck = 1 := rfl
  have hopen' : Open { p.ends s with
      jsonBuffer := rest, written := (p.ends s).written ++ [.ack] } := ⟨h1, h2, h3, h4⟩
  obtain ⟨log, servers, hsaid⟩ := got_said hopen' type m
  rw [handle_of_free hopen hfree, hsaid]
  refine h.put rfl ?_ (hrest.same ⟨rfl, rfl, rfl⟩) ⟨h1, h2, h3, h4⟩ (h.sendable s) ?_ ?_
  · rw [List.forall_mem_singleton]
    exact json.ack
  · rw [List.countP_append]
    exact hself
  · rw [List.countP_append]
    omega

/-- It is an acknowledgement. -/
lemma Sane.handleAck (h : Sane json p ahead) (hws : ahead s = .ack :: ws)
    (hrest : Ahead json { p.ends s with jsonBuffer := rest } (p.flight json s) ws) :
    ∃ new, Sends { p.ends s with jsonBuffer := rest, handleQueue := none }
        ({ p.ends s with jsonBuffer := rest }.handle .ack) (pending (p.ends s)) new ∧
      (ahead s.other).countP Wire.isHandle = 0 ∧
      Sane json (p.put s ({ p.ends s with jsonBuffer := rest }.handle .ack))
        (after ahead s ws new) := by
  obtain ⟨h1, h2, h3, h4⟩ := h.isOpen s
  have hopen : Open { p.ends s with jsonBuffer := rest } := ⟨h1, h2, h3, h4⟩
  have hself := h.owed s
  have hother := h.owed s.other
  rw [Side.other_other] at hother
  rw [hws, List.countP_cons] at hself hother
  have hack : (if isAck (.ack : Wire M) = true then 1 else 0) = 1 := rfl
  have hle := waits_le (p.ends s)
  obtain ⟨queue, hqueue⟩ := handleQueue_of_waits (t := p.ends s) (by omega)
  obtain ⟨new, hs⟩ := handle_ack hopen hqueue
  have hpending : pending (p.ends s) = queue := by
    rw [pending, hqueue]
    rfl
  refine ⟨new, hpending ▸ hs, by omega, h.sends hs rfl (hrest.same ⟨rfl, rfl, rfl⟩) ?_ ?_ hother⟩
  · rw [← hpending]
    exact h.sendable s
  · have hsum : (ahead s.other).countP Wire.isHandle + ws.countP isAck = 0 := by omega
    exact hsum

end Handle

/-- The loop of `onread` ends. -/
lemma Sane.lineEnd {p : Pair M} {ahead : Side → List (Wire M)} (h : Sane json p ahead) {s : Side}
    (hline : takeLine (p.ends s).jsonBuffer = none) (buffering : Bool) :
    Sane json (p.put s { p.ends s with looping := false, buffering := buffering }.tick)
      (after ahead s (ahead s) []) := by
  obtain ⟨h1, h2, h3, h4⟩ := h.isOpen s
  have hopen : Open { p.ends s with looping := false, buffering := buffering } :=
    ⟨h1, h2, h3, h4⟩
  have hend : Ahead json { p.ends s with looping := false, buffering := buffering }
      (p.flight json s) (ahead s) :=
    ⟨(h.input s).text, fun _ => takeLine_none.mp hline⟩
  rw [tick_of_open hopen]
  split_ifs
  · exact h.same rfl rfl hopen hend rfl rfl
  · exact h.same rfl rfl (said_open hopen _ _) (hend.same ⟨rfl, rfl, rfl⟩) rfl rfl

lemma next_eq {t : Target M} {text rest : Str} {w : Wire M}
    (hline : takeLine t.jsonBuffer = some (text, rest)) (hparse : json.parse text = some w) :
    next json t = some w := by
  rw [next, hline]
  exact hparse

/-- A chunk is read. -/
lemma Sane.read {p p' : Pair M} {ahead : Side → List (Wire M)} (h : Sane json p ahead) {s : Side}
    {n : ℕ} (hends : p'.ends = (p.put s ((p.ends s).read ((p.flight json s).take n))).ends)
    (htaken : p'.taken =
      Function.update p.taken s (p.taken s + ((p.flight json s).take n).length)) :
    Sane json p' ahead := by
  have ha := h.input s
  rw [← List.take_append_drop n (p.flight json s)] at ha
  obtain ⟨text, d, hread, ha'⟩ := ha.read
  obtain ⟨h1, h2, h3, h4⟩ := h.isOpen s
  have hself : p'.ends s = (p.ends s).read ((p.flight json s).take n) := by
    rw [hends, Pair.put_ends]
  have hother : p'.ends s.other = p.ends s.other := by rw [hends, Pair.put_ends_other]
  have hts : p'.taken s = p.taken s + ((p.flight json s).take n).length := by
    rw [htaken, Function.update_self]
  have hto : p'.taken s.other = p.taken s.other := by
    rw [htaken, Function.update_of_ne s.other_ne]
  have hwritten : (p'.ends s).written = (p.ends s).written := by rw [hself, hread]
  have hqueue : (p'.ends s).handleQueue = (p.ends s).handleQueue := by rw [hself, hread]
  have hflight : p'.flight json s = (p.flight json s).drop n := by
    rw [Pair.flight, hother, hts, ← List.drop_drop]
    change (p.flight json s).drop _ = _
    rw [List.length_take]
    rcases Nat.le_total n (p.flight json s).length with hle | hle
    · rw [Nat.min_eq_left hle]
    · rw [Nat.min_eq_right hle, List.drop_length, List.drop_eq_nil_of_le hle]
  have hflight' : p'.flight json s.other = p.flight json s.other := by
    rw [Pair.flight, Pair.flight, Side.other_other, hwritten, hto]
  constructor
  · intro x
    rcases s.eq_or_other x with rfl | rfl
    · have hlen : (p.flight json x).length =
          ((p.ends x.other).written.flatMap json.bytes).length - p.taken x := List.length_drop
      have htake := List.length_take_le' n (p.flight json x)
      have hle := h.taken x
      rw [hother, hts]
      omega
    · rw [Side.other_other, hwritten, hto]
      simpa using h.taken s.other
  · intro x
    rcases s.eq_or_other x with rfl | rfl
    · rwa [hself, hflight]
    · rw [hother, hflight']
      exact h.input _
  · intro x
    rcases s.eq_or_other x with rfl | rfl
    · rw [hself, hread]
      exact ⟨h1, h2, h3, h4⟩
    · rw [hother]
      exact h.isOpen _
  · intro x
    rcases s.eq_or_other x with rfl | rfl
    · rw [pending, hqueue]
      exact h.sendable x
    · rw [hother]
      exact h.sendable _
  · intro x
    rcases s.eq_or_other x with rfl | rfl
    · rw [waits, hqueue]
      exact h.owed x
    · rw [hother]
      exact h.owed _

lemma sendable_toWire {m : M} {handle : Option HandleType}
    (h : WellFormed (json.stringify (toWire m handle))) : Sendable json (toWire m handle) := by
  cases handle <;> exact ⟨rfl, h⟩

/-- A server of a worker listens, or there is none. -/
lemma Sane.listening {p : Pair M} {ahead : Side → List (Wire M)} (h : Sane json p ahead) (s : Side)
    (i : ℕ) : Sane json (p.put s ((p.ends s).listening i)) ahead := by
  rw [listening_of_open (h.isOpen s)]
  cases (p.ends s).servers[i]? with
  | none =>
    rw [put_self]
    exact h
  | some m => exact h.said s _ _

lemma Sane.step {p : Pair M} {ahead : Side → List (Wire M)} (h : Sane json p ahead)
    (move : Side × Move M) (hok : Ok json p move) :
    ∃ ahead', Sane json (p.step json move) ahead' := by
  obtain ⟨s, move⟩ := move
  cases move with
  | read n =>
    rw [step_read (h.isOpen s)]
    split_ifs
    · exact ⟨ahead, h⟩
    · exact ⟨ahead, h.read (n := n) rfl rfl⟩
  | line =>
    rw [step_line (h.isOpen s)]
    split_ifs
    · cases hline : takeLine (p.ends s).jsonBuffer with
      | none =>
        rw [Target.line, hline]
        exact ⟨_, h.lineEnd hline _⟩
      | some r =>
        obtain ⟨text, rest⟩ := r
        obtain ⟨w, ws, hws, hparse, hrest⟩ := (h.input s).line hline
        simp only [Target.line, hline, hparse]
        cases w with
        | plain m => exact ⟨_, h.handlePlain hws hrest⟩
        | ack =>
          obtain ⟨new, -, -, hsane⟩ := h.handleAck hws hrest
          exact ⟨_, hsane⟩
        | handle type m =>
          exact ⟨_, h.handleHandle hws hrest (hok type m (next_eq hline hparse))⟩
    · rw [put_self]
      exact ⟨ahead, h⟩
  | send m handle =>
    obtain ⟨new, -, hsane⟩ := h.send s (sendable_toWire hok)
    rw [step_send (h.isOpen s)]
    exact ⟨_, hsane⟩
  | listening i =>
    rw [step_listening (h.isOpen s)]
    split_ifs
    · rw [put_self]
      exact ⟨ahead, h⟩
    · exact ⟨ahead, h.listening s i⟩

lemma sane_run {p : Pair M} {ahead : Side → List (Wire M)} (h : Sane json p ahead)
    {moves : List (Side × Move M)} (hok : Along (Pair.step json) (Ok json) p moves) :
    ∃ ahead', Sane json (run (Pair.step json) p moves) ahead' := by
  induction moves generalizing p ahead with
  | nil => exact ⟨ahead, h⟩
  | cons move moves ih =>
    obtain ⟨ahead', h'⟩ := h.step move hok.1
    exact ih h' hok.2

/-- **No end waits for ever,** in a run in which no end handles a handle while it waits. -/
theorem no_deadlock (json : Json M) (workers : Side → Bool) (moves : List (Side × Move M))
    (hok : Along (Pair.step json) (Ok json) (.new M workers) moves) :
    ¬ Deadlock json (run (Pair.step json) (.new M workers) moves) := by
  obtain ⟨ahead, h⟩ := sane_run (sane_new workers) hok
  exact h.not_deadlock

/-- A socket is sent to a child, which acknowledges it. -/
theorem no_deadlock_socket : ¬ Deadlock letters (run (Pair.step letters) (.new Bool fun _ => false)
    [(.parent, .send false (some .netSocket)), (.child, .read 2), (.child, .line)]) :=
  no_deadlock letters _ _ ⟨⟨['c'], rfl⟩, trivial, fun _ _ _ => by decide, trivial⟩

/-- Both ends send a socket before they read: each queues the acknowledgement of the other's. -/
theorem both_wait : Deadlock letters (run (Pair.step letters) (.new Bool fun _ => false)
    [(.parent, .send false (some .netSocket)), (.child, .send false (some .netSocket)),
      (.parent, .read 2), (.parent, .line), (.parent, .line),
      (.child, .read 2), (.child, .line), (.child, .line)]) where
  quiet s := by cases s <;> decide
  waiting := ⟨.parent, by decide⟩

end NodeCore.IpcHandles
