import NodeCore.IpcTransport

/-!
A process and its child, connected: each reads what the other writes, in chunks of any size.
-/

namespace NodeCore.IpcPair

open NodeCore.Encoding NodeCore.Ipc NodeCore.IpcTransport

inductive Side
  | parent | child
  deriving DecidableEq

def Side.other : Side → Side
  | .parent => .child
  | .child => .parent

@[simp] lemma Side.other_other (s : Side) : s.other.other = s := by
  cases s <;> rfl

lemma Side.other_ne (s : Side) : s.other ≠ s := by
  cases s <;> nofun

lemma Side.eq_or_other (s x : Side) : x = s ∨ x = s.other := by
  cases s <;> cases x <;> decide

variable {M : Type}

structure Pair (M : Type) where
  ends : Side → Target M
  /-- How many bytes each end has read. -/
  taken : Side → ℕ

def Pair.new (M : Type) (workers : Side → Bool) : Pair M where
  ends s := .new M (workers s)
  taken _ := 0

inductive Move (M : Type)
  | read (length : ℕ)
  | line
  | send (m : M) (handle : Option HandleType)
  | listening (i : ℕ)

namespace Pair

variable (json : Json M) (p : Pair M)

/-- The bytes on the way to an end. -/
def flight (s : Side) : Bytes := ((p.ends s.other).written.flatMap json.bytes).drop (p.taken s)

def put (s : Side) (t : Target M) : Pair M := { p with ends := Function.update p.ends s t }

@[simp] lemma put_ends (s : Side) (t : Target M) : (p.put s t).ends s = t := by
  simp [put]

@[simp] lemma put_ends_other (s : Side) (t : Target M) :
    (p.put s t).ends s.other = p.ends s.other := by
  simp [put, Side.other_ne]

@[simp] lemma put_taken (s : Side) (t : Target M) : (p.put s t).taken = p.taken := rfl

/-- What one end does. A chunk is read when the loop has ended. -/
def step : Side × Move M → Pair M
  | (s, .read n) =>
    let t := p.ends s
    if t.looping || t.closed || t.crashed then p
    else
      let chunk := (p.flight json s).take n
      { p.put s (Ipc.step json t (.read chunk)) with
        taken := Function.update p.taken s (p.taken s + chunk.length) }
  | (s, .line) => p.put s (Ipc.step json (p.ends s) .line)
  | (s, .send m handle) => p.put s (Ipc.step json (p.ends s) (.send m handle))
  | (s, .listening i) => p.put s (Ipc.step json (p.ends s) (.listening i))

end Pair

/-! ### One end -/

/-- Neither disconnected nor crashed. -/
structure Open (t : Target M) : Prop where
  connected : t.connected = true
  finishing : t.finishing = false
  closed : t.closed = false
  crashed : t.crashed = false

def pending (t : Target M) : List (Wire M) := t.handleQueue.getD []

/-- An acknowledgement is waited for. -/
def waits (t : Target M) : ℕ := if t.handleQueue.isSome then 1 else 0

lemma waits_le (t : Target M) : waits t ≤ 1 := by
  unfold waits
  split_ifs <;> omega

lemma handleQueue_of_waits {t : Target M} (h : waits t = 1) :
    ∃ queue, t.handleQueue = some queue := by
  unfold waits at h
  split_ifs at h with hsome
  exact Option.isSome_iff_exists.mp hsome

lemma handleQueue_of_not_waits {t : Target M} (h : waits t = 0) : t.handleQueue = none := by
  cases hq : t.handleQueue with
  | none => rfl
  | some queue => simp [waits, hq] at h

/-- The message of the next line. -/
def next (json : Json M) (t : Target M) : Option (Wire M) :=
  (takeLine t.jsonBuffer).bind fun r => json.parse r.1

/-- Behind a handle nothing is written until it is acknowledged. -/
def HandleLast (ws : List (Wire M)) : Prop := ∀ w ∈ ws.dropLast, w.isHandle = false

lemma handleLast_nil : HandleLast ([] : List (Wire M)) := List.forall_mem_nil _

lemma handleLast_append {ws ws' : List (Wire M)} (h : ∀ w ∈ ws, w.isHandle = false)
    (h' : HandleLast ws') : HandleLast (ws ++ ws') := by
  intro w hw
  rcases eq_or_ne ws' [] with rfl | hne
  · rw [List.append_nil] at hw
    exact h w (List.dropLast_subset _ hw)
  · rw [List.dropLast_append_of_ne_nil hne] at hw
    exact (List.mem_append.mp hw).elim (h w) (h' w)

lemma handleLast_tail {w : Wire M} {ws : List (Wire M)} (h : HandleLast (w :: ws)) :
    HandleLast ws := by
  cases ws with
  | nil => exact h
  | cons w' ws => exact fun x hx => h x (List.mem_cons_of_mem _ hx)

/-- From `t`, `ws` are sent and `new` written. -/
structure Sends (t t' : Target M) (ws new : List (Wire M)) : Prop where
  isOpen : Open t'
  input : SameInput t t'
  servers : t'.servers = t.servers
  log : t'.log = t.log
  worker : t'.worker = t.worker
  written : t'.written = t.written ++ new
  owes : new.countP Wire.isHandle + waits t = waits t'
  order : pending t ++ ws = new ++ pending t'
  last : HandleLast new
  blocked : waits t = 1 → new = []

lemma sends_nil {t : Target M} (h : Open t) : Sends t t [] [] where
  isOpen := h
  input := ⟨rfl, rfl, rfl⟩
  servers := rfl
  log := rfl
  worker := rfl
  written := (List.append_nil _).symm
  owes := Nat.zero_add _
  order := List.append_nil _
  last := nofun
  blocked _ := rfl

lemma Sends.trans {t t' t'' : Target M} {ws new ws' new' : List (Wire M)}
    (h : Sends t t' ws new) (h' : Sends t' t'' ws' new') :
    Sends t t'' (ws ++ ws') (new ++ new') where
  isOpen := h'.isOpen
  input := ⟨h'.input.1.trans h.input.1, h'.input.2.trans h.input.2, h'.input.3.trans h.input.3⟩
  servers := h'.servers.trans h.servers
  log := h'.log.trans h.log
  worker := h'.worker.trans h.worker
  written := by rw [h'.written, h.written, List.append_assoc]
  owes := by rw [← h'.owes, ← h.owes, List.countP_append]; omega
  order := by rw [← List.append_assoc, h.order, List.append_assoc, h'.order, List.append_assoc]
  last := by
    have howes := h.owes
    rcases Nat.eq_zero_or_pos (new.countP Wire.isHandle) with hnone | hsome
    · refine handleLast_append (fun w hw => ?_) h'.last
      rw [← Bool.not_eq_true]
      exact List.countP_eq_zero.mp hnone w hw
    · have hle := waits_le t'
      rw [h'.blocked (by omega), List.append_nil]
      exact h.last
  blocked hw := by
    have howes := h.owes
    have hle := waits_le t'
    rw [h.blocked hw, h'.blocked (by omega)]
    rfl

lemma sends_send {t : Target M} (h : Open t) (w : Wire M) :
    ∃ new, Sends t (t.send w) [w] new := by
  cases hq : t.handleQueue with
  | some queue =>
    have hsend : t.send w = { t with handleQueue := some (queue ++ [w]) } := by
      simp [Target.send, h.connected, hq]
    refine ⟨[], ?_⟩
    rw [hsend]
    exact ⟨⟨h.1, h.2, h.3, h.4⟩, ⟨rfl, rfl, rfl⟩, rfl, rfl, rfl, (List.append_nil _).symm,
      by simp [waits, hq], by simp [pending, hq], nofun, fun _ => rfl⟩
  | none =>
    have hsend : t.send w = { t with
        written := t.written ++ [w]
        handleQueue := if w.isHandle then some [] else none } := by
      simp [Target.send, h.connected, hq]
    refine ⟨[w], ?_⟩
    rw [hsend]
    refine ⟨⟨h.1, h.2, h.3, h.4⟩, ⟨rfl, rfl, rfl⟩, rfl, rfl, rfl, rfl, ?_, ?_, nofun, ?_⟩
    · cases hw : w.isHandle <;> simp [waits, hq, hw]
    · cases w.isHandle <;> simp [pending, hq]
    · simp [waits, hq]

lemma sends_foldl {t : Target M} (h : Open t) (ws : List (Wire M)) :
    ∃ new, Sends t (ws.foldl Target.send t) ws new := by
  induction ws generalizing t with
  | nil => exact ⟨[], sends_nil h⟩
  | cons w ws ih =>
    obtain ⟨new, hs⟩ := sends_send h w
    obtain ⟨new', hs'⟩ := ih hs.isOpen
    exact ⟨new ++ new', hs.trans hs'⟩

lemma finishIf_of_open {t : Target M} (h : Open t) : t.finishIf = t := by
  simp [Target.finishIf, h.finishing]

lemma emitMessage_of_open {t : Target M} (h : Open t) (m : M) :
    t.emitMessage m = t.emit (.message m) :=
  finishIf_of_open (t := t.emit (.message m)) ⟨h.1, h.2, h.3, h.4⟩

/-- What has been emitted or waits for it does not matter to the channel. -/
def said (t : Target M) (log : List (Event M)) (servers : List M) : Target M :=
  { t with log := log, servers := servers }

lemma said_open {t : Target M} (h : Open t) (log : List (Event M)) (servers : List M) :
    Open (said t log servers) :=
  ⟨h.1, h.2, h.3, h.4⟩

lemma got_of_open {t : Target M} (h : Open t) (type : HandleType) (m : M) :
    t.got type m = if type = .netServer then said t t.log (t.servers ++ [m])
      else said t (t.log ++ [.message m]) t.servers := by
  unfold Target.got
  rw [emitMessage_of_open h]
  rfl

lemma foldl_emitMessage_of_open (ms : List M) {t : Target M} (h : Open t) :
    ms.foldl Target.emitMessage t = said t (t.log ++ ms.map .message) t.servers := by
  induction ms generalizing t with
  | nil => simp [said]
  | cons m ms ih =>
    have ht : Open (t.emit (.message m)) := ⟨h.1, h.2, h.3, h.4⟩
    rw [List.foldl_cons, emitMessage_of_open h, ih ht]
    simp [said, Target.emit]

lemma tick_of_open {t : Target M} (h : Open t) :
    t.tick = if t.worker then t else said t (t.log ++ t.servers.map .message) [] := by
  unfold Target.tick
  split_ifs
  · rfl
  · have ht : Open { t with servers := [] } := ⟨h.1, h.2, h.3, h.4⟩
    exact foldl_emitMessage_of_open _ ht

lemma got_said {t : Target M} (h : Open t) (type : HandleType) (m : M) :
    ∃ log servers, t.got type m = said t log servers := by
  rw [got_of_open h]
  split_ifs
  · exact ⟨_, _, rfl⟩
  · exact ⟨_, _, rfl⟩

/-- A message with a handle is acknowledged at once if no acknowledgement is waited for. -/
lemma handle_of_free {t : Target M} (h : Open t) (hq : t.handleQueue = none) (type : HandleType)
    (m : M) :
    t.handle (.handle type m) = { t with written := t.written ++ [Wire.ack] }.got type m := by
  have hsend : t.send .ack = { t with written := t.written ++ [.ack] } := by
    have hack : t.send .ack = { t with written := t.written ++ [.ack], handleQueue := none } := by
      simp [Target.send, h.connected, hq, Wire.isHandle]
    rw [hack, ← hq]
  have ho : Open { t with written := t.written ++ [.ack] } := ⟨h.1, h.2, h.3, h.4⟩
  obtain ⟨log, servers, hsaid⟩ := got_said ho type m
  rw [Target.handle, hsend, hsaid]
  exact finishIf_of_open (said_open ho log servers)

lemma handle_ack {t : Target M} (h : Open t) {queue : List (Wire M)}
    (hq : t.handleQueue = some queue) :
    ∃ new, Sends { t with handleQueue := none } (t.handle .ack) queue new := by
  have ho : Open { t with handleQueue := none } := ⟨h.1, h.2, h.3, h.4⟩
  obtain ⟨new, hs⟩ := sends_foldl ho queue
  have hdrain : t.handle .ack = queue.foldl Target.send { t with handleQueue := none } := by
    rw [Target.handle, Target.drain, hq]
    exact finishIf_of_open hs.isOpen
  exact ⟨new, hdrain ▸ hs⟩

/-- A server of a worker listens. -/
lemma listening_of_open {t : Target M} (h : Open t) (i : ℕ) :
    t.listening i = match t.servers[i]? with
      | some m => said t (t.log ++ [.message m]) (t.servers.eraseIdx i)
      | none => t := by
  unfold Target.listening
  cases t.servers[i]? with
  | none => rfl
  | some m =>
    have ho : Open { t with servers := t.servers.eraseIdx i } := ⟨h.1, h.2, h.3, h.4⟩
    exact emitMessage_of_open ho m

/-! ### What a step does -/

section Steps

variable {json : Json M} {p : Pair M} {s : Side}

lemma step_read (h : Open (p.ends s)) (n : ℕ) :
    p.step json (s, .read n) = if (p.ends s).looping then p else
      { p.put s ((p.ends s).read ((p.flight json s).take n)) with
        taken := Function.update p.taken s (p.taken s + ((p.flight json s).take n).length) } := by
  unfold Pair.step
  cases hl : (p.ends s).looping <;> simp [h.closed, h.crashed, hl, Ipc.step]

lemma step_line (h : Open (p.ends s)) :
    p.step json (s, .line) =
      p.put s (if (p.ends s).looping then (p.ends s).line json else p.ends s) := by
  simp [Pair.step, Ipc.step, h.crashed]

lemma step_send (h : Open (p.ends s)) (m : M) (handle : Option HandleType) :
    p.step json (s, .send m handle) = p.put s ((p.ends s).send (toWire m handle)) := by
  simp [Pair.step, Ipc.step, h.crashed]

lemma step_listening (h : Open (p.ends s)) (i : ℕ) :
    p.step json (s, .listening i) = p.put s
      (if (p.ends s).looping || !(p.ends s).worker then p.ends s else (p.ends s).listening i) := by
  simp [Pair.step, Ipc.step, h.crashed]

lemma put_self : p.put s (p.ends s) = p := by
  simp [Pair.put]

end Steps

end NodeCore.IpcPair
