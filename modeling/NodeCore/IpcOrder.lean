import NodeCore.IpcHandles

/-!
One end sends, the other emits. The messages are emitted in their order, unless a worker of a
cluster has been sent a server, which is still to listen when the next message comes.
-/

namespace NodeCore.IpcOrder

open NodeCore.Encoding NodeCore.Ipc NodeCore.IpcTransport NodeCore.IpcPair NodeCore.IpcHandles
  NodeCore.Ledger

variable {M : Type} (json : Json M)

/-- The messages of the user among `ws`. -/
def users (ws : List (Wire M)) : List M := ws.filterMap Wire.user

def messageOf : Event M → Option M
  | .message m => some m
  | _ => none

/-- What has been emitted as `'message'`. -/
def emitted (t : Target M) : List M := t.log.filterMap messageOf

def sentBy : Side × Move M → Option M
  | (_, .send m _) => some m
  | _ => none

/-- What has been sent. -/
def sent (moves : List (Side × Move M)) : List M := moves.filterMap sentBy

/-- Only the end `s` sends. -/
def OneWay (s : Side) (moves : List (Side × Move M)) : Prop :=
  ∀ x m handle, (x, .send m handle) ∈ moves → x = s

/-- Nothing is under way from `s`: all has been read and handled, and no server of a worker is
still to listen. -/
structure AtRest (s : Side) (p : Pair M) : Prop where
  quiet : ∀ x, p.flight json x = [] ∧ (p.ends x).looping = false
  listening : (p.ends s.other).worker = true → (p.ends s.other).servers = []

/-- **What is claimed** of the messages `ms` that `s` has sent. -/
structure Delivers (s : Side) (p : Pair M) (ms : List M) : Prop where
  inOrder : emitted (p.ends s.other) <+: ms
  once : AtRest json s p → emitted (p.ends s.other) = ms

/-- **The condition on a step.** In a worker, no message is handled while a server is still to
listen. -/
def Ok (s : Side) (p : Pair M) : Side × Move M → Prop
  | (_, .send m handle) => WellFormed (json.stringify (toWire m handle))
  | (x, .line) => ∀ m, x = s.other → (next json (p.ends x)).bind Wire.user = some m →
      (p.ends x).worker = true → (p.ends x).servers = []
  | _ => True

/-- What has been sent is emitted, waits for a server to listen, is ahead, or is queued. -/
structure Ordered (s : Side) (ms : List M) (p : Pair M) (ahead : Side → List (Wire M)) :
    Prop where
  sane : Sane json p ahead
  acks : ∀ w ∈ ahead s, w = .ack
  free : (p.ends s.other).handleQueue = none
  last : HandleLast (ahead s.other)
  sent : users (p.ends s).written ++ users (pending (p.ends s)) = ms
  order : emitted (p.ends s.other) ++ (p.ends s.other).servers ++ users (ahead s.other) =
    users (p.ends s).written
  few : (p.ends s.other).servers.length ≤ 1
  soon : (p.ends s.other).worker = false → (p.ends s.other).servers = [] ∨
    (p.ends s.other).looping = true ∧ 10 ∉ (p.ends s.other).jsonBuffer

variable {json} {s : Side} {ms : List M}

lemma users_append (ws ws' : List (Wire M)) : users (ws ++ ws') = users ws ++ users ws' :=
  List.filterMap_append

lemma users_toWire (m : M) (handle : Option HandleType) : users [toWire m handle] = [m] := by
  cases handle <;> rfl

lemma ordered_new (workers : Side → Bool) (s : Side) :
    Ordered json s [] (.new M workers) fun _ => [] where
  sane := sane_new workers
  acks := nofun
  free := rfl
  last := nofun
  sent := rfl
  order := rfl
  few := Nat.zero_le _
  soon _ := .inl rfl

lemma Ordered.delivers {p : Pair M} {ahead : Side → List (Wire M)} (h : Ordered json s ms p ahead) :
    Delivers json s p ms := by
  constructor
  · rw [← h.sent, ← h.order, List.append_assoc, List.append_assoc]
    exact List.prefix_append _ _
  · rintro ⟨hquiet, hlistening⟩
    have hnil : ∀ x, ahead x = [] := by
      intro x
      have ha := h.sane.input x
      rw [(hquiet x).1] at ha
      exact ha.rest (hquiet x).2
    have hpending : pending (p.ends s) = [] := by
      have howed := h.sane.owed s
      rw [hnil, hnil] at howed
      rw [pending, handleQueue_of_not_waits howed.symm]
      rfl
    have hservers : (p.ends s.other).servers = [] := by
      cases hworker : (p.ends s.other).worker with
      | true => exact hlistening hworker
      | false =>
        refine (h.soon hworker).resolve_right fun hl => ?_
        rw [(hquiet s.other).2] at hl
        exact Bool.false_ne_true hl.1
    rw [← h.sent, ← h.order, hpending, hservers, hnil]
    simp [users]

/-! ### The end that sends -/

/-- `new` is written, and `more` has been sent. -/
lemma Ordered.writes {p : Pair M} {ahead : Side → List (Wire M)} (h : Ordered json s ms p ahead)
    {t : Target M} {ws new : List (Wire M)} {more : List M}
    (hsane : Sane json (p.put s t) (after ahead s ws new)) (hws : ∀ w ∈ ws, w = .ack)
    (hwritten : t.written = (p.ends s).written ++ new)
    (hpending : users (pending (p.ends s)) ++ more = users new ++ users (pending t))
    (hlast : HandleLast (ahead s.other ++ new)) :
    Ordered json s (ms ++ more) (p.put s t) (after ahead s ws new) where
  sane := hsane
  acks := by rwa [after_self]
  free := by rw [Pair.put_ends_other]; exact h.free
  last := by rwa [after_other]
  sent := by
    rw [Pair.put_ends, hwritten, users_append, List.append_assoc, ← hpending, ← List.append_assoc,
      h.sent]
  order := by
    rw [Pair.put_ends_other, Pair.put_ends, after_other, hwritten, users_append, users_append,
      ← List.append_assoc, h.order]
  few := by rw [Pair.put_ends_other]; exact h.few
  soon := by rw [Pair.put_ends_other]; exact h.soon

lemma Ordered.send {p : Pair M} {ahead : Side → List (Wire M)} (h : Ordered json s ms p ahead)
    {m : M} {handle : Option HandleType} (hw : WellFormed (json.stringify (toWire m handle))) :
    ∃ ahead', Ordered json s (ms ++ [m]) (p.put s ((p.ends s).send (toWire m handle))) ahead' := by
  obtain ⟨new, hs, hsane⟩ := h.sane.send s (sendable_toWire hw)
  refine ⟨_, h.writes hsane h.acks hs.written ?_ ?_⟩
  · rw [← users_toWire m handle, ← users_append, ← users_append, hs.order]
  · rcases Nat.eq_zero_or_pos (waits (p.ends s)) with hfree | hwaits
    · have howed := h.sane.owed s
      refine handleLast_append (fun w hw => ?_) hs.last
      rw [← Bool.not_eq_true]
      exact List.countP_eq_zero.mp (by omega) w hw
    · have hle := waits_le (p.ends s)
      rw [hs.blocked (by omega), List.append_nil]
      exact h.last

/-- The end that sends handles an acknowledgement. -/
lemma Ordered.acked {p : Pair M} {ahead : Side → List (Wire M)} (h : Ordered json s ms p ahead)
    {w : Wire M} {ws : List (Wire M)} {rest : Str} (hws : ahead s = w :: ws)
    (hrest : Ahead json { p.ends s with jsonBuffer := rest } (p.flight json s) ws) :
    ∃ ahead', Ordered json s ms (p.put s ({ p.ends s with jsonBuffer := rest }.handle w))
      ahead' := by
  have hacks := h.acks
  rw [hws, List.forall_mem_cons] at hacks
  obtain ⟨rfl, hacks⟩ := hacks
  obtain ⟨new, hs, hnone, hsane⟩ := h.sane.handleAck hws hrest
  have horder : pending (p.ends s) =
      new ++ pending ({ p.ends s with jsonBuffer := rest }.handle .ack) := hs.order
  have hlast : HandleLast (ahead s.other ++ new) := by
    refine handleLast_append (fun w hw => ?_) hs.last
    rw [← Bool.not_eq_true]
    exact List.countP_eq_zero.mp hnone w hw
  have hwrites : Ordered json s (ms ++ []) (p.put s ({ p.ends s with jsonBuffer := rest }.handle
      .ack)) (after ahead s ws new) :=
    h.writes hsane hacks hs.written (by rw [List.append_nil, ← users_append, ← horder]) hlast
  rw [List.append_nil] at hwrites
  exact ⟨_, hwrites⟩

/-- Nothing is written, queued or emitted. -/
lemma Ordered.same {p p' : Pair M} {ahead : Side → List (Wire M)} (h : Ordered json s ms p ahead)
    (hsane : Sane json p' ahead) (hwritten : (p'.ends s).written = (p.ends s).written)
    (hqueue : ∀ x, (p'.ends x).handleQueue = (p.ends x).handleQueue)
    (hlog : (p'.ends s.other).log = (p.ends s.other).log)
    (hservers : (p'.ends s.other).servers = (p.ends s.other).servers)
    (hsoon : (p'.ends s.other).worker = false → (p.ends s.other).servers = [] ∨
      (p'.ends s.other).looping = true ∧ 10 ∉ (p'.ends s.other).jsonBuffer) :
    Ordered json s ms p' ahead where
  sane := hsane
  acks := h.acks
  free := by rw [hqueue]; exact h.free
  last := h.last
  sent := by rw [hwritten, pending, hqueue]; exact h.sent
  order := by rw [hwritten, hservers, emitted, hlog]; exact h.order
  few := by rw [hservers]; exact h.few
  soon := by rw [hservers]; exact hsoon

/-- The end that sends emits something, or its loop ends. -/
lemma Ordered.sender {p : Pair M} {ahead : Side → List (Wire M)} (h : Ordered json s ms p ahead)
    {t : Target M} (hsane : Sane json (p.put s t) ahead)
    (hwritten : t.written = (p.ends s).written)
    (hqueue : t.handleQueue = (p.ends s).handleQueue) : Ordered json s ms (p.put s t) ahead := by
  refine h.same hsane (by rwa [Pair.put_ends]) (fun x => ?_) (by rw [Pair.put_ends_other])
    (by rw [Pair.put_ends_other]) (by rw [Pair.put_ends_other]; exact h.soon)
  rcases s.eq_or_other x with rfl | rfl
  · rwa [Pair.put_ends]
  · rw [Pair.put_ends_other]

/-! ### The end that emits -/

lemma Ordered.receiver {p : Pair M} {ahead : Side → List (Wire M)} (h : Ordered json s ms p ahead)
    {t : Target M} {ws new : List (Wire M)}
    (hsane : Sane json (p.put s.other t) (after ahead s.other ws new))
    (hnew : ∀ w ∈ new, w = .ack) (hfree : t.handleQueue = none) (hlast : HandleLast ws)
    (horder : emitted t ++ t.servers ++ users ws =
      emitted (p.ends s.other) ++ (p.ends s.other).servers ++ users (ahead s.other))
    (hfew : t.servers.length ≤ 1)
    (hsoon : t.worker = false → t.servers = [] ∨ t.looping = true ∧ 10 ∉ t.jsonBuffer) :
    Ordered json s ms (p.put s.other t) (after ahead s.other ws new) := by
  have hs : (p.put s.other t).ends s = p.ends s := by
    simpa using Pair.put_ends_other p s.other t
  have hafter : after ahead s.other ws new s = ahead s ++ new := by
    simpa using after_other ahead s.other ws new
  constructor
  · exact hsane
  · rw [hafter, List.forall_mem_append]
    exact ⟨h.acks, hnew⟩
  · rwa [Pair.put_ends]
  · rwa [after_self]
  · rw [hs]
    exact h.sent
  · rw [Pair.put_ends, hs, after_self, horder, h.order]
  · rwa [Pair.put_ends]
  · rwa [Pair.put_ends]

/-- No server is still to listen when a message of the user is handled. -/
lemma Ordered.noServers {p : Pair M} {ahead : Side → List (Wire M)} (h : Ordered json s ms p ahead)
    {r : Str × Str} (hline : takeLine (p.ends s.other).jsonBuffer = some r)
    (hworker : (p.ends s.other).worker = true → (p.ends s.other).servers = []) :
    (p.ends s.other).servers = [] := by
  cases hw : (p.ends s.other).worker with
  | true => exact hworker hw
  | false =>
    refine (h.soon hw).resolve_right fun hl => ?_
    rw [takeLine_none.mpr hl.2] at hline
    cases hline

/-- The end that emits handles a message. -/
lemma Ordered.handled {p : Pair M} {ahead : Side → List (Wire M)} (h : Ordered json s ms p ahead)
    {w : Wire M} {ws : List (Wire M)} {rest : Str} (hws : ahead s.other = w :: ws)
    (hrest : Ahead json { p.ends s.other with jsonBuffer := rest } (p.flight json s.other) ws)
    (hloop : (p.ends s.other).looping = true)
    (hservers : ∀ m, w.user = some m → (p.ends s.other).servers = []) :
    ∃ ahead', Ordered json s ms
      (p.put s.other ({ p.ends s.other with jsonBuffer := rest }.handle w)) ahead' := by
  obtain ⟨h1, h2, h3, h4⟩ := h.sane.isOpen s.other
  have hopen : Open { p.ends s.other with jsonBuffer := rest } := ⟨h1, h2, h3, h4⟩
  have hlast := h.last
  rw [hws] at hlast
  cases w with
  | plain m =>
    have hnone := hservers m rfl
    have hsane := h.sane.handlePlain hws hrest
    have hemit : { p.ends s.other with jsonBuffer := rest }.handle (.plain m) =
        said { p.ends s.other with jsonBuffer := rest } ((p.ends s.other).log ++ [.message m])
          (p.ends s.other).servers := by
      rw [Target.handle, emitMessage_of_open hopen]
      rfl
    rw [hemit] at hsane ⊢
    refine ⟨_, h.receiver hsane (List.forall_mem_nil _) h.free (handleLast_tail hlast) ?_ h.few
      fun _ => .inl hnone⟩
    simp [emitted, said, hws, hnone, users, messageOf, Wire.user]
  | ack =>
    -- this end waits for nothing
    have howed := h.sane.owed s.other
    rw [hws] at howed
    simp [waits, h.free, isAck] at howed
  | handle type m =>
    have hnone := hservers m rfl
    have hnil : ws = [] := by
      cases ws with
      | nil => rfl
      | cons w ws => exact absurd (hlast _ List.mem_cons_self) Bool.noConfusion
    subst hnil
    have hsane := h.sane.handleHandle hws hrest h.free
    have hopen' : Open { p.ends s.other with
        jsonBuffer := rest, written := (p.ends s.other).written ++ [.ack] } := ⟨h1, h2, h3, h4⟩
    rw [handle_of_free hopen h.free, got_of_open hopen'] at hsane ⊢
    split_ifs at hsane ⊢
    · refine ⟨_, h.receiver hsane ?_ h.free handleLast_nil ?_ ?_ ?_⟩
      · exact fun w hw => List.mem_singleton.mp hw
      · simp [emitted, said, hws, hnone, users, Wire.user]
      · simp [said, hnone]
      · refine fun _ => .inr ⟨hloop, ?_⟩
        have hbuffer : rest = [] := hrest.nil
        rw [hbuffer]
        exact List.not_mem_nil
    · refine ⟨_, h.receiver hsane ?_ h.free handleLast_nil ?_ h.few fun _ => .inl hnone⟩
      · exact fun w hw => List.mem_singleton.mp hw
      · simp [emitted, said, hws, hnone, users, messageOf, Wire.user]

/-- Its loop ends, and in a process that is not a worker the servers listen. -/
lemma Ordered.lineEnd {p : Pair M} {ahead : Side → List (Wire M)} (h : Ordered json s ms p ahead)
    (hline : takeLine (p.ends s.other).jsonBuffer = none) (buffering : Bool) :
    ∃ ahead', Ordered json s ms (p.put s.other
      { p.ends s.other with looping := false, buffering := buffering }.tick) ahead' := by
  obtain ⟨h1, h2, h3, h4⟩ := h.sane.isOpen s.other
  have hopen : Open { p.ends s.other with looping := false, buffering := buffering } :=
    ⟨h1, h2, h3, h4⟩
  have hsane := h.sane.lineEnd hline buffering
  rw [tick_of_open hopen] at hsane ⊢
  split_ifs at hsane ⊢ with hworker
  · refine ⟨_, h.receiver hsane (List.forall_mem_nil _) h.free h.last rfl h.few fun hw => ?_⟩
    exact absurd (hworker.symm.trans hw) Bool.noConfusion
  · refine ⟨_, h.receiver hsane (List.forall_mem_nil _) h.free h.last ?_ (Nat.zero_le _)
      fun _ => .inl rfl⟩
    simp [emitted, said, messageOf, List.filterMap_map, Function.comp_def]

/-- A server of a worker listens. -/
lemma Ordered.listening {p : Pair M} {ahead : Side → List (Wire M)} (h : Ordered json s ms p ahead)
    (i : ℕ) : Ordered json s ms (p.put s.other ((p.ends s.other).listening i)) ahead := by
  have hsane := h.sane.listening s.other i
  rw [listening_of_open (h.sane.isOpen s.other)] at hsane ⊢
  cases hm : (p.ends s.other).servers[i]? with
  | none =>
    rw [put_self]
    exact h
  | some m =>
    rw [hm] at hsane
    -- it is the only one
    have hfew := h.few
    obtain ⟨hi, hget⟩ := List.getElem?_eq_some_iff.mp hm
    obtain rfl : i = 0 := by omega
    have hone : (p.ends s.other).servers = [m] := by
      obtain ⟨m', hm'⟩ := List.length_eq_one_iff.mp (le_antisymm hfew hi)
      simp [hm'] at hget ⊢
      exact hget
    simp only [hone, List.eraseIdx_cons_zero] at hsane ⊢
    rw [← after_nil ahead s.other] at hsane ⊢
    refine h.receiver hsane (List.forall_mem_nil _) h.free h.last ?_ (Nat.zero_le _)
      fun _ => .inl rfl
    simp [emitted, said, hone, messageOf]

/-- A chunk is read. -/
lemma Ordered.read {p p' : Pair M} {ahead : Side → List (Wire M)} (h : Ordered json s ms p ahead)
    {x : Side} {n : ℕ} (hloop : (p.ends x).looping = false)
    (hends : p'.ends = (p.put x ((p.ends x).read ((p.flight json x).take n))).ends)
    (htaken : p'.taken =
      Function.update p.taken x (p.taken x + ((p.flight json x).take n).length)) :
    Ordered json s ms p' ahead := by
  have hsane := h.sane.read hends htaken
  have ha := h.sane.input x
  rw [← List.take_append_drop n (p.flight json x)] at ha
  obtain ⟨text, d, hread, -⟩ := ha.read
  have hself : p'.ends x = { p.ends x with
      decoder := d, jsonBuffer := (p.ends x).jsonBuffer ++ text, looping := true } := by
    rw [hends, Pair.put_ends, hread]
  have hother : p'.ends x.other = p.ends x.other := by rw [hends, Pair.put_ends_other]
  rcases s.eq_or_other x with rfl | rfl
  · refine h.same hsane (by rw [hself]) (fun y => ?_) (by rw [hother]) (by rw [hother])
      (by rw [hother]; exact h.soon)
    rcases x.eq_or_other y with rfl | rfl
    · rw [hself]
    · rw [hother]
  · rw [Side.other_other] at hother
    refine h.same hsane (by rw [hother]) (fun y => ?_) (by rw [hself]) (by rw [hself])
      fun hworker => .inl ?_
    · rcases s.eq_or_other y with rfl | rfl
      · rw [hother]
      · rw [hself]
    · rw [hself] at hworker
      refine (h.soon hworker).resolve_right fun hl => ?_
      rw [hloop] at hl
      exact Bool.false_ne_true hl.1

lemma tick_writes {t : Target M} (h : Open t) :
    t.tick.written = t.written ∧ t.tick.handleQueue = t.handleQueue := by
  rw [tick_of_open h]
  split_ifs <;> exact ⟨rfl, rfl⟩

/-! ### Runs -/

lemma Ordered.step {p : Pair M} {ahead : Side → List (Wire M)} (h : Ordered json s ms p ahead)
    (move : Side × Move M) (hone : ∀ x m handle, move = (x, .send m handle) → x = s)
    (hok : Ok json s p move) :
    ∃ ahead', Ordered json s (ms ++ (sentBy move).toList) (p.step json move) ahead' := by
  obtain ⟨x, move⟩ := move
  have hopen := h.sane.isOpen x
  cases move with
  | send m handle =>
    obtain rfl := hone x m handle rfl
    rw [step_send hopen]
    exact h.send hok
  | read n =>
    simp only [sentBy, Option.toList_none, List.append_nil]
    rw [step_read hopen]
    split_ifs with hloop
    · exact ⟨ahead, h⟩
    · exact ⟨ahead, h.read (n := n) (Bool.not_eq_true _ ▸ hloop) rfl rfl⟩
  | line =>
    simp only [sentBy, Option.toList_none, List.append_nil]
    rw [step_line hopen]
    split_ifs with hloop
    · cases hline : takeLine (p.ends x).jsonBuffer with
      | none =>
        rw [Target.line, hline]
        rcases s.eq_or_other x with rfl | rfl
        · have hsane := h.sane.lineEnd hline (decide ((p.ends x).jsonBuffer ≠ []))
          rw [after_nil] at hsane
          obtain ⟨h1, h2, h3, h4⟩ := hopen
          have hopen' : Open { p.ends x with
              looping := false, buffering := (p.ends x).jsonBuffer ≠ [] } := ⟨h1, h2, h3, h4⟩
          obtain ⟨hwritten, hqueue⟩ := tick_writes hopen'
          exact ⟨_, h.sender hsane hwritten hqueue⟩
        · exact h.lineEnd hline _
      | some r =>
        obtain ⟨text, rest⟩ := r
        obtain ⟨w, ws, hws, hparse, hrest⟩ := (h.sane.input x).line hline
        simp only [Target.line, hline, hparse]
        rcases s.eq_or_other x with rfl | rfl
        · exact h.acked hws hrest
        · refine h.handled hws hrest hloop fun m hm => h.noServers hline (hok m rfl ?_)
          rw [next_eq hline hparse]
          exact hm
    · rw [put_self]
      exact ⟨ahead, h⟩
  | listening i =>
    simp only [sentBy, Option.toList_none, List.append_nil]
    rw [step_listening hopen]
    split_ifs
    · rw [put_self]
      exact ⟨ahead, h⟩
    · rcases s.eq_or_other x with rfl | rfl
      · refine ⟨ahead, h.sender (h.sane.listening x i) ?_ ?_⟩
        all_goals
          rw [listening_of_open hopen]
          cases (p.ends x).servers[i]? <;> rfl
      · exact ⟨ahead, h.listening i⟩

lemma ordered_run {p : Pair M} {ahead : Side → List (Wire M)} (h : Ordered json s ms p ahead)
    {moves : List (Side × Move M)} (hone : OneWay s moves)
    (hok : Along (Pair.step json) (Ok json s) p moves) :
    ∃ ahead', Ordered json s (ms ++ sent moves) (run (Pair.step json) p moves) ahead' := by
  induction moves generalizing p ms ahead with
  | nil => exact ⟨ahead, by simpa [sent] using h⟩
  | cons move moves ih =>
    obtain ⟨ahead', h'⟩ := h.step move
      (fun x m handle hm => hone x m handle (hm ▸ List.mem_cons_self)) hok.1
    obtain ⟨ahead'', h''⟩ :=
      ih h' (fun x m handle hm => hone x m handle (List.mem_cons_of_mem _ hm)) hok.2
    have hsent : sent (move :: moves) = (sentBy move).toList ++ sent moves := by
      rw [sent, List.filterMap_cons]
      cases sentBy move <;> rfl
    rw [hsent, ← List.append_assoc]
    exact ⟨ahead'', h''⟩

/-- **Every message is emitted once and in order,** in a run in which no message is handled while
a server of a worker is still to listen. -/
theorem emits_in_order (json : Json M) (workers : Side → Bool) (s : Side)
    (moves : List (Side × Move M))
    (hone : OneWay s moves) (hok : Along (Pair.step json) (Ok json s) (.new M workers) moves) :
    Delivers json s (run (Pair.step json) (.new M workers) moves) (sent moves) := by
  obtain ⟨ahead, h⟩ := ordered_run (ordered_new workers s) hone hok
  exact h.delivers

/-- A child is sent a socket and then a message without a handle. -/
theorem emits_in_order_socket : Delivers letters .parent (run (Pair.step letters)
    (.new Bool fun _ => false) [(.parent, .send true (some .netSocket)),
      (.parent, .send false none), (.child, .read 1), (.child, .line), (.child, .read 1),
      (.child, .line)]) [true, false] := by
  refine emits_in_order letters _ _ _ (fun x m handle h => ?_)
    ⟨⟨['C'], rfl⟩, ⟨['p'], rfl⟩, trivial, fun _ _ _ hw => absurd hw (by decide), trivial,
      fun _ _ _ hw => absurd hw (by decide), trivial⟩
  simp only [List.mem_cons, Prod.mk.injEq, reduceCtorEq, and_false, or_false,
    List.not_mem_nil] at h
  exact h.elim (fun h => h.1) fun h => h.1

/-- A worker emits the message that comes behind a server first. -/
theorem server_overtaken : ¬ Delivers letters .parent (run (Pair.step letters)
    (.new Bool fun x => x = .child) [(.parent, .send true (some .netServer)),
      (.parent, .send false none), (.child, .read 2), (.child, .line), (.child, .line),
      (.parent, .read 2), (.parent, .line), (.parent, .line),
      (.child, .read 2), (.child, .line), (.child, .line)]) [true, false] := by
  intro h
  exact absurd h.inOrder (by decide)

end NodeCore.IpcOrder
