import NodeCore.Reentrant
import Mathlib.Algebra.BigOperators.Group.Finset.Piecewise
import Mathlib.Tactic

/-!
The number of connections of a server whose sockets have been handed to other processes.

Each slave is asked, and one variable counts the replies that are still to come. It also marks
that a reply was an error, and is only looked at where a count comes in.
-/

namespace NodeCore.NetConnections

open NodeCore.Reentrant

/-- What a callback is given. -/
inductive Reply
  | error
  | count (n : ℤ)
  deriving DecidableEq

/-- A `SocketListSend` with its child process. -/
structure Slave where
  connected : Bool
  /-- The calls whose `onreply` and `onclose` are attached, in this order. -/
  listeners : List ℕ
  deriving DecidableEq

/-- The variables of a call. -/
structure Call where
  left : ℤ
  total : ℤ
  deriving DecidableEq

structure State where
  connections : ℤ
  usingSlaves : Bool
  slaves : List Slave
  calls : ℕ → Call
  /-- How many calls there are. -/
  next : ℕ
  /-- The functions given to `process.nextTick`. -/
  ticks : List (ℕ × Reply)
  /-- The callbacks that have been called. -/
  called : List (ℕ × Reply)
  /-- Proof-only: how many slaves a call asks. -/
  asked : ℕ → ℕ
  /-- Proof-only: the connections of the server itself, when the call was made. -/
  start : ℕ → ℤ
  /-- Proof-only: what the slaves have replied to a call. -/
  answers : ℕ → ℕ → Option Reply

def State.new : State where
  connections := 0
  usingSlaves := false
  slaves := []
  calls _ := ⟨0, 0⟩
  next := 0
  ticks := []
  called := []
  asked _ := 0
  start _ := 0
  answers _ _ := none

namespace State

variable (t : State)

/-- `end`. -/
def finish (i : ℕ) (r : Reply) : State := { t with ticks := t.ticks ++ [(i, r)] }

def oncount (i : ℕ) : Reply → State
  | .error =>
    { t with calls := Function.update t.calls i ⟨-1, (t.calls i).total⟩ }.finish i .error
  | .count n =>
    let c : Call := ⟨(t.calls i).left - 1, (t.calls i).total + n⟩
    let t := { t with calls := Function.update t.calls i c }
    if c.left = 0 then t.finish i (.count c.total) else t

/-- The reply of the slave `s` to the call `i`. -/
def answer (i s : ℕ) (r : Reply) : State :=
  { t with
    answers := Function.update t.answers i (Function.update (t.answers i) s (some r)) }.oncount i r

/-- `_request`, with the callback of `SocketListSend.getConnections`. -/
def request (i s : ℕ) : State :=
  match t.slaves[s]? with
  | none => t
  | some l =>
    if l.connected then
      { t with slaves := t.slaves.set s { l with listeners := l.listeners ++ [i] } }
    else t.answer i s .error

/-- The number of the call is `next`. -/
def getConnections : State :=
  let asked := if t.usingSlaves then t.slaves.length else 0
  let u := { t with
    next := t.next + 1
    asked := Function.update t.asked t.next asked
    start := Function.update t.start t.next t.connections }
  if t.usingSlaves then
    (List.range t.slaves.length).foldl (fun u s => u.request t.next s)
      { u with calls := Function.update t.calls t.next ⟨t.slaves.length, t.connections⟩ }
  else u.finish t.next (.count t.connections)

/-- All listeners of the slave are called, after they have been removed; and they are the last ones
if it has disconnected. -/
def emit (s : ℕ) (l : Slave) (connected : Bool) (r : Reply) : State :=
  l.listeners.foldl (fun u i => u.answer i s r) { t with slaves := t.slaves.set s ⟨connected, []⟩ }

end State

/-- Foreign code that a listener of the slave runs, may make a call between two of the listeners
here. Its own listeners are not called then, so it could as well be made afterwards. -/
inductive Act
  /-- A socket comes, goes, or is handed to another process. -/
  | connections (n : ℤ)
  | setupSlave
  | getConnections
  /-- A message `NODE_SOCKET_COUNT` with the key of the server. -/
  | reply (s : ℕ) (n : ℤ)
  | disconnect (s : ℕ)
  | tick
  deriving DecidableEq

def step (t : State) : Act → Option State
  | .connections n => some { t with connections := n }
  | .setupSlave => some { t with usingSlaves := true, slaves := t.slaves ++ [⟨true, []⟩] }
  | .getConnections => some t.getConnections
  | .reply s n => (t.slaves[s]?.filter Slave.connected).map fun l => t.emit s l true (.count n)
  | .disconnect s => (t.slaves[s]?.filter Slave.connected).map fun l => t.emit s l false .error
  | .tick => match t.ticks with
    | [] => none
    | x :: ticks => some { t with ticks := ticks, called := t.called ++ [x] }

/-! ### The claim -/

section Claim

variable (t : State) (i : ℕ)

/-- What the callback of a call has been called with, or will be. -/
def outcomes : List Reply :=
  ((t.called ++ t.ticks).filter (·.1 = i)).map Prod.snd

/-- The slaves that have not replied to the call. -/
def missing : Finset ℕ := (Finset.range (t.asked i)).filter (t.answers i · = none)

/-- The slaves that have failed. -/
def failed : Finset ℕ := (Finset.range (t.asked i)).filter (t.answers i · = some .error)

/-- The count of a slave. -/
def Reply.value : Option Reply → ℤ
  | some (.count n) => n
  | _ => 0

/-- The local count, and those of the slaves. -/
def sum : ℤ := t.start i + ∑ s ∈ Finset.range (t.asked i), Reply.value (t.answers i s)

/-- What is to be answered. -/
def right : Reply := if failed t i = ∅ then .count (sum t i) else .error

/-- **What is claimed** of a call. -/
structure Once : Prop where
  atMost : (outcomes t i).length ≤ 1
  complete : missing t i = ∅ → outcomes t i = [right t i]

/-- `onreply` and `onclose` of the call are attached to the slave. -/
def Attached (s : ℕ) : Prop := ∃ l, t.slaves[s]? = some l ∧ i ∈ l.listeners

end Claim

/-! ### A reply -/

section Answer

variable {t : State} {i j s : ℕ} {r : Reply}

lemma oncount_frame (t : State) (i : ℕ) (r : Reply) :
    ∃ calls ticks, t.oncount i r = { t with calls := calls, ticks := ticks } := by
  unfold State.oncount
  cases r with
  | error => exact ⟨_, _, rfl⟩
  | count n =>
    dsimp only
    split_ifs
    · exact ⟨_, _, rfl⟩
    · exact ⟨_, _, rfl⟩

lemma outcomes_finish : outcomes (t.finish i r) i = outcomes t i ++ [r] := by
  unfold outcomes State.finish
  rw [← List.append_assoc, List.filter_append, List.map_append]
  simp

lemma outcomes_finish_of_ne (h : j ≠ i) : outcomes (t.finish i r) j = outcomes t j := by
  unfold outcomes State.finish
  rw [← List.append_assoc, List.filter_append, List.map_append,
    List.filter_cons_of_neg (by simpa using h.symm)]
  exact List.append_nil _

/-- Another call does not notice. -/
lemma oncount_of_ne (h : j ≠ i) :
    (t.oncount i r).calls j = t.calls j ∧ outcomes (t.oncount i r) j = outcomes t j := by
  unfold State.oncount
  cases r with
  | error => exact ⟨Function.update_of_ne h _ _, outcomes_finish_of_ne h⟩
  | count n =>
    dsimp only
    split_ifs
    · exact ⟨Function.update_of_ne h _ _, outcomes_finish_of_ne h⟩
    · exact ⟨Function.update_of_ne h _ _, rfl⟩

lemma oncount_error : ((t.oncount i .error).calls i).left = -1 ∧
    outcomes (t.oncount i .error) i = outcomes t i ++ [.error] :=
  ⟨congrArg Call.left (Function.update_self i _ t.calls), outcomes_finish⟩

lemma oncount_count (n : ℤ) :
    (t.oncount i (.count n)).calls i = ⟨(t.calls i).left - 1, (t.calls i).total + n⟩ ∧
      outcomes (t.oncount i (.count n)) i = outcomes t i ++
        if (t.calls i).left - 1 = 0 then [.count ((t.calls i).total + n)] else [] := by
  unfold State.oncount
  dsimp only
  split_ifs
  · exact ⟨Function.update_self i _ t.calls, outcomes_finish⟩
  · exact ⟨Function.update_self i _ t.calls, (List.append_nil _).symm⟩

lemma mem_missing : s ∈ missing t i ↔ s < t.asked i ∧ t.answers i s = none := by
  rw [missing, Finset.mem_filter, Finset.mem_range]

lemma mem_failed : s ∈ failed t i ↔ s < t.asked i ∧ t.answers i s = some .error := by
  rw [failed, Finset.mem_filter, Finset.mem_range]

lemma answers_answer : (t.answer i s r).answers =
    Function.update t.answers i (Function.update (t.answers i) s (some r)) := by
  obtain ⟨calls, ticks, h⟩ := oncount_frame { t with
    answers := Function.update t.answers i (Function.update (t.answers i) s (some r)) } i r
  rw [State.answer, h]

lemma answer_frame (t : State) (i s : ℕ) (r : Reply) : (t.answer i s r).slaves = t.slaves ∧
    (t.answer i s r).next = t.next ∧ (t.answer i s r).asked = t.asked ∧
      (t.answer i s r).start = t.start ∧ (t.answer i s r).usingSlaves = t.usingSlaves := by
  obtain ⟨calls, ticks, h⟩ := oncount_frame { t with
    answers := Function.update t.answers i (Function.update (t.answers i) s (some r)) } i r
  rw [State.answer, h]
  exact ⟨rfl, rfl, rfl, rfl, rfl⟩

lemma missing_answer : missing (t.answer i s r) i = (missing t i).erase s := by
  ext u
  rw [Finset.mem_erase, mem_missing, mem_missing, answers_answer, (answer_frame t i s r).2.2.1,
    Function.update_self]
  by_cases h : u = s
  · rw [h, Function.update_self]
    simp
  · rw [Function.update_of_ne h]
    tauto

lemma failed_answer (hs : s ∈ missing t i) :
    failed (t.answer i s r) i = if r = .error then insert s (failed t i) else failed t i := by
  obtain ⟨hlt, hnone⟩ := mem_missing.mp hs
  ext u
  rw [mem_failed, answers_answer, (answer_frame t i s r).2.2.1, Function.update_self]
  by_cases h : u = s
  · rw [h, Function.update_self]
    split_ifs with hr
    · simp [hlt, hr]
    · simp [mem_failed, hnone, hr]
  · rw [Function.update_of_ne h]
    split_ifs
    · rw [Finset.mem_insert, mem_failed]
      tauto
    · rw [mem_failed]

lemma sum_answer (hs : s ∈ missing t i) :
    sum (t.answer i s r) i = sum t i + Reply.value (some r) := by
  obtain ⟨hlt, hnone⟩ := mem_missing.mp hs
  obtain ⟨-, -, hasked, hstart, -⟩ := answer_frame t i s r
  unfold sum
  rw [hasked, hstart, answers_answer, Function.update_self, add_assoc]
  congr 1
  have hmem := Finset.mem_range.mpr hlt
  rw [← Finset.add_sum_erase _ _ hmem, ← Finset.add_sum_erase _ _ hmem, Function.update_self, hnone]
  have hrest : ∀ u ∈ (Finset.range (t.asked i)).erase s,
      Reply.value (Function.update (t.answers i) s (some r) u) = Reply.value (t.answers i u) :=
    fun u hu => by rw [Function.update_of_ne (Finset.ne_of_mem_erase hu)]
  rw [Finset.sum_congr rfl hrest]
  show _ = 0 + _ + _
  ring

/-- What a call has come to. -/
inductive Phase (t : State) (i : ℕ) : Prop
  | counting (none : failed t i = ∅)
      (left : missing t i ≠ ∅ → t.calls i = ⟨(missing t i).card, sum t i⟩)
      (heard : outcomes t i = if missing t i = ∅ then [.count (sum t i)] else [])
  | failing (some : failed t i ≠ ∅) (left : (t.calls i).left < 0)
      (heard : outcomes t i = List.replicate (failed t i).card .error)

lemma Phase.answer (h : Phase t i) (hs : s ∈ missing t i) : Phase (t.answer i s r) i := by
  obtain ⟨u, hu⟩ : ∃ u : State, u = { t with
    answers := Function.update t.answers i (Function.update (t.answers i) s (some r)) } := ⟨_, rfl⟩
  have hcalls : u.calls i = t.calls i := by rw [hu]
  have hheard : outcomes u i = outcomes t i := by rw [hu]; rfl
  have heq : t.answer i s r = u.oncount i r := by rw [hu]; rfl
  have hmissing := missing_answer (t := t) (i := i) (s := s) (r := r)
  have hfailed := failed_answer (r := r) hs
  have hsum := sum_answer (r := r) hs
  have hcard : ((missing t i).card : ℤ) - 1 = ((missing t i).erase s).card := by
    rw [Finset.card_erase_of_mem hs, Nat.cast_sub (Finset.card_pos.mpr ⟨s, hs⟩), Nat.cast_one]
  have hne := Finset.ne_empty_of_mem hs
  rw [heq] at hmissing hfailed hsum ⊢
  cases r with
  | error =>
    rw [if_pos rfl] at hfailed
    obtain ⟨hleft, hout⟩ := oncount_error (t := u) (i := i)
    have hnot : s ∉ failed t i := fun hc => by
      have hnone := (mem_missing.mp hs).2
      rw [(mem_failed.mp hc).2] at hnone
      cases hnone
    refine .failing ?_ ?_ ?_
    · rw [hfailed]
      exact Finset.insert_ne_empty _ _
    · rw [hleft]
      decide
    · rw [hout, hheard, hfailed, Finset.card_insert_of_notMem hnot, List.replicate_succ']
      cases h with
      | counting hnone _ hheard => rw [hheard, if_neg hne, hnone]; rfl
      | failing _ _ hheard => rw [hheard]
  | count n =>
    rw [if_neg Reply.noConfusion] at hfailed
    obtain ⟨hcall, hout⟩ := oncount_count (t := u) (i := i) n
    rw [hcalls] at hcall hout
    rw [hheard] at hout
    cases h with
    | counting hnone hleft hheard =>
      have hleft := hleft hne
      rw [hleft] at hcall hout
      dsimp only at hcall hout
      rw [hcard] at hcall hout
      refine .counting (hfailed.trans hnone) (fun _ => ?_) ?_
      · rw [hcall, hmissing, hsum]
        rfl
      · rw [hout, hheard, if_neg hne, hmissing, hsum, List.nil_append]
        simp only [Nat.cast_eq_zero, Finset.card_eq_zero]
        rfl
    | failing hsome hleft hheard =>
      refine .failing (hfailed ▸ hsome) ?_ ?_
      · rw [hcall]
        dsimp only
        omega
      · rw [hout, if_neg (by omega), List.append_nil, hfailed, hheard]

end Answer

/-! ### Runs -/

/-- A slave that has not replied has the listeners of the call, unless it is `owed`: it is to be
asked, or its listener is to be called. -/
structure Good (owed : Set (ℕ × ℕ)) (t : State) : Prop where
  fresh : ∀ i, t.next ≤ i → outcomes t i = [] ∧ t.asked i = 0 ∧ ∀ s, t.answers i s = none
  phase : ∀ i < t.next, Phase t i
  waits : ∀ i s, s ∈ missing t i ↔ Attached t i s ∨ (i, s) ∈ owed
  apart : ∀ i s, (i, s) ∈ owed → ¬ Attached t i s
  connected : ∀ (s : ℕ) (l : Slave), t.slaves[s]? = some l → l.listeners ≠ [] → l.connected = true
  nodup : ∀ (s : ℕ) (l : Slave), t.slaves[s]? = some l → l.listeners.Nodup
  slaves : t.usingSlaves = true → t.slaves ≠ []

section Runs

variable {t u : State} {i j s : ℕ} {r : Reply} {owed : Set (ℕ × ℕ)}

lemma missing_congr (hasked : u.asked i = t.asked i) (hanswers : u.answers i = t.answers i) :
    missing u i = missing t i := by
  unfold missing
  rw [hasked, hanswers]

lemma Phase.congr (h : Phase t i) (hasked : u.asked i = t.asked i) (hstart : u.start i = t.start i)
    (hanswers : u.answers i = t.answers i) (hcalls : u.calls i = t.calls i)
    (hout : outcomes u i = outcomes t i) : Phase u i := by
  have hmissing := missing_congr hasked hanswers
  have hfailed : failed u i = failed t i := by
    unfold failed
    rw [hasked, hanswers]
  have hsum : sum u i = sum t i := by
    unfold sum
    rw [hasked, hstart, hanswers]
  cases h with
  | counting hnone hleft hheard =>
    refine .counting (hfailed.trans hnone) ?_ ?_
    · rwa [hmissing, hcalls, hsum]
    · rwa [hout, hmissing, hsum]
  | failing hsome hleft hheard =>
    refine .failing (hfailed ▸ hsome) ?_ ?_
    · rwa [hcalls]
    · rwa [hout, hfailed]

lemma Good.lt_next (h : Good owed t) (hs : s ∈ missing t i) : i < t.next := by
  by_contra hle
  obtain ⟨-, hasked, -⟩ := h.fresh i (not_lt.mp hle)
  have hlt := (mem_missing.mp hs).1
  omega

lemma Good.answer (h : Good owed t) (hs : (i, s) ∈ owed) :
    Good (owed \ {(i, s)}) (t.answer i s r) := by
  have hmem : s ∈ missing t i := (h.waits i s).mpr (.inr hs)
  have hi := h.lt_next hmem
  obtain ⟨hslaves, hnext, hasked, hstart, husing⟩ := answer_frame t i s r
  have hanswers : ∀ j, j ≠ i → (t.answer i s r).answers j = t.answers j := fun j hj => by
    rw [answers_answer, Function.update_of_ne hj]
  have hother : ∀ j, j ≠ i → (t.answer i s r).calls j = t.calls j ∧
      outcomes (t.answer i s r) j = outcomes t j := fun j hj =>
    oncount_of_ne (t := { t with
      answers := Function.update t.answers i (Function.update (t.answers i) s (some r)) }) hj
  have hattached : ∀ j u, Attached (t.answer i s r) j u ↔ Attached t j u := fun j u => by
    rw [Attached, Attached, hslaves]
  refine ⟨fun j hj => ?_, fun j hj => ?_, fun j u => ?_, fun j u hu => ?_, ?_, ?_, ?_⟩
  · rw [hnext] at hj
    have hne : j ≠ i := by omega
    obtain ⟨hout, hnone, hans⟩ := h.fresh j hj
    exact ⟨(hother j hne).2.trans hout, by rw [hasked, hnone],
      fun s => by rw [hanswers j hne, hans]⟩
  · rw [hnext] at hj
    rcases eq_or_ne j i with rfl | hne
    · exact (h.phase j hj).answer hmem
    · exact (h.phase j hj).congr (by rw [hasked]) (by rw [hstart]) (hanswers j hne) (hother j hne).1
        (hother j hne).2
  · rw [hattached, Set.mem_sdiff, Set.mem_singleton_iff, Prod.mk.injEq]
    rcases eq_or_ne j i with rfl | hne
    · rw [missing_answer, Finset.mem_erase, h.waits]
      have hapart := h.apart j s hs
      constructor
      · rintro ⟨hne, hatt | howed⟩
        · exact .inl hatt
        · exact .inr ⟨howed, fun hc => hne hc.2⟩
      · rintro (hatt | ⟨howed, hne⟩)
        · exact ⟨fun hc => hapart (hc ▸ hatt), .inl hatt⟩
        · exact ⟨fun hc => hne ⟨rfl, hc⟩, .inr howed⟩
    · rw [missing_congr (by rw [hasked]) (hanswers j hne), h.waits]
      simp [hne]
  · rw [hattached]
    exact h.apart j u hu.1
  · rw [hslaves]
    exact h.connected
  · rw [hslaves]
    exact h.nodup
  · rw [hslaves, husing]
    exact h.slaves

lemma attached_set {l l' : Slave} (hl : t.slaves[s]? = some l) (j u : ℕ) :
    Attached { t with slaves := t.slaves.set s l' } j u ↔
      if u = s then j ∈ l'.listeners else Attached t j u := by
  have hlt := (List.getElem?_eq_some_iff.mp hl).1
  unfold Attached
  dsimp only
  split_ifs with hu
  · rw [hu, List.getElem?_set_self hlt]
    simp
  · rw [List.getElem?_set_ne (Ne.symm hu)]

lemma attached_iff {l : Slave} (hl : t.slaves[s]? = some l) : Attached t j s ↔ j ∈ l.listeners := by
  rw [Attached, hl]
  simp

/-- The listeners of a slave change, and what is owed there. -/
lemma Good.set {l l' : Slave} {owed' : Set (ℕ × ℕ)} (h : Good owed t) (hl : t.slaves[s]? = some l)
    (hwaits : ∀ j, j ∈ l'.listeners ∨ (j, s) ∈ owed' ↔ j ∈ l.listeners ∨ (j, s) ∈ owed)
    (hother : ∀ j u, u ≠ s → ((j, u) ∈ owed' ↔ (j, u) ∈ owed))
    (hapart : ∀ j, (j, s) ∈ owed' → j ∉ l'.listeners)
    (hconnected : l'.listeners ≠ [] → l'.connected = true) (hnodup : l'.listeners.Nodup) :
    Good owed' { t with slaves := t.slaves.set s l' } := by
  have hget : ∀ (u : ℕ) (m : Slave), (t.slaves.set s l')[u]? = some m →
      m = l' ∨ t.slaves[u]? = some m := fun u m hm => by
    rcases eq_or_ne u s with rfl | hu
    · rw [List.getElem?_set_self (List.getElem?_eq_some_iff.mp hl).1] at hm
      exact .inl (Option.some.inj hm).symm
    · rw [List.getElem?_set_ne hu.symm] at hm
      exact .inr hm
  refine ⟨h.fresh, fun j hj => (h.phase j hj).congr rfl rfl rfl rfl rfl, fun j u => ?_,
    fun j u hu => ?_, fun u m hm => ?_, fun u m hm => ?_, fun husing hnil => ?_⟩
  · rw [attached_set hl]
    change u ∈ missing t j ↔ _
    rw [h.waits]
    split_ifs with hu
    · rw [hu, hwaits, attached_iff hl]
    · rw [hother j u hu]
  · rw [attached_set hl]
    split_ifs with hus
    · exact hapart j (hus ▸ hu)
    · exact h.apart j u ((hother j u hus).mp hu)
  · rcases hget u m hm with rfl | hm
    · exact hconnected
    · exact h.connected u m hm
  · rcases hget u m hm with rfl | hm
    · exact hnodup
    · exact h.nodup u m hm
  · exact h.slaves husing (by simpa using hnil)

lemma Good.request (h : Good owed t) (hs : (i, s) ∈ owed) (hlt : s < t.slaves.length) :
    Good (owed \ {(i, s)}) (t.request i s) := by
  unfold State.request
  have hl := List.getElem?_eq_getElem hlt
  rw [hl]
  generalize t.slaves[s] = l at hl
  dsimp only
  split_ifs with hconnected
  · have hnot : i ∉ l.listeners := fun hc => h.apart i s hs ((attached_iff hl).mpr hc)
    refine h.set hl (fun j => ?_) (fun j u hu => ?_) (fun j hj hc => ?_) (fun _ => hconnected) ?_
    · simp only [List.mem_append, List.mem_singleton, Set.mem_sdiff, Set.mem_singleton_iff,
        Prod.mk.injEq, and_true]
      by_cases hj : j = i
      · simp [hj, hs]
      · simp [hj]
    · simp [hu]
    · rw [Set.mem_sdiff, Set.mem_singleton_iff, Prod.mk.injEq] at hj
      rcases List.mem_append.mp hc with hc | hc
      · exact h.apart j s hj.1 ((attached_iff hl).mpr hc)
      · exact hj.2 ⟨List.mem_singleton.mp hc, rfl⟩
    · rw [← List.concat_eq_append]
      exact (h.nodup s l hl).concat hnot
  · exact h.answer hs

lemma request_frame (t : State) (i s : ℕ) :
    (t.request i s).slaves.length = t.slaves.length ∧ (t.request i s).next = t.next := by
  unfold State.request
  cases t.slaves[s]? with
  | none => exact ⟨rfl, rfl⟩
  | some l =>
    dsimp only
    split_ifs
    · exact ⟨List.length_set, rfl⟩
    · obtain ⟨hslaves, hnext, -⟩ := answer_frame t i s .error
      exact ⟨by rw [hslaves], hnext⟩

lemma good_requests {ss : List ℕ} (hnd : ss.Nodup) (hlt : ∀ s ∈ ss, s < t.slaves.length)
    (h : Good {x | x.1 = i ∧ x.2 ∈ ss} t) :
    Good ∅ (ss.foldl (fun u s => u.request i s) t) := by
  induction ss generalizing t with
  | nil =>
    have hnone : {x : ℕ × ℕ | x.1 = i ∧ x.2 ∈ ([] : List ℕ)} = ∅ := by simp
    rwa [hnone] at h
  | cons s ss ih =>
    obtain ⟨hnot, hnd⟩ := List.nodup_cons.mp hnd
    obtain ⟨hs, hlt⟩ := List.forall_mem_cons.mp hlt
    have hgood := h.request ⟨rfl, List.mem_cons_self⟩ hs
    refine ih hnd (fun u hu => (request_frame t i s).1 ▸ hlt u hu) ?_
    convert hgood using 1
    ext ⟨j, u⟩
    simp only [Set.mem_ofPred_eq, Set.mem_sdiff, Set.mem_singleton_iff, Prod.mk.injEq,
      List.mem_cons]
    constructor
    · rintro ⟨rfl, hu⟩
      exact ⟨⟨rfl, .inr hu⟩, fun hc => hnot (hc.2 ▸ hu)⟩
    · rintro ⟨⟨rfl, rfl | hu⟩, hne⟩
      · exact absurd ⟨rfl, rfl⟩ hne
      · exact ⟨rfl, hu⟩

lemma good_answers {is : List ℕ} (hnd : is.Nodup) (h : Good {x | x.1 ∈ is ∧ x.2 = s} t) :
    Good ∅ (is.foldl (fun u i => u.answer i s r) t) := by
  induction is generalizing t with
  | nil =>
    have hnone : {x : ℕ × ℕ | x.1 ∈ ([] : List ℕ) ∧ x.2 = s} = ∅ := by simp
    rwa [hnone] at h
  | cons i is ih =>
    obtain ⟨hnot, hnd⟩ := List.nodup_cons.mp hnd
    have hgood := h.answer (r := r) (i := i) ⟨List.mem_cons_self, rfl⟩
    refine ih hnd ?_
    convert hgood using 1
    ext ⟨j, u⟩
    simp only [Set.mem_ofPred_eq, Set.mem_sdiff, Set.mem_singleton_iff, Prod.mk.injEq,
      List.mem_cons]
    constructor
    · rintro ⟨hj, rfl⟩
      exact ⟨⟨.inr hj, rfl⟩, fun hc => hnot (hc.1 ▸ hj)⟩
    · rintro ⟨⟨rfl | hj, rfl⟩, hne⟩
      · exact absurd ⟨rfl, rfl⟩ hne
      · exact ⟨hj, rfl⟩

lemma Good.emit {l : Slave} {connected : Bool} (h : Good ∅ t) (hl : t.slaves[s]? = some l) :
    Good ∅ (t.emit s l connected r) := by
  refine good_answers (h.nodup s l hl) (h.set hl (fun j => ?_) (fun j u hu => ?_) ?_ ?_ ?_)
  · simp
  · simp [hu]
  · exact fun j _ => List.not_mem_nil
  · exact fun hne => absurd rfl hne
  · exact List.nodup_nil

/-- A new call, whose slaves are to be asked. -/
lemma Good.call (h : Good ∅ t) {n : ℕ} {calls : ℕ → Call} {ticks : List (ℕ × Reply)}
    (hphase : ∀ v : State, missing v t.next = Finset.range n → failed v t.next = ∅ →
      sum v t.next = t.connections → v.calls = calls → v.called = t.called → v.ticks = ticks →
      Phase v t.next)
    (hcalls : ∀ i, i ≠ t.next → calls i = t.calls i)
    (hticks : ∀ i, i ≠ t.next → outcomes { t with ticks := ticks } i = outcomes t i) :
    Good {x | x.1 = t.next ∧ x.2 ∈ List.range n} { t with
      next := t.next + 1
      asked := Function.update t.asked t.next n
      start := Function.update t.start t.next t.connections
      calls := calls
      ticks := ticks } := by
  obtain ⟨hnone, hasked, hanswers⟩ := h.fresh t.next le_rfl
  obtain ⟨v, hv⟩ : ∃ v : State, v = { t with
      next := t.next + 1
      asked := Function.update t.asked t.next n
      start := Function.update t.start t.next t.connections
      calls := calls
      ticks := ticks } := ⟨_, rfl⟩
  rw [← hv]
  have hself : v.asked t.next = n := by rw [hv]; exact Function.update_self _ _ _
  have hother : ∀ i, i ≠ t.next → v.asked i = t.asked i ∧ v.start i = t.start i ∧
      v.calls i = t.calls i ∧ outcomes v i = outcomes t i := fun i hi => by
    rw [← hticks i hi, ← hcalls i hi, hv]
    exact ⟨Function.update_of_ne hi _ _, Function.update_of_ne hi _ _, rfl, rfl⟩
  have hsame : v.answers = t.answers := by rw [hv]
  have hslaves : v.slaves = t.slaves := by rw [hv]
  have hmissing : missing v t.next = Finset.range n := by
    ext s
    rw [mem_missing, hself, hsame, hanswers, Finset.mem_range]
    exact and_iff_left rfl
  have hnot : ∀ s, ¬ Attached t t.next s := fun s hs => by
    have hlt := h.lt_next ((h.waits t.next s).mpr (.inl hs))
    exact Nat.lt_irrefl _ hlt
  have hattached : ∀ i s, Attached v i s ↔ Attached t i s := fun i s => by
    rw [Attached, Attached, hslaves]
  refine ⟨fun i hi => ?_, fun i hi => ?_, fun i s => ?_, fun i s hs => ?_, ?_, ?_, ?_⟩
  · have hlt : t.next < i := by rw [hv] at hi; exact hi
    obtain ⟨haskd, -, -, hout⟩ := hother i hlt.ne'
    rw [haskd, hout, hsame]
    exact h.fresh i hlt.le
  · have hlt : i < t.next + 1 := by rw [hv] at hi; exact hi
    rcases eq_or_ne i t.next with rfl | hne
    · refine hphase v hmissing ?_ ?_ (by rw [hv]) (by rw [hv]) (by rw [hv])
      · ext s
        rw [mem_failed, hsame, hanswers]
        simp
      · rw [sum, hsame, hself, Finset.sum_eq_zero fun s _ => by rw [hanswers]; rfl, hv]
        dsimp only
        rw [Function.update_self, add_zero]
    · obtain ⟨haskd, hstart, hcalls, hout⟩ := hother i hne
      exact (h.phase i (by omega)).congr haskd hstart (by rw [hsame]) hcalls hout
  · rw [hattached]
    rcases eq_or_ne i t.next with rfl | hne
    · rw [hmissing, Finset.mem_range]
      simp [hnot]
    · rw [missing_congr (hother i hne).1 (by rw [hsame]), h.waits]
      simp [hne]
  · obtain rfl : i = t.next := hs.1
    rw [hattached]
    exact hnot s
  · rw [hslaves]
    exact h.connected
  · rw [hslaves]
    exact h.nodup
  · rw [hslaves, hv]
    exact h.slaves

lemma Good.getConnections (h : Good ∅ t) : Good ∅ t.getConnections := by
  have hnone := (h.fresh t.next le_rfl).1
  unfold State.getConnections
  dsimp only
  split_ifs with husing
  · refine good_requests List.nodup_range (fun s hs => List.mem_range.mp hs) ?_
    refine h.call (fun v hmissing hfailed hsum hcalls hcalled hticks => ?_)
      (fun i hi => Function.update_of_ne hi _ _) fun i _ => rfl
    refine .counting hfailed (fun _ => ?_) ?_
    · rw [hcalls, Function.update_self, hmissing, hsum, Finset.card_range]
    · have hne : t.slaves.length ≠ 0 := fun hc => h.slaves husing (List.length_eq_zero_iff.mp hc)
      rw [hmissing, if_neg (by simpa using hne), outcomes, hcalled, hticks]
      exact hnone
  · have hempty : {x : ℕ × ℕ | x.1 = t.next ∧ x.2 ∈ List.range 0} = ∅ := by simp
    rw [← hempty]
    refine h.call (fun v hmissing hfailed hsum hcalls hcalled hticks => ?_) (fun i _ => rfl)
      fun i hi => outcomes_finish_of_ne hi
    have hall : missing v t.next = ∅ := hmissing
    refine .counting hfailed (fun hne => absurd hall hne) ?_
    rw [if_pos hall, hsum, outcomes, hcalled, hticks]
    refine outcomes_finish.trans ?_
    rw [hnone]
    rfl

/-- A new slave, which nobody listens to. -/
lemma Good.setupSlave (h : Good ∅ t) :
    Good ∅ { t with slaves := t.slaves ++ [⟨true, []⟩], usingSlaves := true } := by
  have hget : ∀ (s : ℕ) (m : Slave), (t.slaves ++ [⟨true, []⟩])[s]? = some m →
      m = ⟨true, []⟩ ∨ t.slaves[s]? = some m := fun s m hm => by
    rw [List.getElem?_append] at hm
    split_ifs at hm with hlt
    · exact .inr hm
    · exact .inl (List.mem_singleton.mp (List.mem_of_getElem? hm))
  have hattached : ∀ i s, Attached { t with slaves := t.slaves ++ [⟨true, []⟩] } i s ↔
      Attached t i s := fun i s => by
    constructor
    · rintro ⟨l, hl, hi⟩
      rcases hget s l hl with rfl | hl
      · cases hi
      · exact ⟨l, hl, hi⟩
    · rintro ⟨l, hl, hi⟩
      have hlt := (List.getElem?_eq_some_iff.mp hl).1
      exact ⟨l, (List.getElem?_append_left hlt).trans hl, hi⟩
  refine ⟨h.fresh, fun i hi => (h.phase i hi).congr rfl rfl rfl rfl rfl, fun i s => ?_,
    fun i s hs => hs.elim, fun s l hl => ?_, fun s l hl => ?_, fun _ => by simp⟩
  · have hiff := hattached i s
    exact (h.waits i s).trans (or_congr_left hiff.symm)
  · rcases hget s l hl with rfl | hl
    · exact fun _ => rfl
    · exact h.connected s l hl
  · rcases hget s l hl with rfl | hl
    · exact List.nodup_nil
    · exact h.nodup s l hl

/-- A callback that was waiting is called. -/
lemma Good.tick {x : ℕ × Reply} {ticks : List (ℕ × Reply)} (h : Good ∅ t)
    (hticks : t.ticks = x :: ticks) :
    Good ∅ { t with ticks := ticks, called := t.called ++ [x] } := by
  have hout : ∀ i, outcomes { t with ticks := ticks, called := t.called ++ [x] } i =
      outcomes t i := fun i => by
    unfold outcomes
    rw [hticks, List.append_assoc]
    rfl
  exact ⟨fun i hi => (h.fresh i hi).imp_left (hout i).trans,
    fun i hi => (h.phase i hi).congr rfl rfl rfl rfl (hout i), h.waits, h.apart,
    h.connected, h.nodup, h.slaves⟩

lemma Good.step {a : Act} (h : Good ∅ t) (hs : step t a = some u) : Good ∅ u := by
  cases a with
  | connections n =>
    obtain rfl := Option.some.inj hs
    exact ⟨h.fresh, fun i hi => (h.phase i hi).congr rfl rfl rfl rfl rfl, h.waits, h.apart,
      h.connected, h.nodup, h.slaves⟩
  | setupSlave =>
    obtain rfl := Option.some.inj hs
    exact h.setupSlave
  | getConnections =>
    obtain rfl := Option.some.inj hs
    exact h.getConnections
  | reply s n =>
    obtain ⟨l, hl, rfl⟩ := Option.map_eq_some_iff.mp hs
    exact h.emit (Option.filter_eq_some_iff.mp hl).1
  | disconnect s =>
    obtain ⟨l, hl, rfl⟩ := Option.map_eq_some_iff.mp hs
    exact h.emit (Option.filter_eq_some_iff.mp hl).1
  | tick =>
    rw [NetConnections.step] at hs
    cases hticks : t.ticks with
    | nil =>
      rw [hticks] at hs
      cases hs
    | cons x ticks =>
      rw [hticks] at hs
      obtain rfl := Option.some.inj hs
      exact h.tick hticks

theorem good_of_run (h : Run step (fun _ _ _ => True) .new t) : Good ∅ t := by
  refine h.invariant ?_ fun _ _ _ hgood hs _ => hgood.step hs
  refine ⟨fun i _ => ⟨rfl, rfl, fun _ => rfl⟩, fun i hi => absurd hi (Nat.not_lt_zero i),
    fun i s => ?_, fun i s hs => hs.elim, fun s l hl => ?_, fun s l hl => ?_, fun h => ?_⟩
  · rw [mem_missing]
    constructor
    · exact fun hs => absurd hs.1 (Nat.not_lt_zero s)
    · rintro (⟨l, hl, -⟩ | hs)
      · cases hl
      · exact hs.elim
  · cases hl
  · cases hl
  · cases h

/-- **When a call is answered once.** -/
theorem once_iff (h : Run step (fun _ _ _ => True) .new t) (hi : i < t.next) :
    (∀ s ∈ missing t i, ∃ l, t.slaves[s]? = some l ∧ l.connected = true ∧ i ∈ l.listeners) ∧
      (Once t i ↔ (failed t i).card ≤ 1) := by
  have hgood := good_of_run h
  refine ⟨fun s hs => ?_, ?_⟩
  · rcases (hgood.waits i s).mp hs with ⟨l, hl, hmem⟩ | hs
    · exact ⟨l, hl, hgood.connected s l hl (List.ne_nil_of_mem hmem), hmem⟩
    · exact hs.elim
  cases hgood.phase i hi with
  | counting hnone hleft hheard =>
    rw [hnone]
    refine iff_of_true ⟨?_, fun hall => ?_⟩ (Nat.zero_le 1)
    · rw [hheard]
      split_ifs
      · exact le_rfl
      · exact Nat.zero_le 1
    · rw [hheard, if_pos hall, right, if_pos hnone]
  | failing hsome hleft hheard =>
    constructor
    · rintro ⟨hle, -⟩
      rwa [hheard, List.length_replicate] at hle
    · intro hle
      have hone : (failed t i).card = 1 :=
        le_antisymm hle (Finset.card_pos.mpr (Finset.nonempty_iff_ne_empty.mpr hsome))
      rw [hone] at hheard
      refine ⟨?_, fun _ => ?_⟩
      · rw [hheard]
        exact le_rfl
      · rw [hheard, right, if_neg hsome]
        rfl

/-- One slave replies, the other one disconnects. -/
theorem once_iff_one : ∃ t, (missing t 0 = ∅ ∧ (failed t 0).card ≤ 1) ∧
    (Once t 0 ↔ (failed t 0).card ≤ 1) := by
  refine ⟨_, ⟨?_, ?_⟩, (once_iff (.of_foldlM (w := [.setupSlave, .setupSlave, .getConnections,
    .reply 0 3, .disconnect 1, .tick]) rfl) (Nat.zero_lt_one)).2⟩
  · decide
  · decide

/-- Both slaves disconnect. -/
theorem not_once_two : ¬ ∀ t i, Run step (fun _ _ _ => True) .new t → i < t.next → Once t i := by
  intro h
  have hrun : Run step (fun _ _ _ => True) State.new _ := Run.of_foldlM (w := [Act.setupSlave,
    .setupSlave, .getConnections, .disconnect 0, .disconnect 1, .tick, .tick]) rfl
  have hle := (h _ 0 hrun Nat.zero_lt_one).atMost
  exact absurd hle (by decide)

end Runs

end NodeCore.NetConnections
