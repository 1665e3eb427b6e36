import NodeCore.HttpPipelineOrder

/-!
The assertion that a response that finishes answers the first request of `incoming`. It holds as
long as `abortIncoming` does not take requests out under a response that then ends, and no response
overtakes another.
-/

namespace NodeCore.HttpPipeline

open NodeCore.Encoding NodeCore.HttpOutgoing NodeCore.Reentrant

/-! ### The claim -/

/-- **What is claimed.** -/
structure Sound (t : State) : Prop where
  ordered : Ordered t.log
  matched : t.failed = false

/-- An earlier response waits for the socket of a later one. -/
def Overtaken (t : State) : Prop := ∃ i, t.httpMessage = some i ∧ ∃ j ∈ t.outgoing, j < i

/-- **The condition on a step.** While requests are left in `incoming`, the response that has the
socket is not ended after `abortIncoming` has taken out others, and not if it has overtaken one. -/
def Ok (m : System) : Act → Prop
  | .call i _ (.end _ _) => m.st.httpMessage = some i → m.st.incoming ≠ [] →
      m.st.aborted = false ∧ ¬ Overtaken m.st
  | _ => True

/-! ### The invariant -/

/-- The requests in `incoming` are those of the responses in the queue. -/
def Even (t : State) : Prop := t.incoming = t.httpMessage.toList ++ t.outgoing

/-- A response that finishes finds its request, or none. -/
def Safe (t : State) : Prop := t.aborted = true ∧ t.incoming = [] ∨ t.aborted = false ∧ Even t

/-- Where `assignSocket` goes on the queue is safe, and `abortIncoming` was called first. -/
def Framed (t : State) : List Frame → Prop
  | [] => True
  | .flush _ :: k => Safe t ∧ Framed t k
  | .aborted _ :: k => t.ended = true ∧ k = []
  | .abort _ :: k => t.ended = true ∧ k = []
  | .user :: k => Framed t k
  | .listeners :: k => Framed t k

structure Matched (t : State) (k : List Frame) : Prop where
  queued : Queued t
  failed : t.failed = false
  ended : t.aborted = true → t.ended = true
  incoming : t.aborted = true ∨ (Overtaken t ∧ t.incoming ≠ []) ∨ Even t
  framed : Framed t k

lemma Framed.mono {t u : State} (hs : Safe t → Safe u) (he : t.ended = true → u.ended = true)
    {k : List Frame} (h : Framed t k) : Framed u k := by
  induction k with
  | nil => trivial
  | cons f k ih =>
    cases f with
    | user => exact ih h
    | flush i => exact ⟨hs h.1, ih h.2⟩
    | listeners => exact ih h
    | aborted close => exact ⟨he h.1, h.2⟩
    | abort close => exact ⟨he h.1, h.2⟩

lemma Framed.tail {t : State} {f : Frame} {k : List Frame} (h : Framed t (f :: k)) :
    Framed t k := by
  cases f with
  | user => exact h
  | flush i => exact h.2
  | listeners => exact h
  | aborted close => exact h.2 ▸ trivial
  | abort close => exact h.2 ▸ trivial

/-- Nothing of the queue has changed. -/
structure SameQueue (t u : State) : Prop where
  incoming : u.incoming = t.incoming
  outgoing : u.outgoing = t.outgoing
  httpMessage : u.httpMessage = t.httpMessage
  aborted : u.aborted = t.aborted
  failed : u.failed = t.failed
  ended : t.ended = true → u.ended = true

lemma SameQueue.safe {t u : State} (h : SameQueue t u) (ht : Safe t) : Safe u := by
  unfold Safe Even
  rw [h.aborted, h.incoming, h.httpMessage, h.outgoing]
  exact ht

lemma Matched.same {t u : State} {k : List Frame} (h : Matched t k) (hq : Queued u)
    (hs : SameQueue t u) : Matched u k where
  queued := hq
  failed := hs.failed.trans h.failed
  ended ha := hs.ended (h.ended (hs.aborted ▸ ha))
  incoming := by
    unfold Overtaken Even
    rw [hs.aborted, hs.incoming, hs.httpMessage, hs.outgoing]
    exact h.incoming
  framed := h.framed.mono hs.safe hs.ended

/-! ### `'finish'` -/

/-- A response finishes while the queue is safe. -/
lemma Safe.onFinish {t : State} (h : Safe t) {i : ℕ} (hi : t.httpMessage = some i) :
    Safe (t.onFinish i).state ∧ (t.onFinish i).state.failed = t.failed ∧
      (t.onFinish i).state.ended = t.ended ∧ (t.onFinish i).state.aborted = t.aborted ∧
      ((t.onFinish i).frames = [] ∨ ∃ m, (t.onFinish i).frames = [.flush m]) := by
  have hhead (ha : Even t) : t.incoming = i :: t.outgoing := by
    rw [ha, hi]
    rfl
  have hgone (outgoing : List ℕ) (u : State) (hmessage : u.httpMessage.toList ++ u.outgoing =
      t.outgoing) (haborted : u.aborted = t.aborted) (hincoming : u.incoming = t.incoming.tail) :
      Safe u := by
    unfold Safe Even
    rw [hmessage, haborted, hincoming]
    refine h.imp (fun h => ⟨h.1, ?_⟩) fun h => ⟨h.1, ?_⟩
    · rw [h.2]
      rfl
    · rw [hhead h.2]
      rfl
  have hcases := onFinish_cases t i
  revert hcases
  generalize t.onFinish i = r
  intro hcases
  cases hcases with
  | fails hfails =>
    rcases h with h | h
    · exact absurd h.2 hfails.1
    · rw [hhead h.2] at hfails
      exact absurd rfl hfails.2
  | detached hnot => exact absurd hi hnot
  | last => exact ⟨hgone [] _ rfl rfl rfl, rfl, rfl, rfl, .inl rfl⟩
  | idle => exact ⟨hgone [] _ rfl rfl rfl, rfl, rfl, rfl, .inl rfl⟩
  | next m rest _ _ hout => exact ⟨hgone [] _ hout.symm rfl rfl, rfl, rfl, rfl, .inr ⟨m, rfl⟩⟩

lemma sameQueue_keep (t : State) (i : ℕ) (r : ServerResponse) : SameQueue t (t.keep i r) :=
  ⟨rfl, rfl, rfl, rfl, rfl, id⟩

/-- A function of a response, which may finish if the queue is safe. -/
lemma Matched.perform {t : State} {k : List Frame} (h : Matched t k) {i : ℕ} {r : ServerResponse}
    (hr : Runs (t.response i).toOutgoingMessage r.toOutgoingMessage)
    (hsafe : t.httpMessage = some i → Safe t) : (t.perform i r).Keeps Matched k := by
  have hkeep := h.same (h.queued.keep hr) (sameQueue_keep t i r)
  have hqueued := h.queued.perform hr
  rcases perform_cases hr with hp | hp | ⟨hsome, hp⟩
  · rw [hp]
    exact hkeep
  · rw [hp]
    exact hkeep
  · have hi : t.httpMessage = some i :=
      (h.queued.attached i).mp ((h.queued.wrote hr).1.symm.trans hsome)
    have hsafe : Safe ((t.keep i r).finished i) := (sameQueue_keep t i r).safe (hsafe hi)
    obtain ⟨hs, hfailed, hended, haborted, hframes⟩ := hsafe.onFinish (i := i) hi
    have hmatched : ∀ u, Queued u → Safe u → u.failed = t.failed → u.ended = t.ended →
        u.aborted = t.aborted → Matched u k := by
      intro u hq hs hfailed hended haborted
      refine ⟨hq, hfailed.trans h.failed, fun ha => ?_, ?_, ?_⟩
      · exact hended.trans (h.ended (haborted.symm.trans ha))
      · exact hs.imp And.left fun hs => .inr hs.2
      · exact h.framed.mono (fun _ => hs) fun he => hended.trans he
    rw [hp] at hqueued ⊢
    cases hfin : ((t.keep i r).finished i).onFinish i with
    | ret u =>
      rw [hfin] at hs hfailed hended haborted hqueued
      exact hmatched u hqueued hs hfailed hended haborted
    | call u fs =>
      rw [hfin] at hs hfailed hended haborted hqueued hframes
      have hu := hmatched u hqueued hs hfailed hended haborted
      have hframed : Framed u ((fs ++ [.listeners]) ++ k) := by
        rcases hframes with hfs | ⟨m, hfs⟩
        · obtain rfl : fs = [] := hfs
          exact hu.framed
        · obtain rfl : fs = [.flush m] := hfs
          exact ⟨hs, hu.framed⟩
      exact ⟨hu.queued, hu.failed, hu.ended, hu.incoming, hframed⟩

lemma Matched.keep {t : State} {k : List Frame} (h : Matched t k) {i : ℕ} {r : ServerResponse}
    (hr : Writes (t.response i).toOutgoingMessage r.toOutgoingMessage) :
    (t.perform i r).Keeps Matched k := by
  have hret : t.perform i r = .ret (t.keep i r) := by
    unfold State.perform
    dsimp only
    rw [hr.emitted]
    rfl
  rw [hret]
  exact h.same (h.queued.keep hr.runs) (sameQueue_keep t i r)

/-! ### Steps -/

/-- The response that has the socket is ended where its request is the first, or all are gone. -/
lemma Matched.safe {t : State} {k : List Frame} (h : Matched t k)
    (hok : t.incoming ≠ [] → t.aborted = false ∧ ¬ Overtaken t) : Safe t := by
  by_cases hnil : t.incoming = []
  · cases ha : t.aborted with
    | true => exact .inl ⟨ha, hnil⟩
    | false =>
      rcases h.incoming with h | h | h
      · exact absurd (ha.symm.trans h) Bool.false_ne_true
      · exact absurd hnil h.2
      · exact .inr ⟨ha, h⟩
  · obtain ⟨ha, hover⟩ := hok hnil
    rcases h.incoming with h | h | h
    · exact absurd (ha.symm.trans h) Bool.false_ne_true
    · exact absurd h.1 hover
    · exact .inr ⟨ha, h⟩

lemma Matched.endSocket {t : State} {k : List Frame} (h : Matched t k) :
    Matched t.endSocket k := h.same h.queued.endSocket ⟨rfl, rfl, rfl, rfl, rfl, id⟩

lemma Matched.abort {t : State} (h : Matched t []) (hended : t.ended = true) (close : Bool) :
    (t.abort close).Keeps Matched [] := by
  have hq := h.queued.abort close
  unfold State.abort at hq ⊢
  cases hin : t.incoming with
  | nil =>
    dsimp only
    split_ifs
    · exact h
    · exact h.endSocket
  | cons i incoming =>
    rw [hin] at hq
    exact ⟨hq, h.failed, fun _ => hended, .inl rfl, hended, rfl⟩

lemma Matched.exec {t : State} {f : Frame} {k : List Frame} (h : Matched t (f :: k)) :
    (t.exec f).Keeps Matched k := by
  have hk : Matched t k := ⟨h.queued, h.failed, h.ended, h.incoming, h.framed.tail⟩
  cases f with
  | user => exact hk
  | flush i => exact hk.perform (runs_flush _) fun _ => h.framed.1
  | listeners => exact hk
  | aborted close =>
    obtain ⟨hended, rfl⟩ := h.framed
    exact ⟨hk.queued, hk.failed, hk.ended, hk.incoming, hended, rfl⟩
  | abort close =>
    obtain ⟨hended, rfl⟩ := h.framed
    exact hk.abort hended close

lemma Matched.callOf {m : System} {a : Act} {r : Outcome} (h : Matched m.st m.stack)
    (hok : Ok m a) (hr : callOf m.st a = some r) : r.Keeps Matched (.user :: m.stack) := by
  have hu : Matched m.st (.user :: m.stack) := ⟨h.queued, h.failed, h.ended, h.incoming, h.framed⟩
  cases a with
  | call i date c =>
    unfold HttpPipeline.callOf at hr
    dsimp only at hr
    split_ifs at hr
    obtain rfl := Option.some.inj hr
    cases c with
    | «end» data e => exact hu.perform (runs_call date _ _) fun hi => hu.safe (hok hi)
    | _ => exact hu.keep (writes_call date _ _ fun data e h => by cases h)
  | endSocket =>
    obtain rfl := Option.some.inj hr
    exact hu.endSocket
  | destroy =>
    obtain rfl := Option.some.inj hr
    exact hu.same hu.queued.destroy ⟨rfl, rfl, rfl, rfl, rfl, id⟩
  | room room =>
    have hq := h.queued.callOf hr
    obtain rfl := Option.some.inj hr
    exact hu.same hq ⟨rfl, rfl, rfl, rfl, rfl, id⟩
  | _ => cases hr

/-- A request comes while none has been taken out. -/
lemma Matched.accept {t : State} (h : Matched t []) (hended : t.ended = false)
    {r : ServerResponse} (hr : r.connection = none) : Matched (t.accept r) [] := by
  have hq := h.queued.accept hr
  have haborted : t.aborted = false := by
    by_contra ha
    rw [Bool.not_eq_false] at ha
    exact Bool.false_ne_true (hended.symm.trans (h.ended ha))
  unfold State.accept at hq ⊢
  dsimp only at hq ⊢
  by_cases hsome : t.httpMessage.isSome = true
  · rw [if_pos hsome] at hq ⊢
    refine ⟨hq, h.failed, h.ended, .inr ?_, trivial⟩
    rcases h.incoming with h | h | h
    · exact absurd (haborted.symm.trans h) Bool.false_ne_true
    · obtain ⟨⟨i, hi, j, hj, hlt⟩, -⟩ := h
      exact .inl ⟨⟨i, hi, j, List.mem_append_left _ hj, hlt⟩,
        List.append_ne_nil_of_right_ne_nil _ (List.cons_ne_nil _ _)⟩
    · right
      show t.incoming ++ [t.count] = t.httpMessage.toList ++ (t.outgoing ++ [t.count])
      rw [h, List.append_assoc]
  · rw [if_neg hsome] at hq ⊢
    have hm : t.httpMessage = none := Option.not_isSome_iff_eq_none.mp hsome
    refine ⟨hq, h.failed, h.ended, .inr ?_, trivial⟩
    rcases h.incoming with h | h | heven
    · exact absurd (haborted.symm.trans h) Bool.false_ne_true
    · obtain ⟨⟨i, hi, -⟩, -⟩ := h
      rw [hm] at hi
      cases hi
    · have hincoming : t.incoming = t.outgoing := by
        rw [heven, hm]
        rfl
      by_cases hout : t.outgoing = []
      · right
        show t.incoming ++ [t.count] = t.count :: t.outgoing
        rw [hincoming, hout]
        rfl
      · left
        obtain ⟨j, hj⟩ := List.exists_mem_of_ne_nil _ hout
        exact ⟨⟨t.count, rfl, j, hj, h.queued.bound j (List.mem_append_right _ hj)⟩,
          List.append_ne_nil_of_right_ne_nil _ (List.cons_ne_nil _ _)⟩

lemma Matched.onIncoming {t : State} (h : Matched t []) (hended : t.ended = false) (req : Request)
    (shouldKeepAlive expect check : Bool) :
    (t.onIncoming req shouldKeepAlive expect check).Keeps Matched [] := by
  obtain ⟨u, hu, hincoming⟩ := t.onIncoming_eq req shouldKeepAlive expect check
  have hm : Matched u [] := hu ▸ h.accept hended rfl
  rw [hincoming]
  split_ifs
  · exact hm.same (hm.queued.keep (Writes.refl _).runs) (sameQueue_keep u _ _)
  · exact hm.same (hm.queued.keep (writes_writeContinue _).runs) (sameQueue_keep u _ _)
  · exact hm

lemma Matched.over {t : State} (h : Matched t []) : Matched { t with ended := true } [] :=
  ⟨h.queued.over, h.failed, fun _ => rfl, h.incoming, trivial⟩

lemma Matched.onend {t : State} (h : Matched t []) (httpAllowHalfOpen : Bool) :
    (t.onend httpAllowHalfOpen).Keeps Matched [] := by
  have hq := h.queued.onend httpAllowHalfOpen
  unfold State.onend at hq ⊢
  dsimp only at hq ⊢
  split_ifs at hq ⊢
  · exact h.over.abort rfl false
  · split at hq
    · exact h.same hq ⟨rfl, rfl, rfl, rfl, rfl, fun _ => rfl⟩
    · exact h.same hq ⟨rfl, rfl, rfl, rfl, rfl, fun _ => rfl⟩
    · exact h.same hq ⟨rfl, rfl, rfl, rfl, rfl, fun _ => rfl⟩

lemma Matched.eventOf {httpAllowHalfOpen : Bool} {t : State} {a : Act} {r : Outcome}
    (h : Matched t []) (hr : eventOf httpAllowHalfOpen t a = some r) : r.Keeps Matched [] := by
  obtain ⟨req, shouldKeepAlive, expect, check, hended, rfl⟩ | rfl | rfl := eventOf_cases hr
  · exact h.onIncoming hended req shouldKeepAlive expect check
  · exact h.onend httpAllowHalfOpen
  · exact h.over.abort rfl true

lemma Matched.step {httpAllowHalfOpen : Bool} {m m' : System} {a : Act}
    (h : Matched m.st m.stack) (hok : Ok m a) (hs : step httpAllowHalfOpen m a = some m') :
    Matched m'.st m'.stack := by
  refine step_keeps hs h
    (fun t f k h => ⟨h.queued, h.failed, h.ended, h.incoming, h.framed.tail⟩)
    (fun t f k h => h.exec) (fun r hr => h.callOf hok hr) fun r hk hr => ?_
  obtain ⟨t, stack⟩ := m
  obtain rfl : stack = [] := hk
  exact h.eventOf hr

lemma matched_init : Matched init.st init.stack :=
  ⟨queued_init, rfl, fun h => absurd h Bool.false_ne_true, .inr (.inr rfl), trivial⟩

/-- **Pipelined responses keep their order, and finish with their requests**, in every run whose
steps meet the condition. -/
theorem responses_in_order (httpAllowHalfOpen : Bool) {m : System}
    (h : Run (step httpAllowHalfOpen) (fun m a _ => Ok m a) init m) : Sound m.st := by
  have hm : Matched m.st m.stack :=
    h.invariant (I := fun m => Matched m.st m.stack) matched_init
      fun _ _ _ hm hs hok => hm.step hok hs
  exact ⟨hm.queued.ordered, hm.failed⟩

/-- A request without anything special. -/
def get : Request := ⟨js "GET", 1, 1, none⟩

/-- Two requests, of which the second is answered first. -/
def reversed : List Act :=
  [.request get true false false, .request get true false false, .call 1 [] (.end none none),
    .call 0 [] (.end none none), .ret, .ret, .ret]

set_option maxRecDepth 4000 in
theorem responses_in_order_reversed :
    ∃ m, Run (step false) (fun m a _ => Ok m a) init m ∧ m.st.count = 2 ∧ m.st.incoming = [] ∧
      Sound m.st := by
  have hrun : ∃ m, Run (step false) (fun m a _ => Ok m a) init m ∧ m.st.count = 2 ∧
      m.st.incoming = [] := by
    refine ⟨_, Run.of_path .refl (w := reversed) ⟨_, rfl, trivial, _, rfl, trivial,
      _, rfl, fun h => ?_, _, rfl, fun _ _ => ⟨rfl, ?_⟩, _, rfl, trivial, _, rfl, trivial,
      _, rfl, trivial, rfl⟩, rfl, rfl⟩
    · cases h
    · rintro ⟨i, hi, j, -, hlt⟩
      obtain rfl : 0 = i := Option.some.inj hi
      exact absurd hlt (Nat.not_lt_zero j)
  obtain ⟨m, hm, hcount, hincoming⟩ := hrun
  exact ⟨m, hm, hcount, hincoming, responses_in_order false hm⟩

/-- The client ends while two requests wait, and the handler ends the first response when it is told
that its request is aborted. -/
def abortedFirst : List Act :=
  [.request get true false false, .request get true false false, .eof, .call 0 [] (.end none none)]

/-- The assertion fails. -/
theorem finished_out_of_turn :
    ¬ ∀ m, Run (step false) (fun _ _ _ => True) init m → Sound m.st := by
  intro h
  have hrun : ∃ m, Run (step false) (fun _ _ _ => True) init m ∧ m.st.failed = true :=
    ⟨_, Run.of_path .refl (w := abortedFirst) ⟨_, rfl, trivial, _, rfl, trivial, _, rfl, trivial,
      _, rfl, trivial, rfl⟩, rfl⟩
  obtain ⟨m, hm, hfailed⟩ := hrun
  exact Bool.false_ne_true ((h m hm).matched.symm.trans hfailed)

theorem writes_in_order_abortedFirst : ∃ m, Run (step false) (fun _ _ _ => True) init m ∧
    m.st.failed = true ∧ Ordered m.st.log := by
  have hrun : ∃ m, Run (step false) (fun _ _ _ => True) init m ∧ m.st.failed = true :=
    ⟨_, Run.of_path .refl (w := abortedFirst) ⟨_, rfl, trivial, _, rfl, trivial, _, rfl, trivial,
      _, rfl, trivial, rfl⟩, rfl⟩
  obtain ⟨m, hm, hfailed⟩ := hrun
  exact ⟨m, hm, hfailed, writes_in_order hm⟩

end NodeCore.HttpPipeline
