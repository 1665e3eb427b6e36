import NodeCore.HttpPipelineCalls

/-!
The order of what is written for the responses of one connection. Only the response that has the
socket writes to it, and it gets the socket when those before it have finished.
-/

namespace NodeCore.HttpPipeline

open NodeCore.Encoding NodeCore.HttpOutgoing NodeCore.Reentrant

/-! ### The claim -/

/-- Each write comes when the responses before its own have ended and all their output has been
written, and no response after it has written. What is given after the socket is destroyed is
lost, and nothing is written then. -/
def Ordered (log : List Record) : Prop :=
  ∀ before i x, before ++ [.wrote i x] <+: log →
    (∀ j < i, .finish j true [] ∈ before) ∧ .destroyed ∉ before ∧ ∀ j y, .wrote j y ∈ before → j ≤ i

/-! ### The log -/

lemma ordered_nil : Ordered [] := by
  intro before i x h
  exact absurd (List.prefix_nil.mp h) (List.append_ne_nil_of_right_ne_nil _ (List.cons_ne_nil _ _))

lemma Ordered.concat {log : List Record} (h : Ordered log) {r : Record}
    (hr : ∀ i x, r = .wrote i x → (∀ j < i, .finish j true [] ∈ log) ∧ .destroyed ∉ log ∧
      ∀ j y, .wrote j y ∈ log → j ≤ i) : Ordered (log ++ [r]) := by
  intro before i x hp
  rcases List.prefix_concat_iff.mp hp with heq | hp
  · obtain ⟨rfl, hlast⟩ := List.append_inj' heq rfl
    exact hr i x (List.singleton_inj.mp hlast).symm
  · exact h before i x hp

/-- The response `i` writes. -/
lemma Ordered.writes {log : List Record} (h : Ordered log) {i : ℕ} {ws : List Entry}
    (hfinished : ws ≠ [] → ∀ j < i, .finish j true [] ∈ log)
    (hdestroyed : ws ≠ [] → .destroyed ∉ log)
    (hlast : ws ≠ [] → ∀ j y, .wrote j y ∈ log → j ≤ i) :
    Ordered (log ++ ws.map (.wrote i)) := by
  induction ws using List.reverseRecOn with
  | nil =>
    rw [List.map_nil, List.append_nil]
    exact h
  | append_singleton ws x ih =>
    have hne : ws ++ [x] ≠ [] := List.append_ne_nil_of_right_ne_nil _ (List.cons_ne_nil _ _)
    have hrest := ih (fun _ => hfinished hne) (fun _ => hdestroyed hne) fun _ => hlast hne
    rw [List.map_append, ← List.append_assoc]
    refine hrest.concat fun j y hr => ?_
    obtain ⟨rfl, -⟩ : i = j ∧ x = y := by simpa using hr
    refine ⟨fun k hk => List.mem_append_left _ (hfinished hne k hk), ?_, fun k z hk => ?_⟩
    · rw [List.mem_append, not_or]
      exact ⟨hdestroyed hne, by simp⟩
    · rcases List.mem_append.mp hk with hk | hk
      · exact hlast hne k z hk
      · obtain ⟨_, -, hk⟩ := List.mem_map.mp hk
        obtain ⟨rfl, -⟩ : i = k ∧ _ := by simpa using hk
        exact le_rfl

/-! ### The queue -/

/-- The responses from `o` on take turns, the first of them with the socket, and those before have
finished. -/
structure Turn (t : State) (o : ℕ) : Prop where
  queue : t.httpMessage.toList ++ t.outgoing = List.range' o (t.count - o)
  idle : t.httpMessage = none → t.outgoing = []
  le : o ≤ t.count
  finished : ∀ j < o, .finish j true [] ∈ t.log
  wrote : ∀ j y, .wrote j y ∈ t.log → j ≤ o

structure Held (t : State) : Prop where
  attached : ∀ i, (t.responses i).connection.isSome = true ↔ t.httpMessage = some i
  bound : ∀ i ∈ t.httpMessage.toList ++ t.outgoing, i < t.count
  ordered : Ordered t.log
  destroyed : .destroyed ∈ t.log → t.writable = false

structure Queued (t : State) : Prop extends Held t where
  turn : t.writable = true → ∃ o, Turn t o

lemma Turn.owner {t : State} {o i : ℕ} (h : Turn t o) (hi : t.httpMessage = some i) : o = i := by
  have hq := h.queue
  rw [hi] at hq
  cases hn : t.count - o with
  | zero =>
    rw [hn] at hq
    cases hq
  | succ n =>
    rw [hn, List.range'_succ] at hq
    exact (List.cons.inj hq).1.symm

/-- What a function of the response `i` writes. -/
lemma Queued.wrote {t : State} (h : Queued t) {i : ℕ} {r : ServerResponse}
    (hr : Runs (t.response i).toOutgoingMessage r.toOutgoingMessage) :
    r.connection.isSome = (t.responses i).connection.isSome ∧
      ∃ ws, (t.keep i r).log = t.log ++ ws.map (.wrote i) ∧
        (ws ≠ [] → t.httpMessage = some i ∧ t.writable = true) := by
  obtain ⟨m, hm, hc⟩ := hr.before
  cases hwas : (t.responses i).connection with
  | none =>
    have hnone : r.connection = none := hc.trans (hm.off (by simp [State.response, hwas]))
    refine ⟨congrArg Option.isSome hnone, [], ?_, fun hne => absurd rfl hne⟩
    rw [State.keep, hnone]
    rfl
  | some c =>
    obtain ⟨n, ws, hsome, hws⟩ := hm.on (t.connection i) (by simp [State.response, hwas])
    rw [hsome] at hc
    refine ⟨by rw [hc]; rfl, ws, ?_, fun hne => ⟨?_, hws hne⟩⟩
    · rw [State.keep, hc]
      rfl
    · exact (h.attached i).mp (congrArg Option.isSome hwas)

lemma Queued.keep {t : State} (h : Queued t) {i : ℕ} {r : ServerResponse}
    (hr : Runs (t.response i).toOutgoingMessage r.toOutgoingMessage) : Queued (t.keep i r) := by
  obtain ⟨hsome, ws, hlog, hws⟩ := h.wrote hr
  have hmem : ∀ e, (∀ x, e ≠ .wrote i x) → e ∈ (t.keep i r).log → e ∈ t.log := by
    intro e he hmem
    rw [hlog, List.mem_append] at hmem
    refine hmem.resolve_right fun hmem => ?_
    obtain ⟨x, -, hx⟩ := List.mem_map.mp hmem
    exact he x hx.symm
  refine ⟨⟨fun j => ?_, h.bound, ?_, fun hd => ?_⟩, fun hw => ?_⟩
  · have hresponses : (t.keep i r).responses j = if j = i then r else t.responses j :=
      Function.update_apply ..
    rw [hresponses]
    split_ifs with hj
    · rw [hsome, hj]
      exact h.attached i
    · exact h.attached j
  · rw [hlog]
    refine h.ordered.writes (fun hne => ?_) (fun hne hd => ?_) fun hne => ?_
    · obtain ⟨hi, hw⟩ := hws hne
      obtain ⟨o, ho⟩ := h.turn hw
      exact ho.owner hi ▸ ho.finished
    · have hw := (hws hne).2
      rw [h.destroyed hd] at hw
      cases hw
    · obtain ⟨hi, hw⟩ := hws hne
      obtain ⟨o, ho⟩ := h.turn hw
      exact ho.owner hi ▸ ho.wrote
  · exact h.destroyed (hmem _ (fun _ => nofun) hd)
  · obtain ⟨o, ho⟩ := h.turn hw
    refine ⟨o, ho.queue, ho.idle, ho.le, fun j hj => ?_, fun j y hy => ?_⟩
    · rw [hlog]
      exact List.mem_append_left _ (ho.finished j hj)
    · rw [hlog, List.mem_append] at hy
      rcases hy with hy | hy
      · exact ho.wrote j y hy
      · obtain ⟨x, hx, heq⟩ := List.mem_map.mp hy
        obtain ⟨rfl, -⟩ : i = j ∧ _ := by simpa using heq
        exact (ho.owner (hws (List.ne_nil_of_mem hx)).1).ge

/-- The response `i` has ended, and all its output is written. -/
def State.finished (t : State) (i : ℕ) : State :=
  { t with log := t.log ++ [Record.finish i true []] }

lemma Queued.finished {t : State} (h : Queued t) (i : ℕ) : Queued (t.finished i) := by
  refine ⟨⟨h.attached, h.bound, h.ordered.concat fun _ _ => nofun, fun hd => ?_⟩, fun hw => ?_⟩
  · exact h.destroyed (by simpa [State.finished] using hd)
  · obtain ⟨o, ho⟩ := h.turn hw
    exact ⟨o, ho.queue, ho.idle, ho.le, fun j hj => List.mem_append_left _ (ho.finished j hj),
      fun j y hy => ho.wrote j y (by simpa [State.finished] using hy)⟩

/-- The socket is not writable any more. -/
lemma Queued.endSocket {t : State} (h : Queued t) : Queued t.endSocket :=
  ⟨⟨h.attached, h.bound, h.ordered, fun _ => rfl⟩, fun hw => absurd hw Bool.false_ne_true⟩

lemma Queued.destroy {t : State} (h : Queued t) : Queued t.destroy :=
  ⟨⟨h.attached, h.bound, h.ordered.concat fun _ _ => nofun, fun _ => rfl⟩,
    fun hw => absurd hw Bool.false_ne_true⟩

/-! ### `'finish'` -/

/-- The request of `i` and its hold on the socket are gone. -/
def State.gone (t : State) (i : ℕ) : State := { t with incoming := t.incoming.tail }.detach i

/-- What the server's listener of `'finish'` comes to. -/
inductive Finishing (t : State) (i : ℕ) : Outcome → Prop
  | fails (h : t.incoming ≠ [] ∧ t.incoming.head? ≠ some i) :
      Finishing t i (.ret { t with failed := true })
  | detached (h : t.httpMessage ≠ some i) :
      Finishing t i (.ret { t with incoming := t.incoming.tail })
  | last (hm : t.incoming = [] ∨ t.incoming.head? = some i) (h : t.httpMessage = some i) :
      Finishing t i (.ret (t.gone i).endSocket)
  | idle (hm : t.incoming = [] ∨ t.incoming.head? = some i) (h : t.httpMessage = some i)
      (hout : t.outgoing = []) : Finishing t i (.ret (t.gone i))
  | next (m : ℕ) (rest : List ℕ) (hm : t.incoming = [] ∨ t.incoming.head? = some i)
      (h : t.httpMessage = some i) (hout : t.outgoing = m :: rest) :
      Finishing t i (.call ({ t.gone i with outgoing := rest }.assign m) [.flush m])

lemma onFinish_cases (t : State) (i : ℕ) : Finishing t i (t.onFinish i) := by
  unfold State.onFinish
  by_cases hmatch : t.incoming ≠ [] ∧ t.incoming.head? ≠ some i
  · rw [if_pos hmatch]
    exact .fails hmatch
  rw [if_neg hmatch]
  have hm : t.incoming = [] ∨ t.incoming.head? = some i := by
    rwa [not_and_or, not_not, not_not] at hmatch
  by_cases howner : t.httpMessage = some i
  · have hgone : { t with incoming := t.incoming.tail }.detach i = t.gone i := rfl
    have houtgoing : (t.gone i).outgoing = t.outgoing := rfl
    dsimp only
    rw [if_neg (not_not.mpr howner), hgone]
    split_ifs
    · exact .last hm howner
    · rw [houtgoing]
      cases hout : t.outgoing with
      | nil => exact .idle hm howner hout
      | cons m rest => exact .next m rest hm howner hout
  · dsimp only
    rw [if_pos howner]
    exact .detached howner

lemma Held.detached {t : State} (h : Held t) {i : ℕ} (hi : t.httpMessage = some i) (j : ℕ) :
    ((t.gone i).responses j).connection = none := by
  have hresponses : (t.gone i).responses j =
      if j = i then { t.responses i with connection := none } else t.responses j :=
    Function.update_apply ..
  rw [hresponses]
  split_ifs with hj
  · rfl
  · rw [← Option.not_isSome_iff_eq_none]
    intro hsome
    exact hj (Option.some.inj (((h.attached j).mp hsome).symm.trans hi))

/-- The response that has had its turn is out of the queue. -/
lemma Turn.pops {t : State} {o i : ℕ} (h : Turn t o) (hi : t.httpMessage = some i)
    (hlt : i < t.count) : t.outgoing = List.range' (i + 1) (t.count - (i + 1)) := by
  obtain rfl := h.owner hi
  have hq := h.queue
  obtain ⟨n, hn⟩ : ∃ n, t.count - o = n + 1 := ⟨t.count - o - 1, by omega⟩
  have hn' : t.count - (o + 1) = n := by omega
  rw [hi, hn, List.range'_succ] at hq
  rw [hn']
  exact (List.cons.inj hq).2

lemma Turn.done {t : State} {o i : ℕ} (h : Turn t o) (hi : t.httpMessage = some i)
    (hlog : .finish i true [] ∈ t.log) : ∀ j < i + 1, .finish j true [] ∈ t.log := fun j hj => by
  obtain rfl := h.owner hi
  rcases Nat.lt_succ_iff_lt_or_eq.mp hj with hj | rfl
  · exact h.finished j hj
  · exact hlog

/-- The response `i` has finished, and no response has the socket. -/
lemma Held.gone {t : State} (h : Held t) {i : ℕ} (hi : t.httpMessage = some i)
    {outgoing : List ℕ} (hout : outgoing ⊆ t.outgoing) :
    Held { t.gone i with outgoing := outgoing } where
  attached j := by
    have hnone : ({ t.gone i with outgoing := outgoing }.responses j).connection = none :=
      h.detached hi j
    rw [hnone]
    exact iff_of_false Bool.false_ne_true nofun
  bound j hj := h.bound j (List.mem_append_right _ (hout hj))
  ordered := h.ordered
  destroyed := h.destroyed

/-- A response gets the socket, which has none. -/
lemma Held.assign {t : State} (h : Held t) (hm : t.httpMessage = none) {i : ℕ}
    (hi : i < t.count) : Held (t.assign i) where
  attached j := by
    have hresponses : (t.assign i).responses j =
        if j = i then { t.responses i with connection := some (t.connection i) }
        else t.responses j := Function.update_apply ..
    have hnone := h.attached j
    rw [hm] at hnone
    rw [hresponses]
    split_ifs with hj
    · exact iff_of_true rfl (congrArg some hj.symm)
    · exact iff_of_false (fun hsome => by cases hnone.mp hsome)
        fun hsome => hj (Option.some.inj hsome).symm
  bound j hj := by
    rcases List.mem_cons.mp hj with rfl | hj
    · exact hi
    · exact h.bound j (List.mem_append_right _ hj)
  ordered := h.ordered
  destroyed := h.destroyed

/-- The response that has the socket gives it to the next. -/
lemma Queued.onFinish {t : State} (h : Queued t) {i : ℕ} (hlog : .finish i true [] ∈ t.log) :
    Queued (t.onFinish i).state := by
  have hsame (incoming : List ℕ) (failed : Bool) :
      Queued { t with incoming := incoming, failed := failed } :=
    ⟨⟨h.attached, h.bound, h.ordered, h.destroyed⟩, fun hw => (h.turn hw).imp
      fun o ho => ⟨ho.queue, ho.idle, ho.le, ho.finished, ho.wrote⟩⟩
  have hlt (hi : t.httpMessage = some i) : i < t.count := h.bound i (by simp [hi])
  have hcases := onFinish_cases t i
  revert hcases
  generalize t.onFinish i = r
  intro hcases
  cases hcases with
  | fails => exact hsame t.incoming true
  | detached => exact hsame _ t.failed
  | last hm hi =>
    obtain ⟨hattached, hbound, hordered, -⟩ := h.toHeld.gone hi (List.Subset.refl _)
    exact ⟨⟨hattached, hbound, hordered, fun _ => rfl⟩, fun hw => absurd hw Bool.false_ne_true⟩
  | idle hm hi hout =>
    refine ⟨h.toHeld.gone hi (List.Subset.refl _), fun hw => ?_⟩
    obtain ⟨o, ho⟩ := h.turn hw
    have hend : i + 1 = t.count := by
      have hlen := congrArg List.length (ho.pops hi (hlt hi))
      rw [hout, List.length_range', List.length_nil] at hlen
      have := hlt hi
      omega
    refine ⟨t.count, ?_, fun _ => hout, le_rfl, hend ▸ ho.done hi hlog,
      fun j y hy => (ho.wrote j y hy).trans ho.le⟩
    show [] ++ t.outgoing = List.range' t.count (t.count - t.count)
    rw [hout, Nat.sub_self]
    rfl
  | next m rest hm hi hout =>
    have hrest : rest ⊆ t.outgoing := hout ▸ List.subset_cons_self m rest
    have hmem : m ∈ t.outgoing := hout ▸ List.mem_cons_self
    refine ⟨(h.toHeld.gone hi hrest).assign rfl (h.bound m (List.mem_append_right _ hmem)),
      fun hw => ?_⟩
    obtain ⟨o, ho⟩ := h.turn hw
    refine ⟨i + 1, ?_, nofun, hlt hi, ho.done hi hlog, fun j y hy => ?_⟩
    · exact hout.symm.trans (ho.pops hi (hlt hi))
    · exact (ho.wrote j y hy).trans ((ho.owner hi).le.trans (Nat.le_succ i))

/-! ### Steps -/

/-- A function of the response `i`: it may end with its `'finish'`. -/
lemma perform_cases {t : State} {i : ℕ} {r : ServerResponse}
    (hr : Runs (t.response i).toOutgoingMessage r.toOutgoingMessage) :
    t.perform i r = .ret (t.keep i r) ∨ t.perform i r = .call (t.keep i r) [] ∨
      r.connection.isSome = true ∧ t.perform i r =
        (((t.keep i r).finished i).onFinish i).andThen .listeners fun t => .call t [] := by
  unfold State.perform
  dsimp only
  cases hr.ends rfl with
  | quietly hends =>
    rcases hends with he | he | he
    · rw [he]
      exact .inl rfl
    · rw [he]
      exact .inl rfl
    · rw [he]
      exact .inr (.inl rfl)
  | finishing he hfinished hout hsome =>
    have hself : (t.keep i r).responses i = r := Function.update_self ..
    have hlog : (t.keep i r).finish i =
        (((t.keep i r).finished i).onFinish i).andThen .listeners fun t => .call t [] := by
      unfold State.finish State.finished
      dsimp only
      rw [hself, ← hfinished, ← hout]
    rw [he]
    exact .inr (.inr ⟨hsome, hlog⟩)

lemma Queued.perform {t : State} (h : Queued t) {i : ℕ} {r : ServerResponse}
    (hr : Runs (t.response i).toOutgoingMessage r.toOutgoingMessage) :
    Queued (t.perform i r).state := by
  have hkeep := h.keep hr
  rcases perform_cases hr with hp | hp | ⟨-, hp⟩
  · rw [hp]
    exact hkeep
  · rw [hp]
    exact hkeep
  · have hq := (hkeep.finished i).onFinish (i := i) (by simp [State.finished])
    rw [hp]
    cases hfin : ((t.keep i r).finished i).onFinish i with
    | ret u =>
      rw [hfin] at hq
      exact hq
    | call u fs =>
      rw [hfin] at hq
      exact hq

lemma Queued.flush {t : State} (h : Queued t) (i : ℕ) : Queued (t.flush i).state :=
  h.perform (runs_flush _)

lemma Queued.abort {t : State} (h : Queued t) (close : Bool) : Queued (t.abort close).state := by
  unfold State.abort
  cases t.incoming with
  | nil =>
    dsimp only
    split_ifs
    · exact h
    · exact h.endSocket
  | cons i incoming =>
    exact ⟨⟨h.attached, h.bound, h.ordered, h.destroyed⟩, fun hw => (h.turn hw).imp
      fun o ho => ⟨ho.queue, ho.idle, ho.le, ho.finished, ho.wrote⟩⟩

/-- A request comes, whose response waits or gets the socket. -/
def State.accept (t : State) (r : ServerResponse) : State :=
  let u := { t with
    responses := Function.update t.responses t.count r
    count := t.count + 1
    incoming := t.incoming ++ [t.count] }
  if t.httpMessage.isSome then { u with outgoing := t.outgoing ++ [t.count] } else u.assign t.count

lemma Held.accept {t : State} (h : Held t) {r : ServerResponse} (hr : r.connection = none)
    (incoming : List ℕ) : Held { t with
      responses := Function.update t.responses t.count r
      count := t.count + 1
      incoming := incoming } where
  attached j := by
    show (Function.update t.responses t.count r j).connection.isSome = true ↔ _
    rw [Function.update_apply]
    split_ifs with hj
    · rw [hr]
      refine iff_of_false Bool.false_ne_true fun hm => ?_
      have hlt := h.bound j (List.mem_append_left _ (Option.mem_toList.mpr hm))
      exact absurd hlt (hj ▸ lt_irrefl _)
    · exact h.attached j
  bound j hj := Nat.lt_succ_of_lt (h.bound j hj)
  ordered := h.ordered
  destroyed := h.destroyed

lemma Queued.accept {t : State} (h : Queued t) {r : ServerResponse} (hr : r.connection = none) :
    Queued (t.accept r) := by
  have hheld := h.toHeld.accept hr (t.incoming ++ [t.count])
  unfold State.accept
  dsimp only
  by_cases hsome : t.httpMessage.isSome = true
  · rw [if_pos hsome]
    refine ⟨⟨hheld.attached, fun j hj => ?_, h.ordered, h.destroyed⟩, fun hw => ?_⟩
    · rw [← List.append_assoc] at hj
      rcases List.mem_append.mp hj with hj | hj
      · exact Nat.lt_succ_of_lt (h.bound j hj)
      · rw [List.mem_singleton.mp hj]
        exact Nat.lt_succ_self _
    · obtain ⟨o, ho⟩ := h.turn hw
      have hle := ho.le
      refine ⟨o, ?_, fun hm => ?_, Nat.le_succ_of_le hle, ho.finished, ho.wrote⟩
      · have hcount : t.count + 1 - o = t.count - o + 1 := by omega
        have hlast : o + 1 * (t.count - o) = t.count := by omega
        show t.httpMessage.toList ++ (t.outgoing ++ [t.count]) = List.range' o (t.count + 1 - o)
        rw [hcount, List.range'_concat, hlast, ← ho.queue, List.append_assoc]
      · have hnone : t.httpMessage = none := hm
        rw [hnone] at hsome
        cases hsome
  · rw [if_neg hsome]
    have hm : t.httpMessage = none := Option.not_isSome_iff_eq_none.mp hsome
    refine ⟨hheld.assign hm (Nat.lt_succ_self _), fun hw => ?_⟩
    obtain ⟨o, ho⟩ := h.turn hw
    have hout := ho.idle hm
    have hend : o = t.count := by
      have hlen := congrArg List.length ho.queue
      rw [hm, hout, List.length_range'] at hlen
      have hle := ho.le
      have hz : 0 = t.count - o := hlen
      omega
    refine ⟨t.count, ?_, nofun, Nat.le_succ _, hend ▸ ho.finished, hend ▸ ho.wrote⟩
    show t.count :: t.outgoing = List.range' t.count (t.count + 1 - t.count)
    rw [hout, Nat.add_sub_cancel_left]
    rfl

/-- A request is accepted, and told to go on if it asks for that. -/
lemma State.onIncoming_eq (t : State) (req : Request) (shouldKeepAlive expect check : Bool) :
    ∃ u, u = t.accept { ServerResponse.new req with shouldKeepAlive := shouldKeepAlive } ∧
      t.onIncoming req shouldKeepAlive expect check =
        if expect then
          .call (u.keep t.count (if check then { u.response t.count with expectContinue := true }
            else { u.response t.count with expectContinue := true }.writeContinue)) []
        else .call u [] :=
  ⟨_, rfl, rfl⟩

lemma Queued.onIncoming {t : State} (h : Queued t) (req : Request)
    (shouldKeepAlive expect check : Bool) :
    Queued (t.onIncoming req shouldKeepAlive expect check).state := by
  obtain ⟨u, hu, hincoming⟩ := t.onIncoming_eq req shouldKeepAlive expect check
  have hq : Queued u := hu ▸ h.accept rfl
  rw [hincoming]
  split_ifs
  · exact hq.keep (Writes.refl _).runs
  · exact hq.keep (writes_writeContinue _).runs
  · exact hq

lemma Queued.over {t : State} (h : Queued t) : Queued { t with ended := true } :=
  ⟨⟨h.attached, h.bound, h.ordered, h.destroyed⟩, fun hw => (h.turn hw).imp
    fun _ ho => ⟨ho.queue, ho.idle, ho.le, ho.finished, ho.wrote⟩⟩

lemma Queued.onend {t : State} (h : Queued t) (httpAllowHalfOpen : Bool) :
    Queued (t.onend httpAllowHalfOpen).state := by
  have hlast (i : ℕ) : Queued { t with
      ended := true
      responses := Function.update t.responses i { t.responses i with last := true } } := by
    refine ⟨⟨fun j => ?_, h.bound, h.ordered, h.destroyed⟩, fun hw => (h.turn hw).imp
      fun o ho => ⟨ho.queue, ho.idle, ho.le, ho.finished, ho.wrote⟩⟩
    show (Function.update t.responses i { t.responses i with last := true } j).connection.isSome =
      true ↔ _
    rw [Function.update_apply]
    split_ifs with hj
    · exact hj ▸ h.attached i
    · exact h.attached j
  unfold State.onend
  dsimp only
  split_ifs
  · exact h.over.abort false
  · split
    · exact hlast _
    · exact hlast _
    · exact h.over.endSocket

lemma Queued.exec {t : State} (h : Queued t) (f : Frame) : Queued (t.exec f).state := by
  cases f with
  | user => exact h
  | flush i => exact h.flush i
  | listeners => exact h
  | aborted close => exact h
  | abort close => exact h.abort close

lemma Queued.callOf {t : State} (h : Queued t) {a : Act} {r : Outcome}
    (hr : callOf t a = some r) : Queued r.state := by
  cases a with
  | call i date c =>
    unfold HttpPipeline.callOf at hr
    dsimp only at hr
    split_ifs at hr
    obtain rfl := Option.some.inj hr
    exact h.perform (runs_call date _ c)
  | endSocket =>
    obtain rfl := Option.some.inj hr
    exact h.endSocket
  | destroy =>
    obtain rfl := Option.some.inj hr
    exact h.destroy
  | room room =>
    obtain rfl := Option.some.inj hr
    exact ⟨⟨h.attached, h.bound, h.ordered, h.destroyed⟩, fun hw => (h.turn hw).imp
      fun o ho => ⟨ho.queue, ho.idle, ho.le, ho.finished, ho.wrote⟩⟩
  | _ => cases hr

lemma Queued.eventOf {t : State} (h : Queued t) {httpAllowHalfOpen : Bool} {a : Act} {r : Outcome}
    (hr : eventOf httpAllowHalfOpen t a = some r) : Queued r.state := by
  obtain ⟨req, shouldKeepAlive, expect, check, -, rfl⟩ | rfl | rfl := eventOf_cases hr
  · exact h.onIncoming req shouldKeepAlive expect check
  · exact h.onend httpAllowHalfOpen
  · exact h.over.abort true

lemma Queued.step {httpAllowHalfOpen : Bool} {m m' : System} {a : Act} (h : Queued m.st)
    (hs : step httpAllowHalfOpen m a = some m') : Queued m'.st :=
  step_keeps (I := fun t _ => Queued t) hs h (fun _ _ _ => id) (fun _ f _ h => h.exec f)
    (fun _ hr => h.callOf hr) fun _ _ hr => h.eventOf hr

lemma queued_init : Queued init.st where
  attached _ := iff_of_false Bool.false_ne_true nofun
  bound _ h := absurd h List.not_mem_nil
  ordered := ordered_nil
  destroyed h := absurd h List.not_mem_nil
  turn _ := ⟨0, rfl, fun _ => rfl, le_rfl, fun _ h => absurd h (Nat.not_lt_zero _),
    fun _ _ h => absurd h List.not_mem_nil⟩

/-- **The responses of a connection are written in order**, in every run. -/
theorem writes_in_order {httpAllowHalfOpen : Bool} {m : System}
    (h : Run (step httpAllowHalfOpen) (fun _ _ _ => True) init m) : Ordered m.st.log :=
  (h.invariant (I := fun m => Queued m.st) queued_init fun _ _ _ h hs _ => h.step hs).ordered

end NodeCore.HttpPipeline
