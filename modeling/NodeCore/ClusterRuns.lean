import NodeCore.ClusterConserve

/-!
The runs of a cluster in which no connection gets lost.
-/

namespace NodeCore.Cluster

open NodeCore.Encoding NodeCore.Reentrant

/-! ### Steps of the workers -/

namespace Books

variable {s : State} {hand : List ℕ}

/-- Servers of workers are given a connection. -/
lemma take (b : Books s hand) (hs : List ℕ) :
    Books { s with taken := s.taken ++ hs } hand := by
  refine ⟨b.known, b.self, b.old, b.count, b.removed, b.bound, b.connected, b.newconn,
    fun hm => ?_, fun h hh => List.mem_append_left _ (b.served h hh)⟩
  obtain ⟨hq, hc⟩ := b.ack hm
  exact ⟨hq, fun hacc c hc' => List.mem_append_left _ (hc hacc c hc')⟩

lemma report (b : Books s hand) (w : ℕ) {m : ToMaster} (hm : ∀ q accepted, m = .ack q accepted →
    q < s.seq ∧ (accepted = true → ∀ c, (q, c) ∈ s.callbacks → c.handle ∈ s.taken)) :
    Books (s.report w m) hand := by
  unfold State.report
  dsimp only
  split_ifs with hopen
  · set p : Worker := { s.workers w with toMaster := (s.workers w).toMaster ++ [m] } with hp
    have hsame : (s.setWorker w p).workers w = p := Function.update_self ..
    have hne {v : ℕ} (hv : v ≠ w) : (s.setWorker w p).workers v = s.workers v :=
      Function.update_of_ne hv ..
    refine ⟨b.known, b.self, b.old, b.count, b.removed, b.bound, fun c hc => ?_,
      fun {v q key h} hmem => ?_, fun {v q accepted} hmem => ?_, b.served⟩
    · unfold State.Open
      rcases eq_or_ne c.2.worker w with hv | hv
      · rw [hv, hsame]
        exact hopen
      · rw [hne hv]
        exact b.connected c hc
    · rcases eq_or_ne v w with rfl | hv
      · rw [hsame] at hmem
        exact b.newconn hmem
      · rw [hne hv] at hmem
        exact b.newconn hmem
    · rcases eq_or_ne v w with rfl | hv
      · rw [hsame] at hmem
        rcases List.mem_append.mp hmem with hmem | hmem
        · exact b.ack hmem
        · exact hm q accepted (List.mem_singleton.mp hmem).symm
      · rw [hne hv] at hmem
        exact b.ack hmem
  · exact b

/-- A worker handles a message that it has been sent. -/
lemma receive (b : Books s hand) (w : ℕ) {m : ToWorker} (hm : ∀ q key h, m = .newconn q key h →
    q < s.seq ∧ ∀ c, (q, c) ∈ s.callbacks → c.handle = h) : Books (s.receive w m) hand := by
  cases m with
  | newconn q key h =>
    obtain ⟨hq, hc⟩ := hm q key h rfl
    set accepted := (s.workers w).servers.any (·.1 = key) with hacc
    have htake : Books { s with taken := if accepted then s.taken ++ [h] else s.taken } hand := by
      split_ifs
      · exact b.take [h]
      · exact b
    refine htake.report w fun q' accepted' heq => ?_
    cases heq
    refine ⟨hq, fun haccepted c hc' => ?_⟩
    have hpos : accepted = true := haccepted
    rw [hc c hc']
    show h ∈ if accepted = true then s.taken ++ [h] else s.taken
    rw [if_pos hpos]
    exact List.mem_append_right _ (List.mem_singleton_self h)
  | reply key shared errno =>
    unfold State.receive
    dsimp only
    split_ifs with h
    · exact b
    · exact b.setWorker (fun hclosed c hc hw => hclosed (hw ▸ b.connected c hc))
        (List.Subset.refl _) (List.Subset.refl _)

lemma closeServer (b : Books s hand) (w : ℕ) (key : Str) : Books (s.closeServer w key) hand := by
  unfold State.closeServer
  dsimp only
  split
  · exact b
  · have hset : Books (s.setWorker w { s.workers w with
        servers := (s.workers w).servers.filter (·.1 ≠ key) }) hand :=
      b.setWorker (fun hclosed c hc hw => hclosed (hw ▸ b.connected c hc))
        (List.Subset.refl _) (List.Subset.refl _)
    split_ifs
    · exact hset
    · exact hset.report w fun _ _ h => nomatch h

/-! ### Events of the servers -/

/-- Nothing waits while the workers that have been added are answered. -/
lemma doneAll {i : ℕ} {key : Str} {ws : List ℕ} (b : Books s hand) {r : RoundRobinHandle}
    (hr : s.objects i = .roundRobin r) (hnil : r.handles = []) :
    Books (State.doneAll i key ws s) hand := by
  induction ws generalizing s r with
  | nil => exact b
  | cons w ws ih =>
    have hdone : Books (s.done i key w) hand := b.done key fun r' hr' hne => by
      rw [hr] at hr'
      cases hr'
      exact absurd hnil hne
    have hobj : ∃ r', (s.done i key w).objects i = .roundRobin r' ∧ r'.handles = [] := by
      have hsend : (s.send w (.reply key false false)).objects i = .roundRobin r := hr
      unfold State.done State.handoff
      rw [hsend]
      dsimp only
      split_ifs
      · rw [hnil]
        exact ⟨_, State.setObj_same i _, rfl⟩
      · exact ⟨r, hr, hnil⟩
    obtain ⟨r', hr', hnil'⟩ := hobj
    exact ih hdone hr' hnil'

lemma failAll {key : Str} {ws : List ℕ} (b : Books s hand) :
    Books (State.failAll key ws s) hand := by
  induction ws generalizing s with
  | nil => exact b
  | cons w ws ih => exact ih ((b.delete key).reply w key false true)

end Books

/-! ### Runs -/

/-- The worker that a connection would go to has an open channel. -/
def Ready (s : State) (i : ℕ) : Prop :=
  ∀ r, s.objects i = .roundRobin r → ∀ w ∈ r.free.head?, w ∈ r.all → s.Open w

/-- The steps with which no connection gets lost. -/
def Safe (s : State) : Act → Prop
  | .hangup w _ _ => ∀ p ∈ s.callbacks, p.2.worker ≠ w
  | .deliver w _ =>
    (∀ key shared, (s.workers w).toMaster.head? = some (.queryServer key shared) →
      ∀ i, s.lookup key = some i → ∀ r, s.objects i = .roundRobin r → r.handles ≠ [] → s.Open w) ∧
    ∀ q, (s.workers w).toMaster.head? = some (.ack q false) →
      ∀ p, s.callbacks.find? (·.1 = q) = some p →
        (∀ r, s.objects p.2.self = .roundRobin r → r.handle = true) ∧ Ready s p.2.self
  | .connection i => Ready s i
  | _ => True

namespace Books

variable {s t : State}

lemma onmessage (b : Books s []) {w : ℕ} (errno : Bool) {m : ToMaster}
    (hquery : ∀ key shared, m = .queryServer key shared → ∀ i, s.lookup key = some i →
      ∀ r, s.objects i = .roundRobin r → r.handles ≠ [] → s.Open w)
    (htaken : ∀ q, m = .ack q true → ∀ c, (q, c) ∈ s.callbacks → c.handle ∈ s.taken)
    (hback : ∀ q, m = .ack q false → ∀ p, s.callbacks.find? (·.1 = q) = some p →
      (∀ r, s.objects p.2.self = .roundRobin r → r.handle = true) ∧ Ready s p.2.self) :
    Books (s.onmessage w errno m).1 [] := by
  cases m with
  | queryServer key shared =>
    refine (b.object key shared errno).add key fun r hr hne => ?_
    unfold State.object at hr ⊢
    split at hr
    · next i hi => exact hquery key shared rfl i hi r hr hne
    · -- the object is new
      have ho := (State.setObj_same (s := s) s.nextObject _).symm.trans hr
      split_ifs at ho
      cases ho
      exact absurd rfl hne
  | ack q accepted =>
    refine b.replied q accepted (fun hacc => ?_) fun hacc p hp r hr => ?_
    · exact htaken q (by rw [hacc])
    · obtain ⟨hlive, hready⟩ := hback q (by rw [hacc]) p hp
      exact ⟨hlive r hr, hready r hr⟩
  | close key => exact b.close w key

lemma deliver (b : Books s []) {w : ℕ} {errno : Bool} (hsafe : Safe s (.deliver w errno))
    (h : deliver s w errno = some t) : Books t [] := by
  unfold Cluster.deliver at h
  dsimp only at h
  split at h
  · cases h
  · next m ms hm =>
    cases h
    obtain ⟨hquery, hback⟩ := hsafe
    rw [hm] at hquery hback
    set u := s.setWorker w { s.workers w with toMaster := ms } with hu
    have hchannel (v : ℕ) : (u.workers v).channel = (s.workers v).channel := by
      rcases eq_or_ne v w with rfl | hv
      · rw [hu]
        unfold State.setWorker
        dsimp only
        rw [Function.update_self]
      · exact congrArg Worker.channel (Function.update_of_ne hv ..)
    have hu : Books u [] := b.setWorker (fun hclosed c hc hw => hclosed (hw ▸ b.connected c hc))
      (List.Subset.refl _) (by rw [hm]; exact List.subset_cons_self m ms)
    have hready {i : ℕ} (hr : Ready s i) : Ready u i := fun r hr' v hv hall =>
      (hchannel v).trans (hr r hr' v hv hall)
    have hmsg : Books (u.onmessage w errno m).1 [] := by
      refine hu.onmessage errno (fun key shared hmk i hi r hr hne => ?_) (fun q hmq => ?_)
        fun q hmq p hp => ?_
      · exact (hchannel w).trans (hquery key shared (by rw [hmk]; rfl) i hi r hr hne)
      · have hack : .ack q true ∈ (s.workers w).toMaster := by
          rw [hm, hmq]
          exact List.mem_cons_self
        exact (b.ack hack).2 rfl
      · obtain ⟨hlive, hr⟩ := hback q (by rw [hmq]; rfl) p hp
        exact ⟨hlive, hready hr⟩
    split_ifs with hclosing
    · -- no connection is on its way to a worker that is leaving
      refine hmsg.disconnect fun c hc hw => ?_
      have hopen := hmsg.connected c hc
      unfold State.Open at hopen
      rw [hw, State.onmessage_channel, hchannel] at hopen
      rw [hopen] at hclosing
      cases hclosing
    · exact hmsg

lemma hangup (b : Books s []) {w : ℕ} {buffering : Bool} {read : ℕ}
    (hw : ∀ p ∈ s.callbacks, p.2.worker ≠ w) (h : hangup s w buffering read = some t) :
    Books t [] := by
  unfold Cluster.hangup at h
  dsimp only at h
  split_ifs at h
  · cases h
    exact b.setWorker (fun _ => hw) (List.Subset.refl _) (List.take_subset _ _)
  · cases h
    have hleft : Books (s.setWorker w { s.workers w with
        toMaster := (s.workers w).toMaster.take read }) [] :=
      b.setWorker (fun _ => hw) (List.Subset.refl _) (List.take_subset _ _)
    exact hleft.disconnect hw

lemma listening (b : Books s []) {i : ℕ} (h : s.listening i = some t) : Books t [] := by
  unfold State.listening at h
  split at h
  · cases h
  · next r hr =>
    split_ifs at h with hbinding
    cases h
    have hnil : r.handles = [] := b.removed hr (b.bound hr (by rw [hbinding]; nofun))
    have hin : Books (s.setObj i (.roundRobin
        { r with handle := true, server := .null, waiting := [] })) [] :=
      b.setObj hr (fun hf => nomatch hf) (fun hs => absurd rfl hs) fun _ => rfl
    exact hin.doneAll (State.setObj_same i _) hnil

lemma error (b : Books s []) {i : ℕ} (h : s.error i = some t) : Books t [] := by
  unfold State.error at h
  split at h
  · cases h
  · next r hr =>
    split_ifs at h with hbinding
    cases h
    have hhandle : r.handle = false := b.bound hr (by rw [hbinding]; nofun)
    have hnil : r.handles = [] := b.removed hr hhandle
    have hin : Books (s.setObj i (.roundRobin { r with server := .failed, waiting := [] })) [] :=
      b.setObj hr (fun _ => hnil) (fun _ => hhandle) fun _ => rfl
    exact hin.failAll

/-- A connection comes. -/
lemma connection (b : Books s []) {i : ℕ} (hready : Ready s i) (h : s.connection i = some t) :
    Books t [] := by
  unfold State.connection at h
  split at h
  · cases h
  · next r hr =>
    split_ifs at h with hlive
    cases h
    have hin : Books { s with connections := s.connections + 1 } [s.connections] := by
      refine ⟨b.known, b.self, b.old, fun h => ?_, b.removed, b.bound, b.connected, b.newconn,
        b.ack, b.served⟩
      have hcount := b.count h
      rw [List.count_nil] at hcount
      show s.waiting h + s.sent h + s.accepted.count h + s.closed.count h + _ =
        if h < s.connections + 1 then 1 else 0
      rw [List.count_singleton]
      simp only [beq_iff_eq]
      split_ifs at hcount ⊢ <;> omega
    exact hin.distribute hr hlive (hready r hr)

/-- One step. -/
lemma step {a : Act} (b : Books s []) (hsafe : Safe s a) (h : step s a = some t) :
    Books t [] := by
  cases a with
  | fork =>
    cases h
    have hnew : Books (s.setWorker s.ids ⟨.open, [], [], []⟩) [] :=
      b.setWorker (fun h => absurd rfl h) (List.nil_subset _) (List.nil_subset _)
    exact ⟨hnew.known, hnew.self, hnew.old, hnew.count, hnew.removed, hnew.bound, hnew.connected,
      hnew.newconn, hnew.ack, hnew.served⟩
  | listen w key shared =>
    cases h
    exact b.report w fun _ _ h => nomatch h
  | closeServer w key =>
    cases h
    exact b.closeServer w key
  | receive w =>
    unfold Cluster.step at h
    dsimp only at h
    split at h
    · cases h
    · next m ms hm =>
      cases h
      have hin : Books (s.setWorker w { s.workers w with toWorker := ms }) [] :=
        b.setWorker (fun hclosed c hc hw => hclosed (hw ▸ b.connected c hc))
          (by rw [hm]; exact List.subset_cons_self m ms) (List.Subset.refl _)
      refine hin.receive w fun q key h hmk => ?_
      have hmem : .newconn q key h ∈ (s.workers w).toWorker := by
        rw [hm, hmk]
        exact List.mem_cons_self
      exact b.newconn hmem
  | deliver w errno => exact b.deliver hsafe h
  | hangup w buffering read => exact b.hangup hsafe h
  | listening i => exact b.listening h
  | error i => exact b.error h
  | connection i => exact b.connection hsafe h

end Books

/-- The connections in the queues of the handles that listen. -/
def State.queued (s : State) : List ℕ :=
  (List.range s.nextObject).flatMap fun i =>
    match s.objects i with
    | .shared _ => []
    | .roundRobin r => if r.handle then r.handles else []

/-- The connections that have been sent to workers whose channel is open. -/
def State.inFlight (s : State) : List ℕ :=
  (s.callbacks.filter fun p => (s.workers p.2.worker).channel = .open).map (·.2.handle)

lemma Books.count_queued {s : State} (b : Books s []) (h : ℕ) : s.queued.count h = s.waiting h := by
  have hqueue (i : ℕ) : (match s.objects i with
      | .shared _ => []
      | .roundRobin r => if r.handle then r.handles else []) = (s.objects i).handles := by
    split
    · next ho => rw [ho, Obj.handles]
    · next r hr =>
      rw [hr, Obj.handles]
      split_ifs with hlive
      · rfl
      · exact (b.removed hr (by simpa using hlive)).symm
  unfold State.queued State.waiting
  simp only [hqueue]
  induction s.nextObject with
  | zero => rfl
  | succ n ih =>
    rw [List.range_succ, List.flatMap_append, List.count_append, ih, Finset.sum_range_succ,
      List.flatMap_singleton]

/-- **The connections of a cluster.** In every run of safe steps, each connection that has come is
once in the queue of a handle that listens, in flight to a worker that is connected, accepted, or
closed; nothing is left in the queue of a handle that has been removed or in flight to a worker
that has gone; and what counts as accepted has been given to a server. -/
theorem connections_kept {s : State} (h : Run step (fun s a _ => Safe s a) init s) :
    (∀ c < s.connections, (s.queued ++ s.inFlight ++ s.accepted ++ s.closed).count c = 1) ∧
      (∀ i r, s.objects i = .roundRobin r → r.handle = false → r.handles = []) ∧
      (∀ p ∈ s.callbacks, s.Open p.2.worker) ∧ ∀ c ∈ s.accepted, c ∈ s.taken := by
  have b : Books s [] :=
    h.invariant (I := fun s => Books s []) .init fun n a n' b hs hsafe => b.step hsafe hs
  have hflight : s.inFlight = s.callbacks.map (·.2.handle) := by
    unfold State.inFlight
    rw [List.filter_eq_self.mpr fun p hp => ?_]
    have hopen : (s.workers p.2.worker).channel = .open := b.connected p hp
    exact decide_eq_true hopen
  refine ⟨fun c hc => ?_, fun i r hr hf => b.removed hr hf, b.connected, b.served⟩
  have hcount := b.count c
  have hsent : s.inFlight.count c = s.sent c := by
    rw [hflight]
    rfl
  rw [if_pos hc, List.count_nil] at hcount
  rw [List.count_append, List.count_append, List.count_append, b.count_queued, hsent]
  omega

/-- A worker listens and is sent a connection. -/
def served : List Act :=
  [.fork, .listen 0 [56] false, .deliver 0 false, .listening 0, .receive 0, .connection 0,
    .receive 0, .deliver 0 false]

theorem connections_kept_served :
    ∃ s, Run step (fun s a _ => Safe s a) init s ∧ s.accepted = [0] ∧ 0 ∈ s.taken := by
  have hrun : ∃ s, Run step (fun s a _ => Safe s a) init s ∧ s.accepted = [0] := by
    exact ⟨_, Run.of_path .refl (w := served)
      ⟨_, rfl, trivial, _, rfl, trivial,
        _, rfl, ⟨fun _ _ h i hi => (by cases h; cases hi), fun _ h => (by cases h)⟩,
        _, rfl, trivial, _, rfl, trivial,
        _, rfl, fun r hr w hw _ => by cases hr; cases hw; rfl,
        _, rfl, trivial,
        _, rfl, ⟨fun _ _ h => (by cases h), fun _ h => (by cases h)⟩, rfl⟩, rfl⟩
  obtain ⟨s, hs, haccepted⟩ := hrun
  refine ⟨s, hs, haccepted, (connections_kept hs).2.2.2 0 ?_⟩
  rw [haccepted]
  exact List.mem_singleton_self 0

/-- A worker closes its server while a connection is on its way, and refuses it. -/
def refused : List Act :=
  [.fork, .listen 0 [56] false, .deliver 0 false, .listening 0, .receive 0, .connection 0,
    .closeServer 0 [56], .deliver 0 false, .receive 0, .deliver 0 false]

/-- A worker goes while a connection is on its way. -/
def gone : List Act :=
  [.fork, .listen 0 [56] false, .deliver 0 false, .listening 0, .receive 0, .connection 0,
    .hangup 0 false 0]

theorem connection_lost :
    (∃ s, Run step (fun _ _ _ => True) init s ∧ s.connections = 1 ∧
      (s.queued ++ s.inFlight ++ s.accepted ++ s.closed).count 0 = 0 ∧
      ∃ r, s.objects 0 = .roundRobin r ∧ r.handle = false ∧ r.handles = [0]) ∧
    ∃ s, Run step (fun _ _ _ => True) init s ∧ s.connections = 1 ∧
      (s.queued ++ s.inFlight ++ s.accepted ++ s.closed).count 0 = 0 ∧
      s.callbacks.map (·.2.handle) = [0] := by
  refine ⟨⟨_, Run.of_path .refl (w := refused)
    ⟨_, rfl, trivial, _, rfl, trivial, _, rfl, trivial, _, rfl, trivial, _, rfl, trivial,
      _, rfl, trivial, _, rfl, trivial, _, rfl, trivial, _, rfl, trivial, _, rfl, trivial, rfl⟩,
    rfl, ?_, _, rfl, rfl, rfl⟩, ⟨_, Run.of_path .refl (w := gone)
    ⟨_, rfl, trivial, _, rfl, trivial, _, rfl, trivial, _, rfl, trivial, _, rfl, trivial,
      _, rfl, trivial, _, rfl, trivial, rfl⟩, rfl, ?_, rfl⟩⟩
  · rfl
  · rfl

end NodeCore.Cluster
