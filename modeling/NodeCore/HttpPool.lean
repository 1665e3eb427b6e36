import NodeCore.HttpPoolCalls

/-!
The places of the requests of an agent: what is the case between any two of its steps, and what
is in its hands while it makes one.
-/

namespace NodeCore.HttpAgent

open NodeCore.Encoding NodeCore.HttpOutgoing

/-! ### Places -/

/-- The request that a callback is about. -/
def Tick.request : Tick → Option ℕ
  | .onSocket i _ => some i
  | .free _ => none

/-- The socket that a callback is about. -/
def Tick.socket : Tick → ℕ
  | .onSocket _ j => j
  | .free j => j

namespace Agent

/-- In how many places a request is: it waits, it is about to be given a socket, or it has one. -/
def places (s : Agent) (i : ℕ) : ℕ :=
  (s.requests (s.request i).name).count i + (s.ticks.filterMap Tick.request).count i +
    (s.request i).socket.isSome.toNat

lemma places_ticks (s : Agent) (ticks : List Tick) (i : ℕ) : places { s with ticks := ticks } i =
    (s.requests (s.request i).name).count i + (ticks.filterMap Tick.request).count i +
      (s.request i).socket.isSome.toNat := rfl

/-- How often a socket is about to be given to a request. -/
def offers (s : Agent) (j : ℕ) : ℕ := (s.ticks.map Tick.socket).count j

/-- The request of a socket has not had its response. -/
def busy (s : Agent) (j : ℕ) : Bool :=
  (s.socket j).httpMessage.any fun i => !(s.request i).res || (s.request i).responding

end Agent

/-- Whoever has the socket of a callback is complete; a socket that is said to be free may have been
destroyed instead. -/
def Ready (s : Agent) (t : Tick) : Prop :=
  ∀ i, (s.socket t.socket).httpMessage = some i →
    (s.request i).complete = true ∨ t.request = none ∧ (s.socket t.socket).destroyed = true

/-- A request is in one place, `is` being in the hands of the agent, and a socket is with one
request or on its way to one, `js` being in the hands of the agent. Whoever has had it is
complete. -/
structure Placed (is js : List ℕ) (s : Agent) : Prop where
  place : ∀ i, s.places i + is.count i = if i < s.nextRequest then 1 else 0
  name : ∀ n, ∀ i ∈ s.requests n, (s.request i).name = n
  offer : ∀ j, s.offers j + (s.busy j).toNat + js.count j ≤ if j < s.nextSocket then 1 else 0
  holder : ∀ j, (s.socket j).httpMessage = (s.socket j).holders.getLast?
  seat : ∀ j, ∀ i ∈ (s.socket j).holders, (s.request i).socket = some j
  nodup : ∀ j, (s.socket j).holders.Nodup
  responding : ∀ i, (s.request i).responding = true → (s.request i).res = true ∧
    ∃ j, (s.request i).socket = some j ∧ (s.socket j).httpMessage = some i
  log : ∀ j, Blocks (s.socket j).holders (s.socket j).log
  earlier : ∀ j, ∀ i ∈ (s.socket j).holders.dropLast, (s.request i).complete = true
  ready : ∀ t ∈ s.ticks, Ready s t

/-- A request that has been ended, with nothing left and an open socket, is complete. -/
def Whole (s : Agent) (i : ℕ) : Prop :=
  ∀ j, (s.socket j).httpMessage = some i → (s.socket j).destroyed = false →
    (s.request i).finished = true → (s.request i).output = [] → (s.request i).complete = true

structure Served (is js : List ℕ) (s : Agent) : Prop extends Placed is js s where
  whole : ∀ i, Whole s i

/-- The places are the same. -/
structure Kept (s t : Agent) : Prop where
  requests : t.requests = s.requests
  ticks : t.ticks = s.ticks
  nextRequest : t.nextRequest = s.nextRequest
  nextSocket : t.nextSocket = s.nextSocket
  name : ∀ i, (t.request i).name = (s.request i).name
  socket : ∀ i, (t.request i).socket = (s.request i).socket
  complete : ∀ i, (s.request i).complete = true → (t.request i).complete = true
  httpMessage : ∀ j, (t.socket j).httpMessage = (s.socket j).httpMessage
  holders : ∀ j, (t.socket j).holders = (s.socket j).holders
  destroyed : ∀ j, (s.socket j).destroyed = true → (t.socket j).destroyed = true
  busy : ∀ j, t.busy j = true → s.busy j = true
  responding : ∀ i, (t.request i).responding = true → (t.request i).res = true ∧
    ∃ j, (t.request i).socket = some j ∧ (t.socket j).httpMessage = some i
  log : ∀ j, Blocks (t.socket j).holders (t.socket j).log

namespace Placed

variable {is js : List ℕ} {s : Agent}

lemma of_kept (h : Placed is js s) {t : Agent} (hk : Kept s t) : Placed is js t where
  place i := by
    have hplaces : t.places i = s.places i := by
      unfold Agent.places
      rw [hk.requests, hk.ticks, hk.name, hk.socket]
    rw [hplaces, hk.nextRequest]
    exact h.place i
  name n i hi := by
    rw [hk.requests] at hi
    rw [hk.name]
    exact h.name n i hi
  offer j := by
    have hoffers : t.offers j = s.offers j := by
      unfold Agent.offers
      rw [hk.ticks]
    have hbusy : (t.busy j).toNat ≤ (s.busy j).toNat := Bool.toNat_le_toNat (hk.busy j)
    rw [hoffers, hk.nextSocket]
    have := h.offer j
    omega
  holder j := by rw [hk.httpMessage, hk.holders, h.holder]
  seat j i hi := by
    rw [hk.holders] at hi
    rw [hk.socket]
    exact h.seat j i hi
  nodup j := by
    rw [hk.holders]
    exact h.nodup j
  responding := hk.responding
  log := hk.log
  earlier j i hi := by
    rw [hk.holders] at hi
    exact hk.complete i (h.earlier j i hi)
  ready t' ht' i hi := by
    rw [hk.ticks] at ht'
    rw [hk.httpMessage] at hi
    exact (h.ready t' ht' i hi).imp (hk.complete i) fun hd => ⟨hd.1, hk.destroyed _ hd.2⟩

/-- A change to a socket that keeps who has it. -/
lemma setSocket (h : Placed is js s) {j : ℕ} {k : Socket}
    (hmessage : k.httpMessage = (s.socket j).httpMessage)
    (hholders : k.holders = (s.socket j).holders) (hlog : Blocks (s.socket j).holders k.log)
    (hdestroyed : (s.socket j).destroyed = true → k.destroyed = true) :
    Placed is js (s.setSocket j k) ∧ ∀ i, Whole s i → Whole (s.setSocket j k) i := by
  have hsocket (l : ℕ) : ((s.setSocket j k).socket l).httpMessage = (s.socket l).httpMessage ∧
      ((s.setSocket j k).socket l).holders = (s.socket l).holders ∧
      Blocks (s.socket l).holders ((s.setSocket j k).socket l).log ∧
      ((s.socket l).destroyed = true → ((s.setSocket j k).socket l).destroyed = true) := by
    rcases eq_or_ne l j with rfl | hne
    · have hself : (s.setSocket l k).socket l = k := Function.update_self ..
      rw [hself]
      exact ⟨hmessage, hholders, hlog, hdestroyed⟩
    · have hother : (s.setSocket j k).socket l = s.socket l := Function.update_of_ne hne ..
      rw [hother]
      exact ⟨rfl, rfl, h.log l, id⟩
  have hbusy (l : ℕ) : (s.setSocket j k).busy l = s.busy l := by
    unfold Agent.busy
    rw [(hsocket l).1]
    rfl
  refine ⟨h.of_kept ⟨rfl, rfl, rfl, rfl, fun _ => rfl, fun _ => rfl, fun _ => id,
    fun l => (hsocket l).1, fun l => (hsocket l).2.1, fun l => (hsocket l).2.2.2,
    fun l hl => hbusy l ▸ hl, fun i hi => ?_, fun l => ?_⟩, fun i hi l hm hl => ?_⟩
  · obtain ⟨hres, l, hl, hi⟩ := h.responding i hi
    exact ⟨hres, l, hl, (hsocket l).1.trans hi⟩
  · rw [(hsocket l).2.1]
    exact (hsocket l).2.2.1
  · refine hi l ((hsocket l).1.symm.trans hm) ?_
    rw [Bool.eq_false_iff] at hl ⊢
    exact fun hd => hl ((hsocket l).2.2.2 hd)

/-- A change to a request that keeps where it is. -/
lemma setRequest (h : Placed is js s) {i : ℕ} {r : ClientRequest}
    (hname : r.name = (s.request i).name) (hsocket : r.socket = (s.request i).socket)
    (hcomplete : (s.request i).complete = true → r.complete = true)
    (hres : (s.request i).res = true → r.res = true)
    (hresponding : r.responding = true → (s.request i).responding = true ∨
      (s.request i).res = false ∧ r.res = true ∧
        ∃ j, (s.request i).socket = some j ∧ (s.socket j).httpMessage = some i) :
    Placed is js (s.setRequest i r) := by
  have hself : (s.setRequest i r).request i = r := Function.update_self ..
  have hother {l : ℕ} (hne : l ≠ i) : (s.setRequest i r).request l = s.request l :=
    Function.update_of_ne hne ..
  refine h.of_kept ⟨rfl, rfl, rfl, rfl, fun l => ?_, fun l => ?_, fun l hl => ?_, fun _ => rfl,
    fun _ => rfl, fun _ => id, fun j hj => ?_, fun l hl => ?_, h.log⟩
  · rcases eq_or_ne l i with rfl | hne
    · rw [hself, hname]
    · rw [hother hne]
  · rcases eq_or_ne l i with rfl | hne
    · rw [hself, hsocket]
    · rw [hother hne]
  · rcases eq_or_ne l i with rfl | hne
    · rw [hself]
      exact hcomplete hl
    · rwa [hother hne]
  · unfold Agent.busy at hj ⊢
    obtain ⟨l, hl, hb⟩ := Option.any_eq_true _ _ |>.mp hj
    refine Option.any_eq_true _ _ |>.mpr ⟨l, hl, ?_⟩
    rcases eq_or_ne l i with rfl | hne
    · rw [hself] at hb
      rw [Bool.or_eq_true] at hb ⊢
      rcases hb with hb | hb
      · left
        rw [Bool.not_eq_true', Bool.eq_false_iff] at hb ⊢
        exact fun hr => hb (hres hr)
      · rcases hresponding hb with hb | ⟨hb, -⟩
        · exact .inr hb
        · exact .inl (by rw [hb]; rfl)
    · rwa [hother hne] at hb
  · rcases eq_or_ne l i with rfl | hne
    · rw [hself] at hl ⊢
      rw [hsocket]
      rcases hresponding hl with hl | ⟨-, hl⟩
      · exact ⟨hres (h.responding l hl).1, (h.responding l hl).2⟩
      · exact hl
    · rw [hother hne] at hl ⊢
      exact h.responding l hl

lemma whole_setRequest {i : ℕ} {r : ClientRequest} (hothers : ∀ l, l ≠ i → Whole s l)
    (hwhole : ∀ j, (s.socket j).httpMessage = some i → (s.socket j).destroyed = false →
      r.finished = true → r.output = [] → r.complete = true) (l : ℕ) :
    Whole (s.setRequest i r) l := by
  intro j hm hd
  rcases eq_or_ne l i with rfl | hne
  · have hself : (s.setRequest l r).request l = r := Function.update_self ..
    rw [hself]
    exact hwhole j hm hd
  · have hother : (s.setRequest i r).request l = s.request l := Function.update_of_ne hne ..
    rw [hother]
    exact hothers l hne j hm hd

/-- The last request of a socket. -/
lemma last (h : Placed is js s) {i j : ℕ} (hm : (s.socket j).httpMessage = some i) :
    ∃ hs, (s.socket j).holders = hs ++ [i] ∧ i ∉ hs ∧ (s.request i).socket = some j := by
  rw [h.holder] at hm
  obtain ⟨hs, hhs⟩ := List.getLast?_eq_some_iff.mp hm
  have hnodup := h.nodup j
  rw [hhs, List.nodup_append] at hnodup
  refine ⟨hs, hhs, fun hi => ?_, h.seat j i (by rw [hhs]; simp)⟩
  exact hnodup.2.2 i hi i (List.mem_singleton_self i) rfl

/-- A call of a request that writes only where it may. -/
lemma call (h : Placed is js s) {i : ℕ} (hothers : ∀ l, l ≠ i → Whole s l)
    {f : ClientRequest → ClientRequest} (hf : Frame f)
    (hmine : ∀ j, (s.request i).socket = some j → (s.socket j).httpMessage ≠ some i →
      ∀ r : ClientRequest, Away r.toOutgoingMessage → Away (f r).toOutgoingMessage) :
    Served is js (s.call i f) := by
  unfold Agent.call
  dsimp only
  set r := f { s.request i with connection := s.view i } with hr
  have hview {j : ℕ} (hj : (s.request i).socket = some j) : s.view i =
      some ⟨(s.socket j).httpMessage = some i, (s.socket j).writable, (s.socket j).destroyed, 0,
        (s.socket j).room, []⟩ := by
    unfold Agent.view
    rw [hj]
    rfl
  set r' : ClientRequest := { r with
    connection := none
    complete := r.complete || (r.finished && r.output = [] &&
      (s.view i).any fun c => c.mine && !c.destroyed) } with hr'
  have hrequest : Placed is js (s.setRequest i r') := by
    refine h.setRequest (hf.name _) (hf.socket _) (fun hc => ?_) (fun hres => ?_)
      fun hresp => .inl ?_
    · rw [hr']
      dsimp only
      rw [hr, hf.complete]
      exact Bool.or_eq_true _ _ ▸ .inl hc
    · exact (hf.res _).trans hres
    · exact (hf.responding { s.request i with connection := s.view i }).symm.trans hresp
  have hwhole : ∀ l, Whole (s.setRequest i r') l := by
    refine whole_setRequest hothers fun j hm hd hfin hout => ?_
    obtain ⟨-, -, -, hj⟩ := h.last hm
    have hfin' : r.finished = true := hfin
    have hout' : r.output = [] := hout
    rw [hr']
    dsimp only
    rw [hview hj, hfin', hout', hm, hd]
    simp
  cases hj : (s.request i).socket with
  | none => exact ⟨hrequest, hwhole⟩
  | some j =>
    have hlog : Blocks (s.socket j).holders
        ((s.socket j).log ++ ((r.connection.map (·.written)).getD []).map fun e => (i, e)) := by
      by_cases hm : (s.socket j).httpMessage = some i
      · obtain ⟨hs, hholders, hi, -⟩ := h.last hm
        have hlog := h.log j
        rw [hholders] at hlog ⊢
        exact hlog.append hi _
      · have haway : Away r.toOutgoingMessage := by
          refine hmine j hj hm _ fun c hc => ?_
          have hc : s.view i = some c := hc
          rw [hview hj] at hc
          obtain rfl := Option.some.inj hc
          exact ⟨decide_eq_false hm, rfl⟩
        have hnone : (r.connection.map (·.written)).getD [] = [] := by
          cases hc : r.connection with
          | none => rfl
          | some c => exact (haway c hc).2
        rw [hnone, List.map_nil, List.append_nil]
        exact h.log j
    have hsocket := hrequest.setSocket (j := j) (k := { s.socket j with
      log := (s.socket j).log ++ ((r.connection.map (·.written)).getD []).map fun e => (i, e) })
      rfl rfl hlog id
    exact ⟨hsocket.1, fun l => hsocket.2 l (hwhole l)⟩

end Placed

namespace Served

variable {is js : List ℕ} {s : Agent}

lemma setSocket (h : Served is js s) {j : ℕ} {k : Socket}
    (hmessage : k.httpMessage = (s.socket j).httpMessage)
    (hholders : k.holders = (s.socket j).holders) (hlog : k.log = (s.socket j).log)
    (hdestroyed : (s.socket j).destroyed = true → k.destroyed = true) :
    Served is js (s.setSocket j k) := by
  have hsocket := h.toPlaced.setSocket hmessage hholders (hlog ▸ h.log j) hdestroyed
  exact ⟨hsocket.1, fun i => hsocket.2 i (h.whole i)⟩

lemma method (h : Served is js s) {i : ℕ} {f : ClientRequest → ClientRequest} (hf : Method f) :
    Served is js (s.call i f) :=
  h.toPlaced.call (fun l _ => h.whole l) hf.toFrame fun _ _ _ => hf.away

/-! ### Hands -/

/-- A socket that is not given to a request after all. -/
lemma drop (h : Served is js s) : Served is [] s := by
  refine ⟨{ h.toPlaced with offer := fun j => ?_ }, h.whole⟩
  have hoffer := h.offer j
  rw [List.count_nil]
  omega

/-- What is the case of every socket that is in the hands of the agent. -/
lemma in_hand {j : ℕ} (h : Served is [j] s) :
    s.offers j = 0 ∧ s.busy j = false ∧ j < s.nextSocket := by
  have hoffer := h.offer j
  rw [List.count_singleton_self] at hoffer
  split_ifs at hoffer with hlt
  · cases hbusy : s.busy j with
    | false => exact ⟨by omega, rfl, hlt⟩
    | true =>
      rw [hbusy, Bool.toNat_true] at hoffer
      omega
  · omega

/-- A socket that has not been made. -/
lemma unmade (h : Served is js s) : s.offers s.nextSocket = 0 ∧ js.count s.nextSocket = 0 ∧
    ∀ i, (s.socket s.nextSocket).httpMessage = some i → (s.request i).responding = false := by
  have hoffer := h.offer s.nextSocket
  rw [if_neg (Nat.lt_irrefl _)] at hoffer
  refine ⟨by omega, by omega, fun i hi => ?_⟩
  have hbusy : s.busy s.nextSocket = false := by
    rw [← Bool.toNat_eq_zero]
    omega
  unfold Agent.busy at hbusy
  rw [hi, Option.any_some, Bool.or_eq_false_iff] at hbusy
  exact hbusy.2

lemma createSocket (h : Served is [] s) (name : Str) :
    Served is [s.nextSocket] (s.createSocket name) := by
  have hself : (s.createSocket name).socket s.nextSocket = .new name := Function.update_self ..
  have hother {j : ℕ} (hne : j ≠ s.nextSocket) : (s.createSocket name).socket j = s.socket j :=
    Function.update_of_ne hne ..
  obtain ⟨hoffers, -, hresponding⟩ := h.unmade
  have hmessage {i j : ℕ} (hm : ((s.createSocket name).socket j).httpMessage = some i) :
      j ≠ s.nextSocket := by
    rintro rfl
    rw [hself] at hm
    cases hm
  refine ⟨⟨h.place, h.name, fun j => ?_, fun j => ?_, fun j i hi => ?_, fun j => ?_, fun i hi => ?_,
    fun j => ?_, fun j i hi => ?_, fun t ht i hi => ?_⟩, fun i j hm => ?_⟩
  · have hoffer := h.offer j
    show s.offers j + ((s.createSocket name).busy j).toNat + _ ≤
      if j < s.nextSocket + 1 then 1 else 0
    rcases eq_or_ne j s.nextSocket with rfl | hne
    · have hbusy : (s.createSocket name).busy s.nextSocket = false := by
        unfold Agent.busy
        rw [hself]
        rfl
      rw [hoffers, hbusy, List.count_singleton_self, if_pos (Nat.lt_succ_self _)]
      exact Nat.le_refl 1
    · have hbusy : (s.createSocket name).busy j = s.busy j := by
        unfold Agent.busy
        rw [hother hne]
        rfl
      rw [hbusy, List.count_singleton, if_neg (by simpa using hne.symm)]
      rw [List.count_nil] at hoffer
      refine hoffer.trans ?_
      split_ifs <;> omega
  · rcases eq_or_ne j s.nextSocket with rfl | hne
    · rw [hself]
      rfl
    · rw [hother hne]
      exact h.holder j
  · rcases eq_or_ne j s.nextSocket with rfl | hne
    · rw [hself] at hi
      cases hi
    · rw [hother hne] at hi
      exact h.seat j i hi
  · rcases eq_or_ne j s.nextSocket with rfl | hne
    · rw [hself]
      exact List.nodup_nil
    · rw [hother hne]
      exact h.nodup j
  · obtain ⟨hres, j, hj, hm⟩ := h.responding i hi
    refine ⟨hres, j, hj, ?_⟩
    have hne : j ≠ s.nextSocket := by
      rintro rfl
      have hnot := hresponding i hm
      have hi : (s.request i).responding = true := hi
      rw [hi] at hnot
      cases hnot
    rw [hother hne]
    exact hm
  · rcases eq_or_ne j s.nextSocket with rfl | hne
    · rw [hself]
      rfl
    · rw [hother hne]
      exact h.log j
  · rcases eq_or_ne j s.nextSocket with rfl | hne
    · rw [hself] at hi
      cases hi
    · rw [hother hne] at hi
      exact h.earlier j i hi
  · have hne := hmessage hi
    rw [hother hne] at hi ⊢
    exact h.ready t ht i hi
  · have hne := hmessage hm
    rw [hother hne] at hm ⊢
    exact h.whole i j hm

lemma count_request (t : Tick) (l : ℕ) (ticks : List Tick) :
    ((t :: ticks).filterMap Tick.request).count l =
      (ticks.filterMap Tick.request).count l + t.request.toList.count l := by
  cases t with
  | onSocket i j =>
    show (i :: ticks.filterMap Tick.request).count l = _ + [i].count l
    rw [List.count_cons, List.count_singleton]
  | free j => rfl

/-- A callback is left for later. -/
lemma push {t : Tick} (h : Served t.request.toList [t.socket] s) (hready : Ready s t) :
    Served [] [] { s with ticks := s.ticks ++ [t] } := by
  refine ⟨{ h.toPlaced with
    place := fun l => ?_, offer := fun l => ?_, ready := fun t' ht' => ?_ }, h.whole⟩
  · have hplace := h.place l
    have hplaces : Agent.places { s with ticks := s.ticks ++ [t] } l =
        s.places l + t.request.toList.count l := by
      rw [Agent.places_ticks s, List.filterMap_append, List.count_append, count_request t l []]
      unfold Agent.places
      rw [List.filterMap_nil, List.count_nil]
      omega
    rw [hplaces, List.count_nil]
    exact hplace
  · have hoffer := h.offer l
    have hoffers : Agent.offers { s with ticks := s.ticks ++ [t] } l =
        s.offers l + [t.socket].count l := by
      unfold Agent.offers
      rw [List.map_append, List.count_append]
      rfl
    rw [hoffers, List.count_nil]
    show s.offers l + [t.socket].count l + (s.busy l).toNat + 0 ≤ if l < s.nextSocket then 1 else 0
    omega
  · rcases List.mem_append.mp ht' with ht' | ht'
    · exact h.ready t' ht'
    · obtain rfl := List.mem_singleton.mp ht'
      exact hready

/-- The next callback is taken. -/
lemma pop (h : Served [] [] s) {t : Tick} {rest : List Tick} (ht : s.ticks = t :: rest) :
    Served t.request.toList [t.socket] { s with ticks := rest } := by
  have hmem {t' : Tick} (ht' : t' ∈ rest) : t' ∈ s.ticks := ht ▸ List.mem_cons_of_mem _ ht'
  refine ⟨{ h.toPlaced with
    place := fun l => ?_, offer := fun l => ?_, ready := fun t' ht' => h.ready t' (hmem ht') },
    h.whole⟩
  · have hplace := h.place l
    have hplaces :
        s.places l = Agent.places { s with ticks := rest } l + t.request.toList.count l := by
      rw [Agent.places_ticks s rest]
      unfold Agent.places
      rw [ht, count_request]
      omega
    rw [← hplaces]
    exact hplace
  · have hoffer := h.offer l
    have hoffers : s.offers l = Agent.offers { s with ticks := rest } l + [t.socket].count l := by
      unfold Agent.offers
      rw [ht, List.map_cons, List.count_cons, List.count_singleton]
    rw [hoffers, List.count_nil] at hoffer
    show _ + (s.busy l).toNat + _ ≤ if l < s.nextSocket then 1 else 0
    omega

/-- A request that is nowhere. -/
lemma nowhere (h : Served is js s) {i : ℕ} (hi : s.places i = 0) : (s.request i).socket = none ∧
    (∀ n, i ∉ s.requests n) ∧ (∀ j, i ∉ (s.socket j).holders) ∧
      ∀ j, (s.socket j).httpMessage ≠ some i := by
  unfold Agent.places at hi
  have hsocket : (s.request i).socket = none := by
    have hsome : (s.request i).socket.isSome.toNat = 0 := by omega
    rw [Bool.toNat_eq_zero] at hsome
    simpa using hsome
  have hholders (j : ℕ) : i ∉ (s.socket j).holders := fun hj => by
    have hseat := h.seat j i hj
    rw [hsocket] at hseat
    cases hseat
  refine ⟨hsocket, fun n hn => ?_, hholders, fun j hj => ?_⟩
  · have hpos := List.count_pos_iff.mpr hn
    rw [← h.name n i hn] at hpos
    omega
  · obtain ⟨hs, hj, -, -⟩ := h.last hj
    exact hholders j (by rw [hj]; simp)

/-- The first request that waits is taken. -/
lemma shift (h : Served [] js s) {n : Str} {i : ℕ} {rest : List ℕ} (hn : s.requests n = i :: rest) :
    Served [i] js { s with requests := Function.update s.requests n rest } := by
  have hname : (s.request i).name = n := h.name n i (by rw [hn]; exact List.mem_cons_self ..)
  refine ⟨{ h.toPlaced with place := fun l => ?_, name := fun m l hl => ?_ }, h.whole⟩
  · have hplace := h.place l
    unfold Agent.places at hplace ⊢
    dsimp only
    rcases eq_or_ne (s.request l).name n with hl | hl
    · rw [hl, hn, List.count_cons] at hplace
      rw [hl, Function.update_self, List.count_singleton]
      rw [List.count_nil] at hplace
      omega
    · have hne : ¬ (i == l) = true := by
        rw [beq_iff_eq]
        rintro rfl
        exact hl hname
      rw [Function.update_of_ne hl, List.count_singleton, if_neg hne]
      rwa [List.count_nil] at hplace
  · dsimp only at hl ⊢
    rcases eq_or_ne m n with rfl | hne
    · rw [Function.update_self] at hl
      exact h.name m l (by rw [hn]; exact List.mem_cons_of_mem _ hl)
    · rw [Function.update_of_ne hne] at hl
      exact h.name m l hl

/-- A request is put last. -/
lemma push_request {i : ℕ} (h : Served [i] [] s) : Served [] [] { s with
    requests := Function.update s.requests (s.request i).name
      (s.requests (s.request i).name ++ [i]) } := by
  refine ⟨{ h.toPlaced with place := fun l => ?_, name := fun m l hl => ?_ }, h.whole⟩
  · have hplace := h.place l
    unfold Agent.places at hplace ⊢
    dsimp only
    rw [List.count_nil]
    rcases eq_or_ne (s.request l).name (s.request i).name with hl | hl
    · rw [hl] at hplace ⊢
      rw [Function.update_self, List.count_append]
      omega
    · have hne : ¬ (i == l) = true := by
        rw [beq_iff_eq]
        rintro rfl
        exact hl rfl
      rw [List.count_singleton, if_neg hne] at hplace
      rw [Function.update_of_ne hl]
      exact hplace
  · dsimp only at hl ⊢
    rcases eq_or_ne m (s.request i).name with rfl | hne
    · rw [Function.update_self] at hl
      rcases List.mem_append.mp hl with hl | hl
      · exact h.name _ l hl
      · obtain rfl : l = i := by simpa using hl
        rfl
    · rw [Function.update_of_ne hne] at hl
      exact h.name m l hl

/-- A request is made. -/
lemma create (h : Served [] [] s) {r : ClientRequest} (hsocket : r.socket = none)
    (hresponding : r.responding = false) :
    Served [s.nextRequest] [] { s.setRequest s.nextRequest r with
      nextRequest := s.nextRequest + 1 } := by
  set t : Agent := { s.setRequest s.nextRequest r with nextRequest := s.nextRequest + 1 } with ht
  have hself : t.request s.nextRequest = r := Function.update_self ..
  have hother {i : ℕ} (hne : i ≠ s.nextRequest) : t.request i = s.request i :=
    Function.update_of_ne hne ..
  have hplace := h.place s.nextRequest
  rw [if_neg (Nat.lt_irrefl _)] at hplace
  have hzero : s.places s.nextRequest = 0 := by omega
  obtain ⟨hnone, hrequests, hholders, hmessage⟩ := h.nowhere hzero
  have hne {i j : ℕ} (hm : (s.socket j).httpMessage = some i) : i ≠ s.nextRequest := by
    rintro rfl
    exact hmessage j hm
  refine ⟨⟨fun i => ?_, fun n i hi => ?_, fun j => ?_, h.holder, fun j i hi => ?_, h.nodup,
    fun i hi => ?_, h.log, fun j i hi => ?_, fun t' ht' i hi => ?_⟩, fun i j hm => ?_⟩
  · rcases eq_or_ne i s.nextRequest with rfl | hi
    · have hcount : (s.requests r.name).count s.nextRequest = 0 :=
        List.count_eq_zero_of_not_mem (hrequests r.name)
      have hticks : (s.ticks.filterMap Tick.request).count s.nextRequest = 0 := by
        unfold Agent.places at hzero
        omega
      have hplaces : t.places s.nextRequest = 0 := by
        show (s.requests (t.request s.nextRequest).name).count s.nextRequest +
          (s.ticks.filterMap Tick.request).count s.nextRequest +
            (t.request s.nextRequest).socket.isSome.toNat = 0
        rw [hself, hcount, hticks, hsocket]
        rfl
      rw [hplaces, List.count_singleton_self, if_pos (Nat.lt_succ_self _)]
    · have hplaces : t.places i = s.places i := by
        unfold Agent.places
        rw [hother hi]
        rfl
      have hcount : [s.nextRequest].count i = 0 :=
        List.count_eq_zero_of_not_mem fun hmem => hi (List.mem_singleton.mp hmem)
      have hlt : i < t.nextRequest ↔ i < s.nextRequest := by
        show i < s.nextRequest + 1 ↔ _
        omega
      have hold := h.place i
      rw [List.count_nil] at hold
      simp only [hplaces, hcount, hlt]
      exact hold
  · have hni : i ≠ s.nextRequest := by
      rintro rfl
      exact hrequests n hi
    rw [hother hni]
    exact h.name n i hi
  · have hbusy : t.busy j = s.busy j := by
      unfold Agent.busy
      show (s.socket j).httpMessage.any _ = (s.socket j).httpMessage.any _
      cases hm : (s.socket j).httpMessage with
      | none => rfl
      | some i => rw [Option.any_some, Option.any_some, hother (hne hm)]
    rw [hbusy]
    exact h.offer j
  · have hni : i ≠ s.nextRequest := by
      rintro rfl
      exact hholders j hi
    rw [hother hni]
    exact h.seat j i hi
  · have hni : i ≠ s.nextRequest := by
      rintro rfl
      rw [hself, hresponding] at hi
      cases hi
    rw [hother hni] at hi ⊢
    exact h.responding i hi
  · have hni : i ≠ s.nextRequest := by
      rintro rfl
      exact hholders j (List.dropLast_subset _ hi)
    rw [hother hni]
    exact h.earlier j i hi
  · rw [hother (hne hi)]
    exact h.ready t' ht' i hi
  · rw [hother (hne hm)]
    exact h.whole i j hm

/-! ### A request that is given the socket -/

/-- `t` is `s` with the request on the socket, and in its log. -/
structure Seated (i j : ℕ) (s t : Agent) : Prop where
  requests : t.requests = s.requests
  ticks : t.ticks = s.ticks
  nextRequest : t.nextRequest = s.nextRequest
  nextSocket : t.nextSocket = s.nextSocket
  self : t.request i = { s.request i with socket := some j }
  other : ∀ l, l ≠ i → t.request l = s.request l
  selfSocket : t.socket j = { s.socket j with
    httpMessage := some i
    closeListeners := (s.socket j).closeListeners + 1
    holders := (s.socket j).holders ++ [i] }
  otherSocket : ∀ l, l ≠ j → t.socket l = s.socket l

section seated

variable {i j : ℕ} {t : Agent}

lemma Seated.same (hs : Seated i j s t) (l : ℕ) : (t.request l).name = (s.request l).name ∧
    (t.request l).res = (s.request l).res ∧
    (t.request l).responding = (s.request l).responding ∧
    (t.request l).complete = (s.request l).complete := by
  rcases eq_or_ne l i with rfl | hne
  · rw [hs.self]
    exact ⟨rfl, rfl, rfl, rfl⟩
  · rw [hs.other l hne]
    exact ⟨rfl, rfl, rfl, rfl⟩

variable (h : Served [i] [j] s)
include h

/-- Until then it has no place. -/
lemma unplaced : (s.request i).socket = none ∧ (∀ l, i ∉ (s.socket l).holders) := by
  have hplace := h.place i
  rw [List.count_singleton_self] at hplace
  have hzero : s.places i = 0 := by
    split_ifs at hplace
    omega
  obtain ⟨hnone, -, hholders, -⟩ := h.nowhere hzero
  exact ⟨hnone, hholders⟩

variable (hs : Seated i j s t)
include hs

lemma seated_place (l : ℕ) :
    t.places l + ([] : List ℕ).count l = if l < t.nextRequest then 1 else 0 := by
  have hold := h.place l
  rw [List.count_nil, hs.nextRequest]
  rcases eq_or_ne l i with rfl | hne
  · have hplaces : t.places l = s.places l + 1 := by
      unfold Agent.places
      rw [hs.requests, hs.ticks, hs.self, h.unplaced.1]
      rfl
    rwa [List.count_singleton_self, ← hplaces] at hold
  · have hplaces : t.places l = s.places l := by
      unfold Agent.places
      rw [hs.requests, hs.ticks, hs.other l hne]
    have hcount : [i].count l = 0 :=
      List.count_eq_zero_of_not_mem fun hmem => hne (List.mem_singleton.mp hmem)
    rwa [hcount, ← hplaces] at hold

lemma seated_offer (l : ℕ) : t.offers l + (t.busy l).toNat + ([] : List ℕ).count l ≤
    if l < t.nextSocket then 1 else 0 := by
  have hoffers : t.offers l = s.offers l := by
    unfold Agent.offers
    rw [hs.ticks]
  rw [List.count_nil, hs.nextSocket, hoffers]
  rcases eq_or_ne l j with rfl | hne
  · obtain ⟨hzero, -, hlt⟩ := h.in_hand
    have hle : (t.busy l).toNat ≤ 1 := Bool.toNat_le _
    rw [if_pos hlt]
    omega
  · have hbusy : t.busy l = s.busy l := by
      unfold Agent.busy
      rw [hs.otherSocket l hne]
      cases (s.socket l).httpMessage with
      | none => rfl
      | some i' =>
        rw [Option.any_some, Option.any_some, (hs.same i').2.1, (hs.same i').2.2.1]
    have hcount : [j].count l = 0 :=
      List.count_eq_zero_of_not_mem fun hmem => hne (List.mem_singleton.mp hmem)
    have hold := h.offer l
    rwa [hcount, ← hbusy] at hold

lemma seated_seat (l i' : ℕ) (hi' : i' ∈ (t.socket l).holders) :
    (t.request i').socket = some l := by
  have hmoved {l' : ℕ} (hmem : i' ∈ (s.socket l').holders) :
      (t.request i').socket = some l' := by
    rw [hs.other i' fun heq => h.unplaced.2 l' (heq ▸ hmem)]
    exact h.seat l' i' hmem
  rcases eq_or_ne l j with rfl | hne
  · rw [hs.selfSocket] at hi'
    rcases List.mem_append.mp hi' with hmem | hmem
    · exact hmoved hmem
    · obtain rfl : i' = i := by simpa using hmem
      rw [hs.self]
  · rw [hs.otherSocket l hne] at hi'
    exact hmoved hi'

/-- No response is on its way to the request that has had the socket. -/
lemma seated_responding (l : ℕ) (hl : (t.request l).responding = true) :
    (t.request l).res = true ∧
      ∃ j, (t.request l).socket = some j ∧ (t.socket j).httpMessage = some l := by
  rw [(hs.same l).2.2.1] at hl
  obtain ⟨hres, l', hl', hm⟩ := h.responding l hl
  have hni : l ≠ i := by
    rintro rfl
    rw [h.unplaced.1] at hl'
    cases hl'
  have hnj : l' ≠ j := by
    rintro rfl
    obtain ⟨-, hbusy, -⟩ := h.in_hand
    unfold Agent.busy at hbusy
    rw [hm, Option.any_some, Bool.or_eq_false_iff] at hbusy
    rw [hbusy.2] at hl
    cases hl
  refine ⟨(hs.same l).2.1.trans hres, l', ?_, ?_⟩
  · rw [hs.other l hni]
    exact hl'
  · rw [hs.otherSocket l' hnj]
    exact hm

/-- The request that has had the socket until now is complete, and the earlier ones are. -/
lemma seated_earlier
    (hcomplete : ∀ i', (s.socket j).httpMessage = some i' → (s.request i').complete = true)
    (l i' : ℕ) (hi' : i' ∈ (t.socket l).holders.dropLast) :
    (t.request i').complete = true := by
  rw [(hs.same i').2.2.2]
  rcases eq_or_ne l j with rfl | hne
  · rw [hs.selfSocket] at hi'
    have hmem : i' ∈ (s.socket l).holders := by simpa using hi'
    rcases List.eq_nil_or_concat' (s.socket l).holders with hnil | ⟨hs, last, hhs⟩
    · rw [hnil] at hmem
      cases hmem
    · rw [hhs] at hmem
      rcases List.mem_append.mp hmem with hmem | hmem
      · refine h.earlier l i' ?_
        rwa [hhs, List.dropLast_concat]
      · obtain rfl : i' = last := by simpa using hmem
        refine hcomplete i' ?_
        rw [h.holder, hhs, List.getLast?_concat]
  · rw [hs.otherSocket l hne] at hi'
    exact h.earlier l i' hi'

lemma seated_ready (t' : Tick) (ht' : t' ∈ t.ticks) : Ready t t' := by
  rw [hs.ticks] at ht'
  have hne : t'.socket ≠ j := by
    intro heq
    obtain ⟨hoffers, -, -⟩ := h.in_hand
    have hpos : 0 < s.offers j := List.count_pos_iff.mpr (heq ▸ List.mem_map_of_mem ht')
    omega
  intro i' hi'
  rw [hs.otherSocket _ hne] at hi' ⊢
  rw [(hs.same i').2.2.2]
  exact h.ready t' ht' i' hi'

lemma placed_of_seated
    (hcomplete : ∀ i', (s.socket j).httpMessage = some i' → (s.request i').complete = true) :
    Placed [] [] t where
  place := h.seated_place hs
  name n l hl := by
    rw [hs.requests] at hl
    rw [(hs.same l).1]
    exact h.name n l hl
  offer := h.seated_offer hs
  holder l := by
    rcases eq_or_ne l j with rfl | hne
    · rw [hs.selfSocket]
      exact List.getLast?_concat.symm
    · rw [hs.otherSocket l hne]
      exact h.holder l
  seat := h.seated_seat hs
  nodup l := by
    rcases eq_or_ne l j with rfl | hne
    · rw [hs.selfSocket]
      exact List.nodup_append.mpr ⟨h.nodup l, List.nodup_singleton i, fun a ha b hb heq =>
        h.unplaced.2 l (List.mem_singleton.mp hb ▸ heq ▸ ha)⟩
    · rw [hs.otherSocket l hne]
      exact h.nodup l
  responding := h.seated_responding hs
  log l := by
    rcases eq_or_ne l j with rfl | hne
    · rw [hs.selfSocket]
      exact (h.log l).concat (h.unplaced.2 l)
    · rw [hs.otherSocket l hne]
      exact h.log l
  earlier := h.seated_earlier hs hcomplete
  ready := h.seated_ready hs

end seated

/-- A request is given the socket. -/
lemma seated {i j : ℕ} (h : Served [i] [j] s)
    (hcomplete : ∀ i', (s.socket j).httpMessage = some i' → (s.request i').complete = true) :
    Served [] [] (s.onSocket i j) := by
  unfold Agent.onSocket
  dsimp only
  set t : Agent := (s.setRequest i { s.request i with socket := some j }).setSocket j
    { s.socket j with
      httpMessage := some i
      closeListeners := (s.socket j).closeListeners + 1
      holders := (s.socket j).holders ++ [i] } with ht
  have hs : Seated i j s t := by
    refine ⟨rfl, rfl, rfl, rfl, ?_, fun l hne => ?_, ?_, fun l hne => ?_⟩
    · exact Function.update_self ..
    · exact Function.update_of_ne hne ..
    · exact Function.update_self ..
    · exact Function.update_of_ne hne ..
  refine (h.placed_of_seated hs hcomplete).call (fun l hl j' hm => ?_) frame_deferToConnect
    fun j' hj' hm => ?_
  · have hne : j' ≠ j := by
      rintro rfl
      rw [hs.selfSocket] at hm
      exact hl (Option.some.inj hm).symm
    rw [hs.otherSocket j' hne] at hm ⊢
    rw [hs.other l hl]
    exact h.whole l j' hm
  · rw [hs.self] at hj'
    obtain rfl : j = j' := Option.some.inj hj'
    rw [hs.selfSocket] at hm
    exact absurd rfl hm

end Served

end NodeCore.HttpAgent
