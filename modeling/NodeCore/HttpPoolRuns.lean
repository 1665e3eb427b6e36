import NodeCore.HttpPool

/-!
The sockets of an agent, each given to one request after the other.
-/

namespace NodeCore.HttpAgent

open NodeCore.Encoding NodeCore.HttpOutgoing NodeCore.Reentrant

namespace Served

variable {is js : List ℕ} {s : Agent}

/-! ### Functions -/

lemma setRequest (h : Served is js s) {i : ℕ} {r : ClientRequest}
    (hname : r.name = (s.request i).name) (hsocket : r.socket = (s.request i).socket)
    (hcomplete : r.complete = (s.request i).complete)
    (hres : (s.request i).res = true → r.res = true)
    (hresponding : r.responding = true → (s.request i).responding = true ∨
      (s.request i).res = false ∧ r.res = true ∧
        ∃ j, (s.request i).socket = some j ∧ (s.socket j).httpMessage = some i)
    (hfinished : r.finished = (s.request i).finished) (houtput : r.output = (s.request i).output) :
    Served is js (s.setRequest i r) := by
  refine ⟨h.toPlaced.setRequest hname hsocket (fun hc => hcomplete.trans hc) hres hresponding,
    Placed.whole_setRequest (fun l _ => h.whole l) fun j hm hd hf ho => ?_⟩
  rw [hcomplete]
  exact h.whole i j hm hd (hfinished ▸ hf) (houtput ▸ ho)

lemma free {j : ℕ} (h : Served [] [j] s) (hready : Ready s (.free j)) :
    Served [] [] (s.free j) := by
  unfold Agent.free
  dsimp only
  split
  · next i rest hopen hwaiting =>
    refine push (t := .onSocket i j) (h.shift hwaiting) fun i' hi' => ?_
    rcases hready i' hi' with hcomplete | ⟨-, hd⟩
    · exact .inl hcomplete
    · have hd : (s.socket j).destroyed = true := hd
      rw [hopen] at hd
      cases hd
  · exact h.drop.setSocket rfl rfl rfl fun _ => rfl

lemma fresh_message (s : Agent) (name : Str) (i : ℕ) :
    ((s.createSocket name).socket s.nextSocket).httpMessage ≠ some i := by
  have hself : (s.createSocket name).socket s.nextSocket = .new name := Function.update_self ..
  rw [hself]
  nofun

lemma addRequest {i : ℕ} (h : Served [i] [] s) : Served [] [] (s.addRequest i) := by
  unfold Agent.addRequest
  dsimp only
  split_ifs
  · exact push (t := .onSocket i s.nextSocket) (h.createSocket _) fun i' hi' =>
      absurd hi' (fresh_message s _ i')
  · exact h.push_request

lemma removeSocket (h : Served [] [] s) (j : ℕ) : Served [] [] (s.removeSocket j) := by
  have htable (sockets : Str → List ℕ) : Served [] [] { s with sockets := sockets } :=
    ⟨{ h.toPlaced with }, h.whole⟩
  unfold Agent.removeSocket
  dsimp only
  split_ifs
  · exact ((htable _).createSocket _).free fun i hi => absurd hi (fresh_message _ _ i)
  · exact htable _

lemma tick (h : Served [] [] s) {t : Agent} (ht : s.tick = some t) : Served [] [] t := by
  unfold Agent.tick at ht
  split at ht
  · cases ht
  · next i j rest hticks =>
    obtain rfl := Option.some.inj ht
    have hready : Ready s (.onSocket i j) :=
      h.ready _ (by rw [hticks]; exact List.mem_cons_self ..)
    refine Served.seated (h.pop hticks) fun i' hi' => ?_
    rcases hready i' hi' with hcomplete | ⟨hnot, -⟩
    · exact hcomplete
    · cases hnot
  · next j rest hticks =>
    obtain rfl := Option.some.inj ht
    have hready : Ready s (.free j) := h.ready _ (by rw [hticks]; exact List.mem_cons_self ..)
    have hpop : Served [] [j] { s with ticks := rest } := h.pop hticks
    dsimp only
    split_ifs
    · exact hpop.free hready
    · exact hpop.drop

lemma parserOnIncomingClient (h : Served [] [] s) {j : ℕ} {shouldKeepAlive : Bool} {t : Agent}
    (ht : s.parserOnIncomingClient j shouldKeepAlive = some t) : Served [] [] t := by
  unfold Agent.parserOnIncomingClient at ht
  dsimp only at ht
  split at ht
  · cases ht
  · next i hm =>
    split_ifs at ht with hd hres
    · obtain rfl := Option.some.inj ht
      exact h.setSocket rfl rfl rfl fun _ => rfl
    · obtain rfl := Option.some.inj ht
      obtain ⟨-, -, -, hj⟩ := h.last hm
      exact h.setRequest rfl rfl rfl (fun _ => rfl)
        (fun _ => .inr ⟨by simpa using hres, rfl, j, hj, hm⟩) rfl rfl

lemma upgrade (h : Served [] [] s) {j : ℕ} {t : Agent} (ht : s.upgrade j = some t) :
    Served [] [] t := by
  unfold Agent.upgrade at ht
  dsimp only at ht
  split at ht
  · cases ht
  · next i hm =>
    split_ifs at ht with hres hpooled
    · obtain rfl := Option.some.inj ht
      have hresponse : Served [] [] (s.setRequest i { s.request i with res := true }) :=
        h.setRequest rfl rfl rfl (fun _ => rfl) .inl rfl rfl
      exact (hresponse.removeSocket j).setSocket rfl rfl rfl id
    · obtain rfl := Option.some.inj ht
      have hresponse : Served [] [] (s.setRequest i { s.request i with res := true }) :=
        h.setRequest rfl rfl rfl (fun _ => rfl) .inl rfl rfl
      exact hresponse.setSocket rfl rfl rfl id

end Served

/-! ### Runs -/

/-- A response after which the connection is kept ends only once its request has been ended and
nothing of it waits any more, unless the socket has been destroyed. -/
def Timely (s : Agent) (a : Act) : Prop :=
  ∀ i, a = .responseEnd i → (s.request i).shouldKeepAlive = true →
    (s.request i).finished = true ∧ (s.request i).output = [] ∨
      ∀ j, (s.request i).socket = some j → (s.socket j).destroyed = true

lemma Timely.of_ne {s : Agent} {a : Act} (h : ∀ i, a ≠ .responseEnd i) : Timely s a :=
  fun i hi => absurd hi (h i)

namespace Served

variable {s : Agent}

lemma responseOnEnd (h : Served [] [] s) {i : ℕ} (htimely : Timely s (.responseEnd i)) {t : Agent}
    (ht : s.responseOnEnd i = some t) : Served [] [] t := by
  unfold Agent.responseOnEnd at ht
  dsimp only at ht
  split at ht
  · cases ht
  · next j hj =>
    set r : ClientRequest := { s.request i with responding := false } with hr
    have hrequest : Served [] [] (s.setRequest i r) :=
      h.setRequest rfl rfl rfl id (fun hresponding => by cases hresponding) rfl rfl
    split_ifs at ht with hresponding hkeep hwritable
    · obtain rfl := Option.some.inj ht
      have hresponding : (s.request i).responding = true := by simpa using hresponding
      obtain ⟨hres, j', hj', hm⟩ := h.responding i hresponding
      obtain rfl : j = j' := Option.some.inj (hj.symm.trans hj')
      have hbusy : s.busy j = true := by
        unfold Agent.busy
        rw [hm, Option.any_some, hresponding, Bool.or_true]
      have hoffer := h.offer j
      rw [hbusy, Bool.toNat_true, List.count_nil] at hoffer
      set k : Socket := { s.socket j with
        closeListeners := (s.socket j).closeListeners - 1 } with hk
      have hkept : Served [] [] ((s.setRequest i r).setSocket j k) :=
        hrequest.setSocket rfl rfl rfl id
      have hmessage : (((s.setRequest i r).setSocket j k).socket j).httpMessage = some i := by
        have hself : ((s.setRequest i r).setSocket j k).socket j = k := Function.update_self ..
        rw [hself]
        exact hm
      have hself : ((s.setRequest i r).setSocket j k).request i = r := Function.update_self ..
      have hhand : Served [] [j] ((s.setRequest i r).setSocket j k) := by
        refine ⟨{ hkept.toPlaced with offer := fun l => ?_ }, hkept.whole⟩
        have hold := hkept.offer l
        rw [List.count_nil] at hold
        rcases eq_or_ne l j with rfl | hne
        · have hidle : ((s.setRequest i r).setSocket l k).busy l = false := by
            unfold Agent.busy
            rw [hmessage, Option.any_some, hself, hr]
            dsimp only
            rw [hres]
            rfl
          have hoffers : ((s.setRequest i r).setSocket l k).offers l = s.offers l := rfl
          rw [hidle, hoffers, List.count_singleton_self]
          show s.offers l + 0 + 1 ≤ if l < s.nextSocket then 1 else 0
          omega
        · have hcount : [j].count l = 0 :=
            List.count_eq_zero_of_not_mem fun hmem => hne (List.mem_singleton.mp hmem)
          rw [hcount]
          exact hold
      refine push (t := .free j) hhand fun i' hi' => ?_
      obtain rfl : i = i' := Option.some.inj (hmessage.symm.trans hi')
      have hdestroyed : (((s.setRequest i r).setSocket j k).socket j).destroyed =
          (s.socket j).destroyed := by
        have hself : ((s.setRequest i r).setSocket j k).socket j = k := Function.update_self ..
        rw [hself]
      rw [hself]
      cases hd : (s.socket j).destroyed with
      | true => exact .inr ⟨rfl, hdestroyed.trans hd⟩
      | false =>
        left
        rcases htimely i rfl hkeep with ⟨hfinished, houtput⟩ | hall
        · exact h.whole i j hm hd hfinished houtput
        · rw [hall j hj] at hd
          cases hd
    · obtain rfl := Option.some.inj ht
      exact hrequest.setSocket rfl rfl rfl id
    · obtain rfl := Option.some.inj ht
      exact hrequest

lemma free_others (s : Agent) {j l : ℕ} (hne : l ≠ j) : (s.free j).socket l = s.socket l := by
  unfold Agent.free
  dsimp only
  split
  · rfl
  · exact Function.update_of_ne hne ..

lemma removeSocket_made (s : Agent) (j : ℕ) {l : ℕ} (hl : l < s.nextSocket) :
    (s.removeSocket j).socket l = s.socket l := by
  have hne : l ≠ s.nextSocket := by omega
  unfold Agent.removeSocket
  dsimp only
  split_ifs
  · rw [free_others _ hne]
    exact Function.update_of_ne hne ..
  · rfl

lemma socketCloseListener (h : Served [] [] s) {j : ℕ} (hd : (s.socket j).destroyed = true) :
    Served [] [] (s.socketCloseListener j) := by
  unfold Agent.socketCloseListener
  split
  · exact h
  · next i hm =>
    refine ⟨h.toPlaced.setRequest rfl rfl id id .inl,
      Placed.whole_setRequest (fun l _ => h.whole l) fun l hl hopen => ?_⟩
    obtain ⟨-, -, -, hj⟩ := h.last hm
    obtain ⟨-, -, -, hl⟩ := h.last hl
    obtain rfl : j = l := Option.some.inj (hj.symm.trans hl)
    rw [hd] at hopen
    cases hopen

lemma close (h : Served [] [] s) {j : ℕ} (hj : j < s.nextSocket) {t : Agent}
    (ht : s.close j = some t) : Served [] [] t := by
  have hclosed : (s.socket j).destroyed = true := by
    unfold Agent.close at ht
    dsimp only at ht
    by_contra hd
    rw [Bool.not_eq_true] at hd
    rw [hd, Bool.false_and, if_neg Bool.false_ne_true] at ht
    cases ht
  set u : Agent := s.setSocket j { s.socket j with closed := true } with hu
  have huserved : Served [] [] u := h.setSocket rfl rfl rfl id
  have hudestroyed : (u.socket j).destroyed = true := by
    have hself : u.socket j = { s.socket j with closed := true } := Function.update_self ..
    rw [hself]
    exact hclosed
  have hremoved : Served [] [] (u.removeSocket j) ∧
      ((u.removeSocket j).socket j).destroyed = true := by
    have hj' : j < u.nextSocket := hj
    rw [removeSocket_made u j hj']
    exact ⟨huserved.removeSocket j, hudestroyed⟩
  unfold Agent.close at ht
  dsimp only at ht
  split_ifs at ht
  · obtain rfl := Option.some.inj ht
    exact hremoved.1.socketCloseListener hremoved.2
  · obtain rfl := Option.some.inj ht
    exact huserved.socketCloseListener hudestroyed
  · obtain rfl := Option.some.inj ht
    exact hremoved.1
  · obtain rfl := Option.some.inj ht
    exact huserved

theorem step (h : Served [] [] s) {a : Act} (htimely : Timely s a) {t : Agent}
    (ht : HttpAgent.step s a = some t) : Served [] [] t := by
  have hmethod {i : ℕ} {f : ClientRequest → ClientRequest} (hf : Method f)
      (ht : s.method i f = some t) : Served [] [] t := by
    unfold Agent.method at ht
    split_ifs at ht
    obtain rfl := Option.some.inj ht
    exact h.method hf
  have hevent {j : ℕ} {u : Option Agent} (ht : s.event j u = some t) :
      j < s.nextSocket ∧ u = some t := by
    unfold Agent.event at ht
    split_ifs at ht with hlt
    exact ⟨hlt, ht⟩
  cases a with
  | request method path headers name =>
    obtain rfl := Option.some.inj ht
    exact (h.create rfl rfl).addRequest
  | setHeaders i headers => exact hmethod (.setHeaders headers) ht
  | addTrailers i headers => exact hmethod (.addTrailers headers) ht
  | write i chunk encoding => exact hmethod (.write chunk encoding) ht
  | «end» i data encoding => exact hmethod (.end data encoding) ht
  | tick => exact h.tick ht
  | response j shouldKeepAlive => exact h.parserOnIncomingClient (hevent ht).2
  | responseEnd i => exact h.responseOnEnd htimely ht
  | upgrade j => exact h.upgrade (hevent ht).2
  | destroy j =>
    obtain rfl := Option.some.inj (hevent ht).2
    exact h.setSocket rfl rfl rfl fun _ => rfl
  | destroySoon j =>
    obtain rfl := Option.some.inj (hevent ht).2
    exact h.setSocket rfl rfl rfl id
  | close j => exact h.close (hevent ht).1 (hevent ht).2
  | room j room =>
    obtain rfl := Option.some.inj (hevent ht).2
    exact h.setSocket rfl rfl rfl id

lemma init (maxSockets : ℕ) : Served [] [] (init maxSockets) := by
  refine ⟨⟨fun i => rfl, nofun, fun j => ?_, fun j => rfl, nofun, fun j => List.nodup_nil, nofun,
    fun j => rfl, nofun, nofun⟩, nofun⟩
  exact Nat.zero_le _

end Served

/-- The requests on a socket, one after the other: what they have written stands in the order in
which they were given the socket, and all but the last are complete. -/
def OneByOne (s : Agent) (j : ℕ) : Prop :=
  Blocks (s.socket j).holders (s.socket j).log ∧ (s.socket j).holders.Nodup ∧
    ∀ i ∈ (s.socket j).holders.dropLast, (s.request i).complete = true

/-- **Requests on a pooled connection.** In every run in which a response that keeps the connection
ends only after its request, no socket is given to another request before the last byte of the
one before has been written to it, and the requests stand on it one after the other. -/
theorem requests_one_by_one {maxSockets : ℕ} {s : Agent}
    (h : Run step (fun s a _ => Timely s a) (init maxSockets) s) (j : ℕ) : OneByOne s j := by
  have hserved : Served [] [] s := h.invariant (I := fun s => Served [] [] s) (.init maxSockets)
    fun n a n' hn hs htimely => hn.step htimely hs
  exact ⟨hserved.log j, hserved.nodup j, hserved.earlier j⟩

/-- Two requests, the second of which waits for the socket of the first. -/
def queued : List Act :=
  [.request (js "POST") (js "/") (.object []) [104],
    .request (js "GET") (js "/") (.object []) [104], .tick, .write 0 (.str (js "a")) none,
    .end 0 none none, .end 1 none none, .response 0 true,
    .responseEnd 0, .tick, .tick]

set_option maxRecDepth 2000 in
theorem requests_one_by_one_queued :
    ∃ s, Run step (fun s a _ => Timely s a) (init 1) s ∧ (s.socket 0).holders = [0, 1] ∧
      OneByOne s 0 := by
  have hrun :
      ∃ s, Run step (fun s a _ => Timely s a) (init 1) s ∧ (s.socket 0).holders = [0, 1] := by
    exact ⟨_, Run.of_path .refl (w := queued)
      ⟨_, rfl, .of_ne nofun, _, rfl, .of_ne nofun, _, rfl, .of_ne nofun, _, rfl, .of_ne nofun,
        _, rfl, .of_ne nofun, _, rfl, .of_ne nofun, _, rfl, .of_ne nofun,
        _, rfl, fun i hi _ => (by cases hi; exact .inl (by decide)),
        _, rfl, .of_ne nofun, _, rfl, .of_ne nofun, rfl⟩, rfl⟩
  obtain ⟨s, hs, hholders⟩ := hrun
  exact ⟨s, hs, hholders, requests_one_by_one hs 0⟩

/-- The server answers before the body has been written. -/
def early : List Act :=
  [.request (js "POST") (js "/") (.object []) [104],
    .request (js "GET") (js "/") (.object []) [104], .tick, .write 0 (.str (js "a")) none,
    .end 1 none none, .response 0 true, .responseEnd 0, .tick,
    .tick, .write 0 (.str (js "b")) none, .end 0 none none]

theorem request_cut_short :
    ∃ s, Run step (fun _ _ _ => True) (init 1) s ∧ (s.socket 0).holders = [0, 1] ∧
      (s.request 0).complete = false ∧ (s.request 0).output ≠ [] ∧ ¬ OneByOne s 0 := by
  refine ⟨_, Run.of_path .refl (w := early)
    ⟨_, rfl, trivial, _, rfl, trivial, _, rfl, trivial, _, rfl, trivial, _, rfl, trivial,
      _, rfl, trivial, _, rfl, trivial, _, rfl, trivial, _, rfl, trivial, _, rfl, trivial,
      _, rfl, trivial, rfl⟩, rfl, by decide, by decide, ?_⟩
  rintro ⟨-, -, hcomplete⟩
  exact absurd (hcomplete 0 (by decide)) (by decide)

end NodeCore.HttpAgent
