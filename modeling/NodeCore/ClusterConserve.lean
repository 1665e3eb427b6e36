import NodeCore.Cluster
import Mathlib.Algebra.BigOperators.Group.Finset.Basic

/-!
Where the connections of a cluster are: each one is in the hands of the function that runs, in a
queue, on its way to a worker, or closed, once and only once.
-/

namespace NodeCore.Cluster

open NodeCore.Encoding NodeCore.Reentrant

/-! ### Queues -/

def Obj.handles : Obj → List ℕ
  | .shared _ => []
  | .roundRobin r => r.handles

namespace State

variable {s : State}

/-- How often the queues hold a connection. -/
def waiting (s : State) (h : ℕ) : ℕ :=
  ∑ i ∈ Finset.range s.nextObject, (s.objects i).handles.count h

/-- How often a connection is on its way to a worker. -/
def sent (s : State) (h : ℕ) : ℕ := (s.callbacks.map (·.2.handle)).count h

def Open (s : State) (w : ℕ) : Prop := (s.workers w).channel = .open

lemma setObj_waiting {i : ℕ} (hi : i < s.nextObject) (o : Obj) (h : ℕ) :
    (s.setObj i o).waiting h + (s.objects i).handles.count h = s.waiting h + o.handles.count h := by
  have hmem : i ∈ Finset.range (s.setObj i o).nextObject := Finset.mem_range.mpr hi
  have hmem' : i ∈ Finset.range s.nextObject := Finset.mem_range.mpr hi
  unfold waiting
  rw [← Finset.add_sum_erase _ _ hmem, ← Finset.add_sum_erase _ _ hmem', setObj_same]
  have hrest : ∑ j ∈ (Finset.range (s.setObj i o).nextObject).erase i,
      ((s.setObj i o).objects j).handles.count h =
        ∑ j ∈ (Finset.range s.nextObject).erase i, (s.objects j).handles.count h :=
    Finset.sum_congr rfl fun j hj => by rw [setObj_ne (Finset.ne_of_mem_erase hj)]
  omega

lemma send_channel (s : State) (w : ℕ) (m : ToWorker) (v : ℕ) :
    ((s.send w m).workers v).channel = (s.workers v).channel := by
  unfold send
  dsimp only
  split_ifs
  · rcases eq_or_ne v w with rfl | hne
    · rw [Function.update_self]
    · rw [Function.update_of_ne hne]
  · rfl

lemma send_toMaster (s : State) (w : ℕ) (m : ToWorker) (v : ℕ) :
    ((s.send w m).workers v).toMaster = (s.workers v).toMaster := by
  unfold send
  dsimp only
  split_ifs
  · rcases eq_or_ne v w with rfl | hne
    · rw [Function.update_self]
    · rw [Function.update_of_ne hne]
  · rfl

lemma mem_send_toWorker {w v : ℕ} {m m' : ToWorker}
    (h : m' ∈ ((s.send w m).workers v).toWorker) : m' ∈ (s.workers v).toWorker ∨ m' = m := by
  unfold send at h
  dsimp only at h
  split_ifs at h
  · rcases eq_or_ne v w with rfl | hne
    · rw [Function.update_self] at h
      simpa using h
    · rw [Function.update_of_ne hne] at h
      exact .inl h
  · exact .inl h

lemma handoff_channel (s : State) (i w v : ℕ) :
    ((s.handoff i w).workers v).channel = (s.workers v).channel := by
  unfold handoff
  split
  · rfl
  · split_ifs
    · split
      · rfl
      · exact send_channel _ _ _ _
    · rfl

lemma distribute_channel (s : State) (i h v : ℕ) :
    ((s.distribute i h).workers v).channel = (s.workers v).channel := by
  unfold distribute
  split
  · rfl
  · split
    · rfl
    · exact handoff_channel _ _ _ _

lemma remove_channel (s : State) (i w v : ℕ) :
    ((s.remove i w).1.workers v).channel = (s.workers v).channel := by
  unfold remove
  split <;> rfl

lemma ack_channel (s : State) (seq : ℕ) (accepted : Bool) (v : ℕ) :
    ((s.ack seq accepted).1.workers v).channel = (s.workers v).channel := by
  unfold ack
  split
  · rfl
  · dsimp only
    rw [handoff_channel]
    split_ifs
    · rfl
    · exact distribute_channel _ _ _ _

lemma close_channel (s : State) (w : ℕ) (key : Str) (v : ℕ) :
    ((s.close w key).1.workers v).channel = (s.workers v).channel := by
  unfold close
  split
  · rfl
  · next i _ =>
    have hremove := remove_channel s i w v
    split <;> next t heq => rw [heq] at hremove; exact hremove

lemma object_channel (s : State) (key : Str) (shared errno : Bool) (v : ℕ) :
    ((s.object key shared errno).1.workers v).channel = (s.workers v).channel := by
  unfold object
  split <;> rfl

lemma add_channel (s : State) (i : ℕ) (key : Str) (w v : ℕ) :
    ((s.add i key w).1.workers v).channel = (s.workers v).channel := by
  unfold add
  split
  · split_ifs
    · rfl
    · exact send_channel _ _ _ _
    · exact send_channel _ _ _ _
  · split_ifs
    · rfl
    · exact (handoff_channel _ _ _ _).trans (send_channel _ _ _ _)
    · rfl
    · rfl

lemma onmessage_channel (s : State) (w : ℕ) (errno : Bool) (m : ToMaster) (v : ℕ) :
    ((s.onmessage w errno m).1.workers v).channel = (s.workers v).channel := by
  cases m with
  | queryServer key shared => exact (add_channel _ _ _ _ _).trans (object_channel _ _ _ _ _)
  | ack seq accepted => exact ack_channel _ _ _ _
  | close key => exact close_channel _ _ _ _

end State

/-! ### The invariant -/

/-- The books of the master, with the connections that the function that runs has in hand. -/
structure Books (s : State) (hand : List ℕ) : Prop where
  known : ∀ {i r}, s.objects i = .roundRobin r → i < s.nextObject
  self : ∀ p ∈ s.callbacks, ∃ r, s.objects p.2.self = .roundRobin r
  old : ∀ p ∈ s.callbacks, p.1 < s.seq
  count : ∀ h, s.waiting h + s.sent h + s.accepted.count h + s.closed.count h + hand.count h =
    if h < s.connections then 1 else 0
  /-- Nothing waits for a server that does not listen. -/
  removed : ∀ {i r}, s.objects i = .roundRobin r → r.handle = false → r.handles = []
  bound : ∀ {i r}, s.objects i = .roundRobin r → r.server ≠ .null → r.handle = false
  connected : ∀ p ∈ s.callbacks, s.Open p.2.worker
  /-- A message and its callback are about one connection. -/
  newconn : ∀ {w q key h}, .newconn q key h ∈ (s.workers w).toWorker →
    q < s.seq ∧ ∀ c, (q, c) ∈ s.callbacks → c.handle = h
  ack : ∀ {w q accepted}, .ack q accepted ∈ (s.workers w).toMaster →
    q < s.seq ∧ (accepted = true → ∀ c, (q, c) ∈ s.callbacks → c.handle ∈ s.taken)
  served : ∀ h ∈ s.accepted, h ∈ s.taken

namespace Books

variable {s : State} {hand hand' : List ℕ}

lemma init : Books init [] := by
  refine ⟨fun h => ?_, fun p hp => ?_, fun p hp => ?_, fun h => rfl, fun h => ?_, fun h => ?_,
    fun p hp => ?_, fun h => ?_, fun h => ?_, fun h hh => ?_⟩
  · cases h
  · cases hp
  · cases hp
  · cases h
  · cases h
  · cases hp
  · cases h
  · cases h
  · cases hh

/-- A change of one object, which may take connections in hand or give them away. -/
lemma setObj (b : Books s hand) {i : ℕ} {r r' : RoundRobinHandle}
    (hr : s.objects i = .roundRobin r) (hhandle : r'.handle = false → r'.handles = [])
    (hserver : r'.server ≠ .null → r'.handle = false)
    (hcount : ∀ h, r'.handles.count h + hand'.count h = r.handles.count h + hand.count h) :
    Books (s.setObj i (.roundRobin r')) hand' := by
  refine ⟨fun {j r''} hj => ?_, fun p hp => ?_, b.old, fun h => ?_, fun {j r''} hj hf => ?_,
    fun {j r''} hj hs => ?_, b.connected, b.newconn, b.ack, b.served⟩
  · rcases eq_or_ne j i with rfl | hne
    · exact b.known hr
    · exact b.known (State.setObj_ne hne _ ▸ hj)
  · rcases eq_or_ne p.2.self i with hp' | hne
    · exact ⟨r', by rw [hp', State.setObj_same]⟩
    · rw [State.setObj_ne hne]
      exact b.self p hp
  · have hwaiting := State.setObj_waiting (b.known hr) (.roundRobin r') h
    have hb := b.count h
    have hc := hcount h
    rw [hr] at hwaiting
    simp only [Obj.handles] at hwaiting
    show State.waiting _ h + s.sent h + s.accepted.count h + s.closed.count h + _ =
      if h < s.connections then 1 else 0
    omega
  · rcases eq_or_ne j i with rfl | hne
    · rw [State.setObj_same] at hj
      cases hj
      exact hhandle hf
    · exact b.removed (State.setObj_ne hne _ ▸ hj) hf
  · rcases eq_or_ne j i with rfl | hne
    · rw [State.setObj_same] at hj
      cases hj
      exact hserver hs
    · exact b.bound (State.setObj_ne hne _ ▸ hj) hs

/-- A change of one object that leaves its queue alone. -/
lemma setObj_same (b : Books s hand) {i : ℕ} {r r' : RoundRobinHandle}
    (hr : s.objects i = .roundRobin r) (hhandles : r'.handles = r.handles)
    (hhandle : r'.handle = r.handle) (hserver : r'.server = r.server) :
    Books (s.setObj i (.roundRobin r')) hand :=
  b.setObj hr (fun hf => hhandles ▸ b.removed hr (hhandle ▸ hf))
    (fun hs => hhandle ▸ b.bound hr (hserver ▸ hs)) fun h => by rw [hhandles]

lemma setShared (b : Books s hand) {i : ℕ} {o o' : SharedHandle} (ho : s.objects i = .shared o) :
    Books (s.setObj i (.shared o')) hand := by
  have hne {j : ℕ} {r : RoundRobinHandle} (hj : s.objects j = .roundRobin r) : j ≠ i := by
    rintro rfl
    rw [ho] at hj
    cases hj
  have hold {j : ℕ} {r : RoundRobinHandle}
      (hj : (s.setObj i (.shared o')).objects j = .roundRobin r) :
      s.objects j = .roundRobin r := by
    rcases eq_or_ne j i with rfl | hji
    · rw [State.setObj_same] at hj
      cases hj
    · rwa [State.setObj_ne hji] at hj
  refine ⟨fun hj => b.known (hold hj), fun p hp => ?_, b.old, fun h => ?_,
    fun hj hf => b.removed (hold hj) hf, fun hj hs => b.bound (hold hj) hs, b.connected, b.newconn,
    b.ack, b.served⟩
  · obtain ⟨r, hr⟩ := b.self p hp
    exact ⟨r, (State.setObj_ne (hne hr) _).trans hr⟩
  · have hwaiting : (s.setObj i (.shared o')).waiting h = s.waiting h := by
      refine Finset.sum_congr rfl fun j _ => ?_
      rcases eq_or_ne j i with rfl | hji
      · rw [State.setObj_same, ho]
        rfl
      · rw [State.setObj_ne hji]
    show State.waiting _ h + s.sent h + s.accepted.count h + s.closed.count h + _ = _
    rw [hwaiting]
    exact b.count h

/-- A change of one worker that adds no message. -/
lemma setWorker (b : Books s hand) {w : ℕ} {p : Worker}
    (hopen : p.channel ≠ .open → ∀ c ∈ s.callbacks, c.2.worker ≠ w)
    (hto : p.toWorker ⊆ (s.workers w).toWorker) (hfrom : p.toMaster ⊆ (s.workers w).toMaster) :
    Books (s.setWorker w p) hand := by
  have hsame : (s.setWorker w p).workers w = p := Function.update_self ..
  have hne {v : ℕ} (hv : v ≠ w) : (s.setWorker w p).workers v = s.workers v :=
    Function.update_of_ne hv ..
  refine ⟨b.known, b.self, b.old, b.count, b.removed, b.bound, fun c hc => ?_,
    fun {v q key h} hm => ?_, fun {v q accepted} hm => ?_, b.served⟩
  · rcases eq_or_ne c.2.worker w with hv | hv
    · unfold State.Open
      rw [hv, hsame]
      by_contra hclosed
      exact hopen hclosed c hc hv
    · unfold State.Open
      rw [hne hv]
      exact b.connected c hc
  · rcases eq_or_ne v w with rfl | hv
    · rw [hsame] at hm
      exact b.newconn (hto hm)
    · rw [hne hv] at hm
      exact b.newconn hm
  · rcases eq_or_ne v w with rfl | hv
    · rw [hsame] at hm
      exact b.ack (hfrom hm)
    · rw [hne hv] at hm
      exact b.ack hm

/-- A message that is not about a connection, or the one of the last callback. -/
lemma send (b : Books s hand) (w : ℕ) {m : ToWorker}
    (hm : ∀ q key h, m = .newconn q key h → q < s.seq + 1 ∧
      ∀ c, (q, c) ∈ s.callbacks → c.handle = h) : Books (s.send w m) hand := by
  have hchannel (v : ℕ) : ((s.send w m).workers v).channel = (s.workers v).channel :=
    State.send_channel s w m v
  refine ⟨b.known, b.self, fun p hp => Nat.lt_succ_of_lt (b.old p hp), b.count, b.removed, b.bound,
    fun p hp => (hchannel _).trans (b.connected p hp), fun {v q key h} hmem => ?_,
    fun {v q accepted} hmem => ?_, b.served⟩
  · rcases State.mem_send_toWorker hmem with hmem | rfl
    · obtain ⟨hq, hc⟩ := b.newconn hmem
      exact ⟨Nat.lt_succ_of_lt hq, hc⟩
    · exact hm q key h rfl
  · rw [State.send_toMaster] at hmem
    obtain ⟨hq, hc⟩ := b.ack hmem
    exact ⟨Nat.lt_succ_of_lt hq, hc⟩

lemma reply (b : Books s hand) (w : ℕ) (key : Str) (shared errno : Bool) :
    Books (s.send w (.reply key shared errno)) hand := b.send w fun _ _ _ h => nomatch h

/-- A connection in hand is sent to a worker. -/
lemma post {i h w : ℕ} {r : RoundRobinHandle} (b : Books s (h :: hand))
    (hr : s.objects i = .roundRobin r) (hw : s.Open w) (key : Str) :
    Books ({ s with callbacks := s.callbacks ++ [(s.seq, Callback.mk i h w)] }.send w
      (.newconn s.seq key h)) hand := by
  set t : State := { s with callbacks := s.callbacks ++ [(s.seq, Callback.mk i h w)] } with ht
  have hmem {p : ℕ × Callback} (hp : p ∈ t.callbacks) :
      p ∈ s.callbacks ∨ p = (s.seq, Callback.mk i h w) := by
    simpa [ht] using hp
  -- messages that are under way carry older numbers
  have hlast {q : ℕ} {c : Callback} (hq : q < s.seq) (hc : (q, c) ∈ t.callbacks) :
      (q, c) ∈ s.callbacks := by
    rcases hmem hc with hc | hc
    · exact hc
    · cases hc
      omega
  have hchannel (v : ℕ) : ((t.send w (.newconn s.seq key h)).workers v).channel =
      (s.workers v).channel := State.send_channel t w _ v
  refine ⟨b.known, fun p hp => ?_, fun p hp => ?_, fun h' => ?_, b.removed, b.bound,
    fun p hp => (hchannel _).trans ?_, fun {v q key' h'} hm => ?_, fun {v q accepted} hm => ?_,
    b.served⟩
  · rcases hmem hp with hp | rfl
    · exact b.self p hp
    · exact ⟨r, hr⟩
  · rcases hmem hp with hp | rfl
    · exact Nat.lt_succ_of_lt (b.old p hp)
    · exact Nat.lt_succ_self _
  · have hb := b.count h'
    have hsent : t.sent h' = s.sent h' + [h].count h' := by
      unfold State.sent
      rw [ht, List.map_append, List.count_append]
      rfl
    rw [← List.singleton_append, List.count_append] at hb
    show s.waiting h' + t.sent h' + s.accepted.count h' + s.closed.count h' + hand.count h' =
      if h' < s.connections then 1 else 0
    omega
  · rcases hmem hp with hp | rfl
    · exact b.connected p hp
    · exact hw
  · rcases State.mem_send_toWorker hm with hm | hm
    · obtain ⟨hq, hc⟩ := b.newconn hm
      exact ⟨Nat.lt_succ_of_lt hq, fun c hc' => hc c (hlast hq hc')⟩
    · cases hm
      refine ⟨Nat.lt_succ_self _, fun c hc => ?_⟩
      rcases hmem hc with hc | hc
      · exact absurd (b.old _ hc) (lt_irrefl _)
      · cases hc
        rfl
  · rw [State.send_toMaster] at hm
    obtain ⟨hq, hc⟩ := b.ack hm
    exact ⟨Nat.lt_succ_of_lt hq, fun hacc c hc' => hc hacc c (hlast hq hc')⟩

/-! ### `handoff` and `distribute` -/

/-- A worker that is handed a connection has an open channel. -/
lemma handoff (b : Books s hand) {i w : ℕ} (hw : ∀ r, s.objects i = .roundRobin r → w ∈ r.all →
    r.handles ≠ [] → s.Open w) : Books (s.handoff i w) hand := by
  unfold State.handoff
  split
  · exact b
  · next r hr =>
    split_ifs with hall
    · split
      · exact b.setObj_same hr rfl rfl rfl
      · next h hs hhandles =>
        have hin : Books (s.setObj i (.roundRobin { r with handles := hs })) (h :: hand) := by
          have hbound : r.server ≠ .null → r.handle = false := b.bound hr
          refine b.setObj hr (fun hf => ?_) hbound fun h' => ?_
          · have hnil := b.removed hr hf
            rw [hhandles] at hnil
            cases hnil
          · show hs.count h' + (h :: hand).count h' = r.handles.count h' + hand.count h'
            rw [hhandles, List.count_cons, List.count_cons]
            omega
        have hopen : s.Open w := hw r hr hall (by rw [hhandles]; exact List.cons_ne_nil _ _)
        exact hin.post (State.setObj_same i _) hopen r.key
    · exact b

/-- A connection in hand goes to the queue, and on to the worker that has been free longest. -/
lemma distribute {i h : ℕ} {r : RoundRobinHandle} (b : Books s (h :: hand))
    (hr : s.objects i = .roundRobin r) (hlive : r.handle = true)
    (hfree : ∀ w ∈ r.free.head?, w ∈ r.all → s.Open w) : Books (s.distribute i h) hand := by
  have hqueue (free : List ℕ) : Books (s.setObj i (.roundRobin
      { r with handles := r.handles ++ [h], free := free })) hand := by
    have hbound : r.server ≠ .null → r.handle = false := b.bound hr
    refine b.setObj hr (fun hf => ?_) hbound fun h' => ?_
    · rw [hlive] at hf
      cases hf
    · show (r.handles ++ [h]).count h' + hand.count h' = r.handles.count h' + (h :: hand).count h'
      rw [List.count_append, List.count_singleton, List.count_cons]
      omega
  unfold State.distribute
  rw [hr]
  dsimp only
  split
  · exact hqueue r.free
  · next w ws hcons =>
    refine (hqueue ws).handoff fun r' hr' hall _ => ?_
    rw [State.setObj_same] at hr'
    cases hr'
    exact hfree w (by rw [hcons]; rfl) hall

/-! ### Removing a worker -/

lemma delete (b : Books s hand) (key : Str) : Books (s.delete key) hand :=
  ⟨b.known, b.self, b.old, b.count, b.removed, b.bound, b.connected, b.newconn, b.ack, b.served⟩

/-- The handles that a queue loses are closed. -/
lemma remove (b : Books s hand) (i w : ℕ) : Books (s.remove i w).1 hand := by
  unfold State.remove
  split
  · next o ho => exact b.setShared ho
  · next r hr =>
    have hqueue : (r.remove w).1.handles = r.handles ∧ (r.remove w).1.handle = r.handle ∨
        (r.remove w).1.handles = [] := by
      unfold RoundRobinHandle.remove
      dsimp only
      split_ifs
      · exact .inl ⟨rfl, rfl⟩
      · exact .inr rfl
      · exact .inr rfl
      · exact .inl ⟨rfl, rfl⟩
    have hserver : (r.remove w).1.server = r.server ∧
        (r.handle = false → (r.remove w).1.handle = false) := by
      unfold RoundRobinHandle.remove
      dsimp only
      split_ifs
      · exact ⟨rfl, id⟩
      · exact ⟨rfl, fun _ => rfl⟩
      · exact ⟨rfl, id⟩
      · exact ⟨rfl, id⟩
    have hin : Books (s.setObj i (.roundRobin (r.remove w).1))
        ((if (r.remove w).1.handles = [] then r.handles else []) ++ hand) := by
      refine b.setObj hr (fun hf => ?_) (fun hs => ?_) fun h => ?_
      · rcases hqueue with ⟨hsame, hhandle⟩ | hnil
        · rw [hsame, b.removed hr (hhandle ▸ hf)]
        · exact hnil
      · exact hserver.2 (b.bound hr (hserver.1 ▸ hs))
      · rw [List.count_append]
        split_ifs with hnil
        · rw [hnil, List.count_nil]
          omega
        · have hsame := (hqueue.resolve_right hnil).1
          rw [hsame, List.count_nil]
          omega
    refine ⟨hin.known, hin.self, hin.old, fun h => ?_, hin.removed, hin.bound, hin.connected,
      hin.newconn, hin.ack, hin.served⟩
    have hcount : (s.setObj i (.roundRobin (r.remove w).1)).waiting h + s.sent h +
        s.accepted.count h + s.closed.count h + _ = if h < s.connections then 1 else 0 :=
        hin.count h
    rw [List.count_append] at hcount
    show (s.setObj i (.roundRobin (r.remove w).1)).waiting h + s.sent h + s.accepted.count h +
      (s.closed ++ _).count h + _ = if h < s.connections then 1 else 0
    rw [List.count_append]
    omega

lemma removeFrom {w : ℕ} {keys : List (Str × ℕ)} (b : Books s hand) :
    Books (State.removeFrom w keys s) hand := by
  induction keys generalizing s with
  | nil => exact b
  | cons p rest ih =>
    obtain ⟨key, i⟩ := p
    have hremove := b.remove i w
    unfold State.removeFrom
    split
    · next t heq =>
      rw [heq] at hremove
      exact ih hremove
    · next t heq =>
      rw [heq] at hremove
      exact ih (hremove.delete key)
    · next t heq =>
      rw [heq] at hremove
      exact hremove

/-- A worker without callbacks leaves. -/
lemma disconnect (b : Books s hand) {w : ℕ} (hw : ∀ c ∈ s.callbacks, c.2.worker ≠ w) :
    Books (s.disconnect w) hand := by
  have hleft : Books (s.setWorker w { s.workers w with channel := .closed }) hand :=
    b.setWorker (fun _ => hw) (List.Subset.refl _) (List.Subset.refl _)
  exact hleft.removeFrom

lemma close (b : Books s hand) (w : ℕ) (key : Str) : Books (s.close w key).1 hand := by
  unfold State.close
  split
  · exact b
  · next i hi =>
    have hremove := b.remove i w
    split
    · next t heq =>
      rw [heq] at hremove
      exact hremove
    · next t heq =>
      rw [heq] at hremove
      exact hremove.delete key
    · next t heq =>
      rw [heq] at hremove
      exact hremove

/-! ### Messages to the master -/

/-- A reply, which for a connection that is sent back finds the server still there. -/
lemma replied (b : Books s []) (q : ℕ) (accepted : Bool)
    (htaken : accepted = true → ∀ c, (q, c) ∈ s.callbacks → c.handle ∈ s.taken)
    (hback : accepted = false → ∀ p, s.callbacks.find? (·.1 = q) = some p →
      ∀ r, s.objects p.2.self = .roundRobin r → r.handle = true ∧
        ∀ w ∈ r.free.head?, w ∈ r.all → s.Open w) : Books (s.ack q accepted).1 [] := by
  unfold State.ack
  split
  · exact b
  · next q' c hfind =>
    obtain ⟨hq, as, bs, hcallbacks, has⟩ := List.find?_eq_some_iff_append.mp hfind
    have hq' : q' = q := by simpa using hq
    have herase : s.callbacks.eraseP (·.1 = q) = as ++ bs := by
      rw [hcallbacks, List.eraseP_append_right _ (fun p hp => by simpa using has p hp),
        List.eraseP_cons_of_pos (p := fun x : ℕ × Callback => decide (x.1 = q)) hq]
    set t : State := { s with callbacks := s.callbacks.eraseP (·.1 = q) } with ht
    have hsub {p : ℕ × Callback} (hp : p ∈ t.callbacks) : p ∈ s.callbacks :=
      List.mem_of_mem_eraseP hp
    have hmem : (q', c) ∈ s.callbacks := List.mem_of_find?_eq_some hfind
    obtain ⟨r, hr⟩ := b.self _ hmem
    have hopen := b.connected _ hmem
    have hin : Books t [c.handle] := by
      refine ⟨b.known, fun p hp => b.self p (hsub hp), fun p hp => b.old p (hsub hp), fun h => ?_,
        b.removed, b.bound, fun p hp => b.connected p (hsub hp), fun hm => ?_, fun hm => ?_,
        b.served⟩
      · have hcount := b.count h
        have hsent : s.sent h = t.sent h + [c.handle].count h := by
          have hrest : t.callbacks = as ++ bs := herase
          unfold State.sent
          rw [hrest, hcallbacks]
          simp only [List.map_append, List.map_cons, List.count_append, List.count_cons,
            List.count_nil]
          omega
        rw [List.count_nil] at hcount
        show s.waiting h + t.sent h + s.accepted.count h + s.closed.count h + _ =
          if h < s.connections then 1 else 0
        omega
      · obtain ⟨hlt, hc⟩ := b.newconn hm
        exact ⟨hlt, fun c hc' => hc c (hsub hc')⟩
      · obtain ⟨hlt, hc⟩ := b.ack hm
        exact ⟨hlt, fun hacc c hc' => hc hacc c (hsub hc')⟩
    dsimp only
    split_ifs with haccepted
    · have hserved : Books { t with accepted := t.accepted ++ [c.handle] } [] := by
        refine ⟨hin.known, hin.self, hin.old, fun h => ?_, hin.removed, hin.bound, hin.connected,
          hin.newconn, hin.ack, fun h hh => ?_⟩
        · have hcount := hin.count h
          show t.waiting h + t.sent h + (t.accepted ++ [c.handle]).count h + t.closed.count h + 0 =
            if h < t.connections then 1 else 0
          rw [List.count_append]
          omega
        · rcases List.mem_append.mp hh with hh | hh
          · exact b.served h hh
          · rw [List.mem_singleton.mp hh]
            exact htaken haccepted c (hq' ▸ hmem)
      exact hserved.handoff fun _ _ _ _ => hopen
    · obtain ⟨hlive, hfree⟩ := hback (by simpa using haccepted) _ hfind r hr
      refine (hin.distribute hr hlive hfree).handoff fun _ _ _ _ => ?_
      exact (State.distribute_channel t c.self c.handle c.worker).trans hopen

lemma done (b : Books s hand) {i w : ℕ} (key : Str) (hw : ∀ r, s.objects i = .roundRobin r →
    r.handles ≠ [] → s.Open w) : Books (s.done i key w) hand :=
  (b.reply w key false false).handoff fun r hr _ hne =>
    (State.send_channel s w _ w).trans (hw r hr hne)

/-- A new object has nothing in its queue. -/
lemma object (b : Books s hand) (key : Str) (shared errno : Bool) :
    Books (s.object key shared errno).1 hand := by
  unfold State.object
  split
  · exact b
  · set o : Obj := if shared then .shared ⟨errno, [], !errno⟩
      else .roundRobin ⟨key, [], [], [], false, .binding, []⟩ with ho
    have hhandles : o.handles = [] := by
      rw [ho]
      split_ifs <;> rfl
    have hne {p : ℕ × Callback} (hp : p ∈ s.callbacks) : p.2.self ≠ s.nextObject := by
      obtain ⟨r, hr⟩ := b.self p hp
      have := b.known hr
      omega
    have hnew : (∀ {r}, o = .roundRobin r → r.handle = false) := fun {r} hr => by
      rw [ho] at hr
      split_ifs at hr
      cases hr
      rfl
    refine ⟨fun {j r} hj => ?_, fun p hp => ?_, b.old, fun h => ?_, fun {j r} hj hf => ?_,
      fun {j r} hj hs => ?_, b.connected, b.newconn, b.ack, b.served⟩
    · rcases eq_or_ne j s.nextObject with rfl | hji
      · exact Nat.lt_succ_self _
      · exact Nat.lt_succ_of_lt (b.known ((State.setObj_ne hji o).symm.trans hj))
    · obtain ⟨r, hr⟩ := b.self p hp
      exact ⟨r, (State.setObj_ne (hne hp) o).trans hr⟩
    · have hwaiting : ∑ j ∈ Finset.range (s.nextObject + 1),
          ((s.setObj s.nextObject o).objects j).handles.count h = s.waiting h := by
        rw [Finset.sum_range_succ, State.setObj_same, hhandles, List.count_nil, Nat.add_zero]
        exact Finset.sum_congr rfl fun j hj => by
          rw [State.setObj_ne (Finset.mem_range.mp hj).ne]
      show (∑ j ∈ Finset.range (s.nextObject + 1),
        ((s.setObj s.nextObject o).objects j).handles.count h) + s.sent h + s.accepted.count h +
          s.closed.count h + _ = _
      rw [hwaiting]
      exact b.count h
    · rcases eq_or_ne j s.nextObject with rfl | hji
      · have hr : o = .roundRobin r := (State.setObj_same _ o).symm.trans hj
        rw [hr] at hhandles
        exact hhandles
      · exact b.removed ((State.setObj_ne hji o).symm.trans hj) hf
    · rcases eq_or_ne j s.nextObject with rfl | hji
      · exact hnew ((State.setObj_same _ o).symm.trans hj)
      · exact b.bound ((State.setObj_ne hji o).symm.trans hj) hs

lemma add (b : Books s hand) {i w : ℕ} (key : Str) (hw : ∀ r, s.objects i = .roundRobin r →
    r.handles ≠ [] → s.Open w) : Books (s.add i key w).1 hand := by
  unfold State.add
  split
  · next o ho =>
    split_ifs
    · exact b
    · exact ((b.setShared ho).delete key).reply w key true _
    · exact (b.setShared ho).reply w key true _
  · next r hr =>
    split_ifs
    · exact b
    · have hin : Books (s.setObj i (.roundRobin { r with all := r.all ++ [w] })) hand :=
        b.setObj_same hr rfl rfl rfl
      refine hin.done key fun r' hr' hne => ?_
      rw [State.setObj_same] at hr'
      cases hr'
      exact hw r hr hne
    · exact b.setObj_same hr rfl rfl rfl
    · exact b.setObj_same hr rfl rfl rfl

end Books

end NodeCore.Cluster
