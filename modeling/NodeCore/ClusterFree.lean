import NodeCore.Cluster
import Mathlib.Data.List.Nodup

/-!
The free list of a `RoundRobinHandle`: a worker is in it at most once, and only while it is listed.
-/

namespace NodeCore.Cluster

open NodeCore.Encoding NodeCore.Reentrant

/-- How many replies of a worker to a handle are under way. -/
def State.replies (s : State) (i w : ℕ) : ℕ :=
  s.callbacks.countP fun p => p.2.self = i ∧ p.2.worker = w

/-- The free lists, with the workers that the function that runs will hand off. -/
structure Rota (s : State) (hand : List (ℕ × ℕ)) : Prop where
  known : ∀ {i r}, s.objects i = .roundRobin r → i < s.nextObject
  self : ∀ p ∈ s.callbacks, p.2.self < s.nextObject
  /-- A worker is free, or will be once, after its reply or when the server is bound. -/
  once : ∀ {i r}, s.objects i = .roundRobin r → ∀ w,
    r.free.count w + r.waiting.count w + s.replies i w + hand.count (i, w) ≤ 1
  listed : ∀ {i r}, s.objects i = .roundRobin r → r.free ⊆ r.all
  apart : ∀ {i r}, s.objects i = .roundRobin r → r.free = [] ∨ r.handles = []

namespace Rota

variable {s : State} {hand hand' : List (ℕ × ℕ)}

lemma init : Rota init [] := by
  refine ⟨fun h => ?_, fun p hp => ?_, fun h => ?_, fun h => ?_, fun h => ?_⟩
  · cases h
  · cases hp
  · cases h
  · cases h
  · cases h

/-- Workers, channels and keys are not looked at. -/
lemma congr {t : State} (h : Rota s hand) (hobjects : t.objects = s.objects)
    (hnext : t.nextObject = s.nextObject) (hcallbacks : t.callbacks = s.callbacks) :
    Rota t hand := by
  have hreplies (i w : ℕ) : t.replies i w = s.replies i w := by
    unfold State.replies
    rw [hcallbacks]
  refine ⟨fun {i r} hr => ?_, fun p hp => ?_, fun {i r} hr w => ?_, fun {i r} hr => ?_,
    fun {i r} hr => ?_⟩
  · rw [hnext]
    exact h.known (hobjects ▸ hr)
  · rw [hnext]
    exact h.self p (hcallbacks ▸ hp)
  · rw [hreplies]
    exact h.once (hobjects ▸ hr) w
  · exact h.listed (hobjects ▸ hr)
  · exact h.apart (hobjects ▸ hr)

/-- A change of one object. -/
lemma setObj (h : Rota s hand) {i : ℕ} {o : Obj} (hi : ∀ r, o = .roundRobin r → i < s.nextObject)
    (honce : ∀ r, o = .roundRobin r → ∀ w,
      r.free.count w + r.waiting.count w + s.replies i w + hand'.count (i, w) ≤ 1)
    (hlisted : ∀ r, o = .roundRobin r → r.free ⊆ r.all)
    (hapart : ∀ r, o = .roundRobin r → r.free = [] ∨ r.handles = [])
    (hother : ∀ j w, j ≠ i → hand'.count (j, w) ≤ hand.count (j, w)) :
    Rota (s.setObj i o) hand' := by
  have hcase {j : ℕ} {r : RoundRobinHandle} (hj : (s.setObj i o).objects j = .roundRobin r) :
      j = i ∧ o = .roundRobin r ∨ j ≠ i ∧ s.objects j = .roundRobin r := by
    rcases eq_or_ne j i with rfl | hne
    · exact .inl ⟨rfl, (State.setObj_same j o).symm.trans hj⟩
    · exact .inr ⟨hne, (State.setObj_ne hne o).symm.trans hj⟩
  refine ⟨fun {j r} hj => ?_, h.self, fun {j r} hj w => ?_, fun {j r} hj => ?_, fun {j r} hj => ?_⟩
  · rcases hcase hj with ⟨rfl, hr⟩ | ⟨-, hr⟩
    · exact hi r hr
    · exact h.known hr
  · show r.free.count w + r.waiting.count w + s.replies j w + hand'.count (j, w) ≤ 1
    rcases hcase hj with ⟨rfl, hr⟩ | ⟨hne, hr⟩
    · exact honce r hr w
    · have hold := h.once hr w
      have hhand := hother j w hne
      omega
  · rcases hcase hj with ⟨-, hr⟩ | ⟨-, hr⟩
    · exact hlisted r hr
    · exact h.listed hr
  · rcases hcase hj with ⟨-, hr⟩ | ⟨-, hr⟩
    · exact hapart r hr
    · exact h.apart hr

/-- A change of one handle, for the same workers in hand. -/
lemma setHandle (h : Rota s hand) {i : ℕ} {r r' : RoundRobinHandle}
    (hr : s.objects i = .roundRobin r)
    (hcount : ∀ w, r'.free.count w + r'.waiting.count w ≤ r.free.count w + r.waiting.count w)
    (hlisted : r'.free ⊆ r'.all) (hapart : r'.free = [] ∨ r'.handles = []) :
    Rota (s.setObj i (.roundRobin r')) hand := by
  refine h.setObj (fun _ _ => h.known hr) (fun r'' heq w => ?_) (fun r'' heq => ?_)
    (fun r'' heq => ?_) fun j w _ => le_rfl
  · cases heq
    have hold := h.once hr w
    have hc := hcount w
    omega
  · cases heq
    exact hlisted
  · cases heq
    exact hapart

lemma setShared (h : Rota s hand) (i : ℕ) (o : SharedHandle) :
    Rota (s.setObj i (.shared o)) hand :=
  h.setObj (fun _ heq => nomatch heq) (fun _ heq => nomatch heq) (fun _ heq => nomatch heq)
    (fun _ heq => nomatch heq) fun _ _ _ => le_rfl

lemma send (h : Rota s hand) (w : ℕ) (m : ToWorker) : Rota (s.send w m) hand :=
  h.congr rfl rfl rfl

lemma delete (h : Rota s hand) (key : Str) : Rota (s.delete key) hand := h.congr rfl rfl rfl

lemma setWorker (h : Rota s hand) (w : ℕ) (p : Worker) : Rota (s.setWorker w p) hand :=
  h.congr rfl rfl rfl

/-- A worker in hand is sent a connection, and hands itself off again with its reply. -/
lemma post {i w : ℕ} {r : RoundRobinHandle} (h : Rota s ((i, w) :: hand))
    (hr : s.objects i = .roundRobin r) (seq handle : ℕ) :
    Rota { s with callbacks := s.callbacks ++ [(seq, ⟨i, handle, w⟩)] } hand := by
  refine ⟨h.known, fun p hp => ?_, fun {j r'} hj v => ?_, h.listed, h.apart⟩
  · rcases List.mem_append.mp hp with hp | hp
    · exact h.self p hp
    · rw [List.mem_singleton.mp hp]
      exact h.known hr
  · have hold := h.once hj v
    simp only [State.replies, List.countP_append, List.countP_singleton, List.count_cons,
      beq_iff_eq, Prod.mk.injEq, decide_eq_true_eq] at hold ⊢
    omega

/-- A worker in hand is free, where nothing waits. -/
lemma push {i w : ℕ} {r : RoundRobinHandle} (h : Rota s ((i, w) :: hand))
    (hr : s.objects i = .roundRobin r) (hall : w ∈ r.all) (hnil : r.handles = []) :
    Rota (s.setObj i (.roundRobin { r with free := r.free ++ [w] })) hand := by
  refine h.setObj (fun _ _ => h.known hr) (fun r' heq v => ?_) (fun r' heq => ?_) (fun r' heq => ?_)
    fun j v _ => ?_
  · cases heq
    have hold := h.once hr v
    simp only [List.count_append, List.count_cons, List.count_nil, beq_iff_eq, Prod.mk.injEq,
      true_and] at hold ⊢
    omega
  · cases heq
    exact List.append_subset.mpr ⟨h.listed hr, by simpa using hall⟩
  · cases heq
    exact .inr hnil
  · rw [List.count_cons]
    omega

lemma drop {p : ℕ × ℕ} (h : Rota s (p :: hand)) : Rota s hand := by
  refine ⟨h.known, h.self, fun hr w => ?_, h.listed, h.apart⟩
  have hold := h.once hr w
  rw [List.count_cons] at hold
  omega

/-! ### `handoff` and `distribute` -/

lemma handoff {i w : ℕ} (h : Rota s ((i, w) :: hand)) : Rota (s.handoff i w) hand := by
  unfold State.handoff
  split
  · exact h.drop
  · next r hr =>
    split_ifs with hall
    · split
      · next hnil => exact h.push hr hall hnil
      · next c cs hcons =>
        -- the queue is not empty, so that nobody is free
        have hfree : r.free = [] := (h.apart hr).resolve_right (by simp [hcons])
        have hsub : r.free ⊆ r.all := h.listed hr
        have hin : Rota (s.setObj i (.roundRobin { r with handles := cs })) ((i, w) :: hand) :=
          h.setHandle hr (fun _ => le_rfl) hsub (.inl hfree)
        exact (hin.post (State.setObj_same i _) _ c).send w _
    · exact h.drop

lemma distribute (h : Rota s hand) (i c : ℕ) : Rota (s.distribute i c) hand := by
  unfold State.distribute
  split
  · exact h
  · next r hr =>
    have hlisted : r.free ⊆ r.all := h.listed hr
    split
    · next hfree => exact h.setHandle hr (fun _ => le_rfl) hlisted (.inl hfree)
    · next w ws hcons =>
      -- a worker is free, so that the connection is the only one
      have hnil : r.handles = [] := (h.apart hr).resolve_left (by simp [hcons])
      have hall : w ∈ r.all := hlisted (by simp [hcons])
      have hsub : ws ⊆ r.all := fun v hv => hlisted (by simp [hcons, hv])
      have hin : Rota (s.setObj i (.roundRobin { r with free := ws })) ((i, w) :: hand) := by
        refine h.setObj (fun _ _ => h.known hr) (fun r' heq v => ?_) (fun r' heq => ?_)
          (fun r' heq => ?_) fun j v hj => ?_
        · cases heq
          have hold := h.once hr v
          simp only [hcons, List.count_cons, beq_iff_eq, Prod.mk.injEq, true_and] at hold ⊢
          omega
        · cases heq
          exact hsub
        · cases heq
          exact .inr hnil
        · rw [List.count_cons_of_ne (by simp [hj.symm])]
      unfold State.handoff
      rw [State.setObj_same]
      dsimp only
      rw [if_neg (by simpa using hall), hnil]
      refine (hin.post (State.setObj_same i _) s.seq c).congr ?_ rfl rfl
      simp [State.send, State.setObj, hnil]

/-! ### Removing a worker -/

lemma remove (h : Rota s hand) (i w : ℕ) : Rota (s.remove i w).1 hand := by
  unfold State.remove
  split
  · exact h.setShared i _
  · next r hr =>
    have hlisted : r.free ⊆ r.all := h.listed hr
    have hsub : r.free.erase w ⊆ r.all.filter (· ≠ w) := fun v hv => by
      have hne : v ≠ w := by
        rintro rfl
        have hpos := List.count_pos_iff.mpr hv
        have hold := h.once hr v
        rw [List.count_erase_self] at hpos
        omega
      simpa [hne] using hlisted (List.mem_of_mem_erase hv)
    have hcount (v : ℕ) : (r.free.erase w).count v ≤ r.free.count v :=
      (List.erase_sublist ..).count_le v
    have hapart : r.free.erase w = [] ∨ r.handles = [] := by
      rcases h.apart hr with hfree | hnil
      · exact .inl (by simp [hfree])
      · exact .inr hnil
    have hset : Rota (s.setObj i (.roundRobin (r.remove w).1)) hand := by
      unfold RoundRobinHandle.remove
      dsimp only
      split_ifs
      · exact h.setHandle hr (fun v => Nat.add_le_add_right (hcount v) _) hsub hapart
      · exact h.setHandle hr (fun v => Nat.add_le_add_right (hcount v) _) hsub (.inr rfl)
      · exact h.setHandle hr (fun v => Nat.add_le_add_right (hcount v) _) hsub (.inr rfl)
      · have hsame : r.free = [] ∨ r.handles = [] := h.apart hr
        exact h.setHandle hr (fun _ => le_rfl) hlisted hsame
    exact hset.congr rfl rfl rfl

lemma removeFrom {w : ℕ} {keys : List (Str × ℕ)} (h : Rota s hand) :
    Rota (State.removeFrom w keys s) hand := by
  induction keys generalizing s with
  | nil => exact h
  | cons p rest ih =>
    obtain ⟨key, i⟩ := p
    have hremove := h.remove i w
    unfold State.removeFrom
    split
    · next t heq =>
      rw [heq] at hremove
      exact ih hremove
    · next t heq =>
      rw [heq] at hremove
      exact ih (hremove.delete key)
    · next t heq =>
      rw [heq] at hremove
      exact hremove

lemma disconnect (h : Rota s hand) (w : ℕ) : Rota (s.disconnect w) hand :=
  (h.setWorker w _).removeFrom

lemma close (h : Rota s hand) (w : ℕ) (key : Str) : Rota (s.close w key).1 hand := by
  unfold State.close
  split
  · exact h
  · next i hi =>
    have hremove := h.remove i w
    split
    · next t heq =>
      rw [heq] at hremove
      exact hremove
    · next t heq =>
      rw [heq] at hremove
      exact hremove.delete key
    · next t heq =>
      rw [heq] at hremove
      exact hremove

/-! ### Messages to the master -/

/-- A reply: the connection may come back, and its worker is handed off. -/
lemma ack (h : Rota s []) (seq : ℕ) (accepted : Bool) : Rota (s.ack seq accepted).1 [] := by
  unfold State.ack
  split
  · exact h
  · next q c hfind =>
    obtain ⟨hq, as, bs, hcallbacks, has⟩ := List.find?_eq_some_iff_append.mp hfind
    have herase : s.callbacks.eraseP (·.1 = seq) = as ++ bs := by
      rw [hcallbacks, List.eraseP_append_right _ (fun p hp => by simpa using has p hp),
        List.eraseP_cons_of_pos (p := fun x : ℕ × Callback => decide (x.1 = seq)) hq]
    have hin : Rota { s with callbacks := s.callbacks.eraseP (·.1 = seq) }
        [(c.self, c.worker)] := by
      refine ⟨h.known, fun p hp => h.self p (List.mem_of_mem_eraseP hp), fun {i r} hr w => ?_,
        h.listed, h.apart⟩
      have hold := h.once hr w
      simp only [State.replies, herase]
      simp only [State.replies, hcallbacks, List.countP_append, List.countP_cons,
        decide_eq_true_eq, List.count_nil] at hold
      simp only [List.countP_append, List.count_cons, List.count_nil, beq_iff_eq, Prod.mk.injEq]
      omega
    dsimp only
    split_ifs
    · have hserved : Rota { s with
          callbacks := s.callbacks.eraseP (·.1 = seq)
          accepted := s.accepted ++ [c.handle] } [(c.self, c.worker)] := hin.congr rfl rfl rfl
      exact hserved.handoff
    · exact (hin.distribute c.self c.handle).handoff

lemma done {i w : ℕ} (h : Rota s ((i, w) :: hand)) (key : Str) : Rota (s.done i key w) hand :=
  (h.send w _).handoff

/-- A new handle has no callbacks yet. -/
lemma object (h : Rota s []) (key : Str) (shared errno : Bool) :
    Rota (s.object key shared errno).1 [] := by
  unfold State.object
  split
  · exact h
  · have hnext : Rota { s with nextObject := s.nextObject + 1 } [] :=
      ⟨fun hr => Nat.lt_succ_of_lt (h.known hr), fun p hp => Nat.lt_succ_of_lt (h.self p hp),
        h.once, h.listed, h.apart⟩
    have hnone (w : ℕ) : s.replies s.nextObject w = 0 := by
      refine List.countP_eq_zero.mpr fun p hp => ?_
      have hlt := h.self p hp
      simp only [decide_eq_true_eq, not_and]
      omega
    have hset : Rota ({ s with nextObject := s.nextObject + 1 }.setObj s.nextObject
        (if shared then .shared ⟨errno, [], !errno⟩
          else .roundRobin ⟨key, [], [], [], false, .binding, []⟩)) [] := by
      refine hnext.setObj (fun _ _ => Nat.lt_succ_self _) (fun r hr w => ?_) (fun r hr => ?_)
        (fun r hr => ?_) fun _ _ _ => le_rfl
      · split_ifs at hr
        cases hr
        have hnone' : State.replies { s with nextObject := s.nextObject + 1 } s.nextObject w = 0 :=
          hnone w
        simp [hnone']
      · split_ifs at hr
        cases hr
        exact List.nil_subset _
      · split_ifs at hr
        cases hr
        exact .inl rfl
    exact hset.congr rfl rfl rfl

/-- A worker is listed that is not under way. -/
lemma list (h : Rota s []) {i w : ℕ} {r r' : RoundRobinHandle} (hr : s.objects i = .roundRobin r)
    (hall : w ∉ r.all) (hw : w ∉ r.waiting ∧ s.replies i w = 0) (hfree : r'.free = r.free)
    (hall' : r'.all = r.all ++ [w]) (hhandles : r'.handles = r.handles)
    (hcount : ∀ v, r'.waiting.count v + hand.count (i, v) = r.waiting.count v + [w].count v)
    (hother : ∀ j v, j ≠ i → (j, v) ∉ hand) : Rota (s.setObj i (.roundRobin r')) hand := by
  obtain ⟨hwaiting, hreplies⟩ := hw
  have hlisted : r.free ⊆ r.all := h.listed hr
  refine h.setObj (fun _ _ => h.known hr) (fun r'' heq v => ?_) (fun r'' heq => ?_)
    (fun r'' heq => ?_) fun j v hj => ?_
  · cases heq
    have hold := h.once hr v
    have hc := hcount v
    rw [hfree]
    rcases eq_or_ne v w with rfl | hne
    · have hnone : r.free.count v = 0 := List.count_eq_zero.mpr fun hm => hall (hlisted hm)
      have hnone' : r.waiting.count v = 0 := List.count_eq_zero.mpr hwaiting
      simp only [List.count_singleton_self] at hc
      omega
    · rw [List.count_cons_of_ne hne.symm, List.count_nil] at hc
      omega
  · cases heq
    rw [hfree, hall']
    exact fun v hv => List.mem_append_left _ (hlisted hv)
  · cases heq
    rw [hfree, hhandles]
    exact h.apart hr
  · rw [List.count_eq_zero.mpr (hother j v hj)]
    exact Nat.zero_le _

lemma add (h : Rota s []) {i w : ℕ} (key : Str) (hw : ∀ r, s.objects i = .roundRobin r →
    w ∉ r.all → w ∉ r.waiting ∧ s.replies i w = 0) : Rota (s.add i key w).1 [] := by
  unfold State.add
  split
  · next o ho =>
    split_ifs
    · exact h
    · exact ((h.setShared i _).delete key).send w _
    · exact (h.setShared i _).send w _
  · next r hr =>
    split_ifs with hall
    · exact h
    · have hin : Rota (s.setObj i (.roundRobin { r with all := r.all ++ [w] })) [(i, w)] := by
        refine h.list hr hall (hw r hr hall) rfl rfl rfl (fun v => ?_) fun j v hj => ?_
        · simp [List.count_singleton]
        · simp [hj]
      exact hin.done key
    · have hlisted : r.free ⊆ r.all := h.listed hr
      have hapart : r.free = [] ∨ r.handles = [] := h.apart hr
      exact h.setHandle hr (fun _ => le_rfl) (fun v hv => List.mem_append_left _ (hlisted hv))
        hapart
    · exact h.list hr hall (hw r hr hall) rfl rfl rfl (fun v => by simp) fun j v _ => by simp

/-! ### Steps -/

lemma doneAll {i : ℕ} {key : Str} {ws : List ℕ} (h : Rota s (ws.map (i, ·))) :
    Rota (State.doneAll i key ws s) [] := by
  induction ws generalizing s with
  | nil => exact h
  | cons w ws ih => exact ih (h.done key)

lemma failAll {key : Str} {ws : List ℕ} (h : Rota s hand) :
    Rota (State.failAll key ws s) hand := by
  induction ws generalizing s with
  | nil => exact h
  | cons w ws ih => exact ih ((h.delete key).send w _)

lemma report (h : Rota s hand) (w : ℕ) (m : ToMaster) : Rota (s.report w m) hand := by
  unfold State.report
  dsimp only
  split_ifs
  · exact h.setWorker w _
  · exact h

lemma receive (h : Rota s hand) (w : ℕ) (m : ToWorker) : Rota (s.receive w m) hand := by
  cases m with
  | newconn seq key handle =>
    have htake (taken : List ℕ) : Rota { s with taken := taken } hand := h.congr rfl rfl rfl
    exact (htake _).report w _
  | reply key shared errno =>
    unfold State.receive
    dsimp only
    split_ifs
    · exact h
    · exact h.setWorker w _

lemma closeServer (h : Rota s hand) (w : ℕ) (key : Str) : Rota (s.closeServer w key) hand := by
  unfold State.closeServer
  dsimp only
  split
  · exact h
  · split_ifs
    · exact h.setWorker w _
    · exact (h.setWorker w _).report w _

lemma listening {t : State} (h : Rota s []) {i : ℕ} (hs : s.listening i = some t) : Rota t [] := by
  unfold State.listening at hs
  split at hs
  · cases hs
  · next r hr =>
    split_ifs at hs with hbinding
    cases hs
    have hlisted : r.free ⊆ r.all := h.listed hr
    have hapart : r.free = [] ∨ r.handles = [] := h.apart hr
    have hin : Rota (s.setObj i (.roundRobin
        { r with handle := true, server := .null, waiting := [] })) (r.waiting.map (i, ·)) := by
      refine h.setObj (fun _ _ => h.known hr) (fun r' heq w => ?_) (fun r' heq => ?_)
        (fun r' heq => ?_) fun j w hj => ?_
      · cases heq
        have hold := h.once hr w
        have hmap : (r.waiting.map (i, ·)).count (i, w) = r.waiting.count w :=
          List.count_map_of_injective _ _ (Prod.mk_right_injective i) w
        simp only [List.count_nil] at hold ⊢
        omega
      · cases heq
        exact hlisted
      · cases heq
        exact hapart
      · have hnone : (j, w) ∉ r.waiting.map (i, ·) := by simp [hj.symm]
        simp [List.count_eq_zero.mpr hnone]
    exact hin.doneAll

lemma error {t : State} (h : Rota s []) {i : ℕ} (hs : s.error i = some t) : Rota t [] := by
  unfold State.error at hs
  split at hs
  · cases hs
  · next r hr =>
    split_ifs at hs with hbinding
    cases hs
    have hlisted : r.free ⊆ r.all := h.listed hr
    have hapart : r.free = [] ∨ r.handles = [] := h.apart hr
    have hin : Rota (s.setObj i (.roundRobin { r with server := .failed, waiting := [] })) [] :=
      h.setHandle hr (fun w => by simp) hlisted hapart
    exact hin.failAll

lemma connection {t : State} (h : Rota s []) {i : ℕ} (hs : s.connection i = some t) :
    Rota t [] := by
  unfold State.connection at hs
  split at hs
  · cases hs
  · split_ifs at hs
    cases hs
    have hin : Rota { s with connections := s.connections + 1 } [] := h.congr rfl rfl rfl
    exact hin.distribute i _

end Rota

/-! ### Runs -/

/-- A worker listens on a handle only when no reply of it to the handle is under way, and it does
not wait already for the handle to be bound. -/
def Fresh (s : State) : Act → Prop
  | .deliver w _ => ∀ key shared, (s.workers w).toMaster.head? = some (.queryServer key shared) →
      ∀ i, s.lookup key = some i → ∀ r, s.objects i = .roundRobin r → w ∉ r.all →
        w ∉ r.waiting ∧ s.replies i w = 0
  | _ => True

namespace Rota

variable {s t : State}

lemma onmessage (h : Rota s []) {w : ℕ} (errno : Bool) {m : ToMaster}
    (hquery : ∀ key shared, m = .queryServer key shared → ∀ i, s.lookup key = some i →
      ∀ r, s.objects i = .roundRobin r → w ∉ r.all → w ∉ r.waiting ∧ s.replies i w = 0) :
    Rota (s.onmessage w errno m).1 [] := by
  cases m with
  | queryServer key shared =>
    have hobject := h.object key shared errno
    refine hobject.add key fun r hr hall => ?_
    unfold State.object at hr ⊢
    split at hr
    · next i hi => exact hquery key shared rfl i hi r hr hall
    · -- the handle is new
      have ho := (State.setObj_same (s := s) s.nextObject _).symm.trans hr
      split_ifs at ho
      cases ho
      refine ⟨List.not_mem_nil, List.countP_eq_zero.mpr fun p hp => ?_⟩
      have hlt := h.self p hp
      simp only [decide_eq_true_eq, not_and]
      omega
  | ack q accepted => exact h.ack q accepted
  | close key => exact h.close w key

lemma deliver (h : Rota s []) {w : ℕ} {errno : Bool} (hfresh : Fresh s (.deliver w errno))
    (hs : deliver s w errno = some t) : Rota t [] := by
  unfold Cluster.deliver at hs
  dsimp only at hs
  split at hs
  · cases hs
  · next m ms hm =>
    cases hs
    have hin : Rota (s.setWorker w { s.workers w with toMaster := ms }) [] := h.setWorker w _
    have hmsg := hin.onmessage errno (m := m) fun key shared hmk i hi r hr hall =>
      hfresh key shared (by rw [hm, hmk]; rfl) i hi r hr hall
    split_ifs
    · exact hmsg.disconnect w
    · exact hmsg

lemma hangup (h : Rota s []) {w : ℕ} {buffering : Bool} {read : ℕ}
    (hs : hangup s w buffering read = some t) : Rota t [] := by
  unfold Cluster.hangup at hs
  dsimp only at hs
  split_ifs at hs
  · cases hs
    exact h.setWorker w _
  · cases hs
    exact (h.setWorker w _).disconnect w

/-- One step. -/
lemma step {a : Act} (h : Rota s []) (hfresh : Fresh s a) (hs : step s a = some t) :
    Rota t [] := by
  cases a with
  | fork =>
    cases hs
    exact h.congr rfl rfl rfl
  | listen w key shared =>
    cases hs
    exact h.report w _
  | closeServer w key =>
    cases hs
    exact h.closeServer w key
  | receive w =>
    unfold Cluster.step at hs
    dsimp only at hs
    split at hs
    · cases hs
    · cases hs
      exact (h.setWorker w _).receive w _
  | deliver w errno => exact h.deliver hfresh hs
  | hangup w buffering read => exact h.hangup hs
  | listening i => exact h.listening hs
  | error i => exact h.error hs
  | connection i => exact h.connection hs

end Rota

/-- **The free list.** In every run in which no worker listens again on a handle while an earlier
reply of it to that handle is under way, no worker is free twice, all that are free are listed, and
nobody is free while connections wait. -/
theorem free_list {s : State} (h : Run step (fun s a _ => Fresh s a) init s) {i : ℕ}
    {r : RoundRobinHandle} (hr : s.objects i = .roundRobin r) :
    r.free.Nodup ∧ r.free ⊆ r.all ∧ (r.free = [] ∨ r.handles = []) := by
  have hrota : Rota s [] := h.invariant (I := fun s => Rota s []) .init
    fun n a n' hn hs hfresh => hn.step hfresh hs
  refine ⟨List.nodup_iff_count_le_one.mpr fun w => ?_, hrota.listed hr, hrota.apart hr⟩
  have honce := hrota.once hr w
  omega

/-- A worker listens, is sent a connection, closes its server and listens again once it has
replied. -/
def again : List Act :=
  [.fork, .fork, .listen 0 [56] false, .deliver 0 false, .listen 1 [56] false, .deliver 1 false,
    .listening 0, .receive 0, .connection 0, .receive 0, .deliver 0 false, .closeServer 0 [56],
    .deliver 0 false, .listen 0 [56] false, .deliver 0 false]

theorem free_list_again :
    ∃ s r, Run step (fun s a _ => Fresh s a) init s ∧ s.objects 0 = .roundRobin r ∧
      r.free = [1, 0] ∧ r.free.Nodup ∧ r.free ⊆ r.all ∧ (r.free = [] ∨ r.handles = []) := by
  have hrun : ∃ s r, Run step (fun s a _ => Fresh s a) init s ∧ s.objects 0 = .roundRobin r ∧
      r.free = [1, 0] := by
    refine ⟨_, _, Run.of_path .refl (w := again)
      ⟨_, rfl, trivial, _, rfl, trivial, _, rfl, trivial, _, rfl, ?_, _, rfl, trivial,
        _, rfl, ?_, _, rfl, trivial, _, rfl, trivial, _, rfl, trivial, _, rfl, trivial,
        _, rfl, ?_, _, rfl, trivial, _, rfl, ?_, _, rfl, trivial, _, rfl, ?_, rfl⟩, rfl, rfl⟩
    · rintro key shared h i hi
      cases h
      cases hi
    · rintro key shared h i hi r hr -
      cases h
      cases hi
      cases hr
      exact ⟨by decide, rfl⟩
    · rintro key shared h
      cases h
    · rintro key shared h
      cases h
    · rintro key shared h i hi r hr -
      cases h
      cases hi
      cases hr
      exact ⟨by decide, rfl⟩
  obtain ⟨s, r, hs, hr, hfree⟩ := hrun
  exact ⟨s, r, hs, hr, hfree, free_list hs hr⟩

/-- A worker listens again with a reply under way. -/
def twice : List Act :=
  [.fork, .fork, .listen 0 [56] false, .deliver 0 false, .listen 1 [56] false, .deliver 1 false,
    .listening 0, .receive 0, .receive 1, .connection 0, .closeServer 0 [56],
    .listen 0 [56] false, .deliver 0 false, .deliver 0 false, .receive 0, .deliver 0 false]

/-- It closes its server once more. -/
def stale : List Act := [.receive 0, .closeServer 0 [56], .deliver 0 false]

/-- The other worker replies, and a connection comes. -/
def stuck : List Act := [.receive 1, .deliver 1 false, .connection 0]

theorem free_list_twice :
    (∃ s r, Run step (fun _ _ _ => True) init s ∧ s.objects 0 = .roundRobin r ∧
      r.free = [0, 0] ∧ ¬ r.free.Nodup) ∧
    (∃ s r, Run step (fun _ _ _ => True) init s ∧ s.objects 0 = .roundRobin r ∧
      r.free = [0] ∧ r.all = [1] ∧ ¬ r.free ⊆ r.all) ∧
    ∃ s r, Run step (fun _ _ _ => True) init s ∧ s.objects 0 = .roundRobin r ∧
      r.free = [1] ∧ r.handles = [1] := by
  refine ⟨⟨_, _, Run.of_foldlM (w := twice) rfl, rfl, rfl, by decide⟩,
    ⟨_, _, Run.of_foldlM (w := twice ++ stale) rfl, rfl, rfl, rfl, by decide⟩,
    _, _, Run.of_foldlM (w := twice ++ stale ++ stuck) rfl, rfl, rfl, rfl⟩

end NodeCore.Cluster
