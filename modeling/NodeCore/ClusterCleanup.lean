import Mathlib.Data.List.Nodup
import NodeCore.Cluster

/-!
What the master does about a worker that has gone, or that closes what it listens on.
-/

namespace NodeCore.Cluster

open NodeCore.Encoding NodeCore.Reentrant

/-! ### The program -/

/-- The workers that a handle serves. -/
def Obj.members : Obj → List ℕ
  | .shared h => h.workers
  | .roundRobin r => r.all

/-- The loop over the handles, and whether it comes to its end. -/
def State.cleanup (w : ℕ) : List (Str × ℕ) → State → State × Bool
  | [], s => (s, true)
  | (key, i) :: rest, s =>
    match s.remove i w with
    | (t, .no) => cleanup w rest t
    | (t, .yes) => cleanup w rest (t.delete key)
    | (t, .throw) => (t, false)

/-- The event `'disconnect'`, and whether its listener returns. -/
def State.disconnected (s : State) (w : ℕ) : State × Bool :=
  State.cleanup w s.handles (s.setWorker w { s.workers w with channel := .closed })

/-! ### The claim -/

/-- A master. Each key has a handle of its own, and no worker is on a list twice. -/
structure Master where
  state : State
  distinct : (state.handles.map Prod.snd).Nodup
  once : ∀ i, (state.objects i).members.Nodup

/-- **What is claimed.** The worker is taken from the handles in question and nothing else is done
to the members of any; and nothing throws. -/
structure Cleared (w : ℕ) (handles : List ℕ) (s : State) (r : State × Bool) : Prop where
  returned : r.2 = true
  removed : ∀ i ∈ handles, w ∉ (r.1.objects i).members
  others : ∀ i v, v ≠ w → (v ∈ (r.1.objects i).members ↔ v ∈ (s.objects i).members)
  frame : ∀ i, i ∉ handles → r.1.objects i = s.objects i

/-- The worker can be removed. -/
def Obj.Removable (w : ℕ) : Obj → Prop
  | .shared h => w ∈ h.workers ∧ (h.workers = [w] → h.handle = true)
  | .roundRobin r => w ∈ r.all → (∀ v ∈ r.all, v = w) → r.handle = true

/-! ### One handle -/

variable {s t : State} {w i j : ℕ}

/-- What `remove` does to the members. -/
structure Obj.Lacks (w : ℕ) (o o' : Obj) : Prop where
  removed : w ∉ o'.members
  others : ∀ v, v ≠ w → (v ∈ o'.members ↔ v ∈ o.members)
  sublist : o'.members.Sublist o.members

lemma SharedHandle.remove_spec {h : SharedHandle} (hn : h.workers.Nodup) :
    ((h.remove w).2 ≠ .throw ↔ (Obj.shared h).Removable w) ∧
    ((h.remove w).2 ≠ .throw → (Obj.shared h).Lacks w (.shared (h.remove w).1)) := by
  unfold SharedHandle.remove
  by_cases hw : w ∈ h.workers
  · have hlast : h.workers.erase w ≠ [] ↔ ¬ h.workers = [w] := by
      refine not_congr ⟨fun he => ?_, fun he => by rw [he, List.erase_cons_head]⟩
      have hperm := List.perm_cons_erase hw
      rw [he] at hperm
      exact List.perm_singleton.mp hperm
    have hlacks : ∀ b, (Obj.shared h).Lacks w (.shared ⟨h.errno, h.workers.erase w, b⟩) := fun b =>
      ⟨hn.not_mem_erase, fun v hv => List.mem_erase_of_ne hv, List.erase_sublist⟩
    rw [if_neg (not_not.mpr hw)]
    dsimp only
    by_cases hrest : h.workers.erase w ≠ []
    · rw [if_pos hrest]
      refine ⟨⟨fun _ => ⟨hw, fun he => absurd he (hlast.mp hrest)⟩, fun _ => by simp⟩, fun _ => ?_⟩
      exact hlacks h.handle
    · rw [if_neg hrest]
      have hone : h.workers = [w] := not_not.mp fun hne => hrest (hlast.mpr hne)
      split_ifs with hh
      · exact ⟨⟨fun _ => ⟨hw, fun _ => hh⟩, fun _ => by simp⟩, fun _ => hlacks false⟩
      · exact ⟨⟨fun hc => absurd rfl hc, fun hr => absurd (hr.2 hone) hh⟩, fun hc => absurd rfl hc⟩
  · rw [if_pos hw]
    exact ⟨⟨fun hc => absurd rfl hc, fun hr => absurd hr.1 hw⟩, fun hc => absurd rfl hc⟩

lemma RoundRobinHandle.remove_spec (r : RoundRobinHandle) :
    ((r.remove w).2 ≠ .throw ↔ (Obj.roundRobin r).Removable w) ∧
    ((r.remove w).2 ≠ .throw → (Obj.roundRobin r).Lacks w (.roundRobin (r.remove w).1)) := by
  unfold RoundRobinHandle.remove
  by_cases hw : w ∈ r.all
  · have hlast : r.all.filter (· ≠ w) ≠ [] ↔ ¬ ∀ v ∈ r.all, v = w := by
      simp [List.filter_eq_nil_iff]
    have hlacks : ∀ r' : RoundRobinHandle, r'.all = r.all.filter (· ≠ w) →
        (Obj.roundRobin r).Lacks w (.roundRobin r') := by
      intro r' hr'
      refine ⟨?_, fun v hv => ?_, ?_⟩
      · show w ∉ r'.all
        rw [hr']
        simp
      · show v ∈ r'.all ↔ v ∈ r.all
        rw [hr']
        simp [hv]
      · show r'.all.Sublist r.all
        rw [hr']
        exact List.filter_sublist
    rw [if_neg (not_not.mpr hw)]
    dsimp only
    by_cases hrest : r.all.filter (· ≠ w) ≠ []
    · rw [if_pos hrest]
      exact ⟨⟨fun _ _ he => absurd he (hlast.mp hrest), fun _ => by simp⟩, fun _ => hlacks _ rfl⟩
    · rw [if_neg hrest]
      have hone : ∀ v ∈ r.all, v = w := not_not.mp fun hne => hrest (hlast.mpr hne)
      split_ifs with hh
      · exact ⟨⟨fun _ _ _ => hh, fun _ => by simp⟩, fun _ => hlacks _ rfl⟩
      · exact ⟨⟨fun hc => absurd rfl hc, fun hr => absurd (hr hw hone) hh⟩,
          fun hc => absurd rfl hc⟩
  · rw [if_pos hw]
    refine ⟨⟨fun _ hc => absurd hc hw, fun _ => by simp⟩, fun _ => ?_⟩
    exact ⟨hw, fun _ _ => Iff.rfl, List.Sublist.refl _⟩

namespace State

lemma remove_objects_ne (hj : j ≠ i) : (s.remove i w).1.objects j = s.objects j := by
  unfold remove
  split
  · exact setObj_ne hj _
  · exact setObj_ne hj _

/-- One handle is asked to remove the worker. -/
lemma remove_spec (hn : (s.objects i).members.Nodup) :
    ((s.remove i w).2 ≠ .throw ↔ (s.objects i).Removable w) ∧
    ((s.remove i w).2 ≠ .throw → (s.objects i).Lacks w ((s.remove i w).1.objects i)) := by
  unfold remove
  cases ho : s.objects i with
  | shared h =>
    rw [ho] at hn
    dsimp only
    rw [setObj_same]
    exact SharedHandle.remove_spec hn
  | roundRobin r =>
    have hsame (o : Obj) (closed : List ℕ) :
        ({ s.setObj i o with closed := closed } : State).objects i = o := setObj_same i o
    dsimp only
    rw [hsame]
    exact RoundRobinHandle.remove_spec r

lemma remove_nodup (hn : ∀ j, (s.objects j).members.Nodup) (h : (s.remove i w).2 ≠ .throw) (j : ℕ) :
    ((s.remove i w).1.objects j).members.Nodup := by
  rcases eq_or_ne j i with rfl | hj
  · exact ((remove_spec (hn j)).2 h).sublist.nodup (hn j)
  · rw [remove_objects_ne hj]
    exact hn j

/-! ### All handles -/

lemma cleanup_throw {key : Str} {rest : List (Str × ℕ)} (h : (s.remove i w).2 = .throw) :
    cleanup w ((key, i) :: rest) s = ((s.remove i w).1, false) := by
  rw [cleanup]
  split
  · next t hr => rw [hr] at h; cases h
  · next t hr => rw [hr] at h; cases h
  · next t hr => rw [hr]

lemma cleanup_next (key : Str) (rest : List (Str × ℕ)) (h : (s.remove i w).2 ≠ .throw) :
    ∃ t : State, t.objects = (s.remove i w).1.objects ∧
      cleanup w ((key, i) :: rest) s = cleanup w rest t := by
  rw [cleanup]
  split
  · next t hr => exact ⟨t, by rw [hr], rfl⟩
  · next t hr => exact ⟨t.delete key, by rw [hr]; rfl, rfl⟩
  · next t hr => exact absurd (by rw [hr]) h

/-- **The loop** comes to its end if each handle can be asked. -/
lemma cleanup_spec {handles : List (Str × ℕ)} (hd : (handles.map Prod.snd).Nodup)
    (hn : ∀ j, (s.objects j).members.Nodup) :
    ((cleanup w handles s).2 = true ↔ ∀ p ∈ handles, (s.objects p.2).Removable w) ∧
    ((cleanup w handles s).2 = true →
      Cleared w (handles.map Prod.snd) s (cleanup w handles s)) := by
  induction handles generalizing s with
  | nil => exact ⟨by simp [cleanup], fun _ => ⟨rfl, by simp, fun _ _ _ => Iff.rfl, fun _ _ => rfl⟩⟩
  | cons p rest ih =>
    obtain ⟨key, i⟩ := p
    obtain ⟨hi, hd⟩ := List.nodup_cons.mp hd
    obtain ⟨hok, hlacks⟩ := remove_spec (w := w) (hn i)
    have hall : (∀ p ∈ (key, i) :: rest, (s.objects p.2).Removable w) ↔
        (s.objects i).Removable w ∧ ∀ p ∈ rest, (s.objects p.2).Removable w := by simp
    rw [hall]
    by_cases hthrow : (s.remove i w).2 = .throw
    · rw [cleanup_throw hthrow]
      refine ⟨⟨fun hc => (by cases hc), fun hr => ?_⟩, fun hc => by cases hc⟩
      exact absurd hthrow (hok.mpr hr.1)
    · obtain ⟨t, ht, heq⟩ := cleanup_next key rest hthrow
      have hlacks := hlacks hthrow
      have hself : t.objects i = (s.remove i w).1.objects i := by rw [ht]
      have hne {j : ℕ} (hj : j ≠ i) : t.objects j = s.objects j := by
        rw [ht]
        exact remove_objects_ne hj
      have hout {q : Str × ℕ} (hq : q ∈ rest) : q.2 ≠ i := by
        rintro rfl
        exact hi (List.mem_map.mpr ⟨q, hq, rfl⟩)
      have hsame : (∀ p ∈ rest, (t.objects p.2).Removable w) ↔
          ∀ p ∈ rest, (s.objects p.2).Removable w :=
        forall₂_congr fun q hq => by rw [hne (hout hq)]
      obtain ⟨hiff, hcleared⟩ := ih hd (s := t) fun j => by
        rw [ht]
        exact remove_nodup hn hthrow j
      rw [heq, hiff, hsame]
      refine ⟨⟨fun hr => ⟨hok.mp hthrow, hr⟩, fun hr => hr.2⟩, fun hr => ?_⟩
      have hc := hcleared (hiff.mpr (hsame.mpr hr))
      refine ⟨hc.returned, fun j hj => ?_, fun j v hv => ?_, fun j hj => ?_⟩
      · rcases List.mem_cons.mp hj with rfl | hj
        · rw [hc.frame j hi, hself]
          exact hlacks.removed
        · exact hc.removed j hj
      · rw [hc.others j v hv]
        rcases eq_or_ne j i with rfl | hji
        · rw [hself]
          exact hlacks.others v hv
        · rw [hne hji]
      · obtain ⟨hji, hrest⟩ : j ≠ i ∧ j ∉ rest.map Prod.snd := by
          simpa only [List.map_cons, List.mem_cons, not_or] using hj
        rw [hc.frame j hrest, hne hji]

lemma cleanup_fst (handles : List (Str × ℕ)) (s : State) :
    (cleanup w handles s).1 = removeFrom w handles s := by
  induction handles generalizing s with
  | nil => rfl
  | cons p rest ih =>
    obtain ⟨key, i⟩ := p
    rw [cleanup, removeFrom]
    rcases s.remove i w with ⟨t, _ | _ | _⟩
    · exact ih _
    · exact ih _
    · rfl

/-- The master of the runs does the same. -/
lemma disconnected_fst (s : State) (w : ℕ) : (s.disconnected w).1 = s.disconnect w :=
  cleanup_fst s.handles _

/-! ### The named handle -/

lemma close_none {key : Str} (h : s.lookup key = none) : s.close w key = (s, false) := by
  unfold close
  rw [h]

lemma close_some {key : Str} (h : s.lookup key = some i) :
    ((s.close w key).2 = true ↔ (s.remove i w).2 ≠ .throw) ∧
      (s.close w key).1.objects = (s.remove i w).1.objects := by
  unfold close
  rw [h]
  dsimp only
  split
  · next t hr => rw [hr]; simp
  · next t hr => rw [hr]; exact ⟨by simp, rfl⟩
  · next t hr => rw [hr]; simp

lemma close_spec {key : Str} (hn : ∀ j, (s.objects j).members.Nodup) :
    Cleared w (s.lookup key).toList s (s.close w key) ↔
      ∃ i, s.lookup key = some i ∧ (s.objects i).Removable w := by
  cases hl : s.lookup key with
  | none =>
    rw [close_none hl]
    refine ⟨fun hc => (by cases hc.returned), fun hr => ?_⟩
    obtain ⟨i, hi, -⟩ := hr
    cases hi
  | some i =>
    obtain ⟨hreturn, hobjects⟩ := close_some (w := w) hl
    obtain ⟨hok, hlacks⟩ := remove_spec (w := w) (hn i)
    constructor
    · exact fun hc => ⟨i, rfl, hok.mp (hreturn.mp hc.returned)⟩
    · rintro ⟨i', hi', hr⟩
      obtain rfl := Option.some.inj hi'
      have hlacks := hlacks (hok.mpr hr)
      refine ⟨hreturn.mpr (hok.mpr hr), fun j hj => ?_, fun j v hv => ?_, fun j hj => ?_⟩
      · obtain rfl : j = i := by simpa using hj
        rw [hobjects]
        exact hlacks.removed
      · rw [hobjects]
        rcases eq_or_ne j i with rfl | hji
        · exact hlacks.others v hv
        · rw [remove_objects_ne hji]
      · rw [hobjects]
        exact remove_objects_ne (by simpa using hj)

end State

/-- **The worker is removed** without an exception if and only if each handle that is asked can
remove it: all of them on `'disconnect'`, the named one, which is to be there, on `close`. -/
theorem cleared_iff (m : Master) (w : ℕ) (key : Str) :
    (Cleared w (m.state.handles.map Prod.snd) m.state (m.state.disconnected w) ↔
      ∀ p ∈ m.state.handles, (m.state.objects p.2).Removable w) ∧
    (Cleared w (m.state.lookup key).toList m.state (m.state.close w key) ↔
      ∃ i, m.state.lookup key = some i ∧ (m.state.objects i).Removable w) := by
  refine ⟨?_, State.close_spec m.once⟩
  obtain ⟨hiff, hcleared⟩ := @State.cleanup_spec
    (m.state.setWorker w { m.state.workers w with channel := .closed }) w _ m.distinct m.once
  refine ⟨fun h => hiff.mp h.returned, fun h => ?_⟩
  have hc := hcleared (hiff.mpr h)
  exact ⟨hc.returned, hc.removed, hc.others, hc.frame⟩

/-! ### The masters of the runs -/

/-- What most of the functions do to the handles and their members. -/
structure Tame (s t : State) : Prop where
  handles : t.handles.Sublist s.handles
  next : t.nextObject = s.nextObject
  members : ∀ i, (t.objects i).members.Sublist (s.objects i).members

namespace Tame

variable {u : State}

lemma refl (s : State) : Tame s s := ⟨.refl _, rfl, fun _ => .refl _⟩

lemma trans (h : Tame s t) (h' : Tame t u) : Tame s u :=
  ⟨h'.handles.trans h.handles, h'.next.trans h.next, fun i => (h'.members i).trans (h.members i)⟩

lemma of_eq (hh : t.handles = s.handles) (hn : t.nextObject = s.nextObject)
    (ho : t.objects = s.objects) : Tame s t :=
  ⟨by rw [hh], hn, fun _ => by rw [ho]⟩

lemma setObj {o : Obj} (h : o.members.Sublist (s.objects i).members) : Tame s (s.setObj i o) := by
  refine ⟨.refl _, rfl, fun j => ?_⟩
  rcases eq_or_ne j i with rfl | hj
  · rw [State.setObj_same]
    exact h
  · rw [State.setObj_ne hj]

/-- A handle with the same workers. -/
lemma setHandle {r r' : RoundRobinHandle} (hr : s.objects i = .roundRobin r)
    (hall : r'.all.Sublist r.all) : Tame s (s.setObj i (.roundRobin r')) := by
  refine setObj ?_
  rw [hr]
  exact hall

lemma setWorker (s : State) (w : ℕ) (p : Worker) : Tame s (s.setWorker w p) := of_eq rfl rfl rfl

lemma send (s : State) (w : ℕ) (m : ToWorker) : Tame s (s.send w m) := of_eq rfl rfl rfl

lemma delete (s : State) (key : Str) : Tame s (s.delete key) :=
  ⟨List.filter_sublist, rfl, fun _ => .refl _⟩

lemma handoff (s : State) (i w : ℕ) : Tame s (s.handoff i w) := by
  unfold State.handoff
  split
  · exact .refl s
  · next r hr =>
    split_ifs
    · split
      · exact setHandle hr (.refl _)
      · next h hs hqueue =>
        have hset : Tame s (s.setObj i (.roundRobin { r with handles := hs })) :=
          setHandle hr (.refl _)
        exact hset.trans (of_eq rfl rfl rfl)
    · exact .refl s

lemma distribute (s : State) (i h : ℕ) : Tame s (s.distribute i h) := by
  unfold State.distribute
  split
  · exact .refl s
  · next r hr =>
    split
    · exact setHandle hr (.refl _)
    · refine trans ?_ (handoff _ i _)
      exact setHandle hr (.refl _)

lemma remove (s : State) (i w : ℕ) : Tame s (s.remove i w).1 := by
  unfold State.remove
  split
  · next h hh =>
    refine setObj ?_
    rw [hh]
    show (h.remove w).1.workers.Sublist h.workers
    unfold SharedHandle.remove
    dsimp only
    split_ifs
    · exact List.erase_sublist
    · exact List.erase_sublist
    · exact List.erase_sublist
    · exact .refl _
  · next r hr =>
    have hset : Tame s (s.setObj i (.roundRobin (r.remove w).1)) := by
      refine setHandle hr ?_
      unfold RoundRobinHandle.remove
      dsimp only
      split_ifs
      · exact List.filter_sublist
      · exact List.filter_sublist
      · exact List.filter_sublist
      · exact .refl _
    exact hset.trans (of_eq rfl rfl rfl)

lemma removeFrom (w : ℕ) (keys : List (Str × ℕ)) (s : State) :
    Tame s (State.removeFrom w keys s) := by
  induction keys generalizing s with
  | nil => exact .refl s
  | cons p rest ih =>
    obtain ⟨key, i⟩ := p
    have hremove := remove s i w
    unfold State.removeFrom
    split
    · next t heq =>
      rw [heq] at hremove
      exact hremove.trans (ih t)
    · next t heq =>
      rw [heq] at hremove
      exact (hremove.trans (delete t key)).trans (ih _)
    · next t heq =>
      rw [heq] at hremove
      exact hremove

lemma disconnect (s : State) (w : ℕ) : Tame s (s.disconnect w) :=
  (setWorker s w _).trans (removeFrom w _ _)

lemma close (s : State) (w : ℕ) (key : Str) : Tame s (s.close w key).1 := by
  unfold State.close
  split
  · exact .refl s
  · next i hi =>
    have hremove := remove s i w
    split
    · next t heq =>
      rw [heq] at hremove
      exact hremove
    · next t heq =>
      rw [heq] at hremove
      exact hremove.trans (delete t key)
    · next t heq =>
      rw [heq] at hremove
      exact hremove

lemma ack (s : State) (seq : ℕ) (accepted : Bool) : Tame s (s.ack seq accepted).1 := by
  unfold State.ack
  split
  · exact .refl s
  · next q c hfind =>
    have herase : Tame s { s with callbacks := s.callbacks.eraseP (·.1 = seq) } :=
      of_eq rfl rfl rfl
    dsimp only
    split_ifs
    · refine trans ?_ (handoff _ _ _)
      exact herase.trans (of_eq rfl rfl rfl)
    · exact (herase.trans (distribute _ _ _)).trans (handoff _ _ _)

lemma done (s : State) (i : ℕ) (key : Str) (w : ℕ) : Tame s (s.done i key w) :=
  (send s w _).trans (handoff _ i w)

lemma doneAll (i : ℕ) (key : Str) (ws : List ℕ) (s : State) :
    Tame s (State.doneAll i key ws s) := by
  induction ws generalizing s with
  | nil => exact .refl s
  | cons w ws ih => exact (done s i key w).trans (ih _)

lemma failAll (key : Str) (ws : List ℕ) (s : State) : Tame s (State.failAll key ws s) := by
  induction ws generalizing s with
  | nil => exact .refl s
  | cons w ws ih => exact ((delete s key).trans (send _ w _)).trans (ih _)

lemma listening (h : s.listening i = some t) : Tame s t := by
  unfold State.listening at h
  split at h
  · cases h
  · next r hr =>
    split_ifs at h
    obtain rfl := Option.some.inj h
    refine trans ?_ (doneAll i _ _ _)
    exact setHandle hr (.refl _)

lemma error (h : s.error i = some t) : Tame s t := by
  unfold State.error at h
  split at h
  · cases h
  · next r hr =>
    split_ifs at h
    obtain rfl := Option.some.inj h
    refine trans ?_ (failAll _ _ _)
    exact setHandle hr (.refl _)

lemma connection (h : s.connection i = some t) : Tame s t := by
  unfold State.connection at h
  split at h
  · cases h
  · next r hr =>
    split_ifs at h
    obtain rfl := Option.some.inj h
    have hcount : Tame s { s with connections := s.connections + 1 } := of_eq rfl rfl rfl
    exact hcount.trans (distribute _ i _)

lemma report (s : State) (w : ℕ) (m : ToMaster) : Tame s (s.report w m) := by
  unfold State.report
  dsimp only
  split_ifs
  · exact setWorker s w _
  · exact .refl s

lemma receive (s : State) (w : ℕ) (m : ToWorker) : Tame s (s.receive w m) := by
  cases m with
  | newconn seq key handle =>
    have htake (taken : List ℕ) : Tame s { s with taken := taken } := of_eq rfl rfl rfl
    exact (htake _).trans (report _ w _)
  | reply key shared errno =>
    unfold State.receive
    dsimp only
    split_ifs
    · exact .refl s
    · exact setWorker s w _

lemma closeServer (s : State) (w : ℕ) (key : Str) : Tame s (s.closeServer w key) := by
  unfold State.closeServer
  dsimp only
  split
  · exact .refl s
  · split_ifs
    · exact setWorker s w _
    · exact (setWorker s w _).trans (report _ w _)

end Tame

/-- The state of a master, whose next handle is a new one. -/
structure Mastered (s : State) : Prop where
  distinct : (s.handles.map Prod.snd).Nodup
  once : ∀ i, (s.objects i).members.Nodup
  known : ∀ p ∈ s.handles, p.2 < s.nextObject

namespace Mastered

lemma tame (h : Mastered s) (ht : Tame s t) : Mastered t :=
  ⟨(ht.handles.map Prod.snd).nodup h.distinct, fun i => (ht.members i).nodup (h.once i),
    fun p hp => ht.next ▸ h.known p (ht.handles.subset hp)⟩

lemma object (h : Mastered s) (key : Str) (shared errno : Bool) :
    Mastered (s.object key shared errno).1 := by
  unfold State.object
  split
  · exact h
  · refine ⟨?_, fun i => ?_, fun p hp => ?_⟩
    · show ((s.handles ++ [(key, s.nextObject)]).map Prod.snd).Nodup
      rw [List.map_append, List.nodup_append]
      refine ⟨h.distinct, List.nodup_singleton _, fun a ha b hb hab => ?_⟩
      obtain ⟨p, hp, rfl⟩ := List.mem_map.mp ha
      obtain rfl := List.mem_singleton.mp hb
      exact absurd hab (Nat.ne_of_lt (h.known p hp))
    · show ((s.setObj s.nextObject _).objects i).members.Nodup
      rcases eq_or_ne i s.nextObject with rfl | hi
      · rw [State.setObj_same]
        cases shared <;> exact List.nodup_nil
      · rw [State.setObj_ne hi]
        exact h.once i
    · rcases List.mem_append.mp hp with hp | hp
      · exact Nat.lt_succ_of_lt (h.known p hp)
      · rw [List.mem_singleton.mp hp]
        exact Nat.lt_succ_self _

/-- A handle gets one more worker. -/
lemma push (h : Mastered s) {o o' : Obj} (ho : s.objects i = o) (hw : w ∉ o.members)
    (hpush : o'.members = o.members ++ [w]) : Mastered (s.setObj i o') := by
  refine ⟨h.distinct, fun j => ?_, h.known⟩
  rcases eq_or_ne j i with rfl | hj
  · rw [State.setObj_same, hpush, ← ho]
    refine List.nodup_append.mpr ⟨h.once j, List.nodup_singleton w, fun a ha b hb hab => hw ?_⟩
    rw [← ho, ← List.mem_singleton.mp hb, ← hab]
    exact ha
  · rw [State.setObj_ne hj]
    exact h.once j

lemma add (h : Mastered s) (i : ℕ) (key : Str) (w : ℕ) : Mastered (s.add i key w).1 := by
  unfold State.add
  split
  · next o ho =>
    split_ifs with hw
    · exact h
    · exact ((h.push ho hw rfl).tame (.delete _ key)).tame (.send _ w _)
    · exact (h.push ho hw rfl).tame (.send _ w _)
  · next r hr =>
    split_ifs with hw
    · exact h
    · exact (h.push hr hw rfl).tame (.done _ i key w)
    · exact h.push hr hw rfl
    · exact h.push hr hw rfl

lemma onmessage (h : Mastered s) (w : ℕ) (errno : Bool) (m : ToMaster) :
    Mastered (s.onmessage w errno m).1 := by
  cases m with
  | queryServer key shared => exact (h.object key shared errno).add _ key w
  | ack seq accepted => exact h.tame (.ack s seq accepted)
  | close key => exact h.tame (.close s w key)

lemma deliver (h : Mastered s) {errno : Bool} (hs : deliver s w errno = some t) : Mastered t := by
  unfold Cluster.deliver at hs
  dsimp only at hs
  split at hs
  · cases hs
  · next m ms hm =>
    obtain rfl := Option.some.inj hs
    have hset := h.tame (.setWorker s w { s.workers w with toMaster := ms })
    have hmessage := hset.onmessage w errno m
    split_ifs
    · exact hmessage.tame (.disconnect _ w)
    · exact hmessage

/-- One step. -/
lemma step {a : Act} (h : Mastered s) (hs : step s a = some t) : Mastered t := by
  cases a with
  | fork =>
    obtain rfl := Option.some.inj hs
    exact h.tame (.of_eq rfl rfl rfl)
  | listen w key shared =>
    obtain rfl := Option.some.inj hs
    exact h.tame (.report s w _)
  | closeServer w key =>
    obtain rfl := Option.some.inj hs
    exact h.tame (.closeServer s w key)
  | receive w =>
    unfold Cluster.step at hs
    dsimp only at hs
    split at hs
    · cases hs
    · obtain rfl := Option.some.inj hs
      exact h.tame ((Tame.setWorker s w _).trans (.receive _ w _))
  | deliver w errno => exact h.deliver hs
  | hangup w buffering read =>
    unfold Cluster.step Cluster.hangup at hs
    dsimp only at hs
    split_ifs at hs
    · obtain rfl := Option.some.inj hs
      exact h.tame (.setWorker s w _)
    · obtain rfl := Option.some.inj hs
      exact h.tame ((Tame.setWorker s w _).trans (.disconnect _ w))
  | listening i => exact h.tame (.listening hs)
  | error i => exact h.tame (.error hs)
  | connection i => exact h.tame (.connection hs)

end Mastered

/-- **Every state of a run** is the state of a master. -/
theorem exists_master (h : Run step (fun _ _ _ => True) init s) : ∃ m : Master, m.state = s := by
  have hinit : Mastered init := ⟨List.nodup_nil, fun _ => List.nodup_nil, fun p hp => by cases hp⟩
  have hs : Mastered s := h.invariant hinit fun _ _ _ hn hstep _ => hn.step hstep
  exact ⟨⟨s, hs.distinct, hs.once⟩, rfl⟩

/-- Two workers, of which one listens on a shared handle. -/
def oneOfTwo : List Act := [.fork, .fork, .listen 0 [56] true, .deliver 0 false]

/-- The other one has gone: the assertion of the shared handle fails. -/
theorem not_cleared_oneOfTwo : ∃ m : Master,
    Run step (fun _ _ _ => True) init m.state ∧
    ¬ Cleared 1 (m.state.handles.map Prod.snd) m.state (m.state.disconnected 1) := by
  obtain ⟨s, hs, hfails⟩ :
      ∃ s, Run step (fun _ _ _ => True) init s ∧ (s.disconnected 1).2 = false :=
    ⟨_, Run.of_foldlM (w := oneOfTwo) rfl, rfl⟩
  obtain ⟨m, rfl⟩ := exists_master hs
  refine ⟨m, hs, fun h => ?_⟩
  rw [h.returned] at hfails
  cases hfails

end NodeCore.Cluster
