import NodeCore.NetCount

/-!
The end of a server whose sockets have been handed to other processes. One count stands for the
sockets it has left and, while the processes are asked, for them.
-/

namespace NodeCore.NetSlaves

open NodeCore.Encoding NodeCore.Reentrant NodeCore.Net NodeCore.NetCount

/-! ### The claim -/

/-- Accepted, not handed over and not destroyed. -/
def isOwned (s : Socket) : Bool := s.server && !s.sent && !s.destroyed

def owned (t : State) : Finset ℕ := having isOwned t

/-- Handed over, and destroyed here all the same. -/
def isLost (s : Socket) : Bool := s.server && s.sent && s.destroyed

def lost (t : State) : Finset ℕ := having isLost t

/-- Every slave that was asked has called back. -/
def Answered (v : Server) : Prop := ∀ l ∈ v.slaves, l.asked = false

/-- **What is claimed.** -/
structure Sound (t : State) : Prop where
  atMost : t.server.closes + t.server.closeTicks ≤ 1
  only : 0 < t.server.closes + t.server.closeTicks →
    t.server.handle = false ∧ owned t = ∅ ∧ Answered t.server
  once : t.server.handle = false → owned t = ∅ → Answered t.server →
    t.server.closes + t.server.closeTicks = 1

/-- Sockets are handed over before the server is closed, and before they are destroyed. -/
def Handed (m : System) : Act → Prop
  | .send i _ => m.st.server.handle = true ∧ (m.st.sockets i).handle = true ∧
      (m.st.sockets i).destroyed = false
  | _ => True

/-- The slave of the child is the last that is to call back. -/
def Last (v : Server) (child : ℕ) : Prop :=
  (∃ l ∈ v.slaves, l.child = child ∧ l.asked = true) ∧
    ∀ l ∈ v.slaves, l.asked = true → l.child = child

/-- If the socket `i` is destroyed, not as many sockets have been lost as the server owns, or no
slave is still to call back. -/
def Timely (t : State) (i : ℕ) : Prop :=
  (t.sockets i).server = true → (t.sockets i).destroyed = false → t.server.handle = false →
    ¬ Answered t.server → (owned t).card ≠ (lost t).card

/-- **The condition on a step.** The last slave calls back when every socket that the server owns
is destroyed; a socket is destroyed at a time that makes no difference. -/
def Ok (cfg : Writable.Config) (m : System) (a : Act) : Prop :=
  Resumes cfg (fun t f _ => ∀ i e, f = .destroy i e → Timely t i) m a ∧
  match a with
  | .destroy i _ => i ∉ inside m.stack ∧ Timely m.st i
  | .wrote _ => ∀ i k, m.stack = .write i :: k → i ∉ inside m.stack
  | .connection fails => fails = false
  | .connected i _ => (m.st.sockets i).connecting = true → Timely m.st i
  | .written i failed => failed = true → (m.st.sockets i).requests.head? = some false →
      Timely m.st i
  | .close => m.st.server.usingSlaves = true → (∀ l ∈ m.st.server.slaves, l.child ∈ m.st.gone) →
      owned m.st = ∅
  | .reply child | .disconnect child => Last m.st.server child → owned m.st = ∅
  | _ => True

/-! ### The slaves -/

def waiting (v : Server) : ℕ := v.slaves.countP Slave.asked

lemma waiting_eq_zero {v : Server} : waiting v = 0 ↔ Answered v := by
  rw [waiting, List.countP_eq_zero]
  simp only [Bool.not_eq_true]
  rfl

/-- One slave of each child is asked, or has called back. -/
lemma waiting_ask {v : Server} (hkids : (v.slaves.map Slave.child).Nodup) {l : Slave}
    (hl : l ∈ v.slaves) (asked : Bool) :
    waiting (v.ask l.child asked) + l.asked.toNat = waiting v + asked.toNat := by
  have hlist : ∀ ls : List Slave, (ls.map Slave.child).Nodup → l ∈ ls →
      (ls.map fun (x : Slave) => if x.child = l.child then { x with asked := asked } else x).countP
        Slave.asked + l.asked.toNat = ls.countP Slave.asked + asked.toNat := by
    intro ls hkids hl
    induction ls with
    | nil => cases hl
    | cons x ls ih =>
      rw [List.map_cons, List.nodup_cons] at hkids
      rw [List.map_cons, List.countP_cons, List.countP_cons]
      rcases List.mem_cons.mp hl with rfl | hl
      · have hrest : (ls.map fun (x : Slave) =>
            if x.child = l.child then { x with asked := asked } else x) = ls := by
          refine (List.map_congr_left fun x hx => ?_).trans (List.map_id ls)
          rw [if_neg fun hc : x.child = l.child => hkids.1 (hc ▸ List.mem_map_of_mem hx)]
          rfl
        rw [hrest, if_pos rfl]
        cases asked <;> cases l.asked <;> simp
      · have hne : x.child ≠ l.child := fun hc => hkids.1 (hc ▸ List.mem_map_of_mem hl)
        have ih := ih hkids.2 hl
        rw [if_neg hne]
        omega
  exact hlist v.slaves hkids hl

lemma kids_ask (v : Server) (child : ℕ) (asked : Bool) :
    (v.ask child asked).slaves.map Slave.child = v.slaves.map Slave.child := by
  rw [Server.ask, List.map_map]
  refine List.map_congr_left fun l _ => ?_
  simp only [Function.comp_apply]
  split_ifs <;> rfl

/-! ### The server -/

/-- What the server has come to, with as many sockets owned and lost. -/
inductive Phase (v : Server) (owned lost : ℕ) : Prop
  | listening (handle : v.handle = true) (quiet : v.closes + v.closeTicks = 0)
      (count : v.connections = owned - lost) (answered : Answered v)
  /-- It is closed, and no socket has ever been handed over. -/
  | alone (handle : v.handle = false) (kept : v.usingSlaves = false) (answered : Answered v)
      (count : v.connections = owned)
      (emitted : v.closes + v.closeTicks = if owned = 0 then 1 else 0)
  | asking (handle : v.handle = false) (quiet : v.closes + v.closeTicks = 0)
      (count : v.connections = owned - lost + 1) (left : v.left = waiting v)
      (pos : 0 < waiting v)
  | answered (handle : v.handle = false) (answered : Answered v) (count : v.connections ≤ 0)
      (owned : owned = 0) (emitted : v.closes + v.closeTicks = 1)

lemma emit_waits {v : Server} (h : v.connections ≠ 0) : v.emitCloseIfDrained = v := by
  rw [Server.emitCloseIfDrained, if_pos (by simp [h])]

lemma emit_closes {v : Server} (hhandle : v.handle = false) (h : v.connections = 0) :
    v.emitCloseIfDrained = { v with closeTicks := v.closeTicks + 1 } := by
  rw [Server.emitCloseIfDrained, if_neg (by simp [hhandle, h])]

lemma emit_listens {v : Server} (h : v.handle = true) : v.emitCloseIfDrained = v := by
  rw [Server.emitCloseIfDrained, if_pos (by simp [h])]

lemma emit_slaves (v : Server) : v.emitCloseIfDrained.slaves = v.slaves := by
  unfold Server.emitCloseIfDrained
  split_ifs <;> rfl

lemma emit_using (v : Server) : v.emitCloseIfDrained.usingSlaves = v.usingSlaves := by
  unfold Server.emitCloseIfDrained
  split_ifs <;> rfl

/-- A socket is counted off, which the server owned or had handed over. -/
lemma Phase.decrement {v : Server} {o l o' l' : ℕ} (h : Phase v o l)
    (hdiff : (o' : ℤ) - l' = o - l - 1) (hle : o' ≤ o)
    (hkept : v.usingSlaves = false → o = o' + 1)
    (htimely : v.handle = false → ¬ Answered v → o ≠ l) : Phase v.decrement o' l' := by
  obtain ⟨w, hw⟩ : ∃ w : Server, w = { v with connections := v.connections - 1 } := ⟨_, rfl⟩
  have hc : w.connections = v.connections - 1 := by rw [hw]
  unfold Server.decrement
  rw [← hw]
  cases h with
  | listening handle quiet count answered =>
    rw [emit_listens (by rw [hw]; exact handle), hw]
    refine .listening handle quiet ?_ answered
    show v.connections - 1 = _
    omega
  | alone handle kept answered count emitted =>
    have ho := hkept kept
    have hcount : v.connections - 1 = o' := by omega
    rw [if_neg (by omega)] at emitted
    by_cases hz : o' = 0
    · rw [emit_closes (by rw [hw]; exact handle) (by omega), hw]
      refine .alone handle kept answered hcount ?_
      rw [if_pos hz]
      show v.closes + (v.closeTicks + 1) = 1
      omega
    · rw [emit_waits (by omega), hw]
      refine .alone handle kept answered hcount ?_
      rw [if_neg hz]
      exact emitted
  | asking handle quiet count left pos =>
    have hne := htimely handle (fun h => by rw [waiting_eq_zero.mpr h] at pos; omega)
    have hcount : v.connections - 1 = o' - l' + 1 := by omega
    rw [emit_waits (by omega), hw]
    exact .asking handle quiet hcount left pos
  | answered handle answered count owned emitted =>
    have hcount : v.connections - 1 ≤ 0 := by omega
    rw [emit_waits (by omega), hw]
    exact .answered handle answered hcount (by omega) emitted

/-- A slave has called back, and the last only when the server owns no socket. -/
lemma phase_onSlaveClose {v : Server} {o l : ℕ} (handle : v.handle = false)
    (quiet : v.closes + v.closeTicks = 0) (count : v.connections = o - l + 1)
    (left : v.left = waiting v + 1) (hlast : waiting v = 0 → o = 0) :
    Phase v.onSlaveClose o l := by
  unfold Server.onSlaveClose
  dsimp only
  by_cases hz : waiting v = 0
  · have hleft : v.left - 1 = 0 := by omega
    rw [if_neg (not_not.mpr hleft)]
    obtain ⟨w, hw⟩ : ∃ w : Server, w = { v with left := v.left - 1, connections := 0 } := ⟨_, rfl⟩
    have hemit := emit_closes (v := w) (by rw [hw]; exact handle) (by rw [hw])
    rw [hw] at hemit
    rw [hemit]
    refine .answered handle (waiting_eq_zero.mp hz) le_rfl (hlast hz) ?_
    show v.closes + (v.closeTicks + 1) = 1
    omega
  · have hleft : v.left - 1 ≠ 0 := by omega
    rw [if_pos hleft]
    refine .asking handle quiet count ?_ (Nat.pos_of_ne_zero hz)
    show v.left - 1 = waiting v
    omega

lemma answered_ask {v : Server} {child : ℕ} (h : waiting (v.ask child false) = 0) {l : Slave}
    (hl : l ∈ v.slaves) (hasked : l.asked = true) : l.child = child := by
  by_contra hne
  have hmem : l ∈ (v.ask child false).slaves :=
    List.mem_map.mpr ⟨l, hl, if_neg hne⟩
  rw [waiting_eq_zero.mp h l hmem] at hasked
  cases hasked

/-- A child reports, or disconnects. -/
lemma Phase.answer {v : Server} {o l : ℕ} (h : Phase v o l)
    (hkids : (v.slaves.map Slave.child).Nodup) {child : ℕ} (hlast : Last v child → o = 0) :
    Phase (v.answer child) o l := by
  unfold Server.answer
  split_ifs with hany
  · obtain ⟨x, hx, hasked⟩ := List.any_eq_true.mp hany
    simp only [Bool.and_eq_true, decide_eq_true_eq] at hasked
    obtain ⟨rfl, hasked⟩ := hasked
    have hnot : ¬ Answered v := fun h => by
      rw [h x hx] at hasked
      cases hasked
    have hwaiting := waiting_ask hkids hx false
    rw [hasked] at hwaiting
    cases h with
    | asking handle quiet count left pos =>
      refine phase_onSlaveClose handle quiet count ?_ fun hz => hlast ⟨⟨x, hx, rfl, hasked⟩, ?_⟩
      · show v.left = _
        rw [left, ← Nat.add_zero (waiting v)]
        exact congrArg Nat.cast hwaiting.symm
      · exact fun y hy hasked => answered_ask hz hy hasked
    | listening _ _ _ answered => exact absurd answered hnot
    | alone _ _ answered => exact absurd answered hnot
    | answered _ answered => exact absurd answered hnot
  · exact h

/-- The slaves are asked one after the other. -/
lemma phase_closeSlaves {o l : ℕ} (gone : List ℕ) : ∀ (ls : List Slave) {v : Server},
    v.handle = false → v.closes + v.closeTicks = 0 → v.connections = o - l + 1 →
    v.left = (waiting v + ls.length : ℕ) → (v.slaves.map Slave.child).Nodup →
    (ls.map Slave.child).Nodup → (∀ x ∈ ls, x ∈ v.slaves ∧ x.asked = false) →
    0 < waiting v + ls.length →
    (waiting v = 0 → (∀ x ∈ ls, x.child ∈ gone) → o = 0) →
    Phase (ls.foldl (Server.closeSlave gone) v) o l := by
  intro ls
  induction ls with
  | nil =>
    intro v handle quiet count left _ _ _ pos _
    exact .asking handle quiet count left pos
  | cons x ls ih =>
    intro v handle quiet count left hkids hnodup hmem pos hlast
    rw [List.map_cons, List.nodup_cons] at hnodup
    rw [List.length_cons] at left pos
    rw [List.foldl_cons, Server.closeSlave]
    by_cases hgone : x.child ∈ gone
    · rw [if_pos hgone]
      by_cases hz : waiting v + ls.length = 0
      · -- the last one calls back at once
        obtain rfl : ls = [] := List.eq_nil_of_length_eq_zero (by omega)
        refine phase_onSlaveClose handle quiet count ?_ fun hw => hlast hw ?_
        · rw [left]
          rfl
        · exact fun y hy => (List.mem_singleton.mp hy) ▸ hgone
      · have hleft : v.left - 1 ≠ 0 := by omega
        rw [Server.onSlaveClose]
        dsimp only
        rw [if_pos hleft]
        refine ih handle quiet count ?_ hkids hnodup.2
          (fun y hy => hmem y (List.mem_cons_of_mem x hy)) (Nat.pos_of_ne_zero hz)
          fun hw hall => hlast hw ?_
        · show v.left - 1 = (waiting v + ls.length : ℕ)
          omega
        · exact List.forall_mem_cons.mpr ⟨hgone, hall⟩
    · rw [if_neg hgone]
      obtain ⟨hx, hasked⟩ := hmem x List.mem_cons_self
      have hwaiting : waiting (v.ask x.child true) = waiting v + 1 := by
        have h := waiting_ask hkids hx true
        rw [hasked] at h
        exact h
      refine ih (v := v.ask x.child true) handle quiet count ?_ ?_ hnodup.2 (fun y hy => ?_) ?_
        fun hw => ?_
      · rw [hwaiting]
        exact left.trans (congrArg Nat.cast (by omega))
      · rw [kids_ask]
        exact hkids
      · obtain ⟨hyv, hyasked⟩ := hmem y (List.mem_cons_of_mem x hy)
        refine ⟨List.mem_map.mpr ⟨y, hyv, if_neg fun hc : y.child = x.child => ?_⟩, hyasked⟩
        exact hnodup.1 (hc ▸ List.mem_map_of_mem hy)
      · omega
      · omega

/-- `close`. When all slaves have disconnected already, the last of them calls back here. -/
lemma Phase.close {v : Server} {o l : ℕ} (h : Phase v o l)
    (hkids : (v.slaves.map Slave.child).Nodup)
    (husing : v.usingSlaves = true → v.slaves ≠ []) (hkept : v.usingSlaves = false → l = 0)
    {gone : List ℕ}
    (hgone : v.usingSlaves = true → (∀ x ∈ v.slaves, x.child ∈ gone) → o = 0) :
    Phase (v.close gone) o l := by
  unfold Server.close
  cases h with
  | listening handle quiet count answered =>
    rw [handle]
    simp only [Bool.not_true, Bool.false_eq_true, if_false]
    have hw : waiting v = 0 := waiting_eq_zero.mpr answered
    split_ifs with hslaves
    · refine phase_closeSlaves gone v.slaves rfl quiet ?_ ?_ hkids hkids ?_ ?_ ?_
      · show v.connections + 1 = _
        rw [count]
      · show (v.slaves.length : ℤ) = (waiting v + v.slaves.length : ℕ)
        rw [hw, Nat.zero_add]
      · exact fun x hx => ⟨hx, answered x hx⟩
      · exact Nat.add_pos_right _ (List.length_pos_of_ne_nil (husing hslaves))
      · exact fun _ => hgone hslaves
    · rw [Bool.not_eq_true] at hslaves
      have hl := hkept hslaves
      obtain ⟨w, hw⟩ : ∃ w : Server, w = { v with handle := false } := ⟨_, rfl⟩
      have hc : w.connections = v.connections := by rw [hw]
      rw [← hw]
      by_cases hz : o = 0
      · rw [emit_closes (by rw [hw]) (by omega), hw]
        refine .alone rfl hslaves answered ?_ ?_
        · show v.connections = o
          omega
        · rw [if_pos hz]
          show v.closes + (v.closeTicks + 1) = 1
          omega
      · rw [emit_waits (by omega), hw]
        refine .alone rfl hslaves answered ?_ ?_
        · show v.connections = o
          omega
        · rw [if_neg hz]
          exact quiet
  | alone handle kept answered count emitted =>
    rw [handle]
    exact .alone handle kept answered count emitted
  | asking handle quiet count left pos =>
    rw [handle]
    exact .asking handle quiet count left pos
  | answered handle answered count owned emitted =>
    rw [handle]
    exact .answered handle answered count owned emitted

/-! ### The invariant -/

structure Tallied (t : State) (k : List Frame) : Prop where
  known : ∀ i, (t.sockets i).server = true → i < t.count
  handle : ∀ i, (t.sockets i).handle = true → (t.sockets i).sent = false
  unsent : t.server.usingSlaves = false → ∀ i, (t.sockets i).server = true →
    (t.sockets i).sent = false
  slaves : t.server.usingSlaves = true ↔ t.server.slaves ≠ []
  kids : (t.server.slaves.map Slave.child).Nodup
  phase : Phase t.server (owned t).card (lost t).card
  nodup : (inside k).Nodup
  fresh : ∀ i ∈ inside k, (t.sockets i).destroyed = false

lemma Tallied.sound {t : State} {k : List Frame} (h : Tallied t k) : Sound t := by
  cases h.phase with
  | listening handle quiet =>
    refine ⟨by omega, fun hpos => by omega, fun hh => ?_⟩
    rw [handle] at hh
    cases hh
  | alone handle _ answered _ emitted =>
    refine ⟨?_, fun hpos => ⟨handle, ?_, answered⟩, fun _ ho _ => ?_⟩
    · rw [emitted]
      split_ifs <;> omega
    · by_contra hne
      rw [emitted, if_neg fun hz => hne (Finset.card_eq_zero.mp hz)] at hpos
      exact Nat.lt_irrefl 0 hpos
    · rw [emitted, ho, if_pos Finset.card_empty]
  | asking _ quiet _ _ pos =>
    refine ⟨by omega, fun hpos => by omega, fun _ _ ha => ?_⟩
    rw [waiting_eq_zero.mpr ha] at pos
    exact absurd pos (Nat.lt_irrefl 0)
  | answered handle answered _ ho emitted =>
    exact ⟨by omega, fun _ => ⟨handle, Finset.card_eq_zero.mp ho, answered⟩, fun _ _ _ => emitted⟩

lemma owned_same {t t' : State} (h : Same t t') : owned t' = owned t :=
  h.having fun i => by rw [isOwned, isOwned, h.accepted, h.sent, h.destroyed]

lemma lost_same {t t' : State} (h : Same t t') : lost t' = lost t :=
  h.having fun i => by rw [isLost, isLost, h.accepted, h.sent, h.destroyed]

lemma Timely.same {t t' : State} {i : ℕ} (hi : Timely t i) (h : Same t t') : Timely t' i := by
  unfold Timely
  rw [h.accepted, h.destroyed, h.server, owned_same h, lost_same h]
  exact hi

lemma Tallied.same {t t' : State} {k k' : List Frame} (hc : Tallied t k) (h : Same t t')
    (hk : inside k' = inside k) : Tallied t' k' where
  known i := by rw [h.accepted, h.count]; exact hc.known i
  handle i hh := by rw [h.sent]; exact hc.handle i (h.handle i hh)
  unsent hv i := by
    rw [h.server] at hv
    rw [h.accepted, h.sent]
    exact hc.unsent hv i
  slaves := by rw [h.server]; exact hc.slaves
  kids := by rw [h.server]; exact hc.kids
  phase := by rw [h.server, owned_same h, lost_same h]; exact hc.phase
  nodup := by rw [hk]; exact hc.nodup
  fresh i := by rw [hk, h.destroyed]; exact hc.fresh i

lemma Tallied.nothingLost {t : State} {k : List Frame} (h : Tallied t k)
    (hv : t.server.usingSlaves = false) : (lost t).card = 0 := by
  refine Finset.card_eq_zero.mpr (Finset.filter_eq_empty_iff.mpr fun i _ hi => ?_)
  unfold isLost at hi
  simp only [Bool.and_eq_true] at hi
  rw [h.unsent hv i hi.1.1] at hi
  exact Bool.false_ne_true hi.1.2

lemma Tallied.light {t : State} {r : Outcome} {k : List Frame} (hc : Tallied t k)
    (h : Light t r) : r.Keeps Tallied k := by
  refine hc.same h.same ?_
  rw [inside_append, h.frames]
  rfl

/-! ### Sockets come and go -/

/-- A socket that is not accepted yet. -/
lemma Tallied.add {t : State} {k : List Frame} (h : Tallied t k) (handle connecting : Bool) :
    Tallied (t.add (.new handle connecting)) k := by
  constructor
  · intro i hi
    rw [sockets_add] at hi
    by_cases heq : i = t.count
    · rw [if_pos heq] at hi
      cases hi
    · rw [if_neg heq] at hi
      exact Nat.lt_succ_of_lt (h.known i hi)
  · intro i
    rw [sockets_add]
    split_ifs
    · exact fun _ => rfl
    · exact h.handle i
  · intro hv i
    rw [sockets_add]
    split_ifs
    · exact fun _ => rfl
    · exact h.unsent hv i
  · exact h.slaves
  · exact h.kids
  · have howned : owned (t.add (.new handle connecting)) = owned t := having_add rfl
    have hlost : NetSlaves.lost (t.add (.new handle connecting)) = NetSlaves.lost t :=
      having_add rfl
    rw [howned, hlost]
    exact h.phase
  · exact h.nodup
  · intro i hi
    rw [sockets_add]
    split_ifs
    · rfl
    · exact h.fresh i hi

/-- What the socket `i` comes to keeps the invariant, if the server goes along with it. -/
lemma Tallied.put {t : State} {k k' : List Frame} (h : Tallied t k) {i : ℕ} {s : Socket}
    {v : Server} (hknown : s.server = true → i < t.count)
    (hhandle : s.handle = true → s.sent = false)
    (hunsent : v.usingSlaves = false →
      t.server.usingSlaves = false ∧ (s.server = true → s.sent = false))
    (hslaves : v.usingSlaves = true ↔ v.slaves ≠ []) (hkids : (v.slaves.map Slave.child).Nodup)
    (hphase : Phase v (owned (t.put i s)).card (lost (t.put i s)).card)
    (hnodup : (inside k').Nodup)
    (hfresh : ∀ j ∈ inside k', if j = i then s.destroyed = false else j ∈ inside k) :
    Tallied { t.put i s with server := v } k' := by
  have hsockets : ∀ j, ({ t.put i s with server := v } : State).sockets j =
      if j = i then s else t.sockets j := sockets_put t i s
  constructor
  · intro j hj
    rw [hsockets] at hj
    by_cases hji : j = i
    · rw [if_pos hji] at hj
      exact hji ▸ hknown hj
    · rw [if_neg hji] at hj
      exact h.known j hj
  · intro j
    rw [hsockets]
    split_ifs
    · exact hhandle
    · exact h.handle j
  · intro hv j
    obtain ⟨hv, hs⟩ := hunsent hv
    rw [hsockets]
    split_ifs
    · exact hs
    · exact h.unsent hv j
  · exact hslaves
  · exact hkids
  · exact hphase
  · exact hnodup
  · intro j hj
    have hj' := hfresh j hj
    rw [hsockets]
    by_cases hji : j = i
    · rw [if_pos hji] at hj' ⊢
      exact hj'
    · rw [if_neg hji] at hj' ⊢
      exact h.fresh j hj'

/-- A new socket is accepted. -/
lemma Tallied.accept {t : State} {k : List Frame} (h : Tallied t k) {i : ℕ}
    (hi : i < t.count) (hs : (t.sockets i).server = false)
    (hd : (t.sockets i).destroyed = false) (hsent : (t.sockets i).sent = false)
    (hv : t.server.handle = true) :
    Tallied { t.put i { t.sockets i with server := true } with
      server := { t.server with connections := t.server.connections + 1 } } k := by
  have howned : (owned (t.put i { t.sockets i with server := true })).card =
      (owned t).card + 1 :=
    having_gain hi (by rw [isOwned, hs]; rfl) (by rw [isOwned, hsent, hd]; rfl)
  have hlost : lost (t.put i { t.sockets i with server := true }) = lost t :=
    having_put (by rw [isLost, isLost, hsent, hs]; rfl)
  refine h.put (fun _ => hi) (fun _ => hsent) (fun hv => ⟨hv, fun _ => hsent⟩) h.slaves h.kids ?_
    h.nodup fun j hj => ?_
  · rw [howned, hlost]
    cases h.phase with
    | listening handle quiet count answered =>
      refine .listening handle quiet ?_ answered
      show t.server.connections + 1 = _
      push_cast
      omega
    | alone handle => exact absurd (handle.symm.trans hv) Bool.false_ne_true
    | asking handle => exact absurd (handle.symm.trans hv) Bool.false_ne_true
    | answered handle => exact absurd (handle.symm.trans hv) Bool.false_ne_true
  · split_ifs
    · exact hd
    · exact hj

lemma Phase.handedOver {v v' : Server} {o l : ℕ} (h : Phase v (o + 1) l) (hv : v.handle = true)
    (hhandle : v'.handle = v.handle) (hcloses : v'.closes = v.closes)
    (hticks : v'.closeTicks = v.closeTicks) (hcount : v'.connections = v.connections - 1)
    (hslaves : Answered v → Answered v') : Phase v' o l := by
  cases h with
  | listening handle quiet count answered =>
    refine .listening (hhandle.trans handle) ?_ ?_ (hslaves answered)
    · rw [hcloses, hticks, quiet]
    · push_cast at count
      omega
  | alone handle => exact absurd (handle.symm.trans hv) Bool.false_ne_true
  | asking handle => exact absurd (handle.symm.trans hv) Bool.false_ne_true
  | answered handle => exact absurd (handle.symm.trans hv) Bool.false_ne_true

/-- A socket is handed over. -/
lemma Tallied.send {t : State} {k : List Frame} (h : Tallied t k) {i : ℕ}
    (hv : t.server.handle = true) (hh : (t.sockets i).handle = true)
    (hd : (t.sockets i).destroyed = false) (child : ℕ) : Tallied (t.send i child) k := by
  have hsent := h.handle i hh
  have hgone : false = true → true = false := Eq.symm
  have hfresh : ∀ j ∈ inside k, if j = i then
      (t.sockets i).destroyed = false else j ∈ inside k := fun j hj => by
    split_ifs
    · exact hd
    · exact hj
  unfold State.send
  dsimp only
  by_cases hs : (t.sockets i).server = true
  · rw [if_pos hs]
    have hi := h.known i hs
    have howned : (owned (t.put i { t.sockets i with handle := false, sent := true })).card + 1 =
        (owned t).card :=
      having_drop hi (by rw [isOwned, hs, hsent, hd]; rfl) (by simp [isOwned])
    have hlost : lost (t.put i { t.sockets i with handle := false, sent := true }) = lost t :=
      having_put (by simp [isLost, hd])
    have hphase := h.phase
    rw [← howned, ← hlost] at hphase
    by_cases hany : (t.server.slaves.any fun (l : Slave) => l.child = child) = true
    · rw [if_pos hany]
      have hne : t.server.slaves ≠ [] := fun hnil => by
        rw [hnil] at hany
        cases hany
      refine h.put (fun _ => hi) hgone (fun hu => ?_) h.slaves h.kids ?_ h.nodup hfresh
      · exact absurd (hu.symm.trans (h.slaves.mpr hne)) Bool.false_ne_true
      · exact hphase.handedOver hv rfl rfl rfl rfl id
    · rw [if_neg hany]
      have hnew : child ∉ t.server.slaves.map Slave.child := fun hmem => by
        obtain ⟨l, hl, hc⟩ := List.mem_map.mp hmem
        exact hany (List.any_eq_true.mpr ⟨l, hl, decide_eq_true hc⟩)
      refine h.put (fun _ => hi) hgone (fun hu => absurd hu.symm Bool.false_ne_true)
        (iff_of_true rfl ?_) ?_ ?_ h.nodup hfresh
      · exact List.append_ne_nil_of_right_ne_nil _ (List.cons_ne_nil _ _)
      · show ((t.server.slaves ++ [Slave.mk child false]).map Slave.child).Nodup
        rw [List.map_append]
        exact h.kids.append (List.nodup_singleton child) (List.disjoint_singleton.mpr hnew)
      · refine hphase.handedOver hv rfl rfl rfl rfl fun ha => ?_
        show ∀ l ∈ t.server.slaves ++ [Slave.mk child false], l.asked = false
        exact List.forall_mem_append.mpr ⟨ha, List.forall_mem_singleton.mpr rfl⟩
  · rw [if_neg hs]
    rw [Bool.not_eq_true] at hs
    have howned : owned (t.put i { t.sockets i with handle := false, sent := true }) = owned t :=
      having_put (by rw [isOwned, isOwned, hs]; rfl)
    have hlost : lost (t.put i { t.sockets i with handle := false, sent := true }) = lost t :=
      having_put (by rw [isLost, isLost, hs]; rfl)
    refine h.put (fun h => ?_) hgone (fun hu => ⟨hu, fun h => ?_⟩) h.slaves h.kids ?_ h.nodup
      hfresh
    · exact absurd (hs.symm.trans h) Bool.false_ne_true
    · exact absurd (hs.symm.trans h) Bool.false_ne_true
    · rw [howned, hlost]
      exact h.phase

/-! ### `_destroy` -/

lemma decrement_slaves (v : Server) : v.decrement.slaves = v.slaves := emit_slaves _

lemma decrement_using (v : Server) : v.decrement.usingSlaves = v.usingSlaves := emit_using _

/-- An accepted socket is destroyed, and counted off. -/
lemma Tallied.countOff {t : State} {k : List Frame} (h : Tallied t k) {i : ℕ}
    (hs : (t.sockets i).server = true) (hd : (t.sockets i).destroyed = false)
    (htimely : Timely t i) {s : Socket} (hss : s.server = true)
    (hsent : s.sent = (t.sockets i).sent) (hsd : s.destroyed = true) :
    Phase t.server.decrement (owned (t.put i s)).card (lost (t.put i s)).card := by
  have hi := h.known i hs
  have htimely := htimely hs hd
  cases hwas : (t.sockets i).sent with
  | true =>
    rw [hwas] at hsent
    have howned : owned (t.put i s) = owned t := having_put (by simp [isOwned, hsent, hwas])
    have hlost : (lost (t.put i s)).card = (lost t).card + 1 :=
      having_gain hi (by simp [isLost, hd]) (by simp [isLost, hss, hsent, hsd])
    rw [howned, hlost]
    refine h.phase.decrement ?_ le_rfl (fun hu => ?_) htimely
    · push_cast
      omega
    · exact absurd ((h.unsent hu i hs).symm.trans hwas) Bool.false_ne_true
  | false =>
    rw [hwas] at hsent
    have howned : (owned (t.put i s)).card + 1 = (owned t).card :=
      having_drop hi (by simp [isOwned, hs, hwas, hd]) (by simp [isOwned, hsd])
    have hlost : lost (t.put i s) = lost t := having_put (by simp [isLost, hsent, hwas])
    rw [hlost]
    refine h.phase.decrement ?_ (by omega) (fun _ => howned.symm) htimely
    omega

/-- The end of `_destroy`, whose frame has been taken off the stack. -/
lemma Tallied.destroyEnd {t : State} {k : List Frame} {i : ℕ} {exception : Bool}
    (h : Tallied t (.destroy i exception :: k)) (htimely : Timely t i) :
    Tallied (t.destroyEnd i exception) k := by
  have hnodup : (i :: inside k).Nodup := h.nodup
  obtain ⟨hnot, hnodup⟩ := List.nodup_cons.mp hnodup
  have hk : inside (.destroy i exception :: k) = i :: inside k := rfl
  -- whether `'error'` will be emitted does not matter
  have he := h.same (same_errorOnce t i exception) rfl
  have htimely := htimely.same (same_errorOnce t i exception)
  unfold State.destroyEnd
  revert he htimely
  generalize t.errorOnce i exception = t
  intro h htimely
  have hd : (t.sockets i).destroyed = false := h.fresh i (hk ▸ List.mem_cons_self)
  have hfresh := inside_of_left exception hnot
  dsimp only
  split_ifs with hs
  · refine h.put (h.known i) (h.handle i) (fun hu => ?_) ?_ ?_ ?_ hnodup hfresh
    · rw [decrement_using] at hu
      exact ⟨hu, h.unsent hu i⟩
    · rw [decrement_using, decrement_slaves]
      exact h.slaves
    · rw [decrement_slaves]
      exact h.kids
    · exact h.countOff hs hd htimely hs rfl rfl
  · rw [Bool.not_eq_true] at hs
    have howned : owned (t.put i { t.sockets i with destroyed := true }) = owned t :=
      having_put (by rw [isOwned, isOwned, hs]; rfl)
    have hlost : lost (t.put i { t.sockets i with destroyed := true }) = lost t :=
      having_put (by rw [isLost, isLost, hs]; rfl)
    exact h.put (h.known i) (h.handle i) (fun hu => ⟨hu, h.unsent hu i⟩) h.slaves h.kids
      (by rw [howned, hlost]; exact h.phase) hnodup hfresh

variable {cfg : Writable.Config}

lemma Tallied.enterDestroy {t : State} {k : List Frame} (h : Tallied t k) {i : ℕ}
    (hi : i ∉ inside k) (hd : (t.sockets i).destroyed = false) (exception : Bool) :
    Tallied t (.destroy i exception :: k) where
  known := h.known
  handle := h.handle
  unsent := h.unsent
  slaves := h.slaves
  kids := h.kids
  phase := h.phase
  nodup := List.nodup_cons.mpr ⟨hi, h.nodup⟩
  fresh := List.forall_mem_cons.mpr ⟨hd, h.fresh⟩

/-- The callback of a write that has failed emits `'error'`. -/
lemma onwrite_calls (t : State) (i : ℕ) : ∃ u fs, t.onwrite cfg i true = .call u fs := by
  have hwithin : ∀ (t : State) (ws : Writable.State), ∃ u fs,
      t.onWritable i (Writable.onwrite cfg true ws) = .call u fs := by
    intro t ws
    unfold Writable.onwrite Writable.onwriteError
    simp only [if_true]
    split_ifs
    · exact ⟨_, _, rfl⟩
    · cases Writable.callCb _ _ with
      | ret ws => exact ⟨_, _, rfl⟩
      | call ws fs => exact ⟨_, _, rfl⟩
  exact hwithin _ _

/-- A socket is destroyed, but not from inside its `_destroy`. -/
lemma Tallied._destroy {t : State} {k : List Frame} (h : Tallied t k) {i : ℕ}
    (hi : i ∉ inside k) (cb : Bool) {exception : Bool} (hcb : cb = true → exception = true)
    (htimely : cb = false → Timely t i) : (t._destroy cfg i exception cb).Keeps Tallied k := by
  have hlight : ∀ t : State, Light t (if cb then t.onwrite cfg i exception else .ret t) := by
    intro t
    split_ifs
    · exact light_onwrite cfg t i exception
    · exact light_ret (.refl t)
  unfold State._destroy
  dsimp only
  by_cases hd : (t.sockets i).destroyed = true
  · rw [if_pos hd]
    exact h.light ((hlight t).andThen (f := .destroyed i exception) rfl
      fun t => light_ret (same_errorOnce t i exception))
  · rw [if_neg hd]
    rw [Bool.not_eq_true] at hd
    obtain ⟨u, hu⟩ : ∃ u, u = t.put i { t.sockets i with
      connecting := false
      closing := (t.sockets i).closing || (t.sockets i).handle
      handle := false } := ⟨_, rfl⟩
    have hsame : Same t u := hu ▸ same_put t rfl rfl rfl rfl nofun
    rw [← hu]
    have hu := (h.enterDestroy hi hd exception).same hsame rfl
    cases cb with
    | false => exact hu.destroyEnd ((htimely rfl).same hsame)
    | true =>
      have hcalls : ∃ v fs, u.onwrite cfg i exception = .call v fs := by
        rw [hcb rfl]
        exact onwrite_calls u i
      obtain ⟨v, fs, hcalls⟩ := hcalls
      have hkeep := hu.light (light_onwrite cfg u i exception)
      rw [if_pos rfl, hcalls]
      rw [hcalls] at hkeep
      unfold Res.Keeps at hkeep ⊢
      simpa [Res.andThen] using hkeep

/-! ### Steps -/

lemma Tallied.exec {t : State} {f : Frame} {k : List Frame} (h : Tallied t (f :: k))
    (htimely : ∀ i e, f = .destroy i e → Timely t i) : (t.exec cfg f).Keeps Tallied k := by
  cases f with
  | user => exact h.same (.refl t) rfl
  | writable i f =>
    have hk : Tallied t k := h.same (.refl t) rfl
    exact hk.light (light_writable t i f)
  | write i => exact h.same (.refl t) rfl
  | connect i => exact h.same (.refl t) rfl
  | destroy i exception => exact h.destroyEnd (htimely i exception rfl)
  | destroyed i exception => exact h.same (same_errorOnce t i exception) rfl

lemma Tallied.writeGeneric {t : State} {k : List Frame} (h : Tallied t k) {i : ℕ}
    (hi : i ∉ inside k) (w : Wrote) : (t._writeGeneric cfg i w).Keeps Tallied k := by
  unfold State._writeGeneric
  dsimp only
  split_ifs
  · exact h.same (same_put t rfl rfl rfl rfl id) rfl
  · exact h._destroy hi true (fun _ => rfl) (fun h => absurd h.symm Bool.false_ne_true)
  · cases w with
    | failed => exact h._destroy hi true (fun _ => rfl) (fun h => absurd h.symm Bool.false_ne_true)
    | flushed =>
      have hput : Tallied (t.put i { t.sockets i with
          requests := (t.sockets i).requests ++ [false] }) k :=
        h.same (same_put t rfl rfl rfl rfl id) rfl
      exact hput.light (light_onwrite cfg _ i false)
    | pending => exact h.same (same_put t rfl rfl rfl rfl id) rfl

lemma Tallied.afterWrite {t : State} (h : Tallied t []) (i : ℕ) (failed : Bool)
    (htimely : failed = true → (t.sockets i).requests.head? = some false → Timely t i) :
    (t.afterWrite cfg i failed).Keeps Tallied [] := by
  unfold State.afterWrite
  dsimp only
  cases hrequests : (t.sockets i).requests with
  | nil => exact h
  | cons cb requests =>
    have hsame : Same t (t.put i { t.sockets i with requests := requests }) :=
      same_put t rfl rfl rfl rfl id
    have hput : Tallied (t.put i { t.sockets i with requests := requests }) [] := h.same hsame rfl
    dsimp only
    split_ifs with hd hfailed
    · exact hput
    · refine hput._destroy List.not_mem_nil cb (fun _ => rfl) fun hcb => ?_
      refine (htimely hfailed ?_).same hsame
      rw [hrequests, hcb]
      rfl
    · exact hput.light (light_onwrite cfg _ i false)
    · exact hput

lemma Tallied.afterConnect {t : State} (h : Tallied t []) (i : ℕ) (ok : Bool)
    (htimely : (t.sockets i).connecting = true → Timely t i) :
    (t.afterConnect cfg i ok).Keeps Tallied [] := by
  unfold State.afterConnect
  dsimp only
  split_ifs with hnot
  · exact h
  · exact h.same (same_put t rfl rfl rfl rfl id) rfl
  · exact h.same (same_put t rfl rfl rfl rfl id) rfl
  · have hsame : Same t (t.put i { t.sockets i with connecting := false }) :=
      same_put t rfl rfl rfl rfl id
    have hput : Tallied (t.put i { t.sockets i with connecting := false }) [] := h.same hsame rfl
    refine hput._destroy List.not_mem_nil false
      (fun h => absurd h Bool.false_ne_true) fun _ => (htimely ?_).same hsame
    by_contra hc
    rw [Bool.not_eq_true] at hc
    exact hnot (by rw [hc]; exact Bool.or_true _)

lemma Tallied.onconnection {t : State} (h : Tallied t []) (hv : t.server.handle = true) :
    (t.onconnection cfg false).Keeps Tallied [] := by
  unfold State.onconnection
  simp only [Bool.false_eq_true, if_false]
  split_ifs with hmax
  · exact h
  · have hself : (t.add (.new true false)).sockets t.count = .new true false := by
      rw [sockets_add, if_pos rfl]
    exact (h.add true false).accept (Nat.lt_succ_self _) (by rw [hself]; rfl)
      (by rw [hself]; rfl) (by rw [hself]; rfl) hv

/-- The slaves are of the same children as before. -/
def Kin (v v' : Server) : Prop :=
  v'.usingSlaves = v.usingSlaves ∧ v'.slaves.map Slave.child = v.slaves.map Slave.child

lemma kin_onSlaveClose (v : Server) : Kin v v.onSlaveClose := by
  unfold Server.onSlaveClose
  dsimp only
  split_ifs
  · exact ⟨rfl, rfl⟩
  · exact ⟨emit_using _, congrArg (List.map Slave.child) (emit_slaves _)⟩

lemma kin_answer (v : Server) (child : ℕ) : Kin v (v.answer child) := by
  unfold Server.answer
  split_ifs
  · have h := kin_onSlaveClose (v.ask child false)
    exact ⟨h.1, h.2.trans (kids_ask v child false)⟩
  · exact ⟨rfl, rfl⟩

lemma kin_closeSlaves (gone : List ℕ) (ls : List Slave) (v : Server) :
    Kin v (ls.foldl (Server.closeSlave gone) v) := by
  induction ls generalizing v with
  | nil => exact ⟨rfl, rfl⟩
  | cons l ls ih =>
    have hl : Kin v (v.closeSlave gone l) := by
      unfold Server.closeSlave
      split_ifs
      · exact kin_onSlaveClose v
      · exact ⟨rfl, kids_ask v l.child true⟩
    have h := ih (v.closeSlave gone l)
    exact ⟨h.1.trans hl.1, h.2.trans hl.2⟩

lemma kin_close (v : Server) (gone : List ℕ) : Kin v (v.close gone) := by
  unfold Server.close
  dsimp only
  split_ifs
  · exact ⟨rfl, rfl⟩
  · exact kin_closeSlaves gone _ _
  · exact ⟨emit_using _, congrArg (List.map Slave.child) (emit_slaves _)⟩

lemma Tallied.server {t : State} {k : List Frame} (h : Tallied t k) {v : Server}
    (hkin : Kin t.server v) (hphase : Phase v (owned t).card (lost t).card) (gone : List ℕ) :
    Tallied { t with server := v, gone := gone } k where
  known := h.known
  handle := h.handle
  unsent hv := h.unsent (hkin.1.symm.trans hv)
  slaves := by
    have hnil : ∀ w : Server, w.slaves ≠ [] ↔ w.slaves.map Slave.child ≠ [] :=
      fun w => not_congr List.map_eq_nil_iff.symm
    show v.usingSlaves = true ↔ v.slaves ≠ []
    rw [hnil, hkin.1, hkin.2, ← hnil]
    exact h.slaves
  kids := by
    show (v.slaves.map Slave.child).Nodup
    rw [hkin.2]
    exact h.kids
  phase := hphase
  nodup := h.nodup
  fresh := h.fresh

lemma Tallied.close {t : State} {k : List Frame} (h : Tallied t k)
    (hgone : t.server.usingSlaves = true → (∀ l ∈ t.server.slaves, l.child ∈ t.gone) →
      owned t = ∅) : Tallied { t with server := t.server.close t.gone } k := by
  refine h.server (kin_close _ _) (h.phase.close h.kids h.slaves.mp h.nothingLost ?_) t.gone
  intro hu hall
  rw [hgone hu hall, Finset.card_empty]

lemma Tallied.answer {t : State} {k : List Frame} (h : Tallied t k) {child : ℕ}
    (hlast : Last t.server child → owned t = ∅) (gone : List ℕ) :
    Tallied { t with server := t.server.answer child, gone := gone } k := by
  refine h.server (kin_answer _ _) (h.phase.answer h.kids fun hl => ?_) gone
  rw [hlast hl, Finset.card_empty]

/-- What foreign code calls. -/
lemma Tallied.callOf {m : System} {a : Act} {r : Outcome} (hu : Tallied m.st (.user :: m.stack))
    (hhanded : Handed m a) (hok : Ok cfg m a) (hr : callOf cfg m.st a = some r) :
    r.Keeps Tallied (.user :: m.stack) := by
  cases a with
  | socket connecting =>
    obtain rfl := Option.some.inj hr
    exact hu.add connecting connecting
  | write i chunk encoding =>
    obtain rfl := Option.some.inj hr
    exact hu.light (light_write cfg m.st i chunk encoding)
  | cork i =>
    obtain rfl := Option.some.inj hr
    exact hu.light (light_onWritable _ _ _)
  | uncork i =>
    obtain rfl := Option.some.inj hr
    exact hu.light (light_onWritable _ _ _)
  | «end» i cb =>
    obtain rfl := Option.some.inj hr
    exact hu.light (light_onWritable _ _ _)
  | destroy i exception =>
    obtain rfl := Option.some.inj hr
    exact hu._destroy hok.2.1 false (fun h => absurd h Bool.false_ne_true) fun _ => hok.2.2
  | close =>
    obtain rfl := Option.some.inj hr
    exact hu.close hok.2
  | send i child =>
    unfold Net.callOf at hr
    dsimp only at hr
    split_ifs at hr
    obtain rfl := Option.some.inj hr
    exact hu.send hhanded.1 hhanded.2.1 hhanded.2.2 child
  | _ => cases hr

/-- What the event loop calls. -/
lemma Tallied.eventOf {t : State} {a : Act} {r : Outcome} (h : Tallied t [])
    (hok : Ok cfg ⟨t, []⟩ a) (hr : eventOf cfg t a = some r) : r.Keeps Tallied [] := by
  cases Event.of_some hr with
  | connection fails hv =>
    obtain rfl : fails = false := hok.2
    exact h.onconnection hv
  | connected i ok => exact h.afterConnect i ok hok.2
  | written i failed => exact h.afterWrite i failed hok.2
  | closed i _ => exact h.same (same_put t rfl rfl rfl rfl id) rfl
  | reply child => exact h.answer hok.2 t.gone
  | disconnect child => exact h.answer hok.2 _
  | tickWritable i tick ts => exact h.light (light_onWritable _ _ _)
  | tickError i _ =>
    have hput : Same t (t.put i { t.sockets i with
        errorTicks := (t.sockets i).errorTicks - 1 }) := same_put t rfl rfl rfl rfl id
    exact h.same (hput.trans (same_emitError _ i)) rfl
  | tickClose hpos =>
    refine h.server (v := { t.server with
      closeTicks := t.server.closeTicks - 1, closes := t.server.closes + 1 }) ⟨rfl, rfl⟩ ?_ t.gone
    have hsum : t.server.closes + 1 + (t.server.closeTicks - 1) =
        t.server.closes + t.server.closeTicks := by omega
    cases h.phase with
    | listening handle quiet count answered =>
      exact .listening handle (hsum.trans quiet) count answered
    | alone handle kept answered count emitted =>
      exact .alone handle kept answered count (hsum.trans emitted)
    | asking handle quiet count left pos =>
      exact .asking handle (hsum.trans quiet) count left pos
    | answered handle answered count ho emitted =>
      exact .answered handle answered count ho (hsum.trans emitted)

lemma Tallied.step {m m' : System} {a : Act} (h : Tallied m.st m.stack) (hhanded : Handed m a)
    (hok : Ok cfg m a) (hs : step cfg m a = some m') : Tallied m'.st m'.stack := by
  refine step_along hs h hok.1 (fun t k h => h.same (.refl t) rfl) (fun t f k hf h => ?_)
    (fun t f k h hP => h.exec hP) (fun w i k ha hk h => ?_)
    (fun r hr h => h.callOf hhanded hok hr) fun r hk hr => ?_
  · refine h.same (.refl t) ?_
    cases f with
    | user => rfl
    | writable i f => rfl
    | write i => rfl
    | _ => rcases hf with hf | hf <;> cases hf
  · subst ha
    refine h.writeGeneric (fun hi => ?_) w
    refine hok.2 i k hk ?_
    rw [hk]
    exact hi
  · obtain ⟨t, stack⟩ := m
    obtain rfl : stack = [] := hk
    exact h.eventOf hok hr

/-- A server that listens, and nothing has happened. -/
lemma tallied_init (maxConnections : ℤ) :
    Tallied (init maxConnections).st (init maxConnections).stack where
  known _ h := absurd h Bool.false_ne_true
  handle _ _ := rfl
  unsent _ _ _ := rfl
  slaves := iff_of_false Bool.false_ne_true fun h => h rfl
  kids := List.nodup_nil
  phase := .listening rfl rfl rfl (List.forall_mem_nil _)
  nodup := List.nodup_nil
  fresh _ h := absurd h List.not_mem_nil

/-- **The server closes once**, when its sockets are destroyed and its slaves have called back, in
every run whose steps meet the condition. -/
theorem closes_with_slaves (cfg : Writable.Config) (maxConnections : ℤ) {m : System}
    (h : Run (step cfg) (fun m a _ => Handed m a ∧ Ok cfg m a) (init maxConnections) m) :
    Sound m.st := by
  have ht : Tallied m.st m.stack :=
    h.invariant (I := fun m => Tallied m.st m.stack) (tallied_init maxConnections)
      fun _ _ _ ht hs hok => ht.step hok.1 hok.2 hs
  exact ht.sound

/-- Two of three sockets are handed over. The third is destroyed while both slaves are asked. -/
def asking : List Act :=
  [.connection false, .connection false, .connection false, .send 0 7, .send 1 8, .close,
    .destroy 2 false, .disconnect 8, .reply 7, .tickClose]

theorem closes_with_slaves_asking :
    ∃ m, Run (step options) (fun m a _ => Handed m a ∧ Ok options m a) (init 0) m ∧
      m.st.server.closes = 1 ∧ Sound m.st := by
  have hopen : ∀ {m : System}, m.st.server.usingSlaves = true →
      (∃ l ∈ m.st.server.slaves, l.child ∉ m.st.gone) → Ok options m .close :=
    fun _ ⟨l, hl, hgone⟩ => ⟨trivial, fun _ hall => absurd (hall l hl) hgone⟩
  have hrun : ∃ m, Run (step options) (fun m a _ => Handed m a ∧ Ok options m a) (init 0) m ∧
      m.st.server.closes = 1 :=
    ⟨_, Run.of_path .refl (w := asking)
      ⟨_, rfl, ⟨trivial, trivial, rfl⟩, _, rfl, ⟨trivial, trivial, rfl⟩,
        _, rfl, ⟨trivial, trivial, rfl⟩, _, rfl, ⟨⟨rfl, rfl, rfl⟩, trivial, trivial⟩,
        _, rfl, ⟨⟨rfl, rfl, rfl⟩, trivial, trivial⟩,
        _, rfl, ⟨trivial, hopen rfl ⟨⟨7, false⟩, by decide, by decide⟩⟩,
        _, rfl, ⟨trivial, trivial, by decide, fun _ _ _ _ => by decide⟩,
        _, rfl, ⟨trivial, trivial, fun _ => by decide⟩,
        _, rfl, ⟨trivial, trivial, fun _ => by decide⟩,
        _, rfl, ⟨trivial, trivial, trivial⟩, rfl⟩, rfl⟩
  obtain ⟨m, hm, hcloses⟩ := hrun
  exact ⟨m, hm, hcloses, closes_with_slaves options 0 hm⟩

/-- A socket is destroyed that has been handed over, and the other while the slave is asked. -/
def losing : List Act :=
  [.connection false, .connection false, .send 0 7, .destroy 0 false, .close, .destroy 1 false]

/-- `'close'` is on its way, and the slave has not called back. -/
theorem closed_before_answer : ¬ ∀ m, Run (step options) (fun m a _ => Handed m a) (init 0) m →
    Sound m.st := by
  intro h
  have hrun : ∃ m, Run (step options) (fun m a _ => Handed m a) (init 0) m ∧
      m.st.server.closeTicks = 1 ∧ ⟨7, true⟩ ∈ m.st.server.slaves :=
    ⟨_, Run.of_path .refl (w := losing)
      ⟨_, rfl, trivial, _, rfl, trivial, _, rfl, ⟨rfl, rfl, rfl⟩, _, rfl, trivial,
        _, rfl, trivial, _, rfl, trivial, rfl⟩, rfl, by decide⟩
  obtain ⟨m, hm, hticks, hasked⟩ := hrun
  have hanswered := ((h m hm).only (by omega)).2.2 _ hasked
  cases hanswered

end NodeCore.NetSlaves
