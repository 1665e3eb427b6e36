import NodeCore.Net

/-!
The count of a server's connections. It is the number of accepted sockets that are not destroyed,
as long as no socket is destroyed again while the callback of its `_destroy` runs.
-/

namespace NodeCore.NetCount

open NodeCore.Encoding NodeCore.Reentrant NodeCore.Net

/-! ### Counting sockets -/

/-- The sockets with `q`. -/
def having (q : Socket → Bool) (t : State) : Finset ℕ :=
  (Finset.range t.count).filter fun i => q (t.sockets i)

lemma sockets_put (t : State) (i : ℕ) (s : Socket) (j : ℕ) :
    (t.put i s).sockets j = if j = i then s else t.sockets j := by
  simp [State.put, Function.update_apply]

lemma sockets_add (t : State) (s : Socket) (i : ℕ) :
    (t.add s).sockets i = if i = t.count then s else t.sockets i :=
  sockets_put t t.count s i

section Having

variable {q : Socket → Bool} {t : State} {i : ℕ} {s : Socket}

lemma mem_having {j : ℕ} : j ∈ having q t ↔ j < t.count ∧ q (t.sockets j) = true := by
  rw [having, Finset.mem_filter, Finset.mem_range]

lemma having_put (h : q s = q (t.sockets i)) : having q (t.put i s) = having q t := by
  refine Finset.filter_congr fun j _ => ?_
  rw [sockets_put]
  by_cases hj : j = i
  · rw [if_pos hj, h, hj]
  · rw [if_neg hj]

/-- One less. -/
lemma having_drop (hi : i < t.count) (h : q (t.sockets i) = true) (h' : q s = false) :
    (having q (t.put i s)).card + 1 = (having q t).card := by
  have herase : having q (t.put i s) = (having q t).erase i := by
    ext j
    rw [Finset.mem_erase, mem_having, mem_having, sockets_put]
    by_cases hj : j = i
    · simp [hj, h']
    · simp [hj, State.put]
  rw [herase]
  exact Finset.card_erase_add_one (mem_having.mpr ⟨hi, h⟩)

/-- One more. -/
lemma having_gain (hi : i < t.count) (h : q (t.sockets i) = false) (h' : q s = true) :
    (having q (t.put i s)).card = (having q t).card + 1 := by
  have hinsert : having q (t.put i s) = insert i (having q t) := by
    ext j
    rw [Finset.mem_insert, mem_having, mem_having, sockets_put]
    by_cases hj : j = i
    · subst hj
      simp [h', hi, State.put]
    · simp [hj, State.put]
  rw [hinsert]
  refine Finset.card_insert_of_notMem fun hmem => ?_
  rw [(mem_having.mp hmem).2] at h
  cases h

lemma having_add (h : q s = false) : having q (t.add s) = having q t := by
  ext j
  have hcount : (t.add s).count = t.count + 1 := rfl
  rw [mem_having, mem_having, sockets_add, hcount]
  by_cases hj : j = t.count
  · simp [hj, h]
  · rw [if_neg hj]
    exact ⟨fun hl => ⟨by omega, hl.2⟩, fun hl => ⟨by omega, hl.2⟩⟩

end Having

/-! ### The claim -/

/-- Accepted and not destroyed. -/
def isLive (s : Socket) : Bool := s.server && !s.destroyed

def live (t : State) : Finset ℕ := having isLive t

/-- **What is claimed.** -/
structure Sound (t : State) : Prop where
  count : t.server.connections = (live t).card
  once : ∀ i, (t.sockets i).server = true →
    (t.sockets i).decrements = if (t.sockets i).destroyed then 1 else 0
  atMost : t.server.closes + t.server.closeTicks ≤ 1
  drained : t.server.handle = false → t.server.connections = 0 →
    t.server.closes + t.server.closeTicks = 1
  only : 0 < t.server.closes + t.server.closeTicks →
    t.server.handle = false ∧ t.server.connections = 0

/-- The sockets in whose `_destroy` a callback runs. -/
def inside (k : List Frame) : List ℕ := k.filterMap fun
  | .destroy i _ => some i
  | _ => none

/-- No socket is handed to another process. -/
def Kept : Act → Prop
  | .send _ _ => False
  | _ => True

/-- **The condition on a step.** No socket is destroyed from inside its `_destroy`, and the reading
of a new one starts. -/
def Ok (m : System) : Act → Prop
  | .destroy i _ => i ∉ inside m.stack
  | .wrote _ => ∀ i k, m.stack = .write i :: k → i ∉ inside m.stack
  | .connection fails => fails = false
  | _ => True

/-! ### What does not touch the count -/

/-- The sockets are as live as before, and the server is as it was. -/
structure Same (t t' : State) : Prop where
  count : t'.count = t.count
  server : t'.server = t.server
  accepted : ∀ i, (t'.sockets i).server = (t.sockets i).server
  destroyed : ∀ i, (t'.sockets i).destroyed = (t.sockets i).destroyed
  decrements : ∀ i, (t'.sockets i).decrements = (t.sockets i).decrements
  sent : ∀ i, (t'.sockets i).sent = (t.sockets i).sent
  handle : ∀ i, (t'.sockets i).handle = true → (t.sockets i).handle = true

lemma Same.refl (t : State) : Same t t :=
  ⟨rfl, rfl, fun _ => rfl, fun _ => rfl, fun _ => rfl, fun _ => rfl, fun _ => id⟩

lemma Same.trans {t t' t'' : State} (h : Same t t') (h' : Same t' t'') : Same t t'' where
  count := h'.count.trans h.count
  server := h'.server.trans h.server
  accepted i := (h'.accepted i).trans (h.accepted i)
  destroyed i := (h'.destroyed i).trans (h.destroyed i)
  decrements i := (h'.decrements i).trans (h.decrements i)
  sent i := (h'.sent i).trans (h.sent i)
  handle i hh := h.handle i (h'.handle i hh)

lemma same_put (t : State) {i : ℕ} {s : Socket} (ha : s.server = (t.sockets i).server)
    (hd : s.destroyed = (t.sockets i).destroyed)
    (hn : s.decrements = (t.sockets i).decrements) (hs : s.sent = (t.sockets i).sent)
    (hh : s.handle = true → (t.sockets i).handle = true) : Same t (t.put i s) := by
  refine ⟨rfl, rfl, fun j => ?_, fun j => ?_, fun j => ?_, fun j => ?_, fun j => ?_⟩
  all_goals
    rcases eq_or_ne j i with rfl | hne
    · simpa [State.put]
    · simp [State.put, hne]

/-- The function changes no count, and enters no `_destroy` that counts. -/
structure Light (t : State) (r : Outcome) : Prop where
  same : Same t r.state
  frames : inside r.frames = []

lemma inside_append (fs k : List Frame) : inside (fs ++ k) = inside fs ++ inside k :=
  List.filterMap_append

lemma Light.of_same {t t' : State} {r : Outcome} (h : Same t t') (hl : Light t' r) : Light t r :=
  ⟨h.trans hl.same, hl.frames⟩

lemma light_ret {t t' : State} (h : Same t t') : Light t (.ret t') := ⟨h, rfl⟩

lemma light_onWritable (t : State) (i : ℕ) (r : Writable.Result) : Light t (t.onWritable i r) := by
  cases r with
  | ret ws => exact light_ret (same_put t rfl rfl rfl rfl id)
  | call ws fs =>
    refine ⟨same_put t rfl rfl rfl rfl id, ?_⟩
    unfold State.onWritable Res.within
    rw [Res.frames_call, inside_append]
    have hmap : inside (fs.map (Frame.writable i)) = [] := by
      rw [inside, List.filterMap_map]
      exact List.filterMap_eq_nil_iff.mpr fun _ _ => rfl
    rw [hmap, List.append_nil]
    dsimp only
    split <;> rfl

lemma same_emitError (t : State) (i : ℕ) : Same t (t.emitError i) := same_put t rfl rfl rfl rfl id

variable (cfg : Writable.Config)

lemma light_onwrite (t : State) (i : ℕ) (er : Bool) : Light t (t.onwrite cfg i er) := by
  unfold State.onwrite
  dsimp only
  split_ifs
  · exact .of_same (same_emitError t i) (light_onWritable _ _ _)
  · exact light_onWritable _ _ _

lemma light_write (t : State) (i : ℕ) (chunk : Writable.Chunk) (encoding : EncArg) :
    Light t (t.write cfg i chunk encoding) := by
  have hgo : Light t ((if (t.sockets i).ws.ended then t.emitError i else t).onWritable i
      (Writable.write cfg ((if (t.sockets i).ws.ended then t.emitError i else t).sockets i).ws
        chunk encoding)) := by
    split_ifs
    · exact .of_same (same_emitError t i) (light_onWritable _ _ _)
    · exact light_onWritable _ _ _
  cases chunk with
  | null => exact light_ret (.refl t)
  | obj => exact light_ret (.refl t)
  | str s => exact hgo
  | buf b => exact hgo

lemma same_errorOnce (t : State) (i : ℕ) (exception : Bool) : Same t (t.errorOnce i exception) := by
  unfold State.errorOnce
  dsimp only
  split_ifs
  · exact same_put t rfl rfl rfl rfl id
  · exact .refl t

lemma Light.andThen {t : State} {r : Outcome} (h : Light t r) {f : Frame} (hf : inside [f] = [])
    {g : State → Outcome} (hg : ∀ t, Light t (g t)) : Light t (r.andThen f g) := by
  cases r with
  | ret u => exact .of_same h.same (hg u)
  | call u fs =>
    refine ⟨h.same, ?_⟩
    have hfs : inside fs = [] := h.frames
    show inside (fs ++ [f]) = []
    rw [inside_append, hfs, hf]
    rfl

/-! ### The invariant -/

/-- `'close'` has been emitted, or will be, exactly if the server is closed and drained. -/
def Drained (v : Server) : Prop :=
  v.closes + v.closeTicks = if v.handle = false ∧ v.connections = 0 then 1 else 0

/-- No socket has been handed over. -/
def Alone (v : Server) : Prop := v.usingSlaves = false ∧ v.slaves = []

structure Counted (t : State) (k : List Frame) : Prop where
  count : t.server.connections = (live t).card
  known : ∀ i, (t.sockets i).server = true → i < t.count
  once : ∀ i, (t.sockets i).decrements =
    if (t.sockets i).server && (t.sockets i).destroyed then 1 else 0
  drained : Drained t.server
  alone : Alone t.server
  nodup : (inside k).Nodup
  fresh : ∀ i ∈ inside k, (t.sockets i).destroyed = false

lemma Counted.sound {t : State} {k : List Frame} (h : Counted t k) : Sound t := by
  have hd := h.drained
  unfold Drained at hd
  refine ⟨h.count, fun i hi => ?_, ?_, fun hh hc => ?_, fun hpos => ?_⟩
  · rw [h.once, hi, Bool.true_and]
  · rw [hd]
    split_ifs <;> omega
  · rw [hd, if_pos ⟨hh, hc⟩]
  · by_contra hnot
    rw [hd, if_neg hnot] at hpos
    exact Nat.lt_irrefl 0 hpos

lemma Same.having {t t' : State} (h : Same t t') {q : Socket → Bool}
    (hq : ∀ i, q (t'.sockets i) = q (t.sockets i)) : having q t' = having q t := by
  unfold NetCount.having
  rw [h.count]
  exact Finset.filter_congr fun i _ => by rw [hq]

lemma live_same {t t' : State} (h : Same t t') : live t' = live t :=
  h.having fun i => by rw [isLive, isLive, h.accepted, h.destroyed]

lemma Counted.same {t t' : State} {k k' : List Frame} (hc : Counted t k) (h : Same t t')
    (hk : inside k' = inside k) : Counted t' k' where
  count := by rw [h.server, live_same h]; exact hc.count
  known i := by rw [h.accepted, h.count]; exact hc.known i
  once i := by rw [h.decrements, h.accepted, h.destroyed]; exact hc.once i
  drained := by rw [h.server]; exact hc.drained
  alone := by rw [h.server]; exact hc.alone
  nodup := by rw [hk]; exact hc.nodup
  fresh i := by rw [hk, h.destroyed]; exact hc.fresh i

lemma Light.keeps {t : State} {r : Outcome} {k : List Frame} (h : Light t r) (hc : Counted t k) :
    r.Keeps Counted k := by
  refine hc.same h.same ?_
  rw [inside_append, h.frames]
  rfl

/-! ### The server -/

lemma drained_emit {v : Server} (h : v.closes + v.closeTicks = 0) :
    Drained v.emitCloseIfDrained := by
  unfold Drained Server.emitCloseIfDrained
  cases hv : v.handle with
  | true => simp [hv, h]
  | false =>
    by_cases hc : v.connections = 0
    · simp [hc]
      omega
    · simp [hv, hc, h]

lemma emit_connections (v : Server) : v.emitCloseIfDrained.connections = v.connections := by
  unfold Server.emitCloseIfDrained
  split_ifs <;> rfl

lemma Alone.emit {v : Server} (h : Alone v) : Alone v.emitCloseIfDrained := by
  unfold Server.emitCloseIfDrained
  split_ifs <;> exact h

lemma Alone.answer {v : Server} (h : Alone v) (child : ℕ) : v.answer child = v := by
  rw [Server.answer, h.2]
  rfl

lemma Drained.decrement {v : Server} (h : Drained v) (hpos : v.connections ≠ 0) :
    Drained v.decrement := by
  refine drained_emit ?_
  have h' := h
  unfold Drained at h'
  rwa [if_neg fun hv => hpos hv.2] at h'

lemma Counted.close {t : State} {k : List Frame} (h : Counted t k) :
    Counted { t with server := t.server.close t.gone } k := by
  unfold Server.close
  simp only [h.alone.1, Bool.false_eq_true, if_false]
  split_ifs with hhandle
  · exact h
  · have hd := h.drained
    unfold Drained at hd
    rw [if_neg fun hv => hhandle (by rw [hv.1]; rfl)] at hd
    refine ⟨?_, h.known, h.once, drained_emit hd, ?_, h.nodup, h.fresh⟩
    · rw [emit_connections]
      exact h.count
    · exact Alone.emit ⟨rfl, h.alone.2⟩

/-! ### Sockets come and go -/

/-- A socket that is not accepted yet. -/
lemma Counted.add {t : State} {k : List Frame} (h : Counted t k) (handle connecting : Bool) :
    Counted (t.add (.new handle connecting)) k := by
  constructor
  · rw [live, having_add rfl]
    exact h.count
  · intro i hi
    rw [sockets_add] at hi
    by_cases heq : i = t.count
    · rw [if_pos heq] at hi
      cases hi
    · rw [if_neg heq] at hi
      exact Nat.lt_succ_of_lt (h.known i hi)
  · intro i
    rw [sockets_add]
    by_cases heq : i = t.count
    · rw [if_pos heq]
      rfl
    · rw [if_neg heq]
      exact h.once i
  · exact h.drained
  · exact h.alone
  · exact h.nodup
  · intro i hi
    rw [sockets_add]
    by_cases heq : i = t.count
    · rw [if_pos heq]
      rfl
    · rw [if_neg heq]
      exact h.fresh i hi

/-- What the socket `i` comes to keeps the invariant, if the server goes along with it. -/
lemma Counted.put {t : State} {k k' : List Frame} (h : Counted t k) {i : ℕ} {s : Socket}
    {v : Server} (hcount : v.connections = (live (t.put i s)).card)
    (hknown : s.server = true → i < t.count)
    (honce : s.decrements = if s.server && s.destroyed then 1 else 0) (hdrained : Drained v)
    (halone : Alone v) (hnodup : (inside k').Nodup)
    (hfresh : ∀ j ∈ inside k', if j = i then s.destroyed = false else j ∈ inside k) :
    Counted { t.put i s with server := v } k' := by
  have hsockets : ∀ j, ({ t.put i s with server := v } : State).sockets j =
      if j = i then s else t.sockets j := sockets_put t i s
  constructor
  · exact hcount
  · intro j hj
    rw [hsockets] at hj
    by_cases hji : j = i
    · rw [if_pos hji] at hj
      exact hji ▸ hknown hj
    · rw [if_neg hji] at hj
      exact h.known j hj
  · intro j
    rw [hsockets]
    by_cases hji : j = i
    · rw [if_pos hji]
      exact honce
    · rw [if_neg hji]
      exact h.once j
  · exact hdrained
  · exact halone
  · exact hnodup
  · intro j hj
    have hj' := hfresh j hj
    rw [hsockets]
    by_cases hji : j = i
    · rw [if_pos hji] at hj' ⊢
      exact hj'
    · rw [if_neg hji] at hj' ⊢
      exact h.fresh j hj'

/-- A new socket is accepted. -/
lemma Counted.accept {t : State} {k : List Frame} (h : Counted t k) {i : ℕ}
    (hi : i < t.count) (hs : (t.sockets i).server = false) (hd : (t.sockets i).destroyed = false)
    (hv : t.server.handle = true) :
    Counted { t.put i { t.sockets i with server := true } with
      server := { t.server with connections := t.server.connections + 1 } } k := by
  refine h.put ?_ (fun _ => hi) ?_ ?_ h.alone h.nodup fun j hj => ?_
  · have hgain : (live (t.put i { t.sockets i with server := true })).card = (live t).card + 1 :=
      having_gain hi (by rw [isLive, hs]; rfl) (by rw [isLive, hd]; rfl)
    have hcount := h.count
    rw [hgain]
    push_cast
    omega
  · have honce := h.once i
    rw [hs] at honce
    simpa [hd] using honce
  · have hdrained := h.drained
    unfold Drained at hdrained ⊢
    simpa [hv] using hdrained
  · split_ifs
    · exact hd
    · exact hj

/-! ### `_destroy` -/

lemma decrement_connections (v : Server) : v.decrement.connections = v.connections - 1 :=
  emit_connections _

/-- The sockets that are left are others, and were there before. -/
lemma inside_of_left {k : List Frame} {i : ℕ} (exception : Bool) (hnot : i ∉ inside k) :
    ∀ j ∈ inside k, if j = i then true = false else
      j ∈ inside (.destroy i exception :: k) := by
  intro j hj
  rw [if_neg fun hji : j = i => hnot (hji ▸ hj)]
  exact List.mem_cons_of_mem i hj

/-- The end of `_destroy`, whose frame has been taken off the stack. -/
lemma Counted.destroyEnd {t : State} {k : List Frame} {i : ℕ} {exception : Bool}
    (h : Counted t (.destroy i exception :: k)) : Counted (t.destroyEnd i exception) k := by
  have hnodup : (i :: inside k).Nodup := h.nodup
  obtain ⟨hnot, hnodup⟩ := List.nodup_cons.mp hnodup
  have hk : inside (.destroy i exception :: k) = i :: inside k := rfl
  -- whether `'error'` will be emitted does not matter
  have he := h.same (same_errorOnce t i exception) rfl
  unfold State.destroyEnd
  revert he
  generalize t.errorOnce i exception = t
  intro h
  have hd : (t.sockets i).destroyed = false := h.fresh i (hk ▸ List.mem_cons_self)
  have honce := h.once i
  rw [hd, Bool.and_false, if_neg Bool.false_ne_true] at honce
  have hfresh := inside_of_left exception hnot
  dsimp only
  split_ifs with hs
  · have hdrop : (live (t.put i { t.sockets i with
        destroyed := true, decrements := (t.sockets i).decrements + 1 })).card + 1 =
        (live t).card :=
      having_drop (h.known i hs) (by rw [isLive, hs, hd]; rfl) (Bool.and_false _)
    have hcount := h.count
    refine h.put ?_ (h.known i) (by simp [hs, honce]) (h.drained.decrement ?_)
      (Alone.emit ⟨h.alone.1, h.alone.2⟩) hnodup hfresh
    · rw [decrement_connections, hcount, ← hdrop]
      push_cast
      exact add_sub_cancel_right _ _
    · omega
  · rw [Bool.not_eq_true] at hs
    have hsame : live (t.put i { t.sockets i with destroyed := true }) = live t :=
      having_put (by rw [isLive, isLive, hs]; rfl)
    exact h.put (by rw [hsame]; exact h.count) (h.known i) (by simp [hs, honce]) h.drained h.alone
      hnodup hfresh

variable {cfg}

lemma Counted.enterDestroy {t : State} {k : List Frame} (h : Counted t k) {i : ℕ}
    (hi : i ∉ inside k) (hd : (t.sockets i).destroyed = false) (exception : Bool) :
    Counted t (.destroy i exception :: k) where
  count := h.count
  known := h.known
  once := h.once
  drained := h.drained
  alone := h.alone
  nodup := List.nodup_cons.mpr ⟨hi, h.nodup⟩
  fresh := List.forall_mem_cons.mpr ⟨hd, h.fresh⟩

/-- A socket is destroyed, but not from inside its `_destroy`. -/
lemma Counted._destroy {t : State} {k : List Frame} (h : Counted t k) {i : ℕ}
    (hi : i ∉ inside k) (exception cb : Bool) :
    (t._destroy cfg i exception cb).Keeps Counted k := by
  have hcb : ∀ t : State, Light t (if cb then t.onwrite cfg i exception else .ret t) := by
    intro t
    split_ifs
    · exact light_onwrite cfg t i exception
    · exact light_ret (.refl t)
  unfold State._destroy
  dsimp only
  by_cases hd : (t.sockets i).destroyed = true
  · rw [if_pos hd]
    have hlight := (hcb t).andThen (f := .destroyed i exception) rfl
      fun t => light_ret (same_errorOnce t i exception)
    exact hlight.keeps h
  · rw [if_neg hd]
    rw [Bool.not_eq_true] at hd
    refine Res.Keeps.andThen (((hcb _).keeps ?_)) fun t ht => ht.destroyEnd
    exact (h.enterDestroy hi hd exception).same (same_put t rfl rfl rfl rfl nofun) rfl

/-! ### Steps -/

lemma light_writable (t : State) (i : ℕ) (f : Writable.Frame) :
    Light t (t.exec cfg (.writable i f)) := by
  unfold State.exec
  dsimp only
  split_ifs
  · exact .of_same (same_emitError t i) (light_onWritable _ _ _)
  · exact light_onWritable _ _ _

lemma Counted.exec {t : State} {f : Frame} {k : List Frame} (h : Counted t (f :: k)) :
    (t.exec cfg f).Keeps Counted k := by
  cases f with
  | user => exact h.same (.refl t) rfl
  | writable i f => exact (light_writable t i f).keeps (h.same (.refl t) rfl)
  | write i => exact h.same (.refl t) rfl
  | connect i => exact h.same (.refl t) rfl
  | destroy i exception => exact h.destroyEnd
  | destroyed i exception => exact h.same (same_errorOnce t i exception) rfl

lemma Counted.writeGeneric {t : State} {k : List Frame} (h : Counted t k) {i : ℕ}
    (hi : i ∉ inside k) (w : Wrote) : (t._writeGeneric cfg i w).Keeps Counted k := by
  unfold State._writeGeneric
  dsimp only
  split_ifs
  · exact h.same (same_put t rfl rfl rfl rfl id) rfl
  · exact h._destroy hi true true
  · cases w with
    | failed => exact h._destroy hi true true
    | flushed =>
      have hput : Counted (t.put i { t.sockets i with
          requests := (t.sockets i).requests ++ [false] }) k :=
        h.same (same_put t rfl rfl rfl rfl id) rfl
      exact (light_onwrite cfg _ i false).keeps hput
    | pending => exact h.same (same_put t rfl rfl rfl rfl id) rfl

lemma Counted.afterWrite {t : State} (h : Counted t []) (i : ℕ) (failed : Bool) :
    (t.afterWrite cfg i failed).Keeps Counted [] := by
  unfold State.afterWrite
  dsimp only
  cases hrequests : (t.sockets i).requests with
  | nil => exact h
  | cons cb requests =>
    have hput : Counted (t.put i { t.sockets i with requests := requests }) [] :=
      h.same (same_put t rfl rfl rfl rfl id) rfl
    dsimp only
    split_ifs
    · exact hput
    · exact hput._destroy List.not_mem_nil true cb
    · exact (light_onwrite cfg _ i false).keeps hput
    · exact hput

lemma Counted.afterConnect {t : State} (h : Counted t []) (i : ℕ) (ok : Bool) :
    (t.afterConnect cfg i ok).Keeps Counted [] := by
  unfold State.afterConnect
  dsimp only
  split_ifs
  · exact h
  · exact h.same (same_put t rfl rfl rfl rfl id) rfl
  · exact h.same (same_put t rfl rfl rfl rfl id) rfl
  · have hput : Counted (t.put i { t.sockets i with connecting := false }) [] :=
      h.same (same_put t rfl rfl rfl rfl id) rfl
    exact hput._destroy List.not_mem_nil true false

lemma Counted.onconnection {t : State} (h : Counted t []) (hv : t.server.handle = true) :
    (t.onconnection cfg false).Keeps Counted [] := by
  unfold State.onconnection
  simp only [Bool.false_eq_true, if_false]
  split_ifs with hmax
  · exact h
  · have hself : (t.add (.new true false)).sockets t.count = .new true false := by
      rw [sockets_add, if_pos rfl]
    exact (h.add true false).accept (Nat.lt_succ_self _) (by rw [hself]; rfl)
      (by rw [hself]; rfl) hv

/-- What foreign code calls. -/
lemma Counted.callOf {m : System} {a : Act} {r : Outcome} (hu : Counted m.st (.user :: m.stack))
    (hkept : Kept a) (hok : Ok m a) (hr : callOf cfg m.st a = some r) :
    r.Keeps Counted (.user :: m.stack) := by
  cases a with
  | socket connecting =>
    obtain rfl := Option.some.inj hr
    exact hu.add connecting connecting
  | write i chunk encoding =>
    obtain rfl := Option.some.inj hr
    exact (light_write cfg m.st i chunk encoding).keeps hu
  | cork i =>
    obtain rfl := Option.some.inj hr
    exact (light_onWritable _ _ _).keeps hu
  | uncork i =>
    obtain rfl := Option.some.inj hr
    exact (light_onWritable _ _ _).keeps hu
  | «end» i cb =>
    obtain rfl := Option.some.inj hr
    exact (light_onWritable _ _ _).keeps hu
  | destroy i exception =>
    obtain rfl := Option.some.inj hr
    exact hu._destroy hok exception false
  | close =>
    obtain rfl := Option.some.inj hr
    exact hu.close
  | send i child => exact hkept.elim
  | _ => cases hr

/-- What the event loop calls. -/
lemma Counted.eventOf {t : State} {a : Act} {r : Outcome} (h : Counted t [])
    (hok : Ok ⟨t, []⟩ a) (hr : eventOf cfg t a = some r) : r.Keeps Counted [] := by
  cases Event.of_some hr with
  | connection fails hv =>
    obtain rfl : fails = false := hok
    exact h.onconnection hv
  | connected i ok => exact h.afterConnect i ok
  | written i failed => exact h.afterWrite i failed
  | closed i _ => exact h.same (same_put t rfl rfl rfl rfl id) rfl
  | reply child =>
    rw [h.alone.answer]
    exact h
  | disconnect child =>
    unfold State.disconnect
    rw [h.alone.answer]
    exact ⟨h.count, h.known, h.once, h.drained, h.alone, h.nodup, h.fresh⟩
  | tickWritable i tick ts => exact (light_onWritable _ _ _).keeps h
  | tickError i _ =>
    have hput : Same t (t.put i { t.sockets i with
        errorTicks := (t.sockets i).errorTicks - 1 }) := same_put t rfl rfl rfl rfl id
    exact h.same (hput.trans (same_emitError _ i)) rfl
  | tickClose hpos =>
    refine ⟨h.count, h.known, h.once, ?_, h.alone, h.nodup, h.fresh⟩
    have hd := h.drained
    have hsum : t.server.closes + 1 + (t.server.closeTicks - 1) =
        t.server.closes + t.server.closeTicks := by omega
    exact hsum.trans hd

lemma Counted.step {m m' : System} {a : Act} (h : Counted m.st m.stack) (hkept : Kept a)
    (hok : Ok m a) (hs : step cfg m a = some m') : Counted m'.st m'.stack := by
  refine step_keeps hs h (fun t k h => h.same (.refl t) rfl) (fun t f k hf h => ?_)
    (fun t f k h => h.exec) (fun w i k ha hk h => ?_) (fun r hr h => h.callOf hkept hok hr)
    fun r hk hr => ?_
  · refine h.same (.refl t) ?_
    cases f with
    | user => rfl
    | writable i f => rfl
    | write i => rfl
    | _ => rcases hf with hf | hf <;> cases hf
  · subst ha
    refine h.writeGeneric (fun hi => ?_) w
    refine hok i k hk ?_
    rw [hk]
    exact hi
  · have h0 : Counted m.st [] := hk ▸ h
    have hok0 : Ok ⟨m.st, []⟩ a := by
      rw [← hk]
      exact hok
    exact h0.eventOf hok0 hr

/-- A server that listens, and nothing has happened. -/
lemma counted_init (maxConnections : ℤ) :
    Counted (init maxConnections).st (init maxConnections).stack where
  count := rfl
  known _ := nofun
  once _ := rfl
  drained := rfl
  alone := ⟨rfl, rfl⟩
  nodup := List.nodup_nil
  fresh _ h := absurd h List.not_mem_nil

/-- **The connections are counted** in every state of a run in which no socket is destroyed from
inside its `_destroy`, and `'close'` comes once, when there are none. -/
theorem connections_counted (cfg : Writable.Config) (maxConnections : ℤ) {m : System}
    (h : Run (step cfg) (fun m a _ => Kept a ∧ Ok m a) (init maxConnections) m) : Sound m.st := by
  have hc : Counted m.st m.stack :=
    h.invariant (I := fun m => Counted m.st m.stack) (counted_init maxConnections)
      fun _ _ _ hc hs hok => hc.step hok.1 hok.2 hs
  exact hc.sound

/-- The options of a socket. -/
def options : Writable.Config := ⟨16384, false, false, none, false⟩

/-- A connection, a write to it that fails after a while, and the end of the server. -/
def failing : List Act :=
  [.connection false, .write 0 (.buf [1]) none, .wrote .pending, .written 0 true, .close,
    .ret, .ret, .tickClose]

theorem connections_counted_failing :
    ∃ m, Run (step options) (fun m a _ => Kept a ∧ Ok m a) (init 0) m ∧ m.st.server.closes = 1 ∧
      Sound m.st := by
  have hrun : ∃ m, Run (step options) (fun m a _ => Kept a ∧ Ok m a) (init 0) m ∧
      m.st.server.closes = 1 :=
    ⟨_, Run.of_path .refl (w := failing)
      ⟨_, rfl, ⟨trivial, rfl⟩, _, rfl, ⟨trivial, trivial⟩,
        _, rfl, ⟨trivial, fun i k h => by cases h; decide⟩, _, rfl, ⟨trivial, trivial⟩,
        _, rfl, ⟨trivial, trivial⟩, _, rfl, ⟨trivial, trivial⟩, _, rfl, ⟨trivial, trivial⟩,
        _, rfl, ⟨trivial, trivial⟩, rfl⟩, rfl⟩
  obtain ⟨m, hm, hcloses⟩ := hrun
  exact ⟨m, hm, hcloses, connections_counted options 0 hm⟩

/-- The callback of the write destroys the socket. -/
def destroying : List Act :=
  [.connection false, .write 0 (.buf [1]) none, .wrote .pending, .written 0 true,
    .destroy 0 false, .ret, .ret]

/-- It is counted off twice. -/
theorem counted_off_twice : ¬ ∀ m, Run (step options) (fun _ a _ => Kept a) (init 0) m →
    Sound m.st := by
  intro h
  have hrun : ∃ m, Run (step options) (fun _ a _ => Kept a) (init 0) m ∧
      m.st.server.connections = -1 :=
    ⟨_, Run.of_path .refl (w := destroying)
      ⟨_, rfl, trivial, _, rfl, trivial, _, rfl, trivial, _, rfl, trivial, _, rfl, trivial,
        _, rfl, trivial, _, rfl, trivial, rfl⟩, rfl⟩
  obtain ⟨m, hm, hc⟩ := hrun
  have hcount := (h m hm).count
  omega

end NodeCore.NetCount
