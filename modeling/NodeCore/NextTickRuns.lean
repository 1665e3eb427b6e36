import NodeCore.NextTick

/-!
The runs in which every callback of `process.nextTick` gets its turn.
-/

namespace NodeCore.NextTick

open NodeCore.Reentrant

/-! ### The invariant -/

/-- How many loops over the queue are active. -/
def loops (k : List Frame) : ℕ := k.countP Frame.loops

@[simp] lemma loops_nil : loops [] = 0 := rfl
@[simp] lemma loops_tick (k : List Frame) : loops (.tick :: k) = loops k + 1 :=
  List.countP_cons_of_pos rfl
@[simp] lemma loops_domainTick (d : Option ℕ) (k : List Frame) :
    loops (.domainTick d :: k) = loops k + 1 := List.countP_cons_of_pos rfl
@[simp] lemma loops_call (d : Option ℕ) (k : List Frame) : loops (.call d :: k) = loops k :=
  List.countP_cons_of_neg nofun
@[simp] lemma loops_ticked (k : List Frame) : loops (.ticked :: k) = loops k :=
  List.countP_cons_of_neg nofun
@[simp] lemma loops_fatal (d : Option ℕ) (n : ℕ) (k : List Frame) :
    loops (.fatal d n :: k) = loops k := List.countP_cons_of_neg nofun
@[simp] lemma loops_boundary (k : List Frame) : loops (.boundary :: k) = loops k :=
  List.countP_cons_of_neg nofun

/-- The queue, the box and the log agree. -/
structure Agree (s : State) : Prop where
  length : s.length = s.queue.length
  taken : s.index ≤ s.log.length
  queue : s.queue = s.history.drop (s.log.length - s.index)
  log : s.log.map Prod.fst <+: s.history
  skipped : ∀ p ∈ s.log, p.2 = false → ∃ d ∈ p.1.domain, d ∈ s.disposed
  inTick : s.inTick = s.looping
  looping : s.looping = true → 0 < s.length ∧ s.index ≤ s.length
  idle : s.looping = false → s.index = 0

/-- The queue has not waited in vain more than once for every callback. -/
structure Paced (s : State) : Prop where
  calls : s.calls ≤ 2 * s.log.length
  spare : s.looping = true ∨ s.lastThrew = true → s.calls + 1 ≤ 2 * s.log.length

structure Ticking (s : State) (k : List Frame) : Prop where
  agree : Agree s
  paced : Paced s
  active : loops k = s.looping.toNat

variable {s : State} {k : List Frame}

namespace Agree

/-- Flags and domains are not looked at. -/
lemma congr {t : State} (h : Agree s) (hqueue : t.queue = s.queue) (hlength : t.length = s.length)
    (hindex : t.index = s.index) (hinTick : t.inTick = s.inTick) (hhistory : t.history = s.history)
    (hlog : t.log = s.log) (hlooping : t.looping = s.looping)
    (hdisposed : s.disposed ⊆ t.disposed) : Agree t := by
  refine ⟨?_, ?_, ?_, ?_, fun p hp hf => ?_, ?_, ?_, ?_⟩
  · rw [hlength, hqueue, h.length]
  · rw [hindex, hlog]
    exact h.taken
  · rw [hqueue, hhistory, hlog, hindex]
    exact h.queue
  · rw [hlog, hhistory]
    exact h.log
  · obtain ⟨d, hd, hm⟩ := h.skipped p (hlog ▸ hp) hf
    exact ⟨d, hd, hdisposed hm⟩
  · rw [hinTick, hlooping, h.inTick]
  · rw [hlooping, hlength, hindex]
    exact h.looping
  · rw [hlooping, hindex]
    exact h.idle

lemma length_le (h : Agree s) : s.log.length ≤ s.history.length := by
  simpa using h.log.length_le

lemma nextTick (h : Agree s) (callback : ℕ) : Agree (s.nextTick callback) := by
  unfold State.nextTick
  split
  · exact h
  · have hle := h.length_le
    refine ⟨by simp [h.length], h.taken, ?_, h.log.trans (List.prefix_append _ _), h.skipped,
      h.inTick, fun hl => ?_, h.idle⟩
    · show s.queue ++ _ = (s.history ++ _).drop (s.log.length - s.index)
      rw [h.queue, List.drop_append_of_le_length (by omega)]
    · obtain ⟨hpos, hindex⟩ := h.looping hl
      exact ⟨Nat.succ_pos _, Nat.le_succ_of_le hindex⟩

/-- The callback at the index is the first that has not been taken. -/
lemma take (h : Agree s) {tock : Tock} (hget : s.queue[s.index]? = some tock) {called : Bool}
    (hskip : called = false → ∃ d ∈ tock.domain, d ∈ s.disposed) (hl : s.looping = true) :
    Agree (s.take tock called) := by
  have htaken := h.taken
  have hhistory : s.history[s.log.length]? = some tock := by
    rw [h.queue, List.getElem?_drop] at hget
    rwa [Nat.sub_add_cancel htaken] at hget
  have hlog : s.log.map Prod.fst ++ [tock] <+: s.history := by
    have htake := List.prefix_iff_eq_take.mp h.log
    rw [List.length_map] at htake
    refine List.prefix_iff_eq_take.mpr ?_
    rw [List.length_append, List.length_map, List.length_singleton, List.take_add_one, hhistory,
      ← htake]
    rfl
  have hlt : s.index < s.length := by
    obtain ⟨hlt, -⟩ := List.getElem?_eq_some_iff.mp hget
    rw [h.length]
    exact hlt
  refine ⟨h.length, ?_, ?_, ?_, fun p hp hf => ?_, h.inTick, fun _ => ⟨Nat.zero_lt_of_lt hlt, hlt⟩,
    fun hf => absurd (hl.symm.trans hf) nofun⟩
  · simpa [State.take] using htaken
  · rw [State.take, List.length_append, List.length_singleton, Nat.add_sub_add_right]
    exact h.queue
  · simpa [State.take] using hlog
  · rcases List.mem_append.mp hp with hp | hp
    · exact h.skipped p hp hf
    · rw [List.mem_singleton.mp hp] at hf ⊢
      exact hskip hf

/-- A loop ends where the index is, at the end of the queue or after an exception. -/
lemma leave (h : Agree s) (hl : s.looping = true) : Agree s.tickDone.leave := by
  obtain ⟨hpos, hindex⟩ := h.looping hl
  have hdone : s.tickDone.leave = { s with
      queue := s.queue.drop s.index, length := (s.queue.drop s.index).length, inTick := false,
      index := 0, looping := false } := by
    unfold State.tickDone State.leave
    rw [if_pos hpos.ne']
    split_ifs with hle
    · have hnil : s.queue.drop s.index = [] := List.drop_eq_nil_of_le (h.length ▸ hle)
      simp [hnil]
    · rfl
  rw [hdone]
  refine ⟨rfl, Nat.zero_le _, ?_, h.log, h.skipped, rfl, nofun, fun _ => rfl⟩
  show s.queue.drop s.index = s.history.drop (s.log.length - 0)
  have htaken := h.taken
  rw [h.queue, List.drop_drop]
  congr 1
  omega

lemma start (h : Agree s) (hpos : s.length ≠ 0) (hl : s.looping = false) : Agree s.start := by
  have hindex := h.idle hl
  exact ⟨h.length, h.taken, h.queue, h.log, h.skipped, rfl,
    fun _ => ⟨Nat.pos_of_ne_zero hpos, by simp [State.start, hindex]⟩, nofun⟩

end Agree

/-- What the pace is read off. -/
lemma Paced.congr {t : State} (h : Paced s) (hcalls : t.calls = s.calls) (hlog : t.log = s.log)
    (hlooping : t.looping = s.looping) (hthrew : t.lastThrew = true → s.lastThrew = true) :
    Paced t := by
  refine ⟨?_, fun hl => ?_⟩
  · rw [hcalls, hlog]
    exact h.calls
  · rw [hcalls, hlog]
    exact h.spare (hl.imp (hlooping ▸ ·) hthrew)

lemma Paced.of_spare (h : s.calls + 1 ≤ 2 * s.log.length) : Paced s :=
  ⟨Nat.le_of_succ_le h, fun _ => h⟩

lemma Paced.leave (h : s.calls + 1 ≤ 2 * s.log.length) : Paced s.tickDone.leave :=
  .of_spare (by simpa [State.leave] using h)

lemma take_spare (h : s.calls + 1 ≤ 2 * (s.log.length + 1)) (tock : Tock) (called : Bool) :
    (s.take tock called).calls + 1 ≤ 2 * (s.take tock called).log.length := by
  show s.calls + 1 ≤ 2 * (s.log ++ [(tock, called)]).length
  rw [List.length_append]
  exact h

/-! ### The loops -/

lemma Agree.get (h : Agree s) (hlt : s.index < s.length) :
    ∃ tock, s.queue[s.index]? = some tock :=
  ⟨_, List.getElem?_eq_getElem (h.length ▸ hlt)⟩

lemma tickLoop_keeps (h : Agree s) (hl : s.looping = true) (hk : loops k = 0)
    (hcalls : s.calls + 1 ≤ 2 * s.log.length ∨
      s.index < s.length ∧ s.calls + 1 ≤ 2 * (s.log.length + 1)) :
    s.tickLoop.Keeps Ticking k := by
  unfold State.tickLoop
  split_ifs with hlt
  · obtain ⟨tock, hget⟩ := h.get hlt
    rw [hget]
    exact ⟨h.take hget nofun hl, .of_spare (take_spare (by omega) tock true),
      by simp [State.take, hk, hl]⟩
  · have hpace : s.calls + 1 ≤ 2 * s.log.length := hcalls.resolve_right fun h => hlt h.1
    exact ⟨h.leave hl, .leave hpace, by simp [State.leave, hk]⟩

lemma domainLoop_keeps {n : ℕ} (h : Agree s) (hl : s.looping = true) (hk : loops k = 0)
    (hn : n = s.length - s.index)
    (hcalls : s.calls + 1 ≤ 2 * s.log.length ∨ 0 < n ∧ s.calls + 1 ≤ 2 * (s.log.length + 1)) :
    (State.domainLoop n s).Keeps Ticking k := by
  induction n generalizing s with
  | zero =>
    have hpace : s.calls + 1 ≤ 2 * s.log.length := hcalls.resolve_right fun h => lt_irrefl 0 h.1
    exact ⟨h.leave hl, .leave hpace, by simp [State.leave, State.domainLoop, hk]⟩
  | succ n ih =>
    obtain ⟨tock, hget⟩ := h.get (by omega)
    have hspare := take_spare (s := s) (by omega) tock
    have hcall : Agree (s.take tock true) := h.take hget nofun hl
    rw [State.domainLoop, hget]
    dsimp only
    split
    · exact ⟨hcall.congr rfl rfl rfl rfl rfl rfl rfl (List.Subset.refl _), .of_spare (hspare true),
        by simp [State.take, hk, hl]⟩
    · next d hd =>
      split_ifs with hdisposed
      · have hskip : Agree (s.take tock false) := h.take hget (fun _ => ⟨d, hd, hdisposed⟩) hl
        refine ih hskip hl ?_ (.inl (hspare false))
        show n = s.length - (s.index + 1)
        omega
      · obtain ⟨domain, stack, henter⟩ := (s.take tock true).enter_frame d
        rw [henter]
        exact ⟨hcall.congr rfl rfl rfl rfl rfl rfl rfl (List.Subset.refl _),
          .of_spare (hspare true), by simp [State.take, hk, hl]⟩

/-! ### Calls of the tick functions -/

lemma Ticking.found (h : Ticking s k) : Agree s.found ∧
    (s.looping = true → s.found.calls = s.calls) ∧ s.found.calls ≤ s.calls + 1 ∧
      (s.length = 0 → s.found.calls = s.calls) := by
  refine ⟨h.agree.congr rfl rfl rfl rfl rfl rfl rfl (List.Subset.refl _), fun hl => ?_, ?_,
    fun h0 => ?_⟩
  · simp [State.found, hl]
  · unfold State.found
    dsimp only
    split_ifs <;> omega
  · have hnil : s.queue = [] := List.length_eq_zero_iff.mp (h.agree.length ▸ h0)
    simp [State.found, hnil]

/-- A call that finds a loop active, or nothing to do. -/
lemma Ticking.found_same (h : Ticking s k) (hsame : s.found.calls = s.calls) :
    Ticking s.found k := by
  refine ⟨h.found.1, h.paced.congr hsame rfl rfl id, h.active⟩

lemma Ticking.index_zero (h : Ticking s k) (h0 : s.length = 0) :
    Ticking { s with index := 0 } k := by
  have hl : s.looping = false := by
    by_contra hl
    have hpos := (h.agree.looping (by simpa using hl)).1
    omega
  have hindex := h.agree.idle hl
  refine ⟨h.agree.congr rfl rfl hindex.symm rfl rfl rfl rfl (List.Subset.refl _),
    h.paced.congr rfl rfl rfl id, h.active⟩

/-- A loop may start. -/
lemma Ticking.startable (h : Ticking s k) (htick : s.inTick = false) (h0 : s.length ≠ 0) :
    Agree s.found.start ∧ loops k = 0 ∧ s.found.start.index = 0 ∧
      s.found.start.calls + 1 ≤ 2 * (s.found.start.log.length + 1) := by
  have hl : s.looping = false := h.agree.inTick ▸ htick
  obtain ⟨hagree, -, hcalls, -⟩ := h.found
  have hk := h.active
  have hpace := h.paced.calls
  refine ⟨hagree.start h0 hl, by simpa [hl] using hk, h.agree.idle hl, ?_⟩
  show s.found.calls + 1 ≤ 2 * (s.log.length + 1)
  omega

lemma tickCallback_keeps (h : Ticking s k) : s.tickCallback.Keeps Ticking k := by
  unfold State.tickCallback
  dsimp only
  split_ifs with htick h0
  · exact h.found_same (h.found.2.1 (h.agree.inTick ▸ htick))
  · exact (h.found_same (h.found.2.2.2 h0)).index_zero h0
  · obtain ⟨hagree, hk, hindex, hpace⟩ := h.startable (Bool.eq_false_iff.mpr htick) h0
    refine tickLoop_keeps hagree rfl hk (.inr ⟨?_, hpace⟩)
    rw [hindex]
    exact Nat.pos_of_ne_zero h0

lemma tickDomainCallback_keeps (h : Ticking s k) : s.tickDomainCallback.Keeps Ticking k := by
  unfold State.tickDomainCallback
  dsimp only
  split_ifs with hthrew htick h0
  · -- the flag of an exception, or of a callback that runs, is cleared
    obtain ⟨hagree, hloop, hcalls, -⟩ := h.found
    have hspare := h.paced.spare (.inr hthrew)
    refine ⟨hagree.congr rfl rfl rfl rfl rfl rfl rfl (List.Subset.refl _), ⟨?_, fun hl => ?_⟩,
      h.active⟩
    · show s.found.calls ≤ 2 * s.log.length
      omega
    · have hl : s.looping = true := hl.resolve_right nofun
      show s.found.calls + 1 ≤ 2 * s.log.length
      rw [hloop hl]
      exact hspare
  · exact h.found_same (h.found.2.1 (h.agree.inTick ▸ htick))
  · exact (h.found_same (h.found.2.2.2 h0)).index_zero h0
  · obtain ⟨hagree, hk, hindex, hpace⟩ := h.startable (Bool.eq_false_iff.mpr htick) h0
    refine domainLoop_keeps hagree rfl hk rfl (.inr ⟨?_, hpace⟩)
    show 0 < s.length - s.found.start.index
    have hpos : s.length ≠ 0 := h0
    omega

lemma tickFunction_keeps (h : Ticking s k) (domains : Bool) :
    (s.tickFunction domains).Keeps Ticking k := by
  unfold State.tickFunction
  split_ifs
  · exact tickDomainCallback_keeps h
  · exact tickCallback_keeps h

/-! ### `MakeCallback` -/

/-- Flags of domains, and immediates, are not looked at. -/
lemma Ticking.congr {t : State} {k' : List Frame} (h : Ticking s k)
    (ht : t = { s with
      domain := t.domain, stack := t.stack, disposed := t.disposed, immediates := t.immediates
      usingDomains := t.usingDomains, exiting := t.exiting })
    (hdisposed : s.disposed ⊆ t.disposed) (hk : loops k' = loops k) : Ticking t k' := by
  rw [ht]
  exact ⟨h.agree.congr rfl rfl rfl rfl rfl rfl rfl hdisposed, h.paced.congr rfl rfl rfl id,
    hk.trans h.active⟩

lemma Ticking.enter (h : Ticking s k) (d : ℕ) : Ticking (s.enter d) k := by
  obtain ⟨domain, stack, henter⟩ := s.enter_frame d
  rw [henter]
  exact h.congr rfl (List.Subset.refl _) rfl

lemma Ticking.exitOf (h : Ticking s k) (d : Option ℕ) : Ticking (s.exitOf d) k := by
  obtain ⟨domain, stack, hexit⟩ := s.exitOf_frame d
  rw [hexit]
  exact h.congr rfl (List.Subset.refl _) rfl

/-- A frame of a loop is below foreign code only while the loop is active. -/
lemma Ticking.of_loop {f : Frame} (h : Ticking s (f :: k)) (hf : f.loops = true) :
    s.looping = true ∧ loops k = 0 := by
  have hactive := h.active
  have hcount : loops (f :: k) = loops k + 1 := List.countP_cons_of_pos hf
  cases hl : s.looping
  · simp [hl, hcount] at hactive
  · simpa [hl, hcount] using hactive

lemma processTicks_keeps (h : Ticking s k) : s.processTicks.Keeps Ticking k := by
  unfold State.processTicks
  split_ifs with h0
  · exact h.index_zero h0
  · have hticked : Ticking s (.ticked :: k) := ⟨h.agree, h.paced, by simp [h.active]⟩
    refine (tickFunction_keeps hticked _).andThen fun t ht => ?_
    exact ⟨ht.agree, ht.paced, by simpa using ht.active⟩

lemma makeCallback_keeps {callback : State → Res State Frame} (h : Ticking s k)
    (domain : Option ℕ)
    (hcallback : ∀ s d, Ticking s (.call d :: k) → (callback s).Keeps Ticking (.call d :: k)) :
    (s.makeCallback domain callback).Keeps Ticking k := by
  have hcall {s : State} (d : Option ℕ) : Ticking s (.call d :: k) ↔ Ticking s k :=
    ⟨fun h => ⟨h.agree, h.paced, by simpa using h.active⟩,
      fun h => ⟨h.agree, h.paced, by simpa using h.active⟩⟩
  unfold State.makeCallback
  split
  · exact (hcallback s none ((hcall none).mpr h)).andThen fun t ht =>
      processTicks_keeps ((hcall none).mp ht)
  · next d _ =>
    split_ifs
    · exact h
    · exact (hcallback _ (some d) ((hcall _).mpr (h.enter d))).andThen fun t ht =>
        processTicks_keeps (((hcall _).mp ht).exitOf (some d))

/-! ### Exceptions -/

lemma exec_keeps {f : Frame} (h : Ticking s (f :: k)) : (exec s f).Keeps Ticking k := by
  cases f with
  | tick =>
    obtain ⟨hl, hk⟩ := h.of_loop rfl
    exact tickLoop_keeps h.agree hl hk (.inl (h.paced.spare (.inl hl)))
  | domainTick domain =>
    obtain ⟨hl, hk⟩ := h.of_loop rfl
    have hagree : Agree { s with lastThrew := false } :=
      h.agree.congr rfl rfl rfl rfl rfl rfl rfl (List.Subset.refl _)
    obtain ⟨domain', stack, hexit⟩ := { s with lastThrew := false }.exitOf_frame domain
    unfold exec
    dsimp only
    rw [hexit]
    refine domainLoop_keeps ?_ hl hk rfl (.inl (h.paced.spare (.inl hl)))
    exact hagree.congr rfl rfl rfl rfl rfl rfl rfl (List.Subset.refl _)
  | call domain =>
    have hin : Ticking s k := h.congr rfl (List.Subset.refl _) (by simp)
    exact processTicks_keeps (hin.exitOf domain)
  | ticked =>
    have hin : Ticking s k := h.congr rfl (List.Subset.refl _) (by simp)
    exact hin
  | fatal domain depth =>
    have hin : Ticking s k := h.congr rfl (List.Subset.refl _) (by simp)
    unfold exec State.handled
    dsimp only
    split_ifs
    · exact hin.congr rfl (List.Subset.refl _) rfl
    · exact hin.congr rfl (List.Subset.refl _) rfl
  | boundary =>
    have hin : Ticking s k := h.congr rfl (List.Subset.refl _) (by simp)
    exact hin

lemma resume_ticking (h : Ticking s k) :
    Ticking (resume exec Frame.isBoundary s k).st (resume exec Frame.isBoundary s k).stack :=
  resume_keeps (fun _ _ _ _ h => exec_keeps h)
    (fun s f k hb h => by
      cases f with
      | boundary => exact h.congr rfl (List.Subset.refl _) (by simp)
      | _ => cases hb) h

lemma fatalException_ticking (h : Ticking s k) (depth : ℕ) :
    Ticking (fatalException s depth k).st (fatalException s depth k).stack := by
  unfold fatalException
  split
  · exact h.congr rfl (List.Subset.refl _) (by simp)
  · split_ifs
    · exact resume_ticking (h.congr rfl (List.Subset.refl _) rfl)
    · exact h.congr rfl (List.Subset.refl _) (by simp)

/-- A loop that is left by an exception, with the queue put in order. -/
lemma Ticking.leave {f : Frame} (h : Ticking s (f :: k)) (hf : f.loops = true) :
    Ticking s.tickDone.leave k := by
  obtain ⟨hl, hk⟩ := h.of_loop hf
  exact ⟨h.agree.leave hl, .leave (h.paced.spare (.inl hl)), by simp [State.leave, hk]⟩

/-- An exception, which finds `lastThrew` set where a loop looks at it. -/
lemma unwind_ticking {m : Machine State Frame} (h : Ticking s k)
    (hthrew : ∀ d k', k = .domainTick d :: k' → s.lastThrew = true)
    (hu : unwind s k = some m) : Ticking m.st m.stack := by
  induction k generalizing s with
  | nil => cases hu
  | cons f k ih =>
    cases f with
    | tick =>
      refine ih (h.leave rfl) (fun d k' hk => ?_) hu
      have hnone := (h.of_loop rfl).2
      simp [hk] at hnone
    | domainTick d =>
      rw [unwind, if_pos (hthrew d k rfl)] at hu
      refine ih (h.leave rfl) (fun d k' hk => ?_) hu
      have hnone := (h.of_loop rfl).2
      simp [hk] at hnone
    | call d =>
      cases hu
      exact fatalException_ticking (h.congr rfl (List.Subset.refl _) (by simp)) 0
    | ticked =>
      cases hu
      exact fatalException_ticking (h.congr rfl (List.Subset.refl _) (by simp)) 0
    | fatal d depth =>
      cases d with
      | none => cases hu
      | some d =>
        rw [unwind] at hu
        split at hu
        · cases hu
        · next top below _ =>
          cases hu
          have hin : Ticking { s with domain := some top, stack := top :: below } k :=
            h.congr rfl (List.Subset.refl _) (by simp)
          exact fatalException_ticking hin _
    | boundary =>
      cases hu
      exact h.congr rfl (List.Subset.refl _) (by simp)

/-! ### Runs -/

/-- A callback that `_tickDomainCallback` runs throws only while `lastThrew` is still set: the
function has not been called again during the callback. -/
def Undisturbed (m : Machine State Frame) : Act → Prop
  | .throw => ∀ d k, m.stack = .domainTick d :: k → m.st.lastThrew = true
  | _ => True

/-- No loop over the queue is active. -/
def Idle (m : Machine State Frame) : Prop := ∀ f ∈ m.stack, f.loops = false

/-- The callbacks have their turn once, in the order in which they were queued, but for those of
disposed domains; the box is right between the loops; and of two calls that find callbacks waiting,
with no loop active, one goes on with them. -/
structure Orderly (m : Machine State Frame) : Prop where
  order : m.st.log.map Prod.fst <+: m.st.history
  skipped : ∀ p ∈ m.st.log, p.2 = false → ∃ d ∈ p.1.domain, d ∈ m.st.disposed
  idle : Idle m → m.st.inTick = false ∧ m.st.length = m.st.history.length - m.st.log.length
  turn : ∀ i < m.st.history.length, 2 * i < m.st.calls → i < m.st.log.length

lemma Ticking.nextTick (h : Ticking s k) (callback : ℕ) : Ticking (s.nextTick callback) k := by
  have hframe : ∃ queue length history, s.nextTick callback = { s with
      queue := queue, length := length, history := history } := by
    unfold State.nextTick
    split
    · exact ⟨_, _, _, rfl⟩
    · exact ⟨_, _, _, rfl⟩
  have hagree := h.agree.nextTick callback
  obtain ⟨queue, length, history, hnext⟩ := hframe
  rw [hnext] at hagree ⊢
  exact ⟨hagree, h.paced.congr rfl rfl rfl id, h.active⟩

/-- One step. -/
lemma ticking_step {m m' : Machine State Frame} {a : Act} (h : Ticking m.st m.stack)
    (hthrew : Undisturbed m a) (hs : step m a = some m') : Ticking m'.st m'.stack := by
  have hscript {t : State} (ht : Ticking t m.stack) (hs : script m t = some m') :
      Ticking m'.st m'.stack := by
    unfold script at hs
    split_ifs at hs
    cases hs
    exact ht
  have hpop (s : State) (k : List Frame) (h : Ticking s (.boundary :: k)) : Ticking s k :=
    h.congr rfl (List.Subset.refl _) (by simp)
  have hmark : Ticking m.st (.boundary :: m.stack) := h.congr rfl (List.Subset.refl _) (by simp)
  cases a with
  | makeCallback domain =>
    cases hs
    exact enter_keeps hpop (makeCallback_keeps hmark domain fun s d hd => hd)
  | immediate =>
    unfold step at hs
    dsimp only at hs
    split at hs
    · next hstack himm =>
      cases hs
      refine enter_keeps hpop (makeCallback_keeps hmark _ fun s d hd => ?_)
      have hrest (rest : List Bool) : Ticking { s with immediates := rest } _ :=
        hd.congr rfl (List.Subset.refl _) rfl
      exact tickFunction_keeps (hrest _) _
    · cases hs
  | nextTick callback =>
    exact hscript (h.nextTick callback) hs
  | tickCallback domains =>
    unfold step at hs
    dsimp only at hs
    split_ifs at hs
    cases hs
    exact enter_keeps hpop (tickFunction_keeps hmark domains)
  | useDomains =>
    have hin : Ticking { m.st with usingDomains := true } m.stack :=
      h.congr rfl (List.Subset.refl _) rfl
    exact hscript hin hs
  | enter d => exact hscript (h.enter d) hs
  | exit d => exact hscript (h.exitOf (some d)) hs
  | dispose d =>
    have hin : Ticking { m.st with disposed := d :: m.st.disposed } m.stack :=
      h.congr rfl (List.subset_cons_self d _) rfl
    exact hscript hin hs
  | exiting =>
    have hin : Ticking { m.st with exiting := true } m.stack :=
      h.congr rfl (List.Subset.refl _) rfl
    exact hscript hin hs
  | ret =>
    unfold step at hs
    dsimp only at hs
    split_ifs at hs
    cases hs
    exact resume_ticking h
  | throw => exact unwind_ticking h hthrew hs

lemma Ticking.orderly {m : Machine State Frame} (h : Ticking m.st m.stack) : Orderly m := by
  refine ⟨h.agree.log, h.agree.skipped, fun hidle => ?_, fun i _ hcalls => ?_⟩
  · have hnone : loops m.stack = 0 :=
      List.countP_eq_zero.mpr fun f hf => by simp [hidle f hf]
    have hl : m.st.looping = false := by
      have hactive := h.active
      rw [hnone] at hactive
      cases hl : m.st.looping
      · rfl
      · simp [hl] at hactive
    refine ⟨h.agree.inTick.trans hl, ?_⟩
    rw [h.agree.length, h.agree.queue, h.agree.idle hl, List.length_drop, Nat.sub_zero]
  · have hpace := h.paced.calls
    omega

/-- **The queue of `process.nextTick`.** In every run in which no callback that
`_tickDomainCallback` runs throws after the function was called again during it, the callbacks
have their turn once and in order, and the box is right whenever no loop is active. -/
theorem next_tick {m : Machine State Frame}
    (h : Run step (fun m a _ => Undisturbed m a) start m) : Orderly m := by
  have hstart : Ticking start.st start.stack := by
    refine ⟨⟨rfl, le_rfl, rfl, List.nil_prefix, nofun, rfl, nofun, fun _ => rfl⟩, ⟨le_rfl, ?_⟩, rfl⟩
    rintro (hl | hl)
    · cases hl
    · cases hl
  have hticking : Ticking m.st m.stack := h.invariant (I := fun m => Ticking m.st m.stack) hstart
    fun n a n' hn hs hthrew => ticking_step hn hthrew hs
  exact hticking.orderly

/-- A callback queues another and throws, its domain handles the exception, and the event loop goes
on with an immediate. -/
def handledThrow : List Act :=
  [.makeCallback none, .useDomains, .enter 7, .nextTick 0, .exit 7, .nextTick 1, .ret, .nextTick 2,
    .throw, .ret, .immediate, .ret, .ret]

theorem next_tick_handledThrow :
    ∃ m, Run step (fun m a _ => Undisturbed m a) start m ∧ m.st.history.length = 3 ∧
      m.st.log.length = 3 ∧ Orderly m := by
  have hrun : ∃ m, Run step (fun m a _ => Undisturbed m a) start m ∧ m.st.history.length = 3 ∧
      m.st.log.length = 3 :=
    ⟨_, Run.of_path .refl (w := handledThrow)
      ⟨_, rfl, trivial, _, rfl, trivial, _, rfl, trivial, _, rfl, trivial, _, rfl, trivial,
        _, rfl, trivial, _, rfl, trivial, _, rfl, trivial, _, rfl, fun _ _ _ => rfl,
        _, rfl, trivial, _, rfl, trivial, _, rfl, trivial, _, rfl, trivial, rfl⟩, rfl, rfl⟩
  obtain ⟨m, hm, hhistory, hlog⟩ := hrun
  exact ⟨m, hm, hhistory, hlog, next_tick hm⟩

/-- A callback throws after native code has called a script during it; the exception is handled,
and the event loop goes on. -/
def nestedThrow : List Act :=
  [.makeCallback none, .useDomains, .nextTick 0, .nextTick 1, .ret, .makeCallback none, .ret,
    .throw, .ret, .immediate, .makeCallback none, .ret, .makeCallback none, .ret]

theorem next_tick_nestedThrow :
    ∃ m, Run step (fun _ _ _ => True) start m ∧ m.stack = [] ∧ m.st.inTick = true ∧
      m.st.log.map Prod.fst = [⟨0, none⟩] ∧ m.st.history = [⟨0, none⟩, ⟨1, none⟩] ∧
      m.st.calls = 5 ∧ ¬ Orderly m := by
  refine ⟨_, Run.of_foldlM (w := nestedThrow) rfl, rfl, rfl, rfl, rfl, rfl, fun h => ?_⟩
  exact absurd (h.idle nofun).1 nofun

end NodeCore.NextTick
