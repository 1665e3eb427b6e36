import NodeCore.TimersRings

/-!
What a program of `setTimeout` and `clearTimeout` can rely on. The handle of a list says only when
it is looked at; what runs, and when, is decided by the items.
-/

namespace NodeCore.Timers

open NodeCore.Linklist NodeCore.Reentrant Function

/-! ### The claim -/

/-- A program of `setTimeout` and `clearTimeout`. -/
def Program : Act → Prop
  | .call (.setTimeout ..) | .call (.clearTimeout _) | .call (.dispose _) => True
  | .call _ => False
  | _ => True

instance (a : Act) : Decidable (Program a) := by
  unfold Program
  split <;> infer_instance

/-- **What is claimed** of what has happened. -/
structure Safe (log : List Event) : Prop where
  /-- A callback runs after its timer has been started, and its delay has gone by. -/
  late : ∀ pre post timer time, log = pre ++ .ran timer time :: post →
    (∃ s d, .started timer s d ∈ pre) ∧ ∀ s d, .started timer s d ∈ log → s + d ≤ time
  cleared : ∀ pre post timer, log = pre ++ .cleared timer :: post → ∀ time, .ran timer time ∉ post
  once : ∀ pre post timer time, log = pre ++ .ran timer time :: post →
    ∀ time', .ran timer time' ∉ post

/-- The one has been started before the other. -/
def Before (log : List Event) (o o' : Obj) : Prop :=
  ∃ pre mid post s d s' d', log = pre ++ .started o s d :: mid ++ .started o' s' d' :: post

/-- Once `o'` has run, `o` does not run any more. -/
def InOrder (log : List Event) (o o' : Obj) : Prop :=
  ∀ pre post time, log = pre ++ .ran o' time :: post → ∀ time', .ran o time' ∉ post

/-! ### What the steps of a program do -/

/-- The timers that have been started. -/
def startedIn : List Event → List Obj :=
  List.filterMap fun
    | .started timer _ _ => some timer
    | _ => none

/-- The data of the timers that are on a ring are the same. -/
structure Same (t t' : State) (ring : Obj → List Obj) : Prop where
  idleStart : ∀ h, ∀ o ∈ ring h, t'.idleStart o = t.idleStart o
  idleTimeout : ∀ h, ∀ o ∈ ring h, t'.idleTimeout o = t.idleTimeout o
  unrefMade : t'.unrefMade = t.unrefMade
  now : t.now ≤ t'.now

/-- A step of a program. -/
inductive Moves (t : State) (ring : Obj → List Obj) (t' : State) (ring' : Obj → List Obj) : Prop
  | stay (hring : ring' = ring) (log : t'.log = t.log) (timeouts : t'.timeouts = t.timeouts)
      (onTimeout : t'.onTimeout = t.onTimeout) (same : Same t t' ring)
  | start (n : ℕ) (callback : Bool) (d : ℚ)
      (hring : ring' = behind ring (.list n) (.timeout t.timeouts))
      (log : t'.log = t.log ++ [.started (.timeout t.timeouts) t.now d])
      (timeouts : t'.timeouts = t.timeouts + 1)
      (onTimeout : t'.onTimeout = update t.onTimeout (.timeout t.timeouts) callback)
      (idleStart : t'.idleStart (.timeout t.timeouts) = t.now)
      (idleTimeout : t'.idleTimeout (.timeout t.timeouts) = some d) (same : Same t t' ring)
  | clear (o : Obj) (known : t.known o = true) (hring : ring' = ring ∨ ring' = without ring o)
      (log : t'.log = t.log ++ [.cleared o]) (timeouts : t'.timeouts = t.timeouts)
      (onTimeout : t'.onTimeout = update t.onTimeout o false) (same : Same t t' ring')
  | take (n : ℕ) (first : Obj) (rest : List Obj) (hfirst : ring (.list n) = first :: rest)
      (hring : ring' = without ring first) (timeouts : t'.timeouts = t.timeouts)
      (onTimeout : t'.onTimeout = t.onTimeout) (same : Same t t' ring)
      (log : t'.log = t.log ∨ t'.log = t.log ++ [.ran first t.now] ∧ t.onTimeout first = true ∧
        t.idleStart first + t.msecs n ≤ t.now)

/-- The clock of a frame is behind. -/
def Behind (t : State) : Prop :=
  ∀ f ∈ t.stack, ∀ n now, f = .loop (.list n) now ∨ f = .calling (.list n) now → now ≤ t.now

section
variable {t t' : State} {ring ring' : Obj → List Obj}

lemma moves_setTimeout (g : Good t ring) (callback domain : Bool) (after : Option ℚ) :
    ∃ ring', Linked (t.setTimeout callback domain after) ring' ∧
      Moves t ring (t.setTimeout callback domain after) ring' := by
  obtain ⟨n, hl⟩ := g.linked.setTimeout callback domain after
  obtain ⟨-, hnot⟩ := g.linked.timer callback domain (State.delay after)
  have hdelay : (t.makeTimer callback domain (State.delay after)).idleTimeout
      (.timeout t.timeouts) = some (State.delay after) := update_self ..
  obtain ⟨links, lists, made, msecs, due, failed, isActive, heq⟩ :=
    active_eq hdelay (delay_pos after).le
  refine ⟨_, hl, ?_⟩
  rw [State.setTimeout, heq]
  have hne : ∀ h, ∀ o ∈ ring h, o ≠ .timeout t.timeouts := by
    rintro h o ho rfl
    exact hnot h ho
  refine .start n callback (State.delay after) rfl rfl rfl rfl (update_self ..) (update_self ..)
    ⟨fun h o ho => ?_, fun h o ho => update_of_ne (hne h o ho) _ _, rfl, le_rfl⟩
  exact (update_of_ne (hne h o ho) _ _).trans (update_of_ne (hne h o ho) _ _)

lemma moves_clearTimeout (g : Good t ring) {o : Obj} (hknown : t.known o = true) :
    ∃ ring', Linked (t.clearTimeout o) ring' ∧ Moves t ring (t.clearTimeout o) ring' := by
  have hl := g.linked.idle t.idleStart (update t.onTimeout o false) t.disposed t.unrefWhen t.now
    t.date t.ticks t.stack (t.log ++ [Event.cleared o])
  unfold State.clearTimeout
  dsimp only
  by_cases hon : t.onTimeout o = true
  · rw [if_pos hon]
    obtain ⟨lists, closed, due, heq⟩ := unenroll_eq { t with
      log := t.log ++ [Event.cleared o], onTimeout := update t.onTimeout o false } o
    have hunenroll := hl.unenroll (State.known_isItem hknown)
    rw [heq] at hunenroll ⊢
    refine ⟨_, hunenroll, .clear o hknown (.inr rfl) rfl rfl rfl
      ⟨fun _ _ _ => rfl, ?_, rfl, le_rfl⟩⟩
    intro h x hx
    refine update_of_ne ?_ _ _
    rintro rfl
    exact g.linked.takeOut_notMem h hx
  · rw [if_neg hon]
    have hoff : update t.onTimeout o false = t.onTimeout := by
      rw [← (Bool.not_eq_true _).mp hon, update_eq_self]
    rw [hoff] at hl
    exact ⟨ring, hl, .clear o hknown (.inl rfl) rfl rfl hoff.symm
      ⟨fun _ _ _ => rfl, fun _ _ _ => rfl, rfl, le_rfl⟩⟩

/-- A step that changes only what `Linked.idle` speaks of, but not `idleStart`. -/
lemma moves_stay (hlog : t'.log = t.log) (htimeouts : t'.timeouts = t.timeouts)
    (honTimeout : t'.onTimeout = t.onTimeout) (hstart : t'.idleStart = t.idleStart)
    (htimeout : t'.idleTimeout = t.idleTimeout) (hmade : t'.unrefMade = t.unrefMade)
    (hnow : t.now ≤ t'.now) : Moves t ring t' ring :=
  .stay rfl hlog htimeouts honTimeout
    ⟨fun _ _ _ => by rw [hstart], fun _ _ _ => by rw [htimeout], hmade, hnow⟩

lemma moves_listOnTimeout (g : Good t ring) {n : ℕ} {now : ℚ} {k : List Frame}
    (hs : t.stack = .loop (.list n) now :: k) (hnow : now ≤ t.now)
    (hround : ListRound t ring n now k t') :
    ∃ ring', Good t' ring' ∧ Moves t ring t' ring' := by
  cases hround with
  | finish hring =>
    exact ⟨ring, g.finish hs hring, moves_stay rfl rfl rfl rfl rfl rfl le_rfl⟩
  | wait first rest hring hdiff =>
    refine ⟨ring, g.wait hs _, ?_⟩
    obtain ⟨due, heq⟩ := startList_eq t n (t.msecs n - (now - t.idleStart first))
    rw [heq]
    exact moves_stay rfl rfl rfl rfl rfl rfl le_rfl
  | take first rest hring hdiff =>
    refine ⟨_, g.take hs hring, ?_⟩
    unfold State.callback
    by_cases hon : ((t.takeOut first).onTimeout first && !(t.takeOut first).disposed first) = true
    · rw [if_pos hon]
      rw [Bool.and_eq_true] at hon
      refine .take n first rest hring rfl rfl rfl ⟨fun _ _ _ => rfl, fun _ _ _ => rfl, rfl, le_rfl⟩
        (.inr ⟨rfl, hon.1, ?_⟩)
      linarith [not_lt.mp hdiff]
    · rw [if_neg hon]
      exact .take n first rest hring rfl rfl rfl
        ⟨fun _ _ _ => rfl, fun _ _ _ => rfl, rfl, le_rfl⟩ (.inl rfl)

lemma moves_idle {a : Act} (hs : Stepped t a t') (ha : a.Idle) : Moves t ring t' ring := by
  obtain ⟨due, unrefDue, now, date, ticks, stack, hnow, rfl⟩ := hs.idle_eq ha
  exact moves_stay rfl rfl rfl rfl rfl rfl hnow

/-- **One step of a program.** -/
lemma moves_step (g : Good t ring) (hunref : t.unrefMade = false) (hb : Behind t) {a : Act}
    (hp : Program a) (hs : Stepped t a t') :
    ∃ ring', Good t' ring' ∧ Moves t ring t' ring' := by
  have hidle := hs
  cases hs with
  | call c hbusy hknown =>
    cases c with
    | setTimeout callback domain after =>
      obtain ⟨ring', hl, hm⟩ := moves_setTimeout g callback domain after
      exact ⟨ring', g.plain hbusy hl (plain_setTimeout ..), hm⟩
    | clearTimeout o =>
      obtain ⟨ring', hl, hm⟩ := moves_clearTimeout g hknown
      exact ⟨ring', g.plain hbusy hl (plain_clearTimeout ..), hm⟩
    | dispose o =>
      exact ⟨ring, g.plain hbusy (g.linked.idle t.idleStart t.onTimeout _ t.unrefWhen t.now t.date
        t.ticks t.stack t.log) ⟨rfl, rfl, le_rfl, id⟩,
        moves_stay rfl rfl rfl rfl rfl rfl le_rfl⟩
    | enroll => exact hp.elim
    | active => exact hp.elim
    | unenroll => exact hp.elim
    | unrefActive => exact hp.elim
    | assign => exact hp.elim
  | list n now k hs =>
    have hn := g.list_made hs
    have hnow := hb (.loop (.list n) now) (hs ▸ List.mem_cons_self) n now (.inl rfl)
    exact moves_listOnTimeout g hs hnow (g.linked.listOnTimeout hn now k)
  | unref now k hs =>
    have hmade := g.unref_made hs
    rw [hunref] at hmade
    cases hmade
  | walk item cur msecs when k hs =>
    have hmade := g.walk_made hs
    rw [hunref] at hmade
    cases hmade
  | fire => exact ⟨ring, g.idle hidle trivial, moves_idle hidle trivial⟩
  | tick => exact ⟨ring, g.idle hidle trivial, moves_idle hidle trivial⟩
  | ret => exact ⟨ring, g.idle hidle trivial, moves_idle hidle trivial⟩
  | throw => exact ⟨ring, g.idle hidle trivial, moves_idle hidle trivial⟩
  | elapse => exact ⟨ring, g.idle hidle trivial, moves_idle hidle trivial⟩

/-! ### The clock of the frames -/

lemma Behind.of_stack (hb : Behind t) (hstack : ∀ f ∈ t'.stack, f ∈ t.stack)
    (hnow : t.now ≤ t'.now) : Behind t' :=
  fun f hf n now h => (hb f (hstack f hf) n now h).trans hnow

/-- The frame on top goes on with the time it has. -/
lemma Behind.top (hb : Behind t) {f f' : Frame} {k : List Frame} {who : Who} {now : ℚ}
    (hs : t.stack = f :: k) (hf : f = .loop who now ∨ f = .calling who now)
    (hf' : f' = .loop who now ∨ f' = .calling who now) (hstack : t'.stack = f' :: k)
    (hnow : t.now ≤ t'.now) : Behind t' := by
  intro g hg n now' h
  rw [hstack] at hg
  rcases List.mem_cons.mp hg with rfl | hg
  · refine le_trans (hb f (hs ▸ List.mem_cons_self) n now' ?_) hnow
    rcases h with rfl | rfl <;> rcases hf' with hf' | hf' <;> cases hf' <;> exact hf
  · exact (hb g (hs ▸ List.mem_cons_of_mem _ hg) n now' h).trans hnow

lemma Behind.enter (hb : Behind t) (who : Who) : Behind (t.enter who) := by
  intro f hf n now h
  rcases List.mem_cons.mp hf with rfl | hf
  · rcases h with h | h
    · cases h
      exact le_rfl
    · cases h
  · exact hb f hf n now h

lemma behind_step (g : Good t ring) (hb : Behind t) (hunref : t.unrefMade = false) {a : Act}
    (hp : Program a) (hs : Stepped t a t') (hnow : t.now ≤ t'.now) : Behind t' := by
  cases hs with
  | call c hbusy hknown =>
    cases c with
    | setTimeout callback domain after =>
      exact hb.of_stack (fun f hf => (plain_setTimeout t callback domain after).stack ▸ hf) hnow
    | clearTimeout o => exact hb.of_stack (fun f hf => (plain_clearTimeout t o).stack ▸ hf) hnow
    | dispose o => exact hb.of_stack (fun f hf => hf) hnow
    | enroll => exact hp.elim
    | active => exact hp.elim
    | unenroll => exact hp.elim
    | unrefActive => exact hp.elim
    | assign => exact hp.elim
  | fire who hstack hdue =>
    obtain ⟨due, unrefDue, heq⟩ := stop_eq t who
    rw [heq]
    exact Behind.enter hb who
  | tick who ticks hbusy hticks => exact Behind.enter (t := { t with ticks := ticks }) hb who
  | list n now k hs =>
    have hn := g.list_made hs
    have hround := g.linked.listOnTimeout hn now k
    revert hround hnow
    generalize t.listOnTimeout n now k = t'
    intro hnow hround
    have hk : ∀ f ∈ k, f ∈ t.stack := fun f hf => hs ▸ List.mem_cons_of_mem _ hf
    cases hround with
    | finish hring => exact hb.of_stack hk hnow
    | wait first rest hring hdiff => exact hb.of_stack hk hnow
    | take first rest hring hdiff =>
      obtain ⟨f, log, heq, hf⟩ := callback_eq (t.takeOut first) (.list n) now first k
      rw [heq] at hnow ⊢
      exact hb.top hs (.inl rfl) hf.symm rfl hnow
  | unref now k hs =>
    have hmade := g.unref_made hs
    rw [hunref] at hmade
    cases hmade
  | walk item cur msecs when k hs =>
    have hmade := g.walk_made hs
    rw [hunref] at hmade
    cases hmade
  | ret who now k hs => exact hb.top hs (.inr rfl) (.inl rfl) rfl hnow
  | throw who now k hs => exact hb.of_stack (fun f hf => hs ▸ List.mem_cons_of_mem _ hf) hnow
  | elapse d e hd he => exact hb.of_stack (fun f hf => hf) hnow

/-! ### What has happened -/

/-- What holds of the log and of the items that are on a list. -/
structure Told (t : State) (ring : Obj → List Obj) : Prop where
  unref : t.unrefMade = false
  behind : Behind t
  /-- The timers have been started in the order of their numbers. -/
  started : startedIn t.log = (List.range t.timeouts).map Obj.timeout
  /-- What is on a list has been started with the time and the delay that it has. -/
  waits : ∀ n, ∀ o ∈ ring (.list n), o ∈ startedIn t.log ∧ (∀ time, .ran o time ∉ t.log) ∧
    ∀ s d, .started o s d ∈ t.log → s = t.idleStart o ∧ t.idleTimeout o = some d
  off : ∀ o, .cleared o ∈ t.log → t.known o = true ∧ t.onTimeout o = false
  safe : Safe t.log

lemma mem_startedIn {log : List Event} {o : Obj} :
    o ∈ startedIn log ↔ ∃ s d, .started o s d ∈ log := by
  rw [startedIn, List.mem_filterMap]
  constructor
  · rintro ⟨e, he, hs⟩
    cases e with
    | started timer s d =>
      obtain rfl := Option.some.inj hs
      exact ⟨s, d, he⟩
    | ran timer time => cases hs
    | cleared timer => cases hs
  · rintro ⟨s, d, h⟩
    exact ⟨_, h, rfl⟩

/-- Where the event is that has been added. -/
lemma snoc_split {l pre post : List Event} {e x : Event} (h : l ++ [e] = pre ++ x :: post) :
    (∃ post', post = post' ++ [e] ∧ l = pre ++ x :: post') ∨ post = [] ∧ l = pre ∧ e = x := by
  rcases List.eq_nil_or_concat post with rfl | ⟨post', e', rfl⟩
  · obtain ⟨hl, hx⟩ := List.append_inj' h rfl
    exact .inr ⟨rfl, hl, (List.cons.inj hx).1⟩
  · rw [List.concat_eq_append, ← List.cons_append, ← List.append_assoc] at h
    obtain ⟨hl, he⟩ := List.append_inj' h rfl
    refine .inl ⟨post', ?_, hl⟩
    rw [List.concat_eq_append, (List.cons.inj he).1]

/-- An event that is no callback. -/
lemma Safe.snoc {log : List Event} (h : Safe log) {e : Event} (hran : ∀ o time, e ≠ .ran o time)
    (hnew : ∀ o s d, e = .started o s d → ∀ time, .ran o time ∉ log) : Safe (log ++ [e]) := by
  have hpost : ∀ {post' : List Event} {o time}, .ran o time ∉ post' →
      .ran o time ∉ post' ++ [e] := by
    intro post' o time hpost hmem
    rcases List.mem_append.mp hmem with hmem | hmem
    · exact hpost hmem
    · exact hran o time (List.mem_singleton.mp hmem).symm
  refine ⟨fun pre post o time hlog => ?_, fun pre post o hlog time => ?_,
    fun pre post o time hlog time' => ?_⟩
  · rcases snoc_split hlog with ⟨post', rfl, hold⟩ | ⟨-, -, hx⟩
    · obtain ⟨hstart, hlate⟩ := h.late pre post' o time hold
      refine ⟨hstart, fun s d hmem => ?_⟩
      rcases List.mem_append.mp hmem with hmem | hmem
      · exact hlate s d hmem
      · refine absurd ?_ (hnew o s d (List.mem_singleton.mp hmem).symm time)
        rw [hold]
        simp
    · exact absurd hx (hran o time)
  · rcases snoc_split hlog with ⟨post', rfl, hold⟩ | ⟨rfl, -, -⟩
    · exact hpost (h.cleared pre post' o hold time)
    · exact List.not_mem_nil
  · rcases snoc_split hlog with ⟨post', rfl, hold⟩ | ⟨rfl, -, -⟩
    · exact hpost (h.once pre post' o time hold time')
    · exact List.not_mem_nil

/-- A callback that runs when it may. -/
lemma Safe.ran {log : List Event} (h : Safe log) {o : Obj} {time : ℚ}
    (hstart : ∃ s d, .started o s d ∈ log) (hlate : ∀ s d, .started o s d ∈ log → s + d ≤ time)
    (hcleared : .cleared o ∉ log) (honce : ∀ time', .ran o time' ∉ log) :
    Safe (log ++ [.ran o time]) := by
  have hstarted : ∀ {x s d}, Event.started x s d ∈ log ++ [.ran o time] → .started x s d ∈ log := by
    intro x s d hmem
    rcases List.mem_append.mp hmem with hmem | hmem
    · exact hmem
    · cases List.mem_singleton.mp hmem
  refine ⟨fun pre post x time' hlog => ?_, fun pre post x hlog time' => ?_,
    fun pre post x time' hlog time'' => ?_⟩
  · rcases snoc_split hlog with ⟨post', rfl, hold⟩ | ⟨-, rfl, hx⟩
    · obtain ⟨hs, hl⟩ := h.late pre post' x time' hold
      exact ⟨hs, fun s d hmem => hl s d (hstarted hmem)⟩
    · obtain ⟨rfl, rfl⟩ := Event.ran.inj hx
      exact ⟨hstart, fun s d hmem => hlate s d (hstarted hmem)⟩
  · rcases snoc_split hlog with ⟨post', rfl, hold⟩ | ⟨rfl, -, -⟩
    · rw [List.mem_append, List.mem_singleton, not_or]
      refine ⟨h.cleared pre post' x hold time', fun hx => hcleared ?_⟩
      rw [← (Event.ran.inj hx).1, hold]
      simp
    · exact List.not_mem_nil
  · rcases snoc_split hlog with ⟨post', rfl, hold⟩ | ⟨rfl, -, -⟩
    · rw [List.mem_append, List.mem_singleton, not_or]
      refine ⟨h.once pre post' x time' hold time'', fun hx => honce time' ?_⟩
      rw [← (Event.ran.inj hx).1, hold]
      simp
    · exact List.not_mem_nil

lemma ran_known {log : List Event} (h : Safe log) {o : Obj} {time : ℚ} (hmem : .ran o time ∈ log) :
    o ∈ startedIn log := by
  obtain ⟨pre, post, hlog⟩ := List.append_of_mem hmem
  obtain ⟨⟨s, d, hs⟩, -⟩ := h.late pre post o time hlog
  exact mem_startedIn.mpr ⟨s, d, hlog ▸ List.mem_append_left _ hs⟩

lemma known_mono {o : Obj} (h : t.timeouts ≤ t'.timeouts) (ho : t.known o = true) :
    t'.known o = true := by
  cases o with
  | list n => exact ho
  | unrefList => exact ho
  | timeout n =>
    simp only [State.known, decide_eq_true_eq] at ho ⊢
    omega
  | item n => exact ho

lemma startedIn_append (l l' : List Event) : startedIn (l ++ l') = startedIn l ++ startedIn l' :=
  List.filterMap_append

lemma Told.fresh (td : Told t ring) : Obj.timeout t.timeouts ∉ startedIn t.log := by
  rw [td.started, List.mem_map]
  rintro ⟨i, hi, hio⟩
  rw [Obj.timeout.inj hio] at hi
  exact absurd (List.mem_range.mp hi) (lt_irrefl _)

/-- Items that stay on a list, while they are not started and do not run. -/
lemma Told.waits_of (td : Told t ring) {n : ℕ} {o : Obj} (ho : o ∈ ring (.list n)) {l : List Event}
    (hlog : t'.log = t.log ++ l) (hstart : ∀ s d, .started o s d ∉ l)
    (hran : ∀ time, .ran o time ∉ l) (hidle : t'.idleStart o = t.idleStart o)
    (htimeout : t'.idleTimeout o = t.idleTimeout o) :
    o ∈ startedIn t'.log ∧ (∀ time, .ran o time ∉ t'.log) ∧
      ∀ s d, .started o s d ∈ t'.log → s = t'.idleStart o ∧ t'.idleTimeout o = some d := by
  obtain ⟨hs, hr, hd⟩ := td.waits n o ho
  rw [hlog, hidle, htimeout, startedIn_append]
  refine ⟨List.mem_append_left _ hs, fun time hmem => ?_, fun s d hmem => ?_⟩
  · rcases List.mem_append.mp hmem with hmem | hmem
    · exact hr time hmem
    · exact hran time hmem
  · rcases List.mem_append.mp hmem with hmem | hmem
    · exact hd s d hmem
    · exact absurd hmem (hstart s d)

/-- What has been cleared stays off, while the callbacks of the timers that there are do. -/
lemma Told.off_of (td : Told t ring) (ht : t.timeouts ≤ t'.timeouts)
    (hoff : ∀ o, t.known o = true → t.onTimeout o = false → t'.onTimeout o = false) {o : Obj}
    (ho : .cleared o ∈ t.log) : t'.known o = true ∧ t'.onTimeout o = false := by
  obtain ⟨hk, hf⟩ := td.off o ho
  exact ⟨known_mono ht hk, hoff o hk hf⟩

lemma Told.stay (td : Told t ring) (hb : Behind t') (log : t'.log = t.log)
    (timeouts : t'.timeouts = t.timeouts) (onTimeout : t'.onTimeout = t.onTimeout)
    (same : Same t t' ring') (hsub : ∀ n, ∀ o ∈ ring' (.list n), o ∈ ring (.list n)) :
    Told t' ring' := by
  refine ⟨same.unrefMade.trans td.unref, hb, by rw [log, timeouts]; exact td.started,
    fun n o ho => ?_, fun o ho => ?_, log ▸ td.safe⟩
  · exact td.waits_of (hsub n o ho) (l := []) (by rw [log, List.append_nil])
      (fun _ _ => List.not_mem_nil) (fun _ => List.not_mem_nil) (same.idleStart _ o ho)
      (same.idleTimeout _ o ho)
  · rw [log] at ho
    exact td.off_of timeouts.ge (fun _ _ hf => by rw [onTimeout]; exact hf) ho

/-- One more event, which starts nothing and runs nothing that stays on a list. -/
lemma Told.noted (td : Told t ring) (hb : Behind t') {e : Event} (log : t'.log = t.log ++ [e])
    (timeouts : t'.timeouts = t.timeouts) (same : Same t t' ring')
    (hsub : ∀ n, ∀ o ∈ ring' (.list n), o ∈ ring (.list n)) (hstart : ∀ o s d, e ≠ .started o s d)
    (hran : ∀ n, ∀ o ∈ ring' (.list n), ∀ time, e ≠ .ran o time)
    (hoff : ∀ o, .cleared o ∈ t'.log → t'.known o = true ∧ t'.onTimeout o = false)
    (safe : Safe t'.log) : Told t' ring' := by
  refine ⟨same.unrefMade.trans td.unref, hb, ?_, fun n o ho => ?_, hoff, safe⟩
  · have hnone : startedIn [e] = [] := by
      cases e with
      | started o s d => exact absurd rfl (hstart o s d)
      | ran o time => rfl
      | cleared o => rfl
    rw [log, timeouts, startedIn_append, hnone, List.append_nil, td.started]
  · exact td.waits_of (hsub n o ho) log
      (fun s d hmem => hstart o s d (List.mem_singleton.mp hmem).symm)
      (fun time hmem => hran n o ho time (List.mem_singleton.mp hmem).symm)
      (same.idleStart _ o ho) (same.idleTimeout _ o ho)

/-- A new timer is started and comes last on a list. -/
lemma Told.start (td : Told t ring) (l : Linked t ring) (hb : Behind t') {n : ℕ} {callback : Bool}
    {d : ℚ} (log : t'.log = t.log ++ [.started (.timeout t.timeouts) t.now d])
    (timeouts : t'.timeouts = t.timeouts + 1)
    (onTimeout : t'.onTimeout = update t.onTimeout (.timeout t.timeouts) callback)
    (idleStart : t'.idleStart (.timeout t.timeouts) = t.now)
    (idleTimeout : t'.idleTimeout (.timeout t.timeouts) = some d) (same : Same t t' ring) :
    Told t' (Timers.behind ring (.list n) (.timeout t.timeouts)) := by
  refine ⟨same.unrefMade.trans td.unref, hb, ?_, fun k o ho => ?_, fun o ho => ?_, ?_⟩
  · rw [log, timeouts, startedIn_append, td.started, List.range_succ, List.map_append]
    rfl
  · rcases l.mem_behind.mp ho with ⟨rfl, -⟩ | ⟨hne, ho⟩
    · refine ⟨mem_startedIn.mpr ⟨t.now, d, by rw [log]; simp⟩, fun time hmem => ?_,
        fun s d' hmem => ?_⟩
      · rw [log, List.mem_append, List.mem_singleton] at hmem
        rcases hmem with hmem | hmem
        · exact td.fresh (ran_known td.safe hmem)
        · cases hmem
      · rw [log, List.mem_append, List.mem_singleton] at hmem
        rcases hmem with hmem | hmem
        · exact absurd (mem_startedIn.mpr ⟨s, d', hmem⟩) td.fresh
        · cases hmem
          exact ⟨idleStart.symm, idleTimeout⟩
    · refine td.waits_of ho log (fun s d' hmem => ?_) (fun time hmem => ?_)
        (same.idleStart _ o ho) (same.idleTimeout _ o ho)
      · cases List.mem_singleton.mp hmem
        exact hne rfl
      · cases List.mem_singleton.mp hmem
  · rw [log, List.mem_append, List.mem_singleton] at ho
    rcases ho with ho | ho
    · refine td.off_of (timeouts ▸ Nat.le_succ _) (fun x hx hf => ?_) ho
      rw [onTimeout, update_of_ne, hf]
      rintro rfl
      simp [State.known] at hx
    · cases ho
  · rw [log]
    refine td.safe.snoc (fun o time h => Event.noConfusion h)
      fun o s d' h time hran => td.fresh ?_
    cases h
    exact ran_known td.safe hran

/-- A timer is cleared. -/
lemma Told.clear (td : Told t ring) (hb : Behind t') {o : Obj} (known : t.known o = true)
    (hsub : ∀ n, ∀ x ∈ ring' (.list n), x ∈ ring (.list n))
    (log : t'.log = t.log ++ [.cleared o]) (timeouts : t'.timeouts = t.timeouts)
    (onTimeout : t'.onTimeout = update t.onTimeout o false) (same : Same t t' ring') :
    Told t' ring' := by
  refine td.noted hb log timeouts same hsub (fun x s d h => Event.noConfusion h)
    (fun n x _ time h => Event.noConfusion h) (fun x hx => ?_) ?_
  · rw [log, List.mem_append, List.mem_singleton] at hx
    rcases hx with hx | hx
    · refine td.off_of timeouts.ge (fun y _ hf => ?_) hx
      rw [onTimeout, update_apply]
      split_ifs
      · rfl
      · exact hf
    · cases hx
      exact ⟨known_mono timeouts.ge known, by rw [onTimeout, update_self]⟩
  · rw [log]
    exact td.safe.snoc (fun x time h => Event.noConfusion h) fun x s d h => Event.noConfusion h

/-- The first timer of a list is due, is taken off it and runs. -/
lemma Told.run (td : Told t ring) (l : Linked t ring) (hb : Behind t') {n : ℕ} {first : Obj}
    (hmem : first ∈ ring (.list n)) (log : t'.log = t.log ++ [.ran first t.now])
    (hon : t.onTimeout first = true) (hdue : t.idleStart first + t.msecs n ≤ t.now)
    (timeouts : t'.timeouts = t.timeouts) (onTimeout : t'.onTimeout = t.onTimeout)
    (same : Same t t' (without ring first)) : Told t' (without ring first) := by
  obtain ⟨hs, hr, hd⟩ := td.waits n first hmem
  refine td.noted hb log timeouts same (fun k o ho => mem_of_without ho)
    (fun o s d h => Event.noConfusion h) (fun k o ho time h => ?_) (fun o ho => ?_) ?_
  · cases h
    exact l.takeOut_notMem _ ho
  · rw [log, List.mem_append, List.mem_singleton] at ho
    rcases ho with ho | ho
    · exact td.off_of timeouts.ge (fun _ _ hf => by rw [onTimeout]; exact hf) ho
    · cases ho
  · rw [log]
    refine td.safe.ran (mem_startedIn.mp hs) (fun s d hstart => ?_) (fun hc => ?_) hr
    · obtain ⟨rfl, htimeout⟩ := hd s d hstart
      rw [l.pending n first hmem] at htimeout
      rw [← Option.some.inj htimeout]
      exact hdue
    · rw [(td.off first hc).2] at hon
      cases hon

/-- **One step of a program.** -/
lemma Told.step (td : Told t ring) (l : Linked t ring) (hb : Behind t')
    (hm : Moves t ring t' ring') : Told t' ring' := by
  cases hm with
  | stay hring log timeouts onTimeout same =>
    subst hring
    exact td.stay hb log timeouts onTimeout same fun n o ho => ho
  | start n callback d hring log timeouts onTimeout idleStart idleTimeout same =>
    subst hring
    exact td.start l hb log timeouts onTimeout idleStart idleTimeout same
  | clear o known hring log timeouts onTimeout same =>
    refine td.clear hb known ?_ log timeouts onTimeout same
    rcases hring with rfl | rfl
    · exact fun n x hx => hx
    · exact fun n x hx => mem_of_without hx
  | take n first rest hfirst hring timeouts onTimeout same log =>
    subst hring
    have hsame : Same t t' (without ring first) :=
      ⟨fun h x hx => same.idleStart h x (mem_of_without hx),
        fun h x hx => same.idleTimeout h x (mem_of_without hx), same.unrefMade, same.now⟩
    rcases log with log | ⟨log, hon, hdue⟩
    · exact td.stay hb log timeouts onTimeout hsame fun n o ho => mem_of_without ho
    · exact td.run l hb (hfirst ▸ List.mem_cons_self) log hon hdue timeouts onTimeout hsame

lemma told_start : Told start fun _ => [] :=
  ⟨rfl, nofun, rfl, nofun, nofun, ⟨by simp [start], by simp [start], by simp [start]⟩⟩

/-! ### The order on a list -/

def Obj.number : Obj → ℕ
  | .timeout n => n
  | _ => 0

/-- The timers are on their lists in the order of their numbers. -/
def Sorted (ring : Obj → List Obj) : Prop :=
  ∀ n, (ring (.list n)).Pairwise fun o o' => o.number < o'.number

lemma Told.number_lt (td : Told t ring) {o : Obj} (ho : o ∈ startedIn t.log) :
    o.number < t.timeouts := by
  rw [td.started, List.mem_map] at ho
  obtain ⟨i, hi, rfl⟩ := ho
  exact List.mem_range.mp hi

lemma Sorted.step (hsort : Sorted ring) (td : Told t ring) (hm : Moves t ring t' ring') :
    Sorted ring' := by
  have hwithout : ∀ x, Sorted (without ring x) := fun x n => (hsort n).sublist List.erase_sublist
  cases hm with
  | stay hring => exact hring ▸ hsort
  | start n callback d hring =>
    subst hring
    intro k
    by_cases hk : k = n
    · subst hk
      rw [behind, update_self, List.pairwise_append]
      refine ⟨hwithout _ k, List.pairwise_singleton _ _, fun a ha b hb => ?_⟩
      rw [List.mem_singleton.mp hb]
      exact td.number_lt (td.waits k a (mem_of_without ha)).1
    · have hne : Obj.list k ≠ .list n := fun hc => hk (Obj.list.inj hc)
      rw [behind, update_of_ne hne]
      exact hwithout _ k
  | clear o known hring =>
    rcases hring with rfl | rfl
    · exact hsort
    · exact hwithout o
  | take n first rest hfirst hring => exact hring ▸ hwithout first

/-- Of two timers that have been started, the number tells which was first. -/
lemma Told.number_of_before (td : Told t ring) {o o' : Obj} (h : Before t.log o o') :
    o.number < o'.number := by
  obtain ⟨pre, mid, post, s, d, s', d', hlog⟩ := h
  have hpair : (startedIn t.log).Pairwise fun o o' => o.number < o'.number := by
    rw [td.started, List.pairwise_map]
    exact List.pairwise_lt_range
  have hlog' : t.log = (pre ++ [.started o s d]) ++ (mid ++ [.started o' s' d'] ++ post) := by
    rw [hlog]
    simp
  rw [hlog', startedIn_append, startedIn_append, startedIn_append, startedIn_append] at hpair
  refine (List.pairwise_append.mp hpair).2.2 o ?_ o' ?_
  · exact List.mem_append_right _ List.mem_cons_self
  · exact List.mem_append_left _ (List.mem_append_right _ List.mem_cons_self)

lemma InOrder.snoc {l : List Event} {o o' : Obj} (h : InOrder l o o') {e : Event}
    (he : ∀ time, e = .ran o time → ∀ time', .ran o' time' ∉ l) : InOrder (l ++ [e]) o o' := by
  intro pre post time hl time' hmem
  rcases snoc_split hl with ⟨post', rfl, hold⟩ | ⟨rfl, -, -⟩
  · rcases List.mem_append.mp hmem with hmem | hmem
    · exact h pre post' time hold time' hmem
    · refine he time' (List.mem_singleton.mp hmem).symm time ?_
      rw [hold]
      simp
  · exact List.not_mem_nil hmem

/-- Two timers that have been on the list `n` together, and what has happened since. -/
structure Together (t : State) (ring : Obj → List Obj) (log : List Event) (n : ℕ) (o o' : Obj) :
    Prop where
  first : o ∈ startedIn t.log
  second : o' ∈ startedIn t.log
  less : o.number < o'.number
  place : ∀ k, o ∈ ring (.list k) → k = n
  place' : ∀ k, o' ∈ ring (.list k) → k = n
  since : ∃ l, t.log = log ++ l ∧ InOrder l o o' ∧
    ∀ time, .ran o' time ∈ l → ∀ k, o ∉ ring (.list k)

lemma Together.step {log : List Event} {n : ℕ} {o o' : Obj} (tg : Together t ring log n o o')
    (td : Told t ring) (hsort : Sorted ring) (l : Linked t ring) (hm : Moves t ring t' ring') :
    Together t' ring' log n o o' := by
  obtain ⟨first, second, less, place, place', es, hlog, horder, hgone⟩ := tg
  -- What is on a list afterwards was there before, unless it has just been started.
  have hsub : ∀ x ∈ startedIn t.log, ∀ k, x ∈ ring' (.list k) → x ∈ ring (.list k) := by
    intro x hx k hk
    cases hm with
    | stay hring => exact hring ▸ hk
    | start n callback d hring =>
      rw [hring] at hk
      rcases l.mem_behind.mp hk with ⟨rfl, -⟩ | ⟨-, hk⟩
      · exact absurd hx td.fresh
      · exact hk
    | clear o known hring =>
      rcases hring with rfl | rfl
      · exact hk
      · exact mem_of_without hk
    | take n first rest hfirst hring =>
      rw [hring] at hk
      exact mem_of_without hk
  have hgone' : ∀ time, .ran o' time ∈ es → ∀ k, o ∉ ring' (.list k) :=
    fun time hmem k hk => hgone time hmem k (hsub o first k hk)
  have hmono : ∀ es', t'.log = t.log ++ es' → (∃ l, t'.log = log ++ l ∧ InOrder l o o' ∧
      ∀ time, .ran o' time ∈ l → ∀ k, o ∉ ring' (.list k)) → Together t' ring' log n o o' := by
    intro es' hlog' hsince
    have hmem : ∀ x ∈ startedIn t.log, x ∈ startedIn t'.log := by
      intro x hx
      rw [hlog', startedIn_append]
      exact List.mem_append_left _ hx
    exact ⟨hmem o first, hmem o' second, less, fun k hk => place k (hsub o first k hk),
      fun k hk => place' k (hsub o' second k hk), hsince⟩
  have hquiet : ∀ e, (∀ x time, e ≠ .ran x time) → t'.log = t.log ++ [e] →
      Together t' ring' log n o o' := by
    intro e he hlog'
    refine hmono [e] hlog' ⟨es ++ [e], by rw [hlog', hlog, List.append_assoc],
      horder.snoc fun time hc => absurd hc (he o time), fun time hmem => ?_⟩
    rcases List.mem_append.mp hmem with hmem | hmem
    · exact hgone' time hmem
    · exact absurd (List.mem_singleton.mp hmem).symm (he o' time)
  have hnone : t'.log = t.log → Together t' ring' log n o o' := fun hlog' =>
    hmono [] (by rw [hlog', List.append_nil]) ⟨es, hlog'.trans hlog, horder, hgone'⟩
  cases hm with
  | stay hring log' => exact hnone log'
  | start k callback d hring log' => exact hquiet _ (fun _ _ hc => by cases hc) log'
  | clear x known hring log' => exact hquiet _ (fun _ _ hc => by cases hc) log'
  | take k x rest hfirst hring timeouts onTimeout same log' =>
    rcases log' with log' | ⟨log', -, -⟩
    · exact hnone log'
    have hx : x ∈ ring (.list k) := hfirst ▸ List.mem_cons_self
    refine hmono _ log' ⟨es ++ [.ran x t.now], by rw [log', hlog, List.append_assoc],
      horder.snoc fun time hc time' hmem => ?_, fun time hmem => ?_⟩
    · cases hc
      exact hgone time' hmem k hx
    · rcases List.mem_append.mp hmem with hmem | hmem
      · exact hgone' time hmem
      · cases List.mem_singleton.mp hmem
        -- `o'` is the first of its list, so `o` is not on that, and it can be on no other.
        intro j hj
        rw [hring] at hj
        obtain ⟨hne, hj⟩ := l.mem_without.mp hj
        rw [place j hj, ← place' k hx, hfirst] at hj
        have hsorted := hsort k
        rw [hfirst, List.pairwise_cons] at hsorted
        have := hsorted.1 o ((List.mem_cons.mp hj).resolve_left hne)
        omega

/-! ### The claim is settled -/

/-- What holds of the runs of a program. -/
structure Runs (t : State) (ring : Obj → List Obj) : Prop where
  good : Good t ring
  told : Told t ring
  sorted : Sorted ring

lemma Runs.step (r : Runs t ring) {a : Act} (hp : Program a) (hs : Stepped t a t') :
    ∃ ring', Moves t ring t' ring' ∧ Runs t' ring' := by
  obtain ⟨ring', hg, hm⟩ := moves_step r.good r.told.unref r.told.behind hp hs
  have hnow : t.now ≤ t'.now := by
    cases hm with
    | stay _ _ _ _ same => exact same.now
    | start _ _ _ _ _ _ _ _ _ same => exact same.now
    | clear _ _ _ _ _ _ same => exact same.now
    | take _ _ _ _ _ _ _ same => exact same.now
  have hb := behind_step r.good r.told.behind r.told.unref hp hs hnow
  exact ⟨ring', hm, hg, r.told.step r.good.linked hb hm, r.sorted.step r.told hm⟩

lemma runs_of_run (h : Run step (fun _ a _ => Program a) start t) : ∃ ring, Runs t ring := by
  refine h.invariant (I := fun t => ∃ ring, Runs t ring)
    ⟨_, good_start, told_start, fun _ => List.Pairwise.nil⟩ ?_
  rintro n a n' ⟨ring, r⟩ hstep hp
  obtain ⟨ring', -, r'⟩ := r.step hp (step_cases hstep)
  exact ⟨ring', r'⟩

lemma together_of_run {log : List Event} {n : ℕ} {o o' : Obj} (r : Runs t ring)
    (tg : Together t ring log n o o') (h : Run step (fun _ a _ => Program a) t t') :
    ∃ ring', Together t' ring' log n o o' := by
  have hinv := h.invariant (I := fun t => ∃ ring, Runs t ring ∧ Together t ring log n o o')
    ⟨ring, r, tg⟩ ?_
  · obtain ⟨ring', -, tg'⟩ := hinv
    exact ⟨ring', tg'⟩
  · rintro u a u' ⟨ring', r', tg'⟩ hstep hp
    obtain ⟨ring'', hm, r''⟩ := r'.step hp (step_cases hstep)
    exact ⟨ring'', r'', tg'.step r'.told r'.sorted r'.good.linked hm⟩

/-- **Timers are safe.** In every run of a program of `setTimeout` and `clearTimeout`, also from
callbacks that may throw, no callback runs before its delay has gone by since it was started, nor
after `clearTimeout`, nor twice; and of two timers that wait on one list, the callback of the one
that was started first does not run after that of the other. -/
theorem timers_safe (h : Run step (fun _ a _ => Program a) start t) :
    Safe t.log ∧ ∀ n o o', On t n o → On t n o' → Before t.log o o' →
      ∀ t', Run step (fun _ a _ => Program a) t t' →
        ∃ log, t'.log = t.log ++ log ∧ InOrder log o o' := by
  obtain ⟨ring, r⟩ := runs_of_run h
  refine ⟨r.told.safe, fun n o o' ho ho' hbefore t' h' => ?_⟩
  rw [on_iff r.good.linked] at ho ho'
  have tg : Together t ring t.log n o o' := by
    refine ⟨(r.told.waits n o ho).1, (r.told.waits n o' ho').1, r.told.number_of_before hbefore,
      fun k hk => ?_, fun k hk => ?_, [], (List.append_nil _).symm, ?_, nofun⟩
    · exact Obj.list.inj (r.good.linked.apart hk ho)
    · exact Obj.list.inj (r.good.linked.apart hk ho')
    · intro pre post time hl
      simp at hl
  obtain ⟨ring', tg'⟩ := together_of_run r tg h'
  obtain ⟨log, hlog, horder, -⟩ := tg'.since
  exact ⟨log, hlog, horder⟩

/-- Two timers with one delay; the callback of the first throws, and what it leaves is run. -/
def thrown : List Act :=
  [.call (.setTimeout true false (some 10)), .call (.setTimeout true false (some 10)),
    .elapse 10 10, .fire (.list 0), .iterate, .throw, .tick, .iterate, .ret]

theorem timers_safe_thrown : ∃ t, (Run step (fun _ a _ => Program a) start t ∧
    .ran (.timeout 0) 10 ∈ t.log ∧ .ran (.timeout 1) 10 ∈ t.log) ∧
    Safe t.log ∧ ∀ n o o', On t n o → On t n o' → Before t.log o o' →
      ∀ t', Run step (fun _ a _ => Program a) t t' →
        ∃ log, t'.log = t.log ++ log ∧ InOrder log o o' := by
  have hrun : ((thrown.foldlM (fun t a => if Program a then step t a else none) start).any fun t =>
      decide (.ran (.timeout 0) 10 ∈ t.log ∧ .ran (.timeout 1) 10 ∈ t.log)) = true := by
    decide +kernel
  rw [Option.any_eq_true] at hrun
  obtain ⟨t, ht, hp⟩ := hrun
  exact ⟨t, ⟨.of_checked ht, of_decide_eq_true hp⟩, timers_safe (.of_checked ht)⟩

end

end NodeCore.Timers
