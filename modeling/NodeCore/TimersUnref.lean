import NodeCore.TimersRings

/-!
The timers that do not keep the loop alive. `unrefList` is in the order of the deadlines whatever
is called; that its handle is armed for the first of them is what `unrefTimeout` sees to.
-/

namespace NodeCore.Timers

open NodeCore.Linklist NodeCore.Reentrant Function

/-! ### The claim -/

def deadline (t : State) (o : Obj) : ℚ := t.idleStart o + (t.idleTimeout o).getD 0

/-- `unrefTimeout` is running, or is to run again after an exception. -/
def Running (t : State) : Prop :=
  (∃ now, .loop .unref now ∈ t.stack ∨ .calling .unref now ∈ t.stack) ∨ .unref ∈ t.ticks

/-- Sorted from the end that `peek` shows. -/
def SortedBy (f : Obj → ℚ) (xs : List Obj) : Prop := xs.Pairwise fun o o' => f o ≤ f o'

/-- The handle is armed, and not for a time after any deadline. -/
def Armed (t : State) (xs : List Obj) : Prop :=
  t.unrefDue ≠ none ∧ ∀ o ∈ xs, t.unrefWhen ≤ deadline t o

/-! ### The invariant -/

structure Orderly (t : State) (ring : Obj → List Obj) : Prop where
  sorted : SortedBy (deadline t) (ring .unrefList)
  armed : ¬ Running t → ring .unrefList ≠ [] → Armed t (ring .unrefList)
  /-- The walk has passed what is not after the deadline of its item. -/
  walk : ∀ item cur msecs when k, t.stack = .walk item cur msecs when :: k →
    deadline t item = when ∧ ∃ a b, ring .unrefList = a ++ b ∧ a ++ b ≠ [] ∧
      (b ++ [Obj.unrefList]).head? = some cur ∧ ∀ o ∈ a, deadline t o ≤ when

section
variable {t t' : State} {ring ring' : Obj → List Obj} {item : Obj}

lemma deadline_eq (hstart : t'.idleStart item = t.idleStart item)
    (htimeout : t'.idleTimeout item = t.idleTimeout item) : deadline t' item = deadline t item := by
  rw [deadline, deadline, hstart, htimeout]

/-- What leaves `unrefList` alone but for items that it takes out keeps it sorted and armed. -/
lemma Orderly.keeps (h : Orderly t ring) (hsub : (ring' .unrefList).Sublist (ring .unrefList))
    (hdead : ∀ o ∈ ring' .unrefList, deadline t' o = deadline t o)
    (hdue : t'.unrefDue = t.unrefDue) (hwhen : t'.unrefWhen = t.unrefWhen)
    (hrun : Running t → Running t') : SortedBy (deadline t') (ring' .unrefList) ∧
      (¬ Running t' → ring' .unrefList ≠ [] → Armed t' (ring' .unrefList)) := by
  refine ⟨?_, fun hr hne => ?_⟩
  · refine (h.sorted.sublist hsub).imp_of_mem fun ha hb hle => ?_
    rw [hdead _ ha, hdead _ hb]
    exact hle
  · obtain ⟨hd, hw⟩ := h.armed (fun hc => hr (hrun hc)) fun hc =>
      hne (List.sublist_nil.mp (hc ▸ hsub))
    refine ⟨hdue ▸ hd, fun o ho => ?_⟩
    rw [hwhen, hdead o ho]
    exact hw o (hsub.subset ho)

lemma Orderly.aside (h : Orderly t ring) (hsub : (ring' .unrefList).Sublist (ring .unrefList))
    (hdead : ∀ o ∈ ring' .unrefList, deadline t' o = deadline t o)
    (hdue : t'.unrefDue = t.unrefDue) (hwhen : t'.unrefWhen = t.unrefWhen)
    (hrun : Running t → Running t')
    (hwalk : ∀ item cur msecs when k, t'.stack ≠ .walk item cur msecs when :: k) :
    Orderly t' ring' := by
  obtain ⟨hsorted, harmed⟩ := h.keeps hsub hdead hdue hwhen hrun
  exact ⟨hsorted, harmed, fun item cur msecs when k hs => absurd hs (hwalk _ _ _ _ _)⟩

lemma busy_walk (hbusy : t.busy = false) (item cur : Obj) (msecs when : ℚ) (k : List Frame) :
    t.stack ≠ .walk item cur msecs when :: k := by
  intro hs
  rw [State.busy, hs] at hbusy
  cases hbusy

lemma Running.of_eq (hr : Running t) (hstack : t'.stack = t.stack) (hticks : t'.ticks = t.ticks) :
    Running t' := by
  rw [Running, hstack, hticks]
  exact hr

/-! ### Calls -/

/-- Only the data of the item itself changes, and the rings only lose it. -/
structure Only (t t' : State) (item : Obj) : Prop where
  idleStart : ∀ o, o ≠ item → t'.idleStart o = t.idleStart o
  idleTimeout : ∀ o, o ≠ item → t'.idleTimeout o = t.idleTimeout o
  unrefDue : t'.unrefDue = t.unrefDue
  unrefWhen : t'.unrefWhen = t.unrefWhen

lemma only_active (t : State) (item : Obj) : Only t (t.active item) item := by
  cases hdelay : t.idleTimeout item with
  | none =>
    have hsame : t.active item = t := by rw [State.active, hdelay]
    rw [hsame]
    exact ⟨fun _ _ => rfl, fun _ _ => rfl, rfl, rfl⟩
  | some msecs =>
    by_cases hpos : 0 ≤ msecs
    · obtain ⟨links, lists, made, msecs', due, failed, isActive, heq⟩ := active_eq hdelay hpos
      rw [heq]
      exact ⟨fun o ho => update_of_ne ho _ _, fun _ _ => rfl, rfl, rfl⟩
    · have hsame : t.active item = t := by simp only [State.active, hdelay, if_neg hpos]
      rw [hsame]
      exact ⟨fun _ _ => rfl, fun _ _ => rfl, rfl, rfl⟩

lemma only_unenroll (t : State) (item : Obj) : Only t (t.unenroll item) item := by
  obtain ⟨lists, closed, due, heq⟩ := unenroll_eq t item
  rw [heq]
  exact ⟨fun _ _ => rfl, fun o ho => update_of_ne ho _ _, rfl, rfl⟩

lemma only_enroll (t : State) (item : Obj) (msecs : Option ℚ) :
    Only t (t.enroll item msecs) item := by
  unfold State.enroll
  split_ifs
  · have h := only_unenroll t item
    exact ⟨h.idleStart, fun o ho => (update_of_ne ho _ _).trans (h.idleTimeout o ho), h.unrefDue,
      h.unrefWhen⟩
  · exact ⟨fun _ _ => rfl, fun o ho => update_of_ne ho _ _, rfl, rfl⟩

lemma only_setTimeout (t : State) (callback domain : Bool) (after : Option ℚ) :
    Only t (t.setTimeout callback domain after) (.timeout t.timeouts) := by
  have h := only_active (t.makeTimer callback domain (State.delay after)) (.timeout t.timeouts)
  exact ⟨fun o ho => (h.idleStart o ho).trans (update_of_ne ho _ _),
    fun o ho => (h.idleTimeout o ho).trans (update_of_ne ho _ _), h.unrefDue, h.unrefWhen⟩

/-- A call that takes the item from `unrefList`, if it is there. -/
lemma Orderly.only (h : Orderly t ring) (l : Linked t ring) (ho : Only t t' item)
    (hp : Plain t t') (hbusy : t.busy = false)
    (hring : ring' .unrefList = without ring item .unrefList) : Orderly t' ring' := by
  refine h.aside ?_ (fun o hmem => ?_) ho.unrefDue ho.unrefWhen
    (fun hr => hr.of_eq hp.stack hp.ticks) fun item cur msecs when k => ?_
  · rw [hring]
    exact List.erase_sublist
  · rw [hring] at hmem
    have hne := (l.mem_without.mp hmem).1
    exact deadline_eq (ho.idleStart o hne) (ho.idleTimeout o hne)
  · rw [hp.stack]
    exact busy_walk hbusy item cur msecs when k

/-- A call that has nothing to do with the rings. -/
lemma Orderly.same (h : Orderly t ring) (hbusy : t.busy = false)
    (hstart : t'.idleStart = t.idleStart) (htimeout : t'.idleTimeout = t.idleTimeout)
    (hdue : t'.unrefDue = t.unrefDue) (hwhen : t'.unrefWhen = t.unrefWhen)
    (hstack : t'.stack = t.stack) (hticks : t'.ticks = t.ticks) : Orderly t' ring := by
  refine h.aside (List.Sublist.refl _) (fun o _ => deadline_eq (by rw [hstart]) (by rw [htimeout]))
    hdue hwhen (fun hr => hr.of_eq hstack hticks) fun item cur msecs when k => ?_
  rw [hstack]
  exact busy_walk hbusy item cur msecs when k

lemma behind_unref (ring : Obj → List Obj) (n : ℕ) (item : Obj) :
    behind ring (.list n) item .unrefList = without ring item .unrefList :=
  update_of_ne (by simp) _ _

/-- `_unrefActive` arms the handle for an item that is alone, and else looks for its place. -/
lemma Orderly.activated (h : Orderly t ring) (l : Linked t ring) (hbusy : t.busy = false)
    (ha : Activated t ring item t' ring') : Orderly t' ring' := by
  cases ha with
  | skip => exact h
  | alone t' msecs hdelay hempty idleStart idleTimeout unrefDue unrefWhen stack ticks =>
    have hring : behind ring .unrefList item .unrefList = [item] := by
      rw [behind, update_self, hempty]
      rfl
    refine ⟨?_, fun _ _ => ⟨unrefDue, fun o ho => ?_⟩, fun x cur msecs when k hs => ?_⟩
    · rw [hring]
      exact List.pairwise_singleton _ _
    · rw [hring] at ho
      rw [List.mem_singleton.mp ho, deadline, idleStart, idleTimeout, hdelay, unrefWhen,
        update_self]
      exact le_rfl
    · rw [stack] at hs
      exact absurd hs (busy_walk hbusy _ _ _ _ _)
  | look t' msecs cur rest hdelay hring idleStart idleTimeout unrefDue unrefWhen stack ticks =>
    have hdead : ∀ o ∈ without ring item .unrefList, deadline t' o = deadline t o := by
      intro o ho
      refine deadline_eq ?_ (by rw [idleTimeout])
      rw [idleStart, update_of_ne (l.mem_without.mp ho).1]
    have hrun : Running t → Running t' := by
      rintro (⟨now, hr⟩ | hr)
      · refine .inl ⟨now, ?_⟩
        rw [stack]
        exact hr.imp (List.mem_cons_of_mem _) (List.mem_cons_of_mem _)
      · exact .inr (ticks ▸ hr)
    have hsub : (without ring item .unrefList).Sublist (ring .unrefList) := List.erase_sublist
    obtain ⟨hsorted, harmed⟩ := h.keeps hsub hdead unrefDue unrefWhen hrun
    refine ⟨hsorted, harmed, fun x cur' msecs' when k hs => ?_⟩
    rw [stack] at hs
    cases hs
    refine ⟨?_, [], cur :: rest, hring, List.cons_ne_nil _ _, rfl,
      fun o ho => absurd ho List.not_mem_nil⟩
    rw [deadline, idleStart, idleTimeout, hdelay, update_self]
    rfl

lemma Orderly.call (h : Orderly t ring) (g : Good t ring) (hbusy : t.busy = false) {c : Call}
    (hc : c.item.all t.known = true) :
    ∃ ring', Good (t.call c) ring' ∧ Orderly (t.call c) ring' := by
  cases c with
  | setTimeout callback domain after =>
    obtain ⟨n, hl⟩ := g.linked.setTimeout callback domain after
    have hp := plain_setTimeout t callback domain after
    exact ⟨_, g.plain hbusy hl hp, h.only g.linked (only_setTimeout ..) hp hbusy (behind_unref ..)⟩
  | clearTimeout o =>
    have hp := plain_clearTimeout t o
    simp only [State.call, State.clearTimeout] at hp ⊢
    by_cases hon : t.onTimeout o = true
    · simp only [if_pos hon] at hp ⊢
      have hlog := g.linked.idle t.idleStart (update t.onTimeout o false) t.disposed t.unrefWhen
        t.now t.date t.ticks t.stack (t.log ++ [Event.cleared o])
      have ho := only_unenroll { t with
        log := t.log ++ [Event.cleared o], onTimeout := update t.onTimeout o false } o
      exact ⟨_, g.plain hbusy (hlog.unenroll (State.known_isItem hc)) hp, h.only g.linked
        ⟨ho.idleStart, ho.idleTimeout, ho.unrefDue, ho.unrefWhen⟩ hp hbusy rfl⟩
    · simp only [if_neg hon] at hp ⊢
      exact ⟨ring, g.plain hbusy (g.linked.idle t.idleStart t.onTimeout t.disposed t.unrefWhen t.now
        t.date t.ticks t.stack _) hp, h.same hbusy rfl rfl rfl rfl rfl rfl⟩
  | enroll o msecs =>
    have hp := plain_enroll t o msecs
    exact ⟨_, g.plain hbusy (g.linked.enroll hc msecs) hp,
      h.only g.linked (only_enroll t o msecs) hp hbusy rfl⟩
  | active o =>
    rcases g.linked.active hc with hsame | ⟨n, hl⟩
    · exact ⟨ring, by rw [State.call, hsame]; exact g, by rw [State.call, hsame]; exact h⟩
    · have hp := plain_active t o
      exact ⟨_, g.plain hbusy hl hp, h.only g.linked (only_active t o) hp hbusy (behind_unref ..)⟩
  | unenroll o =>
    have hp := plain_unenroll t o
    exact ⟨_, g.plain hbusy (g.linked.unenroll (State.known_isItem hc)) hp,
      h.only g.linked (only_unenroll t o) hp hbusy rfl⟩
  | unrefActive o =>
    obtain ⟨ring', hg, ha⟩ := g.unrefActive hbusy hc
    exact ⟨ring', hg, h.activated g.linked hbusy ha⟩
  | assign o callback =>
    exact ⟨ring, g.plain hbusy (g.linked.idle t.idleStart _ t.disposed t.unrefWhen t.now t.date
      t.ticks t.stack t.log) ⟨rfl, rfl, le_rfl, id⟩, h.same hbusy rfl rfl rfl rfl rfl rfl⟩
  | dispose o =>
    exact ⟨ring, g.plain hbusy (g.linked.idle t.idleStart t.onTimeout _ t.unrefWhen t.now t.date
      t.ticks t.stack t.log) ⟨rfl, rfl, le_rfl, id⟩, h.same hbusy rfl rfl rfl rfl rfl rfl⟩

/-! ### Rounds -/

/-- A frame of a list on top makes no difference. -/
lemma Running.of_list {f : Frame} {k : List Frame} (hr : Running t) (hs : t.stack = f :: k)
    (hf : ∀ now, f ≠ .loop .unref now ∧ f ≠ .calling .unref now)
    (hstack : ∀ x ∈ k, x ∈ t'.stack) (hticks : t'.ticks = t.ticks) : Running t' := by
  rcases hr with ⟨now, hr⟩ | hr
  · refine .inl ⟨now, ?_⟩
    rw [hs, List.mem_cons, List.mem_cons] at hr
    have hk : .loop .unref now ∈ k ∨ .calling .unref now ∈ k :=
      hr.imp (fun h => h.resolve_left (hf now).1.symm) fun h => h.resolve_left (hf now).2.symm
    exact hk.imp (hstack _) (hstack _)
  · exact .inr (hticks ▸ hr)

/-- Below the top there is no walk. -/
lemma Good.tail_walk (g : Good t ring) {f : Frame} {k : List Frame} (hs : t.stack = f :: k)
    (item cur : Obj) (msecs when : ℚ) (k' : List Frame) : k ≠ .walk item cur msecs when :: k' := by
  rintro rfl
  obtain ⟨who, now, hf, -⟩ := g.below (.walk item cur msecs when)
    (by rw [hs]; exact List.mem_cons_self)
  cases hf

lemma Orderly.listOnTimeout (h : Orderly t ring) (g : Good t ring) {n : ℕ} {now : ℚ}
    {k : List Frame} (hs : t.stack = .loop (.list n) now :: k)
    (hround : ListRound t ring n now k t') : ∃ ring', Good t' ring' ∧ Orderly t' ring' := by
  have hf : ∀ now', Frame.loop (.list n) now ≠ .loop .unref now' ∧
      Frame.loop (.list n) now ≠ .calling .unref now' := fun now' => ⟨by simp, by simp⟩
  cases hround with
  | finish hring =>
    exact ⟨ring, g.finish hs hring, h.aside (List.Sublist.refl _) (fun _ _ => rfl) rfl rfl
      (fun hr => hr.of_list hs hf (fun _ hx => hx) rfl) (g.tail_walk hs)⟩
  | wait first rest hring hdiff =>
    refine ⟨ring, g.wait hs _, ?_⟩
    obtain ⟨due, heq⟩ := startList_eq t n (t.msecs n - (now - t.idleStart first))
    rw [heq]
    exact h.aside (List.Sublist.refl _) (fun _ _ => rfl) rfl rfl
      (fun hr => hr.of_list hs hf (fun _ hx => hx) rfl) (g.tail_walk hs)
  | take first rest hring hdiff =>
    refine ⟨_, g.take hs hring, ?_⟩
    obtain ⟨f, log, heq, hf'⟩ := callback_eq (t.takeOut first) (.list n) now first k
    rw [heq]
    refine h.aside List.erase_sublist (fun _ _ => rfl) rfl rfl
      (fun hr => hr.of_list hs hf (fun _ hx => List.mem_cons_of_mem _ hx) rfl)
      fun item cur msecs when k' hc => ?_
    rcases hf' with rfl | rfl <;> cases hc

/-- A round of `unrefTimeout` arms the handle for the first deadline, unless it goes on. -/
lemma Orderly.unrefTimeout (h : Orderly t ring) (g : Good t ring) {now : ℚ} {k : List Frame}
    (hs : t.stack = .loop .unref now :: k) (hround : UnrefRound t ring now k t') :
    ∃ ring', Good t' ring' ∧ Orderly t' ring' := by
  have hmade := g.unref_made hs
  cases hround with
  | finish hring =>
    have hl := g.linked.idle t.idleStart t.onTimeout t.disposed (-1) t.now t.date t.ticks k t.log
    exact ⟨ring, g.round hs hl le_rfl id rfl (.inl rfl), h.sorted, fun _ hne => absurd hring hne,
      fun item cur msecs when k' hs' => absurd hs' (g.tail_walk hs _ _ _ _ _)⟩
  | wait first rest hring m hdelay hdiff =>
    have hl := (g.linked.startUnref hmade (m - (now - t.idleStart first))).idle t.idleStart
      t.onTimeout t.disposed (now + (m - (now - t.idleStart first))) t.now t.date t.ticks k t.log
    refine ⟨ring, g.round hs hl le_rfl id rfl (.inl rfl), h.sorted,
      fun _ _ => ⟨by simp [State.startUnref], fun o ho => ?_⟩,
      fun item cur msecs when k' hs' => absurd hs' (g.tail_walk hs _ _ _ _ _)⟩
    have hfirst : deadline t first = t.idleStart first + m := by rw [deadline, hdelay]; rfl
    have hle : deadline t first ≤ deadline t o := by
      have hsorted := h.sorted
      rw [hring, SortedBy, List.pairwise_cons] at hsorted
      rw [hring] at ho
      rcases List.mem_cons.mp ho with rfl | ho
      · exact le_rfl
      · exact hsorted.1 o ho
    calc now + (m - (now - t.idleStart first)) = deadline t first := by rw [hfirst]; ring
      _ ≤ deadline t o := hle
  | take first rest hring =>
    have hmem : first ∈ ring .unrefList := hring ▸ List.mem_cons_self
    refine ⟨_, g.callback hs (g.linked.remove_unref hmem) le_rfl id rfl .unref hmade now first, ?_⟩
    obtain ⟨f, log, heq, hf⟩ := callback_eq { t with links := t.links.remove first } .unref now
      first k
    rw [heq]
    refine ⟨h.sorted.sublist List.erase_sublist, fun hr => absurd ?_ hr,
      fun item cur msecs when k' hs' => ?_⟩
    · rcases hf with rfl | rfl
      · exact .inl ⟨now, .inr List.mem_cons_self⟩
      · exact .inl ⟨now, .inl List.mem_cons_self⟩
    · rcases hf with rfl | rfl <;> cases hs'

/-- The walk has come to `cur`, which is at one place only. -/
lemma split_at {l a a' b b' : List Obj} {cur h : Obj} (hnd : l.Nodup) (hab : l = a ++ b)
    (hab' : l = a' ++ cur :: b') (hcur : (b ++ [h]).head? = some cur) (hne : cur ≠ h) :
    a = a' ∧ b = cur :: b' := by
  cases b with
  | nil => exact absurd (Option.some.inj hcur).symm hne
  | cons y b =>
    obtain rfl : y = cur := Option.some.inj hcur
    rw [hab, List.nodup_append, List.nodup_cons] at hnd
    have hna : y ∉ a := fun hc => hnd.2.2 y hc y List.mem_cons_self rfl
    obtain ⟨ha, -, hb⟩ := (List.append_cons_inj_of_notMem hna hnd.2.1.1).mp (hab.symm.trans hab')
    exact ⟨ha, by rw [hb]⟩

lemma SortedBy.insert {f : Obj → ℚ} {a b : List Obj} (h : SortedBy f (a ++ b))
    (hbefore : ∀ o ∈ a, f o ≤ f item) (hafter : ∀ o ∈ b, f item ≤ f o) :
    SortedBy f (a ++ item :: b) := by
  rw [SortedBy, List.pairwise_append] at h
  rw [SortedBy, List.pairwise_append, List.pairwise_cons]
  refine ⟨h.1, ⟨hafter, h.2.1⟩, fun o ho o' ho' => ?_⟩
  rcases List.mem_cons.mp ho' with rfl | ho'
  · exact hbefore o ho
  · exact h.2.2 o ho o' ho'

lemma Armed.insert {a b : List Obj} (hdue : t.unrefDue ≠ none)
    (hitem : t.unrefWhen ≤ deadline t item) (h : ∀ o ∈ a ++ b, t.unrefWhen ≤ deadline t o) :
    Armed t (a ++ item :: b) := by
  refine ⟨hdue, fun o ho => ?_⟩
  have hmem : o = item ∨ o ∈ a ++ b := by
    rw [List.mem_append, List.mem_cons] at ho
    rw [List.mem_append]
    tauto
  rcases hmem with rfl | hmem
  · exact hitem
  · exact h o hmem

/-- A round of the walk. -/
lemma Orderly.walked (h : Orderly t ring) (g : Good t ring) {cur : Obj} {msecs when : ℚ}
    {k : List Frame} (hs : t.stack = .walk item cur msecs when :: k)
    (hw : Walked t ring item cur msecs when k t' ring') : Orderly t' ring' := by
  obtain ⟨hitem, a, b, hab, hne, hcur, hpassed⟩ := h.walk item cur msecs when k hs
  have hmade := g.walk_made hs
  have hhead : Obj.unrefList ∈ t.heads := by simpa using hmade
  have hf : ∀ now, Frame.walk item cur msecs when ≠ .loop .unref now ∧
      Frame.walk item cur msecs when ≠ .calling .unref now := fun now => ⟨by simp, by simp⟩
  have hquiet : ∀ u : State, ¬ Running u → (∀ x ∈ k, x ∈ u.stack) → u.ticks = t.ticks →
      Armed t (ring .unrefList) := fun u hr hk hticks =>
    h.armed (fun hc => hr (hc.of_list hs hf hk hticks)) (hab ▸ hne)
  have hnd := g.linked.nodup .unrefList
  have hsorted := h.sorted
  -- The walk is where its item is in the list.
  have hwhere : ∀ {a' b'}, ring .unrefList = a' ++ cur :: b' → a = a' ∧ b = cur :: b' := by
    intro a' b' hab'
    refine split_at hnd hab hab' hcur ?_
    rintro rfl
    refine g.linked.rings.head_notMem hhead hhead ?_
    rw [hab']
    exact List.mem_append_right a' List.mem_cons_self
  cases hw with
  | last links hend =>
    -- The walk has passed all of them.
    obtain rfl : b = [] := by
      cases b with
      | nil => rfl
      | cons y b =>
        obtain rfl : y = cur := Option.some.inj hcur
        refine absurd ?_ (g.linked.rings.head_notMem hhead hhead)
        rw [hab, ← hend]
        exact List.mem_append_right a List.mem_cons_self
    rw [List.append_nil] at hab hne
    refine ⟨?_, fun hr _ => ?_, fun x c m w k' hs' => absurd hs' (g.tail_walk hs _ _ _ _ _)⟩
    · rw [update_self]
      refine SortedBy.insert (b := []) ?_ (fun o ho => ?_) nofun
      · rw [List.append_nil]
        exact hsorted
      · exact (hpassed o (hab ▸ ho)).trans hitem.ge
    · obtain ⟨hdue, hwhen⟩ := hquiet _ hr (fun _ hx => hx) rfl
      obtain ⟨y, hy⟩ := List.exists_mem_of_ne_nil a hne
      rw [update_self]
      refine Armed.insert (b := []) hdue ?_ fun o ho => hwhen o (by rwa [List.append_nil] at ho)
      exact (hwhen y (hab ▸ hy)).trans ((hpassed y hy).trans hitem.ge)
  | before links a' b' hab' m hdelay hlater due next hnext =>
    obtain ⟨rfl, rfl⟩ := hwhere hab'
    have hlater' : when < deadline t cur := by
      rw [deadline, hdelay]
      exact hlater
    have hafter : ∀ o ∈ cur :: b', deadline t item ≤ deadline t o := by
      rw [hab, SortedBy, List.pairwise_append, List.pairwise_cons] at hsorted
      intro o ho
      rw [hitem]
      rcases List.mem_cons.mp ho with rfl | ho
      · exact hlater'.le
      · exact hlater'.le.trans (hsorted.2.1.1 o ho)
    refine ⟨?_, fun hr _ => ?_, fun x c m w k' hs' => absurd hs' (g.tail_walk hs _ _ _ _ _)⟩
    · rw [update_self]
      exact SortedBy.insert (hab ▸ hsorted) (fun o ho => (hpassed o ho).trans hitem.ge) hafter
    · obtain ⟨hdue, hwhen⟩ := hquiet _ hr (fun _ hx => hx) rfl
      -- The handle fires no later than before, and no later than the item is due.
      have hnew : due ≠ none ∧ next ≤ t.unrefWhen ∧ next ≤ when := by
        rcases hnext with ⟨hlt, hd, rfl⟩ | ⟨hge, rfl, rfl⟩
        · exact ⟨hd, hlt.le, le_rfl⟩
        · exact ⟨hdue, le_rfl, not_lt.mp hge⟩
      rw [update_self]
      exact Armed.insert hnew.1 (hnew.2.2.trans hitem.ge) fun o ho =>
        hnew.2.1.trans (hwhen o (hab ▸ ho))
  | further a' b' hab' hnot cur' hcur' =>
    obtain ⟨rfl, rfl⟩ := hwhere hab'
    refine ⟨hsorted, fun hr _ => hquiet _ hr (fun _ hx => List.mem_cons_of_mem _ hx) rfl,
      fun x c m w k' hs' => ?_⟩
    cases hs'
    refine ⟨hitem, a ++ [cur], b', by rw [hab]; simp, by simp, hcur', fun o ho => ?_⟩
    rcases List.mem_append.mp ho with ho | ho
    · exact hpassed o ho
    · obtain rfl := List.mem_singleton.mp ho
      obtain ⟨m, hm, -⟩ := g.linked.unref o (hab' ▸ List.mem_append_right a List.mem_cons_self)
      rw [deadline, hm]
      exact not_lt.mp (hnot m hm)

/-! ### Steps -/

/-- When `unrefTimeout` runs or is to run, the handle need not be armed. -/
lemma Orderly.running (h : Orderly t ring) (hdead : ∀ o, deadline t' o = deadline t o)
    (hr : Running t') (hwalk : ∀ item cur msecs when k, t'.stack ≠ .walk item cur msecs when :: k) :
    Orderly t' ring := by
  refine ⟨?_, fun hc => absurd hr hc, fun item cur msecs when k hs => absurd hs (hwalk _ _ _ _ _)⟩
  exact h.sorted.imp fun hle => by rw [hdead, hdead]; exact hle

/-- The handler of another list is entered. -/
lemma Running.enter (hr : Running t) (who : Who) (hstack : t'.stack = (t.enter who).stack)
    (hticks : ∀ w ∈ t.ticks, w ∈ t'.ticks) : Running t' := by
  rcases hr with ⟨now, hr⟩ | hr
  · refine .inl ⟨now, ?_⟩
    rw [hstack]
    exact hr.imp (List.mem_cons_of_mem _) (List.mem_cons_of_mem _)
  · exact .inr (hticks _ hr)

lemma Orderly.idle (h : Orderly t ring) (g : Good t ring) {a : Act} (hs : Stepped t a t')
    (ha : a.Idle) : Orderly t' ring := by
  cases hs with
  | call => exact ha.elim
  | list => exact ha.elim
  | unref => exact ha.elim
  | walk => exact ha.elim
  | fire who hstack hdue =>
    cases who with
    | unref =>
      exact h.running (fun _ => rfl) (.inl ⟨t.date, .inl List.mem_cons_self⟩)
        fun _ _ _ _ _ hs => by cases hs
    | list n =>
      exact h.aside (List.Sublist.refl _) (fun _ _ => rfl) rfl rfl
        (fun hr => hr.enter (.list n) rfl fun _ hw => hw) fun _ _ _ _ _ hs => by cases hs
  | tick who ticks hbusy hticks =>
    cases who with
    | unref =>
      exact h.running (fun _ => rfl) (.inl ⟨t.date, .inl List.mem_cons_self⟩)
        fun _ _ _ _ _ hs => by cases hs
    | list n =>
      refine h.aside (List.Sublist.refl _) (fun _ _ => rfl) rfl rfl (fun hr => ?_)
        fun _ _ _ _ _ hs => by cases hs
      rcases hr with ⟨now, hr⟩ | hr
      · exact .inl ⟨now, hr.imp (List.mem_cons_of_mem _) (List.mem_cons_of_mem _)⟩
      · rw [hticks] at hr
        exact .inr ((List.mem_cons.mp hr).resolve_left (by simp))
  | ret who now k hs =>
    refine h.aside (List.Sublist.refl _) (fun _ _ => rfl) rfl rfl (fun hr => ?_)
      fun _ _ _ _ _ hs => by cases hs
    rcases hr with ⟨now', hr⟩ | hr
    · rw [hs, List.mem_cons, List.mem_cons] at hr
      rcases hr with (hr | hr) | (hr | hr)
      · cases hr
      · exact .inl ⟨now', .inl (List.mem_cons_of_mem _ hr)⟩
      · cases hr
        exact .inl ⟨_, .inl List.mem_cons_self⟩
      · exact .inl ⟨now', .inr (List.mem_cons_of_mem _ hr)⟩
    · exact .inr hr
  | throw who now k hs =>
    cases who with
    | unref =>
      exact h.running (fun _ => rfl) (.inr (List.mem_append_right _ List.mem_cons_self))
        (g.tail_walk hs)
    | list n =>
      refine h.aside (List.Sublist.refl _) (fun _ _ => rfl) rfl rfl (fun hr => ?_) (g.tail_walk hs)
      rcases hr with ⟨now', hr⟩ | hr
      · rw [hs, List.mem_cons, List.mem_cons] at hr
        exact .inl ⟨now', hr.imp (fun h => h.resolve_left (by simp)) fun h =>
          h.resolve_left (by simp)⟩
      · exact .inr (List.mem_append_left _ hr)
  | elapse d e hd he =>
    exact ⟨h.sorted, fun hr => h.armed hr, h.walk⟩

/-- **One step.** -/
theorem Orderly.step (h : Orderly t ring) (g : Good t ring) {a : Act} (hs : Stepped t a t') :
    ∃ ring', Good t' ring' ∧ Orderly t' ring' := by
  have hidle := hs
  cases hs with
  | call c hbusy hknown => exact h.call g hbusy hknown
  | list n now k hs =>
    have hn := g.list_made hs
    exact h.listOnTimeout g hs (g.linked.listOnTimeout hn now k)
  | unref now k hs =>
    have hmade := g.unref_made hs
    exact h.unrefTimeout g hs (g.linked.unrefTimeout hmade now k)
  | walk item cur msecs when k hs =>
    obtain ⟨ring', hg, hw⟩ := g.walk hs
    exact ⟨ring', hg, h.walked g hs hw⟩
  | fire => exact ⟨ring, g.idle hidle trivial, h.idle g hidle trivial⟩
  | tick => exact ⟨ring, g.idle hidle trivial, h.idle g hidle trivial⟩
  | ret => exact ⟨ring, g.idle hidle trivial, h.idle g hidle trivial⟩
  | throw => exact ⟨ring, g.idle hidle trivial, h.idle g hidle trivial⟩
  | elapse => exact ⟨ring, g.idle hidle trivial, h.idle g hidle trivial⟩

lemma orderly_start : Orderly start fun _ => [] :=
  ⟨List.Pairwise.nil, fun _ hne => absurd rfl hne, fun _ _ _ _ _ hs => by cases hs⟩

/-! ### The claim is settled -/

/-- **`unrefList` is sorted, and its handle armed.** In every run, whatever is called from
callbacks and whatever they throw: when `unrefTimeout` neither runs nor is to run again, the list
is in the order of the deadlines, and if it is not empty the handle is armed and its `when` is not
after the first of them. -/
theorem unref_sorted_armed {t : State} (h : Run step (fun _ _ _ => True) start t)
    (hquiet : ¬ Running t) (hmade : t.unrefMade = true) {xs : List Obj}
    (hxs : Ring t.links .unrefList xs) :
    SortedBy (deadline t) xs ∧ (xs ≠ [] → Armed t xs) ∧ ∀ o ∈ xs, t.idleTimeout o ≠ none := by
  obtain ⟨ring, g, ho⟩ : ∃ ring, Good t ring ∧ Orderly t ring := by
    refine h.invariant (I := fun t => ∃ ring, Good t ring ∧ Orderly t ring)
      ⟨_, good_start, orderly_start⟩ ?_
    rintro n a n' ⟨ring, g, ho⟩ hstep -
    exact ho.step g (step_cases hstep)
  rw [g.linked.rings.ring_iff (State.unrefList_mem_heads.mpr hmade)] at hxs
  subst hxs
  refine ⟨ho.sorted, fun hne => ho.armed hquiet hne, fun o hmem => ?_⟩
  obtain ⟨m, hm, -⟩ := g.linked.unref o hmem
  rw [hm]
  exact Option.some_ne_none m

/-- Two items, the second with the shorter delay, which is put before the first. -/
def twoItems : List Act :=
  [.call (.enroll (.item 0) (some 50)), .call (.enroll (.item 1) (some 20)),
    .call (.unrefActive (.item 0)), .elapse 5 5, .call (.unrefActive (.item 1)), .iterate]

theorem unref_sorted_armed_twoItems : ∃ t, (Run step (fun _ _ _ => True) start t ∧ ¬ Running t ∧
    t.unrefMade = true ∧ Ring t.links .unrefList [.item 1, .item 0]) ∧
    SortedBy (deadline t) [.item 1, .item 0] ∧
    ([Obj.item 1, .item 0] ≠ [] → Armed t [.item 1, .item 0]) ∧
    ∀ o ∈ [Obj.item 1, .item 0], t.idleTimeout o ≠ none := by
  have hrun : ((twoItems.foldlM step start).any fun t =>
      decide (t.stack = [] ∧ t.ticks = [] ∧ t.unrefMade = true ∧
        Ring t.links .unrefList [.item 1, .item 0])) = true := by
    decide +kernel
  rw [Option.any_eq_true] at hrun
  obtain ⟨t, ht, hp⟩ := hrun
  obtain ⟨hstack, hticks, hmade, hring⟩ := of_decide_eq_true hp
  have hquiet : ¬ Running t := by
    rw [Running, hstack, hticks]
    simp
  exact ⟨t, ⟨.of_foldlM ht, hquiet, hmade, hring⟩,
    unref_sorted_armed (.of_foldlM ht) hquiet hmade hring⟩

end

end NodeCore.Timers
