import NodeCore.Timers

/-!
Where the items of the timers are. Whatever is called and whatever fires, every item is on one ring
at most: that of a list with its delay, or that of `unrefList`.
-/

namespace NodeCore.Timers

open NodeCore.Linklist Function

/-! ### The invariant -/

def Obj.IsItem : Obj → Prop
  | .list _ | .unrefList => False
  | .timeout _ | .item _ => True

namespace State

/-- The lists there have been, and `unrefList` once it has been made. -/
def heads (t : State) : Set Obj :=
  {o | (∃ n < t.made, o = .list n) ∨ t.unrefMade = true ∧ o = .unrefList}

/-- A handle that there is. -/
def Has (t : State) : Who → Prop
  | .list n => n < t.made
  | .unref => t.unrefMade = true

@[simp] lemma list_mem_heads {t : State} {n : ℕ} : Obj.list n ∈ t.heads ↔ n < t.made := by
  simp [heads]

@[simp] lemma unrefList_mem_heads {t : State} :
    Obj.unrefList ∈ t.heads ↔ t.unrefMade = true := by
  simp [heads]

lemma notMem_heads {t : State} {o : Obj} (ho : o.IsItem) : o ∉ t.heads := by
  rintro (⟨n, -, rfl⟩ | ⟨-, rfl⟩)
  · exact ho
  · exact ho

lemma known_isItem {t : State} {o : Obj} (h : t.known o = true) : o.IsItem := by
  cases o with
  | list n => cases h
  | unrefList => cases h
  | timeout n => trivial
  | item n => trivial

end State

/-- Which items are on the ring of which list. -/
structure Linked (t : State) (ring : Obj → List Obj) : Prop where
  rings : Rings t.links t.heads ring
  outside : ∀ h, h ∉ t.heads → ring h = []
  /-- What does not exist yet has no links. -/
  fresh : ∀ o, t.known o = false → o ∉ t.heads → t.links.next o = none
  known : ∀ h ∈ t.heads, ∀ o ∈ ring h, t.known o = true
  pending : ∀ n, ∀ o ∈ ring (.list n), t.idleTimeout o = some (t.msecs n)
  entry : ∀ m n, t.lists m = some n → n < t.made ∧ t.closed n = false ∧ t.msecs n = m ∧ 0 ≤ m
  shut : ∀ n, t.closed n = true → n < t.made ∧ ring (.list n) = []
  unref : ∀ o ∈ ring .unrefList, ∃ m, t.idleTimeout o = some m ∧ 0 < m
  isActive : ∀ o, t.isActive o = true ↔ ∃ n, o ∈ ring (.list n)
  due : ∀ who, t.dueOf who ≠ none → t.Has who
  whole : t.failed = false

/-- All rings without an item. -/
def without (ring : Obj → List Obj) (item : Obj) : Obj → List Obj := fun h => (ring h).erase item

/-- An item is put last on the ring of `h`. -/
def behind (ring : Obj → List Obj) (h item : Obj) : Obj → List Obj :=
  update (without ring item) h (without ring item h ++ [item])

section
variable {t : State} {ring : Obj → List Obj} {item o h : Obj}

lemma mem_of_without (hm : o ∈ without ring item h) : o ∈ ring h := List.mem_of_mem_erase hm

lemma Linked.mem_heads (l : Linked t ring) (hm : o ∈ ring h) : h ∈ t.heads := by
  by_contra hh
  rw [l.outside h hh] at hm
  exact List.not_mem_nil hm

lemma Linked.nodup (l : Linked t ring) (h : Obj) : (ring h).Nodup := by
  by_cases hh : h ∈ t.heads
  · exact l.rings.nodup h hh
  · rw [l.outside h hh]
    exact List.nodup_nil

lemma Linked.mem_without (l : Linked t ring) :
    o ∈ without ring item h ↔ o ≠ item ∧ o ∈ ring h := (l.nodup h).mem_erase_iff

lemma Linked.apart (l : Linked t ring) {h' : Obj} (hm : o ∈ ring h) (hm' : o ∈ ring h') : h = h' :=
  l.rings.apart h (l.mem_heads hm) h' (l.mem_heads hm') o hm hm'

lemma Linked.notMem (l : Linked t ring) {n : ℕ} (hn : t.closed n = true) : o ∉ ring (.list n) := by
  rw [(l.shut n hn).2]
  exact List.not_mem_nil

lemma Linked.mem_behind (l : Linked t ring) {h' : Obj} :
    o ∈ behind ring h item h' ↔ o = item ∧ h' = h ∨ o ≠ item ∧ o ∈ ring h' := by
  by_cases hne : h' = h
  · subst hne
    rw [behind, update_self, List.mem_append, l.mem_without, List.mem_singleton]
    tauto
  · rw [behind, update_of_ne hne, l.mem_without]
    tauto

end

/-- The object is on the ring of the list `n`. -/
def On (t : State) (n : ℕ) (o : Obj) : Prop :=
  n < t.made ∧ ∃ xs, Ring t.links (.list n) xs ∧ o ∈ xs

lemma on_iff {t : State} {ring : Obj → List Obj} (l : Linked t ring) {n : ℕ} {o : Obj} :
    On t n o ↔ o ∈ ring (.list n) := by
  constructor
  · rintro ⟨hn, xs, hxs, ho⟩
    rw [l.rings.ring_iff (by simpa using hn)] at hxs
    exact hxs ▸ ho
  · intro ho
    have hn := l.mem_heads ho
    exact ⟨by simpa using hn, _, (l.rings.ring_iff hn).mpr rfl, ho⟩

/-! ### What the parts do -/

/-- `list.start` sets the time at which the handle fires, at most. -/
lemma startList_eq (t : State) (n : ℕ) (msecs : ℚ) :
    ∃ due, t.startList n msecs = { t with due := due } := by
  unfold State.startList
  split_ifs
  · exact ⟨t.due, rfl⟩
  · exact ⟨_, rfl⟩

lemma makeList_eq (t : State) (msecs : ℚ) :
    ∃ due, t.makeList msecs = { t with
      made := t.made + 1, links := t.links.init (.list t.made)
      lists := update t.lists msecs (some t.made), msecs := update t.msecs t.made msecs
      due := due } := by
  obtain ⟨due, h⟩ := startList_eq { t with made := t.made + 1 } t.made msecs
  exact ⟨due, by rw [State.makeList, h]⟩

lemma unenroll_eq (t : State) (item : Obj) : ∃ lists closed due, t.unenroll item = { t with
    links := t.links.remove item, idleTimeout := update t.idleTimeout item (some (-1))
    isActive := update t.isActive item false, lists := lists, closed := closed, due := due } := by
  have hstop : ∀ (t : State) (msecs : Option ℚ), ∃ lists closed due,
      t.stopEmpty msecs = { t with lists := lists, closed := closed, due := due } := by
    intro t msecs
    unfold State.stopEmpty
    split
    · exact ⟨_, _, _, rfl⟩
    · split
      · exact ⟨_, _, _, rfl⟩
      · split_ifs
        · exact ⟨_, _, _, rfl⟩
        · exact ⟨_, _, _, rfl⟩
  obtain ⟨lists, closed, due, h⟩ := hstop (t.takeOut item) (t.idleTimeout item)
  exact ⟨lists, closed, due, by
    rw [State.unenroll, show (t.takeOut item).idleTimeout = t.idleTimeout from rfl, h]
    rfl⟩

lemma insert_eq (t : State) (item : Obj) (msecs : ℚ) :
    ∃ links lists made msecs' due failed isActive, t.insert item msecs = { t with
      idleStart := update t.idleStart item t.now
      idleTimeout := update t.idleTimeout item (some msecs)
      links := links, lists := lists, made := made, msecs := msecs', due := due, failed := failed
      isActive := isActive } := by
  unfold State.insert
  dsimp only
  split_ifs
  · exact ⟨_, _, _, _, _, _, _, rfl⟩
  · split
    · exact ⟨_, _, _, _, _, _, _, rfl⟩
    · obtain ⟨due, h⟩ := makeList_eq { t with
        idleStart := update t.idleStart item t.now
        idleTimeout := update t.idleTimeout item (some msecs) } msecs
      rw [h]
      exact ⟨_, _, _, _, _, _, _, rfl⟩

lemma active_eq {t : State} {item : Obj} {msecs : ℚ} (hdelay : t.idleTimeout item = some msecs)
    (hpos : 0 ≤ msecs) : ∃ links lists made msecs' due failed isActive, t.active item = { t with
      idleStart := update t.idleStart item t.now
      links := links, lists := lists, made := made, msecs := msecs', due := due, failed := failed
      isActive := isActive } := by
  have hsame : update t.idleTimeout item (some msecs) = t.idleTimeout := by
    rw [← hdelay, update_eq_self]
  have hinsert := insert_eq t item msecs
  rw [hsame] at hinsert
  simp only [State.active, hdelay, if_pos hpos]
  split
  · exact hinsert
  · split_ifs
    · exact hinsert
    · exact ⟨_, _, _, _, _, _, _, rfl⟩

namespace Linked

variable {t : State} {ring : Obj → List Obj} {item : Obj}

/-- Most of the state has nothing to do with the rings. -/
lemma idle (l : Linked t ring) (idleStart onTimeout disposed unrefWhen now date ticks stack log) :
    Linked { t with
      idleStart := idleStart, onTimeout := onTimeout, disposed := disposed, unrefWhen := unrefWhen
      now := now, date := date, ticks := ticks, stack := stack, log := log } ring :=
  ⟨l.rings, l.outside, l.fresh, l.known, l.pending, l.entry, l.shut, l.unref, l.isActive, l.due,
    l.whole⟩

/-- The delay of an item that is on no ring. -/
lemma setDelay (l : Linked t ring) (hitem : ∀ h, item ∉ ring h) (v : Option ℚ) :
    Linked { t with idleTimeout := update t.idleTimeout item v } ring := by
  have hidle : ∀ h, ∀ o ∈ ring h, update t.idleTimeout item v o = t.idleTimeout o := by
    intro h o ho
    refine update_of_ne ?_ _ _
    rintro rfl
    exact hitem h ho
  refine ⟨l.rings, l.outside, l.fresh, l.known,
    fun n o ho => (hidle _ o ho).trans (l.pending n o ho), l.entry, l.shut, fun o ho => ?_,
    l.isActive, l.due, l.whole⟩
  obtain ⟨m, hm, hpos⟩ := l.unref o ho
  exact ⟨m, (hidle _ o ho).trans hm, hpos⟩

lemma takeOut (l : Linked t ring) (hitem : item.IsItem) :
    Linked (t.takeOut item) (without ring item) := by
  refine ⟨l.rings.remove (State.notMem_heads hitem), fun h hh => ?_, fun o ho hh => ?_,
    fun h hh o ho => l.known h hh o (mem_of_without ho),
    fun n o ho => l.pending n o (mem_of_without ho), l.entry,
    fun n hn => ⟨(l.shut n hn).1, ?_⟩,
    fun o ho => l.unref o (mem_of_without ho), fun o => ?_, l.due, l.whole⟩
  · rw [without, l.outside h hh, List.erase_nil]
  · exact l.rings.links.next_remove (l.fresh o ho hh)
  · rw [without, (l.shut n hn).2, List.erase_nil]
  · simp only [State.takeOut, update_apply, l.mem_without]
    by_cases ho : o = item
    · simp [ho]
    · simp [ho, l.isActive]

lemma takeOut_notMem (l : Linked t ring) (h : Obj) : item ∉ without ring item h :=
  fun hc => (l.mem_without.mp hc).1 rfl

/-- A list without items is closed, and its place cleared. -/
lemma closeList (l : Linked t ring) {n : ℕ} (hn : n < t.made) {msecs : ℚ}
    (hempty : ring (.list n) = []) (hmine : t.lists msecs = some n ∨ t.msecs n = msecs) :
    Linked ((t.close n).deleteList msecs) ring := by
  refine ⟨l.rings, l.outside, l.fresh, l.known, l.pending, fun m k hm => ?_, fun k hk => ?_,
    l.unref, l.isActive, fun who hw => ?_, l.whole⟩
  · simp only [State.deleteList, State.close, update_apply] at hm ⊢
    by_cases hmm : m = msecs
    · rw [if_pos hmm] at hm
      cases hm
    · rw [if_neg hmm] at hm
      obtain ⟨hk, hclosed, hmsecs, hpos⟩ := l.entry m k hm
      have hkn : k ≠ n := by
        rintro rfl
        rcases hmine with hmine | hmine
        · exact hmm (hmsecs.symm.trans (l.entry msecs k hmine).2.2.1)
        · exact hmm (hmsecs.symm.trans hmine)
      rw [if_neg hkn]
      exact ⟨hk, hclosed, hmsecs, hpos⟩
  · by_cases hkn : k = n
    · subst hkn
      exact ⟨hn, hempty⟩
    · refine l.shut k ?_
      simpa [State.deleteList, State.close, update_apply, hkn] using hk
  · cases who with
    | list k =>
      refine l.due (.list k) ?_
      intro hc
      apply hw
      by_cases hkn : k = n
      · simp [State.dueOf, State.deleteList, State.close, hkn]
      · simpa [State.dueOf, State.deleteList, State.close, update_apply, hkn] using hc
    | unref => exact l.due .unref hw

/-- The handle of a list that there is. -/
lemma startList (l : Linked t ring) {n : ℕ} (hn : n < t.made) (msecs : ℚ) :
    Linked (t.startList n msecs) ring := by
  unfold State.startList
  split_ifs
  · exact l
  · refine ⟨l.rings, l.outside, l.fresh, l.known, l.pending, l.entry, l.shut, l.unref, l.isActive,
      fun who hw => ?_, l.whole⟩
    cases who with
    | list k =>
      by_cases hkn : k = n
      · exact hkn ▸ hn
      · refine l.due (.list k) ?_
        simpa [State.dueOf, update_apply, hkn] using hw
    | unref => exact l.due .unref hw

lemma startUnref (l : Linked t ring) (hmade : t.unrefMade = true) (msecs : ℚ) :
    Linked (t.startUnref msecs) ring := by
  refine ⟨l.rings, l.outside, l.fresh, l.known, l.pending, l.entry, l.shut, l.unref, l.isActive,
    fun who hw => ?_, l.whole⟩
  cases who with
  | list n => exact l.due (.list n) hw
  | unref => exact hmade

lemma isOpen (l : Linked t ring) : t.closed t.made = false := by
  by_contra hc
  exact absurd (l.shut t.made (by simpa using hc)).1 (lt_irrefl _)

/-- A list that is new has no items. -/
lemma makeList (l : Linked t ring) {msecs : ℚ} (hnone : t.lists msecs = none) (hpos : 0 ≤ msecs) :
    Linked (t.makeList msecs) ring := by
  have hnew : Obj.list t.made ∉ t.heads := by simp
  have hring : ring (.list t.made) = [] := l.outside _ hnew
  have hheads : ∀ o, o ∈ { t with made := t.made + 1 }.heads ↔
      o ∈ Insert.insert (.list t.made) t.heads := by
    intro o
    cases o with
    | list n => simp; omega
    | unrefList => simp
    | timeout n => simp [State.heads]
    | item n => simp [State.heads]
  have hrings := l.rings.init_head hnew (l.fresh (.list t.made) rfl hnew)
  rw [← hring, update_eq_self, ← Set.ext hheads] at hrings
  have hmake : t.makeList msecs = { t with
      made := t.made + 1, links := t.links.init (.list t.made)
      lists := update t.lists msecs (some t.made), msecs := update t.msecs t.made msecs
      due := update t.due t.made (some (t.now + ⌊msecs⌋)) } := by
    simp [State.makeList, State.startList, l.isOpen]
  rw [hmake]
  refine ⟨hrings, fun h hh => ?_, fun o ho hh => ?_, fun h hh o ho => ?_, fun n o ho => ?_,
    fun m n hm => ?_, fun n hn => ?_, l.unref, l.isActive, fun who hw => ?_, l.whole⟩
  · exact l.outside h fun hc => hh ((hheads h).mpr (.inr hc))
  · have hne : o ≠ .list t.made := fun hc => hh ((hheads o).mpr (.inl hc))
    exact Links.next_init hne (l.fresh o ho fun hc => hh ((hheads o).mpr (.inr hc)))
  · exact l.known h (l.mem_heads ho) o ho
  · have hne : n ≠ t.made := by
      rintro rfl
      rw [hring] at ho
      exact List.not_mem_nil ho
    simp only [update_of_ne hne]
    exact l.pending n o ho
  · by_cases hmm : m = msecs
    · subst hmm
      simp only [update_self, Option.some.injEq] at hm
      subst hm
      exact ⟨Nat.lt_succ_self _, l.isOpen, update_self .., hpos⟩
    · simp only [update_of_ne hmm] at hm
      obtain ⟨hn, hclosed, hmsecs, hm0⟩ := l.entry m n hm
      exact ⟨Nat.lt_succ_of_lt hn, hclosed, (update_of_ne hn.ne _ _).trans hmsecs, hm0⟩
  · exact ⟨Nat.lt_succ_of_lt (l.shut n hn).1, (l.shut n hn).2⟩
  · cases who with
    | list k =>
      by_cases hkn : k = t.made
      · subst hkn
        exact Nat.lt_succ_self _
      · refine Nat.lt_succ_of_lt (l.due (.list k) ?_)
        simpa [State.dueOf, update_apply, hkn] using hw
    | unref => exact l.due .unref hw

/-- An item that is known and has the delay of a list is put on it. -/
lemma appendTo (l : Linked t ring) {n : ℕ} (hn : n < t.made) (hopen : t.closed n = false)
    (hknown : t.known item = true) (hdelay : t.idleTimeout item = some (t.msecs n)) :
    Linked (t.appendTo n item) (behind ring (.list n) item) := by
  have hitem := State.known_isItem hknown
  have hhead : Obj.list n ∈ t.heads := by simpa using hn
  refine ⟨l.rings.append (State.notMem_heads hitem) hhead, fun h hh => ?_, fun o ho hh => ?_,
    fun h hh o ho => ?_, fun k o ho => ?_, l.entry, fun k hk => ⟨(l.shut k hk).1, ?_⟩,
    fun o ho => ?_, fun o => ?_, l.due, l.whole⟩
  · have hne : h ≠ .list n := fun hc => hh (hc ▸ hhead)
    rw [behind, update_of_ne hne, without, l.outside h hh, List.erase_nil]
  · refine l.rings.links.next_append ?_ ?_ (l.fresh o ho hh)
    · rintro rfl
      exact absurd (hknown.symm.trans ho) (by decide)
    · rintro rfl
      exact hh hhead
  · rcases l.mem_behind.mp ho with ⟨rfl, -⟩ | ⟨-, ho⟩
    · exact hknown
    · exact l.known h hh o ho
  · rcases l.mem_behind.mp ho with ⟨rfl, hk⟩ | ⟨-, ho⟩
    · obtain rfl := Obj.list.inj hk
      exact hdelay
    · exact l.pending k o ho
  · rw [behind, update_of_ne, without, (l.shut k hk).2, List.erase_nil]
    intro hc
    obtain rfl := Obj.list.inj hc
    exact absurd (hk.symm.trans hopen) (by decide)
  · rcases l.mem_behind.mp ho with ⟨-, hc⟩ | ⟨-, ho⟩
    · cases hc
    · exact l.unref o ho
  · simp only [State.appendTo, update_apply, l.mem_behind]
    by_cases ho : o = item
    · simp [ho]
    · simp [ho, l.isActive]

lemma assert_true {b : Bool} (hb : b = true) : t.assert b = t := by
  simp [State.assert, hb]

/-- The assertion of `insert`. -/
lemma assert_appendTo (l : Linked t ring) {n : ℕ} (hn : n < t.made) (hopen : t.closed n = false)
    (hknown : t.known item = true) (hdelay : t.idleTimeout item = some (t.msecs n)) :
    (t.appendTo n item).assert (¬ (t.appendTo n item).links.isEmpty (.list n)) =
      t.appendTo n item := by
  refine assert_true (decide_eq_true ?_)
  rw [(l.appendTo hn hopen hknown hdelay).rings.isEmpty_iff (State.list_mem_heads.mpr hn), behind,
    update_self]
  simp

/-- `insert` of an item that has a delay. -/
lemma insert (l : Linked t ring) {msecs : ℚ} (hdelay : t.idleTimeout item = some msecs)
    (hpos : 0 ≤ msecs) (hknown : t.known item = true) :
    ∃ n, Linked (t.insert item msecs) (behind ring (.list n) item) := by
  have hsame : update t.idleTimeout item (some msecs) = t.idleTimeout := by
    rw [← hdelay, update_eq_self]
  unfold State.insert
  rw [if_neg (not_lt.mpr hpos)]
  simp only [hsame]
  have hl := l.idle (update t.idleStart item t.now) t.onTimeout t.disposed t.unrefWhen t.now t.date
    t.ticks t.stack t.log
  cases hlists : t.lists msecs with
  | some n =>
    obtain ⟨hn, hopen, hmsecs, -⟩ := l.entry msecs n hlists
    have hd : t.idleTimeout item = some (t.msecs n) := by rw [hdelay, hmsecs]
    refine ⟨n, ?_⟩
    dsimp only
    rw [hl.assert_appendTo hn hopen hknown hd]
    exact hl.appendTo hn hopen hknown hd
  | none =>
    have hm := hl.makeList hlists hpos
    obtain ⟨due, heq⟩ := makeList_eq { t with idleStart := update t.idleStart item t.now } msecs
    refine ⟨t.made, ?_⟩
    dsimp only
    rw [heq] at hm ⊢
    have hd : t.idleTimeout item = some (update t.msecs t.made msecs t.made) := by
      rw [hdelay, update_self]
    rw [hm.assert_appendTo (Nat.lt_succ_self _) l.isOpen hknown hd]
    exact hm.appendTo (Nat.lt_succ_self _) l.isOpen hknown hd

/-- An item with a delay is put on a list. -/
lemma active_of_pos (l : Linked t ring) {msecs : ℚ} (hdelay : t.idleTimeout item = some msecs)
    (hpos : 0 ≤ msecs) (hknown : t.known item = true) :
    ∃ n, Linked (t.active item) (behind ring (.list n) item) := by
  simp only [State.active, hdelay, if_pos hpos]
  cases hlists : t.lists msecs with
  | none => exact l.insert hdelay hpos hknown
  | some n =>
    dsimp only
    obtain ⟨hn, hopen, hmsecs, -⟩ := l.entry msecs n hlists
    by_cases hempty : t.links.isEmpty (.list n)
    · rw [if_pos hempty]
      exact l.insert hdelay hpos hknown
    · rw [if_neg hempty]
      have hl := l.idle (update t.idleStart item t.now) t.onTimeout t.disposed t.unrefWhen t.now
        t.date t.ticks t.stack t.log
      exact ⟨n, hl.appendTo hn hopen hknown (by rw [hdelay, hmsecs])⟩

lemma active (l : Linked t ring) (hknown : t.known item = true) :
    t.active item = t ∨ ∃ n, Linked (t.active item) (behind ring (.list n) item) := by
  cases hdelay : t.idleTimeout item with
  | none => exact .inl (by rw [State.active, hdelay])
  | some msecs =>
    by_cases hpos : 0 ≤ msecs
    · exact .inr (l.active_of_pos hdelay hpos hknown)
    · exact .inl (by simp only [State.active, hdelay, if_neg hpos])

lemma without_eq (hitem : ∀ h, item ∉ ring h) : without ring item = ring :=
  funext fun h => List.erase_of_not_mem (hitem h)

lemma stopEmpty (l : Linked t ring) (msecs : Option ℚ) : Linked (t.stopEmpty msecs) ring := by
  unfold State.stopEmpty
  cases msecs with
  | none => exact l
  | some msecs =>
    dsimp only
    cases hlists : t.lists msecs with
    | none => exact l
    | some n =>
      dsimp only
      have hn := (l.entry msecs n hlists).1
      by_cases hempty : t.links.isEmpty (.list n)
      · rw [if_pos hempty]
        rw [l.rings.isEmpty_iff (by simpa using hn)] at hempty
        exact l.closeList hn hempty (.inl hlists)
      · rw [if_neg hempty]
        exact l

lemma unenroll (l : Linked t ring) (hitem : item.IsItem) :
    Linked (t.unenroll item) (without ring item) :=
  ((l.takeOut hitem).stopEmpty _).setDelay l.takeOut_notMem (some (-1))

lemma enroll (l : Linked t ring) (hknown : t.known item = true) (msecs : Option ℚ) :
    Linked (t.enroll item msecs) (without ring item) := by
  have hitem := State.known_isItem hknown
  obtain ⟨u, hu, hl, hnext, hsame⟩ : ∃ u,
      u = (if t.links.next item ≠ none then t.unenroll item else t) ∧
      Linked u (without ring item) ∧ u.links.next item = none ∧ u.timeouts = t.timeouts := by
    refine ⟨_, rfl, ?_⟩
    by_cases hnext : t.links.next item ≠ none
    · rw [if_pos hnext]
      obtain ⟨lists, closed, due, heq⟩ := unenroll_eq t item
      refine ⟨l.unenroll hitem, ?_, by rw [heq]⟩
      rw [heq]
      exact (Links.remove_next ..).trans (if_pos rfl)
    · rw [if_neg hnext]
      rw [not_not] at hnext
      rw [without_eq fun h hc => l.rings.notMem_of_next hnext (l.mem_heads hc) hc]
      exact ⟨l, hnext, rfl⟩
  rw [State.enroll, ← hu]
  have hd := hl.setDelay l.takeOut_notMem (msecs.map (min TIMEOUT_MAX))
  refine ⟨hd.rings.init_item (State.notMem_heads hitem) hnext, hd.outside, fun o ho hh => ?_,
    hd.known, hd.pending, hd.entry, hd.shut, hd.unref, hd.isActive, hd.due, hd.whole⟩
  refine Links.next_init ?_ (hd.fresh o ho hh)
  rintro rfl
  have hk : u.known o = t.known o := by
    cases o <;> simp [State.known, hsame]
  rw [← hk] at hknown
  exact absurd (hknown.symm.trans ho) (by decide)

/-- The timer that `setTimeout` makes, before it is started. -/
lemma timer (l : Linked t ring) (callback domain : Bool) (after : ℚ) :
    Linked (t.makeTimer callback domain after) ring ∧ ∀ h, .timeout t.timeouts ∉ ring h := by
  have hhead : Obj.timeout t.timeouts ∉ t.heads := State.notMem_heads trivial
  have hnew : t.known (.timeout t.timeouts) = false := by simp [State.known]
  have hnot : ∀ h, Obj.timeout t.timeouts ∉ ring h := fun h hc =>
    absurd ((l.known h (l.mem_heads hc) _ hc).symm.trans hnew) (by decide)
  have hmono : ∀ o, t.known o = true → { t with timeouts := t.timeouts + 1 }.known o = true := by
    intro o ho
    cases o with
    | list n => exact ho
    | unrefList => exact ho
    | timeout n =>
      have hlt : n < t.timeouts := by simpa [State.known] using ho
      simp [State.known]
      omega
    | item n => exact ho
  have hd := l.setDelay hnot (some after)
  refine ⟨⟨hd.rings.init_item hhead (l.fresh _ hnew hhead), hd.outside, fun o ho hh => ?_,
    fun h hh o ho => hmono o (l.known h hh o ho), hd.pending, hd.entry, hd.shut, hd.unref,
    hd.isActive, hd.due, hd.whole⟩, hnot⟩
  refine Links.next_init ?_ (l.fresh o ?_ hh)
  · rintro rfl
    simp [State.makeTimer, State.known] at ho
  · by_contra hc
    exact absurd ((hmono o (by simpa using hc)).symm.trans ho) (by decide)

/-! #### `unrefList` -/

lemma makeUnref (l : Linked t ring) : Linked t.makeUnref ring ∧ t.makeUnref.unrefMade = true := by
  unfold State.makeUnref
  by_cases hmade : t.unrefMade = true
  · rw [if_pos hmade]
    exact ⟨l, hmade⟩
  rw [if_neg hmade]
  have hnew : Obj.unrefList ∉ t.heads := by simpa using hmade
  have hring : ring .unrefList = [] := l.outside _ hnew
  have hheads : ∀ o, o ∈ { t with unrefMade := true }.heads ↔
      o ∈ Insert.insert .unrefList t.heads := by
    intro o
    cases o with
    | list n => simp
    | unrefList => simp
    | timeout n => simp [State.heads]
    | item n => simp [State.heads]
  have hrings := l.rings.init_head hnew (l.fresh _ rfl hnew)
  rw [← hring, update_eq_self, ← Set.ext hheads] at hrings
  refine ⟨⟨hrings, fun h hh => l.outside h fun hc => hh ((hheads h).mpr (.inr hc)),
    fun o ho hh => ?_, fun h hh o ho => l.known h (l.mem_heads ho) o ho, l.pending, l.entry, l.shut,
    l.unref, l.isActive, fun who hw => ?_, l.whole⟩, rfl⟩
  · exact Links.next_init (fun hc => hh ((hheads o).mpr (.inl hc)))
      (l.fresh o ho fun hc => hh ((hheads o).mpr (.inr hc)))
  · cases who with
    | list n => exact l.due (.list n) hw
    | unref => rfl

/-- An item that is on no ring comes to `unrefList`. -/
lemma place (l : Linked t ring) (hitem : ∀ h, item ∉ ring h) (hknown : t.known item = true)
    (hdelay : ∃ m, t.idleTimeout item = some m ∧ 0 < m) {L : Links Obj} {xs : List Obj}
    (hrings : Rings L t.heads (update ring .unrefList xs)) (hmade : t.unrefMade = true)
    (hmem : ∀ o, o ∈ xs ↔ o = item ∨ o ∈ ring .unrefList)
    (hnext : ∀ o, t.known o = false → o ∉ t.heads → L.next o = none) :
    Linked { t with links := L } (update ring .unrefList xs) := by
  have hother : ∀ n, update ring .unrefList xs (.list n) = ring (.list n) :=
    fun n => update_of_ne (by simp) _ _
  refine ⟨hrings, fun h hh => ?_, hnext, fun h hh o ho => ?_, fun n o ho => ?_, l.entry,
    fun n hn => by rw [hother]; exact l.shut n hn, fun o ho => ?_, fun o => ?_, l.due, l.whole⟩
  · have hne : h ≠ .unrefList := by
      rintro rfl
      exact hh (State.unrefList_mem_heads.mpr hmade)
    rw [update_of_ne hne]
    exact l.outside h hh
  · by_cases hne : h = .unrefList
    · subst hne
      rw [update_self, hmem] at ho
      rcases ho with rfl | ho
      · exact hknown
      · exact l.known _ hh o ho
    · rw [update_of_ne hne] at ho
      exact l.known h hh o ho
  · rw [hother] at ho
    exact l.pending n o ho
  · rw [update_self, hmem] at ho
    rcases ho with rfl | ho
    · exact hdelay
    · exact l.unref o ho
  · simp only [hother]
    exact l.isActive o

lemma fresh_append (l : Linked t ring) (hknown : t.known item = true) {h : Obj}
    (hh : h ∈ t.heads ∨ t.known h = true) {o : Obj} (ho : t.known o = false) (hho : o ∉ t.heads) :
    (t.links.append h item).next o = none := by
  refine l.rings.links.next_append ?_ ?_ (l.fresh o ho hho)
  · rintro rfl
    exact absurd (hknown.symm.trans ho) (by decide)
  · rintro rfl
    rcases hh with hh | hh
    · exact hho hh
    · exact absurd (hh.symm.trans ho) (by decide)

lemma placeLast (l : Linked t ring) (hitem : ∀ h, item ∉ ring h) (hknown : t.known item = true)
    (hdelay : ∃ m, t.idleTimeout item = some m ∧ 0 < m) (hmade : t.unrefMade = true) :
    Linked { t with links := t.links.append .unrefList item }
      (update ring .unrefList (ring .unrefList ++ [item])) := by
  have hh : Obj.unrefList ∈ t.heads := State.unrefList_mem_heads.mpr hmade
  have hr := l.rings.append (State.notMem_heads (State.known_isItem hknown)) hh
  have hwithout : (fun h => (ring h).erase item) = ring := without_eq hitem
  rw [hwithout, List.erase_of_not_mem (hitem _)] at hr
  exact l.place hitem hknown hdelay hr hmade (fun o => by simp [or_comm])
    fun o ho hho => l.fresh_append hknown (.inl hh) ho hho

lemma placeBefore (l : Linked t ring) (hitem : ∀ h, item ∉ ring h) (hknown : t.known item = true)
    (hdelay : ∃ m, t.idleTimeout item = some m ∧ 0 < m) (hmade : t.unrefMade = true) {cur : Obj}
    {a b : List Obj} (hab : ring .unrefList = a ++ cur :: b) :
    Linked { t with links := t.links.append cur item }
      (update ring .unrefList (a ++ item :: cur :: b)) := by
  have hh : Obj.unrefList ∈ t.heads := State.unrefList_mem_heads.mpr hmade
  have hcur : t.known cur = true := l.known _ hh cur (hab ▸ by simp)
  have hwithout : (fun h => (ring h).erase item) = ring := without_eq hitem
  have hr := l.rings.append_before (State.notMem_heads (State.known_isItem hknown)) hh
    (by rw [List.erase_of_not_mem (hitem _), hab])
  rw [hwithout] at hr
  refine l.place hitem hknown hdelay hr hmade (fun o => ?_)
    fun o ho hho => l.fresh_append hknown (.inr hcur) ho hho
  rw [hab]
  simp only [List.mem_append, List.mem_cons]
  tauto

/-! #### The handlers -/

lemma remove_unref (l : Linked t ring) (hitem : item ∈ ring .unrefList) :
    Linked { t with links := t.links.remove item } (without ring item) := by
  have hknown := l.known _ (l.mem_heads hitem) item hitem
  have hl := l.takeOut (State.known_isItem hknown)
  have hidle : t.isActive item = false := by
    by_contra hc
    obtain ⟨n, hn⟩ := (l.isActive item).mp (by simpa using hc)
    cases l.apart hitem hn
  have hsame : update t.isActive item false = t.isActive := by rw [← hidle, update_eq_self]
  rw [State.takeOut, hsame] at hl
  exact hl

end Linked

/-! ### The frames -/

/-- A frame on top of the stack. -/
def Frame.Ok (t : State) (ring : Obj → List Obj) : Frame → Prop
  | .loop who _ | .calling who _ => t.Has who
  | .walk item cur msecs _ => t.known item = true ∧ (∀ h, item ∉ ring h) ∧
      t.idleTimeout item = some msecs ∧ 0 < msecs ∧ t.unrefMade = true ∧
      (cur = .unrefList ∨ cur ∈ ring .unrefList)

/-- The rings, the frames and what exceptions have left. -/
structure Good (t : State) (ring : Obj → List Obj) : Prop where
  linked : Linked t ring
  top : ∀ f ∈ t.stack.head?, f.Ok t ring
  below : ∀ f ∈ t.stack.tail, ∃ who now, f = .calling who now ∧ t.Has who
  ticks : ∀ who ∈ t.ticks, t.Has who

/-- No frame is added or left, and no handle is lost. -/
structure Plain (t t' : State) : Prop where
  stack : t'.stack = t.stack
  ticks : t'.ticks = t.ticks
  made : t.made ≤ t'.made
  unref : t.unrefMade = true → t'.unrefMade = true

section
variable {t t' : State} {ring ring' : Obj → List Obj} {item : Obj}

/-- The handle whose callback is on top has been made. -/
lemma Good.list_made (g : Good t ring) {n : ℕ} {now : ℚ} {k : List Frame}
    (hs : t.stack = .loop (.list n) now :: k) : n < t.made :=
  g.top (.loop (.list n) now) (by rw [hs]; rfl)

lemma Good.unref_made (g : Good t ring) {now : ℚ} {k : List Frame}
    (hs : t.stack = .loop .unref now :: k) : t.unrefMade = true :=
  g.top (.loop .unref now) (by rw [hs]; rfl)

lemma Good.walk_made (g : Good t ring) {item cur : Obj} {msecs when : ℚ} {k : List Frame}
    (hs : t.stack = .walk item cur msecs when :: k) : t.unrefMade = true := by
  obtain ⟨-, -, -, -, hmade, -⟩ := g.top (.walk item cur msecs when) (by rw [hs]; rfl)
  exact hmade

lemma Plain.rfl : Plain t t := ⟨Eq.refl _, Eq.refl _, le_rfl, id⟩

lemma Plain.trans {t'' : State} (h : Plain t t') (h' : Plain t' t'') : Plain t t'' :=
  ⟨h'.stack.trans h.stack, h'.ticks.trans h.ticks, h.made.trans h'.made, h'.unref ∘ h.unref⟩

lemma Plain.has (h : Plain t t') {who : Who} (hw : t.Has who) : t'.Has who := by
  cases who with
  | list n => exact lt_of_lt_of_le hw h.made
  | unref => exact h.unref hw

lemma plain_insert (t : State) (item : Obj) (msecs : ℚ) : Plain t (t.insert item msecs) := by
  unfold State.insert
  dsimp only
  split_ifs
  · exact ⟨rfl, rfl, le_rfl, id⟩
  · split
    · exact ⟨rfl, rfl, le_rfl, id⟩
    · obtain ⟨due, h⟩ := makeList_eq { t with
        idleStart := update t.idleStart item t.now
        idleTimeout := update t.idleTimeout item (some msecs) } msecs
      rw [h]
      exact ⟨rfl, rfl, Nat.le_succ _, id⟩

lemma plain_active (t : State) (item : Obj) : Plain t (t.active item) := by
  unfold State.active
  split
  · exact .rfl
  · split_ifs
    · split
      · exact plain_insert t item _
      · split_ifs
        · exact plain_insert t item _
        · exact ⟨rfl, rfl, le_rfl, id⟩
    · exact .rfl

lemma plain_unenroll (t : State) (item : Obj) : Plain t (t.unenroll item) := by
  obtain ⟨lists, closed, due, h⟩ := unenroll_eq t item
  rw [h]
  exact ⟨rfl, rfl, le_rfl, id⟩

lemma plain_enroll (t : State) (item : Obj) (msecs : Option ℚ) :
    Plain t (t.enroll item msecs) := by
  unfold State.enroll
  split_ifs
  · exact (plain_unenroll t item).trans ⟨rfl, rfl, le_rfl, id⟩
  · exact ⟨rfl, rfl, le_rfl, id⟩

lemma plain_setTimeout (t : State) (callback domain : Bool) (after : Option ℚ) :
    Plain t (t.setTimeout callback domain after) := by
  have h := plain_active (t.makeTimer callback domain (State.delay after)) (.timeout t.timeouts)
  exact ⟨h.stack, h.ticks, h.made, h.unref⟩

lemma plain_clearTimeout (t : State) (timer : Obj) : Plain t (t.clearTimeout timer) := by
  unfold State.clearTimeout
  dsimp only
  split_ifs
  · have h := plain_unenroll { t with
      log := t.log ++ [Event.cleared timer], onTimeout := update t.onTimeout timer false } timer
    exact ⟨h.stack, h.ticks, h.made, h.unref⟩
  · exact ⟨rfl, rfl, le_rfl, id⟩

lemma plain_makeUnref (t : State) : Plain t t.makeUnref := by
  unfold State.makeUnref
  split_ifs
  · exact .rfl
  · exact ⟨rfl, rfl, le_rfl, fun _ => rfl⟩

/-- `unrefList` that there is stays as it is. -/
lemma makeUnref_eq (t : State) : ∃ links due when, t.makeUnref = { t with
    unrefMade := true, links := links, unrefDue := due, unrefWhen := when } ∧
      (t.unrefMade = true → due = t.unrefDue ∧ when = t.unrefWhen) := by
  unfold State.makeUnref
  split_ifs with h
  · exact ⟨t.links, t.unrefDue, t.unrefWhen, by rw [← h], fun _ => ⟨rfl, rfl⟩⟩
  · exact ⟨_, _, _, rfl, fun hc => absurd hc h⟩

/-- Other code is running. -/
lemma Good.calling (g : Good t ring) (hbusy : t.busy = false) :
    ∀ f ∈ t.stack, ∃ who now, f = .calling who now ∧ t.Has who := by
  intro f hf
  cases hs : t.stack with
  | nil => rw [hs] at hf; cases hf
  | cons f' k =>
    rw [hs] at hf
    rcases List.mem_cons.mp hf with rfl | hf
    · have hok := g.top f (by rw [hs]; rfl)
      cases f with
      | loop who now => simp [State.busy, hs] at hbusy
      | calling who now => exact ⟨who, now, rfl, hok⟩
      | walk item cur msecs when => simp [State.busy, hs] at hbusy
    · exact g.below f (by rw [hs]; exact hf)

/-- What becomes of the stack when only frames of callbacks are left on it. -/
lemma Good.of_calling (l : Linked t' ring')
    (hall : ∀ f ∈ t'.stack, ∃ who now, f = .calling who now ∧ t'.Has who)
    (hticks : ∀ who ∈ t'.ticks, t'.Has who) : Good t' ring' := by
  refine ⟨l, fun f hf => ?_, fun f hf => hall f (List.mem_of_mem_tail hf), hticks⟩
  obtain ⟨who, now, rfl, hw⟩ := hall f (List.mem_of_mem_head? hf)
  exact hw

lemma Good.plain (g : Good t ring) (hbusy : t.busy = false) (l : Linked t' ring')
    (hp : Plain t t') : Good t' ring' := by
  refine .of_calling l (fun f hf => ?_) fun who hw => ?_
  · rw [hp.stack] at hf
    obtain ⟨who, now, hf, hw⟩ := g.calling hbusy f hf
    exact ⟨who, now, hf, hp.has hw⟩
  · rw [hp.ticks] at hw
    exact hp.has (g.ticks who hw)

/-! ### Calls -/

lemma delay_pos (after : Option ℚ) : 0 < State.delay after := by
  unfold State.delay
  split
  · norm_num
  · split_ifs with h
    · linarith [h.1]
    · norm_num

lemma known_makeTimer (t : State) (callback domain : Bool) (after : ℚ) :
    (t.makeTimer callback domain after).known (.timeout t.timeouts) = true := by
  simp [State.makeTimer, State.known]

/-- A new timer is on a list at once. -/
lemma Linked.setTimeout (l : Linked t ring) (callback domain : Bool) (after : Option ℚ) :
    ∃ n, Linked (t.setTimeout callback domain after)
      (behind ring (.list n) (.timeout t.timeouts)) := by
  obtain ⟨hl, -⟩ := l.timer callback domain (State.delay after)
  have hdelay : (t.makeTimer callback domain (State.delay after)).idleTimeout
      (.timeout t.timeouts) = some (State.delay after) := update_self ..
  exact hl.active_of_pos hdelay (delay_pos after).le (known_makeTimer ..)

lemma Linked.clearTimeout (l : Linked t ring) (hitem : item.IsItem) :
    Linked (t.clearTimeout item) ring ∨ Linked (t.clearTimeout item) (without ring item) := by
  unfold State.clearTimeout
  dsimp only
  split_ifs
  · right
    refine Linked.unenroll ?_ hitem
    exact l.idle t.idleStart (update t.onTimeout item false) t.disposed t.unrefWhen t.now t.date
      t.ticks t.stack (t.log ++ [Event.cleared item])
  · left
    exact l.idle t.idleStart t.onTimeout t.disposed t.unrefWhen t.now t.date t.ticks t.stack
      (t.log ++ [Event.cleared item])

/-- What `_unrefActive` can do: nothing, put the item on `unrefList` when that is empty, or begin to
look for its place. -/
inductive Activated (t : State) (ring : Obj → List Obj) (item : Obj) :
    State → (Obj → List Obj) → Prop
  | skip : Activated t ring item t ring
  | alone (t' : State) (msecs : ℚ) (hdelay : t.idleTimeout item = some msecs)
      (hempty : without ring item .unrefList = [])
      (idleStart : t'.idleStart = update t.idleStart item t.date)
      (idleTimeout : t'.idleTimeout = t.idleTimeout) (unrefDue : t'.unrefDue ≠ none)
      (unrefWhen : t'.unrefWhen = t.date + msecs) (stack : t'.stack = t.stack)
      (ticks : t'.ticks = t.ticks) : Activated t ring item t' (behind ring .unrefList item)
  | look (t' : State) (msecs : ℚ) (cur : Obj) (rest : List Obj)
      (hdelay : t.idleTimeout item = some msecs)
      (hring : without ring item .unrefList = cur :: rest)
      (idleStart : t'.idleStart = update t.idleStart item t.date)
      (idleTimeout : t'.idleTimeout = t.idleTimeout) (unrefDue : t'.unrefDue = t.unrefDue)
      (unrefWhen : t'.unrefWhen = t.unrefWhen)
      (stack : t'.stack = .walk item cur msecs (t.date + msecs) :: t.stack)
      (ticks : t'.ticks = t.ticks) : Activated t ring item t' (without ring item)

lemma Good.unrefActive (g : Good t ring) (hbusy : t.busy = false) (hknown : t.known item = true) :
    ∃ ring', Good (t.unrefActive item) ring' ∧
      Activated t ring item (t.unrefActive item) ring' := by
  unfold State.unrefActive
  cases hdelay : t.idleTimeout item with
  | none => exact ⟨ring, g, .skip⟩
  | some msecs =>
    dsimp only
    by_cases hpos : msecs ≤ 0
    · rw [if_pos hpos]
      exact ⟨ring, g, .skip⟩
    rw [if_neg hpos]
    have hplain := plain_makeUnref (t.takeOut item)
    obtain ⟨hl, hmade⟩ := (g.linked.takeOut (State.known_isItem hknown)).makeUnref
    obtain ⟨links, due, when, heq, hold⟩ := makeUnref_eq (t.takeOut item)
    have hl := hl.idle (update (t.takeOut item).makeUnref.idleStart item t.date) t.onTimeout
      t.disposed when t.now t.date t.ticks t.stack t.log
    rw [heq] at hl hplain ⊢
    dsimp only
    have hrest : ∃ m, t.idleTimeout item = some m ∧ 0 < m := ⟨msecs, hdelay, not_le.mp hpos⟩
    have hhead : Obj.unrefList ∈ State.heads { t.takeOut item with
      unrefMade := true, links := links, unrefDue := due, unrefWhen := when } := by simp
    by_cases hempty : links.isEmpty .unrefList
    · rw [if_pos hempty]
      have hp := (hl.placeLast g.linked.takeOut_notMem hknown hrest rfl).startUnref rfl msecs
      exact ⟨behind ring .unrefList item, g.plain hbusy (hp.idle _ t.onTimeout t.disposed
        (t.date + msecs) t.now t.date t.ticks t.stack t.log) ⟨rfl, rfl, le_rfl, fun _ => rfl⟩,
        .alone _ msecs hdelay ((hl.rings.isEmpty_iff hhead).mp hempty) rfl rfl nofun rfl rfl rfl⟩
    · rw [if_neg hempty]
      obtain ⟨cur, rest, hring⟩ := List.exists_cons_of_ne_nil fun hc =>
        hempty ((hl.rings.isEmpty_iff hhead).mpr hc)
      have hpath := hl.rings.path _ hhead
      rw [hring] at hpath
      have hprev : links.prev .unrefList = some cur := hpath.1
      have hmade' : t.unrefMade = true := by
        have hcur : cur ∈ ring .unrefList := mem_of_without (hring ▸ List.mem_cons_self)
        simpa using g.linked.mem_heads hcur
      obtain ⟨rfl, rfl⟩ := hold hmade'
      rw [hprev]
      refine ⟨without ring item, ⟨hl.idle _ t.onTimeout t.disposed t.unrefWhen t.now t.date t.ticks
        _ t.log, ?_, fun f hf => ?_, fun who hw => hplain.has (g.ticks who hw)⟩,
        .look _ msecs cur rest hdelay hring rfl rfl rfl rfl rfl rfl⟩
      · intro f hf
        obtain rfl := Option.some.inj hf
        exact ⟨hknown, g.linked.takeOut_notMem, hdelay, not_le.mp hpos, rfl,
          .inr (hring ▸ List.mem_cons_self)⟩
      · obtain ⟨who, now, hf, hw⟩ := g.calling hbusy f hf
        exact ⟨who, now, hf, hplain.has hw⟩

lemma Good.call (g : Good t ring) (hbusy : t.busy = false) {c : Call}
    (hc : c.item.all t.known = true) : ∃ ring', Good (t.call c) ring' := by
  cases c with
  | setTimeout callback domain after =>
    obtain ⟨n, hl⟩ := g.linked.setTimeout callback domain after
    exact ⟨_, g.plain hbusy hl (plain_setTimeout ..)⟩
  | clearTimeout o =>
    rcases g.linked.clearTimeout (State.known_isItem hc) with hl | hl
    · exact ⟨_, g.plain hbusy hl (plain_clearTimeout ..)⟩
    · exact ⟨_, g.plain hbusy hl (plain_clearTimeout ..)⟩
  | enroll o msecs => exact ⟨_, g.plain hbusy (g.linked.enroll hc msecs) (plain_enroll ..)⟩
  | active o =>
    rcases g.linked.active hc with hsame | ⟨n, hl⟩
    · exact ⟨ring, by rw [State.call, hsame]; exact g⟩
    · exact ⟨_, g.plain hbusy hl (plain_active ..)⟩
  | unenroll o =>
    exact ⟨_, g.plain hbusy (g.linked.unenroll (State.known_isItem hc)) (plain_unenroll ..)⟩
  | unrefActive o =>
    obtain ⟨ring', hg, -⟩ := g.unrefActive hbusy hc
    exact ⟨ring', hg⟩
  | assign o callback =>
    exact ⟨ring, g.plain hbusy (g.linked.idle t.idleStart _ t.disposed t.unrefWhen t.now t.date
      t.ticks t.stack t.log) ⟨rfl, rfl, le_rfl, id⟩⟩
  | dispose o =>
    exact ⟨ring, g.plain hbusy (g.linked.idle t.idleStart t.onTimeout _ t.unrefWhen t.now t.date
      t.ticks t.stack t.log) ⟨rfl, rfl, le_rfl, id⟩⟩

/-! ### Rounds -/

/-- The frame on top is done with a round. -/
lemma Good.round (g : Good t ring) {f : Frame} {k : List Frame} (hs : t.stack = f :: k)
    (l : Linked t' ring') (hp : t.made ≤ t'.made) (hu : t.unrefMade = true → t'.unrefMade = true)
    (hticks : t'.ticks = t.ticks)
    (hstack : t'.stack = k ∨ ∃ f', t'.stack = f' :: k ∧ f'.Ok t' ring') : Good t' ring' := by
  have hplain : ∀ {who : Who}, t.Has who → t'.Has who := by
    intro who hw
    cases who with
    | list n => exact lt_of_lt_of_le hw hp
    | unref => exact hu hw
  have hbelow : ∀ f ∈ k, ∃ who now, f = .calling who now ∧ t'.Has who := by
    intro f hf
    obtain ⟨who, now, hf, hw⟩ := g.below f (by rw [hs]; exact hf)
    exact ⟨who, now, hf, hplain hw⟩
  have hticks' : ∀ who ∈ t'.ticks, t'.Has who := by
    intro who hw
    rw [hticks] at hw
    exact hplain (g.ticks who hw)
  rcases hstack with hk | ⟨f', hk, hok⟩
  · exact .of_calling l (by rw [hk]; exact hbelow) hticks'
  · refine ⟨l, fun f hf => ?_, by rw [hk]; exact hbelow, hticks'⟩
    rw [hk] at hf
    obtain rfl := Option.some.inj hf
    exact hok

lemma callback_eq (t : State) (who : Who) (now : ℚ) (first : Obj) (k : List Frame) :
    ∃ f log, t.callback who now first k = { t with stack := f :: k, log := log } ∧
      (f = .calling who now ∨ f = .loop who now) := by
  unfold State.callback
  split_ifs
  · exact ⟨_, _, rfl, .inl rfl⟩
  · exact ⟨_, _, rfl, .inr rfl⟩

/-- The item that has been taken out, and its callback. -/
lemma Good.callback (g : Good t ring) {f : Frame} {k : List Frame} (hs : t.stack = f :: k)
    (l : Linked t' ring') (hp : t.made ≤ t'.made) (hu : t.unrefMade = true → t'.unrefMade = true)
    (hticks : t'.ticks = t.ticks) (who : Who) (hw : t'.Has who) (now : ℚ) (first : Obj) :
    Good (t'.callback who now first k) ring' := by
  obtain ⟨f', log, heq, hf⟩ := callback_eq t' who now first k
  rw [heq]
  refine g.round hs (l.idle t'.idleStart t'.onTimeout t'.disposed t'.unrefWhen t'.now t'.date
    t'.ticks (f' :: k) log) hp hu hticks (.inr ⟨f', rfl, ?_⟩)
  rcases hf with rfl | rfl
  · exact hw
  · exact hw

/-- What a round of `listOnTimeout` can be. -/
inductive ListRound (t : State) (ring : Obj → List Obj) (n : ℕ) (now : ℚ) (k : List Frame) :
    State → Prop
  | finish (hring : ring (.list n) = []) :
      ListRound t ring n now k { (t.close n).deleteList (t.msecs n) with stack := k }
  | wait (first : Obj) (rest : List Obj) (hring : ring (.list n) = first :: rest)
      (hdiff : now - t.idleStart first < t.msecs n) :
      ListRound t ring n now k
        { t.startList n (t.msecs n - (now - t.idleStart first)) with stack := k }
  | take (first : Obj) (rest : List Obj) (hring : ring (.list n) = first :: rest)
      (hdiff : ¬ now - t.idleStart first < t.msecs n) :
      ListRound t ring n now k ((t.takeOut first).callback (.list n) now first k)

lemma Linked.listOnTimeout (l : Linked t ring) {n : ℕ} (hn : n < t.made) (now : ℚ)
    (k : List Frame) : ListRound t ring n now k (t.listOnTimeout n now k) := by
  have hhead : Obj.list n ∈ t.heads := by simpa using hn
  unfold State.listOnTimeout
  rw [l.rings.peek hhead]
  cases hring : ring (.list n) with
  | nil =>
    dsimp only [List.head?_nil]
    rw [Linked.assert_true (decide_eq_true ((l.rings.isEmpty_iff hhead).mpr hring))]
    exact .finish hring
  | cons first rest =>
    dsimp only [List.head?_cons]
    by_cases hdiff : now - t.idleStart first < t.msecs n
    · rw [if_pos hdiff]
      exact .wait first rest hring hdiff
    · have hmem : first ∈ ring (.list n) := hring ▸ List.mem_cons_self
      have hl := l.takeOut (State.known_isItem (l.known _ hhead first hmem))
      rw [if_neg hdiff, Linked.assert_true (decide_eq_true ?_)]
      · exact .take first rest hring hdiff
      · rw [Ne, hl.rings.peek hhead]
        exact fun hc => l.takeOut_notMem _ (List.mem_of_head? hc)

lemma Good.finish (g : Good t ring) {n : ℕ} {now : ℚ} {k : List Frame}
    (hs : t.stack = .loop (.list n) now :: k) (hring : ring (.list n) = []) :
    Good { (t.close n).deleteList (t.msecs n) with stack := k } ring := by
  have hn := g.list_made hs
  have hl : Linked ((t.close n).deleteList (t.msecs n)) ring :=
    g.linked.closeList hn hring (.inr rfl)
  exact g.round hs (hl.idle t.idleStart t.onTimeout t.disposed t.unrefWhen t.now t.date t.ticks k
    t.log) le_rfl id rfl (.inl rfl)

lemma Good.wait (g : Good t ring) {n : ℕ} {now : ℚ} {k : List Frame}
    (hs : t.stack = .loop (.list n) now :: k) (msecs : ℚ) :
    Good { t.startList n msecs with stack := k } ring := by
  have hn := g.list_made hs
  have hl := g.linked.startList hn msecs
  obtain ⟨due, heq⟩ := startList_eq t n msecs
  rw [heq] at hl ⊢
  exact g.round hs (hl.idle t.idleStart t.onTimeout t.disposed t.unrefWhen t.now t.date t.ticks k
    t.log) le_rfl id rfl (.inl rfl)

lemma Good.take (g : Good t ring) {n : ℕ} {now : ℚ} {k : List Frame}
    (hs : t.stack = .loop (.list n) now :: k) {first : Obj} {rest : List Obj}
    (hring : ring (.list n) = first :: rest) :
    Good ((t.takeOut first).callback (.list n) now first k) (without ring first) := by
  have hn := g.list_made hs
  have hmem : first ∈ ring (.list n) := hring ▸ List.mem_cons_self
  have hl := g.linked.takeOut
    (State.known_isItem (g.linked.known _ (g.linked.mem_heads hmem) first hmem))
  exact g.callback hs hl le_rfl id rfl (.list n) hn now first

/-- What a round of `unrefTimeout` can be. -/
inductive UnrefRound (t : State) (ring : Obj → List Obj) (now : ℚ) (k : List Frame) : State → Prop
  | finish (hring : ring .unrefList = []) :
      UnrefRound t ring now k { t with unrefWhen := -1, stack := k }
  | wait (first : Obj) (rest : List Obj) (hring : ring .unrefList = first :: rest) (m : ℚ)
      (hdelay : t.idleTimeout first = some m) (hdiff : now - t.idleStart first < m) :
      UnrefRound t ring now k
        { t.startUnref (m - (now - t.idleStart first)) with
          unrefWhen := now + (m - (now - t.idleStart first)), stack := k }
  | take (first : Obj) (rest : List Obj) (hring : ring .unrefList = first :: rest) :
      UnrefRound t ring now k
        ({ t with links := t.links.remove first }.callback .unref now first k)

lemma Linked.unrefTimeout (l : Linked t ring) (hmade : t.unrefMade = true) (now : ℚ)
    (k : List Frame) : UnrefRound t ring now k (t.unrefTimeout now k) := by
  unfold State.unrefTimeout
  rw [l.rings.peek (State.unrefList_mem_heads.mpr hmade)]
  cases hring : ring .unrefList with
  | nil => exact .finish hring
  | cons first rest =>
    dsimp only [List.head?_cons]
    cases hfilter : (t.idleTimeout first).filter (now - t.idleStart first < ·) with
    | some m =>
      rw [Option.filter_eq_some_iff] at hfilter
      exact .wait first rest hring m hfilter.1 (by simpa using hfilter.2)
    | none => exact .take first rest hring

lemma Good.unrefTimeout (g : Good t ring) {now : ℚ} {k : List Frame}
    (hs : t.stack = .loop .unref now :: k) {t' : State} (hr : UnrefRound t ring now k t') :
    Good t' ring ∨ ∃ first rest, ring .unrefList = first :: rest ∧
      Good t' (without ring first) := by
  have hmade := g.unref_made hs
  cases hr with
  | finish hring =>
    left
    exact g.round hs (g.linked.idle t.idleStart t.onTimeout t.disposed (-1) t.now t.date t.ticks k
      t.log) le_rfl id rfl (.inl rfl)
  | wait first rest hring m hdelay hdiff =>
    left
    have hl := g.linked.startUnref hmade (m - (now - t.idleStart first))
    exact g.round hs (hl.idle t.idleStart t.onTimeout t.disposed _ t.now t.date t.ticks k t.log)
      le_rfl id rfl (.inl rfl)
  | take first rest hring =>
    right
    have hmem : first ∈ ring .unrefList := hring ▸ List.mem_cons_self
    exact ⟨first, rest, hring, g.callback hs (g.linked.remove_unref hmem) le_rfl id rfl .unref
      hmade now first⟩

/-- What a round of the walk can do: put the item last, or before another one, or go on. -/
inductive Walked (t : State) (ring : Obj → List Obj) (item cur : Obj) (msecs when : ℚ)
    (k : List Frame) : State → (Obj → List Obj) → Prop
  | last (links : Links Obj) (hend : cur = .unrefList) :
      Walked t ring item cur msecs when k { t with links := links, stack := k }
        (update ring .unrefList (ring .unrefList ++ [item]))
  | before (links : Links Obj) (a b : List Obj) (hab : ring .unrefList = a ++ cur :: b) (m : ℚ)
      (hdelay : t.idleTimeout cur = some m) (hlater : when < t.idleStart cur + m) (due : Option ℚ)
      (next : ℚ) (hnext : when < t.unrefWhen ∧ due ≠ none ∧ next = when ∨
        ¬ when < t.unrefWhen ∧ due = t.unrefDue ∧ next = t.unrefWhen) :
      Walked t ring item cur msecs when k
        { t with links := links, unrefDue := due, unrefWhen := next, stack := k }
        (update ring .unrefList (a ++ item :: cur :: b))
  | further (a b : List Obj) (hab : ring .unrefList = a ++ cur :: b)
      (hnot : ∀ m, t.idleTimeout cur = some m → ¬ when < t.idleStart cur + m) (cur' : Obj)
      (hcur' : (b ++ [Obj.unrefList]).head? = some cur') :
      Walked t ring item cur msecs when k { t with stack := .walk item cur' msecs when :: k } ring

lemma Good.walk (g : Good t ring) {item cur : Obj} {msecs when : ℚ} {k : List Frame}
    (hs : t.stack = .walk item cur msecs when :: k) :
    ∃ ring', Good (t.walk item cur msecs when k) ring' ∧
      Walked t ring item cur msecs when k (t.walk item cur msecs when k) ring' := by
  obtain ⟨hknown, hitem, hdelay, hpos, hmade, hcur⟩ :=
    g.top (.walk item cur msecs when) (by rw [hs]; rfl)
  have hrest : ∃ m, t.idleTimeout item = some m ∧ 0 < m := ⟨msecs, hdelay, hpos⟩
  have hhead : Obj.unrefList ∈ t.heads := by simpa using hmade
  unfold State.walk
  by_cases hend : cur = .unrefList
  · rw [if_pos hend]
    have hl := g.linked.placeLast hitem hknown hrest hmade
    exact ⟨_, g.round hs (hl.idle t.idleStart t.onTimeout t.disposed t.unrefWhen t.now t.date
      t.ticks k t.log) le_rfl id rfl (.inl rfl), .last _ hend⟩
  rw [if_neg hend]
  obtain ⟨a, b, hab⟩ := List.append_of_mem (hcur.resolve_left hend)
  by_cases hlater : (t.idleTimeout cur).any
      fun timeout => decide (when < t.idleStart cur + timeout)
  · rw [if_pos hlater]
    rw [Option.any_eq_true] at hlater
    obtain ⟨m, hm, hlater⟩ := hlater
    have hl := g.linked.placeBefore hitem hknown hrest hmade hab
    dsimp only
    by_cases hwhen : when < t.unrefWhen
    · rw [if_pos hwhen]
      have hl := hl.startUnref hmade msecs
      exact ⟨_, g.round hs (hl.idle t.idleStart t.onTimeout t.disposed when t.now t.date t.ticks k
        t.log) le_rfl id rfl (.inl rfl), .before _ a b hab m hm (of_decide_eq_true hlater) _ _
        (.inl ⟨hwhen, nofun, rfl⟩)⟩
    · rw [if_neg hwhen]
      exact ⟨_, g.round hs (hl.idle t.idleStart t.onTimeout t.disposed t.unrefWhen t.now t.date
        t.ticks k t.log) le_rfl id rfl (.inl rfl),
        .before _ a b hab m hm (of_decide_eq_true hlater) _ _ (.inr ⟨hwhen, rfl, rfl⟩)⟩
  · rw [if_neg hlater]
    have hnot : ∀ m, t.idleTimeout cur = some m → ¬ when < t.idleStart cur + m := by
      intro m hm hc
      rw [hm] at hlater
      exact hlater (decide_eq_true hc)
    have hpath := g.linked.rings.path _ hhead
    rw [hab, path_append] at hpath
    obtain ⟨cur', hcur', hprev, hok⟩ : ∃ cur', (b ++ [Obj.unrefList]).head? = some cur' ∧
        t.links.prev cur = some cur' ∧ (cur' = .unrefList ∨ cur' ∈ b) := by
      cases b with
      | nil => exact ⟨.unrefList, rfl, hpath.2, .inl rfl⟩
      | cons y b => exact ⟨y, rfl, hpath.2.1, .inr List.mem_cons_self⟩
    rw [hprev]
    have hok' : cur' = .unrefList ∨ cur' ∈ ring .unrefList :=
      hok.imp_right fun h => hab ▸ List.mem_append_right a (List.mem_cons_of_mem _ h)
    exact ⟨ring, g.round hs (g.linked.idle t.idleStart t.onTimeout t.disposed t.unrefWhen t.now
      t.date t.ticks _ t.log) le_rfl id rfl
      (.inr ⟨_, rfl, hknown, hitem, hdelay, hpos, hmade, hok'⟩), .further a b hab hnot cur' hcur'⟩

/-! ### Steps -/

lemma Good.enter (g : Good t ring) (hbusy : t.busy = false) {who : Who} (hw : t.Has who) :
    Good (t.enter who) ring := by
  refine ⟨g.linked.idle t.idleStart t.onTimeout t.disposed t.unrefWhen t.now t.date t.ticks _ t.log,
    fun f hf => ?_, g.calling hbusy, g.ticks⟩
  obtain rfl := Option.some.inj hf
  exact hw

lemma Linked.stop (l : Linked t ring) (who : Who) : Linked (t.stop who) ring := by
  have hdue : ∀ w, (t.stop who).dueOf w ≠ none → t.dueOf w ≠ none := by
    intro w hw hc
    apply hw
    cases who with
    | list n =>
      cases w with
      | list k =>
        simp only [State.stop, State.dueOf, update_apply] at hc ⊢
        split_ifs
        · rfl
        · exact hc
      | unref => exact hc
    | unref =>
      cases w with
      | list k => exact hc
      | unref => rfl
  cases who with
  | list n =>
    exact ⟨l.rings, l.outside, l.fresh, l.known, l.pending, l.entry, l.shut, l.unref, l.isActive,
      fun w hw => by cases w <;> exact l.due _ (hdue _ hw), l.whole⟩
  | unref =>
    exact ⟨l.rings, l.outside, l.fresh, l.known, l.pending, l.entry, l.shut, l.unref, l.isActive,
      fun w hw => by cases w <;> exact l.due _ (hdue _ hw), l.whole⟩

/-- What a step can be. -/
inductive Stepped (t : State) : Act → State → Prop
  | call (c : Call) (hbusy : t.busy = false) (hknown : c.item.all t.known = true) :
      Stepped t (.call c) (t.call c)
  | fire (who : Who) (hstack : t.stack = []) (hdue : t.dueOf who ≠ none) :
      Stepped t (.fire who) ((t.stop who).enter who)
  | tick (who : Who) (ticks : List Who) (hbusy : t.busy = false) (hticks : t.ticks = who :: ticks) :
      Stepped t .tick ({ t with ticks := ticks }.enter who)
  | list (n : ℕ) (now : ℚ) (k : List Frame) (hs : t.stack = .loop (.list n) now :: k) :
      Stepped t .iterate (t.listOnTimeout n now k)
  | unref (now : ℚ) (k : List Frame) (hs : t.stack = .loop .unref now :: k) :
      Stepped t .iterate (t.unrefTimeout now k)
  | walk (item cur : Obj) (msecs when : ℚ) (k : List Frame)
      (hs : t.stack = .walk item cur msecs when :: k) :
      Stepped t .iterate (t.walk item cur msecs when k)
  | ret (who : Who) (now : ℚ) (k : List Frame) (hs : t.stack = .calling who now :: k) :
      Stepped t .ret { t with stack := .loop who now :: k }
  | throw (who : Who) (now : ℚ) (k : List Frame) (hs : t.stack = .calling who now :: k) :
      Stepped t .throw { t with stack := k, ticks := t.ticks ++ [who] }
  | elapse (d e : ℚ) (hd : 0 ≤ d) (he : 0 ≤ e) :
      Stepped t (.elapse d e) { t with now := t.now + d, date := t.date + e }

lemma step_cases {a : Act} (h : step t a = some t') : Stepped t a t' := by
  cases a with
  | call c =>
    rw [step] at h
    split_ifs at h with hc
    obtain rfl := Option.some.inj h
    simp only [Bool.or_eq_true, Bool.not_eq_true', not_or, Bool.not_eq_true] at hc
    exact .call c hc.1 (by simpa using hc.2)
  | fire who =>
    rw [step] at h
    split_ifs at h with hc
    obtain rfl := Option.some.inj h
    refine .fire who hc.1 fun hnone => ?_
    rw [hnone] at hc
    simp at hc
  | tick =>
    rw [step] at h
    split at h
    · rename_i who ticks hbusy hticks
      obtain rfl := Option.some.inj h
      exact .tick who ticks hbusy hticks
    · cases h
  | iterate =>
    rw [step] at h
    split at h
    · rename_i n now k hs
      obtain rfl := Option.some.inj h
      exact .list n now k hs
    · rename_i now k hs
      obtain rfl := Option.some.inj h
      exact .unref now k hs
    · rename_i item cur msecs when k hs
      obtain rfl := Option.some.inj h
      exact .walk item cur msecs when k hs
    · cases h
  | ret =>
    rw [step] at h
    split at h
    · rename_i who now k hs
      obtain rfl := Option.some.inj h
      exact .ret who now k hs
    · cases h
  | throw =>
    rw [step] at h
    split at h
    · rename_i who now k hs
      obtain rfl := Option.some.inj h
      exact .throw who now k hs
    · cases h
  | elapse d e =>
    rw [step] at h
    split_ifs at h with hc
    obtain rfl := Option.some.inj h
    exact .elapse d e hc.1 hc.2

/-- Neither a call nor a round. -/
def Act.Idle : Act → Prop
  | .call _ | .iterate => False
  | _ => True

lemma stop_eq (t : State) (who : Who) :
    ∃ due unrefDue, t.stop who = { t with due := due, unrefDue := unrefDue } := by
  cases who with
  | list n => exact ⟨_, _, rfl⟩
  | unref => exact ⟨_, _, rfl⟩

/-- A step that is neither touches the handles, the frames and the clocks. -/
lemma Stepped.idle_eq {a : Act} (hs : Stepped t a t') (ha : a.Idle) :
    ∃ due unrefDue now date ticks stack, t.now ≤ now ∧ t' = { t with
      due := due, unrefDue := unrefDue, now := now, date := date, ticks := ticks
      stack := stack } := by
  cases hs with
  | call => exact ha.elim
  | list => exact ha.elim
  | unref => exact ha.elim
  | walk => exact ha.elim
  | fire who hstack hdue =>
    obtain ⟨due, unrefDue, heq⟩ := stop_eq t who
    rw [heq]
    exact ⟨_, _, _, _, _, _, le_rfl, rfl⟩
  | tick who ticks => exact ⟨_, _, _, _, _, _, le_rfl, rfl⟩
  | ret who now k hs => exact ⟨_, _, _, _, _, _, le_rfl, rfl⟩
  | throw who now k hs => exact ⟨_, _, _, _, _, _, le_rfl, rfl⟩
  | elapse d e hd he => exact ⟨_, _, _, _, _, _, by linarith, rfl⟩

/-- Such a step leaves the rings as they are. -/
lemma Good.idle (g : Good t ring) {a : Act} (hs : Stepped t a t') (ha : a.Idle) :
    Good t' ring := by
  cases hs with
  | call => exact ha.elim
  | list => exact ha.elim
  | unref => exact ha.elim
  | walk => exact ha.elim
  | fire who hstack hdue =>
    have hw := g.linked.due who hdue
    have hg : Good (t.stop who) ring := g.plain (by rw [State.busy, hstack]) (g.linked.stop who)
      (by cases who <;> exact ⟨rfl, rfl, le_rfl, id⟩)
    refine hg.enter ?_ ?_
    · cases who <;> rw [State.busy, State.stop, hstack]
    · cases who <;> exact hw
  | tick who ticks hbusy hticks =>
    have hw := g.ticks who (hticks ▸ List.mem_cons_self)
    have hg : Good { t with ticks := ticks } ring := by
      refine ⟨g.linked.idle t.idleStart t.onTimeout t.disposed t.unrefWhen t.now t.date ticks
        t.stack t.log, fun f hf => ?_, g.below, fun w hw => ?_⟩
      · have hok := g.top f hf
        cases f <;> exact hok
      · have := g.ticks w (hticks ▸ List.mem_cons_of_mem _ hw)
        cases w <;> exact this
    refine hg.enter hbusy ?_
    cases who <;> exact hw
  | ret who now k hs =>
    have hw : t.Has who := g.top (.calling who now) (by rw [hs]; rfl)
    refine g.round hs (g.linked.idle t.idleStart t.onTimeout t.disposed t.unrefWhen t.now
      t.date t.ticks _ t.log) le_rfl id rfl (.inr ⟨_, rfl, ?_⟩)
    cases who <;> exact hw
  | throw who now k hs =>
    have hw : t.Has who := g.top (.calling who now) (by rw [hs]; rfl)
    have hl := g.linked.idle t.idleStart t.onTimeout t.disposed t.unrefWhen t.now t.date
      (t.ticks ++ [who]) k t.log
    refine .of_calling hl (fun f hf => ?_) fun w hmem => ?_
    · obtain ⟨w, n, hf, hw⟩ := g.below f (by rw [hs]; exact hf)
      exact ⟨w, n, hf, by cases w <;> exact hw⟩
    · rcases List.mem_append.mp hmem with hmem | hmem
      · have := g.ticks w hmem
        cases w <;> exact this
      · obtain rfl := List.mem_singleton.mp hmem
        cases w <;> exact hw
  | elapse d e hd he =>
    have hl := g.linked.idle t.idleStart t.onTimeout t.disposed t.unrefWhen (t.now + d) (t.date + e)
      t.ticks t.stack t.log
    refine ⟨hl, fun f hf => ?_, fun f hf => ?_, fun w hw => ?_⟩
    · have hok := g.top f hf
      cases f <;> exact hok
    · obtain ⟨w, n, hf, hw⟩ := g.below f hf
      exact ⟨w, n, hf, by cases w <;> exact hw⟩
    · have := g.ticks w hw
      cases w <;> exact this

/-- **One step.** -/
theorem Good.step (g : Good t ring) {a : Act} (hs : Stepped t a t') : ∃ ring', Good t' ring' := by
  have hidle := hs
  cases hs with
  | call c hbusy hknown => exact g.call hbusy hknown
  | list n now k hs =>
    have hn := g.list_made hs
    have hround := g.linked.listOnTimeout hn now k
    revert hround
    generalize t.listOnTimeout n now k = t'
    intro hround
    cases hround with
    | finish hring => exact ⟨_, g.finish hs hring⟩
    | wait first rest hring hdiff => exact ⟨_, g.wait hs _⟩
    | take first rest hring hdiff => exact ⟨_, g.take hs hring⟩
  | unref now k hs =>
    have hmade := g.unref_made hs
    rcases g.unrefTimeout hs (g.linked.unrefTimeout hmade now k) with hg | ⟨first, rest, -, hg⟩
    · exact ⟨_, hg⟩
    · exact ⟨_, hg⟩
  | walk item cur msecs when k hs =>
    obtain ⟨ring', hg, -⟩ := g.walk hs
    exact ⟨ring', hg⟩
  | fire => exact ⟨ring, g.idle hidle trivial⟩
  | tick => exact ⟨ring, g.idle hidle trivial⟩
  | ret => exact ⟨ring, g.idle hidle trivial⟩
  | throw => exact ⟨ring, g.idle hidle trivial⟩
  | elapse => exact ⟨ring, g.idle hidle trivial⟩

lemma good_start : Good start fun _ => [] := by
  have hheads : start.heads = ∅ := by
    ext o
    cases o <;> simp [State.heads, start]
  refine .of_calling ⟨?_, fun _ _ => rfl, fun _ _ _ => rfl, ?_, nofun, nofun, nofun, nofun, ?_, ?_,
    rfl⟩ nofun nofun
  · rw [hheads]
    exact rings_unlinked
  · intro h hh
    simp
  · intro o
    simp [start]
  · intro who hw
    cases who <;> exact absurd rfl hw

end

end NodeCore.Timers
