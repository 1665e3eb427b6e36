import NodeCore.TimersRings

/-!
The table of the lists. A list is closed as soon as it is empty, also while its `listOnTimeout` runs
or is still to run; what that does at its end is meant for its own place in the table.
-/

namespace NodeCore.Timers

open NodeCore.Linklist NodeCore.Reentrant Function

/-! ### The claim -/

/-- **What is claimed** of a state. -/
structure Sound (t : State) : Prop where
  single : ∀ n < t.made, ∀ k < t.made, t.closed n = false → t.closed k = false →
    t.msecs n = t.msecs k → n = k
  linked : ∀ o, t.isActive o = true → ∃ msecs n, t.idleTimeout o = some msecs ∧
    t.lists msecs = some n ∧ ∀ k, On t k o ↔ k = n

/-- **What is claimed** of a step: the list whose place is cleared is empty. -/
def Kept (t t' : State) : Prop :=
  ∀ msecs n, t.lists msecs = some n → t'.lists msecs ≠ some n → Ring t'.links (.list n) []

/-- If it is `listOnTimeout` that goes on, and its list has been closed, there is no other list for
its delay. -/
def GoesOn (t : State) : List Frame → Prop
  | .loop (.list n) _ :: _ => t.closed n = true → t.lists (t.msecs n) = none
  | _ => True

/-- **The condition on a step.** -/
def Ok (t : State) : Act → Prop
  | .iterate => GoesOn t t.stack
  | _ => True

instance (t : State) (a : Act) : Decidable (Ok t a) := by
  unfold Ok GoesOn
  split
  · split <;> infer_instance
  · infer_instance

/-! ### The table -/

/-- What may become of the table. -/
inductive Table (t t' : State) : Prop
  | same (lists : t'.lists = t.lists) (made : t'.made = t.made) (msecs : t'.msecs = t.msecs)
      (closed : t'.closed = t.closed)
  | new (m : ℚ) (none : t.lists m = none) (lists : t'.lists = update t.lists m (some t.made))
      (made : t'.made = t.made + 1) (msecs : t'.msecs = update t.msecs t.made m)
      (closed : t'.closed = t.closed)
  | shut (m : ℚ) (n : ℕ) (mine : t.lists m = some n) (lists : t'.lists = update t.lists m none)
      (made : t'.made = t.made) (msecs : t'.msecs = t.msecs)
      (closed : t'.closed = update t.closed n true)

section
variable {t t' : State} {ring ring' : Obj → List Obj}

lemma table_insert (t : State) (item : Obj) (msecs : ℚ) : Table t (t.insert item msecs) := by
  unfold State.insert
  dsimp only
  split_ifs
  · exact .same rfl rfl rfl rfl
  · split
    · exact .same rfl rfl rfl rfl
    · rename_i hnone
      obtain ⟨due, h⟩ := makeList_eq { t with
        idleStart := update t.idleStart item t.now
        idleTimeout := update t.idleTimeout item (some msecs) } msecs
      rw [h]
      exact .new msecs hnone rfl rfl rfl rfl

lemma table_active (t : State) (item : Obj) : Table t (t.active item) := by
  unfold State.active
  split
  · exact .same rfl rfl rfl rfl
  · split_ifs
    · split
      · exact table_insert t item _
      · split_ifs
        · exact table_insert t item _
        · exact .same rfl rfl rfl rfl
    · exact .same rfl rfl rfl rfl

lemma table_stopEmpty (t : State) (msecs : Option ℚ) : Table t (t.stopEmpty msecs) := by
  unfold State.stopEmpty
  split
  · exact .same rfl rfl rfl rfl
  · split
    · exact .same rfl rfl rfl rfl
    · rename_i n hn
      split_ifs
      · exact .shut _ n hn rfl rfl rfl rfl
      · exact .same rfl rfl rfl rfl

/-- What else a function does has nothing to do with the table. -/
lemma Table.of_eq {u u' : State} (h : Table u u') (hlists : u.lists = t.lists)
    (hmade : u.made = t.made) (hmsecs : u.msecs = t.msecs) (hclosed : u.closed = t.closed)
    (hlists' : t'.lists = u'.lists) (hmade' : t'.made = u'.made) (hmsecs' : t'.msecs = u'.msecs)
    (hclosed' : t'.closed = u'.closed) : Table t t' := by
  cases h with
  | same lists made msecs closed =>
    exact .same (hlists'.trans (lists.trans hlists)) (hmade'.trans (made.trans hmade))
      (hmsecs'.trans (msecs.trans hmsecs)) (hclosed'.trans (closed.trans hclosed))
  | new m none lists made msecs closed =>
    refine .new m (hlists ▸ none) (hlists'.trans ?_) (hmade'.trans ?_) (hmsecs'.trans ?_)
      (hclosed'.trans (closed.trans hclosed))
    · rw [lists, hlists, hmade]
    · rw [made, hmade]
    · rw [msecs, hmsecs, hmade]
  | shut m n mine lists made msecs closed =>
    refine .shut m n (hlists ▸ mine) (hlists'.trans ?_) (hmade'.trans (made.trans hmade))
      (hmsecs'.trans (msecs.trans hmsecs)) (hclosed'.trans ?_)
    · rw [lists, hlists]
    · rw [closed, hclosed]

lemma table_unenroll (t : State) (item : Obj) : Table t (t.unenroll item) :=
  (table_stopEmpty (t.takeOut item) (t.idleTimeout item)).of_eq rfl rfl rfl rfl rfl rfl rfl rfl

lemma table_call (t : State) (c : Call) : Table t (t.call c) := by
  cases c with
  | setTimeout callback domain after =>
    exact (table_active (t.makeTimer callback domain (State.delay after)) _).of_eq rfl rfl rfl rfl
      rfl rfl rfl rfl
  | clearTimeout o =>
    simp only [State.call, State.clearTimeout]
    split_ifs
    · exact (table_unenroll { t with
        log := t.log ++ [Event.cleared o], onTimeout := update t.onTimeout o false } o).of_eq
          rfl rfl rfl rfl rfl rfl rfl rfl
    · exact .same rfl rfl rfl rfl
  | enroll o msecs =>
    simp only [State.call, State.enroll]
    split_ifs
    · exact (table_unenroll t o).of_eq rfl rfl rfl rfl rfl rfl rfl rfl
    · exact .same rfl rfl rfl rfl
  | active o => exact table_active t o
  | unenroll o => exact table_unenroll t o
  | unrefActive o =>
    obtain ⟨links, due, when, heq, -⟩ := makeUnref_eq (t.takeOut o)
    simp only [State.call, State.unrefActive, heq]
    split
    · exact .same rfl rfl rfl rfl
    · split_ifs
      · exact .same rfl rfl rfl rfl
      · exact .same rfl rfl rfl rfl
      · split
        · exact .same rfl rfl rfl rfl
        · exact .same rfl rfl rfl rfl
  | assign o callback => exact .same rfl rfl rfl rfl
  | dispose o => exact .same rfl rfl rfl rfl

/-! ### Lists that are open -/

/-- A list with a handle has its place in the table. -/
def Listed (t : State) : Prop := ∀ n < t.made, t.closed n = false → t.lists (t.msecs n) = some n

lemma Table.listed (h : Table t t') (hl : Listed t) : Listed t' := by
  intro n hn hopen
  cases h with
  | same lists made msecs closed =>
    rw [lists, msecs]
    exact hl n (made ▸ hn) (closed ▸ hopen)
  | new m none lists made msecs closed =>
    rw [lists, msecs]
    rcases Nat.lt_succ_iff_lt_or_eq.mp (made ▸ hn) with hlt | rfl
    · have hmine := hl n hlt (closed ▸ hopen)
      rw [update_of_ne hlt.ne, update_of_ne, hmine]
      rintro rfl
      rw [none] at hmine
      cases hmine
    · rw [update_self, update_self]
  | shut m k mine lists made msecs closed =>
    have hnk : n ≠ k := by
      rintro rfl
      rw [closed, update_self] at hopen
      cases hopen
    rw [closed, update_of_ne hnk] at hopen
    have hmine := hl n (made ▸ hn) hopen
    rw [lists, msecs, update_of_ne, hmine]
    rintro rfl
    exact hnk (Option.some.inj (hmine.symm.trans mine))

lemma Table.kept (h : Table t t') (l : Linked t' ring') : Kept t t' := by
  intro m n hm hm'
  cases h with
  | same lists => exact absurd (lists ▸ hm) hm'
  | new m' none lists made msecs closed =>
    rw [lists, update_of_ne] at hm'
    · exact absurd hm hm'
    · rintro rfl
      rw [none] at hm
      cases hm
  | shut m' k mine lists made msecs closed =>
    by_cases hmm : m = m'
    · subst hmm
      obtain rfl := Option.some.inj (mine.symm.trans hm)
      have hclosed : t'.closed k = true := by rw [closed, update_self]
      obtain ⟨hk, hempty⟩ := l.shut k hclosed
      exact (l.rings.ring_iff (by simpa using hk)).mpr hempty.symm
    · rw [lists, update_of_ne hmm] at hm'
      exact absurd hm hm'

/-- The end of a list, if no other list is in its place. -/
lemma table_end (hn : n < t.made) (hl : Listed t)
    (hok : t.closed n = true → t.lists (t.msecs n) = none) :
    Table t ((t.close n).deleteList (t.msecs n)) := by
  cases hclosed : t.closed n with
  | false => exact .shut (t.msecs n) n (hl n hn hclosed) rfl rfl rfl rfl
  | true =>
    refine .same ?_ rfl rfl ?_
    · show update t.lists (t.msecs n) none = t.lists
      rw [← hok hclosed, update_eq_self]
    · show update t.closed n true = t.closed
      rw [← hclosed, update_eq_self]

lemma table_step (g : Good t ring) (hl : Listed t) {a : Act} (hs : Stepped t a t') (hok : Ok t a) :
    Table t t' := by
  cases hs with
  | call c => exact table_call t c
  | fire who => cases who <;> exact .same rfl rfl rfl rfl
  | tick who ticks => cases who <;> exact .same rfl rfl rfl rfl
  | list n now k hs =>
    have hn := g.list_made hs
    unfold State.listOnTimeout
    split
    · rw [Ok, hs, GoesOn] at hok
      exact (table_end hn hl hok).of_eq rfl rfl rfl rfl rfl rfl rfl rfl
    · rename_i first hpeek
      dsimp only
      split_ifs
      · obtain ⟨due, heq⟩ := startList_eq t n (t.msecs n - (now - t.idleStart first))
        rw [heq]
        exact .same rfl rfl rfl rfl
      · obtain ⟨f, log, heq, -⟩ := callback_eq ((t.takeOut first).assert
          (decide ((t.takeOut first).links.peek (.list n) ≠ some first))) (.list n) now first k
        rw [heq]
        exact .same rfl rfl rfl rfl
  | unref now k hs =>
    unfold State.unrefTimeout
    split
    · exact .same rfl rfl rfl rfl
    · rename_i first hpeek
      dsimp only
      split
      · exact .same rfl rfl rfl rfl
      · obtain ⟨f, log, heq, -⟩ := callback_eq { t with links := t.links.remove first } .unref now
          first k
        rw [heq]
        exact .same rfl rfl rfl rfl
  | walk item cur msecs when k hs =>
    unfold State.walk
    split_ifs
    · exact .same rfl rfl rfl rfl
    · dsimp only
      split_ifs
      · exact .same rfl rfl rfl rfl
      · exact .same rfl rfl rfl rfl
    · split
      · exact .same rfl rfl rfl rfl
      · exact .same rfl rfl rfl rfl
  | ret => exact .same rfl rfl rfl rfl
  | throw => exact .same rfl rfl rfl rfl
  | elapse => exact .same rfl rfl rfl rfl

/-! ### The claim is settled -/

lemma sound_of_listed (l : Linked t ring) (hl : Listed t) : Sound t := by
  refine ⟨fun n hn k hk hon hok hmsecs => ?_, fun o ho => ?_⟩
  · have hmine := hl n hn hon
    rw [hmsecs, hl k hk hok] at hmine
    exact (Option.some.inj hmine).symm
  · obtain ⟨n, hn⟩ := (l.isActive o).mp ho
    have hmade : n < t.made := by simpa using l.mem_heads hn
    have hopen : t.closed n = false := by
      by_contra hc
      exact l.notMem (by simpa using hc) hn
    refine ⟨t.msecs n, n, l.pending n o hn, hl n hmade hopen, fun k => ?_⟩
    rw [on_iff l]
    constructor
    · exact fun hk => Obj.list.inj (l.apart hk hn)
    · rintro rfl
      exact hn

/-- Where every step meets the condition, every item is on one ring at most and every open list has
its place. -/
lemma run_listed (h : Run step (fun t a _ => Ok t a) start t) :
    ∃ ring, Good t ring ∧ Listed t := by
  refine h.invariant (I := fun t => ∃ ring, Good t ring ∧ Listed t)
    ⟨_, good_start, fun n hn => absurd hn (Nat.not_lt_zero n)⟩ ?_
  rintro n a n' ⟨ring, g, hl⟩ hstep hok
  have hs := step_cases hstep
  obtain ⟨ring', g'⟩ := g.step hs
  exact ⟨ring', g', (table_step g hl hs hok).listed hl⟩

/-- **The lists of the timers.** Whatever is called, by callbacks too, and whatever they throw:
if `listOnTimeout` never goes on with a closed list when there is a newer list for its delay, there
is one open list for a delay at most, every active item is on exactly the list in the table, and
the place of a list is cleared only when it is empty. -/
theorem lists_sound (h : Run step (fun t a _ => Ok t a) start t) :
    Sound t ∧ ∀ a t', Ok t a → step t a = some t' → Kept t t' := by
  obtain ⟨ring, g, hl⟩ := run_listed h
  refine ⟨sound_of_listed g.linked hl, fun a t' hok hstep => ?_⟩
  have hs := step_cases hstep
  obtain ⟨ring', g'⟩ := g.step hs
  exact (table_step g hl hs hok).kept g'.linked

/-- A timer whose callback starts another one with the same delay. -/
def again : List Act :=
  [.call (.setTimeout true false (some 10)), .elapse 10 10, .fire (.list 0), .iterate,
    .call (.setTimeout true false (some 10)), .ret]

theorem lists_sound_again : ∃ t, (Run step (fun t a _ => Ok t a) start t ∧
    t.isActive (.timeout 1) = true ∧ t.closed 0 = false) ∧
    Sound t ∧ ∀ a t', Ok t a → step t a = some t' → Kept t t' := by
  have hrun : ((again.foldlM (fun t a => if Ok t a then step t a else none) start).any fun t =>
      t.isActive (.timeout 1) && !t.closed 0) = true := by
    decide +kernel
  rw [Option.any_eq_true] at hrun
  obtain ⟨t, ht, hp⟩ := hrun
  rw [Bool.and_eq_true, Bool.not_eq_true'] at hp
  exact ⟨t, ⟨.of_checked ht, hp⟩, lists_sound (.of_checked ht)⟩

/-- A timer whose callback clears it and starts another one with the same delay. -/
def replaced : List Act :=
  [.call (.setTimeout true false (some 10)), .elapse 10 10, .fire (.list 0), .iterate,
    .call (.clearTimeout (.timeout 0)), .call (.setTimeout true false (some 10)), .ret, .iterate]

/-- The first list has been closed when its `listOnTimeout` clears the place of the second. -/
theorem not_sound_replaced : ¬ ∀ t, Run step (fun _ _ _ => True) start t → Sound t := by
  intro h
  have hrun : ((replaced.foldlM step start).any fun t =>
      t.isActive (.timeout 1) && t.idleTimeout (.timeout 1) == some 10 && t.lists 10 == none) =
        true := by
    decide +kernel
  rw [Option.any_eq_true] at hrun
  obtain ⟨t, ht, hp⟩ := hrun
  simp only [Bool.and_eq_true, beq_iff_eq] at hp
  obtain ⟨msecs, n, hdelay, hlists, -⟩ := (h t (.of_foldlM ht)).linked _ hp.1.1
  rw [hp.1.2] at hdelay
  rw [← Option.some.inj hdelay, hp.2] at hlists
  cases hlists

end

end NodeCore.Timers
