import NodeCore.Domain
import NodeCore.Linklist
import NodeCore.Reentrant

/-!
Immediates (`timers.js`). `process._needImmediateCallback` is a variable of `node.cc`, and while it
is set, every turn of the loop calls `process._immediateCallback` once.

The callbacks are code that is not known: a step is a call of one of the functions, from a callback
or from elsewhere, a turn up to the callback, or the end of a callback.
-/

namespace NodeCore.Immediates

open NodeCore.Linklist NodeCore.Reentrant Function

/-! ### State -/

inductive Obj
  | immediateQueue
  | immediate (i : ℕ)
  deriving DecidableEq

inductive Event
  /-- Whether it has a callback. -/
  | made (i : ℕ) (callback : Bool)
  | cleared (i : ℕ)
  /-- Whether its callback is called. -/
  | turn (i : ℕ) (called : Bool)
  deriving DecidableEq

variable {n : ℕ}

structure State (n : ℕ) where
  links : Links Obj
  onImmediate : ℕ → Bool
  /-- `immediate.domain`. -/
  domain : ℕ → Option (Fin n)
  made : ℕ
  needImmediateCallback : Bool
  /-- `check_immediate_watcher` has been started. -/
  watching : Bool
  /-- `process._immediateCallback` is `processImmediate`. -/
  immediateCallback : Bool
  domains : Domain.State n
  /-- The immediate whose callback is running. -/
  running : Option ℕ
  log : List Event

def start (domains : Domain.State n) : State n :=
  { links := unlinked.init .immediateQueue, onImmediate := fun _ => false, domain := fun _ => none
    made := 0, needImmediateCallback := false, watching := false, immediateCallback := false
    domains := domains, running := none, log := [] }

namespace State

/-- `NeedImmediateCallbackSetter` -/
def setNeed (t : State n) (value : Bool) : State n :=
  if t.needImmediateCallback = value then t
  else { t with needImmediateCallback := value, watching := value }

/-- `if (L.isEmpty(immediateQueue)) process._needImmediateCallback = false;` -/
def settle (t : State n) : State n :=
  if t.links.isEmpty .immediateQueue then t.setNeed false else t

/-- Up to the callback. Nothing where an exception is thrown. -/
def processImmediate (t : State n) : Option (State n) :=
  (t.links.shift .immediateQueue).map fun (first, links) =>
    let t := { t with links }.settle
    match first with
    | .immediateQueue => t
    | .immediate i =>
      let t := { t with log := t.log ++ [Event.turn i (t.onImmediate i)] }
      if t.onImmediate i then
        { t with
          domains := ((t.domain i).map t.domains.enter).getD t.domains
          running := some i }
      else t

/-- `callback` tells whether there is something to call: a callback, or one that is to be called
with arguments. -/
def setImmediate (t : State n) (callback : Bool) : State n :=
  let i := t.made
  let t := { t with
    made := i + 1
    links := t.links.init (.immediate i)
    onImmediate := update t.onImmediate i callback
    log := t.log ++ [Event.made i callback] }
  let t := if t.needImmediateCallback then t else { t.setNeed true with immediateCallback := true }
  { t with
    domain := update t.domain i t.domains.active
    links := t.links.append .immediateQueue (.immediate i) }

/-- Nothing stands for what is no object. -/
def clearImmediate (t : State n) (immediate : Option ℕ) : State n :=
  match immediate with
  | none => t
  | some i =>
    { t with
      onImmediate := update t.onImmediate i false
      links := t.links.remove (.immediate i)
      log := t.log ++ [Event.cleared i] }.settle

end State

/-! ### Steps -/

inductive Act (n : ℕ)
  | setImmediate (callback : Bool)
  | clearImmediate (immediate : Option ℕ)
  /-- Domains are entered and left meanwhile. -/
  | domains (domains : Domain.State n)
  /-- `CheckImmediate` -/
  | check
  | ret
  | throw

/-- A step that can be taken. -/
def step (t : State n) : Act n → Option (State n)
  | .setImmediate callback => some (t.setImmediate callback)
  | .clearImmediate immediate =>
    if immediate.all (· < t.made) then some (t.clearImmediate immediate) else none
  | .domains domains => some { t with domains }
  | .check =>
    if t.watching ∧ t.immediateCallback ∧ t.running = none then t.processImmediate else none
  | .ret => t.running.map fun i =>
    { t with domains := ((t.domain i).map t.domains.exit).getD t.domains, running := none }
  | .throw => t.running.map fun _ => { t with running := none }

/-! ### Turns -/

/-- It has been made, and since then neither been cleared nor had its turn. -/
@[mk_iff] structure Waiting (log : List Event) (i : ℕ) : Prop where
  made : ∃ callback, .made i callback ∈ log
  cleared : .cleared i ∉ log
  turn : ∀ called, .turn i called ∉ log

/-- Each turn is that of the immediate which has waited the longest, and calls its callback. -/
def InOrder (log : List Event) : Prop :=
  ∀ before i called after, log = before ++ .turn i called :: after →
    Waiting before i ∧ (∀ j, Waiting before j → i ≤ j) ∧ .made i called ∈ before

lemma inOrder_concat {log : List Event} {e : Event} (h : InOrder log)
    (he : ∀ i called, e = .turn i called →
      Waiting log i ∧ (∀ j, Waiting log j → i ≤ j) ∧ .made i called ∈ log) :
    InOrder (log ++ [e]) := by
  intro before i called after heq
  rcases List.eq_nil_or_concat after with rfl | ⟨after', e', rfl⟩
  · obtain ⟨rfl, hlast⟩ := List.append_inj' heq rfl
    exact he i called (List.cons.inj hlast).1
  · rw [List.concat_eq_append, ← List.cons_append, ← List.append_assoc] at heq
    exact h before i called after' (List.append_inj' heq rfl).1

/-! ### What holds between two steps -/

def ring (ids : List ℕ) : Obj → List Obj := fun _ => ids.map Obj.immediate

/-- `ids` are those that wait. -/
structure Good (t : State n) (ids : List ℕ) : Prop where
  rings : Rings t.links {.immediateQueue} (ring ids)
  fresh : ∀ i, t.made ≤ i → t.links.next (.immediate i) = none
  sorted : ids.Pairwise (· < ·)
  waiting : ∀ i, i ∈ ids ↔ Waiting t.log i
  called : ∀ i ∈ ids, .made i (t.onImmediate i) ∈ t.log
  past : ∀ i, t.made ≤ i → (∀ b, .made i b ∉ t.log) ∧ .cleared i ∉ t.log ∧ ∀ b, .turn i b ∉ t.log
  flag : t.needImmediateCallback = true ↔ ids ≠ []
  watching : t.watching = t.needImmediateCallback
  callback : t.needImmediateCallback = true → t.immediateCallback = true
  inOrder : InOrder t.log

section

variable {t : State n} {ids : List ℕ}

lemma mem_queue : Obj.immediateQueue ∈ ({.immediateQueue} : Set Obj) := Set.mem_singleton _

lemma immediate_notMem (i : ℕ) : Obj.immediate i ∉ ({.immediateQueue} : Set Obj) := nofun

lemma ring_erase (i : ℕ) (h : Obj) : (ring ids h).erase (.immediate i) = ring (ids.erase i) h :=
  (List.map_erase (fun _ _ => Obj.immediate.inj) ids).symm

lemma rings_remove {L : Links Obj} (r : Rings L {.immediateQueue} (ring ids)) (i : ℕ) :
    Rings (L.remove (.immediate i)) {.immediateQueue} (ring (ids.erase i)) :=
  (r.remove (immediate_notMem i)).congr fun h _ => ring_erase i h

lemma rings_append {L : Links Obj} (r : Rings L {.immediateQueue} (ring ids)) {i : ℕ}
    (hi : i ∉ ids) :
    Rings (L.append .immediateQueue (.immediate i)) {.immediateQueue} (ring (ids ++ [i])) := by
  refine (r.append (immediate_notMem i) mem_queue).congr fun h hh => ?_
  obtain rfl := Set.mem_singleton_iff.mp hh
  rw [update_self, ring_erase, List.erase_of_not_mem hi, ring, ring, List.map_append,
    List.map_singleton]

lemma isEmpty_iff {L : Links Obj} (r : Rings L {.immediateQueue} (ring ids)) :
    L.isEmpty .immediateQueue ↔ ids = [] := by
  rw [r.isEmpty_iff mem_queue, ring, List.map_eq_nil_iff]

/-- The flag is given up with the last immediate. -/
lemma settle_eq (hr : Rings t.links {.immediateQueue} (ring ids))
    (hflag : ids ≠ [] → t.needImmediateCallback = true)
    (hwatch : t.watching = t.needImmediateCallback) :
    t.settle = { t with
      needImmediateCallback := decide (ids ≠ []), watching := decide (ids ≠ []) } := by
  unfold State.settle State.setNeed
  rw [if_congr (isEmpty_iff hr) rfl rfl]
  obtain ⟨links, _, _, _, need, watching, _, _, _, _⟩ := t
  dsimp only at hflag hwatch ⊢
  split_ifs with hnil hsame
  · simp [hnil, hsame, hwatch]
  · simp [hnil]
  · simp [hnil, hflag hnil, hwatch]

lemma waiting_made {log : List Event} {i : ℕ} (b : Bool) (hcleared : .cleared i ∉ log)
    (hturn : ∀ b, .turn i b ∉ log) (j : ℕ) :
    Waiting (log ++ [.made i b]) j ↔ Waiting log j ∨ j = i := by
  simp only [waiting_iff, List.mem_append, List.mem_singleton, Event.made.injEq, reduceCtorEq,
    or_false, exists_or, exists_and_left, exists_eq, and_true]
  constructor
  · rintro ⟨hmade | rfl, hrest⟩
    · exact .inl ⟨hmade, hrest⟩
    · exact .inr rfl
  · rintro (⟨hmade, hrest⟩ | rfl)
    · exact ⟨.inl hmade, hrest⟩
    · exact ⟨.inr rfl, hcleared, hturn⟩

lemma waiting_cleared (log : List Event) (i j : ℕ) :
    Waiting (log ++ [.cleared i]) j ↔ Waiting log j ∧ j ≠ i := by
  simp only [waiting_iff, List.mem_append, List.mem_singleton, Event.cleared.injEq, reduceCtorEq,
    or_false, not_or]
  tauto

lemma waiting_turn (log : List Event) (i : ℕ) (b : Bool) (j : ℕ) :
    Waiting (log ++ [.turn i b]) j ↔ Waiting log j ∧ j ≠ i := by
  simp only [waiting_iff, List.mem_append, List.mem_singleton, Event.turn.injEq, reduceCtorEq,
    or_false, not_or, not_and]
  constructor
  · rintro ⟨hmade, hcleared, hturn⟩
    exact ⟨⟨hmade, hcleared, fun c => (hturn c).1⟩, fun hji => (hturn b).2 hji rfl⟩
  · rintro ⟨⟨hmade, hcleared, hturn⟩, hji⟩
    exact ⟨hmade, hcleared, fun c => ⟨hturn c, fun h => absurd h hji⟩⟩

/-- What is logged of immediates that have been made tells nothing of the others. -/
def Past (made : ℕ) (log : List Event) : Prop :=
  ∀ i, made ≤ i → (∀ b, .made i b ∉ log) ∧ .cleared i ∉ log ∧ ∀ b, .turn i b ∉ log

end

namespace Good

variable {t : State n} {ids : List ℕ}

lemma start (domains : Domain.State n) : Good (start domains) [] := by
  have hring : Rings (unlinked.init Obj.immediateQueue) {.immediateQueue} (ring []) := by
    have h := rings_unlinked.init_head (x := Obj.immediateQueue) (Set.notMem_empty _) rfl
    rw [insert_empty_eq] at h
    refine h.congr fun a ha => ?_
    rw [Set.mem_singleton_iff.mp ha, update_self]
    rfl
  refine ⟨hring, fun i _ => rfl, List.Pairwise.nil, fun i => ?_, nofun, fun i _ => ?_, ?_, rfl,
    nofun, ?_⟩
  · exact iff_of_false List.not_mem_nil fun h => h.made.elim fun b hb => absurd hb List.not_mem_nil
  · exact ⟨fun b => List.not_mem_nil, List.not_mem_nil, fun b => List.not_mem_nil⟩
  · exact iff_of_false nofun fun h => h rfl
  · intro before i called after h
    have hnil : ([] : List Event) = before ++ .turn i called :: after := h
    simp at hnil

lemma setImmediate_eq (g : Good t ids) (b : Bool) : t.setImmediate b = { t with
    made := t.made + 1
    links := (t.links.init (.immediate t.made)).append .immediateQueue (.immediate t.made)
    onImmediate := update t.onImmediate t.made b
    domain := update t.domain t.made t.domains.active
    needImmediateCallback := true, watching := true, immediateCallback := true
    log := t.log ++ [.made t.made b] } := by
  have hwatch := g.watching
  have hcallback := g.callback
  obtain ⟨links, _, _, _, need, watching, callback, _, _, _⟩ := t
  dsimp only at hwatch hcallback
  unfold State.setImmediate State.setNeed
  cases need with
  | false => rfl
  | true =>
    subst hwatch
    simp [hcallback rfl]

/-- The number of an immediate that is new. -/
lemma made_notMem (g : Good t ids) : t.made ∉ ids := fun hmem =>
  ((g.waiting _).mp hmem).made.elim fun b hb => (g.past _ le_rfl).1 b hb

lemma lt_made (g : Good t ids) {i : ℕ} (hi : i ∈ ids) : i < t.made := by
  by_contra hle
  obtain ⟨b, hb⟩ := ((g.waiting i).mp hi).made
  exact (g.past i (not_lt.mp hle)).1 b hb

lemma setImmediate (g : Good t ids) (b : Bool) : Good (t.setImmediate b) (ids ++ [t.made]) := by
  have hnew := g.fresh t.made le_rfl
  obtain ⟨-, hcleared, hturn⟩ := g.past t.made le_rfl
  have hinit := g.rings.init_item (immediate_notMem t.made) hnew
  rw [g.setImmediate_eq]
  refine ⟨rings_append hinit g.made_notMem, fun i hi => ?_, ?_, fun i => ?_, fun i hi => ?_,
    fun i hi => ?_, ?_, rfl, fun _ => rfl, ?_⟩
  · have hne : Obj.immediate i ≠ .immediate t.made := fun h => by
      have := Obj.immediate.inj h
      dsimp only at hi
      omega
    have hle : t.made ≤ i := Nat.le_of_succ_le hi
    exact hinit.links.next_append hne nofun (Links.next_init hne (g.fresh i hle))
  · rw [List.pairwise_append]
    refine ⟨g.sorted, List.pairwise_singleton _ _, fun i hi j hj => ?_⟩
    rw [List.mem_singleton.mp hj]
    exact g.lt_made hi
  · rw [waiting_made b hcleared hturn, ← g.waiting, List.mem_append, List.mem_singleton]
  · rcases List.mem_append.mp hi with hi | hi
    · dsimp only
      rw [update_of_ne (g.lt_made hi).ne]
      exact List.mem_append_left _ (g.called i hi)
    · rw [List.mem_singleton.mp hi]
      dsimp only
      rw [update_self]
      exact List.mem_append_right _ (List.mem_singleton.mpr rfl)
  · have hle : t.made ≤ i := Nat.le_of_succ_le hi
    have hne : i ≠ t.made := Nat.ne_of_gt hi
    obtain ⟨h1, h2, h3⟩ := g.past i hle
    simp [h1, h2, h3, hne]
  · exact iff_of_true rfl (List.append_ne_nil_of_right_ne_nil _ (List.cons_ne_nil _ _))
  · exact inOrder_concat g.inOrder nofun

lemma clearImmediate (g : Good t ids) {i : ℕ} (hi : i < t.made) :
    Good (t.clearImmediate (some i)) (ids.erase i) := by
  have hrings := rings_remove g.rings i
  have hnodup : ids.Nodup := g.sorted.imp ne_of_lt
  have hmem (j : ℕ) : j ∈ ids.erase i ↔ j ≠ i ∧ j ∈ ids := hnodup.mem_erase_iff
  have hflag : ids.erase i ≠ [] → t.needImmediateCallback = true := fun hne =>
    g.flag.mpr fun hnil => hne (by rw [hnil, List.erase_nil])
  have hsettle := settle_eq (t := { t with
    onImmediate := update t.onImmediate i false
    links := t.links.remove (.immediate i)
    log := t.log ++ [.cleared i] }) hrings hflag g.watching
  rw [State.clearImmediate, hsettle]
  refine ⟨hrings, fun j hj => g.rings.links.next_remove (g.fresh j hj),
    g.sorted.sublist List.erase_sublist, fun j => ?_, fun j hj => ?_, fun j hj => ?_,
    decide_eq_true_iff, rfl, fun h => ?_, inOrder_concat g.inOrder nofun⟩
  · rw [waiting_cleared, hmem, g.waiting, and_comm]
  · obtain ⟨hne, hj⟩ := (hmem j).mp hj
    dsimp only
    rw [update_of_ne hne]
    exact List.mem_append_left _ (g.called j hj)
  · obtain ⟨h1, h2, h3⟩ := g.past j hj
    have hne : j ≠ i := fun h => by
      dsimp only at hj
      omega
    simp [h1, h2, h3, hne]
  · exact g.callback (hflag (of_decide_eq_true h))

/-- A turn takes the immediate that was made first. -/
lemma processImmediate (g : Good t ids) (hneed : t.needImmediateCallback = true) :
    ∃ i rest t', ids = i :: rest ∧ t.processImmediate = some t' ∧ Good t' rest ∧
      t'.log = t.log ++ [.turn i (t.onImmediate i)] ∧
      t'.running = if t.onImmediate i then some i else t.running := by
  obtain ⟨i, rest, rfl⟩ := List.exists_cons_of_ne_nil (g.flag.mp hneed)
  have hshift := g.rings.shift mem_queue (show ring (i :: rest) .immediateQueue = .immediate i ::
    ring rest .immediateQueue from rfl)
  have hrings := rings_remove g.rings i
  rw [List.erase_cons_head] at hrings
  obtain ⟨hfirst, hsorted⟩ := List.pairwise_cons.mp g.sorted
  have hsettle := settle_eq (t := { t with links := t.links.remove (.immediate i) }) hrings
    (fun _ => hneed) g.watching
  have hi := g.lt_made List.mem_cons_self
  have hgood (domains : Domain.State n) (running : Option ℕ) : Good { t with
      links := t.links.remove (.immediate i)
      needImmediateCallback := decide (rest ≠ []), watching := decide (rest ≠ [])
      domains := domains, running := running
      log := t.log ++ [.turn i (t.onImmediate i)] } rest := by
    refine ⟨hrings, fun j hj => g.rings.links.next_remove (g.fresh j hj), hsorted, fun j => ?_,
      fun j hj => List.mem_append_left _ (g.called j (List.mem_cons_of_mem _ hj)), fun j hj => ?_,
      decide_eq_true_iff, rfl, fun _ => g.callback hneed, inOrder_concat g.inOrder ?_⟩
    · rw [waiting_turn, ← g.waiting, List.mem_cons]
      constructor
      · exact fun hj => ⟨.inr hj, (hfirst j hj).ne'⟩
      · rintro ⟨rfl | hj, hne⟩
        · exact absurd rfl hne
        · exact hj
    · obtain ⟨h1, h2, h3⟩ := g.past j hj
      have hne : j ≠ i := fun h => by
        dsimp only at hj
        omega
      simp [h1, h2, h3, hne]
    · intro j b heq
      obtain ⟨rfl, rfl⟩ := Event.turn.inj heq
      refine ⟨(g.waiting i).mp List.mem_cons_self, fun j hj => ?_, g.called i List.mem_cons_self⟩
      rcases List.mem_cons.mp ((g.waiting j).mpr hj) with rfl | hj
      · exact le_rfl
      · exact (hfirst j hj).le
  unfold State.processImmediate
  rw [hshift, Option.map_some]
  dsimp only
  rw [hsettle]
  dsimp only
  split_ifs with hcall
  · exact ⟨i, rest, _, rfl, rfl, hgood _ _, rfl, (if_pos hcall).symm⟩
  · exact ⟨i, rest, _, rfl, rfl, hgood _ _, rfl, (if_neg hcall).symm⟩

lemma step (g : Good t ids) {a : Act n} {t' : State n} (h : Immediates.step t a = some t') :
    ∃ ids', Good t' ids' := by
  cases a with
  | setImmediate callback =>
    obtain rfl := Option.some.inj h
    exact ⟨_, g.setImmediate callback⟩
  | clearImmediate immediate =>
    rw [Immediates.step] at h
    split_ifs at h with hlt
    obtain rfl := Option.some.inj h
    cases immediate with
    | none => exact ⟨ids, g⟩
    | some i => exact ⟨_, g.clearImmediate (of_decide_eq_true hlt)⟩
  | domains domains =>
    obtain rfl := Option.some.inj h
    exact ⟨ids, g.rings, g.fresh, g.sorted, g.waiting, g.called, g.past, g.flag, g.watching,
      g.callback, g.inOrder⟩
  | check =>
    rw [Immediates.step] at h
    split_ifs at h with hcheck
    obtain ⟨i, rest, t'', -, hproc, hgood, -, -⟩ := g.processImmediate (g.watching ▸ hcheck.1)
    obtain rfl := Option.some.inj (hproc.symm.trans h)
    exact ⟨rest, hgood⟩
  | ret =>
    obtain ⟨i, -, rfl⟩ := Option.map_eq_some_iff.mp h
    exact ⟨ids, g.rings, g.fresh, g.sorted, g.waiting, g.called, g.past, g.flag, g.watching,
      g.callback, g.inOrder⟩
  | throw =>
    obtain ⟨i, -, rfl⟩ := Option.map_eq_some_iff.mp h
    exact ⟨ids, g.rings, g.fresh, g.sorted, g.waiting, g.called, g.past, g.flag, g.watching,
      g.callback, g.inOrder⟩

end Good

lemma good_of_run {domains : Domain.State n} {t : State n}
    (h : Run step (fun _ _ _ => True) (start domains) t) : ∃ ids, Good t ids := by
  refine h.invariant (I := fun t => ∃ ids, Good t ids) ⟨[], .start domains⟩ ?_
  rintro t a t' ⟨ids, g⟩ hs -
  exact g.step hs

/-- **Immediates run in order, once, and not after they have been cleared**: each turn calls the
callback of the immediate that has waited the longest. The flag is set as long as one waits, so
that there is such a turn, whatever the callbacks do. -/
theorem immediates_in_order {domains : Domain.State n} {t : State n}
    (h : Run step (fun _ _ _ => True) (start domains) t) :
    (t.needImmediateCallback = true ↔ ¬ t.links.isEmpty .immediateQueue) ∧
      t.watching = t.needImmediateCallback ∧
      (t.needImmediateCallback = true ↔ ∃ i, Waiting t.log i) ∧
      InOrder t.log ∧
      (t.running = none → ∀ i, Waiting t.log i → ∃ t' j called, step t .check = some t' ∧
        t'.log = t.log ++ [.turn j called] ∧ t'.running = if called then some j else none) := by
  obtain ⟨ids, g⟩ := good_of_run h
  have hne (i : ℕ) (hi : Waiting t.log i) : t.needImmediateCallback = true :=
    g.flag.mpr (List.ne_nil_of_mem ((g.waiting i).mpr hi))
  refine ⟨?_, g.watching, ⟨fun hneed => ?_, fun ⟨i, hi⟩ => hne i hi⟩, g.inOrder,
    fun hrun i hi => ?_⟩
  · rw [g.flag, isEmpty_iff g.rings]
  · obtain ⟨i, rest, rfl⟩ := List.exists_cons_of_ne_nil (g.flag.mp hneed)
    exact ⟨i, (g.waiting i).mp List.mem_cons_self⟩
  · have hneed := hne i hi
    obtain ⟨j, rest, t', rfl, hproc, -, hlog, hrunning⟩ := g.processImmediate hneed
    refine ⟨t', j, t.onImmediate j, ?_, hlog, by rw [hrunning, hrun]⟩
    rw [step, if_pos ⟨g.watching.trans hneed, g.callback hneed, hrun⟩, hproc]

/-- Three immediates; the callback of the first clears the second and throws. -/
def clearedNext : List (Act 0) :=
  [.setImmediate true, .setImmediate true, .setImmediate true, .check, .clearImmediate (some 1),
    .throw, .check, .ret]

def noDomains : Domain.State 0 := .start fun _ => none

theorem immediates_in_order_clearedNext : ∃ t : State 0,
    (Run step (fun _ _ _ => True) (start noDomains) t ∧
      .turn 0 true ∈ t.log ∧ .turn 1 true ∉ t.log ∧ .turn 2 true ∈ t.log) ∧
    (t.needImmediateCallback = true ↔ ¬ t.links.isEmpty .immediateQueue) ∧
      t.watching = t.needImmediateCallback ∧
      (t.needImmediateCallback = true ↔ ∃ i, Waiting t.log i) ∧
      InOrder t.log ∧
      (t.running = none → ∀ i, Waiting t.log i → ∃ t' j called, step t .check = some t' ∧
        t'.log = t.log ++ [.turn j called] ∧ t'.running = if called then some j else none) := by
  have hrun : ((clearedNext.foldlM step (start noDomains)).any fun t =>
      decide (.turn 0 true ∈ t.log ∧ .turn 1 true ∉ t.log ∧ .turn 2 true ∈ t.log)) = true := by
    decide +kernel
  rw [Option.any_eq_true] at hrun
  obtain ⟨t, ht, hp⟩ := hrun
  exact ⟨t, ⟨.of_foldlM ht, of_decide_eq_true hp⟩, immediates_in_order (.of_foldlM ht)⟩

end NodeCore.Immediates
