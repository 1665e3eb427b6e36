import NodeCore.Events

/-!
`once`: how often the listener of one call of `once` can be called.

For each `g` the invariant counts where it is: about to be added, in the table, in the copies
that loops of `emit` have still to go through, and past its own `removeListener`.
-/

namespace NodeCore.Events

open NodeCore.Encoding NodeCore.Reentrant

/-! ### Tables that lose listeners -/

/-- `t` is `s` with some listeners removed. -/
structure Fewer (s t : State) : Prop where
  wrappers : t.wrappers = s.wrappers
  applied : t.applied = s.applied
  nextArray : t.nextArray = s.nextArray
  array : ∀ {type id}, t.events type = .array id → s.events type = .array id
  listeners : ∀ type, (t.listeners type).Sublist (s.listeners type)

namespace Fewer

variable {s t u : State}

lemma refl (s : State) : Fewer s s := ⟨rfl, rfl, rfl, id, fun _ => .refl _⟩

lemma trans (h : Fewer s t) (h' : Fewer t u) : Fewer s u :=
  ⟨h'.wrappers.trans h.wrappers, h'.applied.trans h.applied, h'.nextArray.trans h.nextArray,
    fun ha => h.array (h'.array ha), fun type => (h'.listeners type).trans (h.listeners type)⟩

lemma clear (s : State) : Fewer s s.clear :=
  ⟨rfl, rfl, rfl, (nomatch ·), fun _ => List.nil_sublist _⟩

lemma unset (s : State) (type : EventType) : Fewer s (s.set type .undefined) := by
  refine ⟨rfl, rfl, rfl, fun {type' id} h => ?_, fun type' => ?_⟩
  · rw [State.set_events] at h
    split_ifs at h with ht
    exact h
  · rcases eq_or_ne type' type with rfl | hne
    · rw [State.set_listeners_undefined]
      exact List.nil_sublist _
    · rw [State.set_listeners_ne _ hne]

lemma setArray {id : ℕ} {list : List Fn} (h : list.Sublist (s.arrays id)) :
    Fewer s (s.setArray id list) := by
  refine ⟨rfl, rfl, rfl, fun h => h, fun type => ?_⟩
  by_cases hslot : s.events type = .array id
  · rwa [State.setArray_listeners hslot, State.listeners_array hslot]
  · rw [State.setArray_listeners_ne hslot]

lemma not_mem (h : Fewer s t) {type : EventType} {f : Fn} (hf : f ∉ s.listeners type) :
    f ∉ t.listeners type := fun h' => hf ((h.listeners type).subset h')

end Fewer

/-! ### What a frame holds of `g` -/

namespace Frame

/-- How often a loop of `emit` has still to call it. -/
def ahead (k : ℕ) : Frame → ℕ
  | .listeners rest => rest.count (.once k)
  | _ => 0

/-- It has removed itself and is going to call its listener. -/
def waiting (k : ℕ) : Frame → ℕ
  | .apply j => if j = k then 1 else 0
  | _ => 0

/-- It is going to be added. -/
def adding (k : ℕ) : Frame → ℕ
  | .add _ f => if f = .once k then 1 else 0
  | _ => 0

/-- The frame holds nothing. -/
def light : Frame → Bool
  | .listeners _ | .apply _ | .add _ _ => false
  | _ => true

end Frame

def total (w : Frame → ℕ) (stack : List Frame) : ℕ := (stack.map w).sum

@[simp] lemma total_nil (w : Frame → ℕ) : total w [] = 0 := rfl

@[simp] lemma total_cons (w : Frame → ℕ) (f : Frame) (stack : List Frame) :
    total w (f :: stack) = w f + total w stack := by
  simp [total]

@[simp] lemma total_append (w : Frame → ℕ) (fs stack : List Frame) :
    total w (fs ++ stack) = total w fs + total w stack := by
  simp [total]

lemma total_sublist (w : Frame → ℕ) {fs stack : List Frame} (h : fs.Sublist stack) :
    total w fs ≤ total w stack := (h.map w).sum_le_sum fun _ _ => Nat.zero_le _

lemma total_eq_zero {w : Frame → ℕ} {stack : List Frame} :
    total w stack = 0 ↔ ∀ f ∈ stack, w f = 0 := by
  simp [total, List.sum_eq_zero_iff]

section Light

variable {fs : List Frame} (h : ∀ f ∈ fs, f.light = true) (k : ℕ)

include h

lemma ahead_light : total (Frame.ahead k) fs = 0 := by
  refine total_eq_zero.mpr fun f hf => ?_
  have hl := h f hf
  cases f <;> first | rfl | cases hl

lemma waiting_light : total (Frame.waiting k) fs = 0 := by
  refine total_eq_zero.mpr fun f hf => ?_
  have hl := h f hf
  cases f <;> first | rfl | cases hl

lemma adding_light : total (Frame.adding k) fs = 0 := by
  refine total_eq_zero.mpr fun f hf => ?_
  have hl := h f hf
  cases f <;> first | rfl | cases hl

end Light

lemma emitIf_light (s : State) (type : EventType) : ∀ f ∈ s.emitIf type, f.light = true := by
  intro f hf
  unfold State.emitIf at hf
  split_ifs at hf with h
  · cases hf
  · rw [List.mem_singleton.mp hf]
    rfl

/-! ### `removeListener` -/

/-- No two types share an array. -/
structure Separate (s : State) : Prop where
  bound : ∀ {type id}, s.events type = .array id → id < s.nextArray
  inj : ∀ {type type' id}, s.events type = .array id → s.events type' = .array id → type = type'

lemma Separate.fewer {s t : State} (hs : Separate s) (h : Fewer s t) : Separate t := by
  refine ⟨fun ht => ?_, fun ht ht' => hs.inj (h.array ht) (h.array ht')⟩
  rw [h.nextArray]
  exact hs.bound (h.array ht)

/-- The table is as the functions keep it. -/
structure Shape (s : State) : Prop where
  user : ∀ w ∈ s.wrappers, ∀ k, w.2 ≠ .once k
  bound : ∀ {type id}, s.events type = .array id → id < s.nextArray
  inj : ∀ {type type' id}, s.events type = .array id → s.events type' = .array id → type = type'
  home : ∀ {type k}, .once k ∈ s.listeners type → ∃ f, s.wrappers[k]? = some (type, f)

lemma Shape.separate {s : State} (hs : Shape s) : Separate s := ⟨hs.bound, hs.inj⟩

lemma Shape.fewer {s t : State} (hs : Shape s) (h : Fewer s t) : Shape t := by
  have hsep := hs.separate.fewer h
  refine ⟨?_, hsep.bound, hsep.inj, fun {type k} hk => ?_⟩
  · rw [h.wrappers]
    exact hs.user
  · rw [h.wrappers]
    exact hs.home ((h.listeners type).subset hk)

section Remove

variable {s : State} {type : EventType}

lemma position_some {listener : Fn} {list : List Fn} {i : ℕ}
    (h : s.position listener list = some i) :
    ∃ f, list[i]? = some f ∧ s.isListener listener f = true := by
  unfold State.position at h
  obtain ⟨j, hj, rfl⟩ := Option.map_eq_some_iff.mp h
  obtain ⟨hlt, hf, -⟩ := List.findIdx?_eq_some_iff_getElem.mp hj
  have hlt' : j < list.length := by simpa using hlt
  refine ⟨list.reverse[j], ?_, hf⟩
  rw [List.getElem_reverse, List.getElem?_eq_getElem (by omega)]

lemma position_none {listener : Fn} {list : List Fn} (h : s.position listener list = none) {f : Fn}
    (hf : f ∈ list) : s.isListener listener f = false := by
  unfold State.position at h
  rw [Option.map_eq_none_iff, List.findIdx?_eq_none_iff] at h
  exact h f (List.mem_reverse.mpr hf)

lemma removeListener_light (s : State) (type : EventType) (listener : Fn) :
    ∀ f ∈ (s.removeListener type listener).2, f.light = true := by
  unfold State.removeListener
  split
  · exact fun f hf => nomatch hf
  · split_ifs
    · exact emitIf_light _ _
    · exact fun f hf => nomatch hf
  · split
    · exact fun f hf => nomatch hf
    · exact emitIf_light _ _

lemma removeListener_fewer (s : State) (type : EventType) (listener : Fn) :
    Fewer s (s.removeListener type listener).1 := by
  unfold State.removeListener
  split
  · exact .refl s
  · split_ifs
    · exact .unset s type
    · exact .refl s
  · split
    · exact .refl s
    · split_ifs
      · exact (Fewer.setArray (List.nil_sublist _)).trans (.unset _ type)
      · exact .setArray (List.eraseIdx_sublist _ _)

/-- A function is the listener `g` looks for only if it is `g`. -/
lemma Shape.isListener (hs : Shape s) {j : ℕ} {f : Fn} (h : s.isListener (.once j) f = true) :
    f = .once j := by
  rcases (by simpa [State.isListener] using h : f = .once j ∨ s.listener f = some (.once j)) with
    rfl | hf
  · rfl
  · cases f with
    | user n => cases hf
    | once k =>
      obtain ⟨w, hw, hw'⟩ := Option.map_eq_some_iff.mp hf
      exact absurd hw' (hs.user w (List.mem_of_getElem? hw) j)

lemma count_eraseIdx_self {list : List Fn} {i : ℕ} {f : Fn} (h : list[i]? = some f) :
    list.count f = (list.eraseIdx i).count f + 1 := by
  obtain ⟨hlt, rfl⟩ := List.getElem?_eq_some_iff.mp h
  rw [← (List.getElem_cons_eraseIdx_perm hlt).count_eq, List.count_cons_self]

/-- After it has removed itself, `g` is nowhere in the table. -/
lemma Shape.removeListener_gone (hs : Shape s) {j : ℕ} {f : Fn}
    (hj : s.wrappers[j]? = some (type, f)) (hone : (s.listeners type).count (.once j) ≤ 1)
    (type' : EventType) : .once j ∉ (s.removeListener type (.once j)).1.listeners type' := by
  have hfewer := removeListener_fewer s type (.once j)
  by_cases hmem : .once j ∈ s.listeners type'
  swap
  · exact hfewer.not_mem hmem
  -- it is in the list of its own type
  obtain ⟨f', hf'⟩ := hs.home hmem
  obtain ⟨rfl, -⟩ : type = type' ∧ f = f' := by simpa [hj] using hf'
  unfold State.removeListener
  split
  · next hslot =>
    rw [State.listeners, hslot] at hmem
    cases hmem
  · next g hslot =>
    rw [State.listeners, hslot] at hmem
    rw [List.mem_singleton.mp hmem, if_pos (by simp [State.isListener])]
    simp
  · next id hslot =>
    rw [State.listeners_array hslot] at hmem hone
    split
    · next hnone =>
      have hlistener := position_none hnone hmem
      simp [State.isListener] at hlistener
    · next i hi =>
      obtain ⟨g, hg, hlistener⟩ := position_some hi
      rw [hs.isListener hlistener] at hg
      have hcount := count_eraseIdx_self hg
      split_ifs
      · simp
      · rw [State.setArray_listeners hslot]
        apply List.count_eq_zero.mp
        omega

end Remove

/-! ### `addListener` -/

lemma add_wrappers (s : State) (type : EventType) (f : Fn) :
    (s.add type f).wrappers = s.wrappers := by
  unfold State.add
  split <;> rfl

lemma add_applied (s : State) (type : EventType) (f : Fn) :
    (s.add type f).applied = s.applied := by
  unfold State.add
  split <;> rfl

/-- The listener comes last in the list of its type, and the other lists stay as they are. -/
lemma Separate.add_listeners {s : State} (hs : Separate s) (type : EventType) (f : Fn)
    (type' : EventType) : (s.add type f).listeners type' =
      if type' = type then s.listeners type ++ [f] else s.listeners type' := by
  unfold State.add
  split_ifs with ht
  · subst ht
    split
    · next hslot => simp [State.listeners, State.set_events, hslot]
    · next id hslot => rw [State.setArray_listeners hslot, State.listeners_array hslot]
    · next g hslot =>
      rw [State.listeners_fn hslot]
      simp [State.setNewArray, State.listeners, State.set, State.setArray]
  · split
    · exact State.set_listeners_ne _ ht
    · next id hslot => exact State.setArray_listeners_ne (fun h => ht (hs.inj h hslot)) _
    · next g hslot =>
      have hne : s.events type' ≠ .array s.nextArray := fun h => by
        have := hs.bound h
        omega
      show ((s.setArray s.nextArray [g, f]).set type _).listeners type' = _
      rw [State.set_listeners_ne _ ht, State.setArray_listeners_ne hne]

lemma Separate.add {s : State} (hs : Separate s) (type : EventType) (f : Fn) :
    Separate (s.add type f) := by
  -- arrays that were there, and at most one that is new
  have harray {type' : EventType} {id : ℕ} (h : (s.add type f).events type' = .array id) :
      s.events type' = .array id ∧ id < s.nextArray ∨ type' = type ∧ id = s.nextArray ∧
        (s.add type f).nextArray = s.nextArray + 1 := by
    unfold State.add at h ⊢
    split at h
    · rw [State.set_events] at h
      split_ifs at h
      exact .inl ⟨h, hs.bound h⟩
    · exact .inl ⟨h, hs.bound h⟩
    · next g hslot =>
      have hevents : ((s.setArray s.nextArray [g, f]).set type (.array s.nextArray)).events type' =
        .array id := h
      rw [State.set_events] at hevents
      split_ifs at hevents with ht
      · cases hevents
        exact .inr ⟨ht, rfl, rfl⟩
      · exact .inl ⟨hevents, hs.bound hevents⟩
  have hnext : s.nextArray ≤ (s.add type f).nextArray := by
    unfold State.add
    split
    · exact le_refl _
    · exact le_refl _
    · exact Nat.le_succ _
  refine ⟨fun h => ?_, fun h h' => ?_⟩
  · rcases harray h with ⟨-, hlt⟩ | ⟨-, hid, hn⟩ <;> omega
  · rcases harray h with ⟨h, hlt⟩ | ⟨ht, hid, -⟩ <;>
      rcases harray h' with ⟨h', hlt'⟩ | ⟨ht', hid', -⟩
    · exact hs.inj h h'
    · omega
    · omega
    · exact ht.trans ht'.symm

lemma Shape.add {s : State} (hs : Shape s) {type : EventType} {f : Fn}
    (hf : ∀ k, f = .once k → ∃ g, s.wrappers[k]? = some (type, g)) : Shape (s.add type f) := by
  have hsep := hs.separate.add type f
  refine ⟨?_, hsep.bound, hsep.inj, fun {type' k} hk => ?_⟩
  · rw [add_wrappers]
    exact hs.user
  · rw [hs.separate.add_listeners] at hk
    rw [add_wrappers]
    split_ifs at hk with ht
    · rcases List.mem_append.mp hk with hk | hk
      · exact ht ▸ hs.home hk
      · exact ht ▸ hf k (List.mem_singleton.mp hk).symm
    · exact hs.home hk

/-! ### The invariant -/

open NodeCore.Events.Frame (ahead waiting adding)

/-- Where each `g` can be. -/
structure AtMostOnce (s : State) (stack : List Frame) : Prop where
  shape : Shape s
  place : ∀ {type k}, .add type (.once k) ∈ stack → ∃ f, s.wrappers[k]? = some (type, f)
  known : ∀ {k}, s.wrappers.length ≤ k → s.applied.count k + total (waiting k) stack +
    total (ahead k) stack = 0
  /-- It is added to the table once. -/
  single : ∀ k type, (s.listeners type).count (.once k) + total (adding k) stack ≤ 1
  calls : ∀ k, s.applied.count k + total (waiting k) stack + total (ahead k) stack ≤ 1
  gone : ∀ {k}, 0 < s.applied.count k + total (waiting k) stack →
    ∀ type, .once k ∉ s.listeners type
  first : ∀ {k}, 0 < total (adding k) stack →
    s.applied.count k + total (waiting k) stack + total (ahead k) stack = 0

namespace AtMostOnce

variable {s t : State} {stack : List Frame}

lemma fewer (h : AtMostOnce s stack) (hf : Fewer s t) : AtMostOnce t stack := by
  refine ⟨h.shape.fewer hf, ?_, ?_, fun k type => ?_, ?_, ?_, ?_⟩
  · rw [hf.wrappers]
    exact h.place
  · rw [hf.wrappers, hf.applied]
    exact h.known
  · have hcount := (hf.listeners type).count_le (.once k)
    have hsingle := h.single k type
    omega
  · rw [hf.applied]
    exact h.calls
  · rw [hf.applied]
    exact fun hk type => hf.not_mem (h.gone hk type)
  · rw [hf.applied]
    exact h.first

/-- Frames that hold no more than those that they replace. -/
lemma le (h : AtMostOnce s stack) {stack' : List Frame}
    (hadd : ∀ type k, .add type (.once k) ∈ stack' → .add type (.once k) ∈ stack)
    (hadding : ∀ k, total (adding k) stack' ≤ total (adding k) stack)
    (hwaiting : ∀ k, total (waiting k) stack' ≤ total (waiting k) stack)
    (hahead : ∀ k, total (ahead k) stack' ≤ total (ahead k) stack) : AtMostOnce s stack' := by
  refine ⟨h.shape, fun hk => h.place (hadd _ _ hk), fun {k} hk => ?_, fun k type => ?_, fun k => ?_,
    fun {k} hk => h.gone ?_, fun {k} hk => ?_⟩
  · have hknown := h.known hk
    have := hwaiting k
    have := hahead k
    omega
  · have hsingle := h.single k type
    have := hadding k
    omega
  · have hcalls := h.calls k
    have := hwaiting k
    have := hahead k
    omega
  · have := hwaiting k
    omega
  · have hfirst := h.first (lt_of_lt_of_le hk (hadding k))
    have := hwaiting k
    have := hahead k
    omega

lemma sublist (h : AtMostOnce s stack) {stack' : List Frame} (hs : stack'.Sublist stack) :
    AtMostOnce s stack' :=
  h.le (fun _ _ hk => hs.subset hk) (fun _ => total_sublist _ hs) (fun _ => total_sublist _ hs)
    (fun _ => total_sublist _ hs)

lemma unwind (h : AtMostOnce s stack) : AtMostOnce s (unwind stack) :=
  h.sublist (List.dropWhile_sublist _)

lemma light (h : AtMostOnce s stack) {fs : List Frame} (hfs : ∀ f ∈ fs, f.light = true) :
    AtMostOnce s (fs ++ stack) := by
  refine h.le (fun type f hk => ?_) (fun k => ?_) (fun k => ?_) fun k => ?_
  · rcases List.mem_append.mp hk with hk | hk
    · cases hfs _ hk
    · exact hk
  · rw [total_append, adding_light hfs, Nat.zero_add]
  · rw [total_append, waiting_light hfs, Nat.zero_add]
  · rw [total_append, ahead_light hfs, Nat.zero_add]

lemma light_cons (h : AtMostOnce s stack) {f : Frame} (hf : f.light = true) :
    AtMostOnce s (f :: stack) := h.light (List.forall_mem_singleton.mpr hf)

lemma tail {f : Frame} (h : AtMostOnce s (f :: stack)) : AtMostOnce s stack :=
  h.sublist (List.sublist_cons_self _ _)

/-- A loop of `emit` starts. -/
lemma snapshot (h : AtMostOnce s stack) {type : EventType}
    (hfresh : ∀ k, .once k ∈ s.listeners type → total (ahead k) stack = 0) :
    AtMostOnce s (.listeners (s.listeners type) :: stack) := by
  have hahead (k : ℕ) : total (ahead k) (.listeners (s.listeners type) :: stack) =
      (s.listeners type).count (.once k) + total (ahead k) stack := total_cons ..
  have hwaiting (k : ℕ) : total (waiting k) (.listeners (s.listeners type) :: stack) =
      total (waiting k) stack := by
    rw [total_cons]
    exact Nat.zero_add _
  have hadding (k : ℕ) : total (adding k) (.listeners (s.listeners type) :: stack) =
      total (adding k) stack := by
    rw [total_cons]
    exact Nat.zero_add _
  refine ⟨h.shape, fun hk => h.place (by simpa using hk), fun {k} hk => ?_, fun k type' => ?_,
    fun k => ?_, fun {k} hk => ?_, fun {k} hk => ?_⟩
  · have hnot : .once k ∉ s.listeners type := by
      intro hmem
      obtain ⟨f, hf⟩ := h.shape.home hmem
      have := (List.getElem?_eq_some_iff.mp hf).1
      omega
    have hknown := h.known hk
    rw [hahead, hwaiting, List.count_eq_zero.mpr hnot]
    omega
  · rw [hadding]
    exact h.single k type'
  · rw [hahead, hwaiting]
    by_cases hmem : .once k ∈ s.listeners type
    · have hzero := hfresh k hmem
      have hsingle := h.single k type
      have hspent : ¬ 0 < s.applied.count k + total (waiting k) stack := fun hk =>
        h.gone hk type hmem
      omega
    · have hcalls := h.calls k
      rw [List.count_eq_zero.mpr hmem]
      omega
  · rw [hwaiting] at hk
    exact h.gone hk
  · rw [hadding] at hk
    have hfirst := h.first hk
    have hsingle := h.single k type
    rw [hahead, hwaiting]
    omega

/-- `g` has removed itself. -/
lemma wait (h : AtMostOnce s stack) {k : ℕ} (hk : k < s.wrappers.length)
    (hgone : ∀ type, .once k ∉ s.listeners type) (hadding : total (adding k) stack = 0)
    (hcalls : s.applied.count k + total (waiting k) stack + total (ahead k) stack = 0) :
    AtMostOnce s (.apply k :: stack) := by
  have hwaiting (j : ℕ) : total (waiting j) (.apply k :: stack) =
      (if k = j then 1 else 0) + total (waiting j) stack := total_cons ..
  have hrest (j : ℕ) : total (ahead j) (.apply k :: stack) = total (ahead j) stack ∧
      total (adding j) (.apply k :: stack) = total (adding j) stack := by
    simp [ahead, adding]
  refine ⟨h.shape, fun hj => h.place (by simpa using hj), fun {j} hj => ?_, fun j type => ?_,
    fun j => ?_, fun {j} hj => ?_, fun {j} hj => ?_⟩
  · have hknown := h.known hj
    rw [hwaiting, (hrest j).1, if_neg (by omega)]
    omega
  · rw [(hrest j).2]
    exact h.single j type
  · have := h.calls j
    rw [hwaiting, (hrest j).1]
    split_ifs with hkj
    · rw [← hkj]
      omega
    · omega
  · rw [hwaiting] at hj
    split_ifs at hj with hkj
    · rw [← hkj]
      exact hgone
    · exact h.gone (by omega)
  · rw [(hrest j).2] at hj
    have hfirst := h.first hj
    rw [hwaiting, (hrest j).1, if_neg (by rintro rfl; omega)]
    omega

/-! ### The functions -/

lemma removeListener (h : AtMostOnce s stack) (type : EventType) (listener : Fn) :
    AtMostOnce (s.removeListener type listener).1
      ((s.removeListener type listener).2 ++ stack) :=
  (h.fewer (removeListener_fewer s type listener)).light (removeListener_light s type listener)

/-- A function is called that nothing else holds. -/
lemma invoke (h : AtMostOnce s stack) {f : Fn} (hf : ∀ k, f = .once k → k < s.wrappers.length ∧
    total (adding k) stack = 0 ∧
    s.applied.count k + total (waiting k) stack + total (ahead k) stack = 0) :
    AtMostOnce (s.invoke f).1 ((s.invoke f).2 ++ stack) := by
  cases f with
  | user n =>
    refine h.light fun f hf => ?_
    rw [List.mem_singleton.mp hf]
    rfl
  | once k =>
    obtain ⟨hk, hadding, hcalls⟩ := hf k rfl
    obtain ⟨⟨type, listener⟩, hw⟩ : ∃ w, s.wrappers[k]? = some w :=
      ⟨_, List.getElem?_eq_getElem hk⟩
    have hinvoke : s.invoke (.once k) = ((s.removeListener type (.once k)).1,
        (s.removeListener type (.once k)).2 ++ [.apply k]) := by
      simp only [State.invoke, hw]
    have hfewer := removeListener_fewer s type (.once k)
    have hsingle := h.single k type
    rw [hinvoke, List.append_assoc]
    refine ((h.fewer hfewer).wait (by rwa [hfewer.wrappers]) ?_ hadding ?_).light
      (removeListener_light s type _)
    · exact h.shape.removeListener_gone hw (by omega)
    · rw [hfewer.applied]
      exact hcalls

/-- The loop of `emit` calls its next listener. -/
lemma listeners {f : Fn} {rest : List Fn} (h : AtMostOnce s (.listeners (f :: rest) :: stack)) :
    AtMostOnce (s.invoke f).1 ((s.invoke f).2 ++ [.listeners rest] ++ stack) := by
  have hahead (k : ℕ) : total (ahead k) (.listeners (f :: rest) :: stack) =
      (f :: rest).count (.once k) + total (ahead k) stack := total_cons ..
  have hrest (k : ℕ) : total (ahead k) (.listeners rest :: stack) =
      rest.count (.once k) + total (ahead k) stack := total_cons ..
  have hle : AtMostOnce s (.listeners rest :: stack) := by
    refine h.le (fun type g hg => by simpa using hg) (fun k => le_of_eq rfl)
      (fun k => le_of_eq rfl) fun k => ?_
    have := List.count_le_count_cons (a := Fn.once k) (b := f) (l := rest)
    rw [hahead, hrest]
    omega
  rw [List.append_assoc]
  refine hle.invoke fun k hk => ?_
  have hcount : (f :: rest).count (.once k) = rest.count (.once k) + 1 := by
    rw [hk, List.count_cons_self]
  have hcalls := h.calls k
  have hwaiting : total (waiting k) (.listeners (f :: rest) :: stack) =
      total (waiting k) (.listeners rest :: stack) := rfl
  have hadding : total (adding k) (.listeners (f :: rest) :: stack) =
      total (adding k) (.listeners rest :: stack) := rfl
  rw [hahead, hcount, hwaiting] at hcalls
  rw [hrest]
  refine ⟨?_, ?_, by omega⟩
  · by_contra hk
    have hknown := h.known (Nat.le_of_not_lt hk)
    rw [hahead] at hknown
    omega
  · by_contra hpos
    have hfirst := h.first (k := k) (by omega)
    rw [hahead] at hfirst
    omega

/-- The rest of `addListener`. -/
lemma add {type : EventType} {f : Fn} (h : AtMostOnce s (.add type f :: stack)) :
    AtMostOnce (s.add type f) stack := by
  have hadding (k : ℕ) : total (adding k) (.add type f :: stack) =
      (if f = .once k then 1 else 0) + total (adding k) stack := total_cons ..
  have hplace (k : ℕ) (hf : f = .once k) : ∃ g, s.wrappers[k]? = some (type, g) :=
    h.place (hf ▸ List.mem_cons_self)
  have htail := h.tail
  refine ⟨h.shape.add hplace, ?_, ?_, fun k type' => ?_, ?_, fun {k} hk type' hmem => ?_, ?_⟩
  · rw [add_wrappers]
    exact htail.place
  · rw [add_wrappers, add_applied]
    exact htail.known
  · have hsingle := h.single k type'
    rw [hadding] at hsingle
    rw [h.shape.separate.add_listeners]
    split_ifs with ht
    · rw [List.count_append, List.count_singleton, ← ht]
      simp only [beq_iff_eq]
      omega
    · split_ifs at hsingle <;> omega
  · rw [add_applied]
    exact htail.calls
  · rw [add_applied] at hk
    rw [h.shape.separate.add_listeners] at hmem
    have hgone := htail.gone hk
    split_ifs at hmem with ht
    · rcases List.mem_append.mp hmem with hmem | hmem
      · exact hgone _ hmem
      · -- `g` is added before it is called
        have hf : f = .once k := (List.mem_singleton.mp hmem).symm
        have hfirst := h.first (k := k) (by rw [hadding, if_pos hf]; omega)
        have hwaiting : total (waiting k) (.add type f :: stack) = total (waiting k) stack :=
          (total_cons ..).trans (Nat.zero_add _)
        omega
    · exact hgone _ hmem
  · rw [add_applied]
    exact htail.first

/-- `listener.apply`. -/
lemma applies {k : ℕ} (h : AtMostOnce s (.apply k :: stack)) :
    AtMostOnce { s with applied := k :: s.applied } stack := by
  have hwaiting (j : ℕ) : total (waiting j) (.apply k :: stack) =
      (if k = j then 1 else 0) + total (waiting j) stack := total_cons ..
  have hahead (j : ℕ) : total (ahead j) (.apply k :: stack) = total (ahead j) stack :=
    (total_cons ..).trans (Nat.zero_add _)
  have hadding (j : ℕ) : total (adding j) (.apply k :: stack) = total (adding j) stack :=
    (total_cons ..).trans (Nat.zero_add _)
  have hcount (j : ℕ) : (k :: s.applied).count j + total (waiting j) stack =
      s.applied.count j + total (waiting j) (.apply k :: stack) := by
    rw [hwaiting, List.count_cons]
    simp only [beq_iff_eq]
    omega
  have htail := h.tail
  refine ⟨⟨h.shape.user, h.shape.bound, h.shape.inj, h.shape.home⟩, htail.place, fun {j} hj => ?_,
    htail.single, fun j => ?_, fun {j} hj => h.gone ((hcount j) ▸ hj), fun {j} hj => ?_⟩
  · have hknown := h.known hj
    show (k :: s.applied).count j + _ + _ = 0
    rwa [hcount, ← hahead j]
  · have hcalls := h.calls j
    show (k :: s.applied).count j + _ + _ ≤ 1
    rwa [hcount, ← hahead j]
  · have hfirst := h.first ((hadding j).symm ▸ hj)
    show (k :: s.applied).count j + _ + _ = 0
    rwa [hcount, ← hahead j]

/-- A call of `emit` that finds no `g` in its list that another call still has to call. -/
lemma emit {type : EventType} (h : AtMostOnce s stack)
    (hfresh : ∀ k, .once k ∈ s.listeners type → total (ahead k) stack = 0) {fs : List Frame}
    (he : s.emit type = .frames t fs) : AtMostOnce t (fs ++ stack) := by
  unfold State.emit at he
  split at he
  · split_ifs at he
    cases he
    exact h
  · next f hslot =>
    cases he
    refine h.invoke fun k hk => ?_
    have hmem : .once k ∈ s.listeners type := by
      rw [State.listeners_fn hslot, hk]
      exact List.mem_singleton_self _
    have hsingle := h.single k type
    have hpos := List.count_pos_iff.mpr hmem
    have hspent : ¬ 0 < s.applied.count k + total (waiting k) stack := fun hk => h.gone hk type hmem
    have hahead := hfresh k hmem
    obtain ⟨g, hg⟩ := h.shape.home hmem
    exact ⟨(List.getElem?_eq_some_iff.mp hg).1, by omega, by omega⟩
  · next id hslot =>
    split_ifs at he
    cases he
    rw [← State.listeners_array hslot]
    exact h.snapshot hfresh

lemma removeAllListeners (h : AtMostOnce s stack) {type : Option EventType} {fs : List Frame}
    (he : s.removeAllListeners type = .frames t fs) : AtMostOnce t (fs ++ stack) := by
  unfold State.removeAllListeners at he
  split_ifs at he
  · split at he <;> cases he
    · exact h.fewer (.clear s)
    · split_ifs
      · exact h
      · exact h.fewer (.unset s _)
  · split at he
    · cases he
      exact h.light (by simp [Frame.light])
    · split at he <;> cases he
      · rw [List.append_assoc]
        exact (h.light_cons rfl).removeListener _ _
      · exact h.light (by simp [Frame.light])

/-- What the code of a frame does. -/
lemma exec {f : Frame} (h : AtMostOnce s (f :: stack)) (hfresh : ∀ type, f = .emit type →
    ∀ k, .once k ∈ s.listeners type → total (ahead k) stack = 0) {fs : List Frame}
    (he : s.exec f = .frames t fs) : AtMostOnce t (fs ++ stack) := by
  have htail := h.tail
  cases f with
  | user =>
    cases he
    exact h
  | emit type => exact htail.emit (hfresh type rfl) he
  | listeners rest =>
    cases rest with
    | nil =>
      cases he
      exact htail
    | cons g rest =>
      cases he
      exact h.listeners
  | apply k =>
    unfold State.exec at he
    dsimp only at he
    split at he
    · cases he
      exact htail
    · next type listener hw =>
      cases he
      refine h.applies.invoke fun j hj => ?_
      exact absurd hj (h.shape.user _ (List.mem_of_getElem? hw) j)
  | add type listener =>
    cases he
    exact h.add
  | removeAll type => exact htail.removeAllListeners he
  | removeKeys keys =>
    cases keys <;> cases he
    · exact htail
    · exact htail.light (by simp [Frame.light])
  | removeEach type id =>
    unfold State.exec at he
    dsimp only at he
    split at he <;> cases he
    · exact htail
    · rw [List.append_assoc]
      exact (htail.light_cons rfl).removeListener _ _
  | unset type =>
    cases he
    exact htail.fewer (.unset s type)
  | clear =>
    cases he
    exact htail.fewer (.clear s)

end AtMostOnce

/-! ### Runs -/

/-- `on` and `once` are given functions of the caller. -/
def Act.Plain : Act → Prop
  | .on _ f => ∀ k, f ≠ .once k
  | .once _ f => ∀ k, f ≠ .once k
  | _ => True

/-- An `emit` that is about to start finds no `g` in the table which an `emit` that has not
returned still has in its own copy. -/
def Apart (m : Machine State Frame) : Prop :=
  ∀ type stack, m.stack = .emit type :: stack → ∀ k, .once k ∈ m.st.listeners type →
    ∀ rest, .listeners rest ∈ stack → .once k ∉ rest

lemma ahead_eq_zero {k : ℕ} {stack : List Frame}
    (h : ∀ rest, .listeners rest ∈ stack → .once k ∉ rest) : total (ahead k) stack = 0 := by
  refine total_eq_zero.mpr fun f hf => ?_
  cases f <;> try rfl
  exact List.count_eq_zero.mpr (h _ hf)

namespace AtMostOnce

variable {s : State} {stack : List Frame}

lemma new : AtMostOnce .new [] := by
  refine ⟨⟨fun w hw => ?_, fun h => ?_, fun h => ?_, fun h => ?_⟩, fun h => ?_, fun _ => rfl,
    fun _ _ => Nat.zero_le _, fun _ => Nat.zero_le _, fun h => ?_, fun _ => rfl⟩
  · cases hw
  · cases h
  · cases h
  · cases h
  · cases h
  · cases h

lemma addListener (h : AtMostOnce s stack) {type : EventType} {f : Fn}
    (hf : ∀ k, f ≠ .once k) :
    AtMostOnce (s.addListener type f).1 ((s.addListener type f).2 ++ stack) := by
  unfold State.addListener
  rw [List.append_assoc]
  have hadd : AtMostOnce s (.add type f :: stack) := by
    refine h.le (fun type' k hk => ?_) (fun k => ?_) (fun k => le_of_eq ?_) fun k => le_of_eq ?_
    · rcases List.mem_cons.mp hk with hk | hk
      · cases hk
        exact absurd rfl (hf k)
      · exact hk
    · rw [total_cons, adding, if_neg (hf k), Nat.zero_add]
    · exact (total_cons ..).trans (Nat.zero_add _)
    · exact (total_cons ..).trans (Nat.zero_add _)
  exact hadd.light (emitIf_light s _)

/-- A call of `once`: its `g` is new. -/
lemma once (h : AtMostOnce s stack) {type : EventType} {f : Fn} (hf : ∀ k, f ≠ .once k) :
    AtMostOnce (s.once type f).1 ((s.once type f).2 ++ stack) := by
  set n := s.wrappers.length with hn
  set t : State := { s with wrappers := s.wrappers ++ [(type, f)] } with ht
  have hget {k : ℕ} {w : EventType × Fn} (hw : s.wrappers[k]? = some w) : t.wrappers[k]? = some w :=
    List.getElem?_append_left (List.getElem?_eq_some_iff.mp hw).1 ▸ hw
  have hnew : t.wrappers[n]? = some (type, f) := by simp [ht, hn]
  have hadds (type : EventType) : .add type (.once n) ∉ stack := fun hmem => by
    obtain ⟨g, hg⟩ := h.place hmem
    have := (List.getElem?_eq_some_iff.mp hg).1
    omega
  have hadding : total (adding n) stack = 0 := by
    refine total_eq_zero.mpr fun g hg => ?_
    cases g <;> try rfl
    next type' g' =>
    refine if_neg ?_
    rintro rfl
    exact hadds _ hg
  have hlisteners (type' : EventType) : .once n ∉ s.listeners type' := fun hmem => by
    obtain ⟨g, hg⟩ := h.shape.home hmem
    have := (List.getElem?_eq_some_iff.mp hg).1
    omega
  have hadding' (k : ℕ) : total (adding k) (.add type (.once n) :: stack) =
      (if n = k then 1 else 0) + total (adding k) stack := by
    rw [total_cons, adding]
    simp only [Fn.once.injEq]
  have hwaiting (k : ℕ) : total (waiting k) (.add type (.once n) :: stack) =
      total (waiting k) stack := (total_cons ..).trans (Nat.zero_add _)
  have hahead (k : ℕ) : total (ahead k) (.add type (.once n) :: stack) = total (ahead k) stack :=
    (total_cons ..).trans (Nat.zero_add _)
  have hadd : AtMostOnce t (.add type (.once n) :: stack) := by
    refine ⟨⟨fun w hw k => ?_, h.shape.bound, h.shape.inj, fun hk => ?_⟩, fun {type' k} hk => ?_,
      fun {k} hk => ?_, fun k type' => ?_, fun k => ?_, fun {k} hk => ?_, fun {k} hk => ?_⟩
    · rcases List.mem_append.mp hw with hw | hw
      · exact h.shape.user w hw k
      · rw [List.mem_singleton.mp hw]
        exact hf k
    · obtain ⟨g, hg⟩ := h.shape.home hk
      exact ⟨g, hget hg⟩
    · rcases List.mem_cons.mp hk with hk | hk
      · cases hk
        exact ⟨f, hnew⟩
      · obtain ⟨g, hg⟩ := h.place hk
        exact ⟨g, hget hg⟩
    · have hlength : t.wrappers.length = n + 1 := by simp [ht, hn]
      rw [hwaiting, hahead]
      exact h.known (by omega)
    · have hsingle := h.single k type'
      show (s.listeners type').count (.once k) + _ ≤ 1
      rw [hadding']
      split_ifs with hk
      · have hcount := List.count_eq_zero.mpr (hlisteners type')
        rw [← hk]
        omega
      · omega
    · rw [hwaiting, hahead]
      exact h.calls k
    · rw [hwaiting] at hk
      exact h.gone hk
    · rw [hwaiting, hahead]
      rw [hadding'] at hk
      split_ifs at hk with hnk
      · exact h.known (le_of_eq hnk)
      · exact h.first (by omega)
  show AtMostOnce (t.addListener type (.once n)).1 ((t.addListener type (.once n)).2 ++ stack)
  unfold State.addListener
  rw [List.append_assoc]
  exact hadd.light (emitIf_light t _)

end AtMostOnce

/-- One step. -/
lemma AtMostOnce.step {m m' : Machine State Frame} {a : Act} (h : AtMostOnce m.st m.stack)
    (hstep : step m a = some m') (hplain : a.Plain) (hapart : Apart m) :
    AtMostOnce m'.st m'.stack := by
  by_cases htop : m.stack.head?.getD .user = .user
  · unfold Events.step at hstep
    rw [if_pos htop] at hstep
    cases a with
    | on type f =>
      cases hstep
      exact h.addListener hplain
    | once type f =>
      cases hstep
      exact h.once hplain
    | removeListener type f =>
      cases hstep
      exact h.removeListener type f
    | removeAllListeners type =>
      cases hstep
      exact h.light (by simp [Frame.light])
    | emit type =>
      cases hstep
      exact h.light (by simp [Frame.light])
    | ret =>
      dsimp only at hstep
      split_ifs at hstep
      cases hstep
      exact h.sublist (List.tail_sublist _)
    | throw =>
      dsimp only at hstep
      split_ifs at hstep
      cases hstep
      exact (h.sublist (List.tail_sublist _)).unwind
    | run => cases hstep
  · unfold Events.step at hstep
    rw [if_neg htop] at hstep
    split at hstep
    · next _ _ f k hstack =>
      rw [hstack] at h
      have hfresh (type : EventType) (hf : f = .emit type) (j : ℕ)
          (hj : .once j ∈ m.st.listeners type) : total (ahead j) k = 0 :=
        ahead_eq_zero (hapart type k (hf ▸ hstack) j hj)
      split at hstep
      · next s fs hexec =>
        cases hstep
        exact h.exec hfresh hexec
      · cases hstep
        exact h.tail.unwind
    · cases hstep

/-- **`once`.** A listener registered by one call of `once` is called at most once in every run
in which each `emit` starts apart from those that have not returned. -/
theorem once_calls {m : Machine State Frame}
    (h : Run step (fun m a _ => a.Plain ∧ Apart m) init m) (k : ℕ) :
    m.st.applied.count k ≤ 1 := by
  have hinv : AtMostOnce m.st m.stack :=
    h.invariant (I := fun m => AtMostOnce m.st m.stack) .new fun n a n' hn hstep hgood =>
      AtMostOnce.step hn hstep hgood.1 hgood.2
  have hcalls := hinv.calls k
  omega

/-- A listener `a` and one that is called once; `a` emits another event. -/
def emitOther : List Act :=
  [.on (.named [101]) (.user 0), .run, .once (.named [101]) (.user 1), .run, .emit (.named [101]),
    .run, .run, .emit (.named [102]), .run, .ret, .run, .run]

theorem once_calls_other :
    ∃ m, Run step (fun m a _ => a.Plain ∧ Apart m) init m ∧ m.st.applied = [0] ∧
      m.st.applied.count 0 ≤ 1 := by
  have hrun : ∃ m, Run step (fun m a _ => a.Plain ∧ Apart m) init m ∧ m.st.applied = [0] := by
    have hnone (f : Fn) : f ∉ ([] : List Fn) := List.not_mem_nil
    exact ⟨_, Run.of_path .refl (w := emitOther)
      ⟨_, rfl, ⟨nofun, nofun⟩, _, rfl, ⟨trivial, nofun⟩, _, rfl, ⟨nofun, nofun⟩,
        _, rfl, ⟨trivial, nofun⟩, _, rfl, ⟨trivial, nofun⟩,
        _, rfl, ⟨trivial, fun _ _ h _ _ _ hr => by cases h; cases hr⟩,
        _, rfl, ⟨trivial, nofun⟩, _, rfl, ⟨trivial, nofun⟩,
        _, rfl, ⟨trivial, fun _ _ h _ hk => by cases h; exact absurd hk (hnone _)⟩,
        _, rfl, ⟨trivial, nofun⟩, _, rfl, ⟨trivial, nofun⟩, _, rfl, ⟨trivial, nofun⟩, rfl⟩, rfl⟩
  obtain ⟨m, hm, happlied⟩ := hrun
  exact ⟨m, hm, happlied, once_calls hm 0⟩

/-- `a` emits the event that it listens to. -/
def emitSame : List Act :=
  [.on (.named [101]) (.user 0), .run, .once (.named [101]) (.user 1), .run, .emit (.named [101]),
    .run, .run, .emit (.named [101]), .run, .run, .ret, .run, .run, .ret, .run, .ret, .run, .run]

theorem once_called_twice :
    ∃ m, Run step (fun _ a _ => a.Plain) init m ∧ m.st.applied = [0, 0] :=
  ⟨_, Run.of_path .refl (w := emitSame)
    ⟨_, rfl, nofun, _, rfl, trivial, _, rfl, nofun, _, rfl, trivial, _, rfl, trivial,
      _, rfl, trivial, _, rfl, trivial, _, rfl, trivial, _, rfl, trivial, _, rfl, trivial,
      _, rfl, trivial, _, rfl, trivial, _, rfl, trivial, _, rfl, trivial, _, rfl, trivial,
      _, rfl, trivial, _, rfl, trivial, _, rfl, trivial, rfl⟩, rfl⟩

end NodeCore.Events
