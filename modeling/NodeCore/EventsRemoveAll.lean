import NodeCore.EventsOnce

/-!
`removeAllListeners`: when it gets through, and what it leaves.

Listeners of `'removeListener'` run in between, and may change the table. The function does not
look at the table again: it goes on with the array that it has found, and at the end sets the
slot of the type to `undefined`.
-/

namespace NodeCore.Events

open NodeCore.Encoding NodeCore.Reentrant

/-! ### The specification -/

/-- Whether a listener of `'removeListener'` is installed. -/
def State.watched (s : State) : Prop := s.events .removeListener ≠ .undefined

instance (s : State) : Decidable s.watched := inferInstanceAs (Decidable (_ ≠ _))

/-- One listener is gone and `'removeListener'` comes next, or none is gone and none comes. -/
def Told (s t : State) (fs : List Frame) : Prop :=
  (.emit .removeListener ∉ fs ∧ ∀ type, t.listeners type = s.listeners type) ∨
    ∃ type i rest, i < (s.listeners type).length ∧
      t.listeners type = (s.listeners type).eraseIdx i ∧
      (∀ type', type' ≠ type → t.listeners type' = s.listeners type') ∧
      fs = .emit .removeListener :: rest ∧ .emit .removeListener ∉ rest

/-- The code of `removeAllListeners`, with the events that it emits. -/
def Frame.removing : Frame → Bool
  | .removeAll _ | .removeKeys _ | .removeEach _ _ | .unset _ | .clear => true
  | .emit type => type = .removeListener
  | _ => false

/-- The code of the frame does its part. -/
structure Sound (s : State) (f : Frame) : Prop where
  returns : s.exec f ≠ .throw
  told : ∀ {t fs}, s.exec f = .frames t fs → t.watched → Told s t fs
  /-- A round of the loop takes something out of the array. -/
  advances : ∀ {type id t fs}, f = .removeEach type id → s.arrays id ≠ [] →
    s.exec f = .frames t fs → (t.arrays id).length < (s.arrays id).length

/-- What the code of the frame takes for granted while a listener of `'removeListener'` is
installed: the type has a slot, the array of the loop is still in it, and at the end no listener
is there. -/
def State.Fits (s : State) : Frame → Prop
  | .removeAll (some type) => s.watched → s.events type ≠ .undefined
  | .removeEach type id => s.arrays id ≠ [] → s.events type = .array id
  | .unset type => s.watched → type ≠ .removeListener → s.listeners type = []
  | _ => True

/-! ### `removeListener` -/

section Told

variable {s t : State} {fs rest : List Frame}

lemma Told.same (h : ∀ type, t.listeners type = s.listeners type)
    (hfs : .emit .removeListener ∉ fs) : Told s t fs := .inl ⟨hfs, h⟩

lemma Told.append (h : Told s t fs) (hrest : .emit .removeListener ∉ rest) :
    Told s t (fs ++ rest) := by
  rcases h with ⟨hfs, hsame⟩ | ⟨type, i, rest', hi, htype, hother, rfl, hrest'⟩
  · refine .inl ⟨fun hmem => ?_, hsame⟩
    rcases List.mem_append.mp hmem with hmem | hmem
    · exact hfs hmem
    · exact hrest hmem
  · refine .inr ⟨type, i, rest' ++ rest, hi, htype, hother, rfl, fun hmem => ?_⟩
    rcases List.mem_append.mp hmem with hmem | hmem
    · exact hrest' hmem
    · exact hrest hmem

lemma Told.one (type : EventType) {i : ℕ} (hi : i < (s.listeners type).length)
    (htype : t.listeners type = (s.listeners type).eraseIdx i)
    (hother : ∀ type', type' ≠ type → t.listeners type' = s.listeners type') (ht : t.watched) :
    Told s t (t.emitIf .removeListener) := by
  refine .inr ⟨type, i, [], hi, htype, hother, ?_, List.not_mem_nil⟩
  rw [State.emitIf, if_neg ht]

/-- While somebody is told, a call of `removeListener` tells of what it has removed. -/
lemma Separate.removeListener_told (hs : Separate s) {type : EventType} {listener : Fn}
    (ht : (s.removeListener type listener).1.watched) :
    Told s (s.removeListener type listener).1 (s.removeListener type listener).2 := by
  revert ht
  unfold State.removeListener
  split
  · exact fun _ => .same (fun _ => rfl) List.not_mem_nil
  · next f hslot =>
    split_ifs
    · refine fun ht => .one type (i := 0) ?_ ?_ (fun type' hne => ?_) ht
      · rw [State.listeners_fn hslot]
        exact Nat.one_pos
      · rw [State.listeners_fn hslot, State.set_listeners_undefined]
        rfl
      · exact State.set_listeners_ne _ hne
    · exact fun _ => .same (fun _ => rfl) List.not_mem_nil
  · next id hslot =>
    split
    · exact fun _ => .same (fun _ => rfl) List.not_mem_nil
    · next i hi =>
      have hlt : i < (s.listeners type).length := by
        obtain ⟨f, hf, -⟩ := position_some hi
        rw [State.listeners_array hslot]
        exact (List.getElem?_eq_some_iff.mp hf).1
      have hother {type' : EventType} (hne : type' ≠ type) (list : List Fn) :
          (s.setArray id list).listeners type' = s.listeners type' :=
        State.setArray_listeners_ne (fun h => hne (hs.inj h hslot)) list
      refine fun ht => .one type hlt ?_ (fun type' hne => ?_) ht
      · rw [State.listeners_array hslot] at hlt ⊢
        split_ifs with hone
        · rw [State.set_listeners_undefined]
          exact (List.eq_nil_of_length_eq_zero (by rw [List.length_eraseIdx_of_lt hlt]; omega)).symm
        · exact State.setArray_listeners hslot _
      · split_ifs
        · rw [State.set_listeners_ne _ hne, hother hne]
        · exact hother hne _

end Told

/-! ### What the code of a frame does to the arrays -/

namespace Separate

variable {s t : State} {fs : List Frame}

lemma invoke (hs : Separate s) (f : Fn) : Separate (s.invoke f).1 := by
  unfold State.invoke
  split
  · exact hs
  · split
    · exact hs
    · exact hs.fewer (removeListener_fewer s _ _)

lemma applied (hs : Separate s) (k : ℕ) : Separate { s with applied := k :: s.applied } :=
  ⟨hs.bound, hs.inj⟩

lemma exec (hs : Separate s) {f : Frame} (h : s.exec f = .frames t fs) : Separate t := by
  unfold State.exec at h
  split at h
  · cases h
    exact hs
  · next type =>
    unfold State.emit at h
    split at h
    · split_ifs at h
      cases h
      exact hs
    · cases h
      exact hs.invoke _
    · split_ifs at h
      cases h
      exact hs
  · cases h
    exact hs
  · cases h
    exact hs.invoke _
  · split at h
    · cases h
      exact hs
    · cases h
      exact (hs.applied _).invoke _
  · cases h
    exact hs.add _ _
  · next type =>
    unfold State.removeAllListeners at h
    split_ifs at h
    · split at h
      · cases h
        exact hs.fewer (.clear s)
      · cases h
        split_ifs
        · exact hs
        · exact hs.fewer (.unset s _)
    · split at h
      · cases h
        exact hs
      · split at h
        · cases h
        · cases h
          exact hs.fewer (removeListener_fewer s _ _)
        · cases h
          exact hs
  · cases h
    exact hs
  · cases h
    exact hs
  · split at h
    · cases h
      exact hs
    · cases h
      exact hs.fewer (removeListener_fewer s _ _)
  · cases h
    exact hs.fewer (.unset s _)
  · cases h
    exact hs.fewer (.clear s)

lemma step {m m' : Machine State Frame} {a : Act} (hs : Separate m.st)
    (h : step m a = some m') : Separate m'.st := by
  unfold Events.step at h
  by_cases htop : m.stack.head?.getD .user = .user
  · rw [if_pos htop] at h
    cases a with
    | on type f =>
      cases h
      exact hs
    | once type f =>
      cases h
      exact ⟨hs.bound, hs.inj⟩
    | removeListener type f =>
      cases h
      exact hs.fewer (removeListener_fewer _ type f)
    | removeAllListeners type =>
      cases h
      exact hs
    | emit type =>
      cases h
      exact hs
    | ret =>
      dsimp only at h
      split_ifs at h
      cases h
      exact hs
    | throw =>
      dsimp only at h
      split_ifs at h
      cases h
      exact hs
    | run => cases h
  · rw [if_neg htop] at h
    split at h
    · split at h
      · next hexec =>
        cases h
        exact hs.exec hexec
      · cases h
        exact hs
    · cases h

end Separate

/-! ### The frames -/

section Frames

variable {s : State}

/-- The loop finds what it removes at the end of the array. -/
lemma position_last {list : List Fn} {f : Fn} (h : list.getLast? = some f) :
    s.position f list = some (list.length - 1) := by
  obtain ⟨front, rfl⟩ := List.getLast?_eq_some_iff.mp h
  unfold State.position
  rw [List.reverse_append]
  simp [State.isListener, List.findIdx?_cons]

lemma removeEach_exec (type : EventType) {id : ℕ} {f : Fn}
    (h : (s.arrays id).getLast? = some f) :
    s.exec (.removeEach type id) = .frames (s.removeListener type f).1
      ((s.removeListener type f).2 ++ [.removeEach type id]) := by
  simp only [State.exec, h]

/-- A round of the loop takes something out exactly if the array is still in the table. -/
lemma removeListener_last {type : EventType} {id : ℕ} {f : Fn}
    (h : (s.arrays id).getLast? = some f) :
    ((s.removeListener type f).1.arrays id).length < (s.arrays id).length ↔
      s.events type = .array id := by
  have hpos : 0 < (s.arrays id).length := by
    rw [List.length_pos_iff]
    rintro hnil
    rw [hnil] at h
    cases h
  constructor
  · intro hlt
    by_contra hne
    have hsame : (s.removeListener type f).1.arrays id = s.arrays id := by
      unfold State.removeListener
      split
      · rfl
      · split_ifs <;> rfl
      · next id' hslot =>
        have hid : id ≠ id' := fun hid => hne (hid ▸ hslot)
        split
        · rfl
        · split_ifs
          · exact Function.update_of_ne hid ..
          · exact Function.update_of_ne hid ..
    rw [hsame] at hlt
    exact lt_irrefl _ hlt
  · intro hslot
    unfold State.removeListener
    rw [hslot]
    simp only [position_last h]
    split_ifs
    · show (Function.update s.arrays id [] id).length < _
      rw [Function.update_self]
      exact hpos
    · show (Function.update s.arrays id _ id).length < _
      rw [Function.update_self, List.length_eraseIdx_of_lt (by omega)]
      omega

/-- Somebody is told after a slot has been set to `undefined` only if it was another slot. -/
lemma unset_watched {type : EventType} :
    (s.set type .undefined).watched ↔ s.watched ∧ type ≠ .removeListener := by
  unfold State.watched
  rw [State.set_events]
  split_ifs with h
  · simp [h]
  · simp [Ne.symm h]

lemma removeAll_sound (hs : Separate s) (type : Option EventType) :
    Sound s (.removeAll type) ↔ s.Fits (.removeAll type) := by
  have hexec : s.exec (.removeAll type) = s.removeAllListeners type := rfl
  unfold State.removeAllListeners at hexec
  by_cases hwatched : s.watched
  · rw [if_neg hwatched] at hexec
    cases type with
    | none =>
      refine iff_of_true ⟨?_, fun h _ => ?_, fun h => nomatch h⟩ trivial
      · rw [hexec]
        exact Out.noConfusion
      · rw [hexec] at h
        cases h
        exact .same (fun _ => rfl) (by simp)
    | some type =>
      cases hslot : s.events type with
      | undefined =>
        simp only [hslot] at hexec
        exact iff_of_false (fun h => h.returns hexec) fun h => h hwatched hslot
      | fn f =>
        simp only [hslot] at hexec
        refine iff_of_true ⟨?_, fun h ht => ?_, fun h => nomatch h⟩ fun _ => ?_
        · rw [hexec]
          exact Out.noConfusion
        · rw [hexec] at h
          cases h
          exact (hs.removeListener_told ht).append (by simp)
        · rw [hslot]
          exact Slot.noConfusion
      | array id =>
        simp only [hslot] at hexec
        refine iff_of_true ⟨?_, fun h _ => ?_, fun h => nomatch h⟩ fun _ => ?_
        · rw [hexec]
          exact Out.noConfusion
        · rw [hexec] at h
          cases h
          exact .same (fun _ => rfl) (by simp)
        · rw [hslot]
          exact Slot.noConfusion
  · -- nobody is told
    rw [if_pos (not_not.mp hwatched)] at hexec
    cases type with
    | none =>
      refine iff_of_true ⟨?_, fun h ht => ?_, fun h => nomatch h⟩ trivial
      · rw [hexec]
        exact Out.noConfusion
      · rw [hexec] at h
        cases h
        exact absurd rfl ht
    | some type =>
      refine iff_of_true ⟨?_, fun h ht => ?_, fun h => nomatch h⟩ fun h => absurd h hwatched
      · rw [hexec]
        exact Out.noConfusion
      · rw [hexec] at h
        cases h
        split_ifs at ht
        · exact absurd ht hwatched
        · exact absurd (unset_watched.mp ht).1 hwatched

lemma removeEach_sound (hs : Separate s) (type : EventType) (id : ℕ) :
    Sound s (.removeEach type id) ↔ s.Fits (.removeEach type id) := by
  cases hlast : (s.arrays id).getLast? with
  | none =>
    have hexec : s.exec (.removeEach type id) = .frames s [] := by
      simp only [State.exec, hlast]
    have hnil : s.arrays id = [] := List.getLast?_eq_none_iff.mp hlast
    refine iff_of_true ⟨?_, fun h _ => ?_, fun h hne => ?_⟩ fun h => absurd hnil h
    · rw [hexec]
      exact Out.noConfusion
    · rw [hexec] at h
      cases h
      exact .same (fun _ => rfl) List.not_mem_nil
    · cases h
      exact absurd hnil hne
  | some f =>
    have hexec := removeEach_exec type hlast
    have hne : s.arrays id ≠ [] := by
      intro hnil
      rw [hnil] at hlast
      cases hlast
    constructor
    · exact fun h _ => (removeListener_last hlast).mp (h.advances rfl hne hexec)
    · refine fun h => ⟨?_, fun h' ht => ?_, fun hf _ h' => ?_⟩
      · rw [hexec]
        exact Out.noConfusion
      · rw [hexec] at h'
        cases h'
        exact (hs.removeListener_told ht).append (by simp)
      · cases hf
        rw [hexec] at h'
        cases h'
        exact (removeListener_last hlast).mpr (h hne)

lemma unset_sound (type : EventType) : Sound s (.unset type) ↔ s.Fits (.unset type) := by
  have hexec : s.exec (.unset type) = .frames (s.set type .undefined) [] := rfl
  constructor
  · intro h hwatched hne
    rcases h.told hexec (unset_watched.mpr ⟨hwatched, hne⟩) with
      ⟨-, hsame⟩ | ⟨_, _, _, _, _, _, hfs, _⟩
    · rw [← hsame type, State.set_listeners_undefined]
    · cases hfs
  · refine fun h => ⟨Out.noConfusion, fun h' ht => ?_, fun h => nomatch h⟩
    rw [hexec] at h'
    cases h'
    refine .same (fun type' => ?_) List.not_mem_nil
    rcases eq_or_ne type' type with rfl | hne
    · obtain ⟨hwatched, hne⟩ := unset_watched.mp ht
      rw [State.set_listeners_undefined, h hwatched hne]
    · exact State.set_listeners_ne _ hne

/-- `'removeListener'` is emitted. -/
lemma emit_sound (hs : Separate s) : Sound s (.emit .removeListener) := by
  have hinvoke (f : Fn) (ht : (s.invoke f).1.watched) : Told s (s.invoke f).1 (s.invoke f).2 := by
    revert ht
    unfold State.invoke
    split
    · exact fun _ => .same (fun _ => rfl) (by simp)
    · split
      · exact fun _ => .same (fun _ => rfl) List.not_mem_nil
      · exact fun ht => (hs.removeListener_told ht).append (by simp)
  have hexec : s.exec (.emit .removeListener) = s.emit .removeListener := rfl
  unfold State.emit at hexec
  cases hslot : s.events .removeListener with
  | undefined =>
    simp only [hslot, reduceCtorEq, if_false] at hexec
    refine ⟨?_, fun h _ => ?_, fun h => nomatch h⟩
    · rw [hexec]
      exact Out.noConfusion
    · rw [hexec] at h
      cases h
      exact .same (fun _ => rfl) List.not_mem_nil
  | fn f =>
    simp only [hslot] at hexec
    refine ⟨?_, fun h ht => ?_, fun h => nomatch h⟩
    · rw [hexec]
      exact Out.noConfusion
    · rw [hexec] at h
      cases h
      exact hinvoke f ht
  | array id =>
    simp only [hslot, reduceCtorEq, false_and, if_false] at hexec
    refine ⟨?_, fun h _ => ?_, fun h => nomatch h⟩
    · rw [hexec]
      exact Out.noConfusion
    · rw [hexec] at h
      cases h
      exact .same (fun _ => rfl) (by simp)

/-- The code does its part exactly where what it takes for granted is so. -/
lemma removing_sound (hs : Separate s) {f : Frame} (hf : f.removing = true) :
    Sound s f ↔ s.Fits f := by
  cases f with
  | removeAll type => exact removeAll_sound hs type
  | removeEach type id => exact removeEach_sound hs type id
  | unset type => exact unset_sound type
  | emit type =>
    obtain rfl : type = .removeListener := by simpa [Frame.removing] using hf
    exact iff_of_true (emit_sound hs) trivial
  | removeKeys keys =>
    refine iff_of_true ⟨?_, fun h _ => ?_, fun h => nomatch h⟩ trivial
    · cases keys <;> exact Out.noConfusion
    · cases keys <;> cases h
      · exact .same (fun _ => rfl) List.not_mem_nil
      · exact .same (fun _ => rfl) (by simp)
  | clear =>
    refine iff_of_true ⟨Out.noConfusion, fun h ht => ?_, fun h => nomatch h⟩ trivial
    cases h
    exact absurd rfl ht
  | user => cases hf
  | listeners rest => cases hf
  | apply k => cases hf
  | add type listener => cases hf

end Frames

/-! ### What a call leaves -/

/-- The last frame of a call of `removeAllListeners(type)`. -/
def Frame.Base (type : Option EventType) : Frame → Prop
  | .removeAll type' => type' = type
  | .unset type' => type = some type'
  | .clear => type = none
  | _ => False

/-- The call has not returned, and `b` is its last frame. -/
def Inside (type : Option EventType) (k stack : List Frame) : Prop :=
  ∃ b, b.Base type ∧ (b :: k) <:+ stack

section Call

variable {type : Option EventType} {k : List Frame}

/-- A step leaves the frames below the innermost one, or unwinds some of them. -/
lemma step_stack {m m' : Machine State Frame} {a : Act} (h : step m a = some m') :
    m.stack.tail <:+ m'.stack ∨ m'.stack <:+ m.stack.tail := by
  unfold step at h
  by_cases htop : m.stack.head?.getD .user = .user
  · rw [if_pos htop] at h
    cases a with
    | on type f =>
      cases h
      exact .inl ((List.tail_suffix _).trans (List.suffix_append _ _))
    | once type f =>
      cases h
      exact .inl ((List.tail_suffix _).trans (List.suffix_append _ _))
    | removeListener type f =>
      cases h
      exact .inl ((List.tail_suffix _).trans (List.suffix_append _ _))
    | removeAllListeners type =>
      cases h
      exact .inl ((List.tail_suffix _).trans (List.suffix_append _ _))
    | emit type =>
      cases h
      exact .inl ((List.tail_suffix _).trans (List.suffix_append _ _))
    | ret =>
      dsimp only at h
      split_ifs at h
      cases h
      exact .inl (List.suffix_refl _)
    | throw =>
      dsimp only at h
      split_ifs at h
      cases h
      exact .inr (List.dropWhile_suffix _)
    | run => cases h
  · rw [if_neg htop] at h
    split at h
    · next hstack =>
      rw [hstack]
      split at h
      · cases h
        exact .inl (List.suffix_append _ _)
      · cases h
        exact .inr (List.dropWhile_suffix _)
    · cases h

/-- The last frame runs: the call returns, or has a last frame again. -/
lemma Frame.Base.exec {s t : State} {b : Frame} (hb : b.Base type) {fs : List Frame}
    (h : s.exec b = .frames t fs) :
    (fs = [] ∧ ∀ type', type = none ∨ type = some type' → t.listeners type' = []) ∨
      ∃ b', b'.Base type ∧ [b'] <:+ fs := by
  cases b with
  | removeAll type' =>
    obtain rfl : type' = type := hb
    change s.removeAllListeners type' = _ at h
    unfold State.removeAllListeners at h
    split_ifs at h
    · cases type' with
      | none =>
        cases h
        exact .inl ⟨rfl, fun _ _ => rfl⟩
      | some type' =>
        cases h
        refine .inl ⟨rfl, fun type htype => ?_⟩
        obtain rfl : type' = type := by simpa using htype
        split_ifs with hslot
        · rw [State.listeners, hslot]
        · exact State.set_listeners_undefined _
    · cases type' with
      | none =>
        cases h
        exact .inr ⟨.clear, rfl, [_, _], rfl⟩
      | some type' =>
        dsimp only at h
        split at h
        · cases h
        · cases h
          exact .inr ⟨.unset type', rfl, List.suffix_append _ _⟩
        · cases h
          exact .inr ⟨.unset type', rfl, [_], rfl⟩
  | unset type' =>
    cases h
    refine .inl ⟨rfl, fun type'' htype => ?_⟩
    obtain rfl : type = some type' := hb
    obtain rfl : type' = type'' := by simpa using htype
    exact State.set_listeners_undefined _
  | clear =>
    cases h
    exact .inl ⟨rfl, fun _ _ => rfl⟩
  | user => cases hb
  | emit _ => cases hb
  | listeners _ => cases hb
  | apply _ => cases hb
  | add _ _ => cases hb
  | removeKeys _ => cases hb
  | removeEach _ _ => cases hb

/-- As long as the call has not returned. -/
lemma Inside.step {m m' : Machine State Frame} {a : Act} (h : Inside type k m.stack)
    (hstep : step m a = some m') (habove : k.length < m'.stack.length) :
    Inside type k m'.stack := by
  obtain ⟨b, hb, hsuffix⟩ := h
  obtain ⟨s, _ | ⟨f, l⟩⟩ := m
  · cases List.suffix_nil.mp hsuffix
  rcases List.suffix_cons_iff.mp hsuffix with heq | hsuffix
  · -- it is the innermost frame
    obtain ⟨rfl, rfl⟩ := List.cons.inj heq
    have hf : b ≠ .user := fun hf => by
      rw [hf] at hb
      exact hb
    unfold Events.step at hstep
    rw [if_neg (by exact hf)] at hstep
    split at hstep
    · next hstack =>
      obtain ⟨rfl, rfl⟩ := List.cons.inj hstack
      split at hstep
      · next hexec =>
        cases hstep
        rcases hb.exec hexec with ⟨rfl, -⟩ | ⟨b', hb', front, hfs⟩
        · exact absurd habove (lt_irrefl _)
        · refine ⟨b', hb', front, ?_⟩
          rw [← hfs, List.append_assoc]
          rfl
      · cases hstep
        have hle := (List.dropWhile_suffix (l := k) fun f => decide (f ≠ .user)).length_le
        exact absurd habove (Nat.not_lt.mpr hle)
    · cases hstep
  · rcases step_stack hstep with htail | htail
    · exact ⟨b, hb, hsuffix.trans htail⟩
    · exact ⟨b, hb, List.suffix_of_suffix_length_le hsuffix htail habove⟩

/-- The innermost frame is the last one of the call, and the call returns. -/
lemma Inside.returns {s t : State} {f : Frame} (h : Inside type k (f :: k))
    (hexec : s.exec f = .frames t []) (type' : EventType)
    (htype : type = none ∨ type = some type') : t.listeners type' = [] := by
  obtain ⟨b, hb, hsuffix⟩ := h
  obtain ⟨rfl, -⟩ := List.cons.inj (hsuffix.eq_of_length rfl)
  rcases hb.exec hexec with ⟨-, hnone⟩ | ⟨b', -, hb'⟩
  · exact hnone type' htype
  · cases List.suffix_nil.mp hb'

end Call

/-! ### Runs -/

/-- The next step, if it is one of `removeAllListeners`, does its part. -/
def Works (m : Machine State Frame) : Prop :=
  ∀ f k, m.stack = f :: k → f.removing = true → Sound m.st f

/-- It finds what it takes for granted. -/
def Meets (m : Machine State Frame) : Prop :=
  ∀ f k, m.stack = f :: k → f.removing = true → m.st.Fits f

lemma Separate.new : Separate .new := ⟨(nomatch ·), fun h => (nomatch h)⟩

/-- **`removeAllListeners`.** In every state that can be reached, its next step does not throw,
tells of each listener that it removes and gets on, exactly if the type has a slot at the start,
the array of the loop is still in the table, and no listener has come when the slot is taken
away. A call that returns leaves no listener of the type, or no listener at all. -/
theorem removeAllListeners_works_iff {m : Machine State Frame}
    (h : Run step (fun _ _ _ => True) init m) :
    (Works m ↔ Meets m) ∧
      ∀ type k, m.stack = .removeAll type :: k → ∀ n f t,
        Run step (fun n _ _ => k.length < n.stack.length) m n → n.stack = f :: k →
        n.st.exec f = .frames t [] →
        ∀ type', type = none ∨ type = some type' → t.listeners type' = [] := by
  have hs : Separate m.st := h.invariant (I := fun m => Separate m.st) .new
    fun n a n' hn hstep _ => Separate.step hn hstep
  refine ⟨?_, fun type k hstack n f t hrun hn hexec type' htype => ?_⟩
  · constructor
    · exact fun hw f k hstack hf => (removing_sound hs hf).mp (hw f k hstack hf)
    · exact fun hm f k hstack hf => (removing_sound hs hf).mpr (hm f k hstack hf)
  · have hinside : k.length < n.stack.length → Inside type k n.stack := by
      refine hrun.invariant (I := fun n => k.length < n.stack.length → Inside type k n.stack)
        (fun _ => ⟨.removeAll type, rfl, ?_⟩) fun n a n' hn hstep habove hlt =>
          (hn habove).step hstep hlt
      rw [hstack]
    rw [hn] at hinside
    exact (hinside (Nat.lt_succ_self _)).returns hexec type' htype

/-- A listener of an event is removed, and another one is told. -/
def removeOne : List Act :=
  [.on .removeListener (.user 0), .run, .on (.named [101]) (.user 1), .run,
    .removeAllListeners (some (.named [101]))]

theorem removeAllListeners_works_one :
    ∃ (m n : Machine State Frame) (t : State),
      Run step (fun _ _ _ => True) init m ∧ m.stack = [.removeAll (some (.named [101]))] ∧
      m.st.listeners (.named [101]) = [.user 1] ∧ (Works m ↔ Meets m) ∧
      n.stack = [.unset (.named [101])] ∧ n.st.exec (.unset (.named [101])) = .frames t [] ∧
      t.listeners (.named [101]) = [] := by
  obtain ⟨m, hm, hstack, hlisteners, n, hn, hunset⟩ :
      ∃ m, Run step (fun _ _ _ => True) init m ∧ m.stack = [.removeAll (some (.named [101]))] ∧
        m.st.listeners (.named [101]) = [.user 1] ∧
        ∃ n, Run step (fun n _ _ => 0 < n.stack.length) m n ∧
          n.stack = [.unset (.named [101])] :=
    ⟨_, Run.of_foldlM (w := removeOne) rfl, rfl, rfl, _, Run.of_path .refl (w := [.run, .run, .ret])
      ⟨_, rfl, Nat.one_pos, _, rfl, Nat.two_pos, _, rfl, Nat.two_pos, rfl⟩, rfl⟩
  have hworks := removeAllListeners_works_iff hm
  exact ⟨m, n, _, hm, hstack, hlisteners, hworks.1, hunset, rfl,
    hworks.2 _ [] hstack n _ _ hn hunset rfl _ (.inr rfl)⟩

/-- Nobody has ever listened to the event. -/
theorem removeAllListeners_throws :
    ∃ m, Run step (fun _ _ _ => True) init m ∧
      m.stack = [.removeAll (some (.named [102, 111, 111]))] ∧
      m.st.exec (.removeAll (some (.named [102, 111, 111]))) = .throw ∧ ¬ Works m := by
  obtain ⟨m, hm, hstack, hthrow⟩ : ∃ m, Run step (fun _ _ _ => True) init m ∧
      m.stack = [.removeAll (some (.named [102, 111, 111]))] ∧
      m.st.exec (.removeAll (some (.named [102, 111, 111]))) = .throw :=
    ⟨_, Run.of_foldlM (w := [.on .removeListener (.user 0), .run,
      .removeAllListeners (some (.named [102, 111, 111]))]) rfl, rfl, rfl⟩
  exact ⟨m, hm, hstack, hthrow, fun h => (h _ _ hstack rfl).returns hthrow⟩

end NodeCore.Events
