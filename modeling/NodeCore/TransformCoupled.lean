import NodeCore.TransformSides

/-!
What the two sides of a `Transform` and its `_transform` agree on.

A chunk that `_write` has been given is kept until `_read` passes it to `_transform`. While it
waits, the readable side has enough output and nobody waits for more.
-/

namespace NodeCore.TransformCoupled

open NodeCore.Encoding NodeCore.Reentrant NodeCore.Transform NodeCore.TransformSides
open NodeCore.ReadableEvents (Watched Mode)
open NodeCore.ReadableWake (Queued Wakes Wakeful)

variable {α σ : Type}

/-! ### Frames -/

/-- The frame of a write whose callback is in hand, or is about to be. -/
def isHeld : Frame α → Bool
  | .write _ | .afterPush _ => true
  | _ => false

/-- The frame is about to ask for a chunk. -/
def isBusy : Frame α → Bool
  | .read | .afterPush _ | .afterCb => true
  | _ => false

def writeOf : Frame α → Option ℕ
  | .write id => some id
  | _ => none

def isAfterPush : Frame α → Bool
  | .afterPush _ => true
  | _ => false

def isPush : Frame α → Bool
  | .push _ => true
  | _ => false

def held (k : List (Frame α)) : ℕ := k.countP isHeld

def Busy (k : List (Frame α)) : Prop := ∃ f ∈ k, isBusy f

/-- The chunks that `_write` is about to be called with. -/
def writes (k : List (Frame α)) : List ℕ := k.filterMap writeOf

/-- A frame that counts for nothing. -/
def neutral (f : Frame α) : Bool := !isHeld f && !isBusy f && !running f

/-- The code of the stream is about to go on from the first frame, or foreign code runs. -/
def Settled (k : List (Frame α)) : Prop := ∀ f ∈ k, running f = false

section Frames

variable {k : List (Frame α)} {f : Frame α}

lemma held_cons (f : Frame α) (k : List (Frame α)) :
    held (f :: k) = held k + (isHeld f).toNat := by
  rw [held, held, List.countP_cons]
  cases isHeld f <;> rfl

lemma held_append (k l : List (Frame α)) : held (k ++ l) = held k + held l :=
  List.countP_append

lemma busy_cons : Busy (f :: k) ↔ isBusy f = true ∨ Busy k := by
  simp [Busy]

lemma busy_append {k l : List (Frame α)} : Busy (k ++ l) ↔ Busy k ∨ Busy l := by
  simp [Busy, or_and_right, exists_or]

lemma writes_append (k l : List (Frame α)) : writes (k ++ l) = writes k ++ writes l :=
  List.filterMap_append

@[simp] lemma writes_cons_read (k : List (Frame α)) : writes (.read :: k) = writes k :=
  rfl

lemma writes_of_settled (h : Settled k) : writes k = [] := by
  refine List.filterMap_eq_nil_iff.mpr fun f hf => ?_
  have hrun := h f hf
  cases f with
  | write id => cases hrun
  | _ => rfl

/-- Frames that count for nothing. -/
structure Light (fs : List (Frame α)) : Prop where
  held : held fs = 0
  busy : ¬ Busy fs
  settled : Settled fs

lemma Light.settled_append {fs : List (Frame α)} (h : Light fs) (hk : Settled k) :
    Settled (fs ++ k) := fun f hf => (List.mem_append.mp hf).elim (h.settled f) (hk f)

lemma light_of_neutral {fs : List (Frame α)} (h : ∀ f ∈ fs, neutral f = true) :
    Light fs := by
  simp only [neutral, Bool.and_eq_true, Bool.not_eq_true'] at h
  refine ⟨?_, ?_, fun f hf => (h f hf).2⟩
  · exact List.countP_eq_zero.mpr fun f hf => by simp [(h f hf).1.1]
  · rintro ⟨f, hf, hb⟩
    rw [(h f hf).1.2] at hb
    cases hb

lemma light_writable (fs : List Writable.Frame) :
    Light (fs.map (Frame.writable (α := α))) :=
  light_of_neutral fun f hf => by
    obtain ⟨g, -, rfl⟩ := List.mem_map.mp hf
    rfl

lemma light_readable (fs : List Readable.Frame) :
    Light (fs.map (Frame.readable (α := α))) :=
  light_of_neutral fun f hf => by
    obtain ⟨g, -, rfl⟩ := List.mem_map.mp hf
    rfl

end Frames

/-! ### The invariant -/

/-- A chunk is kept for `_transform`. -/
def Waiting (t : State α σ) : Prop := t.writecb = true ∧ t.transforming = false

instance (t : State α σ) : Decidable (Waiting t) :=
  inferInstanceAs (Decidable (_ ∧ _))

/-- The chunk that waits. -/
def waiting (t : State α σ) : List ℕ := if Waiting t then t.writechunk.toList else []

/-- A chunk waits, and nothing on the stack is about to ask for it. -/
def Kept (t : State α σ) (k : List (Frame α)) : Prop := Waiting t ∧ ¬ Busy k

/-- Only the first frame may be one from which the code of the stream goes on. -/
structure Shaped (t : State α σ) (k : List (Frame α)) : Prop where
  settled : Settled k.tail
  pushes : ∀ f ∈ k.head?, isPush f → ∃ er l, k.tail = .afterPush er :: l
  prefinish : .prefinish ∈ k.head? → t.ws.writing = false ∧ t.ws.ending = true

/-- `_transform` and the two sides agree. -/
structure Coupled (t : State α σ) (k : List (Frame α)) : Prop where
  outstanding : t.ws.outstanding = t.writecb.toNat + held k
  transforming : t.transforming → t.writecb
  passed : t.passed.length = t.completed + t.transforming.toNat
  handed : t.ws.handed = t.passed ++ waiting t ++ writes k
  truthy : t.writecb → ∃ id, t.writechunk = some id ∧ t.truths.getD id false = true
  unneeded : Waiting t → t.needTransform = false
  reading : t.rs.st.reading → t.rs.st.ended = false →
    t.transforming ∨ t.needTransform ∨ Busy k
  kept : Kept t k → Awake t.rs ∧ t.rs.st.ended = false ∧ t.rs.st.reading = false
  flushes : ∀ f ∈ t.flushes, f.completed = f.accepted
  flushed : t.flushes ≠ [] → t.ws.ending = true
  shape : Shaped t k

section Coupled

variable {cfg : Config α σ} {t : State α σ} {k l : List (Frame α)}
  {f : Frame α}

lemma isPush_running (h : isPush f = true) : running f = true := by
  cases f with
  | push data => rfl
  | _ => cases h

lemma Shaped.of_settled (hk : Settled k) : Shaped t k := by
  have hnone {f : Frame α} (hf : f ∈ k.head?) (hrun : running f = true) : False := by
    rw [hk f (List.mem_of_mem_head? hf)] at hrun
    cases hrun
  exact ⟨fun f hf => hk f (List.mem_of_mem_tail hf),
    fun f hf hpush => (hnone hf (isPush_running hpush)).elim, fun hf => (hnone hf rfl).elim⟩

lemma Coupled.below (h : Coupled t (f :: k)) : Settled k := h.shape.settled

/-- Another stack with the same frames that count. -/
lemma Coupled.restack (h : Coupled t k) (hheld : held l = held k) (hbusy : Busy l ↔ Busy k)
    (hwrites : writes l = writes k) (hl : Settled l) : Coupled t l :=
  ⟨hheld ▸ h.outstanding, h.transforming, h.passed, hwrites ▸ h.handed, h.truthy, h.unneeded,
    fun hr he => by rw [hbusy]; exact h.reading hr he,
    fun hk => h.kept ⟨hk.1, fun hb => hk.2 (hbusy.mpr hb)⟩, h.flushes, h.flushed, .of_settled hl⟩

/-- Frames that count for nothing. -/
lemma Coupled.push (h : Coupled t k) (hk : Settled k) {fs : List (Frame α)}
    (hfs : Light fs) : Coupled t (fs ++ k) := by
  refine h.restack ?_ ?_ ?_ ?_
  · rw [held_append, hfs.held, Nat.zero_add]
  · rw [busy_append, or_iff_right hfs.busy]
  · rw [writes_append, writes_of_settled hfs.settled, List.nil_append]
  · exact hfs.settled_append hk

lemma Coupled.pop (h : Coupled t (f :: k)) (hheld : isHeld f = false) (hbusy : isBusy f = false) :
    Coupled t k := by
  refine h.restack ?_ ?_ ?_ h.below
  · rw [held_cons, hheld]
    rfl
  · rw [busy_cons, hbusy]
    simp
  · cases f with
    | write id => cases hheld
    | _ => rfl

lemma not_waiting (h : t.writecb = false) : ¬ Waiting t := fun hw => by
  rw [hw.1] at h
  cases h

/-- While a write is in hand, none waits. -/
lemma Coupled.inHand (h : Coupled t (f :: k)) (hf : isHeld f = true)
    (hone : t.ws.outstanding ≤ 1) :
    t.writecb = false ∧ t.transforming = false ∧ held k = 0 ∧ t.ws.outstanding = 1 := by
  have hout := h.outstanding
  rw [held_cons, hf, Bool.toNat_true] at hout
  have hcb : t.writecb = false := by
    cases hcb : t.writecb with
    | false => rfl
    | true =>
      rw [hcb, Bool.toNat_true] at hout
      omega
  have htr : t.transforming = false := by
    rw [← Bool.not_eq_true]
    intro htr
    rw [h.transforming htr] at hcb
    cases hcb
  exact ⟨hcb, htr, by omega, by omega⟩

/-! ### `_read` and `_write` -/

/-- `_read` passes the chunk that waits to `_transform`, or remembers that it has been called. -/
lemma read_cases (t : State α σ) :
    (∃ id, t.writechunk = some id ∧ Waiting t ∧ t._read =
      .call { t with transforming := true, passed := t.passed ++ [id] } []) ∨
    ((∀ id, t.writechunk = some id → t.truths.getD id false = true → ¬ Waiting t) ∧
      t._read = .ret { t with needTransform := true }) := by
  obtain ⟨ws, rs, need, transforming, writecb, writechunk, truths, passed, completed, fl, fg⟩ := t
  cases writechunk with
  | none => exact .inr ⟨nofun, rfl⟩
  | some id =>
    unfold State._read
    dsimp only
    split_ifs with hpass
    · simp only [Bool.and_eq_true, Bool.not_eq_true'] at hpass
      exact .inl ⟨id, rfl, ⟨hpass.1.2, hpass.2⟩, rfl⟩
    · refine .inr ⟨fun i hi htrue hw => hpass ?_, rfl⟩
      obtain rfl := Option.some.inj hi
      obtain ⟨hcb, htr⟩ := hw
      dsimp only at hcb htr htrue
      rw [htrue, hcb, htr]
      rfl

/-- The chunk that waits is passed on. -/
lemma passed_coupled {id : ℕ} (hk : Settled k) (hw : Waiting t) (hid : t.writechunk = some id)
    (htrue : t.truths.getD id false = true) (hout : t.ws.outstanding = 1 + held k)
    (hlen : t.passed.length = t.completed) (hhanded : t.ws.handed = t.passed ++ [id])
    (hflushes : ∀ f ∈ t.flushes, f.completed = f.accepted)
    (hflushed : t.flushes ≠ [] → t.ws.ending = true) :
    Coupled { t with transforming := true, passed := t.passed ++ [id] } k := by
  refine ⟨?_, fun _ => hw.1, ?_, ?_, fun _ => ⟨id, hid, htrue⟩, fun hw => (by cases hw.2),
    fun _ _ => .inl rfl, fun hw => (by cases hw.1.2), hflushes, hflushed, .of_settled hk⟩
  · rw [hout, hw.1]
    rfl
  · rw [List.length_append, hlen]
    rfl
  · rw [hhanded, waiting, if_neg (fun hw => by cases hw.2), writes_of_settled hk]
    simp

lemma Coupled.read (h : Coupled t (.read :: k)) : t._read.Keeps Coupled k := by
  have hk := h.below
  rcases read_cases t with ⟨id, hid, hw, hr⟩ | ⟨hnone, hr⟩
  · have hout := h.outstanding
    have hlen := h.passed
    have hhanded := h.handed
    obtain ⟨i, hi, htrue⟩ := h.truthy hw.1
    obtain rfl := Option.some.inj (hid.symm.trans hi)
    rw [hw.1] at hout
    rw [hw.2] at hlen
    rw [waiting, if_pos hw, hid, writes_cons_read, writes_of_settled hk, List.append_nil] at hhanded
    rw [hr]
    exact passed_coupled hk hw hid htrue hout hlen hhanded h.flushes h.flushed
  · have hw : ¬ Waiting t := fun hw => by
      obtain ⟨id, hid, htrue⟩ := h.truthy hw.1
      exact hnone id hid htrue hw
    have hasked : Coupled { t with needTransform := true } k :=
      ⟨h.outstanding, h.transforming, h.passed, h.handed, h.truthy, fun h => absurd h hw,
        fun _ _ => .inr (.inl rfl), fun h => absurd h.1 hw, h.flushes, h.flushed, .of_settled hk⟩
    rw [hr]
    exact hasked

/-- Nobody waits for output while there is enough. -/
lemma awake_of_enough (h : Wakes t.rs) (henough : t.wanted = false) : Awake t.rs := by
  simp only [State.wanted, Bool.or_eq_false_iff] at henough
  refine fun hasleep => (h.armed hasleep).resolve_right fun hn => ?_
  rw [hn.1] at henough
  cases henough.1

lemma Coupled.write {id : ℕ} (h : Coupled t (.write id :: k)) (hone : t.ws.outstanding ≤ 1)
    (htrue : t.truths.getD id false = true) (hwakes : Wakes t.rs)
    (hopen : t.rs.st.ended = true → ¬ Busy k → t.needTransform = true ∨ t.wanted = true) :
    (t._write id).Keeps Coupled k := by
  obtain ⟨hcb, htr, hheld, hout⟩ := h.inHand rfl hone
  have hk := h.below
  have hlen := h.passed
  have hhanded : t.ws.handed = t.passed ++ [id] := by
    rw [h.handed, waiting, if_neg (not_waiting hcb), List.append_nil]
    exact congrArg (t.passed ++ id :: ·) (writes_of_settled hk)
  have hw : Waiting { t with writecb := true, writechunk := some id } := ⟨rfl, htr⟩
  rw [htr] at hlen
  unfold State._write
  dsimp only
  split_ifs with hread
  · rcases read_cases { t with writecb := true, writechunk := some id } with
      ⟨i, hi, -, hr⟩ | ⟨hnone, -⟩
    · obtain rfl := Option.some.inj hi
      rw [hr]
      have hout' : t.ws.outstanding = 1 + held k := by omega
      exact passed_coupled hk hw rfl htrue hout' hlen hhanded h.flushes h.flushed
    · exact absurd hw (hnone id rfl htrue)
  · -- the chunk waits, since there is enough output
    have henough : t.needTransform = false ∧ t.wanted = false := by
      simpa [htr, State.wanted] using hread
    have hclosed : ¬ Busy k → t.rs.st.ended = false := fun hb => by
      rw [← Bool.not_eq_true]
      intro he
      rcases hopen he hb with hneed | hwanted
      · rw [henough.1] at hneed
        cases hneed
      · rw [henough.2] at hwanted
        cases hwanted
    have hidle : t.rs.st.reading = true → t.rs.st.ended = false → Busy k := fun hr he => by
      rcases h.reading hr he with hr | hr | hr
      · rw [htr] at hr
        cases hr
      · rw [henough.1] at hr
        cases hr
      · exact (busy_cons.mp hr).resolve_left nofun
    have hgiven : Coupled { t with writecb := true, writechunk := some id } k := by
      refine ⟨?_, fun _ => rfl, ?_, ?_, fun _ => ⟨id, rfl, htrue⟩, fun _ => henough.1,
        fun hr he => .inr (.inr (hidle hr he)), fun hkept => ?_, h.flushes, h.flushed,
        .of_settled hk⟩
      · rw [hout, hheld]
        rfl
      · rw [hlen, htr]
      · rw [hhanded, waiting, if_pos hw, writes_of_settled hk, List.append_nil]
        rfl
      · refine ⟨awake_of_enough hwakes henough.2, hclosed hkept.2, ?_⟩
        rw [← Bool.not_eq_true]
        exact fun hr => hkept.2 (hidle hr (hclosed hkept.2))
    exact hgiven

/-! ### The writable side -/

/-- What the writable side does that is not seen by `_transform`. -/
lemma Coupled.still (h : Coupled t k) (hk : Settled k) {s : Writable.State}
    (hhanded : s.handed = t.ws.handed) (hout : s.outstanding = t.ws.outstanding)
    (hending : t.ws.ending = true → s.ending = true) : Coupled { t with ws := s } k :=
  ⟨hout.trans h.outstanding, h.transforming, h.passed, hhanded.trans h.handed, h.truthy, h.unneeded,
    h.reading, h.kept, h.flushes, fun hf => hending (h.flushed hf), .of_settled hk⟩

lemma Coupled.pushPrefinish (h : Coupled t k) (hk : Settled k) (hw : t.ws.writing = false)
    (he : t.ws.ending = true) : Coupled t (.prefinish :: k) := by
  refine ⟨?_, h.transforming, h.passed, h.handed, h.truthy, h.unneeded, fun hr ho => ?_,
    fun hkept => h.kept ⟨hkept.1, fun hb => hkept.2 (busy_cons.mpr (.inr hb))⟩, h.flushes,
    h.flushed, ⟨hk, fun f hf hp => ?_, fun _ => ⟨hw, he⟩⟩⟩
  · rw [h.outstanding, held_cons]
    rfl
  · rw [busy_cons]
    exact (h.reading hr ho).imp_right fun h => h.imp_right .inr
  · obtain rfl := Option.some.inj hf
    cases hp

/-- `_write` is about to be called. -/
lemma Coupled.pushWrite (h : Coupled t k) (hk : Settled k) {s : Writable.State} {id : ℕ}
    (hhanded : s.handed = t.ws.handed ++ [id]) (hout : s.outstanding = t.ws.outstanding + 1)
    (hending : t.ws.ending = true → s.ending = true) :
    Coupled { t with ws := s } (.write id :: k) := by
  refine ⟨?_, h.transforming, h.passed, ?_, h.truthy, h.unneeded, fun hr ho => ?_,
    fun hkept => h.kept ⟨hkept.1, fun hb => hkept.2 (busy_cons.mpr (.inr hb))⟩, h.flushes,
    fun hf => hending (h.flushed hf), ⟨hk, fun f hf hp => ?_, fun hf => ?_⟩⟩
  · rw [hout, h.outstanding, held_cons, Nat.add_assoc]
    rfl
  · rw [hhanded, h.handed, writes_of_settled hk, List.append_nil]
    exact congrArg (_ ++ id :: ·) (writes_of_settled hk).symm
  · rw [busy_cons]
    exact (h.reading hr ho).imp_right fun h => h.imp_right .inr
  · obtain rfl := Option.some.inj hf
    cases hp
  · cases hf

/-- A function of the writable side, from a state that it may have changed before. -/
lemma onWritable_coupled {u : Writable.State} {r : Writable.Result}
    (h : Coupled { t with ws := u } k) (hk : Settled k) (hp : u.prefinished = t.ws.prefinished)
    (hr : Hands u r) : (t.onWritable r).Keeps Coupled k := by
  rcases hr with hr | ⟨id, fs, hfs, hhanded, hout, hending⟩
  · have hs : Coupled { t with ws := r.state } k :=
      h.still hk hr.handed hr.outstanding hr.ending
    cases r with
    | ret s => exact hs
    | call s fs =>
      have hl := light_writable (α := α) fs
      have hrest : Coupled { t with ws := s } (fs.map .writable ++ k) := hs.push hk hl
      have hset := hl.settled_append hk
      unfold State.onWritable Res.within
      dsimp only
      split
      · rename_i gs
        exact absurd rfl (hr.frames gs)
      · split_ifs with hpre
        · simp only [Bool.and_eq_true, Bool.not_eq_true'] at hpre
          rcases hr.prefinished hpre.2 with hold | ⟨hw, he⟩
          · rw [hp, hpre.1] at hold
            cases hold
          · exact hrest.pushPrefinish hset (hr.writing.trans hw) he
        · exact hrest
  · cases r with
    | ret s => cases hfs
    | call s gs =>
      obtain rfl : gs = .doWrite :: fs := hfs
      have hl := light_writable (α := α) (.doWrite :: fs)
      have hrest := h.push hk hl
      have hset := hl.settled_append hk
      have hwrite := hrest.pushWrite hset hhanded hout hending
      have hlast : s.handed.getLastD 0 = id := by
        have hs : s.handed = u.handed ++ [id] := hhanded
        rw [hs, List.getLastD_concat]
      unfold State.onWritable Res.within
      dsimp only
      rw [Res.keeps_call, hlast]
      exact hwrite

/-! ### The readable side -/

/-- `_read` is about to be called. -/
lemma Coupled.pushRead (h : Coupled t k) (hk : Settled k) {w : Watched α σ} {need : Bool}
    (hneed : Waiting t → need = false) :
    Coupled { t with needTransform := need, rs := w } (.read :: k) := by
  have hbusy : Busy (.read :: k) := busy_cons.mpr (.inl rfl)
  refine ⟨?_, h.transforming, h.passed, h.handed, h.truthy, hneed, fun _ _ => .inr (.inr hbusy),
    fun hkept => absurd hbusy hkept.2, h.flushes, h.flushed,
    ⟨hk, fun f hf hp => ?_, fun hf => (by cases hf)⟩⟩
  · rw [h.outstanding, held_cons]
    rfl
  · obtain rfl := Option.some.inj hf
    cases hp

/-- A function of the readable side, called with or without a need for a chunk. -/
lemma onReadable_fed {r : ReadableEvents.Outcome α σ} (need : Bool) (h : Coupled t k)
    (hk : Settled k) (hneed : Waiting t → need = false)
    (hreading : ¬ Reads r → r.state.st.reading = true → r.state.st.ended = false →
      t.transforming = true ∨ need = true ∨ Busy k)
    (hkept : ¬ Reads r → Kept t k →
      Awake r.state ∧ r.state.st.ended = false ∧ r.state.st.reading = false) :
    (State.onReadable { t with needTransform := need } r).Keeps Coupled k := by
  have hplain (hreads : ¬ Reads r) :
      Coupled { t with needTransform := need, rs := r.state } k :=
    ⟨h.outstanding, h.transforming, h.passed, h.handed, h.truthy, hneed, hreading hreads,
      hkept hreads, h.flushes, h.flushed, .of_settled hk⟩
  cases r with
  | ret w => exact hplain fun ⟨_, _, _, _, hfs⟩ => (by cases hfs)
  | call w fs =>
    have hl := light_readable (α := α) fs
    unfold State.onReadable Res.within
    dsimp only
    split
    · rename_i n nOrig flag gs
      exact (h.push hk hl).pushRead (hl.settled_append hk) hneed
    · rename_i hno
      exact (hplain fun ⟨n, nOrig, flag, gs, hgs⟩ => hno n nOrig flag gs hgs).push hk hl

lemma onReadable_coupled {r : ReadableEvents.Outcome α σ} {C : Prop} (h : Coupled t k)
    (hk : Settled k) (hr : Quiet C t.rs r) (hC : Kept t k → C) :
    (t.onReadable r).Keeps Coupled k := by
  refine onReadable_fed t.needTransform h hk h.unneeded (fun hreads => ?_)
    fun hreads hkept => ?_
  · obtain ⟨hreading, hended, -⟩ := hr.resolve_left hreads
    exact fun hr he => h.reading (hreading hr) (hended ▸ he)
  · obtain ⟨hreading, hended, hawake⟩ := hr.resolve_left hreads
    obtain ⟨ha, he, hidle⟩ := h.kept hkept
    refine ⟨hawake (hC hkept) ha, hended.trans he, ?_⟩
    rw [← Bool.not_eq_true] at hidle ⊢
    exact fun hr => hidle (hreading hr)

/-- The readable side has asked for output, and `push` is the answer. -/
def Hungry (t : State α σ) (k : List (Frame α)) : Prop :=
  t.rs.st.reading = true ∧ t.rs.st.ended = false ∧ t.transforming = false ∧ ¬ Busy k

/-- The chunk answers who has asked for it; while a chunk is kept it is not `null`. -/
def Answers (mode : Mode α σ) (t : State α σ) (k : List (Frame α))
    (chunk : Option (Watched.Given α)) : Prop :=
  (Hungry t k → ∃ c, chunk = some c ∧ Takes mode t.rs c) ∧ (chunk = some .null → ¬ Kept t k)

lemma push_coupled (chunk : Option (Watched.Given α)) {mode : Mode α σ} (h : Coupled t k)
    (hk : Settled k) (hchunk : Answers mode t k chunk) :
    (t.push (chunk.elim (.ret t.rs) (t.rs.readableAddChunk mode))).Keeps Coupled k := by
  have hhungry (hr : t.rs.st.reading = true) (he : t.rs.st.ended = false) :
      t.transforming = true ∨ Busy k ∨ Hungry t k := by
    by_cases htr : t.transforming = true
    · exact .inl htr
    · by_cases hb : Busy k
      · exact .inr (.inl hb)
      · exact .inr (.inr ⟨hr, he, by simpa using htr, hb⟩)
  unfold State.push
  refine onReadable_fed false h hk (fun _ => rfl) (fun hreads hr he => ?_) fun hreads hkept => ?_
  · cases chunk with
    | none =>
      rcases hhungry hr he with htr | hb | hhungry
      · exact .inl htr
      · exact .inr (.inr hb)
      · obtain ⟨c, hc, -⟩ := hchunk.1 hhungry
        cases hc
    | some c =>
      by_cases hnull : c = .null
      · subst hnull
        exact absurd (hr.symm.trans (addNull_reading _)) Bool.noConfusion
      · obtain ⟨hreading, hended, -⟩ := (readableAddChunk_quiet t.rs hnull).resolve_left hreads
        rcases hhungry (hreading hr) (hended ▸ he) with htr | hb | hhungry
        · exact .inl htr
        · exact .inr (.inr hb)
        · obtain ⟨c', hc, htakes⟩ := hchunk.1 hhungry
          obtain rfl := Option.some.inj hc
          have hdone := readableAddChunk_takes htakes hhungry.2.1
          exact absurd (hr.symm.trans hdone) Bool.noConfusion
  · cases chunk with
    | none => exact h.kept hkept
    | some c =>
      have hnull : c ≠ .null := fun hc => hchunk.2 (congrArg some hc) hkept
      obtain ⟨hreading, hended, hawake⟩ := (readableAddChunk_quiet t.rs hnull).resolve_left hreads
      obtain ⟨ha, he, hidle⟩ := h.kept hkept
      refine ⟨hawake trivial ha, hended.trans he, ?_⟩
      rw [← Bool.not_eq_true] at hidle ⊢
      exact fun hr => hidle (hreading hr)

lemma unshift_coupled {chunk : Option (List α)} {mode : Mode α σ} (h : Coupled t k)
    (hk : Settled k) (hchunk : chunk = none → ¬ Kept t k) :
    (t.onReadable (t.rs.unshift mode chunk)).Keeps Coupled k := by
  cases chunk with
  | none =>
    refine onReadable_fed t.needTransform h hk h.unneeded (fun _ hr => ?_)
      fun _ hkept => absurd hkept (hchunk rfl)
    exact absurd (hr.symm.trans (addNull_reading _)) Bool.noConfusion
  | some chunk => exact onReadable_coupled h hk (unshift_quiet t.rs chunk) fun _ => trivial

/-! ### `afterTransform` -/

lemma Coupled.transformed {er : Bool} {data : Data α} (h : Coupled t k) (hk : Settled k)
    (hlt : t.completed < t.passed.length) : (t.afterTransform er data).Keeps Coupled k := by
  have hlen := h.passed
  have htr : t.transforming = true := by
    by_contra hne
    rw [Bool.eq_false_of_not_eq_true hne, Bool.toNat_false] at hlen
    omega
  have hcb := h.transforming htr
  have hout := h.outstanding
  have hhanded := h.handed
  rw [htr, Bool.toNat_true] at hlen
  rw [hcb, Bool.toNat_true] at hout
  have hno : ¬ Waiting t := fun hw => by
    rw [hw.2] at htr
    cases htr
  rw [waiting, if_neg hno] at hhanded
  have hbusy : Busy (.push data :: .afterPush er :: k) :=
    busy_cons.mpr (.inr (busy_cons.mpr (.inl rfl)))
  have hdone : Coupled { t with
      transforming := false, completed := t.completed + 1, writechunk := none, writecb := false }
      (.push data :: .afterPush er :: k) := by
    refine ⟨?_, nofun, hlen, ?_, nofun, fun hw => (by cases hw.1), fun _ _ => .inr (.inr hbusy),
      fun hkept => absurd hbusy hkept.2, h.flushes, h.flushed, ⟨fun f hf => ?_, fun f hf _ => ?_,
      fun hf => (by cases hf)⟩⟩
    · rw [hout, held_cons, held_cons, Nat.add_comm]
      exact (Nat.zero_add _).symm
    · rw [hhanded, waiting, if_neg (fun hw => by cases hw.1)]
      rfl
    · rcases List.mem_cons.mp hf with rfl | hf
      · rfl
      · exact hk f hf
    · exact ⟨er, k, rfl⟩
  unfold State.afterTransform
  dsimp only
  rw [if_neg (by simp [hcb])]
  exact hdone

/-- The data is pushed while `afterTransform` has more to do. -/
lemma Coupled.pushData {data : Data α} (h : Coupled t (.push data :: k)) :
    (t.pushData cfg data).Keeps Coupled k := by
  have hk := h.below
  obtain ⟨er, l, hl⟩ := h.shape.pushes (.push data) rfl rfl
  have hpop := h.pop rfl rfl
  have hbusy : Busy k := by
    rw [show k = .afterPush er :: l from hl]
    exact busy_cons.mpr (.inl rfl)
  have hpush (chunk : Option (Watched.Given α)) :
      (t.push (chunk.elim (.ret t.rs) (t.rs.readableAddChunk cfg.mode))).Keeps Coupled k :=
    push_coupled chunk hpop hk ⟨fun hh => absurd hbusy hh.2.2.2, fun _ hkept => hkept.2 hbusy⟩
  have hchunk (c : Readable.Chunk) : (t.push (t.rs.push cfg.mode c none)).Keeps Coupled k := by
    rw [push_given]
    exact hpush _
  cases data with
  | null => exact hpop
  | chunk c =>
    cases c with
    | null => exact hpop
    | invalid => exact hchunk .invalid
    | buf b => exact hchunk (.buf b)
    | str text => exact hchunk (.str text)
  | object o => exact hpush (some (givenObject (some o) false))

lemma Coupled.afterCb (h : Coupled t (.afterCb :: k)) (hwakes : Wakes t.rs)
    (hopen : Kept t k → t.rs.st.ended = true → t.wanted = true) : t.afterCb.Keeps Coupled k := by
  have hk := h.below
  have hdone (hkept : Kept t k → Awake t.rs ∧ t.rs.st.ended = false) :
      Coupled { t with rs := { t.rs with st := { t.rs.st with reading := false } } } k :=
    ⟨h.outstanding, h.transforming, h.passed, h.handed, h.truthy, h.unneeded, nofun,
      fun hk => ⟨(hkept hk).1, (hkept hk).2, rfl⟩, h.flushes, h.flushed, .of_settled hk⟩
  have hbusy : Busy (.read :: k) := busy_cons.mpr (.inl rfl)
  have hread : Coupled { t with rs := { t.rs with st := { t.rs.st with reading := false } } }
      (.read :: k) :=
    ⟨h.outstanding, h.transforming, h.passed, h.handed, h.truthy, h.unneeded, nofun,
      fun hk => absurd hbusy hk.2, h.flushes, h.flushed,
      ⟨hk, fun f hf hp => (by obtain rfl := Option.some.inj hf; cases hp), fun hf => (by cases hf)⟩⟩
  unfold State.afterCb
  dsimp only
  split_ifs with hwanted
  · exact hread.read
  · have hwanted : t.wanted = false := Bool.eq_false_of_not_eq_true hwanted
    refine hdone fun hkept => ⟨awake_of_enough hwakes hwanted, ?_⟩
    rw [← Bool.not_eq_true]
    intro he
    rw [hopen hkept he] at hwanted
    cases hwanted

lemma Coupled.afterPush (h : Coupled t (.afterPush false :: k)) (hone : t.ws.outstanding ≤ 1)
    (hwakes : Wakes t.rs) : (t.afterPush cfg false).Keeps Coupled k := by
  obtain ⟨hcb, htr, hheld, hout⟩ := h.inHand rfl hone
  have hk := h.below
  have hbusy : Busy (.afterCb :: k) := busy_cons.mpr (.inl rfl)
  have hafter : Coupled { t with ws := Writable.onwriteStateUpdate t.ws } (.afterCb :: k) := by
    refine ⟨?_, h.transforming, h.passed, h.handed, h.truthy, h.unneeded,
      fun _ _ => .inr (.inr hbusy), fun hkept => absurd hbusy hkept.2, h.flushes, h.flushed,
      .of_settled fun f hf => ?_⟩
    · rw [held_cons, hheld, hcb]
      exact congrArg (· - 1) hout
    · rcases List.mem_cons.mp hf with rfl | hf
      · rfl
      · exact hk f hf
  have hkeeps := onWritable_coupled hafter (fun f hf => by
    rcases List.mem_cons.mp hf with rfl | hf
    · rfl
    · exact hk f hf) rfl (onwrite_hands cfg.writable rfl t.ws)
  unfold State.afterPush
  cases hr : Writable.onwrite cfg.writable false t.ws with
  | ret s =>
    rw [hr] at hkeeps
    have hs : Coupled { t with ws := s } (.afterCb :: k) := hkeeps
    exact hs.afterCb hwakes fun hkept => absurd hkept.1 (not_waiting hcb)
  | call s fs =>
    rw [hr] at hkeeps
    show Coupled { t with ws := s } (_ ++ _ ++ [.afterCb] ++ k)
    rw [List.append_assoc]
    exact hkeeps

/-! ### The end -/

lemma done_coupled {er : Bool} (h : Coupled t k) (hk : Settled k)
    (hnull : er = false → t.ws.length = 0 → t.transforming = false → ¬ Kept t k) :
    (t.done cfg er).Keeps Coupled k := by
  unfold State.done
  split_ifs with her hlen
  · exact h
  · exact h
  · simp only [Bool.or_eq_true, decide_eq_true_eq, not_or, not_not] at hlen
    refine push_coupled (some .null) h hk ⟨fun _ => ⟨_, rfl, trivial⟩, fun _ => ?_⟩
    exact hnull (by simpa using her) hlen.1 (by simpa using hlen.2)

lemma Coupled.prefinish (h : Coupled t (.prefinish :: k))
    (hout : t.ws.outstanding = if t.ws.writing then 1 else 0)
    (hall : cfg.flush = true → t.ws.handed.length = t.ws.accepted) :
    (t.prefinish cfg).Keeps Coupled k := by
  have hk := h.below
  obtain ⟨hw, he⟩ := h.shape.prefinish rfl
  have hcount := h.outstanding
  rw [hout, hw, if_neg Bool.false_ne_true] at hcount
  have hcb : t.writecb = false := by
    cases hcb : t.writecb with
    | false => rfl
    | true =>
      rw [hcb, Bool.toNat_true] at hcount
      omega
  have htr : t.transforming = false := by
    rw [← Bool.not_eq_true]
    intro htr
    rw [h.transforming htr] at hcb
    cases hcb
  have hpop : Coupled t k := h.pop rfl rfl
  have hlight : Light [(.listeners : Frame α)] := light_of_neutral fun f hf => by
    obtain rfl := List.mem_singleton.mp hf
    rfl
  have hlisten : Coupled t (.listeners :: k) := hpop.push hk hlight
  have hset : Settled (.listeners :: k) := hlight.settled_append hk
  unfold State.prefinish
  refine Res.Keeps.andThen (I := Coupled) ?_ fun u hu => hu.pop rfl rfl
  split_ifs with hflush
  · have hlen : t.completed = t.ws.accepted := by
      have hpassed := h.passed
      rw [htr, Bool.toNat_false] at hpassed
      rw [← hall hflush, hpop.handed, waiting, if_neg (not_waiting hcb), writes_of_settled hk]
      simpa using hpassed.symm
    refine ⟨hlisten.outstanding, hlisten.transforming, hlisten.passed, hlisten.handed,
      hlisten.truthy, hlisten.unneeded, hlisten.reading, hlisten.kept, fun f hf => ?_, fun _ => he,
      .of_settled hset⟩
    rcases List.mem_append.mp hf with hf | hf
    · exact h.flushes f hf
    · obtain rfl := List.mem_singleton.mp hf
      exact hlen
  · exact done_coupled hlisten hset fun _ _ _ hkept => absurd hkept.1 (not_waiting hcb)

/-! ### Frames -/

lemma getD_of_prefix {l l' : List Bool} (h : l <+: l') {i : ℕ} (hi : l.getD i false = true) :
    l'.getD i false = true := by
  obtain ⟨m, rfl⟩ := h
  rw [List.getD_eq_getElem?_getD] at hi ⊢
  cases hl : l[i]? with
  | none =>
    rw [hl] at hi
    cases hi
  | some b =>
    obtain ⟨hlt, -⟩ := List.getElem?_eq_some_iff.mp hl
    rw [List.getElem?_append_left hlt]
    exact hi

/-- Only accepted writes are added. -/
lemma write_coupled {chunk : Writable.Chunk} {encoding : EncArg} {object : Bool}
    (h : Coupled t k) (hk : Settled k) : (t.write cfg chunk encoding object).Keeps Coupled k := by
  have htruths {truths : List Bool} (hle : t.truths <+: truths) :
      Coupled { t with truths := truths } k :=
    ⟨h.outstanding, h.transforming, h.passed, h.handed, fun hcb => by
      obtain ⟨id, hid, htrue⟩ := h.truthy hcb
      exact ⟨id, hid, getD_of_prefix hle htrue⟩, h.unneeded, h.reading, h.kept, h.flushes,
      h.flushed, .of_settled hk⟩
  unfold State.write
  refine onWritable_coupled (htruths ?_) hk rfl (write_hands cfg.writable t.ws chunk encoding)
  split_ifs
  · exact List.prefix_rfl
  · exact List.prefix_append _ _

/-- The frames of the one side; the others are foreign code to it. -/
def toWritable : Frame α → Writable.Frame
  | .writable f => f
  | _ => .user

def toReadable : Frame α → Readable.Frame
  | .readable f => f
  | _ => .user

/-- What a frame has to meet so that no chunk is lost: `_write` is given a truthy chunk, the
readable side is open while a chunk is kept, and neither side loses anything. -/
def Heeds (cfg : Config α σ) (t : State α σ) (f : Frame α)
    (k : List (Frame α)) : Prop :=
  match f with
  | .write id => t.truths.getD id false = true ∧
      (t.rs.st.ended = true → ¬ Busy k → t.needTransform = true ∨ t.wanted = true)
  | .afterPush er => er = false ∧ WritableFinish.SmoothOnwrite t.ws
  | .afterCb => Kept t k → t.rs.st.ended = true → t.wanted = true
  | .prefinish => cfg.flush = true → WritableClear.remaining t.ws (k.map toWritable) = []
  | .readable f => ReadableWake.Minds cfg.mode t.rs f ∧ (Kept t k → FedFrame cfg.mode t.rs f)
  | _ => True

/-- What is known of the two sides. -/
structure Sides (t : State α σ) (k : List (Frame α)) : Prop where
  outstanding : t.ws.outstanding = if t.ws.writing then 1 else 0
  wakes : Wakes t.rs
  ordered : WritableOrder.Ordered t.ws (k.map toWritable)

/-- With nothing left, everything has been handed over. -/
lemma handed_length {s : Writable.State} {l : List Writable.Frame}
    (h : WritableOrder.Ordered s l) (hleft : WritableClear.remaining s l = []) :
    s.handed.length = s.accepted := by
  have hqueue := h.queue
  rw [hleft, WritableOrder.Queue, List.map_nil, List.append_nil] at hqueue
  rw [hqueue, List.length_range]

lemma exec_coupled (h : Coupled t (f :: k)) (hsides : Sides t (f :: k)) (hf : Heeds cfg t f k) :
    (State.exec cfg t f).Keeps Coupled k := by
  have hk := h.below
  have hone : t.ws.outstanding ≤ 1 := by
    rw [hsides.outstanding]
    split_ifs <;> omega
  cases f with
  | user => exact h.pop rfl rfl
  | writable f => exact onWritable_coupled (h.pop rfl rfl) hk rfl (exec_hands cfg.writable t.ws f)
  | readable f => exact onReadable_coupled (h.pop rfl rfl) hk (exec_quiet t.rs f) hf.2
  | write id => exact h.write hone hf.1 hsides.wakes hf.2
  | read => exact h.read
  | prefinish =>
    exact h.prefinish hsides.outstanding fun hflush =>
      handed_length (hsides.ordered.pop rfl) (hf hflush)
  | listeners => exact h.pop rfl rfl
  | push data => exact h.pushData
  | afterPush er =>
    obtain rfl : er = false := hf.1
    exact h.afterPush hone hsides.wakes
  | afterCb => exact h.afterCb hsides.wakes hf

end Coupled

end NodeCore.TransformCoupled
