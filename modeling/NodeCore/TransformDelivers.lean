import NodeCore.TransformCoupled

/-!
A `Transform` passes every chunk to `_transform`.

To each side the other one is foreign code, so that each keeps what it keeps on its own.
-/

namespace NodeCore.TransformDelivers

open NodeCore.Encoding NodeCore.Reentrant NodeCore.Transform NodeCore.TransformSides
open NodeCore.TransformCoupled
open NodeCore.ReadableEvents (Watched Mode)
open NodeCore.ReadableWake (Queued Wakes Wakeful Apart Clear)
open NodeCore.WritableOrder (Ordered InOrder)
open NodeCore.WritableFinish (Sound Smooth)

variable {α σ : Type}

/-! ### Each side on its own -/

/-- The writable side loses nothing. -/
def Written (cfg : Config α σ) (t : State α σ) (k : List (Frame α)) : Prop :=
  Ordered t.ws (k.map toWritable) ∧ Sound cfg.writable t.ws (k.map toWritable)

/-- The readable side leaves nobody asleep. -/
def Woken (t : State α σ) (k : List (Frame α)) : Prop :=
  Wakeful t.rs (k.map toReadable)

section Sides

variable {cfg : Config α σ} {t : State α σ} {k : List (Frame α)}
  {f : Frame α} {r : Outcome α σ}

lemma Written.push (h : Written cfg t k) (hf : toWritable f = .user) : Written cfg t (f :: k) := by
  unfold Written
  rw [List.map_cons, hf]
  exact ⟨h.1.push rfl, h.2.push rfl rfl⟩

lemma Written.pop (h : Written cfg t (f :: k)) (hf : toWritable f = .user) : Written cfg t k := by
  unfold Written at h
  rw [List.map_cons, hf] at h
  exact ⟨h.1.pop rfl, h.2.pop rfl rfl⟩

lemma Woken.push (h : Woken t k) (hf : toReadable f = .user) : Woken t (f :: k) := by
  unfold Woken
  rw [List.map_cons, hf]
  exact ⟨h.1, (Clear.user h.2).apart⟩

lemma Woken.pop (h : Woken t (f :: k)) : Woken t k := ⟨h.1, h.2.tail⟩

/-- The function leaves the writable side alone. -/
structure OffWritable (t : State α σ) (r : Outcome α σ) : Prop where
  state : r.state.ws = t.ws
  frames : ∀ f ∈ r.frames, toWritable f = .user

/-- The function leaves the readable side alone. -/
structure OffReadable (t : State α σ) (r : Outcome α σ) : Prop where
  state : r.state.rs = t.rs
  frames : ∀ f ∈ r.frames, toReadable f = .user

lemma OffWritable.keeps (h : OffWritable t r) (hk : Written cfg t k) :
    r.Keeps (Written cfg) k := by
  refine Res.Keeps.of_push ?_ fun f hf l hl => hl.push (h.frames f hf)
  rw [Written, h.state]
  exact hk

lemma OffReadable.keeps (h : OffReadable t r) (hk : Woken t k) : r.Keeps Woken k := by
  refine Res.Keeps.of_push ?_ fun f hf l hl => hl.push (h.frames f hf)
  rw [Woken, h.state]
  exact hk

lemma onWritable_written {w : Writable.Result}
    (h : w.Keeps (fun s l => Ordered s l ∧ Sound cfg.writable s l) (k.map toWritable)) :
    (t.onWritable w).Keeps (Written cfg) k := by
  refine Res.Keeps.within (g := State.ws) (p := toWritable) (fun _ => rfl) (fun _ => rfl) ?_ h
  intro s fs l hl
  split
  · exact ⟨hl.1.push rfl, hl.2.push rfl rfl⟩
  · split_ifs
    · exact ⟨hl.1.push rfl, hl.2.push rfl rfl⟩
    · exact hl

lemma onReadable_woken {w : ReadableEvents.Outcome α σ}
    (h : w.Keeps Wakeful (k.map toReadable)) : (t.onReadable w).Keeps Woken k := by
  refine Res.Keeps.within (g := State.rs) (p := toReadable) (fun _ => rfl) (fun _ => rfl) ?_ h
  intro w fs l hl
  split
  · exact ⟨hl.1, (Clear.user hl.2).apart⟩
  · exact hl

lemma onWritable_off (t : State α σ) (w : Writable.Result) :
    OffReadable t (t.onWritable w) := by
  cases w with
  | ret s => exact ⟨rfl, nofun⟩
  | call s fs =>
    refine ⟨rfl, fun f hf => ?_⟩
    unfold State.onWritable Res.within at hf
    rcases List.mem_append.mp hf with hf | hf
    · dsimp only at hf
      split at hf
      · obtain rfl := List.mem_singleton.mp hf
        rfl
      · split_ifs at hf
        · obtain rfl := List.mem_singleton.mp hf
          rfl
        · cases hf
    · obtain ⟨g, -, rfl⟩ := List.mem_map.mp hf
      rfl

lemma onReadable_off (t : State α σ) (w : ReadableEvents.Outcome α σ) :
    OffWritable t (t.onReadable w) := by
  cases w with
  | ret s => exact ⟨rfl, nofun⟩
  | call s fs =>
    refine ⟨rfl, fun f hf => ?_⟩
    unfold State.onReadable Res.within at hf
    rcases List.mem_append.mp hf with hf | hf
    · dsimp only at hf
      split at hf
      · obtain rfl := List.mem_singleton.mp hf
        rfl
      · cases hf
    · obtain ⟨g, -, rfl⟩ := List.mem_map.mp hf
      rfl

/-! ### `_transform` -/

lemma read_off (t : State α σ) : OffWritable t t._read ∧ OffReadable t t._read := by
  rcases read_cases t with ⟨id, -, -, hr⟩ | ⟨-, hr⟩
  · rw [hr]
    exact ⟨⟨rfl, nofun⟩, rfl, nofun⟩
  · rw [hr]
    exact ⟨⟨rfl, nofun⟩, rfl, nofun⟩

lemma write_off (t : State α σ) (id : ℕ) :
    OffWritable t (t._write id) ∧ OffReadable t (t._write id) := by
  unfold State._write
  dsimp only
  split_ifs
  · have hread := read_off { t with writecb := true, writechunk := some id }
    exact ⟨⟨hread.1.state, hread.1.frames⟩, hread.2.state, hread.2.frames⟩
  · exact ⟨⟨rfl, nofun⟩, rfl, nofun⟩

lemma afterCb_off (t : State α σ) : OffWritable t t.afterCb := by
  unfold State.afterCb
  dsimp only
  split_ifs
  · have hread := (read_off
      { t with rs := { t.rs with st := { t.rs.st with reading := false } } }).1
    exact ⟨hread.state, hread.frames⟩
  · exact ⟨rfl, nofun⟩

lemma Woken.afterCb (h : Woken t k) : t.afterCb.Keeps Woken k := by
  have hdone : Woken { t with rs := { t.rs with st := { t.rs.st with reading := false } } } k :=
    ⟨h.1.set id id id, h.2⟩
  unfold State.afterCb
  dsimp only
  split_ifs
  · exact (read_off _).2.keeps hdone
  · exact hdone

lemma push_off (t : State α σ) (w : ReadableEvents.Outcome α σ) :
    OffWritable t (t.push w) :=
  have h := onReadable_off { t with needTransform := false } w
  ⟨h.state, h.frames⟩

lemma push_woken {w : ReadableEvents.Outcome α σ} (h : w.Keeps Wakeful (k.map toReadable)) :
    (t.push w).Keeps Woken k := onReadable_woken h

lemma pushData_off (t : State α σ) (data : Data α) :
    OffWritable t (t.pushData cfg data) := by
  unfold State.pushData
  split
  · exact ⟨rfl, nofun⟩
  · exact ⟨rfl, nofun⟩
  · exact push_off t _
  · exact push_off t _

lemma Woken.pushData {data : Data α} (h : Woken t k) (hk : Clear (k.map toReadable)) :
    (t.pushData cfg data).Keeps Woken k := by
  unfold State.pushData
  split
  · exact h
  · exact h
  · exact push_woken (h.1.push hk _ _)
  · exact push_woken (h.1.pushObject hk _ _)

lemma done_off (t : State α σ) (er : Bool) : OffWritable t (t.done cfg er) := by
  unfold State.done
  split_ifs
  · exact ⟨rfl, nofun⟩
  · exact ⟨rfl, nofun⟩
  · exact push_off t _

lemma Woken.done {er : Bool} (h : Woken t k) (hk : Clear (k.map toReadable)) :
    (t.done cfg er).Keeps Woken k := by
  unfold State.done
  split_ifs
  · exact h
  · exact h
  · exact push_woken (h.1.readableAddChunk hk _)

lemma prefinish_written (h : Written cfg t k) : (t.prefinish cfg).Keeps (Written cfg) k := by
  unfold State.prefinish
  refine Res.Keeps.andThen ?_ fun u hu => hu.pop rfl
  split_ifs
  · exact h.push rfl
  · exact (done_off t false).keeps (h.push rfl)

lemma Woken.prefinish (h : Woken t k) : (t.prefinish cfg).Keeps Woken k := by
  unfold State.prefinish
  refine Res.Keeps.andThen ?_ fun u hu => Woken.pop hu
  split_ifs
  · exact h.push rfl
  · exact (h.push rfl).done (.user h.2)

lemma afterTransform_off (t : State α σ) (er : Bool) (data : Data α) :
    OffWritable t (t.afterTransform er data) ∧ OffReadable t (t.afterTransform er data) := by
  have hframes {f : Frame α} (hf : f ∈ [.push data, .afterPush er]) :
      toWritable f = .user ∧ toReadable f = .user := by
    rcases List.mem_cons.mp hf with rfl | hf
    · exact ⟨rfl, rfl⟩
    · obtain rfl := List.mem_singleton.mp hf
      exact ⟨rfl, rfl⟩
  unfold State.afterTransform
  dsimp only
  split_ifs
  · exact ⟨⟨rfl, nofun⟩, rfl, nofun⟩
  · exact ⟨⟨rfl, fun f hf => (hframes hf).1⟩, rfl, fun f hf => (hframes hf).2⟩

lemma afterPush_written (h : Written cfg t k) (hout : t.ws.outstanding ≠ 0)
    (hsmooth : WritableFinish.SmoothOnwrite t.ws) :
    (t.afterPush cfg false).Keeps (Written cfg) k := by
  unfold State.afterPush
  refine Res.Keeps.andThen (I := Written cfg) (onWritable_written ?_) fun u hu =>
    (afterCb_off u).keeps (hu.pop rfl)
  have hpush := h.push (f := .afterCb) rfl
  exact ⟨WritableOrder.onwrite_keeps cfg.writable false hpush.1,
    WritableFinish.onwrite_sound hpush.2 hout hsmooth⟩

lemma Woken.afterPush (h : Woken t k) (er : Bool) : (t.afterPush cfg er).Keeps Woken k := by
  unfold State.afterPush
  exact Res.Keeps.andThen (I := Woken) ((onWritable_off t _).keeps (h.push rfl)) fun u hu =>
    Woken.afterCb hu.pop

/-! ### Frames -/

lemma exec_written (h : Written cfg t (f :: k)) (hf : Heeds cfg t f k)
    (hout : ∀ er, f = .afterPush er → t.ws.outstanding ≠ 0) :
    (State.exec cfg t f).Keeps (Written cfg) k := by
  cases f with
  | user => exact h.pop rfl
  | writable f =>
    exact onWritable_written ⟨WritableOrder.exec_keeps cfg.writable h.1,
      WritableFinish.exec_sound h.2⟩
  | readable f => exact (onReadable_off t _).keeps (h.pop rfl)
  | write id => exact (write_off t id).1.keeps (h.pop rfl)
  | read => exact (read_off t).1.keeps (h.pop rfl)
  | prefinish => exact prefinish_written (h.pop rfl)
  | listeners => exact h.pop rfl
  | push data => exact (pushData_off t data).keeps (h.pop rfl)
  | afterPush er =>
    obtain ⟨rfl, hsmooth⟩ := hf
    exact afterPush_written (h.pop rfl) (hout false rfl) hsmooth
  | afterCb => exact (afterCb_off t).keeps (h.pop rfl)

lemma exec_woken (h : Woken t (f :: k)) (hb : boundary f = false) (hf : Heeds cfg t f k)
    (hpush : isPush f = true → Clear (k.map toReadable)) :
    (State.exec cfg t f).Keeps Woken k := by
  have hpop := h.pop
  cases f with
  | user => exact hpop
  | writable f => exact (onWritable_off t _).keeps hpop
  | readable f =>
    have hb : Readable.boundary f = false := by
      cases f with
      | user => cases hb
      | _ => rfl
    exact onReadable_woken (h.1.exec (Apart.clear h.2 hb) hf.1)
  | write id => exact (write_off t id).2.keeps hpop
  | read => exact (read_off t).2.keeps hpop
  | prefinish => exact hpop.prefinish
  | listeners => exact hpop
  | push data => exact hpop.pushData (hpush rfl)
  | afterPush er => exact hpop.afterPush er
  | afterCb => exact hpop.afterCb

end Sides

/-! ### The system -/

/-- Nothing is lost on either side or between them. -/
def Delivers (cfg : Config α σ) (t : State α σ) (k : List (Frame α)) : Prop :=
  Written cfg t k ∧ Woken t k ∧ Coupled t k

section System

variable {cfg : Config α σ} {t : State α σ} {k : List (Frame α)}
  {f : Frame α}

lemma Delivers.sides (h : Delivers cfg t k) : Sides t k := by
  obtain ⟨⟨hordered, left, -, haccounts, -⟩, hwoken, -⟩ := h
  exact ⟨haccounts.outstanding, hwoken.1, hordered⟩

lemma Delivers.push (h : Delivers cfg t k) (hk : Settled k) : Delivers cfg t (.user :: k) := by
  have hlight : Light [(.user : Frame α)] := light_of_neutral fun f hf => by
    obtain rfl := List.mem_singleton.mp hf
    rfl
  exact ⟨h.1.push rfl, h.2.1.push rfl, h.2.2.push hk hlight⟩

lemma Delivers.pop (h : Delivers cfg t (f :: k)) (hf : boundary f = true) : Delivers cfg t k := by
  cases f with
  | user => exact ⟨h.1.pop rfl, h.2.1.pop, h.2.2.pop rfl rfl⟩
  | writable f =>
    cases f with
    | user => exact ⟨h.1.pop rfl, h.2.1.pop, h.2.2.pop rfl rfl⟩
    | _ => cases hf
  | readable f =>
    cases f with
    | user => exact ⟨h.1.pop rfl, h.2.1.pop, h.2.2.pop rfl rfl⟩
    | _ => cases hf
  | _ => cases hf

lemma exec_delivers (h : Delivers cfg t (f :: k)) (hb : boundary f = false)
    (hf : Heeds cfg t f k) : (State.exec cfg t f).Keeps (Delivers cfg) k := by
  refine ⟨exec_written h.1 hf fun er he => ?_, exec_woken h.2.1 hb hf fun hpush => ?_,
    exec_coupled h.2.2 h.sides hf⟩
  · subst he
    rw [h.2.2.outstanding, held_cons]
    exact Nat.succ_ne_zero _
  · obtain ⟨er, l, rfl⟩ : ∃ er l, k = .afterPush er :: l := h.2.2.shape.pushes f rfl hpush
    exact .user (Apart.tail h.2.1.pop.2)

/-! #### Calls -/

lemma onWritable_delivers {r : Writable.Result} (h : Delivers cfg t k) (hk : Settled k)
    (hr : r.Keeps (fun s l => Ordered s l ∧ Sound cfg.writable s l) (k.map toWritable))
    (hhands : Hands t.ws r) : (t.onWritable r).Keeps (Delivers cfg) k :=
  ⟨onWritable_written hr, (onWritable_off t r).keeps h.2.1,
    onWritable_coupled h.2.2 hk rfl hhands⟩

lemma onReadable_delivers {r : ReadableEvents.Outcome α σ} (h : Delivers cfg t k)
    (hr : r.Keeps Wakeful (k.map toReadable)) (hc : (t.onReadable r).Keeps Coupled k) :
    (t.onReadable r).Keeps (Delivers cfg) k :=
  ⟨(onReadable_off t r).keeps h.1, onReadable_woken hr, hc⟩

lemma push_delivers {r : ReadableEvents.Outcome α σ} (h : Delivers cfg t k)
    (hr : r.Keeps Wakeful (k.map toReadable)) (hc : (t.push r).Keeps Coupled k) :
    (t.push r).Keeps (Delivers cfg) k :=
  ⟨(push_off t r).keeps h.1, push_woken hr, hc⟩

end System

/-! ### Runs -/

variable (cfg : Config α σ)

/-- The writable side, to which everything else is foreign code. -/
def written (m : System α σ) : Writable.Stream := ⟨m.st.ws, m.stack.map toWritable⟩

/-- A step that loses no chunk. -/
def Careful (m : System α σ) : Act α → Prop
  | .write chunk encoding _ => InOrder cfg.writable (written m) (.write chunk encoding) ∧
      Smooth cfg.writable (written m) (.write chunk encoding)
  | .uncork => Smooth cfg.writable (written m) .uncork
  | .end cb => Smooth cfg.writable (written m) (.end cb)
  | .push chunk encoding => Answers cfg.mode m.st m.stack (given cfg.mode chunk encoding)
  | .pushObject chunk encoding =>
    Answers cfg.mode m.st m.stack (some (givenObject chunk encoding))
  | .unshift chunk => chunk = none → ¬ Kept m.st m.stack
  | .unshiftObject chunk => chunk = none → ¬ Kept m.st m.stack
  | .read n => Kept m.st m.stack → Seeks cfg.mode m.st.rs n
  | .flushed er => er = false → m.st.ws.length = 0 → m.st.transforming = false →
      ¬ Kept m.st m.stack
  | .ret => Along (State.exec cfg) boundary (Heeds cfg) m.st m.stack
  | _ => True

section Runs

variable {cfg} {m m' : System α σ} {a : Act α} {t : State α σ}

/-- Foreign code runs: no code of the stream is about to go on. -/
lemma settled_of_head (h : Coupled m.st m.stack) (hhead : m.stack.head?.any running = false) :
    Settled m.stack := by
  intro f hf
  cases hk : m.stack with
  | nil =>
    rw [hk] at hf
    cases hf
  | cons g k =>
    have hset := h.shape.settled
    rw [hk] at hf hset hhead
    rcases List.mem_cons.mp hf with rfl | hf
    · exact hhead
    · exact hset f hf

lemma call_writable {w : Writable.Act} {r : Writable.Result} (h : Written cfg m.st m.stack)
    (hr : WritableBooks.callOf cfg.writable m.st.ws w = some r)
    (hord : InOrder cfg.writable (written m) w) (hsmooth : Smooth cfg.writable (written m) w) :
    r.Keeps (fun s l => Ordered s l ∧ Sound cfg.writable s l)
      ((.user :: m.stack).map toWritable) :=
  ⟨WritableOrder.call_keeps cfg.writable (m := written m) hr hord h.1,
    WritableFinish.call_sound cfg.writable (m := written m) hr hsmooth h.2⟩

lemma call_delivers {r : Outcome α σ} (h : Delivers cfg m.st m.stack)
    (hset : Settled m.stack) (hr : callOf cfg m.st a = some r) (hc : Careful cfg m a) :
    r.Keeps (Delivers cfg) (.user :: m.stack) := by
  have hu := h.push hset
  have hclear : Clear ((.user :: m.stack).map toReadable) := .user h.2.1.2
  have hsetu : Settled (.user :: m.stack) := fun f hf => by
    rcases List.mem_cons.mp hf with rfl | hf
    · rfl
    · exact hset f hf
  have hkept (hk : Kept m.st (.user :: m.stack)) : Kept m.st m.stack :=
    ⟨hk.1, fun hb => hk.2 (busy_cons.mpr (.inr hb))⟩
  have hanswers {chunk : Option (Watched.Given α)} (hch : Answers cfg.mode m.st m.stack chunk) :
      Answers cfg.mode m.st (.user :: m.stack) chunk :=
    ⟨fun hh => hch.1 ⟨hh.1, hh.2.1, hh.2.2.1, fun hb => hh.2.2.2 (busy_cons.mpr (.inr hb))⟩,
      fun hnull hk => hch.2 hnull (hkept hk)⟩
  cases a with
  | write chunk encoding object =>
    obtain rfl := Option.some.inj hr
    have hkeeps := call_writable h.1 (w := .write chunk encoding) rfl hc.1 hc.2
    exact ⟨onWritable_written hkeeps, (onWritable_off _ _).keeps hu.2.1,
      write_coupled hu.2.2 hsetu⟩
  | cork =>
    obtain rfl := Option.some.inj hr
    exact onWritable_delivers hu hsetu (call_writable h.1 (w := .cork) rfl trivial trivial)
      (.inl (.ret rfl rfl rfl id rfl))
  | uncork =>
    obtain rfl := Option.some.inj hr
    exact onWritable_delivers hu hsetu (call_writable h.1 (w := .uncork) rfl trivial hc)
      (uncork_hands cfg.writable rfl _)
  | «end» cb =>
    obtain rfl := Option.some.inj hr
    exact onWritable_delivers hu hsetu (call_writable h.1 (w := .end cb) rfl trivial hc)
      (end_hands cfg.writable rfl cb _)
  | push chunk encoding =>
    unfold Transform.callOf ReadableEvents.callOf at hr
    dsimp only at hr
    split_ifs at hr
    · cases hr
    · obtain rfl := Option.some.inj hr
      refine push_delivers hu (hu.2.1.1.push hclear chunk encoding) ?_
      rw [push_given]
      exact push_coupled _ hu.2.2 hsetu (hanswers hc)
  | pushObject chunk encoding =>
    unfold Transform.callOf ReadableEvents.callOf at hr
    dsimp only at hr
    split_ifs at hr
    · obtain rfl := Option.some.inj hr
      refine push_delivers hu (hu.2.1.1.pushObject hclear chunk encoding) ?_
      rw [pushObject_given]
      exact push_coupled _ hu.2.2 hsetu (hanswers hc)
    · cases hr
  | unshift chunk =>
    unfold Transform.callOf ReadableEvents.callOf at hr
    dsimp only at hr
    split_ifs at hr
    · cases hr
    · obtain rfl := Option.some.inj hr
      exact onReadable_delivers hu (hu.2.1.1.unshift hclear chunk)
        (unshift_coupled hu.2.2 hsetu fun hnone hk => hc hnone (hkept hk))
  | unshiftObject chunk =>
    unfold Transform.callOf ReadableEvents.callOf at hr
    dsimp only at hr
    split_ifs at hr
    · obtain rfl := Option.some.inj hr
      exact onReadable_delivers hu (hu.2.1.1.unshift hclear _)
        (unshift_coupled hu.2.2 hsetu fun hnone hk =>
          hc (Option.map_eq_none_iff.mp hnone) (hkept hk))
    · cases hr
  | read n =>
    obtain rfl := Option.some.inj hr
    refine onReadable_delivers hu (hu.2.1.1.read hclear n) ?_
    exact onReadable_coupled hu.2.2 hsetu (read_quiet m.st.rs n) fun hk =>
      ⟨(hu.2.2.kept hk).2.2, hc (hkept hk)⟩
  | onReadable =>
    obtain rfl := Option.some.inj hr
    refine onReadable_delivers hu (hu.2.1.1.onReadable hclear) ?_
    exact onReadable_coupled hu.2.2 hsetu (onReadable_quiet m.st.rs) fun _ => trivial
  | flow flowing =>
    obtain rfl := Option.some.inj hr
    refine onReadable_delivers hu ⟨hu.2.1.1.set id id id, hclear.apart⟩ ?_
    exact onReadable_coupled (C := True) hu.2.2 hsetu (.state id rfl fun _ ha => ha)
      fun _ => trivial
  | transformed er data =>
    unfold Transform.callOf at hr
    dsimp only at hr
    split_ifs at hr with hlt
    obtain rfl := Option.some.inj hr
    have hoff := afterTransform_off m.st er data
    exact ⟨hoff.1.keeps hu.1, hoff.2.keeps hu.2.1, hu.2.2.transformed hsetu hlt.1⟩
  | flushed er =>
    unfold Transform.callOf at hr
    dsimp only at hr
    split_ifs at hr
    obtain rfl := Option.some.inj hr
    have hidle : Coupled { m.st with flushing := false } (.user :: m.stack) :=
      ⟨hu.2.2.outstanding, hu.2.2.transforming, hu.2.2.passed, hu.2.2.handed, hu.2.2.truthy,
        hu.2.2.unneeded, hu.2.2.reading, hu.2.2.kept, hu.2.2.flushes, hu.2.2.flushed,
        .of_settled hsetu⟩
    exact ⟨(done_off _ er).keeps hu.1, Woken.done hu.2.1 hclear,
      done_coupled hidle hsetu fun her hlen htr hk => hc her hlen htr (hkept hk)⟩
  | ret => cases hr
  | tickWritable => cases hr
  | tickReadable => cases hr

lemma tickWritable_delivers {tick : Writable.Tick} {ts : List Writable.Tick}
    (h : Delivers cfg t []) (hticks : t.ws.ticks = tick :: ts) :
    (t.onWritable (Writable.runTick { t.ws with ticks := ts } tick)).Keeps (Delivers cfg) [] := by
  have hordered : Ordered { t.ws with ticks := ts } [] := h.1.1.congr ⟨rfl, rfl, rfl, rfl⟩
  refine onWritable_delivers h nofun
    ⟨hordered.runTick tick, WritableFinish.runTick_sound h.1.2 hticks⟩ ?_
  exact .inl ((runTick_still _ tick).of_eq rfl rfl rfl id rfl)

lemma tickReadable_delivers {tick : Readable.Tick} {ts : List Readable.Tick}
    (h : Delivers cfg t []) (hticks : t.rs.st.ticks = tick :: ts) :
    (t.onReadable ({ t.rs with st := { t.rs.st with ticks := ts } }.runTick cfg.mode tick)).Keeps
      (Delivers cfg) [] :=
  onReadable_delivers h (h.2.1.1.runTick cfg.mode hticks)
    (onReadable_coupled h.2.2 nofun (runTick_quiet hticks) fun _ => trivial)

theorem step_delivers (h : Delivers cfg m.st m.stack) (hs : step cfg m a = some m')
    (hc : Careful cfg m a) : Delivers cfg m'.st m'.stack := by
  have hcalled (hr : (if m.stack.head?.any running then none else
      (callOf cfg m.st a).map (enter .user m)) = some m') : Delivers cfg m'.st m'.stack := by
    split_ifs at hr with hhead
    obtain ⟨r, hcall, rfl⟩ := Option.map_eq_some_iff.mp hr
    refine enter_keeps (fun s k hk => hk.pop rfl) ?_
    exact call_delivers h (settled_of_head h.2.2 (by simpa using hhead)) hcall hc
  cases a with
  | ret =>
    unfold step at hs
    dsimp only at hs
    split_ifs at hs
    rw [← Option.some.inj hs]
    exact resume_along (fun s f k hb hk hf => exec_delivers hk hb hf)
      (fun s f k hb hk => hk.pop hb) h hc
  | tickWritable =>
    obtain ⟨t, k⟩ := m
    unfold step at hs
    dsimp only at hs
    split at hs
    · rename_i tick ts hticks
      rw [← Option.some.inj hs]
      have htick := tickWritable_delivers h hticks
      rw [Res.Keeps, List.append_nil] at htick
      exact htick
    · cases hs
  | tickReadable =>
    obtain ⟨t, k⟩ := m
    unfold step at hs
    dsimp only at hs
    split at hs
    · rename_i tick ts hticks
      rw [← Option.some.inj hs]
      have htick := tickReadable_delivers h hticks
      rw [Res.Keeps, List.append_nil] at htick
      exact htick
    · cases hs
  | _ => exact hcalled hs

/-! #### What is delivered -/

lemma init_delivers (cfg : Config α σ) : Delivers cfg (init cfg).st (init cfg).stack :=
  ⟨⟨⟨[], .idle rfl rfl, rfl⟩, WritableFinish.sound_init cfg.writable⟩,
    ⟨⟨nofun, nofun⟩, List.isChain_nil⟩,
    ⟨rfl, nofun, rfl, rfl, nofun, fun hw => (by cases hw.1), nofun, fun hk => (by cases hk.1.1),
      nofun, fun hne => absurd rfl hne, .of_settled nofun⟩⟩

/-- Everything is at rest, and the output is wanted: the reader has found nothing and waits, or
the output has ended. -/
structure Rests (m : System α σ) : Prop where
  stack : m.stack = []
  ticks : m.st.ws.ticks = [] ∧ m.st.rs.st.ticks = []
  corked : m.st.ws.corked = 0
  completed : m.st.completed = m.st.passed.length
  wanted : m.st.rs.asleep = true ∨ m.st.rs.st.ended = true

/-- The chunks passed to `_transform` are the first ones, in order. -/
lemma Delivers.passed (h : Delivers cfg m.st m.stack) :
    m.st.passed = List.range m.st.passed.length := by
  have hqueue := h.1.1.queue
  rw [WritableOrder.Queue, h.2.2.handed, List.append_assoc, List.append_assoc] at hqueue
  have hpre : m.st.passed <+: List.range m.st.ws.accepted := ⟨_, hqueue⟩
  have hle := hpre.length_le
  rw [List.length_range] at hle
  rw [List.prefix_iff_eq_take, List.take_range, Nat.min_eq_left hle] at hpre
  exact hpre

/-- A chunk that is kept has been asked for, or nobody wants output. -/
lemma Delivers.rests (h : Delivers cfg m.st m.stack) (hrest : Rests m) :
    m.st.passed = List.range m.st.ws.accepted := by
  have hqueue := h.1.1.queue
  obtain ⟨⟨-, left, hphase, haccounts, hmoving, -⟩, -, hcoupled⟩ := h
  rw [← hphase.eq_remaining] at hqueue
  have htr : m.st.transforming = false := by
    have hlen := hcoupled.passed
    rw [hrest.completed] at hlen
    cases htr : m.st.transforming with
    | false => rfl
    | true =>
      rw [htr, Bool.toNat_true] at hlen
      omega
  rw [hrest.stack] at hcoupled hmoving
  have hidle : ¬ Waiting m.st := fun hw => by
    obtain ⟨hawake, hended, -⟩ := hcoupled.kept ⟨hw, fun ⟨f, hf, _⟩ => (by cases hf)⟩
    rcases hrest.wanted with hasleep | hend
    · have hqueued := hawake hasleep
      rw [Queued, hrest.ticks.2] at hqueued
      cases hqueued
    · rw [hended] at hend
      cases hend
  have hcb : m.st.writecb = false := by
    rw [← Bool.not_eq_true]
    exact fun hcb => hidle ⟨hcb, htr⟩
  have hw : m.st.ws.writing = false := by
    have hout := hcoupled.outstanding
    rw [hcb, haccounts.outstanding] at hout
    rw [← Bool.not_eq_true]
    intro hw
    rw [if_pos hw] at hout
    cases hout
  rw [hmoving.rest hw hrest.corked, WritableOrder.Queue, hcoupled.handed, waiting,
    if_neg hidle] at hqueue
  simpa [writes] using hqueue

end Runs

/-- **Every chunk reaches `_transform`**: the chunks that have are the first ones, in order, with at
most one callback to come; `_flush` is called once the stream is ending and all are completed; and
at rest no chunk is left. -/
theorem delivered {m : System α σ}
    (h : Run (step cfg) (fun m a _ => Careful cfg m a) (init cfg) m) :
    m.st.passed = List.range m.st.passed.length ∧
      m.st.completed ≤ m.st.passed.length ∧ m.st.passed.length ≤ m.st.completed + 1 ∧
      (∀ f ∈ m.st.flushes, f.completed = f.accepted) ∧
      (m.st.flushes ≠ [] → m.st.ws.ending = true) ∧
      (Rests m → m.st.passed = List.range m.st.ws.accepted) := by
  have hall := h.invariant (I := fun m => Delivers cfg m.st m.stack) (init_delivers cfg)
    fun n a n' hn hs hc => step_delivers hn hs hc
  have hlen := hall.2.2.passed
  have hone := Bool.toNat_le m.st.transforming
  exact ⟨hall.passed, by omega, by omega, hall.2.2.flushes, hall.2.2.flushed, hall.rests⟩

/-- A byte stream that leaves strings as they are. -/
def textConfig : Config UInt8 Unit :=
  ⟨16, false, false, js "utf8", .bytes, fun s o => (some o, s), true⟩

/-- A reader that waits, and a chunk for it. -/
def writeOne : List (Act UInt8) :=
  [.read none, .ret, .write (.buf [97]) none true, .ret, .ret, .transformed false .null, .ret, .ret]

theorem delivered_writeOne :
    ∃ m, Run (step textConfig) (fun m a _ => Careful textConfig m a) (init textConfig) m ∧
      m.st.passed = [0] ∧ m.st.ws.accepted = 1 := by
  have hrun : ∃ m, Run (step textConfig) (fun m a _ => Careful textConfig m a)
      (init textConfig) m ∧ Rests m ∧ m.st.ws.accepted = 1 :=
    ⟨_, Run.of_path .refl (w := writeOne)
      ⟨_, rfl, fun hk => (by cases hk.1.1),
        _, rfl, .ret trivial rfl (.ret ⟨fun _ _ _ => .inr rfl, fun hk => (by cases hk.1.1)⟩ rfl
          (.foreign rfl)),
        _, rfl, ⟨fun _ => rfl, fun _ hb => absurd hb (by decide), fun _ _ => by decide⟩,
        _, rfl, .call ⟨rfl, nofun⟩ rfl,
        _, rfl, .ret trivial rfl (.ret trivial rfl (.foreign rfl)),
        _, rfl, trivial,
        _, rfl, .ret trivial rfl (.call ⟨rfl, fun _ _ _ => rfl⟩ rfl),
        _, rfl, .ret trivial rfl (.ret (fun hk => (by cases hk.1.1)) rfl (.foreign rfl)), rfl⟩,
      ⟨rfl, ⟨rfl, rfl⟩, rfl, rfl, .inl rfl⟩, rfl⟩
  obtain ⟨m, hm, hrest, hone⟩ := hrun
  exact ⟨m, hm, by rw [(delivered textConfig hm).2.2.2.2.2 hrest, hone]; rfl, hone⟩

/-- A reader that waits, and the empty string for it. -/
def writeEmpty : List (Act UInt8) :=
  [.read none, .ret, .write (.str []) none false, .ret, .end false]

/-- The chunk is accepted and stays where it is. -/
theorem empty_kept :
    ∃ m, Run (step textConfig) (fun _ _ _ => True) (init textConfig) m ∧ Rests m ∧
      m.st.ws.accepted = 1 ∧ m.st.ws.endCalled = true ∧ m.st.passed = [] :=
  ⟨_, Run.of_foldlM (w := writeEmpty) rfl, ⟨rfl, ⟨rfl, rfl⟩, rfl, rfl, .inl rfl⟩, rfl, rfl, rfl⟩

end NodeCore.TransformDelivers
