import NodeCore.WritableClear

/-!
A stream at rest has written everything and, after `end`, has finished.

`pendingcb` counts the callbacks to come: of the write that is pending, of the buffered ones,
of those that a frame or a tick is about to call. `length` counts what is pending or buffered.
-/

namespace NodeCore.WritableFinish

open NodeCore.Encoding NodeCore.Reentrant NodeCore.Writable NodeCore.WritableBooks
  NodeCore.WritableClear

/-! ### Callbacks to come -/

/-- What a write callback counts for in `pendingcb`. -/
def cbWeight : Cb → ℕ
  | .user => 1
  | .writev more => more + 2

def pendingWeight : Option Cb → ℕ
  | none => 0
  | some cb => cbWeight cb

def frameWeight : Frame → ℕ
  | .onwrite _ _ cb | .afterDrain cb => cbWeight cb
  | .writevCbs n => n
  | _ => 0

def tickWeight : Tick → ℕ
  | .afterWrite _ cb => cbWeight cb
  | _ => 0

/-- The callbacks to come, with these writes left. -/
def due (s : State) (k : List Frame) (left : List WriteReq) : ℕ :=
  pendingWeight s.writecb + left.length + (s.ticks.map tickWeight).sum +
    (k.map frameWeight).sum

lemma cbWeight_pos (cb : Cb) : 0 < cbWeight cb := by
  cases cb <;> simp [cbWeight]

/-- The callbacks of a `_writev` are called from `afterWrite`, which goes on after them. -/
def Chained (k : List Frame) : Prop := ∀ n l, .writevCbs n :: l <:+ k → .afterCb ∈ l

lemma Chained.push {k : List Frame} (h : Chained k) {f : Frame}
    (hf : ∀ n, f = .writevCbs n → .afterCb ∈ k) : Chained (f :: k) := by
  intro n l hl
  rcases List.suffix_cons_iff.mp hl with he | hl
  · obtain ⟨hhead, rfl⟩ := List.cons.inj he
    exact hf n hhead.symm
  · exact h n l hl

lemma Chained.pop {k : List Frame} {f : Frame} (h : Chained (f :: k)) : Chained k :=
  fun n l hl => h n l (hl.trans (List.suffix_cons f k))

/-! ### The accounts -/

variable (cfg : Config)

/-- The lengths of buffered writes. -/
def lenSum (left : List WriteReq) : ℤ := (left.map (reqLen cfg)).sum

/-- With these writes left, the counters are right, no write has failed, and the stream is
ending if it should. -/
structure Accounts (s : State) (k : List Frame) (left : List WriteReq) : Prop where
  outstanding : s.outstanding = if s.writing then 1 else 0
  busy : s.writing = true → s.writecb ≠ none
  idle : s.writing = false → s.writecb = none ∧ s.writelen = 0
  pendingcb : s.pendingcb = due s k left
  length : s.length = s.writelen + lenSum cfg left
  ticks : ∀ cb, .onwriteError cb ∉ s.ticks
  chained : Chained k
  called : s.endCalled = true → s.ending = true ∨ ∃ cb, .endUncorked cb ∈ k
  finished : s.finished = true ∨ .finish ∈ k → s.ending = true

/-- Somebody is about to hand over what is left, unless the stream is corked. -/
def Moving (s : State) (k : List Frame) (left : List WriteReq) : Prop :=
  left ≠ [] → s.writing = true ∨ 0 < s.corked ∨ ∃ c, .clearLoop c ∈ k

/-- Once the stream is ending, somebody is about to see whether it has finished. -/
def Settled (s : State) (k : List Frame) : Prop :=
  s.ending = true → s.finished = true ∨ s.pendingcb ≠ 0 ∨ .afterCb ∈ k ∨ .finish ∈ k

/-- Nothing is forgotten. -/
def Sound (s : State) (k : List Frame) : Prop :=
  ∃ left, Phase s k left ∧ Accounts cfg s k left ∧ Moving s k left ∧ Settled s k

/-! ### Frames and fields that do not count -/

/-- A frame that no account is about. -/
def quiet : Frame → Bool
  | .user | .doWrite | .write _ | .writeError | .clearLoop _ | .clearFast | .onwriteError
  | .endWritable _ => true
  | _ => false

lemma frameWeight_of_quiet {f : Frame} (h : quiet f = true) : frameWeight f = 0 := by
  cases f <;> first | rfl | cases h

/-- The states differ in fields that no account is about. -/
def Same (s t : State) : Prop :=
  t = { s with
    needDrain := t.needDrain
    ended := t.ended
    sync := t.sync
    bufferProcessing := t.bufferProcessing
    buffer := t.buffer
    prefinished := t.prefinished
    accepted := t.accepted
    handed := t.handed
    drains := t.drains
    owed := t.owed }

section Accounts

variable {cfg} {s t : State} {k l : List Frame} {left : List WriteReq} {f : Frame}

lemma Accounts.congr (h : Accounts cfg s k left) (hs : Same s t) : Accounts cfg t k left := by
  rw [hs]
  exact ⟨h.outstanding, h.busy, h.idle, h.pendingcb, h.length, h.ticks, h.chained, h.called,
    h.finished⟩

lemma Moving.congr (h : Moving s k left) (hs : Same s t) : Moving t k left := by
  rw [hs]
  exact h

lemma Settled.congr (h : Settled s k) (hs : Same s t) : Settled t k := by
  rw [hs]
  exact h

/-- Another stack with the same frames that count. -/
lemma Accounts.restack (h : Accounts cfg s k left)
    (hw : (l.map frameWeight).sum = (k.map frameWeight).sum) (hchained : Chained l)
    (hcalled : ∀ cb, .endUncorked cb ∈ k → .endUncorked cb ∈ l)
    (hfinish : .finish ∈ l → .finish ∈ k) : Accounts cfg s l left := by
  refine ⟨h.outstanding, h.busy, h.idle, ?_, h.length, h.ticks, hchained, fun he => ?_,
    fun hf => h.finished (hf.imp_right hfinish)⟩
  · rw [h.pendingcb, due, due, hw]
  · exact (h.called he).imp_right fun ⟨cb, hcb⟩ => ⟨cb, hcalled cb hcb⟩

lemma Accounts.push (h : Accounts cfg s k left) (hf : quiet f = true) :
    Accounts cfg s (f :: k) left := by
  refine h.restack ?_ (h.chained.push ?_) (fun cb hcb => List.mem_cons_of_mem f hcb) ?_
  · simp [frameWeight_of_quiet hf]
  · rintro n rfl
    cases hf
  · intro hm
    rcases List.mem_cons.mp hm with rfl | hm
    · cases hf
    · exact hm

lemma Accounts.pop (h : Accounts cfg s (f :: k) left) (hf : quiet f = true) :
    Accounts cfg s k left := by
  refine h.restack ?_ h.chained.pop (fun cb hcb => ?_) (List.mem_cons_of_mem f)
  · simp [frameWeight_of_quiet hf]
  · rcases List.mem_cons.mp hcb with rfl | hcb
    · cases hf
    · exact hcb

lemma Accounts.pushFinish (h : Accounts cfg s k left) (he : s.ending = true) :
    Accounts cfg s (.finish :: k) left :=
  ⟨h.outstanding, h.busy, h.idle, by rw [h.pendingcb]; simp [due, frameWeight], h.length,
    h.ticks, h.chained.push (by rintro n ⟨⟩), fun _ => .inl he, fun _ => he⟩

lemma Moving.push (h : Moving s k left) (f : Frame) : Moving s (f :: k) left :=
  fun hl => (h hl).imp_right fun hm => hm.imp_right fun ⟨c, hc⟩ => ⟨c, List.mem_cons_of_mem f hc⟩

lemma Moving.pop (h : Moving s (f :: k) left) (hf : isClear f = false) : Moving s k left := by
  refine fun hl => (h hl).imp_right fun hm => hm.imp_right fun ⟨c, hc⟩ => ⟨c, ?_⟩
  rcases List.mem_cons.mp hc with rfl | hc
  · cases hf
  · exact hc

lemma Settled.push (h : Settled s k) (f : Frame) : Settled s (f :: k) := by
  refine fun he => (h he).imp_right fun hp => hp.imp_right fun hk => ?_
  exact hk.imp (List.mem_cons_of_mem f) (List.mem_cons_of_mem f)

lemma Settled.pop (h : Settled s (f :: k)) (hf : quiet f = true) : Settled s k := by
  refine fun he => (h he).imp_right fun hp => hp.imp_right fun hk => ?_
  refine hk.imp (fun hm => ?_) fun hm => ?_
  · rcases List.mem_cons.mp hm with rfl | hm
    · cases hf
    · exact hm
  · rcases List.mem_cons.mp hm with rfl | hm
    · cases hf
    · exact hm

lemma Sound.congr (h : Sound cfg s k) (hs : Same s t) (hbuf : t.buffer = s.buffer)
    (hproc : t.bufferProcessing = s.bufferProcessing) : Sound cfg t k := by
  obtain ⟨left, hp, ha, hm, hset⟩ := h
  exact ⟨left, hp.congr hbuf hproc rfl, ha.congr hs, hm.congr hs, hset.congr hs⟩

lemma Sound.push (h : Sound cfg s k) (hf : quiet f = true) (hc : isClear f = false) :
    Sound cfg s (f :: k) := by
  obtain ⟨left, hp, ha, hm, hset⟩ := h
  exact ⟨left, hp.push hc, ha.push hf, hm.push f, hset.push f⟩

lemma Sound.pop (h : Sound cfg s (f :: k)) (hf : quiet f = true) (hc : isClear f = false) :
    Sound cfg s k := by
  obtain ⟨left, hp, ha, hm, hset⟩ := h
  exact ⟨left, hp.pop hc, ha.pop hf, hm.pop hc, hset.pop hf⟩

/-- What is pending or left has a callback to come. -/
lemma Accounts.pending (h : Accounts cfg s k left)
    (hs : s.writing = true ∨ left ≠ [] ∨ s.length ≠ 0) : s.pendingcb ≠ 0 := by
  have hpos : 0 < due s k left := by
    by_cases hw : s.writing = true
    · obtain ⟨cb, hcb⟩ := Option.ne_none_iff_exists'.mp (h.busy hw)
      have := cbWeight_pos cb
      simp only [due, hcb, pendingWeight]
      omega
    · have hleft : left ≠ [] := by
        rcases hs with hs | hs | hs
        · exact absurd hs hw
        · exact hs
        · rintro rfl
          refine hs ?_
          rw [h.length, (h.idle (by simpa using hw)).2]
          rfl
      have := List.length_pos_iff.mpr hleft
      simp only [due]
      omega
  rw [h.pendingcb]
  omega

/-! ### Finishing -/

lemma Sound.finishing (hp : Phase s k left) (ha : Accounts cfg s k left)
    (hm : Moving s k left) (he : s.ending = true) : Sound cfg { s with finished := true } k :=
  ⟨left, hp.congr rfl rfl rfl,
    ⟨ha.outstanding, ha.busy, ha.idle, ha.pendingcb, ha.length, ha.ticks, ha.chained, ha.called,
      fun _ => he⟩, hm, fun _ => .inl rfl⟩

lemma prefinish_cases (s : State) : prefinish s = .ret s ∨
    prefinish s = .call { s with prefinished := true } [] := by
  unfold prefinish
  split_ifs
  · exact .inr rfl
  · exact .inl rfl

/-- `finishMaybe` finishes the stream, or somebody is to call it again. -/
lemma finishMaybe_sound (hp : Phase s k left) (ha : Accounts cfg s k left)
    (hm : Moving s k left) : (finishMaybe s).Keeps (Sound cfg) k := by
  unfold finishMaybe
  split_ifs with hn hcb
  · have he : s.ending = true := by
      simp only [needFinish, Bool.and_eq_true] at hn
      exact hn.1.1.1
    rcases prefinish_cases s with hr | hr
    · rw [hr]
      exact Sound.finishing hp ha hm he
    · rw [hr]
      have hp' : Phase { s with prefinished := true } k left := hp.congr rfl rfl rfl
      have ha' : Accounts cfg { s with prefinished := true } k left := ha.congr rfl
      refine ⟨left, hp'.push (f := .finish) rfl, ha'.pushFinish he, hm.push _, fun _ => ?_⟩
      · exact .inr (.inr (.inr List.mem_cons_self))
  · rcases prefinish_cases s with hr | hr
    · rw [hr]
      exact ⟨left, hp, ha, hm, fun _ => .inr (.inl hcb)⟩
    · rw [hr]
      exact ⟨left, hp.congr rfl rfl rfl, ha.congr rfl, hm, fun _ => .inr (.inl hcb)⟩
  · refine ⟨left, hp, ha, hm, fun he => ?_⟩
    by_cases hf : s.finished = true
    · exact .inl hf
    · refine .inr (.inl (ha.pending ?_))
      by_contra hne
      simp only [not_or, not_not] at hne
      obtain ⟨hw, -, hl⟩ := hne
      have he' : s.ending = true := he
      exact hn (by simp [needFinish, he', hl, hw, hf])

/-! ### Callbacks -/

/-- A frame goes on, with other frames, and with callbacks called that it stood for. -/
lemma Accounts.swap {g : List Frame} {p : ℤ} (h : Accounts cfg s (f :: k) left)
    (hp : p + frameWeight f = s.pendingcb + (g.map frameWeight).sum)
    (hf : ∀ cb, f ≠ .endUncorked cb) (hfs : .finish ∉ g) (hchained : Chained (g ++ k)) :
    Accounts cfg { s with pendingcb := p } (g ++ k) left := by
  refine ⟨h.outstanding, h.busy, h.idle, ?_, h.length, h.ticks, hchained, fun hc => ?_,
    fun hfin => ?_⟩
  · have hcount := h.pendingcb
    simp only [due, List.map_cons, List.sum_cons, List.map_append, List.sum_append] at hcount ⊢
    push_cast at hp hcount ⊢
    omega
  · refine (h.called hc).imp_right fun ⟨cb, hcb⟩ => ⟨cb, List.mem_append_right g ?_⟩
    rcases List.mem_cons.mp hcb with hhead | hcb
    · exact absurd hhead.symm (hf cb)
    · exact hcb
  · refine h.finished (hfin.imp_right fun hmem => List.mem_cons_of_mem _ ?_)
    exact (List.mem_append.mp hmem).resolve_left hfs

lemma chained_afterCb (h : Chained k) : Chained (.afterCb :: k) := h.push (by rintro n ⟨⟩)

/-- The callback of a write. -/
lemma afterDrain_sound {cb : Cb} (h : Sound cfg s (.afterDrain cb :: k)) :
    (afterDrain cb s).Keeps (Sound cfg) k := by
  obtain ⟨left, hp, ha, hm, -⟩ := h
  have hchained := chained_afterCb ha.chained.pop
  have hphase : ∀ n, Phase { s with pendingcb := n } (.afterCb :: k) left := fun n =>
    ((hp.pop rfl).push (f := .afterCb) rfl).congr rfl rfl rfl
  cases cb with
  | user =>
    exact ⟨left, hphase _, ha.swap (g := [.afterCb]) (by simp [frameWeight, cbWeight])
      (by rintro cb ⟨⟩) (by simp) hchained, (hm.pop rfl).push _,
      fun _ => .inr (.inr (.inl List.mem_cons_self))⟩
  | writev more =>
    have hswap : Accounts cfg { s with pendingcb := s.pendingcb - 1 - 1 }
        ([.writevCbs more, .afterCb] ++ k) left := by
      refine ha.swap ?_ (by rintro cb ⟨⟩) (by simp) ?_
      · simp [frameWeight, cbWeight]
        omega
      · exact hchained.push fun _ _ => List.mem_cons_self
    exact ⟨left, (hphase _).push (f := .writevCbs more) rfl, hswap,
      ((hm.pop rfl).push _).push _,
      fun _ => .inr (.inr (.inl (List.mem_cons_of_mem _ List.mem_cons_self)))⟩

lemma writevCbs_sound {n : ℕ} (h : Sound cfg s (.writevCbs n :: k)) :
    (writevCbs s n).Keeps (Sound cfg) k := by
  obtain ⟨left, hp, ha, hm, -⟩ := h
  have hmem : .afterCb ∈ k := ha.chained n k List.suffix_rfl
  cases n with
  | zero =>
    exact ⟨left, hp.pop rfl, ha.swap (g := []) (by simp [frameWeight]) (by rintro cb ⟨⟩)
      (by simp) ha.chained.pop, hm.pop rfl, fun _ => .inr (.inr (.inl hmem))⟩
  | succ n =>
    have hphase : Phase { s with pendingcb := s.pendingcb - 1 } (.writevCbs n :: k) left :=
      ((hp.pop rfl).push (f := .writevCbs n) rfl).congr rfl rfl rfl
    exact ⟨left, hphase, ha.swap (g := [.writevCbs n]) (by simp [frameWeight])
      (by rintro cb ⟨⟩) (by simp) (ha.chained.pop.push fun _ _ => hmem), (hm.pop rfl).push _,
      fun _ => .inr (.inr (.inl (List.mem_cons_of_mem _ hmem)))⟩

lemma afterCb_sound (h : Sound cfg s (.afterCb :: k)) :
    (finishMaybe s).Keeps (Sound cfg) k := by
  obtain ⟨left, hp, ha, hm, -⟩ := h
  exact finishMaybe_sound (hp.pop rfl)
    (ha.swap (g := []) (by simp [frameWeight]) (by rintro cb ⟨⟩) (by simp) ha.chained.pop)
    (hm.pop rfl)

lemma finish_sound (h : Sound cfg s (.finish :: k)) : (finish s).Keeps (Sound cfg) k := by
  obtain ⟨left, hp, ha, hm, -⟩ := h
  have he := ha.finished (.inr List.mem_cons_self)
  exact Sound.finishing (hp.pop rfl)
    (ha.swap (g := []) (by simp [frameWeight]) (by rintro cb ⟨⟩) (by simp) ha.chained.pop)
    (hm.pop rfl) he

/-! ### Completions -/

lemma afterWrite_sound {finished : Bool} {cb : Cb} (h : Sound cfg s (.afterDrain cb :: k)) :
    (afterWrite finished cb s).Keeps (Sound cfg) k := by
  unfold afterWrite onwriteDrain
  split_ifs
  · exact h.congr rfl rfl rfl
  · exact afterDrain_sound h
  · exact afterDrain_sound h

/-- The frame that stands for a callback. -/
lemma Sound.onwrite {sync finished : Bool} {cb : Cb}
    (h : Sound cfg s (.onwrite sync finished cb :: k)) :
    Sound cfg s (.afterDrain cb :: k) := by
  obtain ⟨left, hp, ha, hm, hset⟩ := h
  refine ⟨left, (hp.pop rfl).push rfl, ha.swap (g := [.afterDrain cb]) (by simp [frameWeight])
    (by rintro cb ⟨⟩) (by simp) (ha.chained.pop.push (by rintro n ⟨⟩)), (hm.pop rfl).push _, ?_⟩
  intro he
  simpa using hset he

lemma onwriteAfter_sound {sync finished : Bool} {cb : Cb}
    (h : Sound cfg s (.onwrite sync finished cb :: k)) :
    (onwriteAfter sync finished cb s).Keeps (Sound cfg) k := by
  unfold onwriteAfter
  split_ifs
  · -- the tick stands for the callback
    obtain ⟨left, hp, ha, hm, hset⟩ := h
    refine ⟨left, (hp.pop rfl).congr rfl rfl rfl, ?_, hm.pop rfl, fun he => ?_⟩
    · have hpop := ha.swap (g := []) (p := s.pendingcb - cbWeight cb) (by simp [frameWeight])
        (by rintro cb ⟨⟩) (by simp) ha.chained.pop
      refine ⟨ha.outstanding, ha.busy, ha.idle, ?_, ha.length, ?_, ha.chained.pop, hpop.called,
        hpop.finished⟩
      · have hcount := ha.pendingcb
        simp only [due, List.map_cons, List.sum_cons, frameWeight] at hcount
        simp only [Res.state, Res.frames, due, List.map_append, List.sum_append, List.map_cons,
          List.sum_cons, List.map_nil, List.sum_nil, tickWeight, List.nil_append]
        push_cast at hcount ⊢
        omega
      · intro c hc
        exact ha.ticks c (by simpa [Res.state] using hc)
    · simpa using hset he
  · exact afterWrite_sound h.onwrite

/-- A tick that runs a callback of the user alone. -/
lemma Sound.tickUser (h : Sound cfg s k) : Sound cfg { s with ticks := s.ticks ++ [.user] } k := by
  obtain ⟨left, hp, ha, hm, hset⟩ := h
  refine ⟨left, hp.congr rfl rfl rfl, ⟨ha.outstanding, ha.busy, ha.idle, ?_, ha.length,
    fun cb hcb => ha.ticks cb (by simpa using hcb), ha.chained, ha.called, ha.finished⟩, hm, hset⟩
  rw [ha.pendingcb]
  simp [due, tickWeight]

lemma runTick_sound {t : Tick} {ts : List Tick} (h : Sound cfg s k) (hticks : s.ticks = t :: ts) :
    (runTick { s with ticks := ts } t).Keeps (Sound cfg) k := by
  obtain ⟨left, hp, ha, hm, hset⟩ := h
  have hp' : Phase { s with ticks := ts } k left := hp.congr rfl rfl rfl
  have hno : ∀ cb, .onwriteError cb ∉ ts := fun cb hcb =>
    ha.ticks cb (by rw [hticks]; exact List.mem_cons_of_mem t hcb)
  have hcount := ha.pendingcb
  simp only [due, hticks, List.map_cons, List.sum_cons] at hcount
  cases t with
  | afterWrite finished cb =>
    refine afterWrite_sound (s := { s with ticks := ts }) (k := k)
      ⟨left, hp'.push rfl, ?_, hm.push _, hset.push _⟩
    refine ⟨ha.outstanding, ha.busy, ha.idle, ?_, ha.length, hno,
      ha.chained.push (by rintro n ⟨⟩), fun hc => ?_, fun hf => ha.finished (by simpa using hf)⟩
    · simp only [due, List.map_cons, List.sum_cons, frameWeight, tickWeight] at hcount ⊢
      omega
    · exact (ha.called hc).imp_right fun ⟨c, hc⟩ => ⟨c, List.mem_cons_of_mem _ hc⟩
  | onwriteError cb => exact absurd (by rw [hticks]; exact List.mem_cons_self) (ha.ticks cb)
  | user =>
    have hdue : s.pendingcb = due { s with ticks := ts } k left := by
      simp only [due, tickWeight] at hcount ⊢
      omega
    exact ⟨left, hp', ⟨ha.outstanding, ha.busy, ha.idle, hdue, ha.length, hno, ha.chained,
      ha.called, ha.finished⟩, hm, hset⟩

/-! ### Handing over -/

lemma lenSum_cons (e : WriteReq) (left : List WriteReq) :
    lenSum cfg (e :: left) = reqLen cfg e + lenSum cfg left := by
  simp [lenSum]

lemma lenSum_append (left : List WriteReq) (e : WriteReq) :
    lenSum cfg (left ++ [e]) = lenSum cfg left + reqLen cfg e := by
  simp [lenSum]

/-- A call of `_write` or `_writev`, for what is left less than before or added to it. -/
lemma Accounts.start {left' : List WriteReq} {ids : List ℕ} {len : ℤ} {cb : Cb}
    (h : Accounts cfg s k left) (hw : s.writing = false)
    (ht : Same { s with pendingcb := t.pendingcb, length := t.length } t)
    (hp : t.pendingcb + left.length = s.pendingcb + cbWeight cb + left'.length)
    (hl : t.length + lenSum cfg left = s.length + len + lenSum cfg left') :
    Accounts cfg (t.startWrite ids len cb) k left' := by
  obtain ⟨hcb, hlen⟩ := h.idle hw
  have hout : s.outstanding = 0 := by rw [h.outstanding, hw]; rfl
  rw [ht]
  refine ⟨?_, fun _ => by simp [State.startWrite], fun hf => by simp [State.startWrite] at hf, ?_,
    ?_, h.ticks, h.chained, h.called, h.finished⟩
  · simp [State.startWrite, hout]
  · have hcount := h.pendingcb
    simp only [due, hcb, pendingWeight] at hcount
    simp only [State.startWrite, due, pendingWeight]
    push_cast at hcount ⊢
    omega
  · have hlength := h.length
    simp only [State.startWrite]
    omega

lemma hands_sound {r : Result} (hh : Hands cfg s k left r) (ha : Accounts cfg s k left)
    (hw : s.writing = false) (hset : Settled s k) : r.Keeps (Sound cfg) k := by
  cases hh with
  | @one e rest c hphase =>
    have hstart : Accounts cfg (s.startWrite [e.id] (reqLen cfg e) .user) k rest := by
      refine ha.start (t := s) hw rfl ?_ ?_
      · simp [cbWeight]
        omega
      · rw [lenSum_cons]
        omega
    exact ⟨rest, hphase, (hstart.push (f := .clearLoop c) rfl).push (f := .doWrite) rfl,
      fun _ => .inl rfl, (hset.push (.clearLoop c)).push .doWrite⟩
  | none hphase =>
    exact ⟨[], hphase, ha.congr rfl, fun hne => absurd rfl hne, hset⟩

lemma clearBuffer_sound (hb : s.bufferProcessing = false) (hw : s.writing = false)
    (hp : Phase s k left) (ha : Accounts cfg s k left) (hset : Settled s k) :
    (clearBuffer cfg s).Keeps (Sound cfg) k := by
  rcases clearBuffer_spec cfg hb hp with ⟨hlt, hr, hfast⟩ | hhands
  · obtain ⟨rfl, -⟩ := hp.eq_buffer hb
    have hstart : Accounts cfg (fastState s) k [] := by
      refine ha.start hw rfl ?_ ?_
      · simp [cbWeight]
        omega
      · simp only [lenSum, List.map_nil, List.sum_nil]
        have hlength := ha.length
        rw [(ha.idle hw).2] at hlength
        simp only [lenSum] at hlength
        omega
    rw [hr]
    refine ⟨[], hfast, (hstart.push (f := .clearFast) rfl).push (f := .doWrite) rfl,
      fun hne => absurd rfl hne, fun _ => .inr (.inl ?_)⟩
    exact hstart.pending (.inl rfl)
  · exact hands_sound hhands (ha.congr rfl) hw (hset.congr rfl)

lemma clearLoop_sound {c : ℕ} (h : Sound cfg s (.clearLoop c :: k)) :
    (clearLoop cfg s c).Keeps (Sound cfg) k := by
  obtain ⟨left, hp, ha, hm, hset⟩ := h
  rcases clearLoop_spec cfg hp with ⟨hw, hr, hend⟩ | ⟨hw, hhands⟩
  · rw [hr]
    exact ⟨left, hend, (ha.pop rfl).congr rfl, fun _ => .inl hw, (hset.pop rfl).congr rfl⟩
  · exact hands_sound hhands (ha.pop rfl) hw (hset.pop rfl)

lemma clearFast_sound (h : Sound cfg s (.clearFast :: k)) :
    (clearFast s).Keeps (Sound cfg) k := by
  obtain ⟨left, hp, ha, hm, hset⟩ := h
  obtain ⟨rfl, hend⟩ := clearFast_phase hp
  exact ⟨[], hend, (ha.pop rfl).congr rfl, fun hne => absurd rfl hne, (hset.pop rfl).congr rfl⟩

/-! ### Writing -/

/-- The write is neither buffered while `clearBuffer` is about to empty the buffer, nor does it
throw. -/
def SmoothWrite (cfg : Config) (s : State) (k : List Frame) (chunk : Chunk)
    (encoding : EncArg) : Prop :=
  (accepts cfg s chunk encoding = true → Buffered s → .clearFast ∉ k) ∧
    (s.ended = false → validChunk cfg chunk = true → lenOf cfg chunk encoding ≠ none)

lemma write_sound {chunk : Chunk} {encoding : EncArg} (h : Sound cfg s k)
    (hsmooth : SmoothWrite cfg s k chunk encoding) :
    (Writable.write cfg s chunk encoding).Keeps (Sound cfg) k := by
  rcases write_cases cfg s chunk encoding with ⟨-, hw⟩ | ⟨hthrow, he, hv, -⟩ |
    ⟨d, len, ret, hacc, -, hd, -, hw⟩
  · rw [hw]
    exact h.push (f := .writeError) rfl rfl
  · exact absurd hthrow (hsmooth.2 he hv)
  · obtain ⟨left, hp, ha, hm, hset⟩ := h
    rcases hw with ⟨hbuf, hw⟩ | ⟨hbuf, hw⟩
    · set e : WriteReq := ⟨s.accepted, d, encodingOf cfg chunk encoding⟩ with he
      have hreq : reqLen cfg e = len := by rw [reqLen, hd]; rfl
      have ha' : Accounts cfg { s with pendingcb := s.pendingcb + 1, length := s.length + len } k
          (left ++ [e]) := by
        refine ⟨ha.outstanding, ha.busy, ha.idle, ?_, ?_, ha.ticks, ha.chained, ha.called,
          ha.finished⟩
        · have hcount := ha.pendingcb
          simp only [due, List.length_append, List.length_singleton] at hcount ⊢
          push_cast at hcount ⊢
          omega
        · have hlength := ha.length
          rw [lenSum_append, hreq]
          simp only
          omega
      have hne : left ++ [e] ≠ [] := by simp
      rw [hw]
      refine ⟨left ++ [e], hp.buffered (hsmooth.1 hacc hbuf) rfl rfl, ha'.congr rfl, fun _ => ?_,
        fun _ => .inr (.inl (ha'.pending (.inr (.inl hne))))⟩
      exact hbuf.imp_right .inl
    · have hidle : s.writing = false := by
        simp only [Buffered, not_or] at hbuf
        simpa using hbuf.1
      set t : State := { s.charge len ret with pendingcb := s.pendingcb + 1 } with ht
      have hstart : Accounts cfg (t.startWrite [s.accepted] len .user) k left :=
        ha.start hidle rfl (by simp [ht, cbWeight]) (by simp [ht, State.charge])
      rw [hw]
      refine ⟨left, hp.congr rfl rfl (by simp [clears, isClear]),
        (hstart.push (f := .write ret) rfl).push (f := .doWrite) rfl, fun _ => .inl rfl,
        fun _ => .inr (.inl ?_)⟩
      exact hstart.pending (.inl rfl)

/-! ### Completions, `uncork` and `end` -/

lemma update_accounts {sync finished : Bool} (h : Accounts cfg s k left)
    (hout : s.outstanding ≠ 0) :
    Accounts cfg (onwriteStateUpdate s)
      (.onwrite sync finished (s.writecb.getD .user) :: k) left := by
  have hw : s.writing = true := by
    by_contra hne
    rw [h.outstanding, if_neg hne] at hout
    exact hout rfl
  obtain ⟨cb, hcb⟩ := Option.ne_none_iff_exists'.mp (h.busy hw)
  refine ⟨?_, fun hf => (by cases hf), fun _ => ⟨rfl, rfl⟩, ?_, ?_, h.ticks,
    h.chained.push (by rintro n ⟨⟩), fun hc => ?_, fun hf => h.finished ?_⟩
  · simp [onwriteStateUpdate, h.outstanding, hw]
  · have hcount := h.pendingcb
    simp only [due, hcb, pendingWeight] at hcount
    simp only [onwriteStateUpdate, due, pendingWeight, List.map_cons, List.sum_cons, frameWeight,
      hcb, Option.getD_some]
    push_cast at hcount ⊢
    omega
  · have hlength := h.length
    simp only [onwriteStateUpdate]
    omega
  · exact (h.called hc).imp_right fun ⟨c, hc⟩ => ⟨c, List.mem_cons_of_mem _ hc⟩
  · exact hf.imp_right fun hm => (List.mem_cons.mp hm).resolve_left (by rintro ⟨⟩)

/-- The completed write leaves no buffer behind that is not going to be written. -/
def SmoothOnwrite (s : State) : Prop :=
  s.corked = 0 → s.bufferProcessing = false → needFinish (onwriteStateUpdate s) = true →
    s.buffer = []

lemma onwrite_sound (h : Sound cfg s k) (hout : s.outstanding ≠ 0) (hsmooth : SmoothOnwrite s) :
    (onwrite cfg false s).Keeps (Sound cfg) k := by
  obtain ⟨left, hp, ha, hm, hset⟩ := h
  unfold Writable.onwrite
  dsimp only
  set t := onwriteStateUpdate s with ht
  set f := Frame.onwrite s.sync (needFinish t) (s.writecb.getD .user) with hf
  have hp' : Phase t (f :: k) left := (hp.push (f := f) rfl).congr rfl rfl rfl
  have ha' : Accounts cfg t (f :: k) left := update_accounts ha hout
  have hset' : Settled t (f :: k) := fun he => hset.push f he
  rw [if_neg Bool.false_ne_true]
  split_ifs with hclear
  · have hb : t.bufferProcessing = false := by
      simp only [Bool.and_eq_true] at hclear
      simpa using hclear.1.2
    exact Res.Keeps.andThen (clearBuffer_sound hb rfl hp' ha' hset') fun u hu =>
      onwriteAfter_sound hu
  · refine onwriteAfter_sound (k := k) ⟨left, hp', ha', fun hne => .inr ?_, hset'⟩
    -- the stream is corked, or `clearBuffer` runs, or the buffer is empty
    by_cases hc : s.corked = 0
    · refine .inr ?_
      by_cases hb : s.bufferProcessing = true
      · obtain hl | ⟨c, hc⟩ := hp.processing hb
        · exact absurd hl hne
        · exact ⟨c, List.mem_cons_of_mem f hc⟩
      · have hb : s.bufferProcessing = false := by simpa using hb
        have hbuf : s.buffer ≠ [] := by rwa [← (hp.eq_buffer hb).1]
        have hfinish : needFinish t = false := by
          by_contra hn
          exact hbuf (hsmooth hc hb (by simpa using hn))
        have htc : t.corked = 0 := hc
        have htb : t.bufferProcessing = false := hb
        have htbuf : t.buffer ≠ [] := hbuf
        exact absurd (by simp [hfinish, htc, htb, htbuf]) hclear
    · exact .inl (Nat.pos_of_ne_zero hc)

/-- The stream has finished, and a buffer is left: `uncork` is not going to write it. -/
def Shut (s : State) : Prop :=
  s.finished = true ∧ s.writing = false ∧ s.bufferProcessing = false ∧ s.buffer ≠ []

lemma uncork_sound (h : Sound cfg s k) (hsmooth : s.corked = 1 → ¬ Shut s) :
    (uncork cfg s).Keeps (Sound cfg) k := by
  unfold Writable.uncork
  split_ifs with hc
  · obtain ⟨left, hp, ha, hm, hset⟩ := h
    dsimp only
    have hp' : Phase { s with corked := s.corked - 1 } k left := hp.congr rfl rfl rfl
    have ha' : Accounts cfg { s with corked := s.corked - 1 } k left :=
      ⟨ha.outstanding, ha.busy, ha.idle, ha.pendingcb, ha.length, ha.ticks, ha.chained,
        ha.called, ha.finished⟩
    split_ifs with hclear
    · obtain ⟨hw, hb⟩ : s.writing = false ∧ s.bufferProcessing = false := by
        simp only [Bool.and_eq_true] at hclear
        exact ⟨by simpa using hclear.1.1.1.1, by simpa using hclear.1.2⟩
      exact clearBuffer_sound hb hw hp' ha' hset
    · refine ⟨left, hp', ha', fun hne => ?_, hset⟩
      by_cases hw : s.writing = true
      · exact .inl hw
      refine .inr ?_
      by_cases hc1 : s.corked = 1
      · refine .inr ?_
        by_cases hb : s.bufferProcessing = true
        · exact (hp.processing hb).resolve_left hne
        · have hb : s.bufferProcessing = false := by simpa using hb
          have hw : s.writing = false := by simpa using hw
          have hbuf : s.buffer ≠ [] := by rwa [← (hp.eq_buffer hb).1]
          have hfin : s.finished = false := by
            by_contra hf
            exact hsmooth hc1 ⟨by simpa using hf, hw, hb, hbuf⟩
          exact absurd (by simp [hw, hc1, hfin, hb, hbuf]) hclear
      · refine .inl ?_
        simp only [Res.state]
        omega
  · exact h

lemma endUncorked_sound {cb : Bool} (h : Sound cfg s (.endUncorked cb :: k)) :
    (endUncorked cb s).Keeps (Sound cfg) k := by
  obtain ⟨left, hp, ha, hm, hset⟩ := h
  have hcount : s.pendingcb = due s k left := by
    rw [ha.pendingcb]
    simp [due, frameWeight]
  have hfin : s.finished = true ∨ .finish ∈ k → s.ending = true := fun hf =>
    ha.finished (hf.imp_right (List.mem_cons_of_mem _))
  unfold Writable.endUncorked
  split_ifs with hnew
  · have ha' : Accounts cfg { s with ending := true } k left :=
      ⟨ha.outstanding, ha.busy, ha.idle, hcount, ha.length, ha.ticks, ha.chained.pop,
        fun _ => .inl rfl, fun _ => rfl⟩
    have hp' : Phase { s with ending := true } k left := (hp.pop rfl).congr rfl rfl rfl
    refine Res.Keeps.andThen (f := Frame.endWritable cb) (finishMaybe_sound (hp'.push rfl)
      (ha'.push rfl) ((hm.pop rfl).push _)) fun u hu => ?_
    have hu' := hu.pop rfl rfl
    unfold endWritableDone
    split_ifs
    · exact hu'.tickUser.congr rfl rfl rfl
    · exact hu'.congr rfl rfl rfl
  · have he : s.ending = true := by
      by_contra hne
      have hf : s.finished = true := by
        by_contra hf
        exact hnew (by simp [hne, hf])
      exact hne (hfin (.inl hf))
    refine ⟨left, hp.pop rfl, ⟨ha.outstanding, ha.busy, ha.idle, hcount, ha.length, ha.ticks,
      ha.chained.pop, fun _ => .inl he, hfin⟩, hm.pop rfl, fun he => ?_⟩
    simpa using hset he

lemma end_sound {cb : Bool} (h : Sound cfg s k) (hsmooth : 0 < s.corked → ¬ Shut s) :
    (Writable.end cfg cb s).Keeps (Sound cfg) k := by
  have ht : ∀ c, (0 < s.corked → 0 < c) → Sound cfg { s with endCalled := true, corked := c }
      (.endUncorked cb :: k) := by
    intro c hc
    obtain ⟨left, hp, ha, hm, hset⟩ := h
    refine ⟨left, (hp.push (f := .endUncorked cb) rfl).congr rfl rfl rfl, ⟨ha.outstanding,
      ha.busy, ha.idle, ?_, ha.length, ha.ticks, ha.chained.push (by rintro n ⟨⟩),
      fun _ => .inr ⟨cb, List.mem_cons_self⟩, fun hf => ha.finished (by simpa using hf)⟩,
      fun hne => ?_, hset.push _⟩
    · have hcount := ha.pendingcb
      simpa [due, frameWeight] using hcount
    · exact (hm.push _ hne).imp_right fun hm => hm.imp_left hc
  unfold Writable.end
  refine Res.Keeps.andThen (f := Frame.endUncorked cb) ?_ fun u hu => endUncorked_sound hu
  split_ifs with hc
  · exact uncork_sound (ht 1 fun _ => Nat.one_pos) fun _ => hsmooth hc
  · exact ht s.corked id

lemma exec_sound (h : Sound cfg s (f :: k)) : (exec cfg s f).Keeps (Sound cfg) k := by
  cases f with
  | user => exact h.pop rfl rfl
  | doWrite => exact (h.pop rfl rfl).congr rfl rfl rfl
  | write ret => exact (h.pop rfl rfl).congr rfl rfl rfl
  | writeError => exact (h.pop rfl rfl).tickUser.congr rfl rfl rfl
  | clearLoop c => exact clearLoop_sound h
  | clearFast => exact clearFast_sound h
  | onwrite sync finished cb => exact onwriteAfter_sound h
  | onwriteError => exact h.pop rfl rfl
  | afterDrain cb => exact afterDrain_sound h
  | afterCb => exact afterCb_sound h
  | writevCbs n => exact writevCbs_sound h
  | finish => exact finish_sound h
  | endUncorked cb => exact endUncorked_sound h
  | endWritable cb =>
    have hu := h.pop rfl rfl
    unfold Writable.exec endWritableDone
    dsimp only
    split_ifs
    · exact hu.tickUser.congr rfl rfl rfl
    · exact hu.congr rfl rfl rfl

end Accounts

/-! ### Runs -/

/-- A step that loses nothing. -/
def Smooth (m : Stream) : Act → Prop
  | .write chunk encoding => SmoothWrite cfg m.st m.stack chunk encoding
  | .onwrite er => er = false ∧ SmoothOnwrite m.st
  | .uncork => m.st.corked = 1 → ¬ Shut m.st
  | .end _ => 0 < m.st.corked → ¬ Shut m.st
  | _ => True

lemma call_sound {m : Stream} {a : Act} {r : Result} (hr : callOf cfg m.st a = some r)
    (hsmooth : Smooth cfg m a) (h : Sound cfg m.st m.stack) :
    r.Keeps (Sound cfg) (.user :: m.stack) := by
  have hu : Sound cfg m.st (.user :: m.stack) := h.push rfl rfl
  cases a with
  | write chunk encoding =>
    obtain rfl := Option.some.inj hr
    refine write_sound hu ⟨fun hacc hbuf => ?_, hsmooth.2⟩
    simpa using hsmooth.1 hacc hbuf
  | cork =>
    obtain rfl := Option.some.inj hr
    obtain ⟨left, hp, ha, hm, hset⟩ := hu
    refine ⟨left, hp.congr rfl rfl rfl, ⟨ha.outstanding, ha.busy, ha.idle, ha.pendingcb,
      ha.length, ha.ticks, ha.chained, ha.called, ha.finished⟩, fun _ => ?_, hset⟩
    exact .inr (.inl (Nat.succ_pos m.st.corked))
  | uncork =>
    obtain rfl := Option.some.inj hr
    exact uncork_sound hu hsmooth
  | «end» cb =>
    obtain rfl := Option.some.inj hr
    exact end_sound hu hsmooth
  | onwrite er =>
    obtain ⟨rfl, hsmooth⟩ := hsmooth
    simp only [callOf] at hr
    split_ifs at hr with hout
    obtain rfl := Option.some.inj hr
    exact onwrite_sound hu hout hsmooth
  | ret => cases hr
  | tick => cases hr

/-- **A smooth step forgets nothing.** -/
theorem step_sound {m m' : Stream} {a : Act} (h : Sound cfg m.st m.stack)
    (hs : step cfg m a = some m') (hsmooth : Smooth cfg m a) : Sound cfg m'.st m'.stack := by
  refine step_keeps cfg hs h (fun s k hk => hk.pop rfl rfl)
    (fun r hr => call_sound cfg hr hsmooth h) (fun s f k _ hk => exec_sound hk) ?_
  intro t ts hstack hticks
  rw [hstack] at h
  exact runTick_sound h hticks

lemma sound_init : Sound cfg init.st init.stack := by
  refine ⟨[], .idle rfl rfl, ⟨rfl, fun hw => (by cases hw), fun _ => ⟨rfl, rfl⟩, rfl, rfl,
    fun cb hcb => (by cases hcb), fun n l hl => ?_, fun he => (by cases he), fun hf => ?_⟩,
    fun hne => absurd rfl hne, fun he => (by cases he)⟩
  · have := hl.length_le
    simp [init] at this
  · rcases hf with hf | hf
    · cases hf
    · cases hf

/-- With nobody about to hand over what is left, nothing is. -/
lemma Moving.rest {s : State} {left : List WriteReq} (h : Moving s [] left)
    (hw : s.writing = false) (hc : s.corked = 0) : left = [] := by
  by_contra hne
  rcases h hne with hm | hm | ⟨c, hm⟩
  · rw [hw] at hm
    cases hm
  · omega
  · cases hm

/-- No code runs, no write is pending, the stream is not corked, and there are no ticks. -/
structure AtRest (m : Stream) : Prop where
  stack : m.stack = []
  outstanding : m.st.outstanding = 0
  corked : m.st.corked = 0
  ticks : m.st.ticks = []

/-- **Nothing is stranded**, in every smooth run: at rest the buffer is empty, no callback is
to come and, after `end`, `'finish'` has been emitted. -/
theorem nothing_stranded {m : Stream} (h : Run (step cfg) (fun m a _ => Smooth cfg m a) init m)
    (hrest : AtRest m) :
    m.st.buffer = [] ∧ m.st.pendingcb = 0 ∧ (m.st.endCalled = true → m.st.finished = true) := by
  obtain ⟨left, hp, ha, hm, hset⟩ :=
    h.invariant (sound_init cfg) fun n a n' hn hs hsmooth => step_sound cfg hn hs hsmooth
  have hw : m.st.writing = false := by
    by_contra hne
    have := ha.outstanding
    rw [if_pos (by simpa using hne), hrest.outstanding] at this
    omega
  have hleft : left = [] := by
    rw [hrest.stack] at hm
    exact hm.rest hw hrest.corked
  subst hleft
  have hcb : m.st.pendingcb = 0 := by
    rw [ha.pendingcb]
    simp [due, (ha.idle hw).1, pendingWeight, hrest.ticks, hrest.stack]
  refine ⟨?_, hcb, fun he => ?_⟩
  · rw [hrest.stack] at hp
    exact hp.eq_of_nil.symm
  · have hending : m.st.ending = true := by
      rcases ha.called he with he | ⟨cb, hcb⟩
      · exact he
      · rw [hrest.stack] at hcb
        cases hcb
    rcases hset hending with hf | hne | hmem | hmem
    · exact hf
    · exact absurd hcb hne
    · rw [hrest.stack] at hmem
      cases hmem
    · rw [hrest.stack] at hmem
      cases hmem

def byteConfig : Config := ⟨16, false, true, some (js "utf8"), false⟩

/-- A write that is pending at `end`. -/
def writeEnd : List Act :=
  [.write (.buf [97]) none, .ret, .end false, .onwrite false, .ret, .ret, .ret]

theorem nothing_stranded_writeEnd :
    ∃ m, Run (step byteConfig) (fun m a _ => Smooth byteConfig m a) init m ∧ AtRest m ∧
      m.st.endCalled = true ∧ m.st.finished = true := by
  have hrun : ∃ m, Run (step byteConfig) (fun m a _ => Smooth byteConfig m a) init m ∧
      AtRest m ∧ m.st.endCalled = true :=
    ⟨_, Run.of_path .refl (w := writeEnd)
      ⟨_, rfl, ⟨fun _ hb => absurd hb (by decide), fun _ _ => by decide⟩, _, rfl, trivial,
        _, rfl, fun hc => absurd hc (by decide), _, rfl, ⟨rfl, fun _ _ _ => rfl⟩,
        _, rfl, trivial, _, rfl, trivial, _, rfl, trivial, rfl⟩, ⟨rfl, rfl, rfl, rfl⟩, rfl⟩
  obtain ⟨m, hm, hrest, he⟩ := hrun
  exact ⟨m, hm, hrest, he, (nothing_stranded byteConfig hm hrest).2.2 he⟩

/-- A write that is pending at `end`, with an empty chunk behind it. -/
def emptyBehind : List Act :=
  [.write (.buf [97]) none, .ret, .write (.buf []) none, .end false, .onwrite false, .ret, .ret]

theorem empty_chunk_stranded :
    ¬ ∀ m, Run (step byteConfig) (fun _ a _ => a ≠ .onwrite true) init m → AtRest m →
      m.st.buffer = [] ∧ m.st.pendingcb = 0 ∧
        (m.st.endCalled = true → m.st.finished = true) := by
  intro h
  have := h _ (Run.of_path .refl (w := emptyBehind)
    ⟨_, rfl, by decide, _, rfl, by decide, _, rfl, by decide, _, rfl, by decide,
      _, rfl, by decide, _, rfl, by decide, _, rfl, by decide, rfl⟩) ⟨rfl, rfl, rfl, rfl⟩
  exact absurd this.1 (by decide)

end NodeCore.WritableFinish
