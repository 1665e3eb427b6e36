import NodeCore.WritableClear

/-!
A stream with its accounts: which chunks have been completed and which callbacks have been called.

The stream itself is that of `Writable`; its accounts say of every callback who is to call it. They
are those of a stream whose writes do not fail.
-/

namespace NodeCore.WritableCalls

open NodeCore.Encoding NodeCore.Reentrant NodeCore.Writable NodeCore.WritableBooks

/-- What there was when `'finish'` was emitted. -/
structure Finish where
  endCalled : Bool
  accepted : ℕ
  completed : List ℕ
  called : List ℕ
  deriving DecidableEq

structure Tracked where
  st : State
  /-- The chunks whose completion has been processed. -/
  completed : List ℕ
  /-- The callbacks that the ticks will call, for each of the ticks that run `afterWrite`. -/
  waiting : List (List ℕ)
  /-- The callbacks that the frames will call, for each of the frames that have some. -/
  inHand : List (List ℕ)
  /-- The callbacks that have been called. -/
  called : List ℕ
  /-- The length of each accepted chunk. -/
  lens : ℕ → ℤ
  /-- The `'finish'` events. -/
  finishes : List Finish

abbrev Outcome := Res Tracked Frame

namespace Tracked

def new : Tracked where
  st := .new
  completed := []
  waiting := []
  inHand := []
  called := []
  lens := fun _ => 0
  finishes := []

variable (cfg : Config) (t : Tracked)

/-- What a function of the stream does that calls no callback. -/
def on (r : Result) : Outcome := r.map fun s => { t with st := s }

/-- The chunks that have been handed over and not been completed. -/
def pending : List ℕ := t.st.handed.drop t.completed.length

/-! ### Finishing -/

def finish : Outcome :=
  let finish : Finish := ⟨t.st.endCalled, t.st.accepted, t.completed, t.called⟩
  { t with finishes := t.finishes ++ [finish] }.on (Writable.finish t.st)

def finishMaybe : Outcome :=
  if needFinish t.st then
    if t.st.pendingcb = 0 then (t.on (prefinish t.st)).andThen .finish finish
    else t.on (prefinish t.st)
  else .ret t

/-! ### Callbacks -/

/-- The callbacks of the topmost frame that has some. -/
def top : List ℕ := t.inHand.headD []

def hold (ids : List ℕ) : Tracked := { t with inHand := ids :: t.inHand }

def release : Tracked := { t with inHand := t.inHand.tail }

/-- The first of the callbacks is called, and the frame keeps the rest. -/
def callFirst : Tracked :=
  { t.release.hold (t.top.drop 1) with called := t.called ++ t.top.take 1 }

def callCb : Cb → Outcome
  | .user => { t.release with called := t.called ++ t.top }.on (Writable.callCb t.st .user)
  | .writev more => t.callFirst.on (Writable.callCb t.st (.writev more))

def writevCbs : ℕ → Outcome
  | 0 => t.release.on (Writable.writevCbs t.st 0)
  | n + 1 => t.callFirst.on (Writable.writevCbs t.st (n + 1))

def afterDrain (cb : Cb) : Outcome :=
  ({ t with st := { t.st with pendingcb := t.st.pendingcb - 1 } }.callCb cb).andThen .afterCb
    finishMaybe

def afterWrite (finished : Bool) (cb : Cb) : Outcome :=
  (if !finished then t.on (onwriteDrain t.st) else .ret t).andThen (.afterDrain cb)
    (afterDrain · cb)

def onwriteAfter (sync finished : Bool) (cb : Cb) : Outcome :=
  if sync then
    .ret { t.release with
      st := { t.st with ticks := t.st.ticks ++ [.afterWrite finished cb] }
      waiting := t.waiting ++ [t.top] }
  else t.afterWrite finished cb

/-- The completion of a write is processed. -/
def update : Tracked :=
  { t.hold t.pending with st := onwriteStateUpdate t.st, completed := t.st.handed }

/-- `onwrite`, without an error. -/
def onwrite : Outcome :=
  let sync := t.st.sync
  let cb := t.st.writecb.getD .user
  let t := t.update
  let finished := needFinish t.st
  (if !finished && t.st.corked = 0 && !t.st.bufferProcessing && t.st.buffer ≠ [] then
      t.on (clearBuffer cfg t.st)
    else .ret t).andThen (.onwrite sync finished cb) (onwriteAfter · sync finished cb)

/-! ### `write` and `end` -/

def write (chunk : Chunk) (encoding : EncArg) : Outcome :=
  { t with lens :=
      if accepts cfg t.st chunk encoding then
        Function.update t.lens t.st.accepted ((lenOf cfg chunk encoding).getD 0)
      else t.lens }.on (Writable.write cfg t.st chunk encoding)

def endUncorked (cb : Bool) : Outcome :=
  if !t.st.ending && !t.st.finished then
    ({ t with st := { t.st with ending := true } }.finishMaybe).andThen (.endWritable cb)
      fun t => t.on (endWritableDone cb t.st)
  else .ret t

def «end» (cb : Bool) : Outcome :=
  let t := { t with st := { t.st with endCalled := true } }
  (if 0 < t.st.corked then t.on (uncork cfg { t.st with corked := 1 }) else .ret t).andThen
    (.endUncorked cb) (endUncorked · cb)

/-! ### The system -/

def exec : Frame → Outcome
  | .onwrite sync finished cb => t.onwriteAfter sync finished cb
  | .afterDrain cb => t.afterDrain cb
  | .afterCb => t.finishMaybe
  | .writevCbs n => t.writevCbs n
  | .finish => t.finish
  | .endUncorked cb => t.endUncorked cb
  | f => t.on (Writable.exec cfg t.st f)

def runTick : Tick → Outcome
  | .afterWrite finished cb =>
    { t.hold (t.waiting.headD []) with waiting := t.waiting.tail }.afterWrite finished cb
  | tick => t.on (Writable.runTick t.st tick)

end Tracked

variable (cfg : Config)

/-- What foreign code calls. -/
def callOf (t : Tracked) : Act → Option Outcome
  | .write chunk encoding => some (t.write cfg chunk encoding)
  | .cork => some (t.on (.ret (cork t.st)))
  | .uncork => some (t.on (uncork cfg t.st))
  | .end cb => some (t.end cfg cb)
  | .onwrite er => if er || t.st.outstanding = 0 then none else some (t.onwrite cfg)
  | .ret | .tick => none

def step (m : Machine Tracked Frame) : Act → Option (Machine Tracked Frame)
  | .ret =>
    if m.stack = [] then none else some (resume (Tracked.exec cfg) boundary m.st m.stack)
  | .tick =>
    match m.stack, m.st.st.ticks with
    | [], tick :: ticks =>
      let r := { m.st with st := { m.st.st with ticks := ticks } }.runTick tick
      some ⟨r.state, r.frames⟩
    | _, _ => none
  | a => (callOf cfg m.st a).map (enter .user m)

def init : Machine Tracked Frame := ⟨.new, []⟩

/-! ### The stream without its accounts -/

namespace Tracked

variable {cfg} (t : Tracked)

@[simp] lemma on_map (r : Result) : (t.on r).map st = r := by
  cases r with
  | ret s => rfl
  | call s fs => rfl

lemma finish_map : t.finish.map st = Writable.finish t.st := on_map _ _

lemma finishMaybe_map : t.finishMaybe.map st = Writable.finishMaybe t.st := by
  unfold finishMaybe Writable.finishMaybe
  split_ifs
  · rw [Res.map_andThen fun u => u.finish_map, on_map]
  · exact t.on_map _
  · rfl

lemma callCb_map (cb : Cb) : (t.callCb cb).map st = Writable.callCb t.st cb := by
  cases cb with
  | user => exact on_map _ _
  | writev more => exact on_map _ _

lemma writevCbs_map (n : ℕ) : (t.writevCbs n).map st = Writable.writevCbs t.st n := by
  cases n with
  | zero => exact on_map _ _
  | succ n => exact on_map _ _

lemma afterDrain_map (cb : Cb) : (t.afterDrain cb).map st = Writable.afterDrain cb t.st := by
  unfold afterDrain Writable.afterDrain
  rw [Res.map_andThen finishMaybe_map, callCb_map]

lemma afterWrite_map (finished : Bool) (cb : Cb) :
    (t.afterWrite finished cb).map st = Writable.afterWrite finished cb t.st := by
  unfold afterWrite Writable.afterWrite
  rw [Res.map_andThen (fun u => u.afterDrain_map cb)]
  split_ifs
  · rw [on_map]
  · rfl

lemma onwriteAfter_map (sync finished : Bool) (cb : Cb) :
    (t.onwriteAfter sync finished cb).map st = Writable.onwriteAfter sync finished cb t.st := by
  unfold onwriteAfter Writable.onwriteAfter
  split_ifs
  · rfl
  · exact t.afterWrite_map finished cb

lemma onwrite_map : (t.onwrite cfg).map st = Writable.onwrite cfg false t.st := by
  unfold onwrite Writable.onwrite
  dsimp only
  rw [Res.map_andThen (fun u => u.onwriteAfter_map _ _ _), if_neg Bool.false_ne_true]
  refine congrArg (Res.andThen · _ _) ?_
  have hst : t.update.st = onwriteStateUpdate t.st := rfl
  rw [hst]
  split_ifs
  · exact on_map _ _
  · rfl

lemma endUncorked_map (cb : Bool) : (t.endUncorked cb).map st = Writable.endUncorked cb t.st := by
  unfold endUncorked Writable.endUncorked
  split_ifs
  · rw [Res.map_andThen fun u => u.on_map _, finishMaybe_map]
  · rfl

lemma end_map (cb : Bool) : (t.end cfg cb).map st = Writable.end cfg cb t.st := by
  unfold «end» Writable.end
  dsimp only
  rw [Res.map_andThen (fun u => u.endUncorked_map cb)]
  refine congrArg (Res.andThen · _ _) ?_
  split_ifs
  · exact on_map _ _
  · rfl

lemma exec_map (f : Frame) : (t.exec cfg f).map st = Writable.exec cfg t.st f := by
  cases f with
  | onwrite sync finished cb => exact t.onwriteAfter_map sync finished cb
  | afterDrain cb => exact t.afterDrain_map cb
  | afterCb => exact t.finishMaybe_map
  | writevCbs n => exact t.writevCbs_map n
  | finish => exact t.finish_map
  | endUncorked cb => exact t.endUncorked_map cb
  | _ => exact on_map _ _

lemma runTick_map (tick : Tick) : (t.runTick tick).map st = Writable.runTick t.st tick := by
  cases tick with
  | afterWrite finished cb => exact afterWrite_map _ finished cb
  | _ => exact on_map _ _

end Tracked

/-- **The accounts follow the stream**: without them, a step is a step of the stream. -/
theorem step_map (m : Machine Tracked Frame) {a : Act} (ha : a ≠ .onwrite true) :
    (step cfg m a).map (Machine.map Tracked.st) = Writable.step cfg (m.map Tracked.st) a := by
  cases a with
  | write chunk encoding =>
    refine congrArg some (enter_map.trans (congrArg _ ?_))
    exact Tracked.on_map _ _
  | cork => rfl
  | uncork =>
    refine congrArg some (enter_map.trans (congrArg _ ?_))
    exact Tracked.on_map _ _
  | «end» cb => exact congrArg some (enter_map.trans (congrArg _ (m.st.end_map cb)))
  | onwrite er =>
    obtain rfl : er = false := by
      cases er with
      | false => rfl
      | true => exact absurd rfl ha
    unfold step callOf Writable.step
    dsimp only
    by_cases hout : m.st.st.outstanding = 0
    · simp [hout, Machine.map]
    · simp only [hout, Machine.map, Bool.false_or, decide_false, Bool.false_eq_true, if_false]
      exact congrArg some (enter_map.trans (congrArg _ m.st.onwrite_map))
  | ret =>
    unfold step Writable.step
    by_cases hstack : m.stack = []
    · simp [hstack, Machine.map]
    · simp only [hstack, Machine.map, if_false]
      exact congrArg some (resume_map fun t f => t.exec_map f)
  | tick =>
    unfold step Writable.step
    obtain ⟨t, k⟩ := m
    cases k with
    | cons f k => rfl
    | nil =>
      dsimp only [Machine.map]
      cases hticks : t.st.ticks with
      | nil => rfl
      | cons tick ticks =>
        have hrun := Tracked.runTick_map { t with st := { t.st with ticks := ticks } } tick
        dsimp only [Option.map]
        rw [← hrun]
        cases Tracked.runTick { t with st := { t.st with ticks := ticks } } tick with
        | ret u => rfl
        | call u fs => rfl

end NodeCore.WritableCalls
