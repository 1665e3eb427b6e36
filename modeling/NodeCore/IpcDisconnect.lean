import NodeCore.Ipc
import NodeCore.Ledger

/-!
How a channel ends: `'disconnect'` is emitted once, after the channel has been closed, unless
the end of the channel finds a `disconnect` that waits for a message.
-/

namespace NodeCore.IpcDisconnect

open NodeCore.Ipc NodeCore.Ledger

variable {M : Type}

def isDisconnect : Event M → Bool
  | .disconnect => true
  | _ => false

/-- An error because of the end of the channel. -/
def isEofError : Event M → Bool
  | .error _ atEof => atEof
  | _ => false

/-- **What is claimed.** -/
structure Sound (t : Target M) : Prop where
  atMost : t.log.countP isDisconnect ≤ 1
  once : t.closed = true → t.log.countP isDisconnect = 1
  quiet : t.log.countP isEofError = 0

/-- The channel is open; or closing, when a message has come; or closed. -/
inductive Phase (t : Target M) : Prop
  | connected (h : t.connected = true) (hf : t.finishing = false) (hc : t.closed = false)
      (hn : t.log.countP isDisconnect = 0)
  | waiting (h : t.connected = false) (hf : t.finishing = true) (hc : t.closed = false)
      (hn : t.log.countP isDisconnect = 0)
  | done (h : t.connected = false) (hf : t.finishing = false) (hc : t.closed = true)
      (hn : t.log.countP isDisconnect = 1)

structure Good (t : Target M) : Prop where
  phase : Phase t
  quiet : t.log.countP isEofError = 0

lemma Good.sound {t : Target M} (h : Good t) : Sound t := by
  refine ⟨?_, ?_, h.quiet⟩
  · rcases h.phase with ⟨-, -, -, hn⟩ | ⟨-, -, -, hn⟩ | ⟨-, -, -, hn⟩ <;> omega
  · intro hclosed
    rcases h.phase with ⟨-, -, hc, -⟩ | ⟨-, -, hc, -⟩ | ⟨-, -, -, hn⟩
    · rw [hc] at hclosed
      cases hclosed
    · rw [hc] at hclosed
      cases hclosed
    · exact hn

/-! ### What does not touch the end -/

/-- Nothing that matters here has changed. -/
structure Same (t t' : Target M) : Prop where
  connected : t'.connected = t.connected
  finishing : t'.finishing = t.finishing
  closed : t'.closed = t.closed
  disconnects : t'.log.countP isDisconnect = t.log.countP isDisconnect
  eofErrors : t'.log.countP isEofError = t.log.countP isEofError

lemma Same.refl (t : Target M) : Same t t := ⟨rfl, rfl, rfl, rfl, rfl⟩

lemma Same.trans {t t' t'' : Target M} (h : Same t t') (h' : Same t' t'') : Same t t'' :=
  ⟨h'.1.trans h.1, h'.2.trans h.2, h'.3.trans h.3, h'.4.trans h.4, h'.5.trans h.5⟩

lemma Good.same {t t' : Target M} (hg : Good t) (h : Same t t') : Good t' := by
  obtain ⟨h1, h2, h3, h4, h5⟩ := h
  refine ⟨?_, h5.trans hg.quiet⟩
  rcases hg.phase with ⟨h, hf, hc, hn⟩ | ⟨h, hf, hc, hn⟩ | ⟨h, hf, hc, hn⟩
  · exact .connected (h1.trans h) (h2.trans hf) (h3.trans hc) (h4.trans hn)
  · exact .waiting (h1.trans h) (h2.trans hf) (h3.trans hc) (h4.trans hn)
  · exact .done (h1.trans h) (h2.trans hf) (h3.trans hc) (h4.trans hn)

lemma same_emit (t : Target M) {e : Event M} (h : isDisconnect e = false)
    (h' : isEofError e = false) : Same t (t.emit e) :=
  ⟨rfl, rfl, rfl, by simp [Target.emit, List.countP_append, h],
    by simp [Target.emit, List.countP_append, h']⟩

lemma same_send (t : Target M) (w : Wire M) : Same t (t.send w) := by
  unfold Target.send
  split_ifs
  · exact same_emit t rfl rfl
  all_goals cases t.handleQueue <;> exact ⟨rfl, rfl, rfl, rfl, rfl⟩

lemma same_drain (t : Target M) : Same t t.drain := by
  have hfold : ∀ (queue : List (Wire M)) (t : Target M), Same t (queue.foldl Target.send t) := by
    intro queue
    induction queue with
    | nil => exact Same.refl
    | cons w queue ih => exact fun t => (same_send t w).trans (ih _)
  unfold Target.drain
  cases t.handleQueue with
  | none => exact ⟨rfl, rfl, rfl, rfl, rfl⟩
  | some queue =>
    have hnone : Same t { t with handleQueue := none } := ⟨rfl, rfl, rfl, rfl, rfl⟩
    exact hnone.trans (hfold queue _)

/-! ### What does -/

lemma good_finish {t : Target M} (h : Good t) (hc : t.closed = false)
    (hd : t.connected = false) : Good t.finish := by
  have hn : t.log.countP isDisconnect = 0 := by
    rcases h.phase with ⟨-, -, -, hn⟩ | ⟨-, -, -, hn⟩ | ⟨-, -, hc', -⟩
    · exact hn
    · exact hn
    · rw [hc] at hc'
      cases hc'
  refine ⟨.done hd rfl rfl ?_, ?_⟩
  · simp [Target.finish, Target.emit, List.countP_append, hn, isDisconnect]
  · simp [Target.finish, Target.emit, List.countP_append, h.quiet, isEofError]

lemma good_finishIf {t : Target M} (h : Good t) : Good t.finishIf := by
  unfold Target.finishIf
  split_ifs with hf
  · have hf' : t.finishing = true := by simp_all
    rcases h.phase with ⟨-, hf'', -, -⟩ | ⟨hd, -, hc, -⟩ | ⟨-, hf'', -, -⟩
    · rw [hf'] at hf''
      cases hf''
    · exact good_finish h hc hd
    · rw [hf'] at hf''
      cases hf''
  · exact h

lemma good_emitMessage {t : Target M} (h : Good t) (m : M) : Good (t.emitMessage m) :=
  good_finishIf (h.same (same_emit t rfl rfl))

lemma good_handle {t : Target M} (h : Good t) (w : Wire M) : Good (t.handle w) := by
  cases w with
  | plain m => exact good_emitMessage h m
  | ack => exact good_finishIf (h.same (same_drain t))
  | handle type m =>
    refine good_finishIf ?_
    have hs := h.same (same_send t .ack)
    unfold Target.got
    split_ifs
    · exact hs.same ⟨rfl, rfl, rfl, rfl, rfl⟩
    · exact good_emitMessage hs m

lemma good_tick {t : Target M} (h : Good t) : Good t.tick := by
  have hfold : ∀ (ms : List M) (t : Target M), Good t → Good (ms.foldl Target.emitMessage t) := by
    intro ms
    induction ms with
    | nil => exact fun _ h => h
    | cons m ms ih => exact fun t h => ih _ (good_emitMessage h m)
  unfold Target.tick
  split_ifs
  · exact h
  · exact hfold _ _ (h.same ⟨rfl, rfl, rfl, rfl, rfl⟩)

lemma good_line (json : Json M) {t : Target M} (h : Good t) : Good (t.line json) := by
  unfold Target.line
  cases takeLine t.jsonBuffer with
  | none => exact good_tick (h.same ⟨rfl, rfl, rfl, rfl, rfl⟩)
  | some r =>
    dsimp only
    split
    · have hrest : Good { t with jsonBuffer := r.2 } := h.same ⟨rfl, rfl, rfl, rfl, rfl⟩
      exact good_handle hrest _
    · exact h.same ⟨rfl, rfl, rfl, rfl, rfl⟩

lemma good_disconnect {t : Target M} (h : Good t) : Good (t.disconnect false) := by
  unfold Target.disconnect
  cases hconn : t.connected with
  | false => exact h.same (same_emit t rfl rfl)
  | true =>
    obtain ⟨hc, hn⟩ : t.closed = false ∧ t.log.countP isDisconnect = 0 := by
      rcases h.phase with ⟨-, -, hc, hn⟩ | ⟨hd, -, -, -⟩ | ⟨hd, -, -, -⟩
      · exact ⟨hc, hn⟩
      · exact absurd (hd.symm.trans hconn) Bool.false_ne_true
      · exact absurd (hd.symm.trans hconn) Bool.false_ne_true
    simp only [Bool.not_true, Bool.false_eq_true, if_false]
    split_ifs
    · exact ⟨.waiting rfl rfl hc hn, h.quiet⟩
    · refine ⟨.done rfl rfl rfl ?_, ?_⟩
      · simp [Target.finish, Target.emit, List.countP_append, hn, isDisconnect]
      · simp [Target.finish, Target.emit, List.countP_append, h.quiet, isEofError]

/-- The end of an open channel. -/
lemma good_eof {t : Target M} (h : Good t) (hconn : t.connected = true) : Good t.eof := by
  have hn : t.log.countP isDisconnect = 0 := by
    rcases h.phase with ⟨-, -, -, hn⟩ | ⟨hd, -, -, -⟩ | ⟨hd, -, -, -⟩
    · exact hn
    · rw [hconn] at hd
      cases hd
    · rw [hconn] at hd
      cases hd
  have heof : t.eof = { t with
      buffering := false, connected := false, finishing := false, closed := true
      log := t.log ++ [.disconnect] } := by
    simp [Target.eof, Target.disconnect, Target.finish, Target.emit, hconn]
  rw [heof]
  refine ⟨.done rfl rfl rfl ?_, ?_⟩
  · simp [List.countP_append, hn, isDisconnect]
  · simp [List.countP_append, h.quiet, isEofError]

/-- The end of a channel that is not connected any more is an error. -/
lemma not_quiet_eof {t : Target M} (hconn : t.connected = false) : ¬ Sound t.eof := by
  intro h
  have := h.quiet
  simp [Target.eof, Target.disconnect, Target.emit, hconn, List.countP_append,
    isEofError] at this

/-! ### Runs -/

/-- The end of the channel does not come to a `disconnect` that still waits for a message. -/
def StepOk (t : Target M) : Act M → Prop
  | .eof => t.crashed = false → t.looping = false → t.closed = false → t.connected = true
  | _ => True

lemma good_new (worker : Bool) : Good (.new M worker) := ⟨.connected rfl rfl rfl rfl, rfl⟩

lemma good_step (json : Json M) {t : Target M} (h : Good t) (a : Act M) (ha : StepOk t a) :
    Good (step json t a) := by
  unfold step
  by_cases hcrashed : t.crashed = true
  · rwa [if_pos hcrashed]
  · rw [if_neg hcrashed]
    cases a with
    | read chunk =>
      dsimp only
      split_ifs
      · exact h
      · unfold Target.read
        split <;> exact h.same ⟨rfl, rfl, rfl, rfl, rfl⟩
    | line =>
      dsimp only
      split_ifs
      · exact good_line json h
      · exact h
    | eof =>
      dsimp only
      split_ifs with hwait
      · exact h
      · rw [Bool.or_eq_true, not_or] at hwait
        exact good_eof h (ha (Bool.eq_false_of_not_eq_true hcrashed)
          (Bool.eq_false_of_not_eq_true hwait.1) (Bool.eq_false_of_not_eq_true hwait.2))
    | send m handle => exact h.same (same_send t _)
    | disconnect => exact good_disconnect h
    | listening i =>
      dsimp only
      split_ifs
      · exact h
      · unfold Target.listening
        split
        · have hrest : Good { t with servers := t.servers.eraseIdx i } :=
            h.same ⟨rfl, rfl, rfl, rfl, rfl⟩
          exact good_emitMessage hrest _
        · exact h

lemma stepOk_of_sound (json : Json M) {t : Target M} (a : Act M)
    (hs : Sound (step json t a)) : StepOk t a := by
  cases a with
  | eof =>
    intro h1 h2 h3
    by_contra hconn
    have hstep : step json t .eof = t.eof := by simp [step, h1, h2, h3]
    rw [hstep] at hs
    exact not_quiet_eof (Bool.eq_false_of_not_eq_true hconn) hs
  | _ => trivial

/-- **The channel ends once exactly if its end finds it connected**: in every run of an end of
a channel, whatever it reads, sends and is asked, `'disconnect'` is emitted at most once, and
once when the channel is closed, and the end of the channel is no error, if and only if it
does not come while a `disconnect` waits. -/
theorem disconnects_once_iff (json : Json M) (worker : Bool) (acts : List (Act M)) :
    (∀ n, Sound (run (step json) (.new M worker) (acts.take n))) ↔
      Along (step json) StepOk (.new M worker) acts :=
  always_iff (I := Good) (fun _ => Good.sound) (fun _ a h ha => good_step json h a ha)
    (fun _ a _ hs => stepOk_of_sound json a hs) (good_new worker) acts

/-- Half a message, `disconnect`, and the end of the channel. -/
theorem disconnect_lost : ¬ ∀ (json : Json Bool) (acts : List (Act Bool)),
    Sound (run (step json) (.new Bool false) acts) := by
  intro h
  have hsound := h letters [.read [0x70], .line, .disconnect, .eof]
  exact absurd hsound.quiet (by decide)

end NodeCore.IpcDisconnect
