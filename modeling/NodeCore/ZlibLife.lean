import NodeCore.ZlibStream

/-!
Which calls a `Zlib` stream survives.
-/

namespace NodeCore.Zlib

open NodeCore.Reentrant

variable {α : Type*}

/-! ### The condition -/

/-- The stream will not write to the context again, unless the user goes on. -/
structure Quiet (s : State α) : Prop where
  queue : s.queue = []
  deferred : s.ending = false → s.deferred = 0
  flushing : s.ending = true → s.flushing = true
  work : s.work = none
  serving : ∀ p, s.serving = some p → p.2 ≠ 0

/-- A write has failed, and its callback will never be called. -/
def Stuck (s : State α) : Prop :=
  s.hadError = true ∧ s.loop ≠ none ∧ (s.serving = none)

/-- What the user may call. -/
def Careful (s : State α) : Act α → Prop
  | .write _ | .flush _ | .finish =>
    s.ending = true ∨ Stuck s ∨ (s.closed = false ∧ s.hadError = false)
  | .close => s.closed = true ∨ (s.hadError = false ∧ Quiet s)
  | .reset ok => s.hadError = false ∧ (ok = true ∨ s.closed = true ∨ s.work ≠ none ∨
      (Quiet s ∧ s.flushing = false))
  | _ => True

/-! ### The invariant -/

/-- The stream and its context agree. -/
structure Living (s : State α) : Prop where
  fault : s.fault = none
  init : s.initDone = true
  binding : s.binding = !s.hadError
  finalized : s.finalized = s.closed
  progress : s.hadError = false → (s.writeInProgress = true ↔ s.work ≠ none)
  busy : ∀ l, s.loop = some l → s.work = none → s.serving = none → s.hadError = true
  closed : s.closed = true → s.hadError = false ∧ Quiet s
  failed : s.hadError = true → Stuck s ∨ (Quiet s ∧ s.flushing = false)

variable {s t : State α} {l : Loop α}

/-- A context that a write can be given to. -/
structure Open (s : State α) : Prop where
  fault : s.fault = none
  init : s.initDone = true
  binding : s.binding = true
  finalized : s.finalized = false
  progress : s.writeInProgress = false
  error : s.hadError = false
  closed : s.closed = false

/-- It takes the write. -/
lemma Open.bindingWrite {flag : Flush} {chunk : List α} {inOff inLen outOff outLen : ℕ}
    (h : Open s) (hin : inOff + inLen ≤ chunk.length)
    (hout : outOff + outLen ≤ s.opts.chunkSize) :
    Living (s.bindingWrite flag chunk inOff inLen outOff outLen) := by
  rw [bindingWrite_eq h.binding h.init h.finalized h.progress hin hout]
  refine ⟨h.fault, h.init, ?_, h.finalized.trans h.closed.symm,
    fun _ => ⟨fun _ => nofun, fun _ => rfl⟩, fun l _ => nofun, fun hc => ?_, fun he => ?_⟩
  · show s.binding = !s.hadError
    rw [h.binding, h.error]
    rfl
  · cases h.closed.symm.trans hc
  · cases h.error.symm.trans he

namespace Living

/-- A stream without an error, and with nothing to do, that has not been closed. -/
lemma opened (h : Living s) (hclosed : s.closed = false) (herror : s.hadError = false)
    (hwork : s.work = none) : Open s where
  fault := h.fault
  init := h.init
  binding := by rw [h.binding, herror]; rfl
  finalized := h.finalized.trans hclosed
  progress := Bool.eq_false_iff.mpr fun hp => (h.progress herror).mp hp hwork
  error := herror
  closed := hclosed

/-- A stream that is not quiet, and not stuck, is neither closed nor broken. -/
lemma alive (h : Living s) (hstuck : ¬ Stuck s) (hquiet : ¬ Quiet s) :
    s.hadError = false ∧ s.closed = false :=
  ⟨Bool.eq_false_iff.mpr fun he => (h.failed he).elim hstuck fun hq => hquiet hq.1,
    Bool.eq_false_iff.mpr fun hc => hquiet (h.closed hc).2⟩

/-- The user puts something into the queue. -/
lemma user {u : State α} (h : Living s)
    (hcareful : Stuck s ∨ (s.closed = false ∧ s.hadError = false))
    (hu : ∃ flushFlag queue written deferred ending, u = { s with
      flushFlag := flushFlag, queue := queue, written := written, deferred := deferred
      ending := ending }) : Living u := by
  obtain ⟨flushFlag, queue, written, deferred, ending, rfl⟩ := hu
  refine ⟨h.fault, h.init, h.binding, h.finalized, h.progress, h.busy, fun hc => ?_, fun he => ?_⟩
  · obtain hstuck | ⟨hclosed, -⟩ := hcareful
    · cases (h.closed hc).1.symm.trans hstuck.1
    · cases hclosed.symm.trans hc
  · obtain hstuck | ⟨-, herror⟩ := hcareful
    · exact .inl hstuck
    · cases herror.symm.trans he

lemma write (h : Living s) {chunk : List α} (hcareful : Careful s (.write chunk)) :
    Living (s.write chunk) := by
  unfold State.write
  split_ifs with hending
  · exact h
  · exact h.user (hcareful.resolve_left hending) ⟨_, _, _, _, _, rfl⟩

lemma flush (h : Living s) {needDrain : Bool} (hcareful : Careful s (.flush needDrain)) :
    Living (s.flush needDrain) := by
  unfold State.flush State.write
  split_ifs with hending
  · exact h
  · exact h.user (hcareful.resolve_left hending) ⟨_, _, _, _, _, rfl⟩
  · exact h.user (hcareful.resolve_left hending) ⟨_, _, _, _, _, rfl⟩

lemma finish (h : Living s) (hcareful : Careful s .finish) : Living { s with ending := true } := by
  by_cases hending : s.ending = true
  · rw [← hending]
    exact h
  · exact h.user (hcareful.resolve_left hending) ⟨_, _, _, _, _, rfl⟩

lemma close (h : Living s) (hcareful : Careful s .close) : Living s.close := by
  unfold State.close
  split_ifs with hclosed
  · exact h
  obtain ⟨herror, hquiet⟩ := hcareful.resolve_left hclosed
  have hopen := h.opened (Bool.eq_false_iff.mpr hclosed) herror hquiet.work
  unfold State.bindingClose
  rw [if_neg (by simp [hopen.binding]), if_neg (by simp [hopen.progress]),
    if_neg (by simp [hopen.init])]
  refine ⟨h.fault, h.init, h.binding, rfl, h.progress, h.busy, fun _ => ⟨herror, ?_⟩, fun he => ?_⟩
  · exact ⟨hquiet.queue, hquiet.deferred, hquiet.flushing, hquiet.work, hquiet.serving⟩
  · cases herror.symm.trans he

lemma reset (h : Living s) (hf : Flowing s) {ok : Bool} (hcareful : Careful s (.reset ok)) :
    Living (s.bindingReset ok) := by
  obtain ⟨herror, hcareful⟩ := hcareful
  unfold State.bindingReset
  rw [if_neg (by simp [h.binding, herror])]
  split_ifs with hok
  · exact h
  rw [not_or, h.finalized] at hok
  refine ⟨h.fault, h.init, rfl, h.finalized, nofun, fun _ _ _ _ => rfl, fun hc => ?_, fun _ => ?_⟩
  · exact absurd hc hok.2
  · obtain hwork | ⟨hquiet, hflushing⟩ := (hcareful.resolve_left hok.1).resolve_left hok.2
    · obtain ⟨w, hw⟩ := Option.ne_none_iff_exists'.mp hwork
      obtain ⟨hserving, l, hloop, -⟩ := hf.work w hw
      exact .inl ⟨rfl, by rw [State.error, hloop]; nofun, hserving⟩
    · exact .inr ⟨⟨hquiet.queue, hquiet.deferred, hquiet.flushing, hquiet.work, hquiet.serving⟩,
        hflushing⟩

lemma drain (h : Living s) (hdeferred : 0 < s.deferred) :
    Living ({ s with deferred := s.deferred - 1 }.flush false) := by
  unfold State.flush State.write
  split_ifs with hending
  · refine ⟨h.fault, h.init, h.binding, h.finalized, h.progress, h.busy, fun hc => ?_, fun he => ?_⟩
    · obtain ⟨herror, hq⟩ := h.closed hc
      exact ⟨herror, hq.queue, fun ho => (by cases hending.symm.trans ho), hq.flushing, hq.work,
        hq.serving⟩
    · refine (h.failed he).imp_right fun ⟨hq, hflushing⟩ => ⟨?_, hflushing⟩
      exact ⟨hq.queue, fun ho => (by cases hending.symm.trans ho), hq.flushing, hq.work,
        hq.serving⟩
  all_goals
    have hquiet : ¬ Quiet s := fun hq =>
      Nat.ne_of_gt hdeferred (hq.deferred (Bool.eq_false_iff.mpr hending))
    refine h.user ?_ ⟨_, _, _, _, _, rfl⟩
    by_cases hstuck : Stuck s
    · exact .inl hstuck
    · exact .inr (h.alive hstuck hquiet).symm

/-- A chunk goes to `_transform`. -/
lemma transform (h : Living s) (hf : Flowing s) (hloop : s.loop = none)
    (hquiet : ¬ Quiet s) {queue : List (List α)} {chunk : List α} {flushing : Bool} :
    Living ({ s with flushing := flushing, queue := queue }.transform chunk) := by
  obtain ⟨herror, hclosed⟩ := h.alive (fun hstuck => hstuck.2.1 hloop) hquiet
  have hopen := h.opened hclosed herror (hf.no_work hloop).1
  have hoffset := hf.offset
  unfold State.transform
  refine Open.bindingWrite ?_ (Nat.zero_add _).le ?_
  · exact ⟨hopen.fault, hopen.init, hopen.binding, hopen.finalized, hopen.progress, hopen.error,
      hopen.closed⟩
  · show s.offset + (s.opts.chunkSize - s.offset) ≤ s.opts.chunkSize
    omega

/-- The callback goes on. -/
lemma resume (h : Living s) (hf : Flowing s) (hloop : s.loop = some l) {availIn availOut : ℕ}
    (hserving : s.serving = some (availIn, availOut)) : Living (s.resume l availIn availOut) := by
  obtain ⟨hwork, l', hl', hle, -⟩ := hf.serving _ hserving
  obtain rfl := Option.some.inj (hloop.symm.trans hl')
  have hsum := hf.loop l hloop
  have hstuck : ¬ Stuck s := fun hstuck => by cases hserving.symm.trans hstuck.2.2
  unfold State.resume
  dsimp only at hle ⊢
  by_cases hfilled : availOut = 0
  · have hquiet : ¬ Quiet s := fun hq => hq.serving _ hserving hfilled
    obtain ⟨herror, hclosed⟩ := h.alive hstuck hquiet
    have hopen := h.opened hclosed herror hwork
    rw [if_pos hfilled, if_pos (.inl hfilled)]
    refine Open.bindingWrite ?_ ?_ (Nat.zero_add _).le
    · exact ⟨hopen.fault, hopen.init, hopen.binding, hopen.finalized, hopen.progress, hopen.error,
        hopen.closed⟩
    · show l.inOff + (l.availInBefore - availIn) + availIn ≤ l.chunk.length
      omega
  · rw [if_neg hfilled]
    have hback : ∀ q : Quiet s, Quiet { s with serving := none, loop := none } := fun q =>
      ⟨q.queue, q.deferred, q.flushing, q.work, nofun⟩
    have hclosed : s.closed = true → s.hadError = false ∧ _ := fun hc =>
      (h.closed hc).imp_right hback
    have hfailed : s.hadError = true → _ ∧ s.flushing = false := fun he =>
      ((h.failed he).resolve_left hstuck).imp_left hback
    split_ifs
    all_goals
      refine ⟨h.fault, h.init, h.binding, h.finalized, h.progress, nofun, fun hc => ?_,
        fun he => ?_⟩
      · obtain ⟨herror, q⟩ := hclosed hc
        exact ⟨herror, q.queue, q.deferred, q.flushing, q.work, q.serving⟩
      · obtain ⟨q, hflushing⟩ := hfailed he
        exact .inr ⟨⟨q.queue, q.deferred, q.flushing, q.work, q.serving⟩, hflushing⟩

/-- The engine fails. -/
lemma fails (h : Living s) (hf : Flowing s) {w : Work α} (hloop : s.loop = some l)
    (hw : s.work = some w) : Living { s with work := none }.error := by
  have hquiet : ¬ Quiet s := fun hq => by cases hw.symm.trans hq.work
  refine ⟨h.fault, h.init, rfl, h.finalized, nofun, fun _ _ _ _ => rfl, fun hc => ?_, fun _ => ?_⟩
  · exact absurd (h.closed hc).2 hquiet
  · exact .inl ⟨rfl, by rw [State.error, hloop]; nofun, (hf.work w hw).1⟩

/-- The engine comes back. -/
lemma after (h : Living s) (hf : Flowing s) {w : Work α} {k : ℕ} {b : List α}
    (hloop : s.loop = some l) (hw : s.work = some w) (hk : w.Obeys k b) :
    Living (s.after l w (some (k, b))) := by
  have hquiet : ¬ Quiet s := fun hq => by cases hw.symm.trans hq.work
  have hclosed : ¬ s.closed = true := fun hc => hquiet (h.closed hc).2
  have hheard : s.hadError = false → Living (s.heard w k b) := fun he =>
    ⟨h.fault, h.init, h.binding, h.finalized, fun _ => ⟨nofun, fun hn => absurd rfl hn⟩,
      fun _ _ _ => nofun, fun hc => absurd hc hclosed, fun he' => (by cases he.symm.trans he')⟩
  rw [after_eq hf hloop hw hk]
  split_ifs with herror
  · have hstuck := (h.failed herror).resolve_right fun hq => hquiet hq.1
    refine ⟨h.fault, h.init, h.binding, h.finalized, fun he => ?_, fun _ _ _ _ => herror,
      fun hc => absurd hc hclosed, fun _ => .inl hstuck⟩
    cases herror.symm.trans he
  · exact hheard (Bool.eq_false_iff.mpr herror)
  · exact (hheard (Bool.eq_false_iff.mpr herror)).resume (hf.heard hw hk) hloop rfl

/-- The end of the stream closes it. -/
lemma emitEnd (h : Living s) (hf : Flowing s) (he : Ended s) (hflushed : s.flushed = true) :
    Living { s with endEmitted := true }.close := by
  have hlive : Living { s with endEmitted := true } := by
    refine ⟨h.fault, h.init, h.binding, h.finalized, h.progress, h.busy, fun hc => ?_, fun hb => ?_⟩
    · obtain ⟨herror, q⟩ := h.closed hc
      exact ⟨herror, q.queue, q.deferred, q.flushing, q.work, q.serving⟩
    · refine (h.failed hb).imp_right fun ⟨q, hflushing⟩ => ⟨?_, hflushing⟩
      exact ⟨q.queue, q.deferred, q.flushing, q.work, q.serving⟩
  obtain ⟨hflushing, hloop⟩ := he.flushed hflushed
  obtain ⟨hending, hqueue⟩ := he.flushing hflushing
  obtain ⟨hwork, hserving⟩ := hf.no_work hloop
  refine hlive.close (.inr ⟨Bool.eq_false_iff.mpr fun hb => ?_, hqueue, fun ho => ?_,
    fun _ => hflushing, hwork, fun p hp => ?_⟩)
  · obtain hstuck | ⟨-, hopen⟩ := h.failed hb
    · exact hstuck.2.1 hloop
    · cases hflushing.symm.trans hopen
  · cases hending.symm.trans ho
  · cases hserving.symm.trans hp

/-- One step. -/
lemma step {a : Act α} (h : Living s) (hf : Flowing s) (he : Ended s) (hcareful : Careful s a)
    (hs : step s a = some t) : Living t := by
  cases Goes.of_step hs with
  | write chunk => exact h.write hcareful
  | flush needDrain => exact h.flush hcareful
  | finish => exact h.finish hcareful
  | close => exact h.close hcareful
  | reset ok => exact h.reset hf hcareful
  | drain hdeferred _ => exact h.drain hdeferred
  | transform hloop hqueue hflushing =>
    have hquiet : ¬ Quiet s := fun q => by cases hqueue.symm.trans q.queue
    exact h.transform hf hloop hquiet
  | prefinish hloop hending hflushing hqueue =>
    have hquiet : ¬ Quiet s := fun q => by cases hflushing.symm.trans (q.flushing hending)
    exact h.transform hf hloop hquiet
  | fails hloop hw => exact h.fails hf hloop hw
  | after hloop hw hk => exact h.after hf hloop hw hk
  | resume hloop hserving => exact h.resume hf hloop hserving
  | emitEnd hflushed _ => exact h.emitEnd hf he hflushed

end Living

/-- The run can go on to a fault. -/
def Doomed (s : State α) : Prop := ∃ t, Runs s t ∧ t.fault ≠ none

lemma Doomed.of_step {a : Act α} (h : Goes s a t) (hfault : s.fault = none) (ht : Doomed t) :
    Doomed s := by
  obtain ⟨u, hu, hf⟩ := ht
  exact ⟨u, (Run.step .refl (h.step_eq hfault) trivial).trans hu, hf⟩

lemma Doomed.of_fault (h : s.fault ≠ none) : Doomed s := ⟨s, .refl, h⟩

/-- A stream that cannot be written to, and on which nothing waits for the engine. -/
structure Dead (s : State α) : Prop where
  flowing : Flowing s
  ended : Ended s
  fault : s.fault = none
  dead : s.binding = false ∨ s.finalized = true
  served : s.loop ≠ none → s.serving ≠ none

/-- The callback of `_transform` has called back. -/
def State.done (s : State α) (offset buffer buffers : ℕ) : State α :=
  { s with
    serving := none
    loop := none
    flushed := s.flushing
    offset := offset
    buffer := buffer
    buffers := buffers }

namespace Dead

/-- A chunk waits. -/
lemma queued (h : Dead s) (hloop : s.loop = none) (hqueue : s.queue ≠ []) : Doomed s := by
  obtain ⟨chunk, rest, hq⟩ := List.exists_cons_of_ne_nil hqueue
  have hflushing : s.flushing = false :=
    Bool.eq_false_iff.mpr fun hf => hqueue (h.ended.flushing hf).2
  exact .of_step (.transform hloop hq hflushing) h.fault (.of_fault (bindingWrite_dead h.dead))

/-- Something is to be written when `_transform` has called back. -/
lemma waiting (h : Dead s) (hloop : s.loop = none)
    (hwaits : s.queue ≠ [] ∨ (s.ending = false ∧ s.deferred ≠ 0) ∨
      (s.ending = true ∧ s.flushing = false)) : Doomed s := by
  by_cases hqueue : s.queue = []
  · obtain hq | ⟨hending, hdeferred⟩ | ⟨hending, hflushing⟩ := hwaits
    · exact absurd hqueue hq
    · have hgoes : Goes s .drain _ :=
        .drain (Nat.pos_of_ne_zero hdeferred) (h.flowing.no_work hloop).2
      have hs := hgoes.step_eq h.fault
      have heq : { s with deferred := s.deferred - 1 }.flush false =
          { s with
            deferred := s.deferred - 1
            flushFlag := .Z_FULL_FLUSH
            queue := s.queue ++ [[]]
            written := s.written ++ [] } := by
        unfold State.flush State.write
        simp [hending]
      refine .of_step hgoes h.fault (queued ⟨h.flowing.step hs, h.ended.step hs, ?_, ?_, ?_⟩ ?_ ?_)
      all_goals rw [heq]
      · exact h.fault
      · exact h.dead
      · exact h.served
      · exact hloop
      · exact List.append_ne_nil_of_right_ne_nil _ (List.cons_ne_nil _ _)
    · exact .of_step (.prefinish hloop hending hflushing (by rw [hqueue]; rfl)) h.fault
        (.of_fault (bindingWrite_dead h.dead))
  · exact h.queued hloop hqueue

/-- The callback is in `push`: it goes on, and writes or is done. -/
lemma serving (h : Dead s) {availIn availOut : ℕ} (hloop : s.loop = some l)
    (hserving : s.serving = some (availIn, availOut))
    (hnext : availOut ≠ 0 → ∀ o b n, Dead (s.done o b n) → Doomed (s.done o b n)) : Doomed s := by
  have hgoes : Goes s .resume _ := .resume hloop hserving
  have hs := hgoes.step_eq h.fault
  refine .of_step hgoes h.fault ?_
  by_cases hfilled : availOut = 0
  · refine .of_fault ?_
    unfold State.resume
    dsimp only
    rw [if_pos hfilled, if_pos (.inl hfilled)]
    exact bindingWrite_dead h.dead
  · obtain ⟨o, b, n, heq⟩ : ∃ o b n, s.resume l availIn availOut = s.done o b n := by
      unfold State.resume State.done
      dsimp only
      rw [if_neg hfilled]
      split_ifs <;> exact ⟨_, _, _, rfl⟩
    rw [heq] at hs ⊢
    exact hnext hfilled o b n ⟨h.flowing.step hs, h.ended.step hs, h.fault, h.dead,
      fun hn => absurd rfl hn⟩

/-- The stream ends, and closes what is not there. -/
lemma ends (h : Dead s) (hflushing : s.flushing = true) (hbinding : s.binding = false)
    (hclosed : s.closed = false) : Doomed s := by
  have hlast : ∀ t : State α, Dead t → t.loop = none → t.flushing = true → t.binding = false →
      t.closed = false → Doomed t := by
    intro t ht hloop hflushing hbinding hclosed
    have hend : t.endEmitted = false := by
      refine Bool.eq_false_iff.mpr fun he => ?_
      cases hclosed.symm.trans (ht.ended.emitted he)
    refine .of_step (.emitEnd (ht.ended.last hflushing hloop) hend) ht.fault (.of_fault ?_)
    unfold State.close State.bindingClose
    simp [hclosed, hbinding, State.fail]
  cases hloop : s.loop with
  | none => exact hlast s h hloop hflushing hbinding hclosed
  | some l =>
    obtain ⟨p, hp⟩ := Option.ne_none_iff_exists'.mp (h.served (by simp [hloop]))
    exact h.serving hloop hp fun _ o b n hdone => hlast _ hdone rfl hflushing hbinding hclosed

end Dead

namespace Living

/-- A stream without an error, and with nothing to do, is not in a call of `_transform` unless its
callback is in `push`. -/
lemma served (h : Living s) (herror : s.hadError = false) (hwork : s.work = none) :
    s.loop ≠ none → s.serving ≠ none := fun hloop hserving => by
  obtain ⟨l, hl⟩ := Option.ne_none_iff_exists'.mp hloop
  cases herror.symm.trans (h.busy l hl hwork hserving)

end Living

/-! ### The claim, settled -/

end NodeCore.Zlib
