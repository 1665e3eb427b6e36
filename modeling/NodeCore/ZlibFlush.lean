import NodeCore.ZlibStream

/-!
Which flush flag each call of the engine carries.

`flush` sets the one flag that there is, while chunks may wait that were written before its marker.
The flag is given to every chunk from then on, up to the last one that is not empty.
-/

namespace NodeCore.Zlib

open NodeCore.Reentrant

variable {α : Type*}

/-! ### What has happened -/

/-- What the writable side has accepted. -/
structure Accepted (α : Type*) where
  chunk : List α
  /-- `flush` has written it. -/
  marker : Bool

/-- A call of the engine. -/
structure Ticket where
  /-- The number of the chunk, none in `_flush`. -/
  chunk : Option ℕ
  flush : Flush
  deriving DecidableEq

/-- A stream, what it has accepted, how much of that `_transform` has been given, and the calls of
the engine, the one in the thread pool included. -/
structure Logged (α : Type*) where
  st : State α
  accepted : List (Accepted α)
  given : ℕ
  tickets : List Ticket

/-- What a step accepts. -/
def accepts (s : State α) : Act α → Option (Accepted α)
  | .write chunk => if s.ending then none else some ⟨chunk, false⟩
  | .flush needDrain => if s.ending || needDrain then none else some ⟨[], true⟩
  | .drain => if s.ending then none else some ⟨[], true⟩
  | _ => none

/-- The flag of the call of the engine that a step has made. -/
def issues (t : State α) : Act α → Option Flush
  | .transform | .prefinish | .after _ | .resume => t.work.map Work.flush
  | _ => none

/-- A list, and what comes to it. -/
def joined {β : Type*} (list : List β) : Option β → List β
  | none => list
  | some x => list ++ [x]

namespace Logged

/-- The number of the chunk that `_transform` has been given. -/
def current (s : Logged α) : Option ℕ := if s.st.flushing then none else some (s.given - 1)

/-- The call of the engine in `s`, if there is a new one. -/
def issue (s : Logged α) (flush : Option Flush) : Logged α :=
  { s with tickets := joined s.tickets (flush.map (Ticket.mk s.current)) }

/-- The stream is `t` after the step. -/
def next (s : Logged α) (a : Act α) (t : State α) : Logged α :=
  let given := match a with
    | .transform => s.given + 1
    | _ => s.given
  issue ⟨t, joined s.accepted (accepts s.st a), given, s.tickets⟩ (issues t a)

def step (s : Logged α) (a : Act α) : Option (Logged α) := (Zlib.step s.st a).map (s.next a)

def init (opts : Options) (memory : ℕ → ℕ → α) : Logged α := ⟨Zlib.init opts memory, [], 0, []⟩

end Logged

/-! ### The claim -/

/-- The stream does not go on unless the user calls it. -/
def Settled (s : State α) : Prop :=
  step s .transform = none ∧ step s .prefinish = none ∧ step s .resume = none ∧
    ∀ result, step s (.after result) = none

/-- The number of bytes that have been accepted before chunk `m`. -/
def before (accepted : List (Accepted α)) (m : ℕ) : ℕ :=
  ((accepted.take m).flatMap Accepted.chunk).length

/-- Call `i` flushes what has been written before chunk `m`: the last byte of that is consumed in it
or earlier. -/
def Flushes (s : Logged α) (m i : ℕ) : Prop :=
  (∃ c, s.tickets[i]? = some c ∧ (c.flush = .Z_FULL_FLUSH ∨ c.flush = .Z_FINISH)) ∧
    before s.accepted m ≤ (consumed (s.st.calls.take (i + 1))).length

/-- The last call of the engine carries `Z_FINISH`. -/
def Finished (s : Logged α) : Prop := ∃ c, s.tickets.getLast? = some c ∧ c.flush = .Z_FINISH

/-- **What is claimed**, with the option `flush` taken into account. -/
structure Flags (s : Logged α) : Prop where
  finish : ∀ w, s.st.work = some w → w.flush = .Z_FINISH →
    s.st.opts.flush = .Z_FINISH ∨ s.st.ending = true ∧ ∀ c ∈ s.st.queue, c = []
  flushed : s.st.flushed = true → Finished s
  settled : s.st.ending = true → s.st.hadError = false → s.st.fault = none → Settled s.st →
    Finished s
  flush : ∀ m a, s.accepted[m]? = some a → a.marker = true →
    ∀ j c, s.tickets[j]? = some c → c.chunk = some m → ∃ i ≤ j, Flushes s m i
  /-- A marker that is left over in the end has no call of its own. -/
  leftover : s.st.flushed = true → s.st.hadError = false → ∀ m, ∃ i, Flushes s m i

/-! ### The flags of a stream -/

variable {s t : State α} {l : Loop α}

/-- Either the call of the context fails, or the work carries its flag. -/
lemma bindingWrite_work (s : State α) (flush : Flush) (chunk : List α)
    (inOff inLen outOff outLen : ℕ) :
    (∃ f, s.bindingWrite flush chunk inOff inLen outOff outLen = s.fail f) ∨
    (s.binding = true ∧ ∃ input out, s.bindingWrite flush chunk inOff inLen outOff outLen =
      { s with writeInProgress := true, work := some ⟨flush, input, out⟩ }) := by
  unfold State.bindingWrite
  split_ifs with hbinding
  · exact .inl ⟨_, rfl⟩
  · exact .inl ⟨_, rfl⟩
  · exact .inl ⟨_, rfl⟩
  · exact .inl ⟨_, rfl⟩
  · exact .inl ⟨_, rfl⟩
  · exact .inr ⟨by simpa using hbinding, _, _, rfl⟩

/-- Nothing waits but empty chunks. -/
def State.drained (s : State α) : Bool := s.queue.all List.isEmpty

/-- The flag that `_transform` gives to a chunk before which the others wait. -/
def State.flagFor (s : State α) : Flush :=
  if s.ending && s.drained then .Z_FINISH else s.flushFlag

/-- The flag that is left for them. -/
def State.flagAfter (s : State α) : Flush :=
  if !s.ending && s.drained then s.opts.flush else s.flushFlag

lemma drained_iff : s.drained = true ↔ ∀ c ∈ s.queue, c = [] := by
  unfold State.drained
  rw [List.all_eq_true]
  exact forall₂_congr fun c _ => List.isEmpty_iff

lemma drained_iff_sum : s.drained = true ↔ (s.queue.map List.length).sum = 0 := by
  rw [drained_iff]
  induction s.queue with
  | nil => simp
  | cons c queue ih => simp [ih]

/-- Both comparisons of lengths ask whether something waits. -/
lemma transform_eq (s : State α) (chunk : List α) : s.transform chunk =
    { s with
      flushFlag := s.flagAfter
      loop := some ⟨s.flagFor, chunk, 0, chunk.length, s.opts.chunkSize - s.offset⟩ }.bindingWrite
      s.flagFor chunk 0 chunk.length s.offset (s.opts.chunkSize - s.offset) := by
  have hfor : (if (s.ending && decide (chunk.length + (s.queue.map List.length).sum =
      chunk.length)) = true then Flush.Z_FINISH else s.flushFlag) = s.flagFor := by
    unfold State.flagFor
    refine if_congr ?_ rfl rfl
    rw [Bool.and_eq_true, Bool.and_eq_true, decide_eq_true_iff, drained_iff_sum]
    exact and_congr_right fun _ => by omega
  have hafter : (if (!(s.ending && decide (chunk.length + (s.queue.map List.length).sum =
      chunk.length)) && decide (chunk.length + (s.queue.map List.length).sum ≤
      chunk.length)) = true then s.opts.flush else s.flushFlag) = s.flagAfter := by
    unfold State.flagAfter
    refine if_congr ?_ rfl rfl
    simp only [Bool.and_eq_true, Bool.not_eq_true', decide_eq_true_iff, Bool.and_eq_false_iff,
      decide_eq_false_iff_not, drained_iff_sum]
    constructor
    · rintro ⟨hopen | hmore, hle⟩
      · exact ⟨hopen, by omega⟩
      · omega
    · rintro ⟨hopen, hsum⟩
      exact ⟨.inl hopen, by omega⟩
  unfold State.transform
  dsimp only
  rw [hfor, hafter]

structure Flagged (s : State α) : Prop where
  error : s.hadError = true → s.binding = false
  flag : s.flushFlag = s.opts.flush ∨ s.flushFlag = .Z_FULL_FLUSH
  work : ∀ w, s.work = some w → ∃ l, s.loop = some l ∧ w.flush = l.flushFlag
  finish : ∀ l, s.loop = some l → l.flushFlag = .Z_FINISH →
    s.opts.flush = .Z_FINISH ∨ s.ending = true ∧ ∀ c ∈ s.queue, c = []
  flushing : s.flushing = true → ∀ l, s.loop = some l → l.flushFlag = .Z_FINISH
  /-- The callback of `_transform` will be called. -/
  busy : ∀ l, s.loop = some l → s.fault = none → s.hadError = false →
    s.work ≠ none ∨ s.serving ≠ none

namespace Flagged

/-- The call of the engine for what is being transformed. -/
lemma bindingWrite {chunk : List α} {inOff inLen outOff outLen : ℕ}
    (hloop : s.loop = some l) (herror : s.hadError = true → s.binding = false)
    (hflag : s.flushFlag = s.opts.flush ∨ s.flushFlag = .Z_FULL_FLUSH) (hwork : s.work = none)
    (hfinish : l.flushFlag = .Z_FINISH →
      s.opts.flush = .Z_FINISH ∨ s.ending = true ∧ ∀ c ∈ s.queue, c = [])
    (hflushing : s.flushing = true → l.flushFlag = .Z_FINISH) :
    Flagged (s.bindingWrite l.flushFlag chunk inOff inLen outOff outLen) := by
  have honly : ∀ l', s.loop = some l' → l' = l := fun l' hl' =>
    Option.some.inj (hl'.symm.trans hloop)
  obtain ⟨f, heq⟩ | ⟨-, input, out, heq⟩ :=
    bindingWrite_work s l.flushFlag chunk inOff inLen outOff outLen
  · rw [heq]
    refine ⟨herror, hflag, fun w hw => ?_, fun l' hl' => ?_, fun hf l' hl' => ?_, fun _ _ hf => ?_⟩
    · cases hwork.symm.trans hw
    · rw [honly l' hl']
      exact hfinish
    · rw [honly l' hl']
      exact hflushing hf
    · cases hf
  · rw [heq]
    refine ⟨herror, hflag, fun w hw => ?_, fun l' hl' => ?_, fun hf l' hl' => ?_, fun _ _ _ _ => ?_⟩
    · obtain rfl := Option.some.inj hw
      exact ⟨l, hloop, rfl⟩
    · rw [honly l' hl']
      exact hfinish
    · rw [honly l' hl']
      exact hflushing hf
    · exact .inl fun h => by cases h

lemma write (h : Flagged s) (chunk : List α) : Flagged (s.write chunk) := by
  unfold State.write
  split_ifs with hending
  · exact h
  refine ⟨h.error, h.flag, h.work, fun l hl hf => ?_, h.flushing, h.busy⟩
  exact .inl ((h.finish l hl hf).resolve_right fun hend => hending hend.1)

lemma flush (h : Flagged s) (needDrain : Bool) : Flagged (s.flush needDrain) := by
  have hset : Flagged { s with flushFlag := .Z_FULL_FLUSH } :=
    ⟨h.error, .inr rfl, h.work, h.finish, h.flushing, h.busy⟩
  unfold State.flush
  split_ifs
  · exact h
  · exact ⟨h.error, h.flag, h.work, h.finish, h.flushing, h.busy⟩
  · exact hset.write []

lemma close (h : Flagged s) : Flagged s.close := by
  unfold State.close State.bindingClose
  split_ifs
  · exact h
  all_goals
    exact ⟨h.error, h.flag, h.work, h.finish, h.flushing, fun l hl hf => by first
      | exact h.busy l hl hf
      | cases hf⟩

lemma bindingReset (h : Flagged s) (ok : Bool) : Flagged (s.bindingReset ok) := by
  unfold State.bindingReset
  split_ifs
  · exact ⟨h.error, h.flag, h.work, h.finish, h.flushing, fun _ _ hf => by cases hf⟩
  · exact h
  · exact ⟨fun _ => rfl, h.flag, h.work, h.finish, h.flushing, fun _ _ _ he => by cases he⟩

/-- A chunk goes to `_transform`. -/
lemma transform (h : Flagged s) (hwork : s.work = none) (chunk : List α)
    (hflushing : s.flushing = true → s.ending = true ∧ s.queue = []) :
    Flagged (s.transform chunk) := by
  have hafter : s.flagAfter = s.opts.flush ∨ s.flagAfter = .Z_FULL_FLUSH := by
    unfold State.flagAfter
    split_ifs
    · exact .inl rfl
    · exact h.flag
  have hfor : s.flagFor = .Z_FINISH →
      s.opts.flush = .Z_FINISH ∨ s.ending = true ∧ ∀ c ∈ s.queue, c = [] := by
    unfold State.flagFor
    split_ifs with hlast
    · intro _
      rw [Bool.and_eq_true, drained_iff] at hlast
      exact .inr hlast
    · intro hf
      rcases h.flag with hopts | hfull
      · exact .inl (hopts.symm.trans hf)
      · cases hfull.symm.trans hf
  rw [transform_eq]
  refine bindingWrite (l := ⟨s.flagFor, chunk, 0, chunk.length, s.opts.chunkSize - s.offset⟩) rfl
    h.error hafter hwork hfor fun hf => ?_
  obtain ⟨hending, hqueue⟩ := hflushing hf
  show s.flagFor = .Z_FINISH
  unfold State.flagFor
  rw [if_pos (Bool.and_eq_true_iff.mpr ⟨hending, drained_iff.mpr fun c hc => ?_⟩)]
  rw [hqueue] at hc
  cases hc

/-- It is taken from the queue. -/
lemma give {queue : List (List α)} {chunk : List α} {flushing : Bool} (h : Flagged s)
    (hloop : s.loop = none) (hwork : s.work = none)
    (hflushing : flushing = true → s.ending = true ∧ queue = []) :
    Flagged ({ s with flushing := flushing, queue := queue }.transform chunk) := by
  have htaken : Flagged { s with flushing := flushing, queue := queue } :=
    ⟨h.error, h.flag, h.work, fun l hl => (by cases hloop.symm.trans hl),
      fun _ l hl => (by cases hloop.symm.trans hl), h.busy⟩
  exact htaken.transform hwork chunk hflushing

/-- The callback of `_transform` goes on. -/
lemma resume {availIn availOut : ℕ} (h : Flagged s) (hloop : s.loop = some l)
    (hwork : s.work = none) : Flagged (s.resume l availIn availOut) := by
  have hback : ∀ offset buffer buffers flushed, Flagged { s with
      serving := none, offset := offset, buffer := buffer, buffers := buffers, loop := none
      flushed := flushed } := fun offset buffer buffers flushed =>
    ⟨h.error, h.flag, fun w hw => (by cases hwork.symm.trans hw), fun l hl => (by cases hl),
      fun _ l hl => (by cases hl), fun l hl => (by cases hl)⟩
  unfold State.resume
  dsimp only
  by_cases hfilled : availOut = 0
  · rw [if_pos hfilled, if_pos (.inl hfilled)]
    exact bindingWrite (l := { l with
        inOff := l.inOff + (l.availInBefore - availIn), availInBefore := availIn
        availOutBefore := s.opts.chunkSize }) rfl h.error h.flag hwork (h.finish l hloop)
      fun hf => h.flushing hf l hloop
  · rw [if_neg hfilled]
    split_ifs
    · exact hback _ _ _ _
    · exact hback _ _ _ _

/-- The output has been pushed. -/
lemma heard {w : Work α} (h : Flagged s) (k : ℕ) (b : List α) : Flagged (s.heard w k b) :=
  ⟨h.error, h.flag, fun w hw => (by cases hw), h.finish, h.flushing, fun _ _ _ _ =>
    .inr fun hn => by cases hn⟩

lemma step {a : Act α} (h : Flagged s) (hf : Flowing s) (hs : step s a = some t) :
    Flagged t := by
  cases Goes.of_step hs with
  | write chunk => exact h.write chunk
  | flush needDrain => exact h.flush needDrain
  | finish =>
    exact ⟨h.error, h.flag, h.work, fun l hl hfl => (h.finish l hl hfl).imp_right fun hend =>
      ⟨rfl, hend.2⟩, h.flushing, h.busy⟩
  | close => exact h.close
  | reset ok => exact h.bindingReset ok
  | drain _ _ =>
    have hset : Flagged { s with deferred := s.deferred - 1 } :=
      ⟨h.error, h.flag, h.work, h.finish, h.flushing, h.busy⟩
    exact hset.flush false
  | transform hloop hqueue hflushing =>
    exact h.give hloop (hf.no_work hloop).1 fun hf => by cases hflushing.symm.trans hf
  | prefinish hloop hending _ _ =>
    exact h.give hloop (hf.no_work hloop).1 fun _ => ⟨hending, rfl⟩
  | fails _ _ =>
    exact ⟨fun _ => rfl, h.flag, fun w hw => (by cases hw), h.finish, h.flushing,
      fun _ _ _ he => by cases he⟩
  | @after l w k b hloop hw hk =>
    rw [after_eq hf hloop hw hk]
    split_ifs with herror
    · refine ⟨h.error, h.flag, fun w hw => (by cases hw), h.finish, h.flushing, fun _ _ _ he => ?_⟩
      cases he.symm.trans herror
    · exact h.heard k b
    · exact (h.heard k b).resume hloop rfl
  | resume hloop hserving => exact h.resume hloop (hf.serving _ hserving).1
  | emitEnd _ _ =>
    have hset : Flagged { s with endEmitted := true } :=
      ⟨h.error, h.flag, h.work, h.finish, h.flushing, h.busy⟩
    exact hset.close

end Flagged

/-! ### The log -/

section

variable {u v : Logged α} {m i : ℕ}

lemma before_le (accepted : List (Accepted α)) (m : ℕ) :
    before accepted m ≤ (accepted.flatMap Accepted.chunk).length := by
  unfold before
  conv_rhs => rw [← List.take_append_drop m accepted, List.flatMap_append, List.length_append]
  exact Nat.le_add_right _ _

lemma before_joined {accepted : List (Accepted α)} (a : Option (Accepted α))
    (h : m ≤ accepted.length) : before (joined accepted a) m = before accepted m := by
  cases a with
  | none => rfl
  | some a =>
    unfold before joined
    rw [List.take_append_of_le_length h]

/-- Nothing comes after chunk `m` but empty chunks. -/
lemma before_drained {accepted : List (Accepted α)}
    (h : ∀ c ∈ (accepted.drop m).map Accepted.chunk, c = []) (n : ℕ) :
    before accepted n ≤ before accepted m := by
  have hrest : (accepted.drop m).flatMap Accepted.chunk = [] := by
    rw [List.flatMap_eq_nil_iff]
    exact fun a ha => h _ (List.mem_map_of_mem ha)
  refine (before_le accepted n).trans ?_
  unfold before
  conv_lhs => rw [← List.take_append_drop m accepted, List.flatMap_append, hrest, List.append_nil]

lemma consumed_le {calls calls' : List (Call α)} (h : calls <+: calls') (i : ℕ) :
    (consumed (calls.take i)).length ≤ (consumed (calls'.take i)).length := by
  obtain ⟨more, rfl⟩ := h
  rw [List.take_append, consumed_append, List.length_append]
  exact Nat.le_add_right _ _

lemma prefix_joined {β : Type*} (list : List β) (x : Option β) : list <+: joined list x := by
  cases x with
  | none => exact List.prefix_refl _
  | some x => exact List.prefix_append _ _

/-- What is found in the longer list was there before, or is new. -/
lemma getElem?_joined {β : Type*} {list : List β} {x c : β} {j : ℕ}
    (h : (joined list (some x))[j]? = some c) : list[j]? = some c ∨ j = list.length ∧ c = x := by
  have h : (list ++ [x])[j]? = some c := h
  by_cases hj : j < list.length
  · exact .inl ((List.getElem?_append_left hj).symm.trans h)
  · rw [List.getElem?_append_right (not_lt.mp hj), List.getElem?_singleton] at h
    obtain ⟨hzero, hc⟩ := Option.ite_none_right_eq_some.mp h
    exact .inr ⟨by omega, (Option.some.inj hc).symm⟩

lemma Flushes.mono (h : Flushes u m i) (htickets : u.tickets <+: v.tickets)
    (hcalls : u.st.calls <+: v.st.calls) (hbefore : before v.accepted m ≤ before u.accepted m) :
    Flushes v m i := by
  obtain ⟨⟨c, hc, hflag⟩, hconsumed⟩ := h
  obtain ⟨hi, -⟩ := List.getElem?_eq_some_iff.mp hc
  obtain ⟨more, hmore⟩ := htickets
  refine ⟨⟨c, ?_, hflag⟩, hbefore.trans (hconsumed.trans (consumed_le hcalls _))⟩
  rw [← hmore, List.getElem?_append_left hi]
  exact hc

/-- The engine will be told to flush before it gets chunk `m`, or it has been. -/
def Pending (s : Logged α) (m : ℕ) : Prop :=
  s.st.flushFlag = .Z_FULL_FLUSH ∨
  (∃ l, s.st.loop = some l ∧ (l.flushFlag = .Z_FULL_FLUSH ∨ l.flushFlag = .Z_FINISH) ∧
    before s.accepted m ≤ before s.accepted s.given) ∨
  ∃ i < s.st.calls.length, Flushes s m i

lemma Ended.unflushed (h : Ended s) (hopen : s.flushing = false ∨ s.loop ≠ none) :
    s.flushed = false := by
  refine Bool.eq_false_iff.mpr fun hf => ?_
  obtain ⟨hflushing, hloop⟩ := h.flushed hf
  rcases hopen with hopen | hopen
  · cases hopen.symm.trans hflushing
  · exact hopen hloop

lemma issue_idle (u : Logged α) {t : State α} (h : t.work = none) :
    ({ u with st := t } : Logged α).issue (t.work.map Work.flush) = { u with st := t } := by
  rw [h]
  rfl

/-- The last call of the engine is for the chunk that is being transformed. -/
def Labelled (s : Logged α) : Prop := ∀ l, s.st.loop = some l → s.st.fault = none →
  s.tickets.getLast? = some ⟨s.current, l.flushFlag⟩

structure Tracked (s : Logged α) : Prop where
  given : s.given ≤ s.accepted.length
  written : s.st.written = s.accepted.flatMap Accepted.chunk
  queue : s.st.flushing = false → s.st.queue = (s.accepted.drop s.given).map Accepted.chunk
  count : s.st.hadError = false →
    s.tickets.length = s.st.calls.length + s.st.work.toList.length
  numbered : ∀ c ∈ s.tickets, ∀ m, c.chunk = some m → m < s.given
  flushed : s.st.flushed = true → Finished s
  served : ∀ m a, s.accepted[m]? = some a → a.marker = true →
    ∀ j c, s.tickets[j]? = some c → c.chunk = some m → ∃ i ≤ j, Flushes s m i
  pending : s.st.hadError = false → ∀ m a, s.accepted[m]? = some a → a.marker = true →
    s.given ≤ m → Pending s m

namespace Tracked

lemma count_idle (h : Tracked u) (herror : u.st.hadError = false) (hwork : u.st.work = none) :
    u.tickets.length = u.st.calls.length := by
  have hcount := h.count herror
  rw [hwork] at hcount
  exact hcount

/-- What the engine and the queue do not depend on. -/
lemma keep (h : Tracked u) (binding hadError closed ending endEmitted initDone finalized
    writeInProgress : Bool) (deferred : ℕ) (fault : Option Fault)
    (herror : hadError = false → u.st.hadError = false) :
    Tracked { u with st := { u.st with
      binding := binding, hadError := hadError, closed := closed, ending := ending
      endEmitted := endEmitted, initDone := initDone, finalized := finalized
      writeInProgress := writeInProgress, deferred := deferred, fault := fault } } :=
  ⟨h.given, h.written, h.queue, fun he => h.count (herror he), h.numbered, h.flushed, h.served,
    fun he => h.pending (herror he)⟩

/-- The writable side accepts something before the end. -/
lemma accept (h : Tracked u) (a : Accepted α) (flag : Flush) (deferred : ℕ)
    (hflag : flag = u.st.flushFlag ∨ flag = .Z_FULL_FLUSH)
    (hmarker : a.marker = true → flag = .Z_FULL_FLUSH) :
    Tracked { u with
      st := { u.st with
        flushFlag := flag, deferred := deferred, queue := u.st.queue ++ [a.chunk]
        written := u.st.written ++ a.chunk }
      accepted := joined u.accepted (some a) } := by
  have hsame : ∀ {m}, m ≤ u.accepted.length → before (joined u.accepted (some a)) m =
      before u.accepted m := fun hm => before_joined _ hm
  refine ⟨?_, ?_, fun hf => ?_, h.count, h.numbered, h.flushed, fun m b hb hbm j c hj hc => ?_,
    fun he m b hb hbm hm => ?_⟩
  · exact h.given.trans (prefix_joined u.accepted (some a)).length_le
  · show _ ++ _ = (u.accepted ++ [a]).flatMap Accepted.chunk
    rw [h.written, List.flatMap_append, List.flatMap_singleton]
  · show _ ++ _ = ((u.accepted ++ [a]).drop u.given).map Accepted.chunk
    rw [List.drop_append_of_le_length h.given, List.map_append, h.queue hf]
    rfl
  · have hm : m < u.accepted.length :=
      (h.numbered c (List.mem_of_getElem? hj) m hc).trans_le h.given
    have hb := (getElem?_joined hb).resolve_right fun hnew => hm.ne hnew.1
    obtain ⟨i, hi, hflushes⟩ := h.served m b hb hbm j c hj hc
    exact ⟨i, hi, hflushes.mono (List.prefix_refl _) (List.prefix_refl _) (hsame hm.le).le⟩
  · rcases getElem?_joined hb with hb | ⟨-, rfl⟩
    · have hle : m ≤ u.accepted.length := (List.getElem?_eq_some_iff.mp hb).1.le
      obtain hfull | ⟨l, hl, hlflag, hbefore⟩ | ⟨i, hi, hflushes⟩ := h.pending he m b hb hbm hm
      · exact .inl (hflag.elim (fun hflag => hflag.trans hfull) id)
      · refine .inr (.inl ⟨l, hl, hlflag, ?_⟩)
        show before (joined u.accepted (some a)) m ≤ before (joined u.accepted (some a)) u.given
        rw [hsame hle, hsame h.given]
        exact hbefore
      · exact .inr (.inr ⟨i, hi, hflushes.mono (List.prefix_refl _) (List.prefix_refl _)
          (hsame hle).le⟩)
    · exact .inl (hmarker hbm)

/-- The engine has consumed what `_transform` has been given, when that has called back. -/
lemma caught_up (h : Tracked u) {t : State α} (hf : Flowing t) (he : Ended t)
    (herror : t.hadError = false) (hloop : t.loop = none) (hwritten : t.written = u.st.written)
    (hqueue : t.queue = u.st.queue) (hflushing : t.flushing = u.st.flushing) :
    before u.accepted u.given ≤ (consumed t.calls).length := by
  have hconsumed := (hf.exact herror).consumed
  have hrest : t.rest = [] := by
    unfold State.rest
    rw [hloop]
  rw [hrest, List.append_nil, hwritten, h.written] at hconsumed
  cases hopen : t.flushing with
  | true =>
    rw [(he.flushing hopen).2, List.flatten_nil, List.append_nil] at hconsumed
    rw [hconsumed]
    exact before_le _ _
  | false =>
    rw [hqueue, h.queue (hflushing.symm.trans hopen), ← List.flatMap_def] at hconsumed
    conv_rhs at hconsumed => rw [← List.take_append_drop u.given u.accepted, List.flatMap_append]
    rw [List.append_cancel_right hconsumed]
    rfl

/-- The engine is called for the chunk that is being transformed. -/
lemma call {chunk : List α} {inOff inLen outOff outLen : ℕ} (h : Tracked u)
    (herror : u.st.hadError = true → u.st.binding = false) (hwork : u.st.work = none)
    (hloop : u.st.loop = some l) (hflushed : u.st.flushed = false)
    (hcurrent : ∀ m, u.current = some m → m < u.given)
    (hmarker : u.st.hadError = false → ∀ m a, u.accepted[m]? = some a → a.marker = true →
      u.current = some m →
      (l.flushFlag = .Z_FULL_FLUSH ∨ l.flushFlag = .Z_FINISH) ∧
        before u.accepted m ≤ (consumed u.st.calls).length ∨
      ∃ i < u.tickets.length, Flushes u m i) {t : State α}
    (ht : u.st.bindingWrite l.flushFlag chunk inOff inLen outOff outLen = t) :
    Tracked ({ u with st := t }.issue (t.work.map Work.flush)) ∧
      Labelled ({ u with st := t }.issue (t.work.map Work.flush)) := by
  obtain ⟨f, heq⟩ | ⟨hbinding, input, out, heq⟩ :=
    bindingWrite_work u.st l.flushFlag chunk inOff inLen outOff outLen
  · obtain rfl := heq.symm.trans ht
    rw [issue_idle u (t := u.st.fail f) hwork]
    refine ⟨⟨h.given, h.written, h.queue, h.count, h.numbered, h.flushed, h.served, h.pending⟩,
      fun _ _ hf => ?_⟩
    cases hf
  · obtain rfl := heq.symm.trans ht
    have hgood : u.st.hadError = false := Bool.eq_false_iff.mpr fun he => by
      cases hbinding.symm.trans (herror he)
    have hcount := h.count_idle hgood hwork
    have hgrows : u.tickets <+: u.tickets ++ [⟨u.current, l.flushFlag⟩] := List.prefix_append _ _
    refine ⟨⟨h.given, h.written, h.queue, fun _ => ?_, fun c hc m hm => ?_, fun hf => ?_,
      fun m a ha ham j c hj hc => ?_, fun _ m a ha ham hm => ?_⟩, fun l' hl' _ => ?_⟩
    · show (u.tickets ++ [_]).length = _ + 1
      rw [List.length_append, hcount]
      rfl
    · rcases List.mem_append.mp hc with hc | hc
      · exact h.numbered c hc m hm
      · rw [List.mem_singleton.mp hc] at hm
        exact hcurrent m hm
    · cases hflushed.symm.trans hf
    · rcases getElem?_joined hj with hj | ⟨rfl, rfl⟩
      · obtain ⟨i, hi, hflushes⟩ := h.served m a ha ham j c hj hc
        exact ⟨i, hi, hflushes.mono hgrows (List.prefix_refl _) le_rfl⟩
      · rcases hmarker hgood m a ha ham hc with ⟨hflag, hle⟩ | ⟨i, hi, hflushes⟩
        · refine ⟨u.tickets.length, le_rfl, ⟨_, List.getElem?_concat_length, hflag⟩, ?_⟩
          rw [hcount]
          show _ ≤ (consumed (u.st.calls.take (u.st.calls.length + 1))).length
          rw [List.take_of_length_le (Nat.le_succ _)]
          exact hle
        · exact ⟨i, hi.le, hflushes.mono hgrows (List.prefix_refl _) le_rfl⟩
    · obtain hfull | hend | ⟨i, hi, hflushes⟩ := h.pending hgood m a ha ham hm
      · exact .inl hfull
      · exact .inr (.inl hend)
      · exact .inr (.inr ⟨i, hi, hflushes.mono hgrows (List.prefix_refl _) le_rfl⟩)
    · obtain rfl := Option.some.inj (hl'.symm.trans hloop)
      exact List.getLast?_concat

/-- The engine comes back, and the output has been pushed. -/
lemma heard {w : Work α} (h : Tracked u) (hw : u.st.work = some w) (k : ℕ) (b : List α) :
    Tracked { u with st := u.st.heard w k b } := by
  have hcalls : u.st.calls <+: (u.st.heard w k b).calls := List.prefix_append _ _
  refine ⟨h.given, h.written, h.queue, fun he => ?_, h.numbered, h.flushed,
    fun m a ha ham j c hj hc => ?_, fun he m a ha ham hm => ?_⟩
  · have hcount := h.count he
    rw [hw] at hcount
    show _ = (u.st.calls ++ [_]).length + 0
    rw [List.length_append]
    exact hcount
  · obtain ⟨i, hi, hflushes⟩ := h.served m a ha ham j c hj hc
    exact ⟨i, hi, hflushes.mono (List.prefix_refl _) hcalls le_rfl⟩
  · obtain hfull | hloop | ⟨i, hi, hflushes⟩ := h.pending he m a ha ham hm
    · exact .inl hfull
    · exact .inr (.inl hloop)
    · exact .inr (.inr ⟨i, hi.trans_le hcalls.length_le,
        hflushes.mono (List.prefix_refl _) hcalls le_rfl⟩)

/-- The output buffer was full: the engine is called again for the same chunk. -/
lemma again (h : Tracked u) (hlast : Labelled u) (hflags : Flagged u.st) (hended : Ended u.st)
    (hloop : u.st.loop = some l) (hfault : u.st.fault = none) (hwork : u.st.work = none)
    {offset buffer buffers : ℕ} (l' : Loop α) (hl' : l'.flushFlag = l.flushFlag)
    {chunk : List α} {inOff inLen outOff outLen : ℕ} {t : State α}
    (ht : { u.st with
      serving := none, offset := offset, buffer := buffer, buffers := buffers
      loop := some l' }.bindingWrite l'.flushFlag chunk inOff inLen outOff outLen = t) :
    Tracked ({ u with st := t }.issue (t.work.map Work.flush)) ∧
      Labelled ({ u with st := t }.issue (t.work.map Work.flush)) := by
  have hticket := hlast l hloop hfault
  have hflushed := hended.unflushed (.inr (by rw [hloop]; exact Option.some_ne_none l))
  have hbase : Tracked { u with st := { u.st with
      serving := none, offset := offset, buffer := buffer, buffers := buffers
      loop := some l' } } := by
    refine ⟨h.given, h.written, h.queue, h.count, h.numbered, h.flushed, h.served,
      fun he m a ha ham hm => ?_⟩
    obtain hfull | ⟨l₀, hl₀, hflag, hle⟩ | hdone := h.pending he m a ha ham hm
    · exact .inl hfull
    · obtain rfl := Option.some.inj (hl₀.symm.trans hloop)
      exact .inr (.inl ⟨l', rfl, hl' ▸ hflag, hle⟩)
    · exact .inr (.inr hdone)
  refine hbase.call hflags.error hwork rfl hflushed (fun m hm => ?_) (fun he m a ha ham hm => ?_) ht
  · exact h.numbered _ (List.mem_of_getLast? hticket) m hm
  · rw [List.getLast?_eq_getElem?] at hticket
    obtain ⟨i, hi, hflushes⟩ := h.served m a ha ham _ _ hticket hm
    obtain ⟨hlt, -⟩ := List.getElem?_eq_some_iff.mp hticket
    exact .inr ⟨i, hi.trans_lt hlt, hflushes⟩

/-- `_transform` calls back. -/
lemma done (h : Tracked u) (hlast : Labelled u) (hflags : Flagged u.st)
    (hloop : u.st.loop = some l) (hfault : u.st.fault = none) (hwork : u.st.work = none)
    {offset buffer buffers : ℕ} {t : State α} (ht : t = { u.st with
      serving := none, offset := offset, buffer := buffer, buffers := buffers, loop := none
      flushed := u.st.flushing }) (hf : Flowing t) (he : Ended t) :
    Tracked { u with st := t } := by
  have hticket := hlast l hloop hfault
  have hcaught : t.hadError = false → before u.accepted u.given ≤ (consumed t.calls).length :=
    fun herror => h.caught_up hf he herror (by rw [ht]) (by rw [ht]) (by rw [ht]) (by rw [ht])
  subst ht
  refine ⟨h.given, h.written, h.queue, h.count, h.numbered, fun hflushing => ?_, h.served,
    fun herror m a ha ham hm => ?_⟩
  · exact ⟨_, hticket, hflags.flushing hflushing l hloop⟩
  obtain hfull | ⟨l', hl', hflag, hle⟩ | hdone := h.pending herror m a ha ham hm
  · exact .inl hfull
  · -- The last call was for the last chunk that is not empty.
    obtain rfl := Option.some.inj (hl'.symm.trans hloop)
    rw [List.getLast?_eq_getElem?] at hticket
    obtain ⟨hlt, -⟩ := List.getElem?_eq_some_iff.mp hticket
    have hcount := h.count_idle herror hwork
    refine .inr (.inr ⟨u.tickets.length - 1, ?_, ⟨_, hticket, hflag⟩, ?_⟩)
    · show u.tickets.length - 1 < u.st.calls.length
      omega
    · show before u.accepted m ≤ (consumed (u.st.calls.take _)).length
      rw [List.take_of_length_le (by omega)]
      exact hle.trans (hcaught herror)
  · exact .inr (.inr hdone)

/-- The next chunk goes to `_transform`. -/
lemma give (h : Tracked u) (hflags : Flagged u.st) (hf : Flowing u.st) (he : Ended u.st)
    (hloop : u.st.loop = none) {chunk : List α} {rest : List (List α)}
    (hqueue : u.st.queue = chunk :: rest) (hflushing : u.st.flushing = false) {t : State α}
    (ht : { u.st with queue := rest }.transform chunk = t) :
    Tracked (Logged.issue ⟨t, u.accepted, u.given + 1, u.tickets⟩ (t.work.map Work.flush)) ∧
      Labelled (Logged.issue ⟨t, u.accepted, u.given + 1, u.tickets⟩ (t.work.map Work.flush)) := by
  obtain ⟨hwork, -⟩ := hf.no_work hloop
  obtain ⟨a, more, hdrop, ha, hmore⟩ : ∃ a more, u.accepted.drop u.given = a :: more ∧
      a.chunk = chunk ∧ more.map Accepted.chunk = rest :=
    List.map_eq_cons_iff.mp ((h.queue hflushing).symm.trans hqueue)
  have hlt : u.given < u.accepted.length := by
    have := congrArg List.length hdrop
    rw [List.length_drop, List.length_cons] at this
    omega
  have hnext : u.accepted.drop (u.given + 1) = more := by
    rw [← List.drop_drop, hdrop]
    rfl
  have hflushed := he.unflushed (.inl hflushing)
  set q : State α := { u.st with queue := rest } with hq
  have hdrained : q.drained = true → ∀ m, before u.accepted m ≤ before u.accepted (u.given + 1) :=
    fun hd => before_drained (by rw [hnext, hmore]; exact drained_iff.mp hd)
  have hpending : u.st.hadError = false → ∀ m b, u.accepted[m]? = some b → b.marker = true →
      u.given ≤ m → u.st.flushFlag = .Z_FULL_FLUSH ∨ ∃ i < u.st.calls.length, Flushes u m i := by
    intro herror m b hb hbm hm
    obtain hfull | ⟨l, hl, -⟩ | hdone := h.pending herror m b hb hbm hm
    · exact .inl hfull
    · cases hloop.symm.trans hl
    · exact .inr hdone
  have hfor : u.st.flushFlag = .Z_FULL_FLUSH →
      q.flagFor = .Z_FULL_FLUSH ∨ q.flagFor = .Z_FINISH := by
    intro hfull
    unfold State.flagFor
    split_ifs
    · exact .inr rfl
    · exact .inl hfull
  have hbase : Tracked ⟨{ q with
      flushFlag := q.flagAfter
      loop := some ⟨q.flagFor, chunk, 0, chunk.length, q.opts.chunkSize - q.offset⟩ },
      u.accepted, u.given + 1, u.tickets⟩ := by
    refine ⟨hlt, h.written, fun _ => ?_, h.count, fun c hc m hm => ?_, h.flushed, h.served,
      fun herror m b hb hbm hm => ?_⟩
    · rw [hnext]
      exact hmore.symm
    · exact (h.numbered c hc m hm).trans (Nat.lt_succ_self _)
    · obtain hfull | hdone := hpending herror m b hb hbm (Nat.le_of_succ_le hm)
      · by_cases hreset : (!q.ending && q.drained) = true
        · -- The flag is reset, and this chunk has got it.
          exact .inr (.inl ⟨_, rfl, hfor hfull, hdrained (Bool.and_eq_true_iff.mp hreset).2 m⟩)
        · refine .inl ?_
          show q.flagAfter = _
          unfold State.flagAfter
          rw [if_neg hreset]
          exact hfull
      · exact .inr (.inr hdone)
  have hcurrent : ∀ m, (if u.st.flushing then none else some (u.given + 1 - 1)) = some m →
      m = u.given := by
    intro m hm
    rw [hflushing] at hm
    exact (Option.some.inj hm).symm
  rw [transform_eq] at ht
  refine hbase.call hflags.error hwork rfl hflushed (fun m hm => ?_)
    (fun herror m b hb hbm hm => ?_) ht
  · rw [hcurrent m hm]
    exact Nat.lt_succ_self _
  · obtain rfl := hcurrent m hm
    obtain hfull | ⟨i, hi, hflushes⟩ := hpending herror u.given b hb hbm le_rfl
    · have hcaught := h.caught_up hf he herror hloop rfl rfl rfl
      exact .inl ⟨hfor hfull, hcaught⟩
    · have hcount := h.count_idle herror hwork
      exact .inr ⟨i, hi.trans_le hcount.ge, hflushes⟩

/-- `_flush` goes to `_transform`. -/
lemma prefinish (h : Tracked u) (hflags : Flagged u.st) (hf : Flowing u.st) (he : Ended u.st)
    (hloop : u.st.loop = none) (hending : u.st.ending = true) (hflushing : u.st.flushing = false)
    {t : State α} (ht : { u.st with flushing := true, queue := [] }.transform [] = t) :
    Tracked ({ u with st := t }.issue (t.work.map Work.flush)) ∧
      Labelled ({ u with st := t }.issue (t.work.map Work.flush)) := by
  obtain ⟨hwork, -⟩ := hf.no_work hloop
  have hflushed := he.unflushed (.inl hflushing)
  set q : State α := { u.st with flushing := true, queue := [] } with hq
  have hbase : Tracked { u with st := { q with
      flushFlag := q.flagAfter
      loop := some ⟨q.flagFor, [], 0, ([] : List α).length, q.opts.chunkSize - q.offset⟩ } } := by
    refine ⟨h.given, h.written, fun hopen => (by cases hopen), h.count, h.numbered, h.flushed,
      h.served, fun herror m b hb hbm hm => ?_⟩
    obtain hfull | ⟨l, hl, -⟩ | hdone := h.pending herror m b hb hbm hm
    · refine .inl ?_
      show q.flagAfter = _
      unfold State.flagAfter
      rw [if_neg (by simp [hq, hending])]
      exact hfull
    · cases hloop.symm.trans hl
    · exact .inr (.inr hdone)
  rw [transform_eq] at ht
  exact hbase.call hflags.error hwork rfl hflushed (fun m hm => by cases hm)
    (fun _ m _ _ _ hm => by cases hm) ht

end Tracked

/-! ### Steps -/

/-- What holds in every state of a run. -/
structure Followed (s : Logged α) : Prop where
  flowing : Flowing s.st
  ended : Ended s.st
  flags : Flagged s.st
  tracked : Tracked s
  labelled : Labelled s

/-- The callback of `_transform` goes on. -/
lemma Tracked.resume (h : Tracked u) (hlast : Labelled u) (hflags : Flagged u.st)
    (hended : Ended u.st) (hloop : u.st.loop = some l) (hfault : u.st.fault = none)
    (hwork : u.st.work = none) {availIn availOut : ℕ} {t : State α}
    (ht : u.st.resume l availIn availOut = t) (hf : Flowing t) (he : Ended t) :
    Tracked ({ u with st := t }.issue (t.work.map Work.flush)) ∧
      Labelled ({ u with st := t }.issue (t.work.map Work.flush)) := by
  unfold State.resume at ht
  dsimp only at ht
  by_cases hfilled : availOut = 0
  · rw [if_pos hfilled, if_pos (.inl hfilled)] at ht
    exact h.again hlast hflags hended hloop hfault hwork { l with
      inOff := l.inOff + (l.availInBefore - availIn), availInBefore := availIn
      availOutBefore := u.st.opts.chunkSize } rfl ht
  · rw [if_neg hfilled] at ht
    have hdone : ∃ offset buffer buffers, t = { u.st with
        serving := none, offset := offset, buffer := buffer, buffers := buffers, loop := none
        flushed := u.st.flushing } := by
      split_ifs at ht
      · exact ⟨_, _, _, ht.symm⟩
      · exact ⟨_, _, _, ht.symm⟩
    obtain ⟨offset, buffer, buffers, hdone⟩ := hdone
    have hidle : t.work = none := by
      rw [hdone]
      exact hwork
    rw [issue_idle u hidle]
    refine ⟨h.done hlast hflags hloop hfault hwork hdone hf he, fun l' hl' => ?_⟩
    subst hdone
    cases hl'

/-- A call of `flush`, by the user or on `'drain'`. -/
lemma Tracked.flush (h : Tracked u) (hlast : Labelled u) (deferred : ℕ) (needDrain : Bool)
    {a : Option (Accepted α)}
    (ha : a = if u.st.ending || needDrain then none else some ⟨[], true⟩) :
    Tracked { u with
      st := { u.st with deferred := deferred }.flush needDrain
      accepted := joined u.accepted a } ∧
    Labelled { u with
      st := { u.st with deferred := deferred }.flush needDrain
      accepted := joined u.accepted a } := by
  subst ha
  unfold State.flush State.write
  by_cases hending : u.st.ending = true
  · rw [if_pos hending, if_pos (by rw [hending]; rfl)]
    exact ⟨h.keep _ _ _ _ _ _ _ _ deferred _ id, hlast⟩
  · rw [if_neg hending]
    cases needDrain with
    | true =>
      rw [Bool.or_true]
      exact ⟨h.keep _ _ _ _ _ _ _ _ (deferred + 1) _ id, hlast⟩
    | false =>
      have hopen : (u.st.ending || false) = false := by simpa using hending
      rw [hopen]
      rw [if_neg (by simp), if_neg hending, if_neg (by simp)]
      have htaken := h.accept ⟨[], true⟩ .Z_FULL_FLUSH deferred (.inr rfl) fun _ => rfl
      exact ⟨htaken, hlast⟩

lemma Tracked.close (h : Tracked u) (hlast : Labelled u) :
    Tracked { u with st := u.st.close } ∧ Labelled { u with st := u.st.close } := by
  unfold State.close State.bindingClose
  split_ifs
  · exact ⟨h, hlast⟩
  · exact ⟨h.keep _ _ _ _ _ _ _ _ _ _ id, fun _ _ hf => by cases hf⟩
  · exact ⟨h.keep _ _ _ _ _ _ _ _ _ _ id, fun _ _ hf => by cases hf⟩
  · exact ⟨h.keep _ _ _ _ _ _ _ _ _ _ id, fun _ _ hf => by cases hf⟩
  · exact ⟨h.keep _ _ _ _ _ _ _ _ _ _ id, hlast⟩

lemma Tracked.reset (h : Tracked u) (hlast : Labelled u) (ok : Bool) :
    Tracked { u with st := u.st.bindingReset ok } ∧
      Labelled { u with st := u.st.bindingReset ok } := by
  unfold State.bindingReset
  split_ifs
  · exact ⟨h.keep _ _ _ _ _ _ _ _ _ _ id, fun _ _ hf => by cases hf⟩
  · exact ⟨h, hlast⟩
  · exact ⟨h.keep _ _ _ _ _ _ _ _ _ _ fun he => (by cases he), hlast⟩

lemma Followed.step {s s' : Logged α} {a : Act α} (h : Followed s) (hs : s.step a = some s') :
    Followed s' := by
  obtain ⟨t, ht, rfl⟩ := Option.map_eq_some_iff.mp hs
  have hfault : s.st.fault = none := by
    unfold Zlib.step at ht
    rw [Option.ite_none_left_eq_some] at ht
    exact not_not.mp ht.1
  have hf := h.flowing.step ht
  have he := h.ended.step ht
  have hflags := h.flags.step h.flowing ht
  suffices htracked : Tracked (s.next a t) ∧ Labelled (s.next a t) from
    ⟨hf, he, hflags, htracked.1, htracked.2⟩
  have hsame : ∀ {u : Logged α}, u = s → Tracked u ∧ Labelled u := fun hu =>
    hu ▸ ⟨h.tracked, h.labelled⟩
  cases Goes.of_step ht with
  | write chunk =>
    by_cases hending : s.st.ending = true
    · refine hsame ?_
      simp [Logged.next, Logged.issue, issues, accepts, joined, State.write, hending]
    · have hnext : s.next (.write chunk) (s.st.write chunk) = { s with
          st := { s.st with
            flushFlag := s.st.flushFlag, deferred := s.st.deferred
            queue := s.st.queue ++ [chunk], written := s.st.written ++ chunk }
          accepted := joined s.accepted (some ⟨chunk, false⟩) } := by
        simp [Logged.next, Logged.issue, issues, accepts, joined, State.write, hending]
      rw [hnext]
      exact ⟨h.tracked.accept ⟨chunk, false⟩ s.st.flushFlag s.st.deferred (.inl rfl)
        (fun hm => by cases hm), h.labelled⟩
  | flush needDrain => exact h.tracked.flush h.labelled s.st.deferred needDrain rfl
  | finish =>
    exact ⟨h.tracked.keep _ _ _ _ _ _ _ _ _ _ id, h.labelled⟩
  | close => exact h.tracked.close h.labelled
  | reset ok => exact h.tracked.reset h.labelled ok
  | drain _ _ =>
    exact h.tracked.flush h.labelled (s.st.deferred - 1) false (by simp [accepts])
  | transform hloop hqueue hflushing =>
    exact h.tracked.give h.flags h.flowing h.ended hloop hqueue hflushing rfl
  | prefinish hloop hending hflushing hqueue =>
    exact h.tracked.prefinish h.flags h.flowing h.ended hloop hending hflushing rfl
  | fails _ _ =>
    have ⟨hgiven, hwritten, hqueue, _, hnumbered, hflushed, hserved, _⟩ := h.tracked
    exact ⟨⟨hgiven, hwritten, hqueue, fun he => (by cases he), hnumbered, hflushed, hserved,
      fun he => by cases he⟩, h.labelled⟩
  | @after l w k b hloop hw hk =>
    have hheard := h.tracked.heard hw k b
    rw [after_eq h.flowing hloop hw hk] at hf he ⊢
    split_ifs at hf he ⊢ with herror hpos
    · have ⟨hgiven, hwritten, hqueue, _, hnumbered, hflushed, hserved, _⟩ := hheard
      exact ⟨⟨hgiven, hwritten, hqueue, fun he => (by cases he.symm.trans herror), hnumbered,
        hflushed, hserved, fun he => by cases he.symm.trans herror⟩, h.labelled⟩
    · exact ⟨hheard, h.labelled⟩
    · have hended : Ended (s.st.heard w k b) :=
        ⟨h.ended.flushing, h.ended.flushed, h.ended.last, h.ended.emitted⟩
      exact hheard.resume h.labelled (h.flags.heard k b) hended hloop hfault rfl rfl hf he
  | resume hloop hserving =>
    exact h.tracked.resume h.labelled h.flags h.ended hloop hfault
      (h.flowing.serving _ hserving).1 rfl hf he
  | emitEnd _ _ =>
    have hset : Tracked { s with st := { s.st with endEmitted := true } } :=
      h.tracked.keep _ _ _ _ _ _ _ _ _ _ id
    exact hset.close h.labelled

/-! ### Runs -/

lemma followed_init (opts : Options) (memory : ℕ → ℕ → α) : Followed (Logged.init opts memory) where
  flowing := flowing_init opts memory
  ended := ended_init opts memory
  flags := ⟨fun h => (by cases h), .inl rfl, fun w hw => (by cases hw), fun l hl => (by cases hl),
    fun h => (by cases h), fun l hl => (by cases hl)⟩
  tracked := ⟨le_rfl, rfl, fun _ => rfl, fun _ => rfl, fun c hc => (by cases hc),
    fun h => (by cases h), fun m a ha => (by cases ha), fun _ m a ha => (by cases ha)⟩
  labelled := fun l hl => by cases hl

/-- A stream that does not go on after the end has called back from `_flush`. -/
lemma Followed.flushed {s : Logged α} (h : Followed s) (hending : s.st.ending = true)
    (herror : s.st.hadError = false) (hfault : s.st.fault = none) (hsettled : Settled s.st) :
    s.st.flushed = true := by
  obtain ⟨htransform, hprefinish, hresume, hafter⟩ := hsettled
  have hloop : s.st.loop = none := by
    refine Option.eq_none_iff_forall_ne_some.mpr fun l hl => ?_
    rcases h.flags.busy l hl hfault herror with hwork | hserving
    · obtain ⟨w, hw⟩ := Option.ne_none_iff_exists'.mp hwork
      have hobeys : w.Obeys w.input.length [] := ⟨le_rfl, Nat.zero_le _, fun _ => rfl⟩
      cases (hafter _).symm.trans ((Goes.after hl hw hobeys).step_eq hfault)
    · obtain ⟨p, hp⟩ := Option.ne_none_iff_exists'.mp hserving
      cases hresume.symm.trans ((Goes.resume hl hp).step_eq hfault)
  refine h.ended.last ?_ hloop
  by_contra hflushing
  have hopen : s.st.flushing = false := Bool.eq_false_iff.mpr hflushing
  cases hqueue : s.st.queue with
  | nil =>
    have hnil : s.st.queue.flatten = [] := by rw [hqueue]; rfl
    cases hprefinish.symm.trans ((Goes.prefinish hloop hending hopen hnil).step_eq hfault)
  | cons chunk rest =>
    cases htransform.symm.trans ((Goes.transform hloop hqueue hopen).step_eq hfault)

/-- In the end the last call has flushed everything. -/
lemma Followed.leftover {s : Logged α} (h : Followed s) (hflushed : s.st.flushed = true)
    (herror : s.st.hadError = false) (m : ℕ) : Flushes s m (s.tickets.length - 1) := by
  obtain ⟨c, hc, hflag⟩ := h.tracked.flushed hflushed
  obtain ⟨hflushing, hloop⟩ := h.ended.flushed hflushed
  have hcount := h.tracked.count_idle herror (h.flowing.no_work hloop).1
  have hconsumed := (h.flowing.exact herror).consumed
  unfold State.rest at hconsumed
  rw [hloop, (h.ended.flushing hflushing).2] at hconsumed
  refine ⟨⟨c, List.getLast?_eq_getElem? ▸ hc, .inr hflag⟩, ?_⟩
  rw [List.take_of_length_le (by omega)]
  have hall : consumed s.st.calls = s.st.written := by simpa using hconsumed
  rw [hall, h.tracked.written]
  exact before_le _ _

/-- **Every call of the engine carries the right flag**, whatever the user calls, and whenever the
engine comes back. -/
theorem flags_of_run {opts : Options} {memory : ℕ → ℕ → α} {s : Logged α}
    (h : Run Logged.step (fun _ _ _ => True) (Logged.init opts memory) s) : Flags s := by
  have hs : Followed s :=
    h.invariant (followed_init opts memory) fun _ _ _ hn hstep _ => hn.step hstep
  refine ⟨fun w hw hfinish => ?_, hs.tracked.flushed, fun hending herror hfault hsettled => ?_,
    hs.tracked.served, fun hflushed herror m => ⟨_, hs.leftover hflushed herror m⟩⟩
  · obtain ⟨l, hl, hflag⟩ := hs.flags.work w hw
    exact hs.flags.finish l hl (hflag.symm.trans hfinish)
  · exact hs.tracked.flushed (hs.flushed hending herror hfault hsettled)

/-- A chunk is in the thread pool when `flush` is called, and another one is written after it. -/
def flushedBetween : List (Act UInt8) :=
  [.write [1, 2], .transform, .flush false, .write [3], .after (some (2, [])), .transform,
    .after (some (0, [])), .transform, .finish, .after (some (1, [])), .prefinish,
    .after (some (0, [9])), .resume]

theorem flags_of_run_flushed : ∃ s : Logged UInt8, s.tickets =
    [⟨some 0, .Z_NO_FLUSH⟩, ⟨some 1, .Z_FULL_FLUSH⟩, ⟨some 2, .Z_FULL_FLUSH⟩, ⟨none, .Z_FINISH⟩] ∧
    Flags s := by
  have hrun : ∃ s : Logged UInt8, Run Logged.step (fun _ _ _ => True)
      (Logged.init ⟨64, .Z_NO_FLUSH, by decide⟩ fun _ _ => 0) s ∧ s.tickets =
      [⟨some 0, .Z_NO_FLUSH⟩, ⟨some 1, .Z_FULL_FLUSH⟩, ⟨some 2, .Z_FULL_FLUSH⟩,
        ⟨none, .Z_FINISH⟩] :=
    ⟨_, Run.of_foldlM (w := flushedBetween) rfl, rfl⟩
  obtain ⟨s, hs, htickets⟩ := hrun
  exact ⟨s, htickets, flags_of_run hs⟩

/-- With the option every call finishes the stream. -/
theorem not_flags_option : ¬ ∀ (opts : Options) (s : Logged UInt8),
    Run Logged.step (fun _ _ _ => True) (Logged.init opts fun _ _ => 0) s →
    ∀ w, s.st.work = some w → w.flush = .Z_FINISH →
      s.st.ending = true ∧ ∀ c ∈ s.st.queue, c = [] := by
  intro hall
  have hrun : ∃ s : Logged UInt8, Run Logged.step (fun _ _ _ => True)
      (Logged.init ⟨64, .Z_FINISH, by decide⟩ fun _ _ => 0) s ∧
      s.st.work = some ⟨.Z_FINISH, [1], ⟨0, 0, 64⟩⟩ ∧ s.st.ending = false :=
    ⟨_, Run.of_foldlM (w := [.write [1], .transform]) rfl, rfl, rfl⟩
  obtain ⟨s, hs, hwork, hopen⟩ := hrun
  cases hopen.symm.trans (hall _ s hs _ hwork rfl).1

end

end NodeCore.Zlib
