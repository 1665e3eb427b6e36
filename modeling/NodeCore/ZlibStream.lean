import NodeCore.Zlib

/-!
What is written to a `Zlib` stream goes to the engine once and in order, and what the engine
produces is pushed.
-/

namespace NodeCore.Zlib

open NodeCore.Memory NodeCore.Reentrant

variable {α : Type*}

/-! ### The claim -/

/-- The bytes that the engine has consumed. -/
def consumed (calls : List (Call α)) : List α := calls.flatMap fun c => c.input.take c.consumed

/-- The bytes that it has produced. -/
def produced (calls : List (Call α)) : List α := calls.flatMap Call.output

namespace State

/-- The bytes that have been pushed, as they are now. -/
def data (s : State α) : List α := s.pushed.flatMap fun c => c.content s.memory

/-- The bytes of the chunk that is being transformed which have not been consumed. -/
def rest (s : State α) : List α :=
  match s.loop with
  | none => []
  | some l => l.chunk.drop (l.chunk.length - (s.serving.elim l.availInBefore Prod.fst))

end State

/-- **What is claimed.** Of what has been written the engine has consumed a part, and each call
offers it what comes next. What it has produced has been pushed. -/
structure Exact (s : State α) : Prop where
  consumed : consumed s.calls ++ s.rest ++ s.queue.flatten = s.written
  offered : ∀ pre c post, s.calls = pre ++ c :: post →
    c.input <+: s.written.drop (Zlib.consumed pre).length
  produced : s.data = produced s.calls

/-! ### The invariant -/

/-- The offsets of a stream, and what is claimed while the engine has not failed. -/
structure Flowing (s : State α) : Prop where
  bounds : s.fault ≠ some .outOfBounds
  offset : s.offset ≤ s.opts.chunkSize
  buffer : s.buffer < s.buffers
  pushed : ∀ c ∈ s.pushed, c.buffer < s.buffers ∧
    (c.buffer = s.buffer → c.start + c.length ≤ s.offset)
  loop : ∀ l, s.loop = some l → l.inOff + l.availInBefore = l.chunk.length
  work : ∀ w, s.work = some w → s.serving = none ∧ ∃ l, s.loop = some l ∧
    w.input = l.chunk.drop l.inOff ∧ w.out = ⟨s.buffer, s.offset, l.availOutBefore⟩ ∧
    s.offset + l.availOutBefore ≤ s.opts.chunkSize
  serving : ∀ p, s.serving = some p → s.work = none ∧ ∃ l, s.loop = some l ∧
    p.1 ≤ l.availInBefore ∧ (p.2 ≠ 0 → p.1 = 0)
  exact : s.hadError = false → Exact s

variable {s t : State α} {l : Loop α} {w : Work α}

lemma consumed_append (calls calls' : List (Call α)) :
    consumed (calls ++ calls') = consumed calls ++ consumed calls' := List.flatMap_append

lemma Flowing.fail (h : Flowing s) {f : Fault} (hf : f ≠ .outOfBounds) : Flowing (s.fail f) :=
  ⟨fun hb => hf (Option.some.inj hb), h.offset, h.buffer, h.pushed, h.loop, h.work, h.serving,
    fun he => ⟨(h.exact he).consumed, (h.exact he).offered, (h.exact he).produced⟩⟩

lemma Flowing.error (h : Flowing s) : Flowing s.error :=
  ⟨h.bounds, h.offset, h.buffer, h.pushed, h.loop, h.work, h.serving, nofun⟩

/-- The work for a call is what is left of the chunk. -/
lemma Flowing.bindingWrite {flush : Flush} (h : Flowing s) (hloop : s.loop = some l)
    (hserving : s.serving = none) (hout : s.offset + l.availOutBefore ≤ s.opts.chunkSize) :
    Flowing
      (s.bindingWrite flush l.chunk l.inOff l.availInBefore s.offset l.availOutBefore) := by
  have hin := h.loop l hloop
  obtain ⟨f, hf, heq⟩ | heq := bindingWrite_cases (s := s) flush hin.le hout
  · rw [heq]
    exact h.fail hf
  · rw [heq]
    refine ⟨h.bounds, h.offset, h.buffer, h.pushed, h.loop, fun w hw => ?_, fun p hp => ?_,
      fun he => ⟨(h.exact he).consumed, (h.exact he).offered, (h.exact he).produced⟩⟩
    · obtain rfl := Option.some.inj hw
      refine ⟨hserving, l, hloop, List.take_of_length_le ?_, rfl, hout⟩
      rw [List.length_drop]
      omega
    · cases hserving.symm.trans hp

/-- The work that there is was begun by the call of `_transform`, which waits for it. -/
lemma Flowing.no_work (h : Flowing s) (hloop : s.loop = none) :
    s.work = none ∧ s.serving = none := by
  constructor
  · refine Option.eq_none_iff_forall_ne_some.mpr fun w hw => ?_
    obtain ⟨-, l, hl, -⟩ := h.work w hw
    cases hloop.symm.trans hl
  · refine Option.eq_none_iff_forall_ne_some.mpr fun p hp => ?_
    obtain ⟨-, l, hl, -⟩ := h.serving p hp
    cases hloop.symm.trans hl

/-- A chunk is taken from the queue. -/
lemma Flowing.transform {queue : List (List α)} {chunk : List α} {flushing : Bool}
    (h : Flowing s) (hloop : s.loop = none) (hqueue : chunk ++ queue.flatten = s.queue.flatten) :
    Flowing ({ s with flushing := flushing, queue := queue }.transform chunk) := by
  obtain ⟨hwork, hserving⟩ := h.no_work hloop
  have hrest : s.rest = [] := by
    unfold State.rest
    rw [hloop]
  have hoffset := h.offset
  refine Flowing.bindingWrite (l := ⟨_, chunk, 0, chunk.length, s.opts.chunkSize - s.offset⟩) ?_
    rfl hserving (by show s.offset + (s.opts.chunkSize - s.offset) ≤ s.opts.chunkSize; omega)
  refine ⟨h.bounds, h.offset, h.buffer, h.pushed, fun l hl => ?_, fun w hw => ?_, fun p hp => ?_,
    fun he => ⟨?_, (h.exact he).offered, (h.exact he).produced⟩⟩
  · obtain rfl := Option.some.inj hl
    exact Nat.zero_add _
  · cases hwork.symm.trans hw
  · cases hserving.symm.trans hp
  · have hconsumed := (h.exact he).consumed
    rw [hrest, List.append_nil, ← hqueue] at hconsumed
    show consumed s.calls ++ chunk.drop (chunk.length - s.serving.elim chunk.length Prod.fst) ++ _ =
      _
    rw [hserving, Option.elim_none, Nat.sub_self, List.drop_zero, List.append_assoc]
    exact hconsumed

/-! ### What comes back from the engine -/

/-- The chunks that have been pushed lie before what is being written. -/
lemma Flowing.content_write (h : Flowing s) (hw : s.work = some w) {b : List α} {c : Slice}
    (hc : c ∈ s.pushed) :
    c.content (Memory.write s.memory w.out.buffer w.out.start b) = c.content s.memory := by
  obtain ⟨-, l, -, -, hout, -⟩ := h.work w hw
  obtain ⟨-, hbelow⟩ := h.pushed c hc
  refine content_write_apart ?_
  rw [hout]
  by_cases hbuffer : s.buffer = c.buffer
  · exact .inr (.inr (hbelow hbuffer.symm))
  · exact .inl hbuffer

/-- The output has been pushed, and the user is called. -/
def State.heard (s : State α) (w : Work α) (consumed : ℕ) (output : List α) : State α :=
  { s with
    work := none
    writeInProgress := false
    memory := Memory.write s.memory w.out.buffer w.out.start output
    calls := s.calls ++ [⟨w.input, consumed, output⟩]
    pushed := s.pushed ++ if 0 < output.length then [⟨s.buffer, s.offset, output.length⟩] else []
    offset := s.offset + output.length
    serving := some (w.input.length - consumed, w.out.length - output.length) }

lemma Flowing.heard (h : Flowing s) (hw : s.work = some w) {k : ℕ} {b : List α}
    (hk : w.Obeys k b) : Flowing (s.heard w k b) := by
  obtain ⟨hserving, l, hloop, hinput, hout, hroom⟩ := h.work w hw
  obtain ⟨hkle, hble, hfull⟩ := hk
  have hlen : w.input.length = l.availInBefore := by
    rw [hinput, List.length_drop, ← h.loop l hloop]
    exact Nat.add_sub_cancel_left ..
  have hspace : w.out.length = l.availOutBefore := by rw [hout]
  have hnew : ∀ c ∈ (if 0 < b.length then [⟨s.buffer, s.offset, b.length⟩] else [] : List Slice),
      c = ⟨s.buffer, s.offset, b.length⟩ := by
    intro c hc
    split_ifs at hc
    · exact List.mem_singleton.mp hc
    · cases hc
  have hrest : s.rest = w.input := by
    have hsum := h.loop l hloop
    unfold State.rest
    rw [hloop]
    dsimp only
    rw [hserving, Option.elim_none, hinput,
      show l.chunk.length - l.availInBefore = l.inOff by omega]
  refine ⟨h.bounds, ?_, h.buffer, fun c hc => ?_, h.loop, nofun, fun p hp => ?_, fun he => ?_⟩
  · show s.offset + b.length ≤ s.opts.chunkSize
    omega
  · rcases List.mem_append.mp hc with hc | hc
    · obtain ⟨hlt, hbelow⟩ := h.pushed c hc
      exact ⟨hlt, fun hb => (hbelow hb).trans (Nat.le_add_right _ _)⟩
    · rw [hnew c hc]
      exact ⟨h.buffer, fun _ => Nat.le_refl _⟩
  · obtain rfl := Option.some.inj hp
    refine ⟨rfl, l, hloop, ?_, fun hroom => ?_⟩
    · show w.input.length - k ≤ _
      omega
    · have := hfull (by omega)
      show w.input.length - k = 0
      omega
  · obtain ⟨hconsumed, hoffered, hproduced⟩ := h.exact he
    rw [hrest] at hconsumed
    refine ⟨?_, fun pre c post hcalls => ?_, ?_⟩
    · have hdrop : (s.heard w k b).rest = w.input.drop k := by
        have hsum := h.loop l hloop
        unfold State.rest State.heard
        dsimp only
        rw [hloop]
        dsimp only
        rw [Option.elim_some]
        conv_rhs => rw [hinput, List.drop_drop]
        refine congrArg (fun n => l.chunk.drop n) ?_
        show l.chunk.length - (w.input.length - k) = l.inOff + k
        omega
      rw [hdrop]
      show consumed (s.calls ++ [_]) ++ _ ++ _ = s.written
      rw [consumed_append, List.append_assoc (consumed s.calls)]
      have htake : consumed [(⟨w.input, k, b⟩ : Call α)] = w.input.take k :=
        List.flatMap_singleton ..
      rw [htake, List.take_append_drop]
      exact hconsumed
    · have hcalls : s.calls ++ [⟨w.input, k, b⟩] = pre ++ c :: post := hcalls
      show c.input <+: s.written.drop _
      rcases List.eq_nil_or_concat post with rfl | ⟨post, last, rfl⟩
      · obtain ⟨hpre, hc⟩ := List.append_inj' hcalls rfl
        rw [← hpre, ← List.head_eq_of_cons_eq hc, ← hconsumed, List.append_assoc, List.drop_left]
        exact List.prefix_append _ _
      · rw [List.concat_eq_append, ← List.cons_append, ← List.append_assoc] at hcalls
        exact hoffered pre c post (List.append_inj' hcalls rfl).1
    · unfold State.data State.heard produced
      dsimp only
      rw [List.flatMap_append, List.flatMap_append, List.flatMap_singleton]
      refine congrArg₂ (· ++ ·) ?_ ?_
      · rw [List.flatMap_congr fun c hc => h.content_write hw hc]
        exact hproduced
      · split_ifs with hpos
        · rw [List.flatMap_singleton, hout]
          exact Memory.content_write ..
        · exact (List.eq_nil_of_length_eq_zero (Nat.eq_zero_of_not_pos hpos)).symm

/-- A new buffer: nothing is being written to the old one. -/
lemma Flowing.fresh (h : Flowing s) (hwork : s.work = none) :
    Flowing { s with offset := 0, buffer := s.buffers, buffers := s.buffers + 1 } := by
  refine ⟨h.bounds, Nat.zero_le _, Nat.lt_succ_self _, fun c hc => ?_, h.loop,
    fun w hw => (by cases hwork.symm.trans hw), h.serving,
    fun he => ⟨(h.exact he).consumed, (h.exact he).offered, (h.exact he).produced⟩⟩
  obtain ⟨hlt, -⟩ := h.pushed c hc
  exact ⟨Nat.lt_succ_of_lt hlt, fun hb => absurd hb (Nat.ne_of_lt hlt)⟩

/-- The callback is back from `push`. -/
lemma Flowing.back (h : Flowing s) (hwork : s.work = none) {next : Option (Loop α)} (flushed : Bool)
    (hnext : ∀ l, next = some l → l.inOff + l.availInBefore = l.chunk.length)
    (hrest : State.rest { s with serving := none, loop := next, flushed := flushed } = s.rest) :
    Flowing { s with serving := none, loop := next, flushed := flushed } := by
  refine ⟨h.bounds, h.offset, h.buffer, h.pushed, hnext, fun w hw => (by cases hwork.symm.trans hw),
    nofun, fun he => ⟨?_, (h.exact he).offered, (h.exact he).produced⟩⟩
  rw [hrest]
  exact (h.exact he).consumed

/-- The callback goes on. -/
lemma Flowing.resume {availIn availOut : ℕ} (h : Flowing s) (hloop : s.loop = some l)
    (hserving : s.serving = some (availIn, availOut)) :
    Flowing (s.resume l availIn availOut) := by
  obtain ⟨hwork, l', hl', hle, hfull⟩ := h.serving _ hserving
  obtain rfl := Option.some.inj (hloop.symm.trans hl')
  have hsum := h.loop l hloop
  have hrest : s.rest = l.chunk.drop (l.chunk.length - availIn) := by
    unfold State.rest
    rw [hloop]
    dsimp only
    rw [hserving]
    rfl
  dsimp only at hle hfull
  unfold State.resume
  dsimp only
  by_cases hfilled : availOut = 0
  · rw [if_pos hfilled, if_pos (.inl hfilled)]
    refine Flowing.bindingWrite (l := ⟨_, l.chunk, l.inOff + (l.availInBefore - availIn), availIn,
      s.opts.chunkSize⟩) ?_ rfl rfl (Nat.zero_add _).le
    refine (h.fresh hwork).back hwork s.flushed (fun l' hl' => ?_) hrest.symm
    obtain rfl := Option.some.inj hl'
    show l.inOff + (l.availInBefore - availIn) + availIn = l.chunk.length
    omega
  · rw [if_neg hfilled]
    have hgone : [] = s.rest := by
      rw [hrest, hfull hfilled, Nat.sub_zero, List.drop_length]
    split_ifs
    · exact (h.fresh hwork).back hwork s.flushing nofun hgone
    · exact h.back hwork s.flushing nofun hgone

/-- The callback pushes what has been produced, if anything has. -/
lemma after_eq (h : Flowing s) (hloop : s.loop = some l) (hw : s.work = some w) {k : ℕ}
    {b : List α} (hk : w.Obeys k b) : s.after l w (some (k, b)) =
      if s.hadError = true then
        { s with
          work := none
          writeInProgress := false
          memory := Memory.write s.memory w.out.buffer w.out.start b
          calls := s.calls ++ [⟨w.input, k, b⟩] }
      else if 0 < b.length then s.heard w k b
      else (s.heard w k b).resume l (w.input.length - k) (w.out.length - b.length) := by
  obtain ⟨-, l', hl', -, hout, -⟩ := h.work w hw
  obtain rfl := Option.some.inj (hloop.symm.trans hl')
  have hb : l.availOutBefore - (w.out.length - b.length) = b.length := by
    have := hk.2.1
    rw [hout] at this ⊢
    dsimp only at this ⊢
    omega
  unfold State.after State.callback
  dsimp only
  rw [hb]
  split_ifs with _ hpos
  · rfl
  · unfold State.heard
    rw [if_pos hpos]
  · have hnil : b.length = 0 := Nat.eq_zero_of_not_pos hpos
    unfold State.heard
    rw [if_neg hpos, List.append_nil, hnil]
    rfl

/-- The engine comes back. -/
lemma Flowing.after (h : Flowing s) (hloop : s.loop = some l) (hw : s.work = some w) {k : ℕ}
    {b : List α} (hk : w.Obeys k b) : Flowing (s.after l w (some (k, b))) := by
  have hheard := h.heard hw hk
  rw [after_eq h hloop hw hk]
  split_ifs with he
  · refine ⟨h.bounds, h.offset, h.buffer, h.pushed, h.loop, nofun, fun p hp => ?_, fun he' => ?_⟩
    · cases (h.work w hw).1.symm.trans hp
    · cases he'.symm.trans he
  · exact hheard
  · exact hheard.resume hloop rfl

/-! ### What the user calls -/

/-- What neither the engine nor the chunks depend on. -/
lemma Flowing.set (h : Flowing s) (flushFlag : Flush) (deferred : ℕ)
    (ending endEmitted closed : Bool) : Flowing { s with
      flushFlag := flushFlag, deferred := deferred, ending := ending, endEmitted := endEmitted
      closed := closed } :=
  ⟨h.bounds, h.offset, h.buffer, h.pushed, h.loop, h.work, h.serving,
    fun he => ⟨(h.exact he).consumed, (h.exact he).offered, (h.exact he).produced⟩⟩

lemma Flowing.write (h : Flowing s) (chunk : List α) : Flowing (s.write chunk) := by
  unfold State.write
  split_ifs
  · exact h
  refine ⟨h.bounds, h.offset, h.buffer, h.pushed, h.loop, h.work, h.serving, fun he =>
    ⟨?_, fun pre c post hcalls => ?_, (h.exact he).produced⟩⟩
  · show consumed s.calls ++ s.rest ++ (s.queue ++ [chunk]).flatten = s.written ++ chunk
    rw [List.flatten_append, List.flatten_singleton, ← List.append_assoc, (h.exact he).consumed]
  · exact ((h.exact he).offered pre c post hcalls).trans ((List.prefix_append _ _).drop _)

lemma Flowing.flush (h : Flowing s) (needDrain : Bool) : Flowing (s.flush needDrain) := by
  unfold State.flush
  split_ifs
  · exact h
  · exact h.set _ _ _ _ _
  · exact (h.set _ _ _ _ _).write []

lemma Flowing.close (h : Flowing s) : Flowing s.close := by
  unfold State.close
  split_ifs
  · exact h
  have hset := h.set s.flushFlag s.deferred s.ending s.endEmitted true
  unfold State.bindingClose
  split_ifs
  · exact hset.fail (by simp)
  · exact hset.fail (by simp)
  · exact hset.fail (by simp)
  · exact ⟨h.bounds, h.offset, h.buffer, h.pushed, h.loop, h.work, h.serving,
      fun he => ⟨(h.exact he).consumed, (h.exact he).offered, (h.exact he).produced⟩⟩

lemma Flowing.bindingReset (h : Flowing s) (ok : Bool) : Flowing (s.bindingReset ok) := by
  unfold State.bindingReset
  split_ifs
  · exact h.fail (by simp)
  · exact h
  · exact h.error

/-! ### Runs -/

lemma Flowing.step {a : Act α} (h : Flowing s) (hs : step s a = some t) : Flowing t := by
  cases Goes.of_step hs with
  | write chunk => exact h.write chunk
  | flush needDrain => exact h.flush needDrain
  | finish => exact h.set _ _ _ _ _
  | close => exact h.close
  | reset ok => exact h.bindingReset ok
  | drain _ _ => exact (h.set _ _ _ _ _).flush false
  | transform hloop hqueue _ => exact h.transform hloop (by rw [hqueue, List.flatten_cons])
  | prefinish hloop _ _ hqueue => exact h.transform hloop hqueue.symm
  | fails hloop hw =>
    refine Flowing.error (s := { s with work := none }) ⟨h.bounds, h.offset, h.buffer, h.pushed,
      h.loop, nofun, fun p hp => ⟨rfl, (h.serving p hp).2⟩, fun he => ?_⟩
    exact ⟨(h.exact he).consumed, (h.exact he).offered, (h.exact he).produced⟩
  | after hloop hw hk => exact h.after hloop hw hk
  | resume hloop hserving => exact h.resume hloop hserving
  | emitEnd _ _ => exact (h.set _ _ _ _ _).close

lemma flowing_init (opts : Options) (memory : ℕ → ℕ → α) : Flowing (init opts memory) :=
  ⟨nofun, Nat.zero_le _, Nat.zero_lt_one, nofun, nofun, nofun, nofun,
    fun _ => ⟨rfl, fun pre c post h => (by cases pre <;> cases h), rfl⟩⟩

/-- What has been pushed in `s` is in `t` as it was. -/
def Keeps (s t : State α) : Prop :=
  s.pushed <+: t.pushed ∧ ∀ c ∈ s.pushed, c.content t.memory = c.content s.memory

lemma Keeps.of_eq (hpushed : t.pushed = s.pushed) (hmemory : t.memory = s.memory) : Keeps s t :=
  ⟨hpushed ▸ List.prefix_refl _, fun c _ => by rw [hmemory]⟩

section

variable {flush : Flush} {chunk : List α} {inOff inLen outOff outLen availIn availOut : ℕ}

@[simp] lemma bindingWrite_pushed :
    (s.bindingWrite flush chunk inOff inLen outOff outLen).pushed = s.pushed := by
  unfold State.bindingWrite
  split_ifs <;> rfl

@[simp] lemma bindingWrite_memory :
    (s.bindingWrite flush chunk inOff inLen outOff outLen).memory = s.memory := by
  unfold State.bindingWrite
  split_ifs <;> rfl

@[simp] lemma resume_pushed : (s.resume l availIn availOut).pushed = s.pushed := by
  unfold State.resume
  dsimp only
  split_ifs <;> simp

@[simp] lemma resume_memory : (s.resume l availIn availOut).memory = s.memory := by
  unfold State.resume
  dsimp only
  split_ifs <;> simp

end

lemma Keeps.write (s : State α) (chunk : List α) : Keeps s (s.write chunk) := by
  unfold State.write
  split_ifs <;> exact .of_eq rfl rfl

lemma Keeps.flush (s : State α) (needDrain : Bool) : Keeps s (s.flush needDrain) := by
  unfold State.flush State.write
  split_ifs <;> exact .of_eq rfl rfl

lemma Keeps.close (s : State α) : Keeps s s.close := by
  unfold State.close State.bindingClose
  split_ifs <;> exact .of_eq rfl rfl

lemma Keeps.bindingReset (s : State α) (ok : Bool) : Keeps s (s.bindingReset ok) := by
  unfold State.bindingReset
  split_ifs <;> exact .of_eq rfl rfl

lemma Keeps.after (h : Flowing s) (hloop : s.loop = some l) (hw : s.work = some w) {k : ℕ}
    {b : List α} (hk : w.Obeys k b) : Keeps s (s.after l w (some (k, b))) := by
  have hheard : Keeps s (s.heard w k b) := ⟨List.prefix_append _ _, fun c => h.content_write hw⟩
  rw [after_eq h hloop hw hk]
  split_ifs
  · exact ⟨List.prefix_refl _, hheard.2⟩
  · exact hheard
  · unfold Keeps
    rw [resume_pushed, resume_memory]
    exact hheard

lemma Keeps.of_step {a : Act α} (h : Flowing s) (hs : step s a = some t) : Keeps s t := by
  cases Goes.of_step hs with
  | write chunk => exact .write s chunk
  | flush needDrain => exact .flush s needDrain
  | finish => exact .of_eq rfl rfl
  | close => exact .close s
  | reset ok => exact .bindingReset s ok
  | drain _ _ => exact .flush { s with deferred := s.deferred - 1 } false
  | transform _ _ _ => exact .of_eq bindingWrite_pushed bindingWrite_memory
  | prefinish _ _ _ _ => exact .of_eq bindingWrite_pushed bindingWrite_memory
  | fails _ _ => exact .of_eq rfl rfl
  | after hloop hw hk => exact .after h hloop hw hk
  | resume _ _ => exact .of_eq resume_pushed resume_memory
  | emitEnd _ _ => exact .close { s with endEmitted := true }

/-- Steps of any kind. -/
abbrev Runs : State α → State α → Prop := Run step fun _ _ _ => True

lemma Flowing.run (h : Flowing s) (hr : Runs s t) : Flowing t :=
  hr.invariant h fun _ _ _ hn hs _ => hn.step hs

lemma Keeps.of_run (h : Flowing s) (hr : Runs s t) : Keeps s t := by
  induction hr with
  | refl => exact .of_eq rfl rfl
  | step hrun hs _ ih =>
    obtain ⟨hpre, hcontent⟩ := ih
    obtain ⟨hgrows, hsame⟩ := Keeps.of_step (h.run hrun) hs
    exact ⟨hpre.trans hgrows, fun c hc =>
      (hsame c (hpre.subset hc)).trans (hcontent c hc)⟩

/-! ### The claim, settled -/

/-- A stream at some time of its run. -/
structure Process (α : Type*) where
  opts : Options
  memory : ℕ → ℕ → α
  state : State α
  run : Runs (init opts memory) state

/-- **The stream is exact** while the engine does not fail; what it has pushed is never written
again, the engine is never given a part of a buffer that is not there, and in the end it has
consumed all that was written. -/
theorem exact_of_run (p : Process α) :
    (p.state.hadError = false → Exact p.state ∧
      (p.state.flushed = true → consumed p.state.calls = p.state.written)) ∧
    p.state.fault ≠ some .outOfBounds ∧ ∀ t, Runs p.state t → Keeps p.state t := by
  have h := (flowing_init p.opts p.memory).run p.run
  have hended : Ended p.state :=
    p.run.invariant (ended_init _ _) fun _ _ _ hn hs _ => hn.step hs
  refine ⟨fun he => ⟨h.exact he, fun hflushed => ?_⟩, h.bounds, fun t ht => .of_run h ht⟩
  obtain ⟨hflushing, hloop⟩ := hended.flushed hflushed
  have hconsumed := (h.exact he).consumed
  unfold State.rest at hconsumed
  rw [hloop, (hended.flushing hflushing).2] at hconsumed
  simpa using hconsumed

end NodeCore.Zlib
