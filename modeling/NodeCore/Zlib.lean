import Mathlib.Data.List.Flatten
import NodeCore.Memory
import NodeCore.Reentrant

/-!
A `Zlib` stream and its context: what is written goes to zlib chunk by chunk, in as many calls as
the output takes, and what comes out is pushed. The user calls it whenever he likes, also from what
is called while something is pushed.

zlib itself is not here. A call of `deflate` or `inflate` may do whatever `Obeys` allows, or fail.
-/

namespace NodeCore.Zlib

open NodeCore.Memory NodeCore.Reentrant

variable {α : Type*}

/-! ### State -/

inductive Flush where
  | Z_NO_FLUSH | Z_PARTIAL_FLUSH | Z_SYNC_FLUSH | Z_FULL_FLUSH | Z_FINISH | Z_BLOCK
  deriving DecidableEq

/-- What is claimed not to happen. `nullBinding` is a `TypeError`, the others are assertions of the
context. -/
inductive Fault where
  | nullBinding | initDone | alreadyFinalized | writeInProgress | outOfBounds
  deriving DecidableEq

/-- The variables of a call of `_transform`. -/
structure Loop (α : Type*) where
  flushFlag : Flush
  chunk : List α
  inOff : ℕ
  availInBefore : ℕ
  availOutBefore : ℕ

/-- A call of the engine that is in the thread pool: the input that is available, and where the
output goes. -/
structure Work (α : Type*) where
  flush : Flush
  input : List α
  out : Slice

/-- A call of the engine that has come back: what was offered, how much of it was consumed, and
what was produced. -/
structure Call (α : Type*) where
  input : List α
  consumed : ℕ
  output : List α

def Z_MIN_CHUNK : ℕ := 64

/-- The options that the constructor accepts. -/
structure Options where
  chunkSize : ℕ
  flush : Flush
  min : Z_MIN_CHUNK ≤ chunkSize

/-- The stream, from `_chunkSize` to `closed`; what `Transform` has for it, from `queue` to
`deferred`; the context, from `initDone` to `work`; the memory of the buffers; and what has
happened. -/
structure State (α : Type*) where
  opts : Options
  /-- `_binding` is not null. -/
  binding : Bool
  hadError : Bool
  closed : Bool
  flushFlag : Flush
  buffer : ℕ
  offset : ℕ
  /-- The chunks that have been written and not been given to `_transform`. -/
  queue : List (List α)
  /-- The call of `_transform` that has not called back. -/
  loop : Option (Loop α)
  /-- Its callback is in `push`, with the two numbers that it was called with. -/
  serving : Option (ℕ × ℕ)
  ending : Bool
  /-- `_flush` has been called. -/
  flushing : Bool
  /-- It has called back. -/
  flushed : Bool
  endEmitted : Bool
  /-- The calls of `flush` that wait for `'drain'`. -/
  deferred : ℕ
  initDone : Bool
  /-- `mode_` is `NONE`. -/
  finalized : Bool
  writeInProgress : Bool
  work : Option (Work α)
  memory : ℕ → ℕ → α
  buffers : ℕ
  written : List α
  calls : List (Call α)
  pushed : List Slice
  fault : Option Fault

namespace State

/-! ### The context -/

def fail (s : State α) (f : Fault) : State α := { s with fault := some f }

/-- `_binding.write`, into the buffer of the stream. -/
def bindingWrite (s : State α) (flush : Flush) (chunk : List α) (inOff inLen outOff outLen : ℕ) :
    State α :=
  if s.binding = false then s.fail .nullBinding
  else if s.initDone = false then s.fail .initDone
  else if s.finalized = true then s.fail .alreadyFinalized
  else if s.writeInProgress = true then s.fail .writeInProgress
  else if chunk.length < inOff + inLen ∨ s.opts.chunkSize < outOff + outLen then
    s.fail .outOfBounds
  else
    { s with
      writeInProgress := true
      work := some ⟨flush, (chunk.drop inOff).take inLen, ⟨s.buffer, outOff, outLen⟩⟩ }

/-- `_binding.close`. -/
def bindingClose (s : State α) : State α :=
  if s.binding = false then s.fail .nullBinding
  else if s.writeInProgress = true then s.fail .writeInProgress
  else if s.initDone = false then s.fail .initDone
  else { s with finalized := true }

/-- `ZCtx::Error`, with `onerror`. -/
def error (s : State α) : State α :=
  { s with binding := false, hadError := true, writeInProgress := false }

/-- `_binding.reset`. Nothing is reset, and nothing can fail, when `mode_` is `NONE`. -/
def bindingReset (s : State α) (ok : Bool) : State α :=
  if s.binding = false then s.fail .nullBinding
  else if ok = true ∨ s.finalized = true then s
  else s.error

/-! ### The stream -/

/-- `_transform`. While it runs, the `length` of the writable side counts the chunk as well. -/
def transform (s : State α) (chunk : List α) : State α :=
  let length := chunk.length + (s.queue.map List.length).sum
  let last := s.ending && length = chunk.length
  let flushFlag := if last then .Z_FINISH else s.flushFlag
  let availOutBefore := s.opts.chunkSize - s.offset
  let t : State α :=
    { s with
      flushFlag := if !last && length ≤ chunk.length then s.opts.flush else s.flushFlag
      loop := some ⟨flushFlag, chunk, 0, chunk.length, availOutBefore⟩ }
  t.bindingWrite flushFlag chunk 0 chunk.length s.offset availOutBefore

/-- The callback, when it has pushed what there was. -/
def resume (s : State α) (l : Loop α) (availInAfter availOutAfter : ℕ) : State α :=
  let s : State α := { s with serving := none }
  let s : State α :=
    if availOutAfter = 0 ∨ s.opts.chunkSize ≤ s.offset then
      { s with offset := 0, buffer := s.buffers, buffers := s.buffers + 1 }
    else s
  if availOutAfter = 0 then
    let l : Loop α :=
      { l with
        inOff := l.inOff + (l.availInBefore - availInAfter)
        availInBefore := availInAfter
        availOutBefore := s.opts.chunkSize }
    { s with loop := some l }.bindingWrite l.flushFlag l.chunk l.inOff l.availInBefore s.offset
      s.opts.chunkSize
  else { s with loop := none, flushed := s.flushing }

/-- The callback. -/
def callback (s : State α) (l : Loop α) (availInAfter availOutAfter : ℕ) : State α :=
  if s.hadError = true then s
  else if 0 < l.availOutBefore - availOutAfter then
    { s with
      pushed := s.pushed ++ [⟨s.buffer, s.offset, l.availOutBefore - availOutAfter⟩]
      offset := s.offset + (l.availOutBefore - availOutAfter)
      serving := some (availInAfter, availOutAfter) }
  else s.resume l availInAfter availOutAfter

/-- `After`: the engine has failed, or has consumed and produced something. -/
def after (s : State α) (l : Loop α) (w : Work α) : Option (ℕ × List α) → State α
  | none => { s with work := none }.error
  | some (consumed, output) =>
    let t : State α :=
      { s with
        work := none
        writeInProgress := false
        memory := Memory.write s.memory w.out.buffer w.out.start output
        calls := s.calls ++ [⟨w.input, consumed, output⟩] }
    t.callback l (w.input.length - consumed) (w.out.length - output.length)

/-! ### The user -/

/-- A write after the end is an error of the writable side, and nothing else. -/
def write (s : State α) (chunk : List α) : State α :=
  if s.ending = true then s
  else { s with queue := s.queue ++ [chunk], written := s.written ++ chunk }

def flush (s : State α) (needDrain : Bool) : State α :=
  if s.ending = true then s
  else if needDrain = true then { s with deferred := s.deferred + 1 }
  else { s with flushFlag := .Z_FULL_FLUSH }.write []

def close (s : State α) : State α :=
  if s.closed = true then s else { s with closed := true }.bindingClose

end State

/-! ### Steps -/

/-- What a call of the engine may do: it consumes a prefix of the input, fills a prefix of the
output, and leaves room in it only when the input is used up. -/
def Work.Obeys (w : Work α) (consumed : ℕ) (output : List α) : Prop :=
  consumed ≤ w.input.length ∧ output.length ≤ w.out.length ∧
    (output.length < w.out.length → consumed = w.input.length)

instance (w : Work α) (consumed : ℕ) (output : List α) : Decidable (w.Obeys consumed output) :=
  inferInstanceAs (Decidable (_ ∧ _))

/-- The calls of the user, up to `reset`, and what the loop of the process does. -/
inductive Act (α : Type*) where
  | write (chunk : List α)
  | flush (needDrain : Bool)
  | finish
  | close
  | reset (ok : Bool)
  | drain
  | transform
  | prefinish
  | after (result : Option (ℕ × List α))
  | resume
  | emitEnd

open State in
/-- `Transform` gives a chunk to `_transform` when the last call has called back, and calls `_flush`
when nothing is left; what then waits is empty and will not be written. -/
def step (s : State α) (a : Act α) : Option (State α) :=
  if s.fault ≠ none then none
  else match a with
  | .write chunk => some (s.write chunk)
  | .flush needDrain => some (s.flush needDrain)
  | .finish => some { s with ending := true }
  | .close => some s.close
  | .reset ok => some (s.bindingReset ok)
  | .drain =>
    if 0 < s.deferred ∧ s.serving = none then
      some ({ s with deferred := s.deferred - 1 }.flush false)
    else none
  | .transform =>
    match s.loop, s.queue with
    | none, chunk :: rest =>
      if s.flushing then none else some ({ s with queue := rest }.transform chunk)
    | _, _ => none
  | .prefinish =>
    match s.loop with
    | none =>
      if s.ending ∧ ¬ s.flushing ∧ s.queue.flatten = [] then
        some ({ s with flushing := true, queue := [] }.transform [])
      else none
    | some _ => none
  | .after result =>
    match s.loop, s.work, result with
    | some l, some w, none => some (s.after l w none)
    | some l, some w, some (k, output) =>
      if w.Obeys k output then some (s.after l w (some (k, output))) else none
    | _, _, _ => none
  | .resume =>
    match s.loop, s.serving with
    | some l, some (availIn, availOut) => some (s.resume l availIn availOut)
    | _, _ => none
  | .emitEnd =>
    if s.flushed ∧ ¬ s.endEmitted then some ({ s with endEmitted := true }.close) else none

/-- The steps that there are, each with what it takes. -/
inductive Goes (s : State α) : Act α → State α → Prop
  | write (chunk : List α) : Goes s (.write chunk) (s.write chunk)
  | flush (needDrain : Bool) : Goes s (.flush needDrain) (s.flush needDrain)
  | finish : Goes s .finish { s with ending := true }
  | close : Goes s .close s.close
  | reset (ok : Bool) : Goes s (.reset ok) (s.bindingReset ok)
  | drain (hdeferred : 0 < s.deferred) (hserving : s.serving = none) :
      Goes s .drain ({ s with deferred := s.deferred - 1 }.flush false)
  | transform {chunk : List α} {rest : List (List α)} (hloop : s.loop = none)
      (hqueue : s.queue = chunk :: rest) (hflushing : s.flushing = false) :
      Goes s .transform ({ s with queue := rest }.transform chunk)
  | prefinish (hloop : s.loop = none) (hending : s.ending = true) (hflushing : s.flushing = false)
      (hqueue : s.queue.flatten = []) :
      Goes s .prefinish ({ s with flushing := true, queue := [] }.transform [])
  | fails {l : Loop α} {w : Work α} (hloop : s.loop = some l) (hw : s.work = some w) :
      Goes s (.after none) (s.after l w none)
  | after {l : Loop α} {w : Work α} {k : ℕ} {output : List α} (hloop : s.loop = some l)
      (hw : s.work = some w) (hk : w.Obeys k output) :
      Goes s (.after (some (k, output))) (s.after l w (some (k, output)))
  | resume {l : Loop α} {availIn availOut : ℕ} (hloop : s.loop = some l)
      (hserving : s.serving = some (availIn, availOut)) :
      Goes s .resume (s.resume l availIn availOut)
  | emitEnd (hflushed : s.flushed = true) (hend : s.endEmitted = false) :
      Goes s .emitEnd ({ s with endEmitted := true }.close)

lemma Goes.of_step {s t : State α} {a : Act α} (hs : step s a = some t) : Goes s a t := by
  unfold step at hs
  rw [Option.ite_none_left_eq_some] at hs
  obtain ⟨-, hs⟩ := hs
  cases a with
  | write chunk => exact Option.some.inj hs ▸ .write chunk
  | flush needDrain => exact Option.some.inj hs ▸ .flush needDrain
  | finish => exact Option.some.inj hs ▸ .finish
  | close => exact Option.some.inj hs ▸ .close
  | reset ok => exact Option.some.inj hs ▸ .reset ok
  | drain =>
    obtain ⟨hready, hs⟩ := Option.ite_none_right_eq_some.mp hs
    exact Option.some.inj hs ▸ .drain hready.1 hready.2
  | transform =>
    dsimp only at hs
    split at hs
    · next chunk rest hloop hqueue =>
      obtain ⟨hflushing, hs⟩ := Option.ite_none_left_eq_some.mp hs
      exact Option.some.inj hs ▸ .transform hloop hqueue (Bool.eq_false_iff.mpr hflushing)
    · cases hs
  | prefinish =>
    dsimp only at hs
    split at hs
    · next hloop =>
      obtain ⟨⟨hending, hflushing, hqueue⟩, hs⟩ := Option.ite_none_right_eq_some.mp hs
      exact Option.some.inj hs ▸ .prefinish hloop hending (Bool.eq_false_iff.mpr hflushing) hqueue
    · cases hs
  | after result =>
    dsimp only at hs
    split at hs
    · next l w hloop hw => exact Option.some.inj hs ▸ .fails hloop hw
    · next l w k output hloop hw =>
      obtain ⟨hk, hs⟩ := Option.ite_none_right_eq_some.mp hs
      exact Option.some.inj hs ▸ .after hloop hw hk
    · cases hs
  | resume =>
    dsimp only at hs
    split at hs
    · next l availIn availOut hloop hserving => exact Option.some.inj hs ▸ .resume hloop hserving
    · cases hs
  | emitEnd =>
    obtain ⟨⟨hflushed, hend⟩, hs⟩ := Option.ite_none_right_eq_some.mp hs
    exact Option.some.inj hs ▸ .emitEnd hflushed (Bool.eq_false_iff.mpr hend)

lemma Goes.step_eq {s t : State α} {a : Act α} (h : Goes s a t) (hfault : s.fault = none) :
    step s a = some t := by
  unfold step
  rw [if_neg (not_not.mpr hfault)]
  cases h with
  | drain hdeferred hserving => exact if_pos ⟨hdeferred, hserving⟩
  | transform hloop hqueue hflushing =>
    dsimp only
    rw [hloop, hqueue]
    exact if_neg (by simp [hflushing])
  | prefinish hloop hending hflushing hqueue =>
    dsimp only
    rw [hloop]
    exact if_pos ⟨hending, by simp [hflushing], hqueue⟩
  | fails hloop hw =>
    dsimp only
    rw [hloop, hw]
  | after hloop hw hk =>
    dsimp only
    rw [hloop, hw]
    exact if_pos hk
  | resume hloop hserving =>
    dsimp only
    rw [hloop, hserving]
  | emitEnd hflushed hend => exact if_pos ⟨hflushed, by simp [hend]⟩
  | _ => rfl

/-- A new stream. What is in the memory is not known. -/
def init (opts : Options) (memory : ℕ → ℕ → α) : State α where
  opts := opts
  binding := true
  hadError := false
  closed := false
  flushFlag := opts.flush
  buffer := 0
  offset := 0
  queue := []
  loop := none
  serving := none
  ending := false
  flushing := false
  flushed := false
  endEmitted := false
  deferred := 0
  initDone := true
  finalized := false
  writeInProgress := false
  work := none
  memory := memory
  buffers := 1
  written := []
  calls := []
  pushed := []
  fault := none

/-! ### The call of the context -/

variable {s t : State α} {flag : Flush} {chunk : List α} {inOff inLen outOff outLen : ℕ}

/-- Either it fails, or the work is in the thread pool. -/
lemma bindingWrite_cases (flag : Flush) (hin : inOff + inLen ≤ chunk.length)
    (hout : outOff + outLen ≤ s.opts.chunkSize) :
    (∃ f, f ≠ .outOfBounds ∧
      s.bindingWrite flag chunk inOff inLen outOff outLen = s.fail f) ∨
    s.bindingWrite flag chunk inOff inLen outOff outLen = { s with
      writeInProgress := true
      work := some ⟨flag, (chunk.drop inOff).take inLen, ⟨s.buffer, outOff, outLen⟩⟩ } := by
  unfold State.bindingWrite
  split_ifs with _ _ _ _ hbounds
  · exact .inl ⟨_, by simp, rfl⟩
  · exact .inl ⟨_, by simp, rfl⟩
  · exact .inl ⟨_, by simp, rfl⟩
  · exact .inl ⟨_, by simp, rfl⟩
  · omega
  · exact .inr rfl

/-- It does not fail on a context that is there, is not closed and has nothing to do. -/
lemma bindingWrite_eq (hbinding : s.binding = true) (hinit : s.initDone = true)
    (hfinalized : s.finalized = false) (hprogress : s.writeInProgress = false)
    (hin : inOff + inLen ≤ chunk.length) (hout : outOff + outLen ≤ s.opts.chunkSize) :
    s.bindingWrite flag chunk inOff inLen outOff outLen = { s with
      writeInProgress := true
      work := some ⟨flag, (chunk.drop inOff).take inLen, ⟨s.buffer, outOff, outLen⟩⟩ } := by
  unfold State.bindingWrite
  rw [if_neg (by simp [hbinding]), if_neg (by simp [hinit]), if_neg (by simp [hfinalized]),
    if_neg (by simp [hprogress]), if_neg (by omega)]

/-- It fails on one that is not there, or that is closed. -/
lemma bindingWrite_dead (h : s.binding = false ∨ s.finalized = true) :
    (s.bindingWrite flag chunk inOff inLen outOff outLen).fault ≠ none := by
  unfold State.bindingWrite
  split_ifs with hbinding hinit hfinalized
  · simp [State.fail]
  · simp [State.fail]
  · simp [State.fail]
  all_goals exact absurd h (by simp [hbinding, hfinalized])

/-- Nothing else changes. -/
lemma bindingWrite_only (s : State α) (flush : Flush) (chunk : List α)
    (inOff inLen outOff outLen : ℕ) : ∃ fault progress work,
    s.bindingWrite flush chunk inOff inLen outOff outLen =
      { s with fault := fault, writeInProgress := progress, work := work } := by
  unfold State.bindingWrite
  split_ifs <;> exact ⟨_, _, _, rfl⟩

/-! ### The end -/

/-- `_flush` is called after the end, when no chunk is left, and then calls back. -/
structure Ended (s : State α) : Prop where
  flushing : s.flushing = true → s.ending = true ∧ s.queue = []
  flushed : s.flushed = true → s.flushing = true ∧ s.loop = none
  last : s.flushing = true → s.loop = none → s.flushed = true
  emitted : s.endEmitted = true → s.closed = true

namespace Ended

variable {l : Loop α}

lemma opening (h : Ended s) (hending : ¬ s.ending = true) :
    s.flushing = false ∧ s.flushed = false := by
  have hflushing : s.flushing = false :=
    Bool.eq_false_iff.mpr fun hf => hending (h.flushing hf).1
  refine ⟨hflushing, Bool.eq_false_iff.mpr fun hf => ?_⟩
  cases hflushing.symm.trans (h.flushed hf).1

lemma write (h : Ended s) (chunk : List α) : Ended (s.write chunk) := by
  unfold State.write
  split_ifs with hending
  · exact h
  · obtain ⟨hflushing, hflushed⟩ := h.opening hending
    exact ⟨fun hf => (by cases hflushing.symm.trans hf),
      fun hf => (by cases hflushed.symm.trans hf), h.last, h.emitted⟩

lemma flush (h : Ended s) (needDrain : Bool) : Ended (s.flush needDrain) := by
  have hset : Ended { s with flushFlag := .Z_FULL_FLUSH } :=
    ⟨h.flushing, h.flushed, h.last, h.emitted⟩
  unfold State.flush
  split_ifs
  · exact h
  · exact ⟨h.flushing, h.flushed, h.last, h.emitted⟩
  · exact hset.write []

lemma close (hflushing : s.flushing = true → s.ending = true ∧ s.queue = [])
    (hflushed : s.flushed = true → s.flushing = true ∧ s.loop = none)
    (hlast : s.flushing = true → s.loop = none → s.flushed = true) : Ended s.close := by
  unfold State.close State.bindingClose
  split_ifs with hclosed
  · exact ⟨hflushing, hflushed, hlast, fun _ => hclosed⟩
  all_goals exact ⟨hflushing, hflushed, hlast, fun _ => rfl⟩

lemma bindingWrite {flag : Flush} {chunk : List α} {inOff inLen outOff outLen : ℕ}
    (h : Ended s) : Ended (s.bindingWrite flag chunk inOff inLen outOff outLen) := by
  obtain ⟨_, _, _, heq⟩ := bindingWrite_only s flag chunk inOff inLen outOff outLen
  rw [heq]
  exact ⟨h.flushing, h.flushed, h.last, h.emitted⟩

lemma resume {availIn availOut : ℕ} (h : Ended s) (hloop : s.loop = some l) :
    Ended (s.resume l availIn availOut) := by
  have hopen : ∀ p : Prop, s.flushed = true → p := fun p hf => by
    cases hloop.symm.trans (h.flushed hf).2
  unfold State.resume
  dsimp only
  split_ifs
  · exact bindingWrite ⟨h.flushing, hopen _, nofun, h.emitted⟩
  · exact bindingWrite ⟨h.flushing, hopen _, nofun, h.emitted⟩
  · exact ⟨h.flushing, fun hf => ⟨hf, rfl⟩, fun hf _ => hf, h.emitted⟩
  · exact ⟨h.flushing, fun hf => ⟨hf, rfl⟩, fun hf _ => hf, h.emitted⟩

lemma callback {availIn availOut : ℕ} (h : Ended s) (hloop : s.loop = some l) :
    Ended (s.callback l availIn availOut) := by
  unfold State.callback
  split_ifs
  · exact h
  · exact ⟨h.flushing, h.flushed, h.last, h.emitted⟩
  · exact h.resume hloop

lemma step {a : Act α} (h : Ended s) (hs : step s a = some t) : Ended t := by
  have ⟨hflush, hflushed, hlast, hemitted⟩ := h
  cases Goes.of_step hs with
  | write chunk => exact h.write chunk
  | flush needDrain => exact h.flush needDrain
  | finish => exact ⟨fun hf => ⟨rfl, (hflush hf).2⟩, hflushed, hlast, hemitted⟩
  | close => exact close hflush hflushed hlast
  | reset ok =>
    unfold State.bindingReset
    split_ifs <;> exact ⟨hflush, hflushed, hlast, hemitted⟩
  | drain _ _ =>
    have hset : Ended { s with deferred := s.deferred - 1 } := ⟨hflush, hflushed, hlast, hemitted⟩
    exact hset.flush false
  | transform hloop _ hflushing =>
    refine bindingWrite ⟨fun hf => (by cases hflushing.symm.trans hf), fun hf => ?_, nofun,
      hemitted⟩
    cases hflushing.symm.trans (hflushed hf).1
  | prefinish hloop hending hflushing _ =>
    refine bindingWrite ⟨fun _ => ⟨hending, rfl⟩, fun hf => ?_, nofun, hemitted⟩
    cases hflushing.symm.trans (hflushed hf).1
  | fails _ _ => exact ⟨hflush, hflushed, hlast, hemitted⟩
  | after hloop _ _ => exact callback ⟨hflush, hflushed, hlast, hemitted⟩ hloop
  | resume hloop _ => exact h.resume hloop
  | emitEnd _ _ => exact close hflush hflushed hlast

end Ended

lemma ended_init (opts : Options) (memory : ℕ → ℕ → α) : Ended (init opts memory) :=
  ⟨nofun, nofun, nofun, nofun⟩

end NodeCore.Zlib
