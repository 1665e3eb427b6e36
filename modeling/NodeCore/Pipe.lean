import NodeCore.Reentrant

/-!
`Readable.prototype.pipe`: a source that is read into its destinations.

Foreign code is everything but `pipe`, `unpipe`, `flow` and the listeners that these put on the
source and on its destinations: `read` of the source, `write` of the destinations, and all other
listeners. A listener that has been removed may still be called, by an `emit` that is under way.
-/

namespace NodeCore.Pipe

open NodeCore.Reentrant

/-! ### State -/

/-- `state.pipes`, whose arrays are objects. -/
inductive Pipes
  | null
  | one (dest : ℕ)
  | many (array : ℕ)
  deriving DecidableEq

/-- Where a `forEach` over the destinations is: it goes up to the length that the array had. -/
structure Each where
  array : ℕ
  index : ℕ
  length : ℕ
  deriving DecidableEq

inductive Frame (α : Type)
  /-- `dest.emit('pipe', src)`. -/
  | piped
  /-- `src.on('readable', pipeOnReadable)`. -/
  | listening
  /-- `src.read()` of `flow`. -/
  | read
  /-- `dest.write(chunk)` of `flow`, for one destination or in a `forEach`. -/
  | write (chunk : α) (dest : ℕ) (each : Option Each)
  /-- `src.emit('data', chunk)` of `flow`. -/
  | data
  /-- `dest.emit('unpipe', src)`, up to the listener of `pipe`; `owed` says that the destination
  owed a drain. -/
  | unpiped (dest : ℕ) (owed : Bool)
  /-- The destinations that `unpipe()` has still to tell. -/
  | unpipeAll (dests : List (ℕ × Bool))
  | boundary
  deriving DecidableEq

namespace Frame

variable {α : Type}

def isBoundary : Frame α → Bool
  | boundary => true
  | _ => false

def isRead : Frame α → Bool
  | read => true
  | _ => false

def each : Frame α → Option Each
  | write _ _ e => e
  | _ => none

end Frame

structure State (α : Type) where
  pipes : Pipes
  arrays : ℕ → List ℕ
  nextArray : ℕ
  awaitDrain : ℤ
  flowing : Bool
  ranOut : Bool
  /-- The calls of `flow` that `pipe` has scheduled. -/
  ticks : ℕ
  /-- `'end'` has been emitted, and `read()` returns `null`. -/
  ended : Bool
  /-- The chunks that `flow` has read while a destination was piped, and those it has written to
  it. -/
  due : ℕ → List α
  got : ℕ → List α
  /-- The destinations whose `write` has returned `false` to `flow`, and that have neither drained
  nor been unpiped since. -/
  owing : List ℕ
  /-- The destinations that `flow` has written to while they were owing. -/
  overrun : List ℕ

variable {α : Type}

def init : State α where
  pipes := .null
  arrays := fun _ => []
  nextArray := 0
  awaitDrain := 0
  flowing := false
  ranOut := false
  ticks := 0
  ended := false
  due := fun _ => []
  got := fun _ => []
  owing := []
  overrun := []

namespace State

variable (s : State α)

/-- The destinations, as many as `state.pipesCount`. -/
def dests : List ℕ :=
  match s.pipes with
  | .null => []
  | .one d => [d]
  | .many a => s.arrays a

def setArray (a : ℕ) (l : List ℕ) : State α := { s with arrays := Function.update s.arrays a l }

/-! ### `pipe` and `unpipe` -/

/-- `state.pipes` with one more destination. -/
def push (d : ℕ) : State α :=
  match s.pipes with
  | .null => { s with pipes := .one d }
  | .one e => { s.setArray s.nextArray [e, d] with
      pipes := .many s.nextArray, nextArray := s.nextArray + 1 }
  | .many a => s.setArray a (s.arrays a ++ [d])

lemma push_dests (d : ℕ) : (s.push d).dests = s.dests ++ [d] := by
  unfold push dests setArray
  cases hpipes : s.pipes <;> simp

lemma push_frame (d : ℕ) :
    ∃ pipes arrays next, s.push d = { s with pipes := pipes, arrays := arrays, nextArray := next } ∧
      s.nextArray ≤ next ∧ (∀ a, pipes = .many a → s.pipes = .many a ∨ a < next) ∧
      ∀ a, arrays a = s.arrays a ∨ arrays a = s.dests ++ [d] := by
  unfold push dests setArray
  cases hpipes : s.pipes with
  | null => exact ⟨.one d, s.arrays, s.nextArray, rfl, le_rfl, nofun, fun _ => .inl rfl⟩
  | one e =>
    refine ⟨.many s.nextArray, Function.update s.arrays s.nextArray [e, d], s.nextArray + 1, rfl,
      Nat.le_succ _, fun a ha => ?_, fun a => ?_⟩
    · cases ha
      exact .inr (Nat.lt_succ_self _)
    · rcases eq_or_ne a s.nextArray with rfl | hne
      · exact .inr (Function.update_self ..)
      · exact .inl (Function.update_of_ne hne ..)
  | many b =>
    refine ⟨.many b, Function.update s.arrays b (s.arrays b ++ [d]), s.nextArray, by simp,
      le_rfl, fun a ha => .inl ha, fun a => ?_⟩
    rcases eq_or_ne a b with rfl | hne
    · exact .inr (Function.update_self ..)
    · exact .inl (Function.update_of_ne hne ..)

/-- A destination has nothing to be written yet. -/
def fresh (d : ℕ) : State α :=
  { s with due := Function.update s.due d [], got := Function.update s.got d [] }

def pipe (d : ℕ) : Res (State α) (Frame α) := .call ((s.push d).fresh d) [.piped]

/-- The end of `pipe`. -/
def startFlow : Res (State α) (Frame α) := if s.flowing then .ret s else .call s [.listening]

/-- An array of one destination gives way to the destination. -/
def shrink (a : ℕ) : List ℕ → Pipes
  | [e] => .one e
  | _ => .many a

/-- `state.pipes` without a destination that is there. -/
def remove (d : ℕ) : State α :=
  match s.pipes with
  | .null => s
  | .one _ => { s with pipes := .null, flowing := false }
  | .many a =>
    let l := (s.arrays a).erase d
    { s.setArray a l with pipes := shrink a l }

lemma remove_dests {d : ℕ} (hd : d ∈ s.dests) : (s.remove d).dests = s.dests.erase d := by
  unfold dests at hd
  unfold remove dests setArray
  cases hpipes : s.pipes with
  | null =>
    rw [hpipes] at hd
    cases hd
  | one e =>
    rw [hpipes] at hd
    simp [List.mem_singleton.mp hd]
  | many a =>
    dsimp only
    unfold shrink
    split
    · next e heq =>
      split at heq <;> cases heq
    · next e heq =>
      split at heq
      · next e' herase =>
        cases heq
        exact herase.symm
      · cases heq
    · next b heq =>
      split at heq
      · cases heq
      · cases heq
        exact Function.update_self ..

lemma remove_frame (d : ℕ) :
    ∃ pipes arrays flowing, s.remove d = { s with
        pipes := pipes, arrays := arrays, flowing := flowing } ∧
      (∀ a, pipes = .many a → s.pipes = .many a) ∧
      ∀ a, arrays a = s.arrays a ∨ arrays a = (s.arrays a).erase d := by
  unfold remove setArray
  cases hpipes : s.pipes with
  | null => exact ⟨.null, s.arrays, s.flowing, by simp [← hpipes], nofun, fun _ => .inl rfl⟩
  | one e => exact ⟨.null, s.arrays, false, rfl, nofun, fun _ => .inl rfl⟩
  | many b =>
    refine ⟨shrink b ((s.arrays b).erase d), Function.update s.arrays b ((s.arrays b).erase d),
      s.flowing, rfl, fun a ha => ?_, fun a => ?_⟩
    · unfold shrink at ha
      split at ha
      · cases ha
      · exact ha
    · rcases eq_or_ne a b with rfl | hne
      · exact .inr (Function.update_self ..)
      · exact .inl (Function.update_of_ne hne ..)

/-- Destinations that owe no drain any more. -/
def settle (l : List ℕ) : State α := { s with owing := s.owing.filter (· ∉ l) }

/-- The destinations that are to be told that they have been unpiped. -/
def leave (l : List ℕ) : List (ℕ × Bool) := l.map fun d => (d, decide (d ∈ s.owing))

def removeAll : State α := { s with pipes := .null, flowing := false }

/-- The next destination is told. -/
def tell : List (ℕ × Bool) → Res (State α) (Frame α)
  | [] => .ret s
  | (d, owed) :: rest => .call s [.unpiped d owed, .unpipeAll rest]

/-- `unpipe`, of one destination or of all. -/
def unpipe (dest : Option ℕ) : Res (State α) (Frame α) :=
  match s.pipes, dest with
  | .null, _ => .ret s
  | _, none => (s.removeAll.settle s.dests).tell (s.leave s.dests)
  | _, some d => if d ∉ s.dests then .ret s else ((s.remove d).settle [d]).tell (s.leave [d])

/-! ### `flow` -/

/-- The `while` of `flow` ends, or goes on to `src.read()`. -/
def flowLoop : Res (State α) (Frame α) :=
  if s.dests = [] then .call { s with flowing := false } [] else .call s [.read]

def flow : Res (State α) (Frame α) := { s with awaitDrain := 0 }.flowLoop

/-- `read` has returned `null`. -/
def drained : Res (State α) (Frame α) :=
  if s.dests = [] then .call { s with flowing := false } [] else .ret { s with ranOut := true }

/-- `flow` calls `dest.write(chunk)`. -/
def give (chunk : α) (d : ℕ) : State α :=
  { s with
    got := Function.update s.got d (s.got d ++ [chunk])
    overrun := if d ∈ s.owing then s.overrun ++ [d] else s.overrun }

/-- The next round of a `forEach`; a place past the end of the array is not visited. -/
def each (chunk : α) (e : Each) : Res (State α) (Frame α) :=
  match ((s.arrays e.array).take e.length)[e.index]? with
  | none => .call s [.data]
  | some d => .call (s.give chunk d) [.write chunk d (some { e with index := e.index + 1 })]

/-- The destinations are due a chunk that has been read. -/
def dueAll (chunk : α) : State α :=
  { s with due := fun d => if d ∈ s.dests then s.due d ++ [chunk] else s.due d }

/-- `flow` writes a chunk; there is a destination to write it to. -/
def deliver (chunk : α) : Res (State α) (Frame α) :=
  let s := s.dueAll chunk
  match s.pipes with
  | .null => .ret s
  | .one d => .call (s.give chunk d) [.write chunk d none]
  | .many a => s.each chunk ⟨a, 0, (s.arrays a).length⟩

/-- `write` has returned, `false` if the destination is full. -/
def written (d : ℕ) (full : Bool) : State α :=
  if full then { s with awaitDrain := s.awaitDrain + 1, owing := s.owing ++ [d] } else s

/-- `flow` after `src.emit('data', chunk)`. -/
def nextChunk : Res (State α) (Frame α) := if s.awaitDrain > 0 then .ret s else s.flowLoop

/-- `ondrain`. -/
def ondrain : Res (State α) (Frame α) :=
  let s := { s with awaitDrain := s.awaitDrain - 1 }
  if s.awaitDrain = 0 then s.flow else .ret s

/-- The last lines of `cleanup`; `waits` says that the destination may need a drain. -/
def cleanup (waits : Bool) : Res (State α) (Frame α) := if waits then s.ondrain else .ret s

end State

/-! ### Steps -/

/-- What follows foreign code that returns: a chunk or `null` from `read`, and from the rest `full`:
`write` has returned `false`, or the destination may need a drain. -/
def exec (chunk : Option α) (full : Bool) (s : State α) : Frame α → Res (State α) (Frame α)
  | .piped => s.startFlow
  | .listening => .ret { s with flowing := true, ticks := s.ticks + 1 }
  | .read =>
    match chunk with
    | none => s.drained
    | some chunk => s.deliver chunk
  | .write _ d none => .call (s.written d full) [.data]
  | .write chunk d (some e) => (s.written d full).each chunk e
  | .data => s.nextChunk
  | .unpiped _ _ => s.cleanup full
  | .unpipeAll dests => s.tell dests
  | .boundary => .ret s

/-- An exception is handed to the foreign code that called. -/
def unwind (s : State α) (k : List (Frame α)) : Machine (State α) (Frame α) :=
  ⟨s, (k.dropWhile fun f => !f.isBoundary).tail⟩

/-- Foreign code returns to the frame that called it. -/
def returned (m : Machine (State α) (Frame α)) (chunk : Option α) (full : Bool) :
    Option (Machine (State α) (Frame α)) :=
  match m.stack with
  | [] => none
  | .boundary :: k => some { m with stack := k }
  | f :: k =>
    if f.isRead && chunk.isSome && m.st.ended then none
    -- `state.pipes.forEach`, of `null`
    else if f.isRead && chunk.isSome && m.st.dests = [] then some (unwind m.st k)
    else
      match exec chunk full m.st f with
      | .ret s => some (resume (exec none false) Frame.isBoundary s k)
      | .call s fs => some ⟨s, fs ++ k⟩

/-- The foreign code of a caller returns, or what has been read goes to no array, or the frame is
gone on with. -/
lemma returned_cases {m m' : Machine (State α) (Frame α)} {chunk : Option α} {full : Bool}
    (h : returned m chunk full = some m') :
    (∃ k, m.stack = .boundary :: k ∧ m' = ⟨m.st, k⟩) ∨
      (∃ k, m.stack = .read :: k ∧ chunk ≠ none ∧ m' = unwind m.st k) ∨
        ∃ f k, m.stack = f :: k ∧ (f.isRead = true → chunk ≠ none → m.st.ended = false) ∧
          ((∃ s, exec chunk full m.st f = .ret s ∧
              m' = resume (exec none false) Frame.isBoundary s k) ∨
            ∃ s fs, exec chunk full m.st f = .call s fs ∧ m' = ⟨s, fs ++ k⟩) := by
  unfold returned at h
  split at h
  · cases h
  · next k hstack =>
    cases h
    exact .inl ⟨k, hstack, rfl⟩
  · next f k _ hstack =>
    right
    split_ifs at h with hended hnone
    · cases h
      rw [Bool.and_eq_true, Bool.and_eq_true] at hnone
      have hread : f = .read := by
        cases f with
        | read => rfl
        | _ => cases hnone.1.1
      refine .inl ⟨k, hread ▸ hstack, ?_, rfl⟩
      exact Option.isSome_iff_ne_none.mp hnone.1.2
    · refine .inr ⟨f, k, hstack, fun hread hchunk => ?_, ?_⟩
      · rw [hread, Option.isSome_iff_ne_none.mpr hchunk] at hended
        simpa using hended
      · split at h
        · next s heq =>
          cases h
          exact .inl ⟨s, heq, rfl⟩
        · next s fs heq =>
          cases h
          exact .inr ⟨s, fs, heq, rfl⟩

inductive Act (α : Type)
  | pipe (dest : ℕ)
  /-- Also what the listeners of `'error'`, `'close'` and `'finish'` do. -/
  | unpipe (dest : Option ℕ)
  /-- A destination emits `'drain'`. -/
  | drain (dest : ℕ)
  /-- The source emits `'readable'`. -/
  | readable
  | tick
  /-- The source emits `'end'`. -/
  | ends
  /-- `'end'` reaches the listener of a destination that is not to be ended. -/
  | release (dest : ℕ) (waits : Bool)
  | ret (chunk : Option α) (full : Bool)
  | throw
  deriving DecidableEq

def step (m : Machine (State α) (Frame α)) : Act α → Option (Machine (State α) (Frame α))
  | .pipe d => some (enter .boundary m (m.st.pipe d))
  | .unpipe d => some (enter .boundary m (m.st.unpipe d))
  | .drain d => some (enter .boundary m (m.st.settle [d]).ondrain)
  | .readable =>
    if m.st.ranOut then some (enter .boundary m { m.st with ranOut := false }.flow) else some m
  | .tick =>
    if m.stack ≠ [] || m.st.ticks = 0 then none
    else some (enter .boundary m { m.st with ticks := m.st.ticks - 1 }.flow)
  | .ends => some { m with st := { m.st with ended := true } }
  | .release _ waits =>
    if m.st.ended then some (enter .boundary m (m.st.cleanup waits)) else none
  | .ret chunk full => returned m chunk full
  | .throw => if m.stack = [] then none else some (unwind m.st m.stack)

def start : Machine (State α) (Frame α) := ⟨init, []⟩

end NodeCore.Pipe
