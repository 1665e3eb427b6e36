import NodeCore.OpenFile
import NodeCore.Reentrant

/-!
`fs.WriteStream`: what becomes of the chunks that are written to it.

`Writable` hands it one chunk at a time. It calls back after one write(2), whatever that has
written, and has moved its position by the length of the chunk before.
-/

namespace NodeCore.FsWriteStream

open NodeCore.Reentrant

abbrev Bytes := List UInt8

/-- A chunk, as `decodeChunk` leaves it. -/
inductive Chunk
  | buffer (data : Bytes)
  | other (length : ℕ)
  deriving DecidableEq

def Chunk.length : Chunk → ℕ
  | .buffer data => data.length
  | .other length => length

def Chunk.data : Chunk → Bytes
  | .buffer data => data
  | .other _ => []

/-- What a call of `_write` waits for. -/
inductive Pending
  /-- It listens on `'open'`. -/
  | opening (data : Bytes)
  /-- `fs.write`, with a position if there is one. -/
  | request (data : Bytes) (pos : Option ℕ)
  /-- `'Invalid data'`: it never calls back. -/
  | invalid (length : ℕ)
  deriving DecidableEq

def Pending.chunk : Pending → Chunk
  | .opening data | .request data _ => .buffer data
  | .invalid length => .other length

/-- Nobody but the stream itself closes it. -/
structure WriteStream where
  /-- `fs.open` has not called back. -/
  opening : Bool
  /-- It is a number. -/
  fd : Bool
  pos : Option ℕ
  bytesWritten : ℕ
  file : OpenFile UInt8
  /-- `ending` and `ended`. -/
  ended : Bool
  finished : Bool
  length : ℕ
  /-- The call of `_write` that has not called back. -/
  writing : Option Pending
  writelen : ℕ
  corked : ℕ
  buffer : List Chunk
  pendingcb : ℕ
  /-- Proof-only: the chunks that `write` has accepted. -/
  accepted : List Chunk
  /-- Proof-only: how much each `fs.write` was to write, and how much it has written. -/
  writes : List (ℕ × ℕ)

/-- The option `start`, and a `fd` that is given. -/
def WriteStream.create (file : OpenFile UInt8) (start : Option ℕ) (fd : Bool) : WriteStream where
  opening := !fd
  fd := fd
  pos := start
  bytesWritten := 0
  file := file
  ended := false
  finished := false
  length := 0
  writing := none
  writelen := 0
  corked := 0
  buffer := []
  pendingcb := 0
  accepted := []
  writes := []

namespace WriteStream

variable (x : WriteStream)

/-- `_write`, once the file is open. -/
def request (data : Bytes) : WriteStream :=
  { x with writing := some (.request data x.pos), pos := x.pos.map (· + data.length) }

def _write : Chunk → WriteStream
  | .other length => { x with writing := some (.invalid length) }
  | .buffer data =>
    if x.fd then x.request data else { x with writing := some (.opening data) }

def doWrite (chunk : Chunk) : WriteStream := { x with writelen := chunk.length }._write chunk

/-- `_write` does not call back before it returns, so the loop ends with the first chunk. -/
def clearBuffer : WriteStream :=
  match x.buffer with
  | [] => x
  | chunk :: rest => { x with buffer := rest }.doWrite chunk

def write (chunk : Chunk) : WriteStream :=
  if x.ended then x
  else
    let x := { x with
      pendingcb := x.pendingcb + 1
      length := x.length + chunk.length
      accepted := x.accepted ++ [chunk] }
    if x.writing.isSome || 0 < x.corked then { x with buffer := x.buffer ++ [chunk] }
    else x.doWrite chunk

def uncork : WriteStream :=
  if 0 < x.corked then
    let x := { x with corked := x.corked - 1 }
    if x.writing = none ∧ x.corked = 0 ∧ x.finished = false then x.clearBuffer else x
  else x

def needFinish : Bool := x.ended && x.length = 0 && !x.finished && x.writing = none

/-- `onwrite`, up to the callbacks of the user. -/
def onwrite (er : Bool) : WriteStream :=
  let x := { x with
    writing := none
    length := x.length - x.writelen
    writelen := 0
    pendingcb := x.pendingcb - 1 }
  if !er && !x.needFinish && x.corked = 0 then x.clearBuffer else x

end WriteStream

/-- The callbacks and listeners of the user run between the steps. Those of `'finish'`, which may
run before `end` returns, write nothing. -/
inductive Act
  | opened
  | write (chunk : Chunk)
  | cork
  | uncork
  | end
  /-- write(2) has written so much, or has failed. -/
  | wrote (result : Option ℕ)
  /-- In `finishMaybe`. -/
  | finish
  deriving DecidableEq

/-- What write(2) may return. It is not called for nothing, and 0 is passed on. -/
def Returns (data : Bytes) : Option ℕ → Prop
  | none => data ≠ []
  | some n => n ≤ data.length ∧ (n = 0 ↔ data = [])

instance (data : Bytes) : DecidablePred (Returns data)
  | none => inferInstanceAs (Decidable (data ≠ []))
  | some n => inferInstanceAs (Decidable (n ≤ data.length ∧ (n = 0 ↔ data = [])))

/-- `write(2)`, and the callback of `fs.write`. -/
def WriteStream.wrote (x : WriteStream) (data : Bytes) (pos : Option ℕ) (result : Option ℕ) :
    WriteStream :=
  let x := { x with writes := x.writes ++ [(data.length, result.getD 0)] }
  match result with
  -- `destroy`
  | none => { x with fd := false }.onwrite true
  | some n =>
    { x with
      file := if n = 0 then x.file else x.file.write 0 pos (data.take n)
      bytesWritten := x.bytesWritten + n }.onwrite false

def step (x : WriteStream) : Act → Option WriteStream
  | .opened =>
    if x.opening then
      let x := { x with opening := false }
      match x.writing with
      | some (.opening data) => some ({ x with fd := true }.request data)
      -- a `close` may wait for `'open'` as well
      | _ => some { x with fd := !x.finished }
    else none
  | .write chunk => some (x.write chunk)
  | .cork => some { x with corked := x.corked + 1 }
  | .uncork => some x.uncork
  | .end =>
    let x := if 0 < x.corked then { x with corked := 1 }.uncork else x
    some { x with ended := true }
  | .wrote result =>
    match x.writing with
    | some (.request data pos) =>
      if Returns data result then some (x.wrote data pos result) else none
    | _ => none
  -- `close` listens on `'finish'`
  | .finish =>
    if x.needFinish ∧ x.pendingcb = 0 then some { x with finished := true, fd := false } else none

def run (file : OpenFile UInt8) (start : Option ℕ) (fd : Bool) (acts : List Act) :
    Option WriteStream := acts.foldlM step (.create file start fd)

/-! ### The claim -/

/-- The data in the file, at consecutive positions. -/
def receive (file : OpenFile UInt8) (pos : Option ℕ) (data : Bytes) : OpenFile UInt8 :=
  if data = [] then file else file.write 0 pos data

/-- The bytes of all chunks. -/
def WriteStream.data (x : WriteStream) : Bytes := x.accepted.flatMap Chunk.data

/-- **What is claimed** of a stream that has finished. -/
def Received (file : OpenFile UInt8) (start : Option ℕ) (x : WriteStream) : Prop :=
  x.file.bytes = (receive file start x.data).bytes ∧ x.bytesWritten = x.data.length

/-- Every write(2) has written all that it was asked to. -/
def Full (x : WriteStream) : Prop := ∀ w ∈ x.writes, w.2 = w.1

instance : DecidablePred Full := fun x => inferInstanceAs (Decidable (∀ w ∈ x.writes, w.2 = w.1))

/-! ### The file -/

section File

variable {file : OpenFile UInt8} {pos : Option ℕ} {a b : Bytes}

/-- One write behind another is one write. -/
lemma overlay_overlay (l : Bytes) (p : ℕ) (a b : Bytes) :
    OpenFile.overlay 0 (OpenFile.overlay 0 l p a) (p + a.length) b =
      OpenFile.overlay 0 l p (a ++ b) := by
  obtain ⟨front, hfront⟩ : ∃ front, front = l.take p ++ List.replicate (p - l.length) 0 ++ a :=
    ⟨_, rfl⟩
  have hlen : front.length = p + a.length := by
    rw [hfront, List.length_append, List.length_append, List.length_take, List.length_replicate]
    omega
  rw [← hlen]
  unfold OpenFile.overlay
  rw [← hfront, ← hlen]
  have hoverlay := OpenFile.overlay_prefix 0 front (l.drop front.length) b
  unfold OpenFile.overlay at hoverlay
  rw [hoverlay, List.drop_drop, hlen, hfront, List.length_append]
  simp only [List.append_assoc, Nat.add_assoc]

lemma receive_append : receive (receive file pos a) (pos.map (· + a.length)) b =
    receive file pos (a ++ b) := by
  by_cases ha : a = []
  · subst ha
    cases pos <;> rfl
  by_cases hb : b = []
  · subst hb
    rw [List.append_nil]
    exact if_pos rfl
  have hab : a ++ b ≠ [] := fun hc => ha (List.append_eq_nil_iff.mp hc).1
  unfold receive
  rw [if_neg ha, if_neg hb, if_neg hab]
  obtain ⟨bytes, offset, append⟩ := file
  unfold OpenFile.write
  cases append with
  | true => simp
  | false =>
    cases pos with
    | none => simp [overlay_overlay, Nat.add_assoc]
    | some p => simp [overlay_overlay]

end File

/-! ### Runs -/

/-- What has come of the chunks in `datas`, when those in `left` wait. -/
structure Good (file : OpenFile UInt8) (start : Option ℕ) (datas : List Bytes) (left : List Chunk)
    (x : WriteStream) : Prop where
  accepted : x.accepted.Perm (datas.map .buffer ++ (x.writing.map Pending.chunk).toList ++ left)
  order : Full x →
    x.accepted = datas.map .buffer ++ (x.writing.map Pending.chunk).toList ++ left
  pendingcb : x.pendingcb = x.writing.toList.length + left.length
  writes : x.writes.map Prod.fst = datas.map List.length
  le : ∀ w ∈ x.writes, w.2 ≤ w.1
  bytesWritten : x.bytesWritten = (x.writes.map Prod.snd).sum
  pos : x.pos = start.map (· + (datas.flatten.length +
    match x.writing with
    | some (.request data _) => data.length
    | _ => 0))
  position : ∀ data p, x.writing = some (.request data p) →
    p = start.map (· + datas.flatten.length)
  file : Full x → x.file = receive file start datas.flatten

section Runs

variable {file : OpenFile UInt8} {start : Option ℕ} {datas : List Bytes} {left : List Chunk}
  {x y : WriteStream} {chunk : Chunk}

/-- What `Good` is about. -/
def WriteStream.books (x : WriteStream) :
    List Chunk × Option Pending × ℕ × List (ℕ × ℕ) × ℕ × Option ℕ × OpenFile UInt8 :=
  (x.accepted, x.writing, x.pendingcb, x.writes, x.bytesWritten, x.pos, x.file)

/-- A step that is about something else. -/
lemma Good.same (h : Good file start datas left x) (hbooks : y.books = x.books) :
    Good file start datas left y := by
  simp only [WriteStream.books, Prod.mk.injEq] at hbooks
  obtain ⟨haccepted, hwriting, hpending, hwrites, hbytes, hpos, hfile⟩ := hbooks
  have hfull : Full y ↔ Full x := by rw [Full, Full, hwrites]
  refine ⟨?_, fun hy => ?_, ?_, ?_, ?_, ?_, ?_, ?_, fun hy => ?_⟩
  · rw [haccepted, hwriting]
    exact h.accepted
  · rw [haccepted, hwriting]
    exact h.order (hfull.mp hy)
  · rw [hpending, hwriting]
    exact h.pendingcb
  · rw [hwrites]
    exact h.writes
  · rw [hwrites]
    exact h.le
  · rw [hbytes, hwrites]
    exact h.bytesWritten
  · rw [hpos, hwriting]
    exact h.pos
  · rw [hwriting]
    exact h.position
  · rw [hfile]
    exact h.file (hfull.mp hy)

/-- The file is open, and the position moves. -/
lemma Good.request (h : Good file start datas left x) {data : Bytes}
    (hwriting : x.writing = some (.opening data)) :
    Good file start datas left (x.request data) := by
  have haccepted := h.accepted
  have horder := h.order
  have hcount := h.pendingcb
  have hpos := h.pos
  rw [hwriting] at haccepted horder hcount hpos
  refine ⟨haccepted, horder, hcount, h.writes, h.le, h.bytesWritten, ?_, fun _ _ he => ?_, h.file⟩
  · show x.pos.map _ = _
    rw [hpos, Option.map_map]
    exact congrArg (Option.map · start) (funext fun n => Nat.add_assoc _ _ _)
  · obtain ⟨rfl, rfl⟩ := Pending.request.inj (Option.some.inj he)
    exact hpos

lemma Good.doWrite (h : Good file start datas (chunk :: left) x) (hidle : x.writing = none) :
    Good file start datas left (x.doWrite chunk) := by
  have haccepted := h.accepted
  have horder := h.order
  have hpending := h.pendingcb
  have hpos := h.pos
  rw [hidle] at haccepted horder hpending hpos
  have hmove : datas.map .buffer ++ (Option.map Pending.chunk none).toList ++ chunk :: left =
      datas.map .buffer ++ [chunk] ++ left := by
    simp
  rw [hmove] at haccepted horder
  have hcount : x.pendingcb = 1 + left.length := by
    rw [hpending, List.length_cons]
    exact (Nat.zero_add _).trans (Nat.add_comm _ _)
  unfold WriteStream.doWrite WriteStream._write
  cases chunk with
  | other length =>
    exact ⟨haccepted, horder, hcount, h.writes, h.le, h.bytesWritten, hpos,
      fun _ _ he => (by cases he), h.file⟩
  | buffer data =>
    have hopening : Good file start datas left { x with
        writelen := data.length
        writing := some (.opening data) } :=
      ⟨haccepted, horder, hcount, h.writes, h.le, h.bytesWritten, hpos,
        fun _ _ he => (by cases he), h.file⟩
    dsimp only
    split_ifs
    · exact (hopening.request rfl).same rfl
    · exact hopening

/-- What `doWrite` leaves as it is. -/
lemma doWrite_frame (x : WriteStream) (chunk : Chunk) :
    (x.doWrite chunk).writing ≠ none ∧ (x.doWrite chunk).buffer = x.buffer ∧
      (x.doWrite chunk).writes = x.writes := by
  unfold WriteStream.doWrite WriteStream._write
  cases chunk with
  | other length => exact ⟨Option.some_ne_none _, rfl, rfl⟩
  | buffer data =>
    dsimp only
    split_ifs
    · exact ⟨Option.some_ne_none _, rfl, rfl⟩
    · exact ⟨Option.some_ne_none _, rfl, rfl⟩

/-- What waits will be written, unless the stream has ended. -/
def Busy (x : WriteStream) : Prop :=
  x.buffer ≠ [] → x.writing ≠ none ∨ 0 < x.corked ∨ x.ended = true

/-- **The invariant.** -/
def Sound (file : OpenFile UInt8) (start : Option ℕ) (x : WriteStream) : Prop :=
  (∃ datas, Good file start datas x.buffer x) ∧ (Full x → Busy x)

lemma sound_clearBuffer (h : Good file start datas x.buffer x) (hidle : x.writing = none) :
    Sound file start x.clearBuffer := by
  unfold WriteStream.clearBuffer
  cases hbuffer : x.buffer with
  | nil => exact ⟨⟨datas, h⟩, fun _ hne => absurd hbuffer hne⟩
  | cons chunk rest =>
    rw [hbuffer] at h
    have hrest : Good file start datas (chunk :: rest) { x with buffer := rest } := h.same rfl
    obtain ⟨hbusy, hsame, -⟩ := doWrite_frame { x with buffer := rest } chunk
    refine ⟨⟨datas, ?_⟩, fun _ _ => .inl hbusy⟩
    dsimp only
    rw [hsame]
    exact hrest.doWrite hidle

lemma Sound.write (h : Sound file start x) (chunk : Chunk) : Sound file start (x.write chunk) := by
  obtain ⟨⟨datas, h⟩, hmoving⟩ := h
  unfold WriteStream.write
  split_ifs with hended
  · exact ⟨⟨datas, h⟩, hmoving⟩
  obtain ⟨y, hy⟩ : ∃ y : WriteStream, y = { x with
      pendingcb := x.pendingcb + 1
      length := x.length + chunk.length
      accepted := x.accepted ++ [chunk] } := ⟨_, rfl⟩
  have hgood : Good file start datas (x.buffer ++ [chunk]) y := by
    rw [hy]
    refine ⟨?_, fun hfull => ?_, ?_, h.writes, h.le, h.bytesWritten, h.pos, h.position, h.file⟩
    · dsimp only
      rw [← List.append_assoc]
      exact h.accepted.append_right [chunk]
    · dsimp only
      rw [h.order hfull, List.append_assoc]
    · dsimp only
      rw [h.pendingcb, List.length_append, List.length_singleton, Nat.add_assoc]
  have hbuffer : y.buffer = x.buffer := by rw [hy]
  have hwrites : y.writes = x.writes := by rw [hy]
  have hwriting : y.writing = x.writing := by rw [hy]
  have hcorked : y.corked = x.corked := by rw [hy]
  rw [← hy]
  dsimp only
  split_ifs with hbusy
  · refine ⟨⟨datas, ?_⟩, fun _ _ => ?_⟩
    · rw [hbuffer]
      exact hgood.same rfl
    · rw [Bool.or_eq_true, decide_eq_true_eq, Option.isSome_iff_ne_none] at hbusy
      exact hbusy.imp_right .inl
  · rw [Bool.or_eq_true, decide_eq_true_eq, Option.isSome_iff_ne_none, not_or, not_not] at hbusy
    obtain ⟨hframe, hsame, hlog⟩ := doWrite_frame y chunk
    refine ⟨⟨datas, ?_⟩, fun _ _ => .inl hframe⟩
    rw [hsame, hbuffer]
    refine Good.doWrite ?_ hbusy.1
    refine ⟨?_, fun hfull => ?_, ?_, hgood.writes, hgood.le, hgood.bytesWritten, hgood.pos,
      hgood.position, hgood.file⟩
    · refine hgood.accepted.trans (List.Perm.append_left _ ?_)
      exact List.perm_append_singleton chunk x.buffer
    · -- nothing is overtaken
      have hnil : x.buffer = [] := by
        by_contra hne
        have hx : Full x := by rwa [Full, ← hwrites]
        rcases hmoving hx hne with hw | hc | he
        · exact hw (hwriting ▸ hbusy.1)
        · exact hbusy.2 (hcorked ▸ hc)
        · exact hended he
      rw [hgood.order hfull, hnil]
      rfl
    · rw [hgood.pendingcb, List.length_append]
      rfl

lemma Sound.uncork (h : Sound file start x) (hfinished : x.finished = true → x.ended = true) :
    Sound file start x.uncork := by
  obtain ⟨⟨datas, h⟩, hmoving⟩ := h
  unfold WriteStream.uncork
  split_ifs with hcorked
  · obtain ⟨y, hy⟩ : ∃ y : WriteStream, y = { x with corked := x.corked - 1 } := ⟨_, rfl⟩
    have hgood : Good file start datas y.buffer y := by
      rw [hy]
      exact h.same rfl
    have hended : y.finished = true → y.ended = true := by rw [hy]; exact hfinished
    rw [← hy]
    dsimp only
    split_ifs with hclear
    · exact sound_clearBuffer hgood hclear.1
    · refine ⟨⟨datas, hgood⟩, fun _ _ => ?_⟩
      by_contra hnone
      rw [not_or, not_or, not_not, Nat.not_lt, Nat.le_zero] at hnone
      refine hclear ⟨hnone.1, hnone.2.1, Bool.eq_false_of_not_eq_true fun hc => ?_⟩
      exact hnone.2.2 (hended hc)
  · exact ⟨⟨datas, h⟩, hmoving⟩

/-- A write that has come back. -/
lemma Good.wrote (h : Good file start datas x.buffer x) {data : Bytes} {pos : Option ℕ}
    {result : Option ℕ} (hwriting : x.writing = some (.request data pos))
    (hreturns : Returns data result) (hidle : y.writing = none)
    (haccepted : y.accepted = x.accepted)
    (hpending : y.pendingcb = x.pendingcb - 1)
    (hwrites : y.writes = x.writes ++ [(data.length, result.getD 0)])
    (hbytes : y.bytesWritten = x.bytesWritten + result.getD 0) (hpos : y.pos = x.pos)
    (hfile : ∀ n, result = some n → n = data.length → y.file = receive x.file pos data) :
    Good file start (datas ++ [data]) x.buffer y := by
  have hle : result.getD 0 ≤ data.length := by
    cases result with
    | none => exact Nat.zero_le _
    | some n => exact hreturns.1
  have hcount := h.pendingcb
  have hposition := h.pos
  have hmove : datas.map .buffer ++ (x.writing.map Pending.chunk).toList ++ x.buffer =
      (datas ++ [data]).map .buffer ++ (y.writing.map Pending.chunk).toList ++ x.buffer := by
    rw [hwriting, hidle]
    simp [Pending.chunk]
  have hfull : Full y → Full x := fun hy w hw => hy w (hwrites ▸ List.mem_append_left _ hw)
  rw [hwriting] at hcount hposition
  refine ⟨?_, fun hy => ?_, ?_, ?_, fun w hw => ?_, ?_, ?_, fun _ _ he => ?_, fun hy => ?_⟩
  · rw [haccepted, ← hmove]
    exact h.accepted
  · rw [haccepted, ← hmove]
    exact h.order (hfull hy)
  · rw [hpending, hcount, hidle]
    show 1 + x.buffer.length - 1 = 0 + x.buffer.length
    omega
  · rw [hwrites, List.map_append, List.map_append, h.writes]
    rfl
  · rw [hwrites, List.mem_append, List.mem_singleton] at hw
    rcases hw with hw | rfl
    · exact h.le w hw
    · exact hle
  · rw [hbytes, hwrites, h.bytesWritten, List.map_append, List.sum_append]
    rfl
  · rw [hpos, hposition, hidle, List.flatten_append, List.length_append, List.flatten_singleton]
    rfl
  · rw [hidle] at he
    cases he
  · have hlast := hy _ (hwrites ▸ List.mem_append_right _ (List.mem_singleton_self _))
    cases result with
    | none => exact absurd (List.length_eq_zero_iff.mp hlast.symm) hreturns
    | some n =>
      rw [hfile n rfl hlast, h.file (hfull hy), h.position data pos hwriting, receive_append,
        List.flatten_append, List.flatten_singleton]

lemma Sound.wrote (h : Sound file start x) {data : Bytes} {pos : Option ℕ} {result : Option ℕ}
    (hwriting : x.writing = some (.request data pos)) (hreturns : Returns data result) :
    Sound file start (x.wrote data pos result) := by
  obtain ⟨⟨datas, h⟩, hmoving⟩ := h
  cases result with
  | none =>
    have hfailed : ¬ Full { x with writes := x.writes ++ [(data.length, 0)] } := fun hfull => by
      have hlast := hfull _ (List.mem_append_right _ (List.mem_singleton_self _))
      exact hreturns (List.length_eq_zero_iff.mp hlast.symm)
    exact ⟨⟨datas ++ [data], h.wrote hwriting hreturns rfl rfl rfl rfl rfl rfl
      fun n hn => by cases hn⟩, fun hfull => absurd hfull hfailed⟩
  | some n =>
    obtain ⟨y, hy⟩ : ∃ y : WriteStream, y = { x with
        writes := x.writes ++ [(data.length, n)]
        file := if n = 0 then x.file else x.file.write 0 pos (data.take n)
        bytesWritten := x.bytesWritten + n
        writing := none
        length := x.length - x.writelen
        writelen := 0
        pendingcb := x.pendingcb - 1 } := ⟨_, rfl⟩
    have hgood : Good file start (datas ++ [data]) y.buffer y := by
      rw [hy]
      refine h.wrote hwriting hreturns rfl rfl rfl rfl rfl rfl fun m hm hlen => ?_
      obtain rfl := Option.some.inj hm
      dsimp only
      rw [receive, hlen, List.take_length]
      by_cases hdata : data = []
      · rw [if_pos hdata, if_pos (by rw [hdata]; rfl)]
      · rw [if_neg hdata, if_neg fun hc => hdata (List.length_eq_zero_iff.mp hc)]
    have hidle : y.writing = none := by rw [hy]
    have heq : x.wrote data pos (some n) =
        if !false && !y.needFinish && y.corked = 0 then y.clearBuffer else y := by
      rw [hy]
      rfl
    rw [heq]
    split_ifs with hclear
    · exact sound_clearBuffer hgood hidle
    · refine ⟨⟨_, hgood⟩, fun _ _ => .inr ?_⟩
      by_contra hnone
      rw [not_or, Nat.not_lt, Nat.le_zero] at hnone
      have hneed : y.needFinish = false := by
        rw [WriteStream.needFinish, Bool.eq_false_of_not_eq_true hnone.2]
        rfl
      exact hclear (by simp [hneed, hnone.1])

lemma Sound.opened (h : Sound file start x) (hs : step x .opened = some y) :
    Sound file start y := by
  obtain ⟨⟨datas, h⟩, hmoving⟩ := h
  rw [step] at hs
  split_ifs at hs
  dsimp only at hs
  split at hs
  · next data hwriting =>
    obtain rfl := Option.some.inj hs
    have hopened : Good file start datas x.buffer { x with opening := false, fd := true } :=
      h.same rfl
    exact ⟨⟨datas, hopened.request hwriting⟩, fun _ _ => .inl (Option.some_ne_none _)⟩
  · obtain rfl := Option.some.inj hs
    exact ⟨⟨datas, h.same rfl⟩, hmoving⟩

/-! ### The end of a stream -/

/-- Both streams have ended, or none has; both have finished, or none has. -/
def Flags (x y : WriteStream) : Prop := y.ended = x.ended ∧ y.finished = x.finished

lemma flags_doWrite (x : WriteStream) (chunk : Chunk) : Flags x (x.doWrite chunk) := by
  unfold WriteStream.doWrite WriteStream._write
  cases chunk with
  | other length => exact ⟨rfl, rfl⟩
  | buffer data =>
    dsimp only
    split_ifs
    · exact ⟨rfl, rfl⟩
    · exact ⟨rfl, rfl⟩

lemma flags_clearBuffer (x : WriteStream) : Flags x x.clearBuffer := by
  unfold WriteStream.clearBuffer
  cases x.buffer with
  | nil => exact ⟨rfl, rfl⟩
  | cons chunk rest => exact flags_doWrite { x with buffer := rest } chunk

lemma flags_uncork (x : WriteStream) : Flags x x.uncork := by
  unfold WriteStream.uncork
  dsimp only
  split_ifs
  · exact flags_clearBuffer { x with corked := x.corked - 1 }
  · exact ⟨rfl, rfl⟩
  · exact ⟨rfl, rfl⟩

lemma flags_onwrite (x : WriteStream) (er : Bool) : Flags x (x.onwrite er) := by
  unfold WriteStream.onwrite
  dsimp only
  split_ifs
  · exact flags_clearBuffer _
  · exact ⟨rfl, rfl⟩

lemma flags_write (x : WriteStream) (chunk : Chunk) : Flags x (x.write chunk) := by
  unfold WriteStream.write
  dsimp only
  split_ifs
  · exact ⟨rfl, rfl⟩
  · exact ⟨rfl, rfl⟩
  · exact flags_doWrite { x with
      pendingcb := x.pendingcb + 1
      length := x.length + chunk.length
      accepted := x.accepted ++ [chunk] } chunk

lemma flags_wrote (x : WriteStream) (data : Bytes) (pos result : Option ℕ) :
    Flags x (x.wrote data pos result) := by
  unfold WriteStream.wrote
  cases result with
  | none => exact flags_onwrite _ true
  | some n => exact flags_onwrite _ false

/-- A stream that has finished has ended. -/
lemma ended_step {a : Act} (h : x.finished = true → x.ended = true) (hs : step x a = some y) :
    y.finished = true → y.ended = true := by
  have hflags : ∀ {z : WriteStream}, Flags x z → z.finished = true → z.ended = true :=
    fun hz hf => hz.1.trans (h (hz.2.symm.trans hf))
  cases a with
  | opened =>
    rw [step] at hs
    split_ifs at hs
    dsimp only at hs
    split at hs
    all_goals
      obtain rfl := Option.some.inj hs
      exact h
  | write chunk =>
    obtain rfl := Option.some.inj hs
    exact hflags (flags_write x chunk)
  | cork =>
    obtain rfl := Option.some.inj hs
    exact h
  | uncork =>
    obtain rfl := Option.some.inj hs
    exact hflags (flags_uncork x)
  | «end» =>
    obtain rfl := Option.some.inj hs
    exact fun _ => rfl
  | wrote result =>
    rw [step] at hs
    split at hs
    · split_ifs at hs
      obtain rfl := Option.some.inj hs
      exact hflags (flags_wrote x _ _ result)
    · cases hs
  | finish =>
    rw [step] at hs
    split_ifs at hs with hneed
    obtain rfl := Option.some.inj hs
    intro _
    have hended := hneed.1
    simp only [WriteStream.needFinish, Bool.and_eq_true] at hended
    exact hended.1.1.1

lemma Sound.end (h : Sound file start x) (hfinished : x.finished = true → x.ended = true)
    (hs : step x .end = some y) : Sound file start y := by
  obtain rfl := Option.some.inj hs
  have hx : Sound file start (if 0 < x.corked then { x with corked := 1 }.uncork else x) := by
    split_ifs with hcorked
    · obtain ⟨⟨datas, h⟩, hmoving⟩ := h
      refine Sound.uncork (x := { x with corked := 1 }) ⟨⟨datas, h.same rfl⟩, fun _ _ => ?_⟩
        hfinished
      exact .inr (.inl Nat.zero_lt_one)
    · exact h
  obtain ⟨⟨datas, h⟩, -⟩ := hx
  exact ⟨⟨datas, h.same rfl⟩, fun _ _ => .inr (.inr rfl)⟩

lemma Sound.step {a : Act} (h : Sound file start x) (hfinished : x.finished = true → x.ended = true)
    (hs : step x a = some y) : Sound file start y := by
  have hsame := h
  obtain ⟨⟨datas, hgood⟩, hmoving⟩ := h
  cases a with
  | opened => exact hsame.opened hs
  | write chunk =>
    obtain rfl := Option.some.inj hs
    exact hsame.write chunk
  | cork =>
    obtain rfl := Option.some.inj hs
    exact ⟨⟨datas, hgood.same rfl⟩, fun _ _ => .inr (.inl (Nat.succ_pos _))⟩
  | uncork =>
    obtain rfl := Option.some.inj hs
    exact hsame.uncork hfinished
  | «end» => exact hsame.end hfinished hs
  | wrote result =>
    rw [FsWriteStream.step] at hs
    cases hwriting : x.writing with
    | none =>
      rw [hwriting] at hs
      cases hs
    | some p =>
      rw [hwriting] at hs
      cases p with
      | opening data => cases hs
      | invalid length => cases hs
      | request data pos =>
        dsimp only at hs
        split_ifs at hs with hreturns
        obtain rfl := Option.some.inj hs
        exact hsame.wrote hwriting hreturns
  | finish =>
    rw [FsWriteStream.step] at hs
    split_ifs at hs
    obtain rfl := Option.some.inj hs
    exact ⟨⟨datas, hgood.same rfl⟩, hmoving⟩

lemma sound_of_run {fd : Bool} {acts : List Act} (h : run file start fd acts = some x) :
    Sound file start x ∧ (x.finished = true → x.ended = true) := by
  have hrun : Run step (fun _ _ _ => True) (.create file start fd) x := .of_foldlM h
  refine hrun.invariant (I := fun x => Sound file start x ∧ (x.finished = true → x.ended = true))
    ⟨⟨⟨[], ?_⟩, fun _ hne => absurd rfl hne⟩, fun hf => (by cases hf)⟩
    fun n a n' hn hs _ => ⟨hn.1.step hn.2 hs, ended_step hn.2 hs⟩
  refine ⟨.refl _, fun _ => rfl, rfl, rfl, fun w hw => (by cases hw), rfl, ?_,
    fun _ _ he => (by cases he), fun _ => (if_pos rfl).symm⟩
  cases start <;> rfl

/-- Nothing is missing in the sum, so nothing is missing anywhere. -/
lemma eq_of_sum_eq {ws : List (ℕ × ℕ)} (hle : ∀ w ∈ ws, w.2 ≤ w.1)
    (h : (ws.map Prod.snd).sum = (ws.map Prod.fst).sum) : ∀ w ∈ ws, w.2 = w.1 := by
  induction ws with
  | nil => exact fun w hw => absurd hw List.not_mem_nil
  | cons w ws ih =>
    obtain ⟨hw, hle⟩ := List.forall_mem_cons.mp hle
    have hrest : (ws.map Prod.snd).sum ≤ (ws.map Prod.fst).sum := List.sum_le_sum hle
    rw [List.map_cons, List.map_cons, List.sum_cons, List.sum_cons] at h
    exact List.forall_mem_cons.mpr ⟨by omega, ih hle (by omega)⟩

/-- **When a stream writes all there is.** -/
theorem received_iff {fd : Bool} {acts : List Act} (h : run file start fd acts = some x)
    (hfinished : x.finished = true ∧ x.pendingcb = 0) : Received file start x ↔ Full x := by
  obtain ⟨⟨datas, hgood⟩, -⟩ := (sound_of_run h).1
  have hcount := hgood.pendingcb
  rw [hfinished.2] at hcount
  have hidle : x.writing = none := by
    cases hw : x.writing with
    | none => rfl
    | some p =>
      rw [hw] at hcount
      exact absurd hcount (by simp; omega)
  have hbuffer : x.buffer = [] := by
    rw [hidle] at hcount
    exact List.length_eq_zero_iff.mp (by simpa using hcount.symm)
  have hall : datas.map .buffer ++ (x.writing.map Pending.chunk).toList ++ x.buffer =
      datas.map .buffer := by
    rw [hidle, hbuffer]
    simp
  have haccepted := hgood.accepted
  have horder := hgood.order
  rw [hall] at haccepted horder
  have hdata : (datas.map Chunk.buffer).flatMap Chunk.data = datas.flatten := by
    rw [List.flatMap_map]
    exact List.flatMap_id'
  have htotal : x.data.length = (x.writes.map Prod.fst).sum := by
    rw [hgood.writes, ← List.length_flatten, ← hdata]
    exact (haccepted.flatMap_right Chunk.data).length_eq
  constructor
  · rintro ⟨-, hbytes⟩
    rw [htotal, hgood.bytesWritten] at hbytes
    exact eq_of_sum_eq hgood.le hbytes
  · intro hfull
    refine ⟨?_, ?_⟩
    · rw [hgood.file hfull, WriteStream.data, horder hfull, hdata]
    · rw [htotal, hgood.bytesWritten]
      exact congrArg List.sum (List.map_congr_left hfull)

/-- A stream with a start that writes two chunks, of which the second waits for the first. -/
theorem received_iff_two : ∃ x, run ⟨[1, 2, 3, 4, 5], 0, false⟩ (some 1) false
    [.write (.buffer [7]), .write (.buffer [8, 9]), .opened, .end, .wrote (some 1), .wrote (some 2),
      .finish] = some x ∧ Received ⟨[1, 2, 3, 4, 5], 0, false⟩ (some 1) x := by
  have hrun : run ⟨[1, 2, 3, 4, 5], 0, false⟩ (some 1) false
    [.write (.buffer [7]), .write (.buffer [8, 9]), .opened, .end, .wrote (some 1), .wrote (some 2),
      .finish] = some _ := rfl
  exact ⟨_, hrun, (received_iff hrun ⟨rfl, rfl⟩).mpr (by decide)⟩

/-- One byte of two is written, and the stream finishes. -/
theorem not_received_short : ¬ ∀ (file : OpenFile UInt8) (start : Option ℕ) (fd : Bool)
    (acts : List Act) (x : WriteStream), run file start fd acts = some x →
      x.finished = true ∧ x.pendingcb = 0 → Received file start x := by
  intro h
  have hbytes := (h ⟨[], 0, false⟩ none false [.opened, .write (.buffer [7, 8]), .wrote (some 1),
    .end, .finish] _ rfl ⟨rfl, rfl⟩).2
  exact absurd hbytes (by decide)

end Runs

end NodeCore.FsWriteStream
