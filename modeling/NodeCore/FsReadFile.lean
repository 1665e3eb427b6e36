import NodeCore.Encoding
import NodeCore.Memory

/-!
`fs.readFile` and `fs.readFileSync`: the same file read by a chain of callbacks and by a loop.
-/

namespace NodeCore.FsReadFile

open NodeCore.Encoding (Str Bytes)
open NodeCore.Memory

variable {E : Type}

/-! ### The program -/

/-- `Buffer::kMaxLength`. -/
def kMaxLength : ℕ := 0x3fffffff

inductive Error (E : Type)
  | system (e : E)
  /-- What `new Buffer` throws. -/
  | rangeError
  deriving DecidableEq

/-- What the calls of the system do. -/
structure System (E : Type) where
  openError : Option E
  /-- The size that is reported. -/
  fstat : Except E ℕ
  closeError : Option E
  /-- The `k`-th read, of `n` bytes when `left` bytes of the file are left. -/
  read (k n left : ℕ) : Except E ℕ
  /-- No bytes say that the file ends. -/
  read_pos {k n left m : ℕ} : 0 < n → 0 < left → read k n left = .ok m → 0 < m
  read_le {k n left m : ℕ} : read k n left = .ok m → m ≤ n ∧ m ≤ left

/-- What is read: a buffer, or a string when there is an encoding. -/
inductive Data
  | buffer (b : Bytes)
  | string (s : Str)
  deriving DecidableEq

/-- The encoding, with what `toString` makes of it. -/
def deliver (encoding : Option (Bytes → Str)) (b : Bytes) : Data :=
  match encoding with
  | some toString => .string (toString b)
  | none => .buffer b

/-- The variables of both functions. -/
structure Vars where
  buffer : ℕ → UInt8
  buffers : List Bytes
  pos : ℕ

/-- What new buffers hold, the `k`-th of them. -/
abbrev Fresh := ℕ → ℕ → UInt8

/-- `Buffer.concat`. -/
def concat (fresh : ℕ → UInt8) (list : List Bytes) (length : ℕ) : Except (Error E) Bytes :=
  match list with
  | [] => .ok []
  | [b] => .ok b
  | list =>
    if kMaxLength < length then .error .rangeError
    else .ok (load (store fresh 0 (list.flatten.take length)) 0 length)

/-- The data once the file is closed. -/
def collect (fresh : Fresh) (size : ℕ) (v : Vars) : Except (Error E) Bytes :=
  if size = 0 then concat (fresh 0) v.buffers v.pos
  else if v.pos < size then .ok (load v.buffer 0 v.pos)
  else .ok (load v.buffer 0 size)

/-- Where a read puts the bytes, and how many there may be. -/
def request (size : ℕ) (v : Vars) : ℕ × ℕ := if size = 0 then (0, 8192) else (v.pos, size - v.pos)

/-- What a read has put into the buffer, which is a new one for every read when the size is
unknown. -/
def fill (fresh : Fresh) (size k : ℕ) (v : Vars) (b : Bytes) : Vars :=
  { v with
    buffer := store (if size = 0 then fresh (k + 1) else v.buffer) (request size v).1 b }

/-- What becomes of a call. -/
inductive Result (E : Type)
  /-- The callback is called with an error, or returns it. -/
  | failed (e : Error E)
  | data (d : Data)
  /-- A callback of `readFile` has thrown: its own callback is never called. -/
  | uncaught (e : Error E)
  deriving DecidableEq

structure Outcome (E : Type) where
  result : Result E
  closes : ℕ
  deriving DecidableEq

section

variable (sys : System E) (fresh : Fresh) (size : ℕ)

/-- `close`, with the callback of `fs.close`. An error is passed on together with the data. -/
def close (encoding : Option (Bytes → Str)) (v : Vars) : Outcome E :=
  match collect fresh size v, sys.closeError with
  | .error e, _ => ⟨.uncaught e, 1⟩
  | .ok _, some er => ⟨.failed (.system er), 1⟩
  | .ok b, none => ⟨.data (deliver encoding b), 1⟩

/-- `read` and `afterRead`, when `left` is what has not been read. -/
def read (encoding : Option (Bytes → Str)) (k : ℕ) (left : Bytes) (v : Vars) : Outcome E :=
  match _h : sys.read k (request size v).2 left.length with
  | .error e => ⟨.failed (.system e), 1⟩
  | .ok bytesRead =>
    let v := fill fresh size k v (left.take bytesRead)
    if _hz : bytesRead = 0 then close sys fresh size encoding v
    else if size ≠ 0 then
      let v := { v with pos := v.pos + bytesRead }
      if v.pos = size then close sys fresh size encoding v
      else read encoding (k + 1) (left.drop bytesRead) v
    else
      read encoding (k + 1) (left.drop bytesRead)
        { v with pos := v.pos + bytesRead, buffers := v.buffers ++ [load v.buffer 0 bytesRead] }
  termination_by left.length
  decreasing_by
    all_goals
      have := sys.read_le _h
      rw [List.length_drop]
      omega

/-- The loop of `readFileSync`: the error that is thrown, or the variables at the end. -/
def readLoop (k : ℕ) (left : Bytes) (v : Vars) : Except E Vars :=
  match _h : sys.read k (request size v).2 left.length with
  | .error e => .error e
  | .ok bytesRead =>
    let v := fill fresh size k v (left.take bytesRead)
    let v :=
      if size = 0 ∧ bytesRead ≠ 0 then
        { v with buffers := v.buffers ++ [load v.buffer 0 bytesRead] }
      else v
    let v := { v with pos := v.pos + bytesRead }
    if _hd : bytesRead = 0 ∨ size ≠ 0 ∧ size ≤ v.pos then .ok v
    else readLoop (k + 1) (left.drop bytesRead) v
  termination_by left.length
  decreasing_by
    have := sys.read_le _h
    rw [List.length_drop]
    omega

end

/-- A buffer of the size is made before the first read unless that is 0. -/
def start (fresh : Fresh) : Vars := ⟨fresh 0, [], 0⟩

def readFile (sys : System E) (fresh : Fresh) (encoding : Option (Bytes → Str)) (content : Bytes) :
    Outcome E :=
  match sys.openError, sys.fstat with
  | some er, _ => ⟨.failed (.system er), 0⟩
  | none, .error er => ⟨.failed (.system er), 0⟩
  | none, .ok size =>
    if kMaxLength < size then ⟨.uncaught .rangeError, 0⟩
    else read sys fresh size encoding 0 content (start fresh)

/-- `fs.closeSync` in a `finally`: what it throws comes in place of `e`. -/
def closing (sys : System E) (e : E) : Outcome E :=
  ⟨.failed (.system (sys.closeError.getD e)), 1⟩

def readFileSync (sys : System E) (fresh : Fresh) (encoding : Option (Bytes → Str))
    (content : Bytes) : Outcome E :=
  match sys.openError, sys.fstat with
  | some e, _ => ⟨.failed (.system e), 0⟩
  | none, .error e => closing sys e
  | none, .ok size =>
    if kMaxLength < size then ⟨.failed .rangeError, 0⟩
    else
      match readLoop sys fresh size 0 content (start fresh) with
      | .error e => closing sys e
      | .ok v =>
        match sys.closeError, collect fresh size v with
        | some e, _ => ⟨.failed (.system e), 1⟩
        | none, .error e => ⟨.failed e, 1⟩
        | none, .ok b => ⟨.data (deliver encoding b), 1⟩

/-! ### The claim -/

/-- The same data, or the same error of the system. -/
inductive Same : Result E → Result E → Prop
  | data (d : Data) : Same (.data d) (.data d)
  | failed (e : E) : Same (.failed (.system e)) (.failed (.system e))

/-- **What is claimed.** Both come to the same, and close the file once if it has been opened. -/
structure Agree (sys : System E) (a s : Outcome E) : Prop where
  same : Same a.result s.result
  closed : sys.openError = none → a.closes = 1 ∧ s.closes = 1

/-- How many bytes a read may give when `pos` have been read. -/
def wanted (size pos : ℕ) : ℕ := if size = 0 then 8192 else size - pos

/-- The `k`-th read or a later one fails with `e`. -/
inductive ReadFails (sys : System E) (size : ℕ) (e : E) : ℕ → ℕ → ℕ → Prop
  | now {k pos left : ℕ} (read : sys.read k (wanted size pos) left = .error e) :
    ReadFails sys size e k pos left
  | later {k pos left m : ℕ} (read : sys.read k (wanted size pos) left = .ok m) (some : m ≠ 0)
    (more : size = 0 ∨ pos + m ≠ size) (rest : ReadFails sys size e (k + 1) (pos + m) (left - m)) :
    ReadFails sys size e k pos left

/-- No buffer is too large, and no error of `fs.close` comes upon another of a read. -/
structure Fair (sys : System E) (content : Bytes) (size : ℕ) : Prop where
  fits : size ≤ kMaxLength
  close : ∀ e, ReadFails sys size e 0 0 content.length → sys.closeError.getD e = e
  concat : size = 0 → kMaxLength < content.length → ∃ e, ReadFails sys size e 0 0 content.length

/-! ### What both read -/

section

variable (sys : System E) (size : ℕ)

/-- All that is read behind `got`. -/
def readAll (k : ℕ) (got left : Bytes) : Except E Bytes :=
  match _h : sys.read k (wanted size got.length) left.length with
  | .error e => .error e
  | .ok m =>
    if _hz : m = 0 then .ok got
    else if size ≠ 0 ∧ got.length + m = size then .ok (got ++ left.take m)
    else readAll (k + 1) (got ++ left.take m) (left.drop m)
  termination_by left.length
  decreasing_by
    have := sys.read_le _h
    rw [List.length_drop]
    omega

end

variable {sys : System E} {fresh : Fresh} {size k : ℕ} {encoding : Option (Bytes → Str)}
  {got left : Bytes} {v : Vars} {m : ℕ} {e : E}

lemma readAll_error (h : sys.read k (wanted size got.length) left.length = .error e) :
    readAll sys size k got left = .error e := by
  rw [readAll]
  split <;> simp_all

lemma readAll_zero (h : sys.read k (wanted size got.length) left.length = .ok 0) :
    readAll sys size k got left = .ok got := by
  rw [readAll]
  split <;> simp_all

lemma readAll_more (h : sys.read k (wanted size got.length) left.length = .ok m) (hm : m ≠ 0) :
    readAll sys size k got left =
      if size ≠ 0 ∧ got.length + m = size then .ok (got ++ left.take m)
      else readAll sys size (k + 1) (got ++ left.take m) (left.drop m) := by
  rw [readAll]
  split
  · simp_all
  · rename_i m' h'
    obtain rfl : m = m' := Except.ok.inj (h.symm.trans h')
    rw [dif_neg hm]

/-- The variables when `got` has been read. -/
structure Holds (size : ℕ) (v : Vars) (got : Bytes) : Prop where
  pos : v.pos = got.length
  le : size ≠ 0 → v.pos ≤ size
  single : size ≠ 0 → load v.buffer 0 v.pos = got
  list : size = 0 → v.buffers.flatten = got
  short : size = 0 → ∀ b ∈ v.buffers, b.length ≤ 8192

lemma Holds.request (h : Holds size v got) : (request size v).2 = wanted size got.length := by
  unfold FsReadFile.request wanted
  split_ifs
  · rfl
  · rw [h.pos]

/-- The variables after a read of `b`. -/
def next (fresh : Fresh) (size k : ℕ) (v : Vars) (b : Bytes) : Vars :=
  let w := fill fresh size k v b
  { w with
    pos := v.pos + b.length
    buffers := if size = 0 then v.buffers ++ [load w.buffer 0 b.length] else v.buffers }

lemma next_unknown (hs : size = 0) (b : Bytes) : next fresh size k v b =
    { fill fresh size k v b with
      pos := v.pos + b.length
      buffers := v.buffers ++ [load (fill fresh size k v b).buffer 0 b.length] } := by
  simp only [next, if_pos hs]

lemma next_known (hs : size ≠ 0) (b : Bytes) :
    next fresh size k v b = { fill fresh size k v b with pos := v.pos + b.length } := by
  simp only [next, if_neg hs]
  rfl

lemma Holds.next (h : Holds size v got) {b : Bytes} (hb : b.length ≤ wanted size got.length) :
    Holds size (next fresh size k v b) (got ++ b) := by
  by_cases hs : size = 0
  · have hload : load (fill fresh size k v b).buffer 0 b.length = b := by
      unfold fill FsReadFile.request
      rw [if_pos hs, if_pos hs]
      exact load_store _ 0 b
    refine ⟨?_, fun hne => absurd hs hne, fun hne => absurd hs hne, fun _ => ?_,
      fun _ c hc => ?_⟩
    · rw [List.length_append, ← h.pos]
      rfl
    · show (if size = 0 then _ else _ : List Bytes).flatten = _
      rw [if_pos hs, hload, List.flatten_append, h.list hs, List.flatten_singleton]
    · have hmem : c ∈ (if size = 0 then
          v.buffers ++ [load (fill fresh size k v b).buffer 0 b.length] else v.buffers) := hc
      rw [if_pos hs, hload] at hmem
      rcases List.mem_append.mp hmem with hmem | hmem
      · exact h.short hs c hmem
      · rw [List.mem_singleton.mp hmem]
        rwa [wanted, if_pos hs] at hb
  · have hle := h.le hs
    rw [wanted, if_neg hs, ← h.pos] at hb
    have hbuffer : (fill fresh size k v b).buffer = store v.buffer v.pos b := by
      unfold fill FsReadFile.request
      rw [if_neg hs, if_neg hs]
    refine ⟨?_, fun _ => ?_, fun _ => ?_, fun he => absurd he hs, fun he => absurd he hs⟩
    · rw [List.length_append, ← h.pos]
      rfl
    · show v.pos + b.length ≤ size
      omega
    · show load (fill fresh size k v b).buffer 0 (v.pos + b.length) = got ++ b
      rw [hbuffer, load_add, load_store_apart (.inl (by omega)), h.single hs, Nat.zero_add,
        load_store]

/-- A read of nothing. -/
lemma Holds.last (h : Holds size v got) : Holds size (fill fresh size k v []) got := by
  refine ⟨h.pos, h.le, fun hs => ?_, h.list, h.short⟩
  unfold fill
  rw [if_neg hs, store_nil]
  exact h.single hs

/-! ### The callbacks -/

section

variable (h : Holds size v got)

include h

lemma read_error (hr : sys.read k (wanted size got.length) left.length = .error e) :
    read sys fresh size encoding k left v = ⟨.failed (.system e), 1⟩ := by
  rw [read]
  split <;> simp_all [h.request]

lemma read_zero (hr : sys.read k (wanted size got.length) left.length = .ok 0) :
    read sys fresh size encoding k left v =
      close sys fresh size encoding (fill fresh size k v []) := by
  rw [read]
  split
  · simp_all [h.request]
  · rename_i m' h'
    rw [h.request] at h'
    obtain rfl : 0 = m' := Except.ok.inj (hr.symm.trans h')
    rw [dif_pos rfl, List.take_zero]

lemma read_more (hr : sys.read k (wanted size got.length) left.length = .ok m) (hm : m ≠ 0) :
    read sys fresh size encoding k left v =
      if size ≠ 0 ∧ got.length + m = size then
        close sys fresh size encoding (next fresh size k v (left.take m))
      else
        read sys fresh size encoding (k + 1) (left.drop m)
          (next fresh size k v (left.take m)) := by
  have hlen : (left.take m).length = m := List.length_take_of_le (sys.read_le hr).2
  rw [read]
  split
  · simp_all [h.request]
  · rename_i m' h'
    rw [h.request] at h'
    obtain rfl : m = m' := Except.ok.inj (hr.symm.trans h')
    rw [dif_neg hm]
    by_cases hs : size = 0
    · rw [if_neg (by simp [hs]), if_neg (by simp [hs]), next_unknown hs, hlen]
      rfl
    · have hpos : (fill fresh size k v (left.take m)).pos = got.length := h.pos
      rw [if_pos hs, next_known hs, hlen, ← hpos]
      simp only [ne_eq, hs, not_false_eq_true, true_and]
      rfl

lemma readLoop_error (hr : sys.read k (wanted size got.length) left.length = .error e) :
    readLoop sys fresh size k left v = .error e := by
  rw [readLoop]
  split <;> simp_all [h.request]

lemma readLoop_zero (hr : sys.read k (wanted size got.length) left.length = .ok 0) :
    readLoop sys fresh size k left v = .ok (fill fresh size k v []) := by
  rw [readLoop]
  split
  · simp_all [h.request]
  · rename_i m' h'
    rw [h.request] at h'
    obtain rfl : 0 = m' := Except.ok.inj (hr.symm.trans h')
    rw [dif_pos (.inl rfl), if_neg (by simp)]
    rfl

lemma readLoop_more (hr : sys.read k (wanted size got.length) left.length = .ok m) (hm : m ≠ 0) :
    readLoop sys fresh size k left v =
      if size ≠ 0 ∧ got.length + m = size then .ok (next fresh size k v (left.take m))
      else readLoop sys fresh size (k + 1) (left.drop m) (next fresh size k v (left.take m)) := by
  have hle := sys.read_le hr
  have hlen : (left.take m).length = m := List.length_take_of_le hle.2
  rw [readLoop]
  split
  · simp_all [h.request]
  · rename_i m' h'
    rw [h.request] at h'
    obtain rfl : m = m' := Except.ok.inj (hr.symm.trans h')
    by_cases hs : size = 0
    · simp only [hs, hm, ne_eq, not_true_eq_false, not_false_eq_true, and_self, false_and,
        or_self, if_true, if_false, dif_neg, next_unknown, hlen]
      rfl
    · have hend : m = 0 ∨ size ≠ 0 ∧ size ≤ v.pos + m ↔ size ≠ 0 ∧ got.length + m = size := by
        have hw := hle.1
        rw [wanted, if_neg hs] at hw
        have hpos := h.pos
        have hbound := h.le hs
        omega
      rw [next_known hs, hlen, ← if_congr hend rfl rfl]
      simp only [hs, false_and, if_false, dite_eq_ite]
      rfl

end

lemma wanted_of_read (hr : sys.read k (wanted size got.length) left.length = .ok m) :
    (left.take m).length ≤ wanted size got.length := by
  rw [List.length_take_of_le (sys.read_le hr).2]
  exact (sys.read_le hr).1

/-- Both functions read what `readAll` reads. -/
lemma read_eq (fresh fresh' : Fresh) (encoding : Option (Bytes → Str)) {v' : Vars}
    (h : Holds size v got) (h' : Holds size v' got) :
    (∀ e, readAll sys size k got left = .error e →
      read sys fresh size encoding k left v = ⟨.failed (.system e), 1⟩ ∧
      readLoop sys fresh' size k left v' = .error e) ∧
    ∀ all, readAll sys size k got left = .ok all → ∃ w w', Holds size w all ∧ Holds size w' all ∧
      read sys fresh size encoding k left v = close sys fresh size encoding w ∧
      readLoop sys fresh' size k left v' = .ok w' := by
  induction hlen : left.length using Nat.strongRecOn generalizing k got left v v' with
  | _ n ih =>
    subst hlen
    cases hr : sys.read k (wanted size got.length) left.length with
    | error e =>
      rw [readAll_error hr, read_error h hr, readLoop_error h' hr]
      refine ⟨fun e' he => ?_, fun all ha => by cases ha⟩
      obtain rfl := Except.error.inj he
      exact ⟨rfl, rfl⟩
    | ok m =>
      by_cases hm : m = 0
      · subst hm
        rw [readAll_zero hr, read_zero h hr, readLoop_zero h' hr]
        refine ⟨fun e he => (by cases he), fun all ha => ?_⟩
        obtain rfl := Except.ok.inj ha
        exact ⟨_, _, h.last, h'.last, rfl, rfl⟩
      · have hnext : Holds size (next fresh size k v (left.take m)) (got ++ left.take m) :=
          h.next (wanted_of_read hr)
        have hnext' : Holds size (next fresh' size k v' (left.take m)) (got ++ left.take m) :=
          h'.next (wanted_of_read hr)
        rw [readAll_more hr hm, read_more h hr hm, readLoop_more h' hr hm]
        by_cases hend : size ≠ 0 ∧ got.length + m = size
        · rw [if_pos hend, if_pos hend, if_pos hend]
          refine ⟨fun e he => (by cases he), fun all ha => ?_⟩
          obtain rfl := Except.ok.inj ha
          exact ⟨_, _, hnext, hnext', rfl, rfl⟩
        · have hle := sys.read_le hr
          rw [if_neg hend, if_neg hend, if_neg hend]
          exact ih (left.drop m).length (by rw [List.length_drop]; omega) hnext hnext' rfl

/-- Of an unknown size all is read. -/
lemma readAll_unknown {all : Bytes} (h : readAll sys 0 k got left = .ok all) :
    all = got ++ left := by
  induction hlen : left.length using Nat.strongRecOn generalizing k got left with
  | _ n ih =>
    subst hlen
    cases hr : sys.read k (wanted 0 got.length) left.length with
    | error e =>
      rw [readAll_error hr] at h
      cases h
    | ok m =>
      by_cases hm : m = 0
      · subst hm
        rw [readAll_zero hr] at h
        obtain rfl := Except.ok.inj h
        have hnil : left = [] := by
          by_contra hne
          exact absurd (sys.read_pos (by simp [wanted]) (List.length_pos_iff.mpr hne) hr)
            (Nat.lt_irrefl 0)
        rw [hnil, List.append_nil]
      · have hle := sys.read_le hr
        rw [readAll_more hr hm, if_neg (by simp)] at h
        rw [ih (left.drop m).length (by rw [List.length_drop]; omega) h rfl, List.append_assoc,
          List.take_append_drop]

/-- `ReadFails` says of the numbers when `readAll` fails. -/
lemma readAll_fails : readAll sys size k got left = .error e ↔
    ReadFails sys size e k got.length left.length := by
  induction hlen : left.length using Nat.strongRecOn generalizing k got left with
  | _ n ih =>
    subst hlen
    cases hr : sys.read k (wanted size got.length) left.length with
    | error e' =>
      rw [readAll_error hr]
      constructor
      · intro he
        obtain rfl := Except.error.inj he
        exact .now hr
      · intro hf
        cases hf with
        | now hr' => rw [Except.error.inj (hr.symm.trans hr')]
        | later hr' => cases hr.symm.trans hr'
    | ok m =>
      have hle := sys.read_le hr
      by_cases hm : m = 0
      · subst hm
        rw [readAll_zero hr]
        refine ⟨fun he => (by cases he), fun hf => ?_⟩
        cases hf with
        | now hr' => cases hr.symm.trans hr'
        | later hr' hne =>
          exact absurd (Except.ok.inj (hr.symm.trans hr')).symm hne
      · rw [readAll_more hr hm]
        have hlen : (got ++ left.take m).length = got.length + m := by
          rw [List.length_append, List.length_take_of_le hle.2]
        by_cases hend : size ≠ 0 ∧ got.length + m = size
        · rw [if_pos hend]
          refine ⟨fun he => (by cases he), fun hf => ?_⟩
          cases hf with
          | now hr' => cases hr.symm.trans hr'
          | later hr' hne more rest =>
            obtain rfl := Except.ok.inj (hr.symm.trans hr')
            omega
        · rw [if_neg hend, ih (left.drop m).length (by rw [List.length_drop]; omega) rfl, hlen,
            List.length_drop]
          constructor
          · exact fun hf => .later hr hm (by omega) hf
          · intro hf
            cases hf with
            | now hr' => cases hr.symm.trans hr'
            | later hr' hne more rest =>
              obtain rfl := Except.ok.inj (hr.symm.trans hr')
              exact rest

/-! ### What both make of it -/

lemma flatten_length_le {l : List Bytes} {n : ℕ} (h : ∀ b ∈ l, b.length ≤ n) :
    l.flatten.length ≤ l.length * n := by
  rw [List.length_flatten]
  have hsum := List.sum_le_card_nsmul (l.map List.length) n (by simpa using h)
  simpa using hsum

/-- Only a list of buffers can be too long. -/
lemma Holds.collect (h : Holds size v got) : collect fresh size v =
    if size = 0 ∧ kMaxLength < got.length then (.error .rangeError : Except (Error E) Bytes)
    else .ok got := by
  unfold FsReadFile.collect
  by_cases hs : size = 0
  · have hlist := h.list hs
    have hshort := flatten_length_le (h.short hs)
    rw [hlist] at hshort
    rw [if_pos hs]
    rcases hl : v.buffers with _ | ⟨b, _ | ⟨c, l⟩⟩
    · rw [hl] at hlist
      obtain rfl : got = [] := hlist.symm
      rw [if_neg (by simp)]
      rfl
    · rw [hl, List.flatten_singleton] at hlist
      have hmax : kMaxLength = 0x3fffffff := rfl
      rw [hl, List.length_singleton] at hshort
      rw [if_neg (by omega), ← hlist]
      rfl
    · show (if kMaxLength < v.pos then _ else _) = _
      rw [← hl, hlist, h.pos]
      by_cases hmax : kMaxLength < got.length
      · rw [if_pos hmax, if_pos ⟨hs, hmax⟩]
      · rw [if_neg hmax, if_neg fun hc => hmax hc.2, List.take_length, load_store]
  · have hle := h.le hs
    have hload := h.single hs
    rw [if_neg hs, if_neg (show ¬ (size = 0 ∧ kMaxLength < got.length) from fun hc => hs hc.1)]
    by_cases hlt : v.pos < size
    · rw [if_pos hlt, hload]
    · have heq : size = v.pos := by omega
      rw [if_neg hlt, heq, hload]

lemma close_ok (h : collect fresh size v = (.ok got : Except (Error E) Bytes)) :
    close sys fresh size encoding v = match sys.closeError with
      | some er => ⟨.failed (.system er), 1⟩
      | none => ⟨.data (deliver encoding got), 1⟩ := by
  unfold close
  rw [h]
  cases sys.closeError <;> rfl

/-! ### The claim is settled -/

lemma holds_start (fresh : Fresh) (size : ℕ) : Holds size (start fresh) [] :=
  ⟨rfl, fun _ => Nat.zero_le _, fun _ => rfl, fun _ => rfl, fun _ b hb => by cases hb⟩

variable {content : Bytes}

section

variable (fresh fresh' : Fresh) (ho : sys.openError = none) (hf : sys.fstat = .ok size)
  (hs : size ≤ kMaxLength)

include ho hf hs

/-- The file is open and its size can be had. -/
lemma readFile_eq : readFile sys fresh encoding content =
    read sys fresh size encoding 0 content (start fresh) := by
  unfold readFile
  rw [ho, hf]
  exact if_neg (by omega)

lemma readFileSync_error (hr : readLoop sys fresh size 0 content (start fresh) = .error e) :
    readFileSync sys fresh encoding content = closing sys e := by
  unfold readFileSync
  rw [ho, hf]
  dsimp only
  rw [if_neg (by omega), hr]

lemma readFileSync_ok (hr : readLoop sys fresh size 0 content (start fresh) = .ok v) :
    readFileSync sys fresh encoding content =
      match sys.closeError, collect fresh size v with
      | some e, _ => ⟨.failed (.system e), 1⟩
      | none, .error e => ⟨.failed e, 1⟩
      | none, .ok b => ⟨.data (deliver encoding b), 1⟩ := by
  unfold readFileSync
  rw [ho, hf]
  dsimp only
  rw [if_neg (by omega), hr]

/-- With a read that fails, both fail with its error unless another one comes upon it. -/
lemma agree_of_fails (hr : readAll sys size 0 [] content = .error e) :
    Agree sys (readFile sys fresh encoding content) (readFileSync sys fresh' encoding content) ↔
      sys.closeError.getD e = e := by
  obtain ⟨hread, hloop⟩ :=
    (read_eq fresh fresh' encoding (holds_start fresh size) (holds_start fresh' size)).1 e hr
  rw [readFile_eq fresh ho hf hs, hread, readFileSync_error fresh' ho hf hs hloop]
  constructor
  · rintro ⟨hsame, -⟩
    cases he : sys.closeError with
    | none => rfl
    | some er =>
      unfold closing at hsame
      rw [he] at hsame
      generalize (some er).getD e = e' at hsame ⊢
      cases hsame
      rfl
  · intro he
    unfold closing
    rw [he]
    exact ⟨.failed e, fun _ => ⟨rfl, rfl⟩⟩

/-- With all read, both have the same data unless there is too much of it. -/
lemma agree_of_all {all : Bytes} (hr : readAll sys size 0 [] content = .ok all) :
    Agree sys (readFile sys fresh encoding content) (readFileSync sys fresh' encoding content) ↔
      ¬ (size = 0 ∧ kMaxLength < all.length) := by
  obtain ⟨w, w', hw, hw', hread, hloop⟩ :=
    (read_eq fresh fresh' encoding (holds_start fresh size) (holds_start fresh' size)).2 all hr
  have hcollect : collect fresh size w = (_ : Except (Error E) Bytes) := hw.collect
  have hcollect' : collect fresh' size w' = (_ : Except (Error E) Bytes) := hw'.collect
  rw [readFile_eq fresh ho hf hs, hread, readFileSync_ok fresh' ho hf hs hloop]
  by_cases hlong : size = 0 ∧ kMaxLength < all.length
  · rw [if_pos hlong] at hcollect
    refine ⟨fun hagree => ?_, fun hn => absurd hlong hn⟩
    have hsame := hagree.same
    unfold close at hsame
    rw [hcollect] at hsame
    cases hsame
  · rw [if_neg hlong] at hcollect hcollect'
    refine ⟨fun _ => hlong, fun _ => ?_⟩
    rw [close_ok hcollect, hcollect']
    cases sys.closeError with
    | none => exact ⟨.data _, fun _ => ⟨rfl, rfl⟩⟩
    | some er => exact ⟨.failed er, fun _ => ⟨rfl, rfl⟩⟩

end

/-- **The two agree** when the file cannot be opened, or its size can be had and is fair. -/
theorem agree_iff (sys : System E) (fresh fresh' : Fresh) (encoding : Option (Bytes → Str))
    (content : Bytes) :
    Agree sys (readFile sys fresh encoding content) (readFileSync sys fresh' encoding content) ↔
      sys.openError ≠ none ∨ ∃ size, sys.fstat = .ok size ∧ Fair sys content size := by
  cases ho : sys.openError with
  | some er =>
    refine ⟨fun _ => .inl (by simp), fun _ => ?_⟩
    unfold readFile readFileSync
    rw [ho]
    exact ⟨.failed er, fun hn => by rw [ho] at hn; cases hn⟩
  | none =>
    have hnone : ¬ (none : Option E) ≠ none := fun hne => hne rfl
    rw [or_iff_right hnone]
    cases hf : sys.fstat with
    | error er =>
      constructor
      · intro hagree
        have hclosed := (hagree.closed ho).1
        unfold readFile at hclosed
        rw [ho, hf] at hclosed
        cases hclosed
      · rintro ⟨size, hsize, -⟩
        cases hsize
    | ok size =>
      have hfair : (∃ n, (.ok size : Except E ℕ) = .ok n ∧ Fair sys content n) ↔
          Fair sys content size :=
        ⟨fun ⟨n, hn, h⟩ => by rwa [Except.ok.inj hn], fun h => ⟨size, rfl, h⟩⟩
      rw [hfair]
      by_cases hs : size ≤ kMaxLength
      · have hfails (e : E) : readAll sys size 0 [] content = .error e ↔
            ReadFails sys size e 0 0 content.length := readAll_fails
        cases hr : readAll sys size 0 [] content with
        | error e =>
          rw [agree_of_fails fresh fresh' ho hf hs hr]
          constructor
          · intro he
            refine ⟨hs, fun e' he' => ?_, fun _ _ => ⟨e, (hfails e).mp hr⟩⟩
            obtain rfl := Except.error.inj (hr.symm.trans ((hfails e').mpr he'))
            exact he
          · exact fun h => h.close e ((hfails e).mp hr)
        | ok all =>
          have hnot (e : E) : ¬ ReadFails sys size e 0 0 content.length := fun hc => by
            have hfail := (hfails e).mpr hc
            rw [hr] at hfail
            cases hfail
          rw [agree_of_all fresh fresh' ho hf hs hr]
          have hall : size = 0 → all = content := by
            rintro rfl
            exact readAll_unknown hr
          constructor
          · intro hshort
            refine ⟨hs, fun e he => absurd he (hnot e), fun hz hlong => ?_⟩
            exact absurd ⟨hz, by rwa [hall hz]⟩ hshort
          · rintro h ⟨hz, hlong⟩
            obtain ⟨e, he⟩ := h.concat hz (by rwa [← hall hz])
            exact hnot e he
      · constructor
        · intro hagree
          have hclosed := (hagree.closed ho).1
          unfold readFile at hclosed
          rw [ho, hf] at hclosed
          dsimp only at hclosed
          rw [if_pos (by omega)] at hclosed
          cases hclosed
        · exact fun h => absurd h.fits hs

/-- A file that can be read, of which `fstat` fails. -/
def unstated : System Unit where
  openError := none
  fstat := .error ()
  closeError := none
  read _ n left := .ok (min n left)
  read_pos hn hl h := by
    have := Except.ok.inj h
    omega
  read_le h := by
    have := Except.ok.inj h
    omega

theorem not_agree_unstated : ¬ Agree unstated (readFile unstated (fun _ _ => 0) none [])
    (readFileSync unstated (fun _ _ => 0) none []) :=
  fun h => absurd (h.closed rfl).1 (by decide)

end NodeCore.FsReadFile
