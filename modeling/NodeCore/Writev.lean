import NodeCore.Memory
import NodeCore.StringBytes

/-!
Corked writes of a socket.

`_writev` hands all chunks to `StreamWrap::Writev`, which adds up what their strings may need,
takes one block of that size and encodes them into it one behind the other, each from a multiple
of sixteen on. `_write` hands over a chunk at a time, by way of `createWriteReq`. What `uv_write`
is given is what goes on the wire. A size is a number here, as large as it gets.
-/

namespace NodeCore.Writev

open NodeCore.Encoding NodeCore.EncodeConcat NodeCore.StringBytes NodeCore.Memory

/-- A chunk and the encoding that was passed with it. -/
structure Entry where
  chunk : Data
  encoding : EncArg

inductive Ending
  | done | failed | aborted
  deriving DecidableEq

/-- What a write has put on the wire, and how it ended: with `failed` it has thrown or returned
`null`, with `aborted` an assertion has failed. -/
structure Sent where
  wire : Bytes
  ending : Ending
  deriving DecidableEq

def INT_MAX : ℕ := 2147483647

/-- `Buffer::kMaxLength`. -/
def kMaxLength : ℕ := 0x3fffffff

/-- `ROUND_UP`. -/
def roundUp (a b : ℕ) : ℕ := if a % b ≠ 0 then a + b - a % b else a

/-- `uv_write`, which asserts that there is something to write. -/
def uvWrite (bufs : List Bytes) : Sent :=
  if bufs = [] then ⟨[], .aborted⟩ else ⟨bufs.flatten, .done⟩

/-! ### One by one -/

/-- `WriteStringImpl`. -/
def writeString (encoding : Coding) (string : Str) : Sent :=
  match chunkSize string encoding with
  | none => ⟨[], .aborted⟩
  | some storage_size =>
    if storage_size > INT_MAX then ⟨[], .failed⟩
    else
      let data := write storage_size string encoding
      if data.length ≤ storage_size then uvWrite [data] else ⟨[], .aborted⟩

/-- The numbers that the language finds in strings: `isFinite`, and the number rounded down. No
name of an encoding is one. -/
structure ToNumber where
  floor : Str → Option ℤ
  unnamed : ∀ name, floor name ≠ none → ∀ d, parseEncoding (some name) d = d

/-- An encoding that `Buffer.prototype.write` takes for a length: the third argument is one if it
is finite, and the empty string is as good as none. -/
def asLength (num : ToNumber) : EncArg → Option ℤ
  | none | some [] => none
  | some (c :: name) => num.floor (c :: name)

/-- The bytes of `new Buffer(data, encoding)`. -/
def bufferOf (num : ToNumber) (data : Str) (encoding : EncArg) : Option Bytes :=
  match asLength num encoding with
  | none => newBuffer data encoding
  | some length =>
    if data ≠ [] ∧ length < 0 then none
    else some (writeUtf8Within (min length.toNat (byteLength data encoding)) data)

/-- `new Buffer(data, encoding)`, which takes its memory before anything else. -/
def sizedBuffer (num : ToNumber) (data : Str) (encoding : EncArg) : Option Bytes :=
  if byteLength data encoding > kMaxLength then none else bufferOf num data encoding

/-- The names of the switch in `createWriteReq`. -/
def direct (encoding : EncArg) : Option Coding :=
  if encoding = some (js "utf8") ∨ encoding = some (js "utf-8") then some .utf8
  else if encoding = some (js "ascii") then some .ascii
  else if encoding = some (js "ucs2") ∨ encoding = some (js "ucs-2") ∨
      encoding = some (js "utf16le") ∨ encoding = some (js "utf-16le") then some .ucs2
  else none

/-- `createWriteReq`. A Buffer comes with the name `buffer`; for a string of that name
`WriteBuffer` asserts in vain that it is a Buffer. -/
def createWriteReq (num : ToNumber) (e : Entry) : Sent :=
  match e.chunk with
  | .buf b => uvWrite [b]
  | .str data =>
    if e.encoding = some (js "buffer") then ⟨[], .aborted⟩
    else match direct e.encoding with
      | some encoding => writeString encoding data
      | none =>
        match sizedBuffer num data e.encoding with
        | none => ⟨[], .failed⟩
        | some b => uvWrite [b]

/-- `_write` for one chunk after the other; a write that does not go through is the last. -/
def oneByOne (num : ToNumber) : List Entry → Sent
  | [] => ⟨[], .done⟩
  | e :: es =>
    let r := createWriteReq num e
    if r.ending = .done then ⟨r.wire ++ (oneByOne num es).wire, (oneByOne num es).ending⟩ else r

/-! ### All together -/

/-- The encoding that `Writev` takes for a string. -/
def coding (e : Entry) : Coding := parseEncoding e.encoding .binary

/-- The storage that the strings may need. -/
def storageFor : List Entry → Option ℕ
  | [] => some 0
  | e :: es =>
    match e.chunk with
    | .buf _ => storageFor es
    | .str string =>
      (chunkSize string (coding e)).bind fun chunk_size =>
        (storageFor es).map fun rest => chunk_size + 15 + rest

/-- An element of `bufs`: the bytes of a Buffer, or a part of the storage. -/
inductive Buf
  | own (b : Bytes)
  | inside (base len : ℕ)

def Buf.bytes (mem : ℕ → UInt8) : Buf → Bytes
  | .own b => b
  | .inside base len => load mem base len

/-- The storage while it is filled. -/
structure Block where
  mem : ℕ → UInt8
  offset : ℕ
  bufs : List Buf

/-- A round of the second loop of `Writev`; `none` is the failed assertion. -/
def encodeEntry (storage_size : ℕ) (s : Block) (e : Entry) : Option Block :=
  match e.chunk with
  | .buf b => some { s with bufs := s.bufs ++ [.own b] }
  | .str string =>
    let offset := roundUp s.offset 16
    if offset < storage_size then
      let data := write (storage_size - offset) string (coding e)
      some ⟨store s.mem offset data, offset + data.length, s.bufs ++ [.inside offset data.length]⟩
    else none

/-- What the compiler makes of `WriteWrap`: it has pointers in it. -/
structure WriteWrap where
  size : ℕ
  aligned : 4 ∣ size

/-- `Writev`. The block begins with the `WriteWrap`, and nothing is known of what is in it. -/
def writev (wrap : WriteWrap) (mem : ℕ → UInt8) (chunks : List Entry) : Sent :=
  match storageFor chunks with
  | none => ⟨[], .aborted⟩
  | some storage_size =>
    if storage_size > INT_MAX then ⟨[], .failed⟩
    else match chunks.foldlM (encodeEntry (storage_size + wrap.size)) ⟨mem, wrap.size, []⟩ with
      | none => ⟨[], .aborted⟩
      | some s => uvWrite (s.bufs.map (Buf.bytes s.mem))

/-- Sending the chunks corked is sending them one by one, and the process lives. -/
def Same (num : ToNumber) (wrap : WriteWrap) (mem : ℕ → UInt8) (chunks : List Entry) : Prop :=
  writev wrap mem chunks = oneByOne num chunks ∧ (oneByOne num chunks).ending ≠ .aborted

/-! ### The block -/

/-- What `Writev` makes of a chunk. -/
def bytesOf (e : Entry) : Bytes :=
  match e.chunk with
  | .buf b => b
  | .str string => full string (coding e)

/-- The bytes of the block that are kept for a chunk. -/
def needs (e : Entry) : ℕ :=
  match e.chunk with
  | .buf _ => 0
  | .str string => (chunkSize string (coding e)).getD 0 + 15

/-- A string under `hex` that is no whole number of bytes. -/
def OddHex (e : Entry) : Prop :=
  ∃ string, e.chunk = .str string ∧ coding e = .hex ∧ string.length % 2 ≠ 0

lemma chunkSize_eq_none {str : Str} {encoding : Coding} :
    chunkSize str encoding = none ↔ encoding = .hex ∧ str.length % 2 ≠ 0 := by
  cases encoding <;> simp [chunkSize, storageSize, size]
  split_ifs <;> simp

lemma roundUp_le (a : ℕ) : roundUp a 16 ≤ a + 15 := by
  unfold roundUp
  split_ifs <;> omega

lemma le_roundUp (a : ℕ) : a ≤ roundUp a 16 := by
  unfold roundUp
  split_ifs <;> omega

lemma roundUp_aligned {a : ℕ} (h : 4 ∣ a) : roundUp a 16 ≤ a + 12 := by
  unfold roundUp
  split_ifs <;> omega

lemma dvd_roundUp (a : ℕ) : 16 ∣ roundUp a 16 := by
  unfold roundUp
  split_ifs <;> omega

/-- Behind the start of a string there is more than it needs, if there is something to spare
anywhere. -/
lemma roundUp_room {storage_size offset n rest : ℕ}
    (henough : offset + (n + 15 + rest) ≤ storage_size)
    (hspare : offset + (n + 15 + rest) = storage_size → 4 ∣ offset) :
    roundUp offset 16 + n + rest < storage_size := by
  rcases Nat.lt_or_eq_of_le henough with hlt | heq
  · have := roundUp_le offset
    omega
  · have := roundUp_aligned (hspare heq)
    omega

/-- The block is filled up to `offset`, and the rest of it is enough for the rest. -/
structure Filled (storage_size : ℕ) (before rest : List Entry) (s : Block) : Prop where
  bytes : s.bufs.map (Buf.bytes s.mem) = before.map bytesOf
  inside : ∀ base len, .inside base len ∈ s.bufs → base + len ≤ s.offset
  enough : s.offset + (rest.map needs).sum ≤ storage_size
  /-- Only at the start is there nothing to spare. -/
  spare : s.offset + (rest.map needs).sum = storage_size → 4 ∣ s.offset

/-- What is stored behind them leaves the buffers as they are. -/
lemma bytes_store {mem : ℕ → UInt8} {bufs : List Buf} {offset base : ℕ} {b : Bytes}
    (hinside : ∀ base len, .inside base len ∈ bufs → base + len ≤ offset) (hle : offset ≤ base) :
    bufs.map (Buf.bytes (store mem base b)) = bufs.map (Buf.bytes mem) := by
  refine List.map_congr_left fun buf hbuf => ?_
  cases buf with
  | own b => rfl
  | inside start len =>
    exact load_store_apart (.inl ((hinside start len hbuf).trans hle))

lemma Filled.next {storage_size : ℕ} {before rest : List Entry} {e : Entry} {s : Block}
    (h : Filled storage_size before (e :: rest) s) (heven : ¬ OddHex e) :
    ∃ s', encodeEntry storage_size s e = some s' ∧
      Filled storage_size (before ++ [e]) rest s' := by
  obtain ⟨hbytes, hinside, henough, hspare⟩ := h
  simp only [List.map_cons, List.sum_cons] at henough hspare
  cases hchunk : e.chunk with
  | buf b =>
    have hneeds : needs e = 0 := by simp only [needs, hchunk]
    rw [hneeds, Nat.zero_add] at henough hspare
    refine ⟨⟨s.mem, s.offset, s.bufs ++ [.own b]⟩, by simp only [encodeEntry, hchunk], ?_, ?_,
      henough, hspare⟩
    · simp only [List.map_append, hbytes, List.map_cons, List.map_nil, Buf.bytes, bytesOf, hchunk]
    · intro base len hmem
      rcases List.mem_append.mp hmem with hmem | hmem
      · exact hinside base len hmem
      · cases List.mem_singleton.mp hmem
  | str string =>
    obtain ⟨n, hn⟩ : ∃ n, chunkSize string (coding e) = some n := by
      refine Option.ne_none_iff_exists'.mp fun hnone => heven ?_
      obtain ⟨hhex, hodd⟩ := chunkSize_eq_none.mp hnone
      exact ⟨string, hchunk, hhex, hodd⟩
    have hneeds : needs e = n + 15 := by simp only [needs, hchunk, hn, Option.getD_some]
    rw [hneeds] at henough hspare
    obtain ⟨start, hstart⟩ : ∃ start, start = roundUp s.offset 16 := ⟨_, rfl⟩
    have hle : s.offset ≤ start := hstart ▸ le_roundUp s.offset
    have hroom : start + n + (rest.map needs).sum < storage_size :=
      hstart ▸ roundUp_room henough hspare
    have hfull := full_length_le hn
    have hwrite : write (storage_size - start) string (coding e) = full string (coding e) :=
      write_of_le (by omega)
    refine ⟨⟨store s.mem start (full string (coding e)), start + (full string (coding e)).length,
      s.bufs ++ [.inside start (full string (coding e)).length]⟩, ?_, ?_, ?_, ?_, ?_⟩
    · simp only [encodeEntry, hchunk, ← hstart]
      rw [if_pos (by omega), hwrite]
    · simp only [List.map_append, bytes_store hinside hle, hbytes, List.map_cons, List.map_nil,
        Buf.bytes, load_store, bytesOf, hchunk]
    · intro base len hmem
      rcases List.mem_append.mp hmem with hmem | hmem
      · have := hinside base len hmem
        dsimp only
        omega
      · obtain ⟨rfl, rfl⟩ := Buf.inside.inj (List.mem_singleton.mp hmem)
        exact le_rfl
    · dsimp only
      omega
    · intro heq
      dsimp only at heq
      omega

/-- `Writev` by the chunks alone. -/
inductive Written (chunks : List Entry) : Sent → Prop
  | odd (odd : ∃ e ∈ chunks, OddHex e) : Written chunks ⟨[], .aborted⟩
  | large (even : ∀ e ∈ chunks, ¬ OddHex e) (large : INT_MAX < (chunks.map needs).sum) :
      Written chunks ⟨[], .failed⟩
  | nothing (empty : chunks = []) : Written chunks ⟨[], .aborted⟩
  | sent (even : ∀ e ∈ chunks, ¬ OddHex e) (fits : (chunks.map needs).sum ≤ INT_MAX)
      (some : chunks ≠ []) : Written chunks ⟨(chunks.map bytesOf).flatten, .done⟩

end NodeCore.Writev
