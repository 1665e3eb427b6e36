import NodeCore.HttpIsolation

/-!
The native half of the HTTP parser, with the memory that its strings are in.

A string is a part of the buffer that is parsed, or a copy on the heap. What is at an address
between two calls of `execute` is anything.
-/

namespace NodeCore.HttpNative

open NodeCore.Encoding NodeCore.HttpParser NodeCore.HttpIsolation

/-! ### Strings -/

/-- What is at each address. -/
abbrev Memory := ℕ → UInt8

def Memory.read (mem : Memory) (addr size : ℕ) : Bytes :=
  (List.range size).map fun i => mem (addr + i)

lemma Memory.read_add (mem : Memory) (addr m n : ℕ) :
    mem.read addr (m + n) = mem.read addr m ++ mem.read (addr + m) n := by
  simp [Memory.read, List.range_add, Nat.add_assoc, Function.comp_def]

inductive StringPtr
  /-- `str_` is `NULL`. -/
  | null
  /-- `size_` bytes of the buffer, from `str_` on. -/
  | buffer (addr size : ℕ)
  | heap (bytes : Bytes)
  deriving DecidableEq

namespace StringPtr

/-- `Save`, at the end of each `execute`. -/
def save (mem : Memory) : StringPtr → StringPtr
  | .buffer addr size => if 0 < size then .heap (mem.read addr size) else .buffer addr size
  | s => s

/-- `Update`. -/
def update (mem : Memory) (s : StringPtr) (addr size : ℕ) : StringPtr :=
  match s with
  | .null => .buffer addr size
  | .buffer a n =>
    if a + n ≠ addr then .heap (mem.read a n ++ mem.read addr size) else .buffer a (n + size)
  | .heap bytes => .heap (bytes ++ mem.read addr size)

/-- What `ToString` decodes. -/
def bytes (mem : Memory) : StringPtr → Bytes
  | .null => []
  | .buffer addr size => mem.read addr size
  | .heap bytes => bytes

lemma bytes_update (mem : Memory) (s : StringPtr) (addr size : ℕ) :
    (s.update mem addr size).bytes mem = s.bytes mem ++ mem.read addr size := by
  cases s with
  | null => rfl
  | buffer a n =>
    unfold update
    dsimp only
    split_ifs with h
    · rfl
    · obtain rfl := not_not.mp h
      exact mem.read_add a n size
  | heap b => rfl

/-- A saved string is its bytes, whatever becomes of the memory. -/
lemma bytes_save (mem mem' : Memory) (s : StringPtr) : (s.save mem).bytes mem' = s.bytes mem := by
  cases s with
  | null => rfl
  | buffer a n =>
    unfold save
    dsimp only
    split_ifs with h
    · rfl
    · obtain rfl : n = 0 := by omega
      rfl
  | heap b => rfl

end StringPtr

/-! ### The parser -/

/-- What the tokenizer calls, over what it hands on of a piece; and `_dump`, which JavaScript may
call in between. -/
inductive Callback (P : Type)
  | messageBegin
  | url (piece : P)
  | field (piece : P)
  | value (piece : P)
  | headersComplete (info : Info)
  | body
  | messageComplete
  | dump
  deriving DecidableEq

def Callback.map {P Q : Type} (g : P → Q) : Callback P → Callback Q
  | .messageBegin => .messageBegin
  | .url piece => .url (g piece)
  | .field piece => .field (g piece)
  | .value piece => .value (g piece)
  | .headersComplete info => .headersComplete info
  | .body => .body
  | .messageComplete => .messageComplete
  | .dump => .dump

/-- A piece as the tokenizer hands it on. -/
structure Piece where
  addr : ℕ
  size : ℕ
  deriving DecidableEq

def Piece.bytes (mem : Memory) (piece : Piece) : Bytes := mem.read piece.addr piece.size

structure Native where
  url : StringPtr
  /-- The strings at the places; the assertions see to it that there are 32. -/
  fields : ℕ → StringPtr
  values : ℕ → StringPtr
  numFields : ℕ
  numValues : ℕ
  haveFlushed : Bool
  /-- The JavaScript half; what this record has of the native half is not used. -/
  js : Parser

namespace Native

variable (mem : Memory) (n : Native)

/-- `Update` of the string at a place, after `Reset` if it is new. -/
def put (l : ℕ → StringPtr) (i : ℕ) (new : Bool) (piece : Piece) : ℕ → StringPtr :=
  Function.update l i ((if new then .null else l i).update mem piece.addr piece.size)

/-- `CreateHeaders`. -/
def createHeaders : List (Str × Str) :=
  (List.range n.numValues).map fun i =>
    (utf8Slice ((n.fields i).bytes mem), utf8Slice ((n.values i).bytes mem))

/-- `Flush`. -/
def flush : Native :=
  { n with
    js := n.js.onHeaders (n.createHeaders mem) (utf8Slice (n.url.bytes mem))
    url := .null
    haveFlushed := true }

/-- `on_message_begin`. -/
def onMessageBegin : Native := { n with numFields := 0, numValues := 0, url := .null }

/-- `on_url`. -/
def onUrl (piece : Piece) : Native :=
  { n with url := n.url.update mem piece.addr piece.size }

/-- `on_header_field`, `none` where an assertion fails. -/
def onHeaderField (piece : Piece) : Option Native :=
  let new : Bool := n.numFields = n.numValues
  let n :=
    if new then
      if n.numFields + 1 = 32 then { n.flush mem with numFields := 1, numValues := 0 }
      else { n with numFields := n.numFields + 1 }
    else n
  if n.numFields < 32 ∧ n.numFields = n.numValues + 1 then
    some { n with fields := put mem n.fields (n.numFields - 1) new piece }
  else none

/-- `on_header_value`, `none` where an assertion fails, or where there is no header yet. -/
def onHeaderValue (piece : Piece) : Option Native :=
  let new : Bool := n.numValues ≠ n.numFields
  let n := if new then { n with numValues := n.numValues + 1 } else n
  if 0 < n.numValues ∧ n.numValues < 32 ∧ n.numValues = n.numFields then
    some { n with values := put mem n.values (n.numValues - 1) new piece }
  else none

/-- `on_headers_complete`: the headers and the URL go along, or have been flushed. -/
def onHeadersComplete (info : Info) : Native :=
  let url := if info.method.isSome then utf8Slice (n.url.bytes mem) else []
  let n :=
    if n.haveFlushed then
      let n := n.flush mem
      { n with js := n.js.headersComplete info none }
    else { n with js := n.js.headersComplete info (some (n.createHeaders mem, url)) }
  { n with numFields := 0, numValues := 0 }

/-- `on_message_complete`. -/
def onMessageComplete : Native :=
  let n := if n.numFields ≠ 0 then n.flush mem else n
  { n with js := n.js.messageComplete }

def callback : Callback Piece → Option Native
  | .messageBegin => some n.onMessageBegin
  | .url piece => some (n.onUrl mem piece)
  | .field piece => n.onHeaderField mem piece
  | .value piece => n.onHeaderValue mem piece
  | .headersComplete info => some (n.onHeadersComplete mem info)
  | .body => some n
  | .messageComplete => some (n.onMessageComplete mem)
  | .dump => some { n with js := n.js.dump }

/-- The strings at the first places are saved. -/
def saveUpTo (l : ℕ → StringPtr) (num : ℕ) : ℕ → StringPtr :=
  fun i => if i < num then (l i).save mem else l i

/-- `Save`. -/
def save : Native :=
  { n with
    url := n.url.save mem
    fields := saveUpTo mem n.fields n.numFields
    values := saveUpTo mem n.values n.numValues }

/-- `Execute`, on a buffer that has been put in the memory. -/
def execute (callbacks : List (Callback Piece)) : Option Native :=
  (callbacks.foldlM (callback mem) n).map (save mem)

/-- `Init`: the strings of headers stay as they are. -/
def init : Native :=
  { n with url := .null, numFields := 0, numValues := 0, haveFlushed := false }

end Native

/-! ### Bytes

Between its calls the native parser is the parser of `HttpParser`, whose strings are bytes. -/

/-- The strings at the first places. -/
def strings (mem : Memory) (l : ℕ → StringPtr) (num : ℕ) : List Bytes :=
  (List.range num).map fun i => (l i).bytes mem

lemma strings_succ (mem : Memory) (l : ℕ → StringPtr) (k : ℕ) :
    strings mem l (k + 1) = strings mem l k ++ [(l k).bytes mem] := by
  simp [strings, List.range_succ]

lemma strings_put (mem : Memory) (l : ℕ → StringPtr) (k : ℕ) (new : Bool) (piece : Piece) :
    strings mem (Native.put mem l k new piece) (k + 1) =
      strings mem l k ++ [(if new then [] else (l k).bytes mem) ++ piece.bytes mem] := by
  have hbelow : strings mem (Native.put mem l k new piece) k = strings mem l k := by
    refine List.map_congr_left fun i hi => ?_
    rw [Native.put, Function.update_of_ne (List.mem_range.mp hi).ne]
  rw [strings_succ, hbelow, Native.put, Function.update_self, StringPtr.bytes_update]
  cases new <;> rfl

lemma strings_save (mem mem' : Memory) (l : ℕ → StringPtr) (num : ℕ) :
    strings mem' (Native.saveUpTo mem l num) num = strings mem l num := by
  refine List.map_congr_left fun i hi => ?_
  rw [Native.saveUpTo, if_pos (List.mem_range.mp hi), StringPtr.bytes_save]

lemma zip_strings (mem : Memory) (f g : ℕ → StringPtr) {a b : ℕ} (h : b ≤ a) :
    (strings mem f a).zip (strings mem g b) =
      (List.range b).map fun i => ((f i).bytes mem, (g i).bytes mem) := by
  obtain ⟨c, rfl⟩ := Nat.exists_eq_add_of_le h
  have hlen : (strings mem f b).length = (strings mem g b).length := by simp [strings]
  have hsplit : strings mem f (b + c) =
      strings mem f b ++ (List.range c).map fun i => (f (b + i)).bytes mem := by
    simp [strings, List.range_add, Function.comp_def]
  rw [hsplit, ← List.append_nil (strings mem g b), List.zip_append hlen, List.zip_nil_right,
    List.append_nil, strings, strings, List.zip_map']

/-- The parser without its pointers. -/
def Native.abs (mem : Memory) (n : Native) : Parser :=
  { n.js with
    nativeUrl := n.url.bytes mem
    fields := strings mem n.fields n.numFields
    values := strings mem n.values n.numValues
    haveFlushed := n.haveFlushed }

def callbackOf (p : Parser) : Callback Bytes → Parser
  | .messageBegin => p.onMessageBegin
  | .url piece => p.onUrl piece
  | .field piece => p.onHeaderField piece
  | .value piece => p.onHeaderValue piece
  | .headersComplete info => p.onHeadersComplete info
  | .body => p
  | .messageComplete => p.onMessageComplete
  | .dump => p.dump

/-- The counters fit. -/
structure Fits (n : Native) : Prop where
  le : n.numValues ≤ n.numFields
  succ : n.numFields ≤ n.numValues + 1
  lt : n.numFields < 32

lemma createHeaders_abs (mem : Memory) {n : Native} (h : n.numValues ≤ n.numFields) :
    (n.abs mem).createHeaders = n.createHeaders mem := by
  unfold Parser.createHeaders Native.createHeaders
  rw [Native.abs, zip_strings mem n.fields n.values h, List.map_map]
  rfl

lemma flush_abs (mem : Memory) {n : Native} (h : n.numValues ≤ n.numFields) :
    (n.flush mem).abs mem = (n.abs mem).flush := by
  unfold Parser.flush
  rw [createHeaders_abs mem h]
  rfl

lemma length_strings (mem : Memory) (l : ℕ → StringPtr) (num : ℕ) :
    (strings mem l num).length = num := by simp [strings]

lemma updateLast_strings (mem : Memory) (l : ℕ → StringPtr) (k : ℕ) (b : Bytes) :
    updateLast (strings mem l (k + 1)) b = strings mem l k ++ [(l k).bytes mem ++ b] := by
  simp [updateLast, strings_succ]

lemma Native.onHeaderField_flush (mem : Memory) {n : Native} (h1 : n.numFields = n.numValues)
    (h2 : n.numFields + 1 = 32) (piece : Piece) :
    n.onHeaderField mem piece = some { n.flush mem with
      numFields := 1, numValues := 0, fields := put mem n.fields 0 true piece } := by
  rw [h1] at h2
  simp only [onHeaderField, h1, decide_true, h2, if_true]
  exact if_pos ⟨Nat.one_lt_ofNat, trivial⟩

lemma Native.onHeaderField_new (mem : Memory) {n : Native} (h1 : n.numFields = n.numValues)
    (h2 : n.numFields + 1 < 32) (piece : Piece) :
    n.onHeaderField mem piece = some { n with
      numFields := n.numFields + 1, fields := put mem n.fields n.numFields true piece } := by
  simp only [onHeaderField, h1, decide_true, if_true]
  rw [h1] at h2
  rw [if_neg h2.ne]
  exact if_pos ⟨h2, rfl⟩

lemma Native.onHeaderField_more (mem : Memory) {n : Native}
    (h1 : n.numFields = n.numValues + 1) (h2 : n.numFields < 32) (piece : Piece) :
    n.onHeaderField mem piece = some { n with
      fields := put mem n.fields n.numValues false piece } := by
  have hne : n.numFields ≠ n.numValues := by omega
  simp only [onHeaderField, hne, decide_false, Bool.false_eq_true, if_false]
  rw [if_pos ⟨h2, h1⟩, h1, Nat.add_sub_cancel]

lemma Native.onHeaderValue_new (mem : Memory) {n : Native}
    (h1 : n.numFields = n.numValues + 1) (h2 : n.numFields < 32) (piece : Piece) :
    n.onHeaderValue mem piece = some { n with
      numValues := n.numValues + 1, values := put mem n.values n.numValues true piece } := by
  have hne : n.numValues ≠ n.numFields := by omega
  simp only [onHeaderValue, ne_eq, hne, not_false_eq_true, decide_true, if_true]
  exact if_pos ⟨Nat.succ_pos _, h1 ▸ h2, h1.symm⟩

lemma Native.onHeaderValue_more (mem : Memory) {n : Native} (h1 : n.numValues = n.numFields)
    (h2 : n.numFields < 32) (hpos : 0 < n.numFields) (piece : Piece) :
    n.onHeaderValue mem piece = some { n with
      values := put mem n.values (n.numValues - 1) false piece } := by
  simp only [onHeaderValue, h1, ne_eq, not_true, decide_false, Bool.false_eq_true, if_false]
  exact if_pos ⟨hpos, h2, trivial⟩

lemma onHeaderField_abs (mem : Memory) {n : Native} (h : Fits n) (piece : Piece) :
    ∃ n', n.onHeaderField mem piece = some n' ∧ Fits n' ∧
      n'.abs mem = (n.abs mem).onHeaderField (piece.bytes mem) := by
  obtain ⟨hle, hsucc, hlt⟩ := h
  have hl : (n.abs mem).fields.length = n.numFields := length_strings _ _ _
  have hv : (n.abs mem).values.length = n.numValues := length_strings _ _ _
  by_cases h1 : n.numFields = n.numValues
  · by_cases h2 : n.numFields + 1 = 32
    · rw [onHeaderField_flush (by rw [hl, hv, h1]) (by rw [hl, h2]), ← flush_abs mem hle]
      have hput := strings_put mem n.fields 0 true piece
      refine ⟨_, Native.onHeaderField_flush mem h1 h2 piece,
        ⟨Nat.zero_le 1, Nat.le_refl 1, Nat.one_lt_ofNat⟩, ?_⟩
      simp only [Native.abs, hput]
      rfl
    · rw [onHeaderField_new (by rw [hl, hv, h1]) (by rwa [hl])]
      have h2' : n.numFields + 1 < 32 := by omega
      have hput := strings_put mem n.fields n.numFields true piece
      refine ⟨_, Native.onHeaderField_new mem h1 h2' piece,
        ⟨Nat.le_succ_of_le hle, Nat.succ_le_succ h1.le, h2'⟩, ?_⟩
      simp only [Native.abs, hput]
      rfl
  · rw [onHeaderField_more (by rwa [hl, hv])]
    have h2 : n.numFields = n.numValues + 1 := by omega
    have hput := strings_put mem n.fields n.numValues false piece
    refine ⟨_, Native.onHeaderField_more mem h2 hlt piece, ⟨hle, hsucc, hlt⟩, ?_⟩
    simp only [Native.abs, h2, hput, updateLast_strings]
    rfl

lemma onHeaderValue_abs (mem : Memory) {n : Native} (h : Fits n) (hpos : 0 < n.numFields)
    (piece : Piece) :
    ∃ n', n.onHeaderValue mem piece = some n' ∧ Fits n' ∧
      n'.abs mem = (n.abs mem).onHeaderValue (piece.bytes mem) := by
  obtain ⟨hle, hsucc, hlt⟩ := h
  have hl : (n.abs mem).fields.length = n.numFields := length_strings _ _ _
  have hv : (n.abs mem).values.length = n.numValues := length_strings _ _ _
  by_cases h1 : n.numValues = n.numFields
  · rw [onHeaderValue_more (by rw [hl, hv, h1])]
    obtain ⟨k, hk⟩ : ∃ k, n.numValues = k + 1 := ⟨n.numValues - 1, by omega⟩
    have hput := strings_put mem n.values k false piece
    refine ⟨_, Native.onHeaderValue_more mem h1 hlt hpos piece, ⟨hle, hsucc, hlt⟩, ?_⟩
    simp only [Native.abs, hk, Nat.add_sub_cancel, hput, updateLast_strings]
    rfl
  · rw [onHeaderValue_new (by rwa [hl, hv])]
    have h2 : n.numFields = n.numValues + 1 := by omega
    have hput := strings_put mem n.values n.numValues true piece
    refine ⟨_, Native.onHeaderValue_new mem h2 hlt piece,
      ⟨h2.ge, Nat.le_succ_of_le hsucc, hlt⟩, ?_⟩
    simp only [Native.abs, hput]
    rfl

lemma onHeadersComplete_abs (mem : Memory) {n : Native} (h : Fits n) (info : Info) :
    (n.onHeadersComplete mem info).abs mem = (n.abs mem).onHeadersComplete info := by
  have hflush := flush_abs mem h.le
  have hcreate := createHeaders_abs mem h.le
  cases hf : n.haveFlushed with
  | true =>
    have hf' : (n.abs mem).haveFlushed = true := hf
    rw [onHeadersComplete_slow hf', ← hflush]
    simp only [Native.onHeadersComplete, hf, if_true]
    rfl
  | false =>
    have hf' : (n.abs mem).haveFlushed = false := hf
    rw [onHeadersComplete_fast hf', hcreate]
    simp only [Native.onHeadersComplete, hf, Bool.false_eq_true, if_false, headersComplete_eq,
      Native.abs, ownUrl]
    rfl

lemma messageComplete_abs (mem : Memory) (n : Native) :
    ({ n with js := n.js.messageComplete } : Native).abs mem = (n.abs mem).messageComplete := by
  have hin : (n.abs mem).incoming = n.js.incoming := rfl
  unfold Parser.messageComplete
  rw [hin]
  by_cases hi : n.js.incoming = true
  · rw [if_pos hi, if_pos hi]
    rfl
  · rw [if_neg hi, if_neg hi]

lemma onMessageComplete_abs (mem : Memory) {n : Native} (h : Fits n) :
    (n.onMessageComplete mem).abs mem = (n.abs mem).onMessageComplete := by
  have hflush := flush_abs mem h.le
  have hl : (n.abs mem).fields.length = n.numFields := length_strings _ _ _
  unfold Native.onMessageComplete Parser.onMessageComplete
  by_cases h0 : n.numFields = 0
  · rw [h0] at hl
    rw [if_neg (not_not.mpr h0), if_neg (not_not.mpr (List.length_eq_zero_iff.mp hl))]
    exact messageComplete_abs mem n
  · rw [if_pos h0, if_pos fun hnil => h0 (by rw [← hl, hnil]; rfl), ← hflush]
    exact messageComplete_abs mem (n.flush mem)

/-- A value comes after a name. -/
def Ready (p : Parser) : Callback Bytes → Prop
  | .value _ => p.fields ≠ []
  | _ => True

/-- **A callback on pointers is the callback on bytes**, and no assertion fails. -/
lemma callback_abs (mem : Memory) {n : Native} (h : Fits n) {c : Callback Piece}
    (hc : Ready (n.abs mem) (c.map (Piece.bytes mem))) :
    ∃ n', n.callback mem c = some n' ∧ Fits n' ∧
      n'.abs mem = callbackOf (n.abs mem) (c.map (Piece.bytes mem)) := by
  cases c with
  | messageBegin => exact ⟨_, rfl, ⟨Nat.le_refl 0, Nat.zero_le 1, Nat.ofNat_pos⟩, rfl⟩
  | url piece =>
    refine ⟨_, rfl, ⟨h.le, h.succ, h.lt⟩, ?_⟩
    simp only [Native.onUrl, Native.abs, StringPtr.bytes_update]
    rfl
  | field piece => exact onHeaderField_abs mem h piece
  | value piece =>
    refine onHeaderValue_abs mem h (Nat.pos_of_ne_zero fun h0 => hc ?_) piece
    rw [Native.abs, h0]
    rfl
  | headersComplete info =>
    refine ⟨_, rfl, ⟨Nat.le_refl 0, Nat.zero_le 1, Nat.ofNat_pos⟩, ?_⟩
    exact onHeadersComplete_abs mem h info
  | body => exact ⟨n, rfl, h, rfl⟩
  | messageComplete =>
    refine ⟨_, rfl, ?_, onMessageComplete_abs mem h⟩
    unfold Native.onMessageComplete
    split_ifs <;> exact ⟨h.le, h.succ, h.lt⟩
  | dump => exact ⟨_, rfl, ⟨h.le, h.succ, h.lt⟩, rfl⟩

/-- A value without a name is an assertion that fails. -/
lemma callback_none (mem : Memory) {n : Native} (h : Fits n) {c : Callback Piece}
    (hc : ¬ Ready (n.abs mem) (c.map (Piece.bytes mem))) : n.callback mem c = none := by
  cases c with
  | value piece =>
    have hnil : (n.abs mem).fields = [] := not_not.mp hc
    have hf : n.numFields = 0 := by
      have hlen : (n.abs mem).fields.length = n.numFields := length_strings _ _ _
      rw [← hlen, hnil]
      rfl
    have hv : n.numValues = 0 := by
      have := h.le
      omega
    simp [Native.callback, Native.onHeaderValue, hf, hv]
  | _ => exact absurd trivial hc

lemma save_abs (mem mem' : Memory) (n : Native) : (n.save mem).abs mem' = n.abs mem := by
  simp only [Native.save, Native.abs, StringPtr.bytes_save, strings_save]

/-! ### Runs -/

/-- Every value comes after a name. -/
def AllReady (p : Parser) : List (Callback Bytes) → Prop
  | [] => True
  | c :: cs => Ready p c ∧ AllReady (callbackOf p c) cs

lemma allReady_append {p : Parser} {s t : List (Callback Bytes)} :
    AllReady p (s ++ t) ↔ AllReady p s ∧ AllReady (s.foldl callbackOf p) t := by
  induction s generalizing p with
  | nil => simp [AllReady]
  | cons c s ih => simp [AllReady, ih, and_assoc]

lemma callbacks_abs (mem : Memory) {n : Native} (h : Fits n) {cs : List (Callback Piece)}
    (hcs : AllReady (n.abs mem) (cs.map (Callback.map (Piece.bytes mem)))) :
    ∃ n', cs.foldlM (Native.callback mem) n = some n' ∧ Fits n' ∧
      n'.abs mem = (cs.map (Callback.map (Piece.bytes mem))).foldl callbackOf (n.abs mem) := by
  induction cs generalizing n with
  | nil => exact ⟨n, rfl, h, rfl⟩
  | cons c cs ih =>
    obtain ⟨hc, hcs⟩ := hcs
    obtain ⟨n', hn', hfit', habs'⟩ := callback_abs mem h hc
    rw [← habs'] at hcs
    obtain ⟨n'', hn'', hfit'', habs''⟩ := ih hfit' hcs
    refine ⟨n'', ?_, hfit'', ?_⟩
    · rw [List.foldlM_cons, hn']
      exact hn''
    · rw [habs'', habs']
      rfl

lemma callbacks_none (mem : Memory) {n : Native} (h : Fits n) {cs : List (Callback Piece)}
    (hcs : ¬ AllReady (n.abs mem) (cs.map (Callback.map (Piece.bytes mem)))) :
    cs.foldlM (Native.callback mem) n = none := by
  induction cs generalizing n with
  | nil => exact absurd trivial hcs
  | cons c cs ih =>
    rw [List.foldlM_cons]
    by_cases hc : Ready (n.abs mem) (c.map (Piece.bytes mem))
    · obtain ⟨n', hn', hfit', habs'⟩ := callback_abs mem h hc
      rw [hn']
      refine ih hfit' fun hready => hcs ⟨hc, ?_⟩
      rwa [habs'] at hready
    · rw [callback_none mem h hc]
      rfl

/-- A call of `execute`: what is in the memory then, and what the tokenizer calls. -/
structure Execution where
  mem : Memory
  callbacks : List (Callback Piece)

/-- What the tokenizer calls, in bytes. -/
def bytesOf (es : List Execution) : List (Callback Bytes) :=
  es.flatMap fun e => e.callbacks.map (Callback.map (Piece.bytes e.mem))

lemma bytesOf_cons (e : Execution) (es : List Execution) :
    bytesOf (e :: es) = e.callbacks.map (Callback.map (Piece.bytes e.mem)) ++ bytesOf es :=
  List.flatMap_cons

def run (n : Native) (es : List Execution) : Option Native :=
  es.foldlM (fun n e => n.execute e.mem e.callbacks) n

/-- **The parser over many buffers is the parser of bytes.** In between, `mem` is anything. -/
theorem run_abs (mem : Memory) {n : Native} (h : Fits n) {es : List Execution}
    (hn : ∀ mem', n.abs mem' = n.abs mem) (hes : AllReady (n.abs mem) (bytesOf es)) :
    ∃ n', run n es = some n' ∧ Fits n' ∧
      ∀ mem', n'.abs mem' = (bytesOf es).foldl callbackOf (n.abs mem) := by
  induction es generalizing n with
  | nil => exact ⟨n, rfl, h, hn⟩
  | cons e es ih =>
    rw [bytesOf_cons] at hes ⊢
    obtain ⟨hc, hes⟩ := allReady_append.mp hes
    rw [← hn e.mem] at hc
    obtain ⟨n', hn', hfit', habs'⟩ := callbacks_abs e.mem h hc
    have hsaved : ∀ mem', (n'.save e.mem).abs mem' =
        (e.callbacks.map (Callback.map (Piece.bytes e.mem))).foldl callbackOf (n.abs mem) := by
      intro mem'
      rw [save_abs, habs', hn]
    have hfit : Fits (n'.save e.mem) := ⟨hfit'.le, hfit'.succ, hfit'.lt⟩
    obtain ⟨n'', hn'', hfit'', habs''⟩ := ih hfit (fun mem' => by rw [hsaved, hsaved])
      (by rwa [hsaved])
    refine ⟨n'', ?_, hfit'', fun mem' => ?_⟩
    · rw [run, List.foldlM_cons, Native.execute, hn']
      exact hn''
    · rw [habs'', hsaved, List.foldl_append]

theorem run_none (mem : Memory) {n : Native} (h : Fits n) {es : List Execution}
    (hn : ∀ mem', n.abs mem' = n.abs mem) (hes : ¬ AllReady (n.abs mem) (bytesOf es)) :
    run n es = none := by
  induction es generalizing n with
  | nil => exact absurd trivial hes
  | cons e es ih =>
    rw [run, List.foldlM_cons, Native.execute]
    by_cases hc : AllReady (n.abs e.mem) (e.callbacks.map (Callback.map (Piece.bytes e.mem)))
    · obtain ⟨n', hn', hfit', habs'⟩ := callbacks_abs e.mem h hc
      have hsaved : ∀ mem', (n'.save e.mem).abs mem' =
          (e.callbacks.map (Callback.map (Piece.bytes e.mem))).foldl callbackOf (n.abs mem) := by
        intro mem'
        rw [save_abs, habs', hn]
      rw [hn']
      refine ih (n := n'.save e.mem) ⟨hfit'.le, hfit'.succ, hfit'.lt⟩
        (fun mem' => by rw [hsaved, hsaved]) fun hready => hes ?_
      rw [hsaved] at hready
      rw [hn] at hc
      rw [bytesOf_cons]
      exact allReady_append.mpr ⟨hc, hready⟩
    · rw [callbacks_none e.mem h hc]
      rfl

end NodeCore.HttpNative
