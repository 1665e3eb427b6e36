import NodeCore.Encoding

/-!
`StringDecoder`: Buffers to strings, characters that are cut between two Buffers held back.
-/

namespace NodeCore.StringDecoder

open NodeCore.Encoding

/-- The bytes held back. -/
structure Decoder where
  charBuffer : Bytes
  charReceived : ℕ
  charLength : ℕ
  deriving DecidableEq

def Decoder.new : Decoder := ⟨List.replicate 6 0, 0, 0⟩

/-- What a decoder has for its encoding. -/
structure Scheme where
  surrogateSize : ℕ
  detectIncompleteChar : Decoder → Bytes → ℕ × Decoder
  /-- `Buffer.toString`. -/
  toString : Bytes → Str
  /-- `Buffer.write` of one code unit. -/
  write : UInt16 → Bytes

/-- `buffer.copy(target, start)` of a part of a Buffer; `none` where it throws. -/
def copyTo (target : Bytes) (start : ℕ) (source : Bytes) : Option Bytes :=
  if source = [] then some target
  else if target.length ≤ start then none
  else
    let source := source.take (target.length - start)
    some (target.take start ++ source ++ target.drop (start + source.length))

/-- The last code unit is a lead surrogate. -/
def endsLead (s : Str) : Bool := s.getLast?.any isLead

/-- How the loop of `write` ends. -/
inductive Fill
  | throws (d : Decoder)
  /-- The character is still incomplete. -/
  | wait (d : Decoder)
  /-- The character is complete, with so many bytes used up. -/
  | full (char : Str) (d : Decoder) (used : ℕ)
  deriving DecidableEq

variable (scheme : Scheme)

/-- The loop of `write`. -/
def fill : ℕ → Decoder → Bytes → ℕ → Fill
  | 0, d, _, _ => .wait d
  | fuel + 1, d, buffer, offset =>
    let need := d.charLength - d.charReceived
    let i := if need ≤ buffer.length then need else buffer.length
    match copyTo d.charBuffer d.charReceived ((buffer.take i).drop offset) with
    | none => .throws d
    | some charBuffer =>
      let received := d.charReceived + (i - offset)
      if received < d.charLength then .wait { d with charBuffer, charReceived := received }
      else
        let char := scheme.toString (charBuffer.take d.charLength)
        if endsLead char then
          fill fuel ⟨charBuffer, received, d.charLength + scheme.surrogateSize⟩ buffer i
        else .full char ⟨charBuffer, 0, 0⟩ i

/-- The end of `write`: a lead surrogate is also an incomplete character. -/
def emit (d : Decoder) (charStr : Str) : Option Str × Decoder :=
  if endsLead charStr then
    let size := scheme.surrogateSize
    let moved := (copyTo d.charBuffer size (d.charBuffer.take size)).getD d.charBuffer
    let lead := scheme.write (charStr.getLast?.getD 0)
    (some charStr.dropLast, {
      charBuffer := (copyTo moved 0 lead).getD moved
      charReceived := d.charReceived + size
      charLength := d.charLength + size })
  else (some charStr, d)

/-- `write`, once no character is held back. -/
def writeRest (d : Decoder) (charStr : Str) (buffer : Bytes) : Option Str × Decoder :=
  let (lenIncomplete, d) := scheme.detectIncompleteChar d buffer
  let rest := buffer.drop (buffer.length - lenIncomplete)
  let (d, last) : Decoder × ℕ :=
    if d.charLength ≠ 0 then
      ({ d with
        charBuffer := (copyTo d.charBuffer 0 rest).getD d.charBuffer
        charReceived := lenIncomplete }, buffer.length - lenIncomplete)
    else (d, buffer.length)
  emit scheme d (charStr ++ scheme.toString (buffer.take last))

/-- The rounds that the loop of `write` can take. -/
def rounds : ℕ := 3

/-- `StringDecoder.prototype.write`. -/
def write (d : Decoder) (buffer : Bytes) : Option Str × Decoder :=
  if d.charLength = 0 then writeRest scheme d [] buffer
  else match fill scheme rounds d buffer 0 with
  | .throws d => (none, d)
  | .wait d => (some [], d)
  | .full char d used =>
    if used = buffer.length then (some char, d)
    else writeRest scheme d char (buffer.drop used)

/-- `StringDecoder.prototype.end`, without a Buffer. -/
def «end» (d : Decoder) : Str :=
  if d.charReceived ≠ 0 then scheme.toString (d.charBuffer.take d.charReceived) else []

/-! ### The encodings -/

/-- `detectIncompleteChar`, from `i` bytes before the end of the Buffer on. -/
def detectFrom (buffer : Bytes) : ℕ → ℕ × ℕ
  | 0 => (0, 0)
  | i + 1 =>
    let c := (buffer.getD (buffer.length - (i + 1)) 0).toNat
    if i + 1 = 1 ∧ c >>> 5 = 0x06 then (i + 1, 2)
    else if i + 1 ≤ 2 ∧ c >>> 4 = 0x0E then (i + 1, 3)
    else if i + 1 ≤ 3 ∧ c >>> 3 = 0x1E then (i + 1, 4)
    else detectFrom buffer i

def detectIncompleteChar (d : Decoder) (buffer : Bytes) : ℕ × Decoder :=
  let (i, length) := detectFrom buffer (if 3 ≤ buffer.length then 3 else buffer.length)
  (i, if length ≠ 0 then { d with charLength := length } else d)

def utf8 : Scheme where
  surrogateSize := 3
  detectIncompleteChar := detectIncompleteChar
  toString := utf8Slice
  write := utf8Unit

def utf16DetectIncompleteChar (d : Decoder) (buffer : Bytes) : ℕ × Decoder :=
  let incomplete := buffer.length % 2
  (incomplete, { d with
    charReceived := incomplete
    charLength := if incomplete ≠ 0 then 2 else 0 })

/-- `ucs2Slice`, on a little-endian machine: whole units, a last byte is left out. -/
def ucs2Slice : Bytes → Str
  | a :: b :: r => (a.toUInt16 ||| (b.toUInt16 <<< 8)) :: ucs2Slice r
  | _ => []

def utf16le : Scheme where
  surrogateSize := 2
  detectIncompleteChar := utf16DetectIncompleteChar
  toString := ucs2Slice
  write := fun c => writeUcs2 [c]

/-! ### Streams of Buffers -/

/-- `write` of one Buffer after the other, and what is left of the decoder; `none` once one
throws. -/
def writeAll (d : Decoder) : List Bytes → Option (Str × Decoder)
  | [] => some ([], d)
  | buffer :: rest =>
    match write scheme d buffer with
    | (none, _) => none
    | (some s, d) => (writeAll d rest).map fun (t, d) => (s ++ t, d)

/-- All writes, and `end`. -/
def decode (chunks : List Bytes) : Option Str :=
  (writeAll scheme .new chunks).map fun (s, d) => s ++ «end» scheme d

end NodeCore.StringDecoder
