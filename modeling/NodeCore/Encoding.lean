import Mathlib.Tactic

/-!
Strings, Buffers and the encodings between them.

A string is the list of its UTF-16 code units, a Buffer the list of its bytes. The writers
are those of `StringBytes::Write`; `newBuffer` is the `Buffer` constructor on a string, with
`none` where it throws.
-/

namespace NodeCore.Encoding

/-- A JavaScript string: its UTF-16 code units. -/
abbrev Str := List UInt16

abbrev Bytes := List UInt8

/-- A string literal of the source. -/
def js (s : String) : Str := s.toList.map fun c => UInt16.ofNat c.toNat

/-- `String.prototype.toLowerCase`, as far as the names it is applied to need it. -/
def lowerUnit (c : UInt16) : UInt16 := if 65 ≤ c ∧ c ≤ 90 then c + 32 else c

def toLowerCase (s : Str) : Str := s.map lowerUnit

/-- `enum encoding`, less `BUFFER`. -/
inductive Enc
  | ascii | utf8 | ucs2 | base64 | binary | hex
  deriving DecidableEq

/-- The switch of `Buffer.prototype.write` on the lower-cased name. -/
def ofName (name : Str) : Option Enc :=
  let n := toLowerCase name
  if n = js "hex" then some .hex
  else if n = js "utf8" ∨ n = js "utf-8" then some .utf8
  else if n = js "ascii" then some .ascii
  else if n = js "binary" then some .binary
  else if n = js "base64" then some .base64
  else if n = js "ucs2" ∨ n = js "ucs-2" ∨ n = js "utf16le" ∨ n = js "utf-16le" then some .ucs2
  else none

/-! ### UTF-8 -/

def isLead (c : UInt16) : Bool := 0xD800 ≤ c ∧ c ≤ 0xDBFF
def isTrail (c : UInt16) : Bool := 0xDC00 ≤ c ∧ c ≤ 0xDFFF

/-- `Utf8::Encode` of a code unit on its own; a lone surrogate takes three bytes. -/
def utf8Unit (c : UInt16) : Bytes :=
  if c ≤ 0x7F then [c.toUInt8]
  else if c ≤ 0x7FF then
    [UInt8.ofNat (0xC0 + c.toNat / 0x40), UInt8.ofNat (0x80 + c.toNat % 0x40)]
  else
    [UInt8.ofNat (0xE0 + c.toNat / 0x1000), UInt8.ofNat (0x80 + c.toNat / 0x40 % 0x40),
      UInt8.ofNat (0x80 + c.toNat % 0x40)]

/-- The code point of a surrogate pair. -/
def combine (c d : UInt16) : ℕ := 0x10000 + ((c.toNat % 0x400) * 0x400 + d.toNat % 0x400)

def utf8Pair (c d : UInt16) : Bytes :=
  let p := combine c d
  [UInt8.ofNat (0xF0 + p / 0x40000), UInt8.ofNat (0x80 + p / 0x1000 % 0x40),
    UInt8.ofNat (0x80 + p / 0x40 % 0x40), UInt8.ofNat (0x80 + p % 0x40)]

/-- `String::WriteUtf8`: a trail surrogate right after a lead is combined with it. -/
def writeUtf8 : Str → Bytes
  | [] => []
  | [c] => utf8Unit c
  | c :: d :: r =>
    if isLead c ∧ isTrail d then utf8Pair c d ++ writeUtf8 r
    else utf8Unit c ++ writeUtf8 (d :: r)

/-- The code units of a code point. -/
def unitsOf (p : ℕ) : Str :=
  if p ≤ 0xFFFF then [UInt16.ofNat p]
  else [UInt16.ofNat (0xD800 + (p - 0x10000) / 0x400 % 0x400),
    UInt16.ofNat (0xDC00 + (p - 0x10000) % 0x400)]

def isCont (b : UInt8) : Bool := b &&& 0xC0 = 0x80

/-- The six payload bits of a continuation byte. -/
def low6 (b : UInt8) : ℕ := b.toNat % 0x40

def badChar : UInt16 := 0xFFFD

/-- `utf8Slice` of a whole Buffer: `Utf8::ValueOf` in a loop. Whatever is not the shortest
form of a code point gives one bad character, and only its first byte is consumed. -/
def utf8Slice : Bytes → Str
  | [] => []
  | [a] => if a < 0x80 then [a.toUInt16] else [badChar]
  | [a, b] =>
    if a < 0x80 then a.toUInt16 :: utf8Slice [b]
    else
      let p := a.toNat % 0x20 * 0x40 + low6 b
      if isCont b ∧ 0xC0 ≤ a ∧ a < 0xE0 ∧ 0x7F < p then unitsOf p
      else badChar :: utf8Slice [b]
  | [a, b, c] =>
    if a < 0x80 then a.toUInt16 :: utf8Slice [b, c]
    else
      let p := a.toNat % 0x20 * 0x40 + low6 b
      let q := a.toNat % 0x10 * 0x1000 + low6 b * 0x40 + low6 c
      if isCont b ∧ 0xC0 ≤ a ∧ a < 0xE0 ∧ 0x7F < p then unitsOf p ++ utf8Slice [c]
      else if isCont b ∧ isCont c ∧ 0xE0 ≤ a ∧ a < 0xF0 ∧ 0x7FF < q then unitsOf q
      else badChar :: utf8Slice [b, c]
  | a :: b :: c :: d :: r =>
    if a < 0x80 then a.toUInt16 :: utf8Slice (b :: c :: d :: r)
    else
      let p := a.toNat % 0x20 * 0x40 + low6 b
      let q := a.toNat % 0x10 * 0x1000 + low6 b * 0x40 + low6 c
      let s := a.toNat % 0x08 * 0x40000 + low6 b * 0x1000 + low6 c * 0x40 + low6 d
      if isCont b ∧ 0xC0 ≤ a ∧ a < 0xE0 ∧ 0x7F < p then unitsOf p ++ utf8Slice (c :: d :: r)
      else if isCont b ∧ isCont c ∧ 0xE0 ≤ a ∧ a < 0xF0 ∧ 0x7FF < q then
        unitsOf q ++ utf8Slice (d :: r)
      else if isCont b ∧ isCont c ∧ isCont d ∧ 0xF0 ≤ a ∧ a < 0xF8 ∧ 0xFFFF < s then
        unitsOf s ++ utf8Slice r
      else badChar :: utf8Slice (b :: c :: d :: r)

/-! ### The other writers -/

/-- `WriteOneByte`, and the loop of the `BINARY` case: the low byte of each unit. -/
def writeOneByte (s : Str) : Bytes := s.map UInt16.toUInt8

/-- The `UCS2` case, on a little-endian machine. -/
def writeUcs2 (s : Str) : Bytes := s.flatMap fun c : UInt16 => [c.toUInt8, (c >>> 8).toUInt8]

def hex2bin (c : UInt8) : Option UInt8 :=
  if 48 ≤ c ∧ c ≤ 57 then some (c - 48)
  else if 65 ≤ c ∧ c ≤ 70 then some (10 + (c - 65))
  else if 97 ≤ c ∧ c ≤ 102 then some (10 + (c - 97))
  else none

/-- `hex_decode`: it stops at the first pair that is not two hex digits. -/
def hexDecode : Bytes → Bytes
  | a :: b :: r =>
    match hex2bin a, hex2bin b with
    | some x, some y => (x * 16 + y) :: hexDecode r
    | _, _ => []
  | _ => []

def unbase64 (c : UInt8) : Option UInt8 :=
  if 65 ≤ c ∧ c ≤ 90 then some (c - 65)
  else if 97 ≤ c ∧ c ≤ 122 then some (c - 97 + 26)
  else if 48 ≤ c ∧ c ≤ 57 then some (c - 48 + 52)
  else if c = 43 ∨ c = 45 then some 62
  else if c = 47 ∨ c = 95 then some 63
  else none

/-- `base64_decode` into `len` bytes. `ph` is the number of characters of the current group
of four already read and `last` the value of the latest; a character outside the alphabet,
the padding included, is skipped. -/
def base64Decode (len ph : ℕ) (last : UInt8) : Bytes → Bytes
  | [] => []
  | ch :: src =>
    if len = 0 then []
    else match unbase64 ch with
      | none => base64Decode len ph last src
      | some v =>
        if ph = 0 then base64Decode len 1 v src
        else if ph = 1 then
          ((last <<< 2) ||| ((v &&& 0x30) >>> 4)) :: base64Decode (len - 1) 2 v src
        else if ph = 2 then
          (((last &&& 0x0F) <<< 4) ||| ((v &&& 0x3C) >>> 2)) :: base64Decode (len - 1) 3 v src
        else (((last &&& 0x03) <<< 6) ||| (v &&& 0x3F)) :: base64Decode (len - 1) 0 v src

def base64DecodedSizeFast (size : ℕ) : ℕ :=
  let remainder := size % 4
  let full := size / 4 * 3
  if remainder = 0 then full
  else if full = 0 ∧ remainder = 1 then 0
  else full + 1 + (if remainder = 3 then 1 else 0)

def base64DecodedSize (src : Bytes) : ℕ :=
  let strip (s : Bytes) : Bytes := if s.getLast? = some 61 then s.dropLast else s
  base64DecodedSizeFast (strip (strip src)).length

/-- `StringBytes::Write` into a Buffer of the size `StringBytes::Size` asks for; the
`none` is the `Invalid hex string` of `Buffer::StringWrite`. -/
def write (e : Enc) (s : Str) : Option Bytes :=
  match e with
  | .ascii | .binary => some (writeOneByte s)
  | .utf8 => some (writeUtf8 s)
  | .ucs2 => some (writeUcs2 s)
  | .base64 => some (base64Decode (base64DecodedSize (writeUtf8 s)) 0 0 (writeUtf8 s))
  | .hex => if s.length % 2 = 0 then some (hexDecode (writeUtf8 s)) else none

/-- An encoding argument as a caller passes it; the empty name counts as none. -/
abbrev EncArg := Option Str

/-- `encoding || 'utf8'`. -/
def orUtf8 (e : EncArg) : Str :=
  match e with
  | none | some [] => js "utf8"
  | some n => n

/-- `new Buffer(s, encoding)`. -/
def newBuffer (s : Str) (e : EncArg) : Option Bytes :=
  (ofName (orUtf8 e)).bind fun enc => write enc s

/-- `Buffer.byteLength`, whose `ParseEncoding` takes every unknown name for UTF-8. -/
def byteLength (s : Str) (e : EncArg) : ℕ :=
  let n := toLowerCase (orUtf8 e)
  if n = js "buffer" ∨ n = js "raw" ∨ n = js "raws" then s.length
  else match ofName (orUtf8 e) with
    | some .ascii | some .binary => s.length
    | some .ucs2 => s.length * 2
    | some .base64 => base64DecodedSize (writeUtf8 s)
    | some .hex => s.length / 2
    | some .utf8 | none => (writeUtf8 s).length

/-! ### Chunks -/

/-- A chunk of output: a string or a Buffer. -/
inductive Data
  | str (s : Str)
  | buf (b : Bytes)
  deriving DecidableEq

/-- The `length` property. -/
def Data.length : Data → ℕ
  | .str s => s.length
  | .buf b => b.length

/-- `Buffer(chunk, encoding)`: a Buffer as it is, a string in its encoding. -/
def Data.encode (d : Data) (e : EncArg) : Option Bytes :=
  match d with
  | .buf b => some b
  | .str s => newBuffer s e

end NodeCore.Encoding
