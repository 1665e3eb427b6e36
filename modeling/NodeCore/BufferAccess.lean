import NodeCore.Encoding
import NodeCore.JsNumber
import NodeCore.Memory
import NodeCore.Word

/-!
The integer accessors of `Buffer`.

A Buffer is a part of a memory that others have parts of too. What an accessor throws is told
apart by its class and its message; an argument is a number or is left out.
-/

namespace NodeCore.BufferAccess

open Encoding JsNumber Memory Word

/-! ### Buffers -/

abbrev Mem := ℕ → ℕ → UInt8

inductive Err
  | rangeError (message : Str)
  | typeError (message : Str)
  deriving DecidableEq

abbrev Access := ExceptT Err (StateM Mem)

/-- What a call returns or throws, and the memory after it. -/
def Access.on {α : Type} (call : Access α) (m : Mem) : Except Err α × Mem := call.run.run m

/-- The index that a number names. -/
def index (buffer : Slice) : Number → Option ℕ
  | .fin q => if q.den = 1 ∧ 0 ≤ q ∧ q < buffer.length then some q.num.toNat else none
  | _ => none

/-- `buffer[offset]` -/
def byteAt (m : Mem) (buffer : Slice) (offset : Number) : Number :=
  match index buffer offset with
  | some i => .int (m buffer.buffer (buffer.start + i)).toNat
  | none => .undefined

/-- `buffer[offset] = value` -/
def setByte (buffer : Slice) (offset value : Number) (m : Mem) : Mem :=
  match index buffer offset with
  | some i => write m buffer.buffer (buffer.start + i) [UInt8.ofNat value.bits.toNat]
  | none => m

/-! ### Reading -/

def checkOffset (offset : Number) (ext length : ℕ) : Except Err Unit :=
  if offset.fractional ∨ offset.lt (.int 0) then .error (.rangeError (js "offset is not uint"))
  else if (Number.int length).lt (offset.add (.int ext)) then
    .error (.rangeError (js "Trying to access beyond buffer length"))
  else .ok ()

/-- A reader of `ext` bytes. -/
def reader (ext : ℕ) (get : Mem → Slice → Number → Number) (this : Slice) (offset : Number)
    (noAssert : Bool) : Access Number := do
  if !noAssert then checkOffset offset ext this.length
  return get (← MonadState.get) this offset

def readUInt8 : Slice → Number → Bool → Access Number := reader 1 byteAt

def readUInt16 (isBigEndian : Bool) (m : Mem) (buffer : Slice) (offset : Number) : Number :=
  if isBigEndian then
    let val := (byteAt m buffer offset).shl 8
    val.or (byteAt m buffer (offset.add (.int 1)))
  else
    let val := byteAt m buffer offset
    val.or ((byteAt m buffer (offset.add (.int 1))).shl 8)

def readUInt16LE : Slice → Number → Bool → Access Number := reader 2 (readUInt16 false)

def readUInt16BE : Slice → Number → Bool → Access Number := reader 2 (readUInt16 true)

def readUInt32 (isBigEndian : Bool) (m : Mem) (buffer : Slice) (offset : Number) : Number :=
  if isBigEndian then
    let val := (byteAt m buffer (offset.add (.int 1))).shl 16
    let val := val.or ((byteAt m buffer (offset.add (.int 2))).shl 8)
    let val := val.or (byteAt m buffer (offset.add (.int 3)))
    val.add (((byteAt m buffer offset).shl 24).ushr 0)
  else
    let val := (byteAt m buffer (offset.add (.int 2))).shl 16
    let val := val.or ((byteAt m buffer (offset.add (.int 1))).shl 8)
    let val := val.or (byteAt m buffer offset)
    val.add (((byteAt m buffer (offset.add (.int 3))).shl 24).ushr 0)

def readUInt32LE : Slice → Number → Bool → Access Number := reader 4 (readUInt32 false)

def readUInt32BE : Slice → Number → Bool → Access Number := reader 4 (readUInt32 true)

/-- `val`, or the negative number with these bits: `top` is the highest of them, and `ones` has
all. -/
def toSigned (top ones : ℕ) (val : Number) : Number :=
  if (val.and (.int top)).falsy then val
  else (((Number.int ones).sub val).add (.int 1)).neg

def readInt8 : Slice → Number → Bool → Access Number :=
  reader 1 fun m this offset => toSigned 0x80 0xff (byteAt m this offset)

def readInt16 (isBigEndian : Bool) (m : Mem) (buffer : Slice) (offset : Number) : Number :=
  toSigned 0x8000 0xffff (readUInt16 isBigEndian m buffer offset)

def readInt16LE : Slice → Number → Bool → Access Number := reader 2 (readInt16 false)

def readInt16BE : Slice → Number → Bool → Access Number := reader 2 (readInt16 true)

def readInt32 (isBigEndian : Bool) (m : Mem) (buffer : Slice) (offset : Number) : Number :=
  toSigned 0x80000000 0xffffffff (readUInt32 isBigEndian m buffer offset)

def readInt32LE : Slice → Number → Bool → Access Number := reader 4 (readInt32 false)

def readInt32BE : Slice → Number → Bool → Access Number := reader 4 (readInt32 true)

/-! ### Writing -/

def checkInt (buffer : Slice) (value offset : Number) (ext : ℕ) (max min : ℤ) : Except Err Unit :=
  if value.fractional ∨ (Number.int max).lt value ∨ value.lt (.int min) then
    .error (.typeError (js "value is out of bounds"))
  else if offset.fractional ∨ offset.lt (.int 0) then
    .error (.typeError (js "offset is not uint"))
  else if (Number.int buffer.length).lt (offset.add (.int ext)) ∨
      ((Number.int buffer.length).add offset).lt (.int 0) then
    .error (.rangeError (js "Trying to write outside buffer length"))
  else .ok ()

/-- A writer of `ext` bytes. -/
def writer (ext : ℕ) (max min : ℤ) (put : Slice → Number → Number → Mem → Mem) (this : Slice)
    (value offset : Number) (noAssert : Bool) : Access Unit := do
  if !noAssert then checkInt this value offset ext max min
  modify (put this value offset)

def writeUInt8 : Slice → Number → Number → Bool → Access Unit :=
  writer 1 0xff 0 fun this value offset => setByte this offset value

def writeUInt16 (isBigEndian : Bool) (buffer : Slice) (value offset : Number) (m : Mem) : Mem :=
  let high := (value.and (.int 0xff00)).ushr 8
  let low := value.and (.int 0x00ff)
  if isBigEndian then
    setByte buffer (offset.add (.int 1)) low (setByte buffer offset high m)
  else
    setByte buffer offset low (setByte buffer (offset.add (.int 1)) high m)

def writeUInt16LE : Slice → Number → Number → Bool → Access Unit :=
  writer 2 0xffff 0 (writeUInt16 false)

def writeUInt16BE : Slice → Number → Number → Bool → Access Unit :=
  writer 2 0xffff 0 (writeUInt16 true)

def writeUInt32 (isBigEndian : Bool) (buffer : Slice) (value offset : Number) (m : Mem) : Mem :=
  let byte (n : ℕ) := (value.ushr n).and (.int 0xff)
  let low := value.and (.int 0xff)
  if isBigEndian then
    let m := setByte buffer offset (byte 24) m
    let m := setByte buffer (offset.add (.int 1)) (byte 16) m
    let m := setByte buffer (offset.add (.int 2)) (byte 8) m
    setByte buffer (offset.add (.int 3)) low m
  else
    let m := setByte buffer (offset.add (.int 3)) (byte 24) m
    let m := setByte buffer (offset.add (.int 2)) (byte 16) m
    let m := setByte buffer (offset.add (.int 1)) (byte 8) m
    setByte buffer offset low m

def writeUInt32LE : Slice → Number → Number → Bool → Access Unit :=
  writer 4 0xffffffff 0 (writeUInt32 false)

def writeUInt32BE : Slice → Number → Number → Bool → Access Unit :=
  writer 4 0xffffffff 0 (writeUInt32 true)

/-- `if (value < 0) value = ones + value + 1` -/
def toUnsigned (ones : ℕ) (value : Number) : Number :=
  if value.lt (.int 0) then ((Number.int ones).add value).add (.int 1) else value

def writeInt8 : Slice → Number → Number → Bool → Access Unit :=
  writer 1 0x7f (-0x80) fun this value offset => setByte this offset (toUnsigned 0xff value)

def writeInt16LE : Slice → Number → Number → Bool → Access Unit :=
  writer 2 0x7fff (-0x8000) fun this value => writeUInt16 false this (toUnsigned 0xffff value)

def writeInt16BE : Slice → Number → Number → Bool → Access Unit :=
  writer 2 0x7fff (-0x8000) fun this value => writeUInt16 true this (toUnsigned 0xffff value)

def writeInt32LE : Slice → Number → Number → Bool → Access Unit :=
  writer 4 0x7fffffff (-0x80000000) fun this value =>
    writeUInt32 false this (toUnsigned 0xffffffff value)

def writeInt32BE : Slice → Number → Number → Bool → Access Unit :=
  writer 4 0x7fffffff (-0x80000000) fun this value =>
    writeUInt32 true this (toUnsigned 0xffffffff value)

/-! ### The accessors as a family -/

/-- An offset with `ext` bytes behind it. -/
def Offset (ext length : ℕ) (offset : Number) : Prop := ∃ k : ℕ, offset = .int k ∧ k + ext ≤ length

inductive Width
  | w8 | w16 | w32
  deriving DecidableEq

/-- What one pair of accessors is for. -/
structure Format where
  width : Width
  signed : Bool
  bigEndian : Bool
  deriving DecidableEq

def Width.bytes : Width → ℕ
  | .w8 => 1
  | .w16 => 2
  | .w32 => 4

namespace Format

def bytes (f : Format) : ℕ := f.width.bytes

def read : Format → Slice → Number → Bool → Access Number
  | ⟨.w8, false, _⟩ => readUInt8
  | ⟨.w8, true, _⟩ => readInt8
  | ⟨.w16, false, false⟩ => readUInt16LE
  | ⟨.w16, false, true⟩ => readUInt16BE
  | ⟨.w16, true, false⟩ => readInt16LE
  | ⟨.w16, true, true⟩ => readInt16BE
  | ⟨.w32, false, false⟩ => readUInt32LE
  | ⟨.w32, false, true⟩ => readUInt32BE
  | ⟨.w32, true, false⟩ => readInt32LE
  | ⟨.w32, true, true⟩ => readInt32BE

def write : Format → Slice → Number → Number → Bool → Access Unit
  | ⟨.w8, false, _⟩ => writeUInt8
  | ⟨.w8, true, _⟩ => writeInt8
  | ⟨.w16, false, false⟩ => writeUInt16LE
  | ⟨.w16, false, true⟩ => writeUInt16BE
  | ⟨.w16, true, false⟩ => writeInt16LE
  | ⟨.w16, true, true⟩ => writeInt16BE
  | ⟨.w32, false, false⟩ => writeUInt32LE
  | ⟨.w32, false, true⟩ => writeUInt32BE
  | ⟨.w32, true, false⟩ => writeInt32LE
  | ⟨.w32, true, true⟩ => writeInt32BE

/-- The bytes in the order in which they lie in the Buffer. -/
def ordered (f : Format) (bs : Bytes) : Bytes := if f.bigEndian then bs.reverse else bs

/-- A whole number that fits. -/
def Fits (f : Format) (value : Number) : Prop := ∃ v, value = .int v ∧ InRange f.signed f.bytes v

/-- An offset with all bytes inside the Buffer. -/
def Inside (f : Format) (c : Slice) (offset : Number) : Prop := Offset f.bytes c.length offset

end Format

/-! ### One byte -/

variable {m : Mem} {c : Slice} {k : ℕ}

lemma bits_toNat {p : ℕ} (h : p < 2 ^ 32) : (Number.int p).bits.toNat = p := by
  rw [Number.bits_nat, BitVec.toNat_ofNat, Nat.mod_eq_of_lt h]

namespace Format

/-- The reader without its check. -/
def get : Format → Mem → Slice → Number → Number
  | ⟨.w8, false, _⟩ => byteAt
  | ⟨.w8, true, _⟩ => fun m this offset => toSigned 0x80 0xff (byteAt m this offset)
  | ⟨.w16, false, bigEndian⟩ => readUInt16 bigEndian
  | ⟨.w16, true, bigEndian⟩ => readInt16 bigEndian
  | ⟨.w32, false, bigEndian⟩ => readUInt32 bigEndian
  | ⟨.w32, true, bigEndian⟩ => readInt32 bigEndian

lemma read_eq (f : Format) : f.read = reader f.bytes f.get := by
  obtain ⟨width, signed, bigEndian⟩ := f
  cases width <;> cases signed <;> cases bigEndian <;> rfl

/-- The writer without its check. -/
def put : Format → Slice → Number → Number → Mem → Mem
  | ⟨.w8, false, _⟩ => fun this value offset => setByte this offset value
  | ⟨.w8, true, _⟩ => fun this value offset => setByte this offset (toUnsigned 0xff value)
  | ⟨.w16, false, bigEndian⟩ => writeUInt16 bigEndian
  | ⟨.w16, true, bigEndian⟩ => fun this value =>
    writeUInt16 bigEndian this (toUnsigned 0xffff value)
  | ⟨.w32, false, bigEndian⟩ => writeUInt32 bigEndian
  | ⟨.w32, true, bigEndian⟩ => fun this value =>
    writeUInt32 bigEndian this (toUnsigned 0xffffffff value)

/-- The bounds that a writer checks are those of what its bytes can hold. -/
lemma write_eq (f : Format) : ∃ max min : ℤ, f.write = writer f.bytes max min f.put ∧
    ∀ v, min ≤ v ∧ v ≤ max ↔ InRange f.signed f.bytes v := by
  have hrange {low high : ℤ} (v : ℤ) : low ≤ v ∧ v ≤ high ↔ low ≤ v ∧ v < high + 1 :=
    and_congr_right fun _ => Int.lt_add_one_iff.symm
  obtain ⟨width, signed, bigEndian⟩ := f
  cases width <;> cases signed <;> cases bigEndian <;> exact ⟨_, _, rfl, hrange⟩

end Format

end NodeCore.BufferAccess
