import NodeCore.Encoding
import NodeCore.Loop

/-!
`NodeBIO`: the bytes between OpenSSL and a socket, in a circular list of fixed-size buffers.
-/

namespace NodeCore.NodeBio

open NodeCore.Encoding NodeCore.Loop

@[irreducible] def kBufferLength : ℕ := 16 * 1024

structure Buffer where
  readPos : ℕ
  writePos : ℕ
  /-- The address of the next one. -/
  next : ℕ
  data : Bytes

/-- A new buffer; its bytes are not set, and nothing depends on them. -/
def Buffer.new (next : ℕ) : Buffer := ⟨0, 0, next, List.replicate kBufferLength 0⟩

/-- The buffers by their addresses, `head_` at 0; `new` gives the address `brk`. -/
structure Bio where
  length : ℕ
  readHead : ℕ
  writeHead : ℕ
  heap : ℕ → Buffer
  brk : ℕ

def Bio.new : Bio := ⟨0, 0, 0, fun _ => .new 0, 1⟩

def Bio.store (s : Bio) (a : ℕ) (b : Buffer) : Bio := { s with heap := Function.update s.heap a b }

/-! ### `NodeBIO::Read` -/

structure Reading where
  bio : Bio
  bytesRead : ℕ
  left : ℕ
  out : Bytes

/-- A round of the loop; without a destination the bytes are not copied. -/
def readRound (copy : Bool) (expected : ℕ) (t : Reading) : Round Reading Reading :=
  if t.bytesRead < expected then
    let b := t.bio.heap t.bio.readHead
    if b.readPos ≤ b.writePos then
      let avail := min (b.writePos - b.readPos) t.left
      let out := if copy then t.out ++ (b.data.drop b.readPos).take avail else t.out
      let readPos := b.readPos + avail
      let bytesRead := t.bytesRead + avail
      let left := t.left - avail
      if readPos = b.writePos then
        let bio := t.bio.store t.bio.readHead { b with readPos := 0, writePos := 0 }
        -- not beyond `write_head_`
        let bio := if bytesRead ≠ expected then { bio with readHead := b.next } else bio
        .next ⟨bio, bytesRead, left, out⟩
      else .next ⟨t.bio.store t.bio.readHead { b with readPos }, bytesRead, left, out⟩
    else .abort
  else if expected = t.bytesRead then .exit t
  else .abort

/-- `Read` of `size` bytes at most gives `n` bytes, `out` where there is a destination. -/
def Reads (s : Bio) (copy : Bool) (size n : ℕ) (out : Bytes) (s' : Bio) : Prop :=
  ∃ t, Exits (readRound copy (if s.length > size then size else s.length)) ⟨s, 0, size, []⟩ t ∧
    n = t.bytesRead ∧ out = t.out ∧ s' = { t.bio with length := t.bio.length - t.bytesRead }

/-! ### `NodeBIO::IndexOf` -/

structure Scanning where
  current : ℕ
  bytesRead : ℕ
  left : ℕ

def indexRound (s : Bio) (delim : UInt8) (max : ℕ) (t : Scanning) : Round Scanning ℕ :=
  if t.bytesRead < max then
    let b := s.heap t.current
    if b.readPos ≤ b.writePos then
      let avail := min (b.writePos - b.readPos) t.left
      let off := ((b.data.drop b.readPos).take avail).findIdx (· == delim)
      if off ≠ avail then .exit (t.bytesRead + off)
      else
        .next ⟨if b.readPos + avail = kBufferLength then b.next else t.current,
          t.bytesRead + off, t.left - off⟩
    else .abort
  else if max = t.bytesRead then .exit max
  else .abort

/-- `IndexOf` terminates and gives `i`. -/
def IndexOf (s : Bio) (delim : UInt8) (limit i : ℕ) : Prop :=
  Exits (indexRound s delim (if s.length > limit then limit else s.length)) ⟨s.readHead, 0, limit⟩ i

/-! ### `NodeBIO::Write` -/

structure Writing where
  bio : Bio
  /-- What is left of `data`. -/
  data : Bytes

def writeRound (t : Writing) : Round Writing Bio :=
  if t.data ≠ [] then
    let b := t.bio.heap t.bio.writeHead
    if b.writePos ≤ kBufferLength then
      let avail := kBufferLength - b.writePos
      let toWrite := if t.data.length > avail then avail else t.data.length
      let b := { b with
        data := b.data.take b.writePos ++ t.data.take toWrite ++ b.data.drop (b.writePos + toWrite)
        writePos := b.writePos + toWrite }
      let bio := { t.bio.store t.bio.writeHead b with length := t.bio.length + toWrite }
      let data := t.data.drop toWrite
      if b.writePos ≤ kBufferLength then
        if data ≠ [] then
          let bio :=
            if b.writePos = kBufferLength then
              { (bio.store bio.brk (.new b.next)).store bio.writeHead
                  { b with next := bio.brk } with
                brk := bio.brk + 1 }
            else bio
          .next ⟨{ bio with writeHead := (bio.heap bio.writeHead).next }, data⟩
        else .next ⟨bio, data⟩
      else .abort
    else .abort
  else .exit t.bio

def Writes (s : Bio) (data : Bytes) (s' : Bio) : Prop := Exits writeRound ⟨s, data⟩ s'

/-! ### `NodeBIO::Reset` -/

def resetRound (s : Bio) : Round Bio Bio :=
  let b := s.heap s.readHead
  if b.readPos ≠ b.writePos then
    if b.writePos > b.readPos then
      .next { s.store s.readHead { b with readPos := 0, writePos := 0 } with
        length := s.length - (b.writePos - b.readPos)
        readHead := b.next }
    else .abort
  else if s.length = 0 then .exit { s with writeHead := s.readHead }
  else .abort

def Resets (s s' : Bio) : Prop := Exits resetRound s s'

/-! ### `NodeBIO::Gets` -/

/-- `int` to `size_t`. -/
def toSize (i : ℤ) : ℕ := (i % 2 ^ 64).toNat

/-- `size_t` to `int`. -/
def toInt (n : ℕ) : ℤ := Int.bmod n (2 ^ 32)

/-- What `Gets` reads where `IndexOf` gave `i`. -/
def getsCount (size : ℤ) (i : ℕ) : ℤ :=
  let i := if toInt i < size then toInt i + 1 else toInt i
  if size = i then i - 1 else i

/-- `Gets` of `size` returns `n`, with the bytes `out`. -/
def Gets (s : Bio) (size n : ℤ) (out : Bytes) (s' : Bio) : Prop :=
  if s.length = 0 then n = 0 ∧ out = [] ∧ s' = s
  else ∃ i m, IndexOf s 10 (toSize size) i ∧ n = getsCount size i ∧ Reads s true (toSize n) m out s'

/-! ### Runs -/

inductive Op
  | write (data : Bytes)
  | read (copy : Bool) (size : ℕ)
  | gets (size : ℤ)
  | reset

inductive Res
  | done
  | bytes (n : ℕ) (out : Bytes)
  | line (n : ℤ) (out : Bytes)
  deriving DecidableEq

/-- An operation that completes, every assertion satisfied. -/
inductive Does (s : Bio) : Op → Res → Bio → Prop
  | write {data : Bytes} {s' : Bio} (h : Writes s data s') : Does s (.write data) .done s'
  | read {copy : Bool} {size n : ℕ} {out : Bytes} {s' : Bio} (h : Reads s copy size n out s') :
    Does s (.read copy size) (.bytes n out) s'
  | gets {size n : ℤ} {out : Bytes} {s' : Bio} (h : Gets s size n out s') :
    Does s (.gets size) (.line n out) s'
  | reset {s' : Bio} (h : Resets s s') : Does s .reset .done s'

/-- One operation after the other. -/
inductive Runs : Bio → List Op → List Res → Bio → Prop
  | nil {s : Bio} : Runs s [] [] s
  | cons {s s' s'' : Bio} {op : Op} {res : Res} {ops : List Op} {ress : List Res}
    (first : Does s op res s') (rest : Runs s' ops ress s'') : Runs s (op :: ops) (res :: ress) s''

end NodeCore.NodeBio
