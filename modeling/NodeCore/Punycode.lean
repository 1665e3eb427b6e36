import NodeCore.Encoding

/-!
`punycode`: the text of a domain name in ASCII, and back.

The code points below 0x80 come first; each of the others is a number of steps of the reader,
written in digits that become heavier at a pace given by the bias.
-/

namespace NodeCore.Punycode

open Encoding

def maxInt : ℕ := 2147483647
def base : ℕ := 36
def tMin : ℕ := 1
def tMax : ℕ := 26
def skew : ℕ := 38
def damp : ℕ := 700
def initialBias : ℕ := 72
def initialN : ℕ := 128
def delimiter : UInt16 := 45

/-- What is thrown. The code goes on with a digit below zero, which is the text of no encoder;
the model ends there with `negative`. -/
inductive Failure
  | overflow | notBasic | invalidInput | negative
  deriving DecidableEq

def errors : Failure → Option String
  | .overflow => "Overflow: input needs wider integers to process"
  | .notBasic => "Illegal input >= 0x80 (not a basic code point)"
  | .invalidInput => "Invalid input"
  | .negative => none

/-! ### Code points -/

/-- The mask 0xF800 lets a low surrogate open a pair too. -/
def ucs2decode : Str → List ℕ
  | value :: extra :: rest =>
    if isLead value || isTrail value then
      if isTrail extra then combine value extra :: ucs2decode rest
      else value.toNat :: extra.toNat :: ucs2decode rest
    else value.toNat :: ucs2decode (extra :: rest)
  | [value] => [value.toNat]
  | [] => []

def ucs2encode (array : List ℕ) : Str :=
  array.flatMap fun value =>
    if value > 0xFFFF then
      [UInt16.ofNat (0xD800 + (value - 0x10000) / 0x400 % 0x400),
        UInt16.ofNat (0xDC00 + (value - 0x10000) % 0x400)]
    else [UInt16.ofNat value]

def basicToDigit (codePoint : ℤ) : ℤ :=
  if codePoint - 48 < 10 then codePoint - 22
  else if codePoint - 65 < 26 then codePoint - 65
  else if codePoint - 97 < 26 then codePoint - 97
  else base

/-- With `flag` 0, as everywhere. -/
def digitToBasic (digit : ℕ) : UInt16 :=
  UInt16.ofNat (digit + 22 + 75 * (if digit < 26 then 1 else 0))

/-! ### The bias -/

/-- The loop of `adapt`, and what it returns. -/
def adaptLoop (delta k : ℕ) : ℕ :=
  if delta > (base - tMin) * tMax / 2 then adaptLoop (delta / (base - tMin)) (k + base)
  else k + (base - tMin + 1) * delta / (delta + skew)
termination_by delta
decreasing_by exact Nat.div_lt_self (Nat.zero_lt_of_lt ‹_›) (by decide)

def adapt (delta numPoints : ℕ) (firstTime : Bool) : ℕ :=
  let delta := if firstTime then delta / damp else delta / 2
  adaptLoop (delta + delta / numPoints) 0

/-- The `t` of both loops. -/
def threshold (k bias : ℕ) : ℕ :=
  if k ≤ bias then tMin else if k ≥ bias + tMax then tMax else k - bias

lemma threshold_pos (k bias : ℕ) : 1 ≤ threshold k bias := by
  unfold threshold tMin tMax
  split_ifs <;> omega

lemma threshold_le (k bias : ℕ) : threshold k bias ≤ 26 := by
  unfold threshold tMin tMax
  split_ifs <;> omega

/-! ### Writing -/

/-- `delta` as a generalized variable-length integer, from the digit `k` on. -/
def digits (bias k q : ℕ) : Str :=
  let t := threshold k bias
  if q < t then [digitToBasic q]
  else digitToBasic (t + (q - t) % (base - t)) :: digits bias (k + base) ((q - t) / (base - t))
termination_by q
decreasing_by
  have := threshold_pos k bias
  exact (Nat.div_le_self _ _).trans_lt (by omega)

structure Encoder where
  output : Str
  delta : ℕ
  bias : ℕ
  handledCPCount : ℕ

/-- One code point of the input in the round of `n`. -/
def point (n basicLength handledCPCountPlusOne : ℕ) (s : Encoder) (currentValue : ℕ) :
    Except Failure Encoder :=
  if currentValue < n then
    if s.delta + 1 > maxInt then .error .overflow else .ok { s with delta := s.delta + 1 }
  else if currentValue = n then
    .ok {
      output := s.output ++ digits s.bias base s.delta
      delta := 0
      bias := adapt s.delta handledCPCountPlusOne (s.handledCPCount = basicLength)
      handledCPCount := s.handledCPCount + 1 }
  else .ok s

/-- The next code point to be handled. -/
def nextPoint (input : List ℕ) (n : ℕ) : ℕ :=
  input.foldl (fun m currentValue =>
    if currentValue ≥ n ∧ currentValue < m then currentValue else m) maxInt

/-- The main loop. A round handles at least one code point, so `fuel` is the length of the
input. -/
def rounds (input : List ℕ) (basicLength : ℕ) : ℕ → ℕ → Encoder → Except Failure Encoder
  | 0, _, s => .ok s
  | fuel + 1, n, s =>
    if s.handledCPCount < input.length then
      let m := nextPoint input n
      let handledCPCountPlusOne := s.handledCPCount + 1
      if (m - n : ℤ) > ((maxInt - s.delta : ℤ) / handledCPCountPlusOne) then .error .overflow
      else do
        let s ← input.foldlM (point m basicLength handledCPCountPlusOne)
          { s with delta := s.delta + (m - n) * handledCPCountPlusOne }
        rounds input basicLength fuel (m + 1) { s with delta := s.delta + 1 }
    else .ok s

/-- What is below 0x80, and the delimiter after it. -/
def basicString (input : List ℕ) : Str :=
  let basic := (input.filter (· < 0x80)).map UInt16.ofNat
  if basic = [] then [] else basic ++ [delimiter]

def encodePoints (input : List ℕ) : Except Failure Str := do
  let basicLength := (input.filter (· < 0x80)).length
  let s ← rounds input basicLength input.length initialN
    ⟨basicString input, 0, initialBias, basicLength⟩
  return s.output

def encode (input : Str) : Except Failure Str := encodePoints (ucs2decode input)

/-! ### Reading -/

structure Decoder where
  output : List ℕ
  i : ℕ
  n : ℕ
  bias : ℕ

/-- The inner loop: `i` with the digits read, and the text after them. -/
def readDelta (bias : ℕ) : Str → ℕ → ℕ → ℕ → Except Failure (ℕ × Str)
  | [], _, _, _ => .error .invalidInput
  | c :: rest, k, w, i =>
    let digit := basicToDigit c.toNat
    if digit < 0 then .error .negative
    else if digit ≥ base ∨ digit > ((maxInt - i) / w : ℕ) then .error .overflow
    else
      let i := i + digit.toNat * w
      let t := threshold k bias
      if digit < t then .ok (i, rest)
      else if w > maxInt / (base - t) then .error .overflow
      else readDelta bias rest (k + base) (w * (base - t)) i

lemma readDelta_length {bias : ℕ} {s : Str} {k w i : ℕ} {r : ℕ × Str}
    (h : readDelta bias s k w i = .ok r) : r.2.length < s.length := by
  induction s generalizing k w i with
  | nil => cases h
  | cons c rest ih =>
    simp only [readDelta] at h
    split_ifs at h
    · cases h
      exact Nat.lt_succ_self _
    · exact (ih h).trans (Nat.lt_succ_self _)

/-- A turn of the main loop of the decoder, once `i` has the digits. -/
def Decoder.insert (D : Decoder) (i : ℕ) : Except Failure Decoder :=
  let out := D.output.length + 1
  if i / out > maxInt - D.n then .error .overflow
  else
    let n := D.n + i / out
    .ok {
      output := D.output.take (i % out) ++ n :: D.output.drop (i % out)
      i := i % out + 1
      n
      bias := adapt (i - D.i) out (D.i = 0) }

def decodeLoop (input : Str) (D : Decoder) : Except Failure (List ℕ) :=
  if input = [] then .ok D.output
  else
    match _h : readDelta D.bias input base 1 D.i with
    | .error e => .error e
    | .ok (i, rest) =>
      match D.insert i with
      | .error e => .error e
      | .ok D => decodeLoop rest D
termination_by input.length
decreasing_by exact readDelta_length ‹_›

/-- `input.lastIndexOf(delimiter)`, or 0 where there is none. -/
def basicEnd (input : Str) : ℕ := input.length - 1 - input.reverse.idxOf delimiter

def decodePoints (input : Str) : Except Failure (List ℕ) :=
  let basic := basicEnd input
  if (input.take basic).any (· ≥ 0x80) then .error .notBasic
  else
    decodeLoop (input.drop (if basic > 0 then basic + 1 else 0))
      ⟨(input.take basic).map UInt16.toNat, 0, initialN, initialBias⟩

def decode (input : Str) : Except Failure Str := (decodePoints input).map ucs2encode

/-! ### Domains -/

/-- `regexSeparators` -/
def isSeparator (c : UInt16) : Bool := c ∈ [0x2E, 0x3002, 0xFF0E, 0xFF61]

/-- `map`, which starts at the last element. -/
def map (fn : Str → Except Failure Str) : List Str → Except Failure (List Str)
  | [] => .ok []
  | s :: array => do
    let array ← map fn array
    let s ← fn s
    return s :: array

def mapDomain (string : Str) (fn : Str → Except Failure Str) : Except Failure Str := do
  let labels ← map fn (string.splitOnP isSeparator)
  return [0x2E].intercalate labels

/-- `regexPunycode.test` -/
def isPunycode (string : Str) : Bool := (js "xn--").isPrefixOf string

/-- `regexNonASCII.test` -/
def isNonASCII (string : Str) : Bool := string.any fun c => c < 32 ∨ 126 < c

def labelToUnicode (string : Str) : Except Failure Str :=
  if isPunycode string then decode (toLowerCase (string.drop 4)) else .ok string

def labelToASCII (string : Str) : Except Failure Str :=
  if isNonASCII string then (encode string).map (js "xn--" ++ ·) else .ok string

def toUnicode (domain : Str) : Except Failure Str := mapDomain domain labelToUnicode

def toASCII (domain : Str) : Except Failure Str := mapDomain domain labelToASCII

end NodeCore.Punycode
