import Mathlib.Data.List.TakeWhile
import NodeCore.EncodeConcat

/-!
`StringBytes` with a buffer that is larger than the string needs.

`Write` is told how much room there is and stops when it is used up, each encoding in its own
unit. `StorageSize` is a bound on the bytes of a string that is found without looking at them.
-/

namespace NodeCore.StringBytes

open NodeCore.Encoding NodeCore.EncodeConcat

/-- `enum encoding`. -/
inductive Coding
  | ascii | utf8 | base64 | ucs2 | binary | hex | buffer
  deriving DecidableEq

/-- The comparisons of `ParseEncoding`, on a name in lower case. -/
def parseName (n : Str) (_default : Coding) : Coding :=
  if n = js "utf8" ∨ n = js "utf-8" then .utf8
  else if n = js "ascii" then .ascii
  else if n = js "base64" then .base64
  else if n = js "ucs2" ∨ n = js "ucs-2" ∨ n = js "utf16le" ∨ n = js "utf-16le" then .ucs2
  else if n = js "binary" then .binary
  else if n = js "buffer" then .buffer
  else if n = js "hex" then .hex
  else if n = js "raw" ∨ n = js "raws" then .binary
  else _default

/-- `ParseEncoding`. `strcasecmp` reads a C string, which ends at the first NUL. -/
def parseEncoding (encoding_v : EncArg) (_default : Coding) : Coding :=
  match encoding_v with
  | none => _default
  | some name => parseName (toLowerCase (name.takeWhile (· ≠ 0))) _default

/-- `Size`. -/
def size (str : Str) : Coding → ℕ
  | .binary | .buffer | .ascii => str.length
  | .utf8 => (writeUtf8 str).length
  | .ucs2 => str.length * 2
  | .base64 => base64DecodedSize (writeUtf8 str)
  | .hex => str.length / 2

/-- `StorageSize`; `none` is the failed assertion. -/
def storageSize (str : Str) : Coding → Option ℕ
  | .binary | .buffer | .ascii => some str.length
  | .utf8 => some (3 * str.length)
  | .ucs2 => some (str.length * 2)
  | .base64 => some (base64DecodedSizeFast str.length)
  | .hex => if str.length % 2 = 0 then some (str.length / 2) else none

/-- What both writers of a stream take for the size of a string. -/
def chunkSize (str : Str) (encoding : Coding) : Option ℕ :=
  if encoding = .utf8 ∧ str.length > 65535 then some (size str encoding)
  else storageSize str encoding

/-- `String::WriteUtf8` with a capacity: whole characters as long as they fit. -/
def writeUtf8Within (capacity : ℕ) (str : Str) : Bytes :=
  writeUtf8 (str.take
    (Nat.findGreatest (fun k => (writeUtf8 (str.take k)).length ≤ capacity) str.length))

/-- `Write`. The room is counted in characters where V8 does the copying, so that `UCS2` can write
twice as many bytes. -/
def write (buflen : ℕ) (str : Str) : Coding → Bytes
  | .ascii | .binary | .buffer => writeOneByte (str.take buflen)
  | .utf8 => writeUtf8Within buflen str
  | .ucs2 => writeUcs2 (str.take buflen)
  | .base64 => base64Decode buflen 0 0 (writeUtf8 str)
  | .hex => (hexDecode (writeUtf8 str)).take buflen

/-! ### Enough room -/

/-- All the bytes of a string. -/
def full (str : Str) : Coding → Bytes
  | .ascii | .binary | .buffer => writeOneByte str
  | .utf8 => writeUtf8 str
  | .ucs2 => writeUcs2 str
  | .base64 => base64Decode (base64DecodedSize (writeUtf8 str)) 0 0 (writeUtf8 str)
  | .hex => hexDecode (writeUtf8 str)

lemma writeUtf8Within_of_le {capacity : ℕ} {str : Str} (h : (writeUtf8 str).length ≤ capacity) :
    writeUtf8Within capacity str = writeUtf8 str := by
  have hall : Nat.findGreatest (fun k => (writeUtf8 (str.take k)).length ≤ capacity) str.length =
      str.length := Nat.findGreatest_eq (by rwa [List.take_length])
  rw [writeUtf8Within, hall, List.take_length]

/-- Less room only cuts the end off. -/
lemma base64Decode_take (len k ph : ℕ) (last : UInt8) (src : Bytes) :
    base64Decode len ph last src = (base64Decode (len + k) ph last src).take len := by
  induction src generalizing len ph last with
  | nil => simp [base64Decode]
  | cons c t ih =>
    cases len with
    | zero => simp [base64Decode]
    | succ n =>
      have hadd : n + 1 + k - 1 = n + k := by omega
      have hadd' : n + 1 + k = n + k + 1 := by omega
      cases hc : unbase64 c with
      | none =>
        simp only [base64Decode, hc, Nat.add_one_ne_zero, if_false]
        rw [ih (n + 1), hadd', if_neg (Nat.add_one_ne_zero _)]
      | some v =>
        have hcases : ph = 0 ∨ ph = 1 ∨ ph = 2 ∨ (ph ≠ 0 ∧ ph ≠ 1 ∧ ph ≠ 2) := by omega
        have hne : n + 1 + k ≠ 0 := by omega
        rcases hcases with rfl | rfl | rfl | ⟨h0, h1, h2⟩
        · simp only [base64Decode, hc, Nat.add_one_ne_zero, if_false, if_true, hne]
          exact ih (n + 1) 1 v
        · simp [base64Decode, hc, hadd, ih n]
        · simp [base64Decode, hc, hadd, ih n]
        · simp [base64Decode, hc, hadd, h0, h1, h2, ih n]

lemma base64Decode_of_le {m n : ℕ} {src : Bytes} (hm : 3 * sextets src / 4 ≤ m)
    (hn : 3 * sextets src / 4 ≤ n) : base64Decode m 0 0 src = base64Decode n 0 0 src := by
  have hlength : ∀ k, (base64Decode k 0 0 src).length ≤ 3 * sextets src / 4 := by
    intro k
    rw [base64Decode_length _ _ _ _ (by omega)]
    simp
  rcases Nat.le_total m n with h | h
  · obtain ⟨k, rfl⟩ := Nat.exists_eq_add_of_le h
    rw [base64Decode_take m k, List.take_of_length_le ((hlength _).trans hm)]
  · obtain ⟨k, rfl⟩ := Nat.exists_eq_add_of_le h
    rw [base64Decode_take n k, List.take_of_length_le ((hlength _).trans hn)]

/-- With room for them all, `Write` writes all the bytes. -/
theorem write_of_le {buflen : ℕ} {str : Str} {encoding : Coding}
    (h : (full str encoding).length ≤ buflen) : write buflen str encoding = full str encoding := by
  cases encoding with
  | ascii | binary | buffer =>
    simp only [full, writeOneByte, List.length_map] at h
    simp only [write, full, List.take_of_length_le h]
  | utf8 => exact writeUtf8Within_of_le h
  | ucs2 =>
    simp only [full, writeUcs2_length] at h
    simp only [write, full]
    rw [List.take_of_length_le (by omega)]
  | base64 =>
    simp only [full, base64_length] at h
    exact base64Decode_of_le h (base64DecodedSize_ge _)
  | hex => exact List.take_of_length_le h

/-- No more than there is room for, in characters where `UCS2` counts them. -/
lemma write_length_le (buflen : ℕ) (str : Str) (encoding : Coding) :
    (write buflen str encoding).length ≤ if encoding = .ucs2 then 2 * buflen else buflen := by
  cases encoding with
  | ascii | binary | buffer =>
    simp only [reduceCtorEq, if_false]
    rw [write, writeOneByte, List.length_map, List.length_take]
    exact Nat.min_le_left _ _
  | utf8 =>
    have hfits := Nat.findGreatest_spec (P := fun k => (writeUtf8 (str.take k)).length ≤ buflen)
      (Nat.zero_le str.length) (Nat.zero_le _)
    simp only [reduceCtorEq, if_false]
    exact hfits
  | ucs2 =>
    rw [if_pos rfl, write, writeUcs2_length, List.length_take]
    omega
  | base64 =>
    simp only [reduceCtorEq, if_false]
    rw [write, base64Decode_length _ _ _ _ (Nat.zero_le _)]
    exact Nat.min_le_left _ _
  | hex =>
    simp only [reduceCtorEq, if_false]
    rw [write, List.length_take]
    exact Nat.min_le_left _ _

/-! ### The estimate is enough -/

lemma utf8Unit_length_le (c : UInt16) : (utf8Unit c).length ≤ 3 := by
  unfold utf8Unit
  split_ifs <;> simp

lemma writeUtf8_length_le (s : Str) : (writeUtf8 s).length ≤ 3 * s.length := by
  induction s using writeUtf8.induct with
  | case1 => simp [writeUtf8]
  | case2 c => simpa [writeUtf8] using utf8Unit_length_le c
  | case3 c d r hcd ih =>
    simp only [writeUtf8, hcd, and_self, if_true, List.length_append, utf8Pair_length,
      List.length_cons]
    omega
  | case4 c d r hcd ih =>
    have hc := utf8Unit_length_le c
    simp only [writeUtf8, hcd, if_false, List.length_append, List.length_cons] at ih ⊢
    omega

/-- The bytes of a character that is not in ASCII are not in ASCII. -/
lemma utf8Unit_high {c : UInt16} (h : ¬ c < 0x80) : ∀ b ∈ utf8Unit c, 0x80 ≤ b.toNat := by
  have hc := UInt16.toNat_lt c
  simp only [UInt16.lt_iff_toNat_lt, UInt16.reduceToNat] at h
  intro b hb
  simp only [utf8Unit, UInt16.le_iff_toNat_le, UInt16.reduceToNat] at hb
  split_ifs at hb with h1 h2
  · omega
  all_goals
    simp only [List.mem_cons, List.not_mem_nil, or_false] at hb
    rcases hb with rfl | rfl | rfl <;> simp only [UInt8.toNat_ofNat'] <;> omega

lemma utf8Pair_high (c d : UInt16) : ∀ b ∈ utf8Pair c d, 0x80 ≤ b.toNat := by
  intro b hb
  have hp : combine c d < 0x110000 := by
    unfold combine
    omega
  simp only [utf8Pair, List.mem_cons, List.not_mem_nil, or_false] at hb
  rcases hb with rfl | rfl | rfl | rfl <;> simp only [UInt8.toNat_ofNat'] <;> omega

lemma unbase64_high {b : UInt8} (h : 0x80 ≤ b.toNat) : unbase64 b = none := by
  simp only [unbase64, UInt8.le_iff_toNat_le, UInt8.reduceToNat, ← UInt8.toNat_inj]
  split_ifs <;> first | rfl | omega

lemma hex2bin_high {b : UInt8} (h : 0x80 ≤ b.toNat) : hex2bin b = none := by
  simp only [hex2bin, UInt8.le_iff_toNat_le, UInt8.reduceToNat]
  split_ifs <;> first | rfl | omega

lemma sextets_high {u : Bytes} (h : ∀ b ∈ u, 0x80 ≤ b.toNat) : sextets u = 0 := by
  have hnone : ∀ b ∈ u, ¬ (unbase64 b).isSome = true := by
    intro b hb
    simp [unbase64_high (h b hb)]
  rw [sextets, List.filter_eq_nil_iff.mpr hnone, List.length_nil]

lemma sextets_utf8Unit (c : UInt16) : sextets (utf8Unit c) ≤ 1 := by
  by_cases hc : c < 0x80
  · rw [utf8Unit_ascii hc]
    exact sextets_le _
  · rw [sextets_high (utf8Unit_high hc)]
    exact Nat.zero_le _

lemma sextets_writeUtf8 (s : Str) : sextets (writeUtf8 s) ≤ s.length := by
  induction s using writeUtf8.induct with
  | case1 => simp [writeUtf8, sextets]
  | case2 c => simpa [writeUtf8] using sextets_utf8Unit c
  | case3 c d r hcd ih =>
    simp only [writeUtf8, hcd, and_self, if_true, sextets_append, sextets_high (utf8Pair_high c d),
      List.length_cons]
    omega
  | case4 c d r hcd ih =>
    have hc := sextets_utf8Unit c
    simp only [writeUtf8, hcd, if_false, sextets_append, List.length_cons] at ih ⊢
    omega

lemma utf8Unit_length_high {c : UInt16} (h : ¬ c < 0x80) : 2 ≤ (utf8Unit c).length := by
  have hc : ¬ c ≤ 0x7F := by
    simp only [UInt16.le_iff_toNat_le, UInt16.lt_iff_toNat_lt, UInt16.reduceToNat] at h ⊢
    omega
  rw [utf8Unit, if_neg hc]
  split_ifs <;> simp

lemma writeUtf8_length_gt {c : UInt16} (h : ¬ c < 0x80) (r : Str) :
    (c :: r).length < (writeUtf8 (c :: r)).length := by
  have hunit := utf8Unit_length_high h
  cases r with
  | nil =>
    simp only [writeUtf8, List.length_singleton]
    omega
  | cons d r =>
    have hrest := writeUtf8_length_ge r
    have hrest' := writeUtf8_length_ge (d :: r)
    simp only [writeUtf8]
    split_ifs <;> simp only [List.length_append, utf8Pair_length, List.length_cons] at hrest' ⊢ <;>
      omega

/-- A string up to its first character that is not in ASCII. -/
lemma ascii_or_split (s : Str) :
    Ascii s ∨ ∃ u c r, Ascii u ∧ ¬ c < 0x80 ∧ s = u ++ c :: r := by
  induction s with
  | nil => exact .inl fun c hc => by cases hc
  | cons c r ih =>
    by_cases hc : c < 0x80
    · have hcons : ∀ {u : Str}, Ascii u → Ascii (c :: u) := fun hu x hx => by
        rcases List.mem_cons.mp hx with rfl | hx
        · exact hc
        · exact hu x hx
      rcases ih with hr | ⟨u, d, t, hu, hd, rfl⟩
      · exact .inl (hcons hr)
      · exact .inr ⟨c :: u, d, t, hcons hu, hd, rfl⟩
    · exact .inr ⟨[], c, r, fun x hx => (by cases hx), hc, rfl⟩

lemma hexDecode_length (u : Bytes) : (hexDecode u).length ≤ u.length / 2 := by
  induction u using hexDecode.induct with
  | case1 x y r i j hi hj ih =>
    simp only [hexDecode, hi, hj, List.length_cons]
    omega
  | case2 x y r hxy => simp [hexDecode]
  | case3 u hu =>
    -- fewer than two characters
    rcases u with _ | ⟨x, _ | ⟨y, r⟩⟩
    · simp [hexDecode]
    · simp [hexDecode]
    · exact absurd rfl (hu x y r)

lemma writeUtf8_head_high {c : UInt16} (h : ¬ c < 0x80) (r : Str) :
    ∃ b t, writeUtf8 (c :: r) = b :: t ∧ 0x80 ≤ b.toNat := by
  obtain ⟨b, t, hbt⟩ : ∃ b t, utf8Unit c = b :: t :=
    List.exists_cons_of_length_pos (utf8Unit_length_pos c)
  have hb : 0x80 ≤ b.toNat := utf8Unit_high h b (hbt ▸ List.mem_cons_self)
  cases r with
  | nil => exact ⟨b, t, by simpa only [writeUtf8] using hbt, hb⟩
  | cons d r =>
    simp only [writeUtf8]
    split_ifs
    · exact ⟨_, _, rfl, utf8Pair_high c d _ List.mem_cons_self⟩
    · exact ⟨b, t ++ writeUtf8 (d :: r), by rw [hbt, List.cons_append], hb⟩

/-- Only in ASCII is there one byte for a character. -/
lemma ascii_of_length {s : Str} (h : (writeUtf8 s).length ≤ s.length) : Ascii s := by
  rcases ascii_or_split s with hs | ⟨u, c, r, hu, hc, rfl⟩
  · exact hs
  · have hlong := writeUtf8_length_gt hc r
    rw [writeUtf8_ascii_append hu] at h
    simp only [writeOneByte, List.length_append, List.length_map] at h
    omega

lemma hexDecode_writeUtf8 (s : Str) : (hexDecode (writeUtf8 s)).length ≤ s.length / 2 := by
  rcases ascii_or_split s with hs | ⟨u, c, r, hu, hc, rfl⟩
  · rw [writeUtf8_ascii hs]
    simpa [writeOneByte] using hexDecode_length (writeOneByte s)
  · obtain ⟨b, t, hbt, hb⟩ := writeUtf8_head_high hc r
    rw [writeUtf8_ascii_append hu, hbt]
    have hle := hexDecode_length_le (u := writeOneByte u) (v := t) (hex2bin_high hb)
    simp only [writeOneByte, List.length_map] at hle
    simp only [writeOneByte, List.length_append, List.length_cons]
    omega

lemma base64DecodedSizeFast_mono {m n : ℕ} (h : m ≤ n) :
    3 * m / 4 ≤ base64DecodedSizeFast n :=
  (by omega : 3 * m / 4 ≤ 3 * n / 4).trans (base64DecodedSizeFast_ge n)

/-- `StorageSize` is at least the number of bytes. -/
theorem full_length_le {str : Str} {encoding : Coding} {n : ℕ}
    (h : chunkSize str encoding = some n) : (full str encoding).length ≤ n := by
  unfold chunkSize at h
  split_ifs at h with hlong
  · obtain ⟨rfl, -⟩ := hlong
    cases h
    exact le_rfl
  · cases encoding with
    | ascii | binary | buffer =>
      cases h
      simp [full, writeOneByte]
    | utf8 =>
      cases h
      exact writeUtf8_length_le str
    | ucs2 =>
      cases h
      simp only [full, writeUcs2_length]
      omega
    | base64 =>
      cases h
      simp only [full, base64_length]
      exact base64DecodedSizeFast_mono (sextets_writeUtf8 str)
    | hex =>
      simp only [storageSize] at h
      split_ifs at h
      cases h
      exact hexDecode_writeUtf8 str

/-! ### The names that a Buffer knows -/

/-- The encodings of a Buffer among them all. -/
def ofEnc : Enc → Coding
  | .ascii => .ascii
  | .utf8 => .utf8
  | .ucs2 => .ucs2
  | .base64 => .base64
  | .binary => .binary
  | .hex => .hex

/-- `Buffer.prototype.write` as far as the name goes. -/
lemma write_eq (e : Enc) (s : Str) :
    Encoding.write e s =
      if e = .hex ∧ s.length % 2 ≠ 0 then none else some (full s (ofEnc e)) := by
  cases e with
  | hex =>
    simp only [Encoding.write, full, ofEnc, true_and, ite_not]
  | ascii | utf8 | ucs2 | base64 | binary => rfl

end NodeCore.StringBytes
