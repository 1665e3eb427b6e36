import NodeCore.StringSlices

/-!
Base64 in chunks.

Three bytes are a number of 24 bits, and the four characters that stand for them are its digits to
the base 64. A decoder passes whole groups on, whatever the cuts, and `end` gives the group that is
not complete.
-/

namespace NodeCore.StringDecoder

open NodeCore.Encoding

/-! ### Groups as numbers -/

def digit (n : ℕ) : UInt16 := base64Table.getD (n % 64) 0

/-- The base64 encoding. A last group is filled up with zeros, and padding stands for the digits
that would hold nothing else. -/
def base64Text : Bytes → Str
  | a :: b :: c :: r =>
    let n := a.toNat * 65536 + b.toNat * 256 + c.toNat
    digit (n / 262144) :: digit (n / 4096) :: digit (n / 64) :: digit n :: base64Text r
  | [a, b] =>
    let n := a.toNat * 65536 + b.toNat * 256
    [digit (n / 262144), digit (n / 4096), digit (n / 64), pad]
  | [a] =>
    let n := a.toNat * 65536
    [digit (n / 262144), digit (n / 4096), pad, pad]
  | [] => []

section Digits

variable (a b c : UInt8)

lemma base64Unit_of_toNat {i : UInt8} {n : ℕ} (h : i.toNat = n % 64) : base64Unit i = digit n := by
  rw [base64Unit, digit, h]

/-- High bits and low bits side by side. -/
lemma or_eq_add {k x y : ℕ} (hy : y < 2 ^ k) : 2 ^ k * x ||| y = 2 ^ k * x + y :=
  (Nat.two_pow_add_eq_or_of_lt hy x).symm

lemma toNat_first : (a >>> 2).toNat = a.toNat / 4 := by
  rw [UInt8.toNat_shiftRight, Nat.shiftRight_eq_div_pow]
  rfl

lemma toNat_second : (((a &&& 3) <<< 4) ||| (b >>> 4)).toNat = a.toNat % 4 * 16 + b.toNat / 16 := by
  have hb := b.toNat_lt
  have hand : a.toNat &&& 3 = a.toNat % 4 := Nat.and_two_pow_sub_one_eq_mod a.toNat 2
  have hor := or_eq_add (k := 4) (x := a.toNat % 4) (y := b.toNat / 16) (by omega)
  rw [UInt8.toNat_or, UInt8.toNat_shiftLeft, UInt8.toNat_shiftRight, UInt8.toNat_and]
  have h3 : (3 : UInt8).toNat = 3 := rfl
  have h4 : (4 : UInt8).toNat % 8 = 4 := rfl
  rw [h3, h4, hand, Nat.shiftLeft_eq, Nat.shiftRight_eq_div_pow]
  have hmod : a.toNat % 4 * 2 ^ 4 % 2 ^ 8 = 2 ^ 4 * (a.toNat % 4) := by omega
  have hdiv : b.toNat / 2 ^ 4 = b.toNat / 16 := rfl
  rw [hmod, hdiv, hor]
  omega

lemma toNat_third : (((b &&& 0x0F) <<< 2) ||| (c >>> 6)).toNat =
    b.toNat % 16 * 4 + c.toNat / 64 := by
  have hc := c.toNat_lt
  have hand : b.toNat &&& 15 = b.toNat % 16 := Nat.and_two_pow_sub_one_eq_mod b.toNat 4
  have hor := or_eq_add (k := 2) (x := b.toNat % 16) (y := c.toNat / 64) (by omega)
  rw [UInt8.toNat_or, UInt8.toNat_shiftLeft, UInt8.toNat_shiftRight, UInt8.toNat_and]
  have h15 : (0x0F : UInt8).toNat = 15 := rfl
  have h2 : (2 : UInt8).toNat % 8 = 2 := rfl
  have h6 : (6 : UInt8).toNat % 8 = 6 := rfl
  rw [h15, h2, h6, hand, Nat.shiftLeft_eq, Nat.shiftRight_eq_div_pow]
  have hmod : b.toNat % 16 * 2 ^ 2 % 2 ^ 8 = 2 ^ 2 * (b.toNat % 16) := by omega
  have hdiv : c.toNat / 2 ^ 6 = c.toNat / 64 := rfl
  rw [hmod, hdiv, hor]
  omega

lemma toNat_fourth : (c &&& 0x3F).toNat = c.toNat % 64 := by
  rw [UInt8.toNat_and]
  exact Nat.and_two_pow_sub_one_eq_mod c.toNat 6

/-- The second digit of a group of one byte, and the third of a group of two. -/
lemma toNat_last : ((a &&& 3) <<< 4).toNat = a.toNat % 4 * 16 ∧
    ((b &&& 0x0F) <<< 2).toNat = b.toNat % 16 * 4 := by
  have hsecond := toNat_second a 0
  have hthird := toNat_third b 0
  simpa using And.intro hsecond hthird

end Digits

/-- `base64_encode` gives the encoding. -/
theorem base64Slice_eq_text (b : Bytes) : base64Slice b = base64Text b := by
  induction b using base64Slice.induct with
  | case1 a b c r ih =>
    have ha := a.toNat_lt
    have hb := b.toNat_lt
    have hc := c.toNat_lt
    have h1 := toNat_first a
    have h2 := toNat_second a b
    have h3 := toNat_third b c
    have h4 := toNat_fourth c
    rw [base64Slice, base64Text, ih]
    congr 1
    · exact base64Unit_of_toNat (by omega)
    congr 1
    · exact base64Unit_of_toNat (by omega)
    congr 1
    · exact base64Unit_of_toNat (by omega)
    congr 1
    exact base64Unit_of_toNat (by omega)
  | case2 a b =>
    have ha := a.toNat_lt
    have hb := b.toNat_lt
    have h1 := toNat_first a
    have h2 := toNat_second a b
    have h3 := (toNat_last a b).2
    rw [base64Slice, base64Text]
    congr 1
    · exact base64Unit_of_toNat (by omega)
    congr 1
    · exact base64Unit_of_toNat (by omega)
    congr 1
    exact base64Unit_of_toNat (by omega)
  | case3 a =>
    have ha := a.toNat_lt
    have h1 := toNat_first a
    have h2 := (toNat_last a a).1
    rw [base64Slice, base64Text]
    congr 1
    · exact base64Unit_of_toNat (by omega)
    congr 1
    exact base64Unit_of_toNat (by omega)
  | case4 => rfl

/-! ### Padding -/

/-- The characters that stand for no byte. -/
def padding (size : ℕ) : ℕ := (3 - size % 3) % 3

lemma base64Text_padding (b : Bytes) :
    ∃ body, base64Text b = body ++ List.replicate (padding b.length) pad ∧ pad ∉ body := by
  obtain ⟨whole, held, rfl, hwhole, hheld⟩ := exists_groups b
  have hlen : padding (whole ++ held).length = padding held.length := by
    unfold padding
    rw [List.length_append]
    omega
  have hnone := pad_notMem_base64Slice hwhole
  have hplain (i : UInt8) : pad ≠ base64Unit i := (base64Unit_plain i).2.symm
  rw [← base64Slice_eq_text, base64Slice_append hwhole, hlen]
  rcases held with _ | ⟨a, _ | ⟨c, _ | ⟨x, held⟩⟩⟩
  · exact ⟨base64Slice whole, rfl, hnone⟩
  · refine ⟨base64Slice whole ++ (base64Slice [a]).take 2, by rw [List.append_assoc]; rfl, ?_⟩
    rw [List.mem_append, not_or]
    exact ⟨hnone, by simp [base64Slice, hplain]⟩
  · refine ⟨base64Slice whole ++ (base64Slice [a, c]).take 3, by rw [List.append_assoc]; rfl, ?_⟩
    rw [List.mem_append, not_or]
    exact ⟨hnone, by simp [base64Slice, hplain]⟩
  · exact absurd hheld (by simp)

/-! ### All chunks -/

/-- The writes give the groups that are complete. -/
lemma writeAll_base64 {d : Decoder} {held : Bytes} (hd : d.Grouped held) (chunks : List Bytes) :
    ∃ d' whole held', writeAll base64 d chunks = some (base64Slice whole, d') ∧
      d'.Grouped held' ∧ whole.length % 3 = 0 ∧ whole ++ held' = held ++ chunks.flatten := by
  induction chunks generalizing d held with
  | nil => exact ⟨d, [], held, rfl, hd, rfl, by simp⟩
  | cons buffer rest ih =>
    obtain ⟨d₁, whole, held₁, hwrite, hd₁, hwhole, hsplit⟩ := write_base64 hd buffer
    obtain ⟨d₂, whole', held₂, hrest, hd₂, hwhole', hsplit'⟩ := ih hd₁
    refine ⟨d₂, whole ++ whole', held₂, ?_, hd₂, ?_, ?_⟩
    · simp only [writeAll, hwrite, hrest, Option.map_some, base64Slice_append hwhole]
    · rw [List.length_append]
      omega
    · rw [List.append_assoc, hsplit', ← List.append_assoc, hsplit, List.append_assoc,
        List.flatten_cons]

/-- **However the bytes are cut, the decoder gives the base64 encoding of the whole**; the writes
give no padding, and in the encoding it stands at the end. -/
theorem base64_chunks (chunks : List Bytes) :
    (∃ written d, writeAll base64 .new chunks = some (written, d) ∧
      written ++ «end» base64 d = base64Text chunks.flatten ∧ pad ∉ written) ∧
    ∃ body, base64Text chunks.flatten =
      body ++ List.replicate (padding chunks.flatten.length) pad ∧ pad ∉ body := by
  obtain ⟨d, whole, held, hwrite, hd, hwhole, hsplit⟩ := writeAll_base64 Decoder.grouped_new chunks
  refine ⟨⟨base64Slice whole, d, hwrite, ?_, pad_notMem_base64Slice hwhole⟩,
    base64Text_padding chunks.flatten⟩
  rw [List.nil_append] at hsplit
  rw [end_base64 hd, ← base64Slice_append hwhole, hsplit, base64Slice_eq_text]

/-- `'Zm9vYg=='`, in chunks of one byte, two bytes, none and one. -/
example : decode base64 [[102], [111, 111], [], [98]] = some (js "Zm9vYg==") := by decide

end NodeCore.StringDecoder
