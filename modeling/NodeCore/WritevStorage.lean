import NodeCore.Writev

/-!
The storage of `StreamWrap::Writev`, in the integers of the machine.

The first loop adds up in a `size_t`, and the bytes of a long string are counted in an `int`. What
it has come to is enough for the second loop if neither of them has wrapped around.
-/

namespace NodeCore.WritevStorage

open NodeCore.Encoding NodeCore.EncodeConcat NodeCore.StringBytes NodeCore.Writev

/-- An `int`. -/
def toInt (n : ℕ) : ℤ := (n : ℤ).bmod (2 ^ 32)

/-- A `size_t` of `w` bits. -/
def toSize (w : ℕ) (i : ℤ) : ℕ := (i % 2 ^ w).toNat

/-- `chunk_size`; `Utf8Length` is an `int`. -/
def chunkSizeIn (w : ℕ) (string : Str) (encoding : Coding) : Option ℕ :=
  if encoding = .utf8 ∧ string.length > 65535 then
    some (toSize w (toInt (size string encoding)))
  else (storageSize string encoding).map fun n : ℕ => toSize w n

/-- The first loop of `Writev`. -/
def storagePass (w : ℕ) : ℕ → List Entry → Option ℕ
  | storage_size, [] => some storage_size
  | storage_size, e :: es =>
    match e.chunk with
    | .buf _ => storagePass w storage_size es
    | .str string =>
      (chunkSizeIn w string (coding e)).bind fun chunk_size =>
        storagePass w ((storage_size + (chunk_size + 15)) % 2 ^ w) es

/-- **What is claimed** of the second loop, from an offset on. -/
inductive Inside (w storage_size : ℕ) : ℕ → List Entry → Prop
  | done {offset : ℕ} : Inside w storage_size offset []
  | buffer {offset : ℕ} {b : Bytes} {encoding : EncArg} {es : List Entry}
      (rest : Inside w storage_size offset es) :
      Inside w storage_size offset (⟨.buf b, encoding⟩ :: es)
  | string {offset start chunk_size : ℕ} {string : Str} {encoding : EncArg} {es : List Entry}
      (start_eq : start = roundUp offset 16)
      (aligned : 16 ∣ start)
      (below : start < storage_size)
      (size : chunkSizeIn w string (parseEncoding encoding .binary) = some chunk_size)
      (room : chunk_size ≤ storage_size - start)
      (inside : start + (write (storage_size - start) string
        (parseEncoding encoding .binary)).length ≤ storage_size)
      (rest : Inside w storage_size
        (start + (write (storage_size - start) string (parseEncoding encoding .binary)).length)
        es) :
      Inside w storage_size offset (⟨.str string, encoding⟩ :: es)

/-- What `Utf8Length` counts. -/
def counted (e : Entry) : ℕ :=
  match e.chunk with
  | .buf _ => 0
  | .str string => if coding e = .utf8 ∧ string.length > 65535 then size string .utf8 else 0

/-- Neither of the integers wraps around. -/
structure Fits (w : ℕ) (chunks : List Entry) : Prop where
  int : ∀ e ∈ chunks, counted e < 2 ^ 31
  size : (chunks.map needs).sum < 2 ^ w

/-- `String::kMaxLength`. -/
def kMaxStringLength : ℕ := 2 ^ 30 - 1

def characters (e : Entry) : ℕ :=
  match e.chunk with
  | .buf _ => 0
  | .str string => string.length

/-- What V8 hands over: an array of strings that are no longer than strings are. -/
structure Given (chunks : List Entry) : Prop where
  string : ∀ e ∈ chunks, characters e ≤ kMaxStringLength
  array : chunks.length < 2 ^ 31

/-! ### Integers -/

lemma toSize_of_lt {w n : ℕ} (h : n < 2 ^ w) : toSize w n = n := by
  have hmod : (n : ℤ) % 2 ^ w = n := Int.emod_eq_of_lt (Int.natCast_nonneg n) (mod_cast h)
  rw [toSize, hmod, Int.toNat_natCast]

lemma toInt_of_lt {n : ℕ} (h : n < 2 ^ 31) : toInt n = n := by
  unfold toInt Int.bmod
  dsimp only
  split_ifs <;> omega

/-- Too many bytes for an `int` are more than the largest `int` for a `size_t`. -/
lemma toSize_toInt_of_le {w n : ℕ} (hw : w = 32 ∨ w = 64) (hn : 2 ^ 31 ≤ n) (hlt : n < 2 ^ 32) :
    2 ^ 31 ≤ toSize w (toInt n) := by
  have hint : toInt n = n - 2 ^ 32 := by
    unfold toInt Int.bmod
    dsimp only
    split_ifs <;> omega
  rw [hint, toSize]
  rcases hw with rfl | rfl <;> omega

lemma chunkSizeIn_of_lt {w n : ℕ} {e : Entry} {string : Str} (hchunk : e.chunk = .str string)
    (hn : chunkSize string (coding e) = some n) (hlt : n < 2 ^ w) (hint : counted e < 2 ^ 31) :
    chunkSizeIn w string (coding e) = some n := by
  unfold chunkSize at hn
  unfold chunkSizeIn
  split_ifs at hn ⊢ with hlong
  · obtain rfl := Option.some.inj hn
    simp only [counted, hchunk, if_pos hlong] at hint
    rw [hlong.1] at hlt ⊢
    rw [toInt_of_lt hint, toSize_of_lt hlt]
  · rw [hn, Option.map_some, toSize_of_lt hlt]

/-- The one fails where the other does. -/
lemma chunkSizeIn_eq_none {w : ℕ} {string : Str} {encoding : Coding}
    (h : chunkSize string encoding = none) : chunkSizeIn w string encoding = none := by
  unfold chunkSize at h
  unfold chunkSizeIn
  split_ifs at h ⊢
  rw [h, Option.map_none]

/-! ### The first loop -/

/-- The same sizes with and without the integers of the machine. -/
def SameSizes (w : ℕ) (chunks : List Entry) : Prop :=
  ∀ e ∈ chunks, ∀ string, e.chunk = .str string →
    ∃ n, chunkSize string (coding e) = some n ∧ chunkSizeIn w string (coding e) = some n

/-- As long as nothing wraps around, the storage is what is kept for each. -/
lemma storagePass_eq {w storage_size total : ℕ} {chunks : List Entry}
    (hint : ∀ e ∈ chunks, counted e < 2 ^ 31)
    (hsize : storage_size + (chunks.map needs).sum < 2 ^ w)
    (hpass : storagePass w storage_size chunks = some total) :
    total = storage_size + (chunks.map needs).sum ∧ SameSizes w chunks := by
  induction chunks generalizing storage_size with
  | nil => exact ⟨(Option.some.inj hpass).symm, fun e he => absurd he List.not_mem_nil⟩
  | cons e es ih =>
    obtain ⟨hint, hints⟩ := List.forall_mem_cons.mp hint
    rw [List.map_cons, List.sum_cons] at hsize ⊢
    rw [storagePass] at hpass
    cases hchunk : e.chunk with
    | buf b =>
      have hneeds : needs e = 0 := by simp only [needs, hchunk]
      rw [hchunk] at hpass
      rw [hneeds, Nat.zero_add] at hsize ⊢
      obtain ⟨htotal, hsame⟩ := ih hints hsize hpass
      refine ⟨htotal, List.forall_mem_cons.mpr ⟨fun string hstring => ?_, hsame⟩⟩
      cases hchunk.symm.trans hstring
    | str string =>
      rw [hchunk] at hpass
      obtain ⟨m, hm, hpass⟩ := Option.bind_eq_some_iff.mp hpass
      obtain ⟨n, hn⟩ : ∃ n, chunkSize string (coding e) = some n := by
        refine Option.ne_none_iff_exists'.mp fun hnone => ?_
        cases hm.symm.trans (chunkSizeIn_eq_none hnone)
      have hneeds : needs e = n + 15 := by simp only [needs, hchunk, hn, Option.getD_some]
      rw [hneeds] at hsize ⊢
      have hin := chunkSizeIn_of_lt (w := w) hchunk hn (by omega) hint
      obtain rfl := Option.some.inj (hm.symm.trans hin)
      rw [Nat.mod_eq_of_lt (by omega)] at hpass
      obtain ⟨htotal, hsame⟩ := ih hints (by omega) hpass
      refine ⟨by omega, List.forall_mem_cons.mpr ⟨fun string' hstring => ?_, hsame⟩⟩
      obtain rfl := Data.str.inj (hchunk.symm.trans hstring)
      exact ⟨m, hn, hin⟩

/-! ### The second loop -/

/-- What is left of the storage is enough for the rest. -/
lemma inside_of_enough {w storage_size offset : ℕ} {chunks : List Entry}
    (hsame : SameSizes w chunks) (henough : offset + (chunks.map needs).sum ≤ storage_size)
    (hspare : offset + (chunks.map needs).sum = storage_size → 4 ∣ offset) :
    Inside w storage_size offset chunks := by
  induction chunks generalizing offset with
  | nil => exact .done
  | cons e es ih =>
    obtain ⟨hsize, hrest⟩ := List.forall_mem_cons.mp hsame
    rw [List.map_cons, List.sum_cons] at henough hspare
    obtain ⟨chunk, encoding⟩ := e
    cases chunk with
    | buf b =>
      have hneeds : needs ⟨.buf b, encoding⟩ = 0 := rfl
      rw [hneeds, Nat.zero_add] at henough hspare
      exact .buffer (ih hrest henough hspare)
    | str string =>
      obtain ⟨n, hn, hin⟩ := hsize string rfl
      have hneeds : needs ⟨.str string, encoding⟩ = n + 15 := by
        simp only [needs, hn, Option.getD_some]
      rw [hneeds] at henough hspare
      have hroom := roundUp_room henough hspare
      have hfull : (full string (parseEncoding encoding .binary)).length ≤ n := full_length_le hn
      have hwrite : write (storage_size - roundUp offset 16) string
          (parseEncoding encoding .binary) = full string (parseEncoding encoding .binary) :=
        write_of_le (hfull.trans (by omega))
      refine .string rfl (dvd_roundUp offset) (by omega) hin (by omega) ?_ ?_
      · rw [hwrite]
        omega
      · rw [hwrite]
        exact ih hrest (by omega) (by omega)

/-- No string has more room than there is besides the `WriteWrap`. -/
lemma Inside.size_le {w total wrap_size offset : ℕ} {chunks : List Entry}
    (h : Inside w (total + wrap_size) offset chunks) (hoffset : wrap_size ≤ offset) :
    ∀ e ∈ chunks, ∀ string, e.chunk = .str string →
      ∃ n, chunkSizeIn w string (coding e) = some n ∧ n ≤ total := by
  induction h with
  | done => exact fun e he => absurd he List.not_mem_nil
  | buffer _ ih =>
    refine List.forall_mem_cons.mpr ⟨fun string hstring => ?_, ih hoffset⟩
    cases hstring
  | @string offset start chunk_size string encoding es hstart _ _ hsize hroom _ _ ih =>
    have hle : offset ≤ start := hstart ▸ le_roundUp offset
    refine List.forall_mem_cons.mpr ⟨fun string' hstring => ?_, ih (by omega)⟩
    obtain rfl := Data.str.inj hstring
    exact ⟨chunk_size, hsize, by omega⟩

/-! ### The claim -/

lemma size_utf8_le (string : Str) : size string .utf8 ≤ 3 * string.length :=
  writeUtf8_length_le string

lemma chunkSize_le {string : Str} {encoding : Coding} {n : ℕ}
    (h : chunkSize string encoding = some n) : n ≤ 3 * string.length + 2 := by
  unfold chunkSize at h
  split_ifs at h with hlong
  · obtain rfl := Option.some.inj h
    obtain ⟨rfl, -⟩ := hlong
    exact (size_utf8_le string).trans (Nat.le_add_right _ _)
  · cases encoding with
    | hex =>
      rw [storageSize] at h
      split_ifs at h
      obtain rfl := Option.some.inj h
      omega
    | base64 =>
      obtain rfl := Option.some.inj h
      unfold base64DecodedSizeFast
      dsimp only
      split_ifs <;> omega
    | ascii | binary | buffer | utf8 | ucs2 =>
      obtain rfl := Option.some.inj h
      omega

lemma needs_le {e : Entry} (h : characters e ≤ kMaxStringLength) : needs e ≤ 2 ^ 32 := by
  obtain ⟨chunk, encoding⟩ := e
  cases chunk with
  | buf b => exact Nat.zero_le _
  | str string =>
    have hlength : string.length ≤ 2 ^ 30 - 1 := h
    show (chunkSize string (coding ⟨.str string, encoding⟩)).getD 0 + 15 ≤ 2 ^ 32
    cases hsize : chunkSize string (coding ⟨.str string, encoding⟩) with
    | none =>
      rw [Option.getD_none]
      omega
    | some n =>
      have hn := chunkSize_le hsize
      rw [Option.getD_some]
      omega

/-- 64 bits are enough for any array. -/
lemma sum_needs_lt {chunks : List Entry} (h : Given chunks) :
    (chunks.map needs).sum < 2 ^ 64 := by
  have harray := h.array
  have hsum := List.sum_le_card_nsmul (chunks.map needs) (2 ^ 32) fun n hn => by
    obtain ⟨e, he, rfl⟩ := List.mem_map.mp hn
    exact needs_le (h.string e he)
  rw [List.length_map, smul_eq_mul] at hsum
  omega

/-- **The storage.** Where neither the `int` of a long string nor the `size_t` of the sum wraps
around, every string has its place in the block. With 64 bits, only there. -/
theorem inside_storage_iff {w : ℕ} (hw : w = 32 ∨ w = 64) (wrap : WriteWrap) {chunks : List Entry}
    (hgiven : Given chunks) {storage_size : ℕ}
    (hpass : storagePass w 0 chunks = some storage_size) (hmax : storage_size ≤ INT_MAX) :
    (Fits w chunks → Inside w (storage_size + wrap.size) wrap.size chunks) ∧
      (w = 64 → Inside w (storage_size + wrap.size) wrap.size chunks → Fits w chunks) := by
  refine ⟨fun hfits => ?_, fun h64 hinside => ⟨fun e he => ?_, ?_⟩⟩
  · have hsize : 0 + (chunks.map needs).sum < 2 ^ w := by
      rw [Nat.zero_add]
      exact hfits.size
    obtain ⟨htotal, hsame⟩ := storagePass_eq hfits.int hsize hpass
    exact inside_of_enough hsame (by omega) fun _ => wrap.aligned
  · have hlength := hgiven.string e he
    unfold counted
    cases hchunk : e.chunk with
    | buf b => exact Nat.two_pow_pos 31
    | str string =>
      dsimp only
      split_ifs with hlong
      · obtain ⟨n, hn, hle⟩ := hinside.size_le le_rfl e he string hchunk
        rw [chunkSizeIn, if_pos hlong, hlong.1] at hn
        simp only [characters, hchunk, kMaxStringLength] at hlength
        have hsize := size_utf8_le string
        unfold INT_MAX at hmax
        by_contra hlarge
        have hwrapped := toSize_toInt_of_le hw (not_lt.mp hlarge) (by omega)
        rw [Option.some.inj hn] at hwrapped
        omega
      · exact Nat.two_pow_pos 31
  · rw [h64]
    exact sum_needs_lt hgiven

/-! #### Sums that wrap around -/

lemma writeUtf8_replicate (n : ℕ) : (writeUtf8 (List.replicate n 0x800)).length = 3 * n := by
  have hunit : (utf8Unit 0x800).length = 3 := by decide
  induction n with
  | zero => rfl
  | succ n ih =>
    cases n with
    | zero => exact hunit
    | succ n =>
      have hpair : writeUtf8 (0x800 :: 0x800 :: List.replicate n 0x800) =
          utf8Unit 0x800 ++ writeUtf8 (0x800 :: List.replicate n 0x800) := rfl
      rw [List.replicate_succ] at ih
      rw [List.replicate_succ, List.replicate_succ, hpair, List.length_append, hunit, ih]
      omega

/-- A string of two bytes for a character. -/
def wide (n : ℕ) : Entry := ⟨.str (List.replicate n 97), some (js "ucs2")⟩

/-- A string of three bytes for a character. -/
def long (n : ℕ) : Entry := ⟨.str (List.replicate n 0x800), some (js "utf8")⟩

lemma chunkSizeIn_wide {w n : ℕ} (h : 2 * n < 2 ^ w) :
    chunkSizeIn w (List.replicate n 97) (coding (wide n)) = some (n * 2) := by
  have hcoding : coding (wide n) = .ucs2 := rfl
  rw [hcoding, chunkSizeIn, if_neg (fun h => Coding.noConfusion h.1), storageSize, Option.map_some,
    List.length_replicate, toSize_of_lt (by omega)]

lemma chunkSizeIn_long {w n : ℕ} (h : 65535 < n) :
    chunkSizeIn w (List.replicate n 0x800) (coding (long n)) = some (toSize w (toInt (3 * n))) := by
  have hcoding : coding (long n) = .utf8 := rfl
  rw [hcoding, chunkSizeIn, if_pos ⟨rfl, by rwa [List.length_replicate]⟩, size,
    writeUtf8_replicate]

/-- The same string over and over. -/
lemma storagePass_replicate {w n count storage_size : ℕ} (hn : 2 * n < 2 ^ w)
    (hsize : storage_size < 2 ^ w) :
    storagePass w storage_size (List.replicate count (wide n)) =
      some ((storage_size + count * (n * 2 + 15)) % 2 ^ w) := by
  induction count generalizing storage_size with
  | zero => rw [Nat.zero_mul, Nat.add_zero, Nat.mod_eq_of_lt hsize]; rfl
  | succ count ih =>
    have hchunk : (wide n).chunk = .str (List.replicate n 97) := rfl
    rw [List.replicate_succ, storagePass, hchunk]
    dsimp only
    rw [chunkSizeIn_wide hn, Option.bind_some, ih (Nat.mod_lt _ (Nat.two_pow_pos w)),
      Nat.mod_add_mod]
    congr 2
    ring

lemma storagePass_long_wide : storagePass 64 0 [long kMaxStringLength, wide kMaxStringLength] =
    some 1073741849 := by
  have hlong : (long kMaxStringLength).chunk = .str (List.replicate kMaxStringLength 0x800) := rfl
  have hwide : (wide kMaxStringLength).chunk = .str (List.replicate kMaxStringLength 97) := rfl
  rw [storagePass, hlong]
  dsimp only
  rw [chunkSizeIn_long (by decide), Option.bind_some, storagePass, hwide]
  dsimp only
  rw [chunkSizeIn_wide (by decide), Option.bind_some, storagePass]
  decide

/-- **The sums wrap around.** With 32 bits, many times the same string of 65535 characters; with 64
bits, a string whose bytes are too many for an `int` and another one. -/
theorem not_inside_wrapped :
    (Given (List.replicate 32765 (wide 65535)) ∧
      storagePass 32 0 (List.replicate 32765 (wide 65535)) = some 32729 ∧ 32729 ≤ INT_MAX ∧
      ¬ Inside 32 (32729 + 320) 320 (List.replicate 32765 (wide 65535))) ∧
    (Given [long kMaxStringLength, wide kMaxStringLength] ∧
      storagePass 64 0 [long kMaxStringLength, wide kMaxStringLength] = some 1073741849 ∧
      1073741849 ≤ INT_MAX ∧
      ¬ Inside 64 (1073741849 + 320) 320 [long kMaxStringLength, wide kMaxStringLength]) := by
  refine ⟨⟨⟨fun e he => ?_, ?_⟩, ?_, by decide, fun h => ?_⟩,
    ⟨fun e he => ?_, ?_⟩, storagePass_long_wide, by decide, fun h => ?_⟩
  · rw [List.eq_of_mem_replicate he]
    exact List.length_replicate.le.trans (by decide)
  · rw [List.length_replicate]
    decide
  · exact (storagePass_replicate (by decide) (by decide)).trans (by decide)
  · obtain ⟨n, hn, hle⟩ := h.size_le le_rfl (wide 65535)
      (List.mem_replicate.mpr ⟨by omega, rfl⟩) _ rfl
    rw [chunkSizeIn_wide (by omega)] at hn
    have := Option.some.inj hn
    omega
  · rw [List.mem_pair] at he
    rcases he with rfl | rfl
    · exact List.length_replicate.le
    · exact List.length_replicate.le
  · show 2 < 2 ^ 31
    decide
  · obtain ⟨n, hn, hle⟩ := h.size_le le_rfl (long kMaxStringLength) List.mem_cons_self _ rfl
    have hsize : toSize 64 (toInt (3 * kMaxStringLength)) = 18446744072635809789 := by decide
    rw [chunkSizeIn_long (by decide), hsize] at hn
    have := Option.some.inj hn
    omega

/-- A string under UTF-8, a Buffer and an empty string. -/
theorem inside_storage_iff_three :
    Inside 64 (33 + 320) 320
      [⟨.str (js "a"), some (js "utf8")⟩, ⟨.buf [1], none⟩, ⟨.str [], some (js "ascii")⟩] := by
  have hpass : storagePass 64 0
      [⟨.str (js "a"), some (js "utf8")⟩, ⟨.buf [1], none⟩, ⟨.str [], some (js "ascii")⟩] =
      some 33 := rfl
  have hiff := inside_storage_iff (.inr rfl) ⟨320, by decide⟩ ⟨by decide, by decide⟩ hpass
    (by decide)
  exact hiff.1 ⟨by decide, by decide⟩

end NodeCore.WritevStorage
