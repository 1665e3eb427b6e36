import NodeCore.EncodeConcat
import NodeCore.Loop
import NodeCore.Memory

/-!
The loops of base64.

`base64_decode` reads one character more than it is given, and looks for a character of the alphabet
in four places; each is the same loop. What it writes is what a scan of the text writes that passes
over every other character.
-/

namespace NodeCore.Base64

open NodeCore.Encoding NodeCore.EncodeConcat NodeCore.Loop NodeCore.Memory

/-! ### `base64_decode` -/

def unbase64Table : List ℤ :=
  [-1, -1, -1, -1, -1, -1, -1, -1, -1, -1, -2, -1, -1, -2, -1, -1,
    -1, -1, -1, -1, -1, -1, -1, -1, -1, -1, -1, -1, -1, -1, -1, -1,
    -2, -1, -1, -1, -1, -1, -1, -1, -1, -1, -1, 62, -1, 62, -1, 63,
    52, 53, 54, 55, 56, 57, 58, 59, 60, 61, -1, -1, -1, -1, -1, -1,
    -1, 0, 1, 2, 3, 4, 5, 6, 7, 8, 9, 10, 11, 12, 13, 14,
    15, 16, 17, 18, 19, 20, 21, 22, 23, 24, 25, -1, -1, -1, -1, 63,
    -1, 26, 27, 28, 29, 30, 31, 32, 33, 34, 35, 36, 37, 38, 39, 40,
    41, 42, 43, 44, 45, 46, 47, 48, 49, 50, 51, -1, -1, -1, -1, -1] ++
    List.replicate 128 (-1)

/-- `unbase64(x)` -/
def entry (x : UInt8) : ℤ := unbase64Table.getD x.toNat (-1)

/-- An `int` that becomes a `char`. -/
def toChar (x : ℤ) : UInt8 := UInt8.ofNat (x % 256).toNat

/-- `while (unbase64(*src) < 0 && src < srcEnd) src++, remaining--;` -/
def skip : Bytes → ℤ → Bytes × ℤ
  | [], remaining => ([], remaining)
  | c :: src, remaining => if entry c < 0 then skip src (remaining - 1) else (c :: src, remaining)

/-- The loop before a character, the test behind it, and `unbase64(*src++)`; `none` is the `break`.
At `srcEnd` there is the byte `behind`. -/
def fetch (behind : UInt8) (few : ℤ → Bool) (src : Bytes) (remaining : ℤ) :
    Option (UInt8 × Bytes × ℤ) :=
  let (src, remaining) := skip src remaining
  if few remaining ∨ src.headD behind = 61 then none
  else some (toChar (entry (src.headD behind)), src.tail, remaining)

/-- `src` is what there is up to `srcEnd`. -/
structure Decoding where
  mem : ℕ → UInt8
  dst : ℕ
  src : Bytes

def decodeRound (dstEnd : ℕ) (behind : UInt8) (t : Decoding) :
    Round Decoding ((ℕ → UInt8) × ℕ) :=
  if t.src ≠ [] ∧ t.dst < dstEnd then
    match fetch behind (· = 0) t.src (Int.bmod t.src.length (2 ^ 32)) with
    | none => .exit (t.mem, t.dst)
    | some (a, src, remaining) =>
      match fetch behind (· ≤ 1) src remaining with
      | none => .exit (t.mem, t.dst)
      | some (b, src, remaining) =>
        let mem := store t.mem t.dst [(a <<< 2) ||| ((b &&& 0x30) >>> 4)]
        if t.dst + 1 = dstEnd then .exit (mem, t.dst + 1)
        else
          match fetch behind (· ≤ 2) src remaining with
          | none => .exit (mem, t.dst + 1)
          | some (c, src, remaining) =>
            let mem := store mem (t.dst + 1) [((b &&& 0x0F) <<< 4) ||| ((c &&& 0x3C) >>> 2)]
            if t.dst + 2 = dstEnd then .exit (mem, t.dst + 2)
            else
              match fetch behind (· ≤ 3) src remaining with
              | none => .exit (mem, t.dst + 2)
              | some (d, src, _) =>
                let mem := store mem (t.dst + 2) [((c &&& 0x03) <<< 6) ||| (d &&& 0x3F)]
                .next ⟨mem, t.dst + 3, src⟩
  else .exit (t.mem, t.dst)

/-- `base64_decode(buf, len, src, srcLen)` ends, and returns `n`. -/
def Decodes (m : ℕ → UInt8) (buf len : ℕ) (src : Bytes) (behind : UInt8) (n : ℕ)
    (m' : ℕ → UInt8) : Prop :=
  ∃ dst, Exits (decodeRound (buf + len) behind) ⟨m, buf, src⟩ (m', dst) ∧ n = dst - buf

/-! ### `base64_encode` -/

def base64EncodedSize (size : ℕ) : ℕ := (size + 2 - (size + 2) % 3) / 3 * 4

def table : Bytes :=
  (js "ABCDEFGHIJKLMNOPQRSTUVWXYZabcdefghijklmnopqrstuvwxyz0123456789+/").map UInt16.toUInt8

/-- `table[i]` -/
def letter (i : UInt8) : UInt8 := table.getD i.toNat 0

/-- `i` and `k` are `unsigned`. -/
structure Encoding where
  mem : ℕ → UInt8
  i : ℕ
  k : ℕ

def encodeRound (src : Bytes) (dst n : ℕ) (t : Encoding) : Round Encoding Encoding :=
  if t.i < n then
    let a := src.getD t.i 0
    let b := src.getD (t.i + 1) 0
    let c := src.getD (t.i + 2) 0
    .next ⟨store t.mem (dst + t.k) [letter (a >>> 2), letter (((a &&& 3) <<< 4) ||| (b >>> 4)),
      letter (((b &&& 0x0F) <<< 2) ||| (c >>> 6)), letter (c &&& 0x3F)],
      (t.i + 3) % 2 ^ 32, (t.k + 4) % 2 ^ 32⟩
  else .exit t

/-- The `switch` behind the loop. -/
def encodeTail (src : Bytes) (dst n : ℕ) (t : Encoding) : ℕ → UInt8 :=
  let a := src.getD t.i 0
  let b := src.getD (t.i + 1) 0
  if src.length = n + 1 then
    store t.mem (dst + t.k) [letter (a >>> 2), letter ((a &&& 3) <<< 4), 61, 61]
  else if src.length = n + 2 then
    store t.mem (dst + t.k) [letter (a >>> 2), letter (((a &&& 3) <<< 4) ||| (b >>> 4)),
      letter ((b &&& 0x0F) <<< 2), 61]
  else t.mem

/-- `base64_encode(src, slen, dst, dlen)` ends, and returns `size`. -/
def Encodes (m : ℕ → UInt8) (src : Bytes) (dst dlen size : ℕ) (m' : ℕ → UInt8) : Prop :=
  base64EncodedSize src.length ≤ dlen ∧ size = base64EncodedSize src.length ∧
    ∃ t, Exits (encodeRound src dst (src.length / 3 * 3 % 2 ^ 32)) ⟨m, 0, 0⟩ t ∧
      m' = encodeTail src dst (src.length / 3 * 3 % 2 ^ 32) t

/-! ### What is written -/

/-- What holds for each of the first `k` bytes holds for a byte below `k`. -/
lemma byte_all {k : ℕ} {P : UInt8 → Prop} (h : ∀ n < k, P (UInt8.ofNat n)) {c : UInt8}
    (hc : c.toNat < k) : P c := by
  have hn := h c.toNat hc
  rwa [UInt8.ofNat_toNat] at hn

lemma entry_none {c : UInt8} (h : unbase64 c = none) : entry c < 0 := by
  exact byte_all (P := fun c => unbase64 c = none → entry c < 0) (by decide +kernel) c.toNat_lt h

lemma entry_some {c v : UInt8} (h : unbase64 c = some v) : entry c = v.toNat ∧ v.toNat < 64 := by
  exact byte_all (P := fun c => ∀ v ∈ unbase64 c, entry c = v.toNat ∧ v.toNat < 64)
    (by decide +kernel) c.toNat_lt v h

lemma toChar_toNat (v : UInt8) : toChar v.toNat = v := by
  have hlt := v.toNat_lt
  rw [toChar, Int.emod_eq_of_lt (by omega) (by omega), Int.toNat_natCast, UInt8.ofNat_toNat]

lemma skip_none {src : Bytes} (h : ∀ c ∈ src, unbase64 c = none) (remaining : ℤ) :
    skip src remaining = ([], remaining - src.length) := by
  induction src generalizing remaining with
  | nil => simp [skip]
  | cons c src ih =>
    rw [List.forall_mem_cons] at h
    rw [skip, if_pos (entry_none h.1), ih h.2, List.length_cons]
    push_cast
    congr 1
    ring

lemma skip_some {junk rest : Bytes} {c v : UInt8} (h : ∀ x ∈ junk, unbase64 x = none)
    (hc : unbase64 c = some v) (remaining : ℤ) :
    skip (junk ++ c :: rest) remaining = (c :: rest, remaining - junk.length) := by
  induction junk generalizing remaining with
  | nil =>
    have hentry := (entry_some hc).1
    rw [List.nil_append, skip, if_neg (by omega)]
    simp
  | cons x junk ih =>
    rw [List.forall_mem_cons] at h
    rw [List.cons_append, skip, if_pos (entry_none h.1), ih h.2, List.length_cons]
    push_cast
    congr 1
    ring

/-- The first character of the alphabet, if there is one. -/
lemma split_alphabet (src : Bytes) : (∀ c ∈ src, unbase64 c = none) ∨
    ∃ junk c v rest, src = junk ++ c :: rest ∧ (∀ x ∈ junk, unbase64 x = none) ∧
      unbase64 c = some v := by
  induction src with
  | nil => exact .inl (by simp)
  | cons x src ih =>
    cases hx : unbase64 x with
    | some v => exact .inr ⟨[], x, v, src, rfl, by simp, hx⟩
    | none =>
      rcases ih with ih | ⟨junk, c, v, rest, rfl, hjunk, hc⟩
      · exact .inl (List.forall_mem_cons.mpr ⟨hx, ih⟩)
      · exact .inr ⟨x :: junk, c, v, rest, rfl, List.forall_mem_cons.mpr ⟨hx, hjunk⟩, hc⟩

lemma base64Decode_junk {junk : Bytes} (h : ∀ x ∈ junk, unbase64 x = none) (len ph : ℕ)
    (last : UInt8) (rest : Bytes) :
    base64Decode len ph last (junk ++ rest) = base64Decode len ph last rest := by
  induction junk with
  | nil => rfl
  | cons x junk ih =>
    rw [List.forall_mem_cons] at h
    rcases Nat.eq_zero_or_pos len with rfl | hlen
    · cases rest <;> simp [base64Decode]
    · rw [List.cons_append, base64Decode, if_neg hlen.ne', h.1]
      exact ih h.2

/-- What a fetch has gone on to: nothing is left, or the next character of the alphabet is taken. -/
lemma fetch_cases (behind : UInt8) (few : ℤ → Bool) (taken : ℕ)
    (hfew : ∀ r : ℤ, taken ≤ r → few r = decide (r = taken)) (src : Bytes) :
    (fetch behind few src (src.length + taken) = none ∧
      ∀ len ph last, base64Decode len ph last src = []) ∨
    ∃ c v rest, fetch behind few src (src.length + taken) =
        some (v, rest, (rest.length : ℤ) + (taken + 1 : ℕ)) ∧ unbase64 c = some v ∧
      rest.length < src.length ∧
      ∀ len ph last, base64Decode len ph last src = base64Decode len ph last (c :: rest) := by
  rcases split_alphabet src with h | ⟨junk, c, v, rest, rfl, hjunk, hc⟩
  · left
    constructor
    · rw [fetch, skip_none h, add_sub_cancel_left]
      dsimp only
      rw [if_pos]
      left
      rw [hfew _ le_rfl]
      simp
    · intro len ph last
      have hnil := base64Decode_junk h len ph last []
      rw [List.append_nil] at hnil
      rw [hnil, base64Decode]
  · right
    have hremaining : ((junk ++ c :: rest).length : ℤ) + taken - junk.length =
        rest.length + (taken + 1 : ℕ) := by
      rw [List.length_append, List.length_cons]
      push_cast
      ring
    refine ⟨c, v, rest, ?_, hc, by simp only [List.length_append, List.length_cons]; omega,
      fun len ph last => base64Decode_junk hjunk len ph last _⟩
    have hpad : c ≠ 61 := by
      rintro rfl
      have hpad : unbase64 61 = none := by decide
      rw [hpad] at hc
      cases hc
    have hmore : few (rest.length + (taken + 1 : ℕ)) = false := by
      rw [hfew _ (by omega), decide_eq_false_iff_not]
      omega
    rw [fetch, skip_some hjunk hc, hremaining]
    dsimp only
    rw [hmore, List.headD_cons, if_neg (by simp [hpad]), (entry_some hc).1, toChar_toNat,
      List.tail_cons]

section scan

variable {c v : UInt8} (hc : unbase64 c = some v) (n : ℕ) (last : UInt8) (rest : Bytes)
include hc

lemma base64Decode_first :
    base64Decode (n + 1) 0 last (c :: rest) = base64Decode (n + 1) 1 v rest := by
  rw [base64Decode, if_neg (Nat.succ_ne_zero n), hc]
  rfl

lemma base64Decode_second : base64Decode (n + 1) 1 last (c :: rest) =
    ((last <<< 2) ||| ((v &&& 0x30) >>> 4)) :: base64Decode n 2 v rest := by
  rw [base64Decode, if_neg (Nat.succ_ne_zero n), hc]
  rfl

lemma base64Decode_third : base64Decode (n + 1) 2 last (c :: rest) =
    (((last &&& 0x0F) <<< 4) ||| ((v &&& 0x3C) >>> 2)) :: base64Decode n 3 v rest := by
  rw [base64Decode, if_neg (Nat.succ_ne_zero n), hc]
  rfl

lemma base64Decode_fourth : base64Decode (n + 1) 3 last (c :: rest) =
    (((last &&& 0x03) <<< 6) ||| (v &&& 0x3F)) :: base64Decode n 0 v rest := by
  rw [base64Decode, if_neg (Nat.succ_ne_zero n), hc]
  rfl

end scan

lemma base64Decode_zero (ph : ℕ) (last : UInt8) (src : Bytes) :
    base64Decode 0 ph last src = [] := by
  cases src <;> rfl

/-- At the start of a group it does not matter what was last. -/
lemma base64Decode_last (n : ℕ) (last last' : UInt8) (src : Bytes) :
    base64Decode n 0 last src = base64Decode n 0 last' src := by
  induction src with
  | nil => rfl
  | cons c src ih =>
    cases hc : unbase64 c with
    | none => simp only [base64Decode, hc, ih]
    | some v => simp only [base64Decode, hc, if_true]

/-- **The four loops make one scan.** -/
lemma exits_scan (behind : UInt8) (dstEnd : ℕ) (src : Bytes) (hint : src.length < 2 ^ 31)
    (m : ℕ → UInt8) (dst : ℕ) (hdst : dst ≤ dstEnd) :
    Exits (decodeRound dstEnd behind) ⟨m, dst, src⟩
      (store m dst (base64Decode (dstEnd - dst) 0 0 src),
        dst + (base64Decode (dstEnd - dst) 0 0 src).length) := by
  induction hn : src.length using Nat.strong_induction_on generalizing src m dst with
  | _ size ih =>
    by_cases hround : src ≠ [] ∧ dst < dstEnd
    · obtain ⟨n, hlen⟩ : ∃ n, dstEnd - dst = n + 1 :=
        Nat.exists_eq_succ_of_ne_zero (by omega)
      have hbmod : Int.bmod src.length (2 ^ 32) = src.length + (0 : ℕ) := by
        rw [Int.bmod_eq_of_le (by omega) (by omega)]
        simp
      have hstart := fetch_cases behind (· = 0) 0
        (fun r hr => by simp) src
      rw [hlen]
      rcases hstart with ⟨hnone, hnil⟩ | ⟨ca, a, r₁, ha, hca, hlt₁, hscan₁⟩
      · rw [hnil, store_nil]
        refine .exit ?_
        simp only [decodeRound, if_pos hround, hbmod, hnone]
        rfl
      rw [hscan₁, base64Decode_first hca]
      have hsecond := fetch_cases behind (· ≤ 1) 1
        (fun r hr => by simp only [decide_eq_decide]; omega) r₁
      rcases hsecond with ⟨hnone, hnil⟩ | ⟨cb, b, r₂, hb, hcb, hlt₂, hscan₂⟩
      · rw [hnil, store_nil]
        refine .exit ?_
        simp only [decodeRound, if_pos hround, hbmod, ha, hnone]
        rfl
      rw [hscan₂, base64Decode_second hcb, store_cons, List.length_cons]
      rcases n with _ | n
      · have hend : dst + 1 = dstEnd := by omega
        rw [base64Decode_zero, store_nil]
        refine .exit ?_
        simp only [decodeRound, if_pos hround, hbmod, ha, hb, if_pos hend]
        rfl
      have hmore₁ : dst + 1 ≠ dstEnd := by omega
      have hthird := fetch_cases behind (· ≤ 2) 2
        (fun r hr => by simp only [decide_eq_decide]; omega) r₂
      rcases hthird with ⟨hnone, hnil⟩ | ⟨cc, c, r₃, hc, hcc, hlt₃, hscan₃⟩
      · rw [hnil, store_nil]
        refine .exit ?_
        simp only [decodeRound, if_pos hround, hbmod, ha, hb, if_neg hmore₁, hnone]
        rfl
      rw [hscan₃, base64Decode_third hcc, store_cons, List.length_cons]
      rcases n with _ | n
      · have hend : dst + 2 = dstEnd := by omega
        rw [base64Decode_zero, store_nil]
        refine .exit ?_
        simp only [decodeRound, if_pos hround, hbmod, ha, hb, if_neg hmore₁, hc, if_pos hend]
        rfl
      have hmore₂ : dst + 2 ≠ dstEnd := by omega
      have hfourth := fetch_cases behind (· ≤ 3) 3
        (fun r hr => by simp only [decide_eq_decide]; omega) r₃
      rcases hfourth with ⟨hnone, hnil⟩ | ⟨cd, d, r₄, hd, hcd, hlt₄, hscan₄⟩
      · rw [hnil, store_nil]
        refine .exit ?_
        simp only [decodeRound, if_pos hround, hbmod, ha, hb, if_neg hmore₁, hc, if_neg hmore₂,
          hnone]
        rfl
      rw [hscan₄, base64Decode_fourth hcd, store_cons, List.length_cons]
      have hnext : decodeRound dstEnd behind ⟨m, dst, src⟩ = .next
          ⟨store (store (store m dst [(a <<< 2) ||| ((b &&& 0x30) >>> 4)]) (dst + 1)
            [((b &&& 0x0F) <<< 4) ||| ((c &&& 0x3C) >>> 2)]) (dst + 2)
            [((c &&& 0x03) <<< 6) ||| (d &&& 0x3F)], dst + 3, r₄⟩ := by
        simp only [decodeRound, if_pos hround, hbmod, ha, hb, if_neg hmore₁, hc, if_neg hmore₂, hd]
      have hrest := ih r₄.length (by omega) r₄ (by omega)
        (store (store (store m dst [(a <<< 2) ||| ((b &&& 0x30) >>> 4)]) (dst + 1)
          [((b &&& 0x0F) <<< 4) ||| ((c &&& 0x3C) >>> 2)]) (dst + 2)
          [((c &&& 0x03) <<< 6) ||| (d &&& 0x3F)]) (dst + 3) (by omega) rfl
      have hleft : dstEnd - (dst + 3) = n := by omega
      rw [hleft, base64Decode_last n 0 d] at hrest
      have hcount : dst + ((base64Decode n 0 d r₄).length + 1 + 1 + 1) =
          dst + 3 + (base64Decode n 0 d r₄).length := by omega
      rw [hcount]
      exact .next hnext hrest
    · have hnil : base64Decode (dstEnd - dst) 0 0 src = [] := by
        rcases not_and_or.mp hround with h | h
        · rw [not_not.mp h, base64Decode]
        · rw [show dstEnd - dst = 0 by omega, base64Decode_zero]
      rw [hnil, store_nil]
      refine .exit ?_
      rw [decodeRound, if_neg hround]
      rfl

/-! ### Any text -/

/-- The bytes that the values of some characters are; a single one that is left over is nothing. -/
def decoded : List UInt8 → Bytes
  | a :: b :: c :: d :: vs =>
    ((a <<< 2) ||| (b >>> 4)) :: ((b <<< 4) ||| (c >>> 2)) :: ((c <<< 6) ||| d) :: decoded vs
  | [a, b, c] => [(a <<< 2) ||| (b >>> 4), (b <<< 4) ||| (c >>> 2)]
  | [a, b] => [(a <<< 2) ||| (b >>> 4)]
  | [_] => []
  | [] => []

lemma length_decoded (vs : List UInt8) : (decoded vs).length = 3 * vs.length / 4 := by
  induction vs using decoded.induct with
  | case1 a b c d vs ih =>
    simp only [decoded, List.length_cons, ih]
    omega
  | case2 a b c => simp [decoded]
  | case3 a b => simp [decoded]
  | case4 a => simp [decoded]
  | case5 => simp [decoded]

/-- What the masks leave of a value. -/
lemma masks {v : UInt8} (h : v.toNat < 64) : (v &&& 0x30) >>> 4 = v >>> 4 ∧
    (v &&& 0x0F) <<< 4 = v <<< 4 ∧ (v &&& 0x3C) >>> 2 = v >>> 2 ∧ (v &&& 0x03) <<< 6 = v <<< 6 ∧
    v &&& 0x3F = v := by
  exact byte_all (P := fun v => (v &&& 0x30) >>> 4 = v >>> 4 ∧ (v &&& 0x0F) <<< 4 = v <<< 4 ∧
    (v &&& 0x3C) >>> 2 = v >>> 2 ∧ (v &&& 0x03) <<< 6 = v <<< 6 ∧ v &&& 0x3F = v)
    (by decide +kernel) h

/-- Where the characters of the alphabet are. -/
lemma next_value {src : Bytes} {v : UInt8} {vs : List UInt8}
    (h : src.filterMap unbase64 = v :: vs) : ∃ c rest, unbase64 c = some v ∧
      rest.filterMap unbase64 = vs ∧
      ∀ len ph last, base64Decode len ph last src = base64Decode len ph last (c :: rest) := by
  rcases split_alphabet src with hnone | ⟨junk, c, w, rest, rfl, hjunk, hc⟩
  · rw [List.filterMap_eq_nil_iff.mpr hnone] at h
    cases h
  · rw [List.filterMap_append, List.filterMap_eq_nil_iff.mpr hjunk, List.nil_append,
      List.filterMap_cons_some hc] at h
    obtain ⟨rfl, rfl⟩ := List.cons.inj h
    exact ⟨c, rest, hc, rfl, fun len ph last => base64Decode_junk hjunk len ph last _⟩

lemma base64Decode_none {src : Bytes} (h : src.filterMap unbase64 = []) (len ph : ℕ)
    (last : UInt8) : base64Decode len ph last src = [] := by
  have hjunk := base64Decode_junk (List.filterMap_eq_nil_iff.mp h) len ph last []
  rwa [List.append_nil, base64Decode] at hjunk

/-- With enough room the scan gives all the bytes. -/
lemma base64Decode_eq {vs : List UInt8} {src : Bytes} (h : src.filterMap unbase64 = vs) {len : ℕ}
    (hlen : (decoded vs).length ≤ len) (last : UInt8) :
    base64Decode len 0 last src = decoded vs := by
  have step {src : Bytes} {v : UInt8} {vs : List UInt8} (h : src.filterMap unbase64 = v :: vs) :
      v.toNat < 64 := by
    obtain ⟨c, -, hc, -⟩ := next_value h
    exact (entry_some hc).2
  induction vs using decoded.induct generalizing src len last with
  | case1 a b c d vs ih =>
    simp only [decoded, List.length_cons] at hlen
    obtain ⟨n, rfl⟩ : ∃ n, len = n + 1 + 1 + 1 := ⟨len - 3, by omega⟩
    obtain ⟨ca, r₁, ha, h₁, hscan₁⟩ := next_value h
    obtain ⟨cb, r₂, hb, h₂, hscan₂⟩ := next_value h₁
    obtain ⟨cc, r₃, hc, h₃, hscan₃⟩ := next_value h₂
    obtain ⟨cd, r₄, hd, h₄, hscan₄⟩ := next_value h₃
    obtain ⟨hb₁, hb₂, -⟩ := masks (step h₁)
    obtain ⟨-, -, hc₁, hc₂, -⟩ := masks (step h₂)
    obtain ⟨-, -, -, -, hd₁⟩ := masks (step h₃)
    rw [hscan₁, base64Decode_first ha, hscan₂, base64Decode_second hb, hscan₃,
      base64Decode_third hc, hscan₄, base64Decode_fourth hd, ih h₄ (by omega), hb₁, hb₂, hc₁, hc₂,
      hd₁, decoded]
  | case2 a b c =>
    obtain ⟨n, rfl⟩ : ∃ n, len = n + 1 + 1 := ⟨len - 2, by simp [decoded] at hlen; omega⟩
    obtain ⟨ca, r₁, ha, h₁, hscan₁⟩ := next_value h
    obtain ⟨cb, r₂, hb, h₂, hscan₂⟩ := next_value h₁
    obtain ⟨cc, r₃, hc, h₃, hscan₃⟩ := next_value h₂
    obtain ⟨hb₁, hb₂, -⟩ := masks (step h₁)
    obtain ⟨-, -, hc₁, -⟩ := masks (step h₂)
    rw [hscan₁, base64Decode_first ha, hscan₂, base64Decode_second hb, hscan₃,
      base64Decode_third hc, base64Decode_none h₃, hb₁, hb₂, hc₁, decoded]
  | case3 a b =>
    obtain ⟨n, rfl⟩ : ∃ n, len = n + 1 := ⟨len - 1, by simp [decoded] at hlen; omega⟩
    obtain ⟨ca, r₁, ha, h₁, hscan₁⟩ := next_value h
    obtain ⟨cb, r₂, hb, h₂, hscan₂⟩ := next_value h₁
    obtain ⟨hb₁, -⟩ := masks (step h₁)
    rw [hscan₁, base64Decode_first ha, hscan₂, base64Decode_second hb, base64Decode_none h₂, hb₁,
      decoded]
  | case4 a =>
    obtain ⟨ca, r₁, ha, hnone, hscan⟩ := next_value h
    rw [decoded]
    rcases len with _ | n
    · exact base64Decode_zero _ _ _
    · rw [hscan, base64Decode_first ha, base64Decode_none hnone]
  | case5 =>
    rw [decoded]
    exact base64Decode_none h _ _ _

/-- **Junk in the text.** Whatever there is between the characters of the alphabet, the bytes are
those of the characters alone, and the size is enough for them all. -/
theorem decode_junk (src : Bytes) (hint : src.length < 2 ^ 31) (behind : UInt8) (m : ℕ → UInt8)
    (buf : ℕ) :
    ∃ n m', Decodes m buf (base64DecodedSize src) src behind n m' ∧
      n = (decoded (src.filterMap unbase64)).length ∧ n ≤ base64DecodedSize src ∧
      load m' buf n = decoded (src.filterMap unbase64) ∧
      ∀ i, i < buf ∨ buf + n ≤ i → m' i = m i := by
  have hsextets : (src.filterMap unbase64).length = sextets src := by
    rw [sextets, List.length_filterMap_eq_countP, List.countP_eq_length_filter]
  have hlen : (decoded (src.filterMap unbase64)).length ≤ base64DecodedSize src := by
    rw [length_decoded, hsextets]
    exact base64DecodedSize_ge src
  have hexits := exits_scan behind (buf + base64DecodedSize src) src hint m buf (by omega)
  rw [Nat.add_sub_cancel_left, base64Decode_eq rfl hlen 0] at hexits
  exact ⟨_, _, ⟨_, hexits, (Nat.add_sub_cancel_left ..).symm⟩, rfl, hlen, load_store .., fun i hi =>
    store_outside hi⟩

/-- `Z` and `g` with a blank, a line feed and padding about them. -/
theorem decode_junk_blank : ∃ n m', Decodes (fun _ => 0) 0 4 [32, 90, 61, 10, 103, 33] 65 n m' ∧
    n = 1 ∧ load m' 0 n = [102] := by
  obtain ⟨n, m', hdecodes, hn, -, hload, -⟩ :=
    decode_junk [32, 90, 61, 10, 103, 33] (by decide) 65 (fun _ => 0) 0
  exact ⟨n, m', hdecodes, hn, hload⟩

/-! ### The round trip -/

/-- What `base64_encode` writes. -/
def encoded : Bytes → Bytes
  | a :: b :: c :: r =>
    letter (a >>> 2) :: letter (((a &&& 3) <<< 4) ||| (b >>> 4)) ::
      letter (((b &&& 0x0F) <<< 2) ||| (c >>> 6)) :: letter (c &&& 0x3F) :: encoded r
  | [a, b] =>
    [letter (a >>> 2), letter (((a &&& 3) <<< 4) ||| (b >>> 4)), letter ((b &&& 0x0F) <<< 2), 61]
  | [a] => [letter (a >>> 2), letter ((a &&& 3) <<< 4), 61, 61]
  | [] => []

lemma length_encoded (src : Bytes) : (encoded src).length = base64EncodedSize src.length := by
  unfold base64EncodedSize
  induction src using encoded.induct with
  | case1 a b c r ih =>
    simp only [encoded, List.length_cons, ih]
    omega
  | case2 a b => simp [encoded]
  | case3 a => simp [encoded]
  | case4 => simp [encoded]

lemma getD_front (front rest : Bytes) (j : ℕ) :
    (front ++ rest).getD (front.length + j) 0 = rest.getD j 0 := by
  rw [List.getD_eq_getElem?_getD, List.getD_eq_getElem?_getD,
    List.getElem?_append_right (Nat.le_add_right _ _), Nat.add_sub_cancel_left]

/-- The loop and the `switch`, with `rest` to go. -/
lemma encode_rest (dst : ℕ) {n : ℕ} (rest : Bytes) (front : Bytes) (mem : ℕ → UInt8) (k : ℕ)
    (hn : n = front.length + rest.length / 3 * 3) (hi : n < 2 ^ 32)
    (hk : k + rest.length / 3 * 4 < 2 ^ 32) :
    ∃ t, Exits (encodeRound (front ++ rest) dst n) ⟨mem, front.length, k⟩ t ∧
      encodeTail (front ++ rest) dst n t = store mem (dst + k) (encoded rest) := by
  induction rest using encoded.induct generalizing front mem k with
  | case1 a b c r ih =>
    have hlength : (a :: b :: c :: r).length / 3 = r.length / 3 + 1 := by
      simp only [List.length_cons]
      omega
    rw [hlength] at hn hk
    have hfront : (front ++ [a, b, c]).length = front.length + 3 := by simp
    have hsplit : front ++ a :: b :: c :: r = (front ++ [a, b, c]) ++ r := by simp
    have h₀ := getD_front front (a :: b :: c :: r) 0
    have h₁ := getD_front front (a :: b :: c :: r) 1
    have h₂ := getD_front front (a :: b :: c :: r) 2
    obtain ⟨t, hexits, htail⟩ := ih (front ++ [a, b, c]) (store mem (dst + k)
      [letter (a >>> 2), letter (((a &&& 3) <<< 4) ||| (b >>> 4)),
        letter (((b &&& 0x0F) <<< 2) ||| (c >>> 6)), letter (c &&& 0x3F)]) (k + 4)
      (by omega) (by omega)
    rw [← hsplit] at hexits htail
    have hround : encodeRound (front ++ a :: b :: c :: r) dst n ⟨mem, front.length, k⟩ = .next
        ⟨store mem (dst + k) [letter (a >>> 2), letter (((a &&& 3) <<< 4) ||| (b >>> 4)),
          letter (((b &&& 0x0F) <<< 2) ||| (c >>> 6)), letter (c &&& 0x3F)],
          (front ++ [a, b, c]).length, k + 4⟩ := by
      rw [encodeRound, if_pos (show front.length < n by omega)]
      dsimp only
      rw [Nat.add_zero] at h₀
      rw [h₀, h₁, h₂, Nat.mod_eq_of_lt (by omega), Nat.mod_eq_of_lt (by omega), hfront]
      rfl
    refine ⟨t, .next hround hexits, ?_⟩
    have happend := store_append mem (dst + k) [letter (a >>> 2),
      letter (((a &&& 3) <<< 4) ||| (b >>> 4)), letter (((b &&& 0x0F) <<< 2) ||| (c >>> 6)),
      letter (c &&& 0x3F)] (encoded r)
    rw [htail, encoded, ← Nat.add_assoc]
    exact happend.symm
  | case2 a b =>
    have h₀ := getD_front front [a, b] 0
    have h₁ := getD_front front [a, b] 1
    rw [Nat.add_zero] at h₀
    obtain rfl : n = front.length := by simpa using hn
    refine ⟨_, .exit (by rw [encodeRound, if_neg (lt_irrefl _)]), ?_⟩
    rw [encodeTail, List.length_append]
    dsimp only
    rw [if_neg (by simp), if_pos (by simp), h₀, h₁]
    rfl
  | case3 a =>
    have h₀ := getD_front front [a] 0
    rw [Nat.add_zero] at h₀
    obtain rfl : n = front.length := by simpa using hn
    refine ⟨_, .exit (by rw [encodeRound, if_neg (lt_irrefl _)]), ?_⟩
    rw [encodeTail, List.length_append]
    dsimp only
    rw [if_pos (by simp), h₀]
    rfl
  | case4 =>
    obtain rfl : n = front.length := hn
    refine ⟨_, .exit (by rw [encodeRound, if_neg (lt_irrefl _)]), ?_⟩
    rw [encodeTail, List.length_append]
    dsimp only
    rw [if_neg (by simp), if_neg (by simp), encoded, store_nil]

lemma encodes (src : Bytes) (hint : base64EncodedSize src.length < 2 ^ 31) (m : ℕ → UInt8)
    {dst dlen : ℕ} (hroom : base64EncodedSize src.length ≤ dlen) :
    Encodes m src dst dlen (encoded src).length (store m dst (encoded src)) := by
  have hn : src.length / 3 * 3 < 2 ^ 32 := by
    unfold base64EncodedSize at hint
    omega
  obtain ⟨t, hexits, htail⟩ := encode_rest dst src [] m 0 (Nat.zero_add _).symm hn (by
    unfold base64EncodedSize at hint
    omega)
  refine ⟨hroom, length_encoded src, t, ?_, ?_⟩
  · rw [Nat.mod_eq_of_lt hn]
    exact hexits
  · rw [Nat.mod_eq_of_lt hn]
    exact htail.symm

/-- The letters are the alphabet. -/
lemma unbase64_letter {v : UInt8} (h : v.toNat < 64) : unbase64 (letter v) = some v := by
  exact byte_all (P := fun v => unbase64 (letter v) = some v) (by decide +kernel) h

lemma letter_ne_pad (v : UInt8) : letter v ≠ 61 := by
  exact byte_all (P := fun v => letter v ≠ 61) (by decide +kernel) v.toNat_lt

lemma lt_of_high {v : UInt8} (h : v >>> 6 = 0) : v.toNat < 64 := by
  exact byte_all (P := fun v => v >>> 6 = 0 → v.toNat < 64) (by decide +kernel) v.toNat_lt h

/-- The bits of a byte that go into one character, and into the next. -/
@[mk_iff] structure Parted (x : UInt8) : Prop where
  first : (x >>> 2) >>> 6 = 0
  second : ((x &&& 3) <<< 4) >>> 6 = 0 ∧ (x >>> 4) >>> 6 = 0
  third : ((x &&& 0x0F) <<< 2) >>> 6 = 0 ∧ (x >>> 6) >>> 6 = 0
  fourth : (x &&& 0x3F) >>> 6 = 0
  kept : ((x &&& 3) <<< 4) >>> 4 = x &&& 3 ∧ ((x &&& 0x0F) <<< 2) >>> 2 = x &&& 0x0F
  lost : (x >>> 4) >>> 4 = 0 ∧ (x >>> 6) >>> 2 = 0 ∧ ((x &&& 3) <<< 4) <<< 4 = 0 ∧
    ((x &&& 0x0F) <<< 2) <<< 6 = 0
  whole : ((x >>> 2) <<< 2) ||| (x &&& 3) = x ∧ ((x >>> 4) <<< 4) ||| (x &&& 0x0F) = x ∧
    ((x >>> 6) <<< 6) ||| (x &&& 0x3F) = x

lemma parted (x : UInt8) : Parted x := by
  have hall : ∀ n < 256, Parted (UInt8.ofNat n) := by
    simp only [parted_iff]
    decide +kernel
  exact byte_all hall x.toNat_lt

section group

variable (a b c : UInt8)

lemma second_lt : (((a &&& 3) <<< 4) ||| (b >>> 4)).toNat < 64 := by
  refine lt_of_high ?_
  rw [UInt8.shiftRight_or, (parted a).second.1, (parted b).second.2, UInt8.or_self]

lemma third_lt : (((b &&& 0x0F) <<< 2) ||| (c >>> 6)).toNat < 64 := by
  refine lt_of_high ?_
  rw [UInt8.shiftRight_or, (parted b).third.1, (parted c).third.2, UInt8.or_self]

lemma join_first : ((a >>> 2) <<< 2) ||| ((((a &&& 3) <<< 4) ||| (b >>> 4)) >>> 4) = a := by
  rw [UInt8.shiftRight_or, (parted a).kept.1, (parted b).lost.1, UInt8.or_zero, (parted a).whole.1]

lemma join_second : ((((a &&& 3) <<< 4) ||| (b >>> 4)) <<< 4) |||
    ((((b &&& 0x0F) <<< 2) ||| (c >>> 6)) >>> 2) = b := by
  rw [UInt8.shiftLeft_or, UInt8.shiftRight_or, (parted a).lost.2.2.1, (parted b).kept.2,
    (parted c).lost.2.1, UInt8.or_zero, UInt8.zero_or, (parted b).whole.2.1]

lemma join_third : ((((b &&& 0x0F) <<< 2) ||| (c >>> 6)) <<< 6) ||| (c &&& 0x3F) = c := by
  rw [UInt8.shiftLeft_or, (parted b).lost.2.2.2, UInt8.zero_or, (parted c).whole.2.2]

end group

lemma unbase64_pad : unbase64 61 = none := by decide

/-- The letters of the text are decoded to the bytes. -/
lemma decoded_encoded (src : Bytes) : decoded ((encoded src).filterMap unbase64) = src := by
  have hzero : (0 : UInt8) >>> 4 = 0 ∧ (0 : UInt8) >>> 6 = 0 := by decide
  induction src using encoded.induct with
  | case1 a b c r ih =>
    rw [encoded, List.filterMap_cons_some (unbase64_letter (lt_of_high (parted a).first)),
      List.filterMap_cons_some (unbase64_letter (second_lt a b)),
      List.filterMap_cons_some (unbase64_letter (third_lt b c)),
      List.filterMap_cons_some (unbase64_letter (lt_of_high (parted c).fourth)), decoded, ih,
      join_first, join_second, join_third]
  | case2 a b =>
    have hthird : (b &&& 0x0F) <<< 2 = ((b &&& 0x0F) <<< 2) ||| ((0 : UInt8) >>> 6) := by
      rw [hzero.2, UInt8.or_zero]
    rw [encoded, hthird, List.filterMap_cons_some (unbase64_letter (lt_of_high (parted a).first)),
      List.filterMap_cons_some (unbase64_letter (second_lt a b)),
      List.filterMap_cons_some (unbase64_letter (third_lt b 0)),
      List.filterMap_cons_none unbase64_pad, List.filterMap_nil, decoded, join_first, join_second]
  | case3 a =>
    have hsecond : (a &&& 3) <<< 4 = ((a &&& 3) <<< 4) ||| ((0 : UInt8) >>> 4) := by
      rw [hzero.1, UInt8.or_zero]
    rw [encoded, hsecond, List.filterMap_cons_some (unbase64_letter (lt_of_high (parted a).first)),
      List.filterMap_cons_some (unbase64_letter (second_lt a 0)),
      List.filterMap_cons_none unbase64_pad, List.filterMap_cons_none unbase64_pad,
      List.filterMap_nil, decoded, join_first]
  | case4 => rfl

lemma encoded_append {whole : Bytes} (h : whole.length % 3 = 0) (rest : Bytes) :
    encoded (whole ++ rest) = encoded whole ++ encoded rest := by
  induction whole using encoded.induct with
  | case1 a b c r ih =>
    have hr : r.length % 3 = 0 := by
      simp only [List.length_cons] at h
      omega
    simp [encoded, ih hr]
  | case2 a b => simp at h
  | case3 a => simp at h
  | case4 => rfl

lemma getLast_encoded {whole : Bytes} (h : whole.length % 3 = 0) :
    (encoded whole).getLast? ≠ some 61 := by
  induction whole using encoded.induct with
  | case1 a b c r ih =>
    have hr : r.length % 3 = 0 := by
      simp only [List.length_cons] at h
      omega
    rw [encoded]
    cases hlast : (encoded r).getLast? with
    | none =>
      rw [List.getLast?_eq_none_iff.mp hlast]
      intro heq
      exact letter_ne_pad _ (Option.some.inj heq)
    | some x =>
      rw [List.getLast?_cons, List.getLast?_cons, List.getLast?_cons, List.getLast?_cons, hlast]
      exact fun heq => ih hr (hlast.trans heq)
  | case2 a b => simp at h
  | case3 a => simp at h
  | case4 => simp [encoded]

/-- The size is found again. -/
lemma decodedSize_encoded (src : Bytes) : base64DecodedSize (encoded src) = src.length := by
  obtain ⟨whole, held, rfl, hwhole, hheld⟩ : ∃ whole held : Bytes, src = whole ++ held ∧
      whole.length % 3 = 0 ∧ held.length < 3 :=
    ⟨src.take (src.length - src.length % 3), src.drop (src.length - src.length % 3),
      (List.take_append_drop _ _).symm, by rw [List.length_take]; omega,
      by rw [List.length_drop]; omega⟩
  have hlength := length_encoded whole
  unfold base64EncodedSize at hlength
  rw [encoded_append hwhole, base64DecodedSize]
  dsimp only
  rcases held with _ | ⟨a, _ | ⟨b, _ | ⟨c, held⟩⟩⟩
  · rw [encoded, List.append_nil, if_neg (getLast_encoded hwhole),
      if_neg (getLast_encoded hwhole), List.append_nil, hlength, base64DecodedSizeFast]
    split_ifs <;> omega
  · have hlast : (encoded whole ++ encoded [a]).getLast? = some 61 := by
      simp [encoded]
    have hdrop : (encoded whole ++ encoded [a]).dropLast =
        encoded whole ++ [letter (a >>> 2), letter ((a &&& 3) <<< 4), 61] := by
      rw [List.dropLast_append_of_ne_nil (by simp [encoded])]
      rfl
    have hlast' : (encoded whole ++ [letter (a >>> 2), letter ((a &&& 3) <<< 4), 61]).getLast? =
        some 61 := by
      simp
    have hdrop' : (encoded whole ++ [letter (a >>> 2), letter ((a &&& 3) <<< 4), 61]).dropLast =
        encoded whole ++ [letter (a >>> 2), letter ((a &&& 3) <<< 4)] := by
      rw [List.dropLast_append_of_ne_nil (by simp)]
      rfl
    rw [if_pos hlast, hdrop, if_pos hlast', hdrop', List.length_append, List.length_append, hlength,
      base64DecodedSizeFast]
    simp only [List.length_cons, List.length_nil]
    split_ifs <;> omega
  · have hlast : (encoded whole ++ encoded [a, b]).getLast? = some 61 := by
      simp [encoded]
    have hdrop : (encoded whole ++ encoded [a, b]).dropLast = encoded whole ++
        [letter (a >>> 2), letter (((a &&& 3) <<< 4) ||| (b >>> 4)),
          letter ((b &&& 0x0F) <<< 2)] := by
      rw [List.dropLast_append_of_ne_nil (by simp [encoded])]
      rfl
    have hlast' : (encoded whole ++ [letter (a >>> 2), letter (((a &&& 3) <<< 4) ||| (b >>> 4)),
        letter ((b &&& 0x0F) <<< 2)]).getLast? ≠ some 61 := by
      simp [letter_ne_pad]
    rw [if_pos hlast, hdrop, if_neg hlast', List.length_append, List.length_append, hlength,
      base64DecodedSizeFast]
    simp only [List.length_cons, List.length_nil]
    split_ifs <;> omega
  · simp only [List.length_cons] at hheld
    omega

/-- **There and back.** The text of any bytes is decoded to them, into as much room as they take. No
Buffer is so long that its text would have `2 ^ 31` characters. -/
theorem encode_decode (bytes : Bytes) (hint : base64EncodedSize bytes.length < 2 ^ 31)
    (m : ℕ → UInt8) (dst dlen : ℕ) (hroom : base64EncodedSize bytes.length ≤ dlen) :
    ∃ size text, Encodes m bytes dst dlen size text ∧
      base64DecodedSize (load text dst size) = bytes.length ∧
      ∀ (d : ℕ → UInt8) (buf : ℕ), ∃ d', Decodes d buf bytes.length (load text dst size)
        (text (dst + size)) bytes.length d' ∧ load d' buf bytes.length = bytes := by
  have htext : load (store m dst (encoded bytes)) dst (encoded bytes).length = encoded bytes :=
    load_store ..
  refine ⟨_, _, encodes bytes hint m hroom, ?_, fun d buf => ?_⟩
  · rw [htext, decodedSize_encoded]
  · rw [htext]
    obtain ⟨n, d', hdecodes, hn, -, hload, -⟩ := decode_junk (encoded bytes)
      (by rwa [length_encoded]) (store m dst (encoded bytes) (dst + (encoded bytes).length)) d buf
    rw [decoded_encoded] at hn hload
    rw [decodedSize_encoded] at hdecodes
    subst hn
    exact ⟨d', hdecodes, hload⟩

/-- A text that ends in padding, and a byte behind it. -/
theorem encode_decode_two : ∃ size text, Encodes (fun _ => 65) [104, 105] 7 4 size text ∧
    base64DecodedSize (load text 7 size) = 2 ∧
    ∃ d', Decodes (fun _ => 0) 3 2 (load text 7 size) (text (7 + size)) 2 d' ∧
      load d' 3 2 = [104, 105] := by
  obtain ⟨size, text, hencodes, hsize, hdecodes⟩ :=
    encode_decode [104, 105] (by decide) (fun _ => 65) 7 4 (by decide)
  exact ⟨size, text, hencodes, hsize, hdecodes (fun _ => 0) 3⟩

end NodeCore.Base64
