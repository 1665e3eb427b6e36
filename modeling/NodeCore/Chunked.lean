import Mathlib.Tactic

/-!
The chunked coding of HTTP/1.1: a reader for bodies without trailers, and what it reads of a
body that was written chunk by chunk.

`chunk = size [ext] CRLF data CRLF`, `body = *chunk 1*"0" [ext] CRLF CRLF`; a size is a run of
hex digits, an extension starts with a semicolon and goes to the end of the line.
-/

namespace NodeCore.Chunked

def hexVal (b : UInt8) : Option ℕ :=
  if 48 ≤ b ∧ b ≤ 57 then some (b.toNat - 48)
  else if 65 ≤ b ∧ b ≤ 70 then some (b.toNat - 55)
  else if 97 ≤ b ∧ b ≤ 102 then some (b.toNat - 87)
  else none

/-- Reads hex digits as far as they go. -/
def size (acc : ℕ) : List UInt8 → ℕ × List UInt8
  | [] => (acc, [])
  | b :: r =>
    match hexVal b with
    | some v => size (acc * 16 + v) r
    | none => (acc, b :: r)

def afterLine : List UInt8 → Option (List UInt8)
  | 13 :: 10 :: r => some r
  | _ :: r => afterLine r
  | [] => none

/-- The rest of a size line. -/
def lineEnd : List UInt8 → Option (List UInt8)
  | 13 :: 10 :: r => some r
  | 59 :: r => afterLine r
  | _ => none

/-- Reads a body to its end; `fuel` bounds the number of chunks. -/
def body : ℕ → List UInt8 → Option (List UInt8)
  | 0, _ => none
  | fuel + 1, bs =>
    if bs.head?.bind hexVal = none then none
    else (lineEnd (size 0 bs).2).bind fun r =>
      let n := (size 0 bs).1
      if n = 0 then if r = [13, 10] then some [] else none
      else if (r.drop n).take 2 = [13, 10] then
        (body fuel (r.drop (n + 2))).map (r.take n ++ ·)
      else none

/-- Every chunk takes at least one byte. -/
def decode (bs : List UInt8) : Option (List UInt8) := body bs.length bs

/-! ### Writing -/

def digits (n : ℕ) : List UInt8 := (Nat.toDigits 16 n).map fun c => UInt8.ofNat c.toNat

def frame (data : List UInt8) : List UInt8 := digits data.length ++ [13, 10] ++ data ++ [13, 10]

def lastChunk : List UInt8 := [48, 13, 10, 13, 10]

/-! ### Sizes -/

/-- The number a run of hex digits stands for. -/
def value (acc : ℕ) (ds : List UInt8) : ℕ := ds.foldl (fun a b => a * 16 + (hexVal b).getD 0) acc

lemma size_append {ds : List UInt8} (hd : ∀ b ∈ ds, (hexVal b).isSome) (acc : ℕ)
    (r : List UInt8) : size acc (ds ++ r) = size (value acc ds) r := by
  induction ds generalizing acc with
  | nil => rfl
  | cons b t ih =>
    obtain ⟨v, hv⟩ := Option.isSome_iff_exists.mp (hd b (by simp))
    rw [List.cons_append, size, hv]
    simpa [value, hv] using ih (fun b hb => hd b (by simp [hb])) (acc * 16 + v)

lemma hexVal_digitChar {d : ℕ} (hd : d < 16) :
    hexVal (UInt8.ofNat (Nat.digitChar d).toNat) = some d := by
  have h : ∀ d : Fin 16, hexVal (UInt8.ofNat (Nat.digitChar d).toNat) = some d.val := by decide
  exact h ⟨d, hd⟩

lemma digits_of_lt {n : ℕ} (hn : n < 16) : digits n = [UInt8.ofNat (Nat.digitChar n).toNat] := by
  rw [digits, Nat.toDigits_of_lt_base hn]
  rfl

lemma digits_of_le {n : ℕ} (hn : 16 ≤ n) :
    digits n = digits (n / 16) ++ [UInt8.ofNat (Nat.digitChar (n % 16)).toNat] := by
  rw [digits, Nat.toDigits_of_base_le (by omega) hn, List.map_append]
  rfl

/-- A size reads back as it was written. -/
lemma digits_spec (n : ℕ) : (∀ b ∈ digits n, (hexVal b).isSome) ∧ value 0 (digits n) = n := by
  induction n using Nat.strongRecOn with
  | ind n ih =>
    rcases Nat.lt_or_ge n 16 with hn | hn
    · rw [digits_of_lt hn]
      simp [value, hexVal_digitChar hn]
    · have hm : n % 16 < 16 := by omega
      obtain ⟨h1, h2⟩ := ih (n / 16) (by omega)
      rw [digits_of_le hn]
      constructor
      · intro b hb
        rcases List.mem_append.mp hb with hb | hb
        · exact h1 b hb
        · rw [List.mem_singleton.mp hb, hexVal_digitChar hm]
          rfl
      · have hv : value 0 (digits (n / 16) ++ [UInt8.ofNat (Nat.digitChar (n % 16)).toNat]) =
            value 0 (digits (n / 16)) * 16 + n % 16 := by
          simp [value, List.foldl_append, hexVal_digitChar hm]
        rw [hv, h2]
        omega

lemma digits_ne_nil (n : ℕ) : digits n ≠ [] := by
  simp [digits, Nat.toDigits_ne_nil]

lemma size_digits (n : ℕ) (r : List UInt8) : size 0 (digits n ++ 13 :: r) = (n, 13 :: r) := by
  obtain ⟨h1, h2⟩ := digits_spec n
  have h13 : hexVal 13 = none := by decide
  rw [size_append h1, h2, size, h13]

/-! ### Reading what was written -/

/-- One frame. -/
lemma body_frame {data : List UInt8} (hd : data ≠ []) (fuel : ℕ) (r : List UInt8) :
    body (fuel + 1) (frame data ++ r) = (body fuel r).map (data ++ ·) := by
  have hn : data.length ≠ 0 := fun h => hd (List.length_eq_zero_iff.mp h)
  have hf : frame data ++ r = digits data.length ++ 13 :: (10 :: (data ++ (13 :: 10 :: r))) := by
    simp [frame]
  have hh : (frame data ++ r).head?.bind hexVal ≠ none := by
    obtain ⟨b, t, ht⟩ := List.exists_cons_of_ne_nil (digits_ne_nil data.length)
    have hb := (digits_spec data.length).1 b (by simp [ht])
    rw [hf, ht]
    exact Option.isSome_iff_ne_none.mp hb
  rw [body, if_neg hh, hf, size_digits]
  simp [lineEnd, hn]

lemma body_lastChunk (fuel : ℕ) : body (fuel + 1) lastChunk = some [] := by
  rfl

lemma body_frames {ds : List (List UInt8)} (hd : ∀ d ∈ ds, d ≠ []) {fuel : ℕ}
    (hf : ds.length < fuel) : body fuel (ds.flatMap frame ++ lastChunk) = some ds.flatten := by
  induction ds generalizing fuel with
  | nil =>
    obtain ⟨k, rfl⟩ := Nat.exists_eq_succ_of_ne_zero (by omega : fuel ≠ 0)
    exact body_lastChunk k
  | cons d t ih =>
    obtain ⟨k, rfl⟩ := Nat.exists_eq_succ_of_ne_zero (by omega : fuel ≠ 0)
    have ht : body k (t.flatMap frame ++ lastChunk) = some t.flatten :=
      ih (fun x hx => hd x (by simp [hx])) (by simpa using hf)
    rw [List.flatMap_cons, List.append_assoc, body_frame (hd d (by simp)), ht]
    rfl

lemma frames_length_le (ds : List (List UInt8)) : ds.length ≤ (ds.flatMap frame).length := by
  induction ds with
  | nil => simp
  | cons d t ih =>
    have h : 0 < (frame d).length := by simp [frame]
    rw [List.flatMap_cons, List.length_append, List.length_cons]
    omega

/-- **Round trip**: a body written from non-empty chunks reads back as their concatenation. -/
theorem decode_frames {ds : List (List UInt8)} (hd : ∀ d ∈ ds, d ≠ []) :
    decode (ds.flatMap frame ++ lastChunk) = some ds.flatten := by
  refine body_frames hd ?_
  have h := frames_length_le ds
  simp only [List.length_append, lastChunk, List.length_cons, List.length_nil]
  omega

end NodeCore.Chunked
