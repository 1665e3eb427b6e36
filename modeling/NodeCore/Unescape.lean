import Mathlib.Algebra.Group.Even
import NodeCore.Querystring

/-!
`unescapeBuffer` and percent-decoding.

When an escape turns out to be none, the loop writes what it has read of it as it is, with the
character that broke it off. If that is a `%` which starts an escape, the escape is missed.
-/

namespace NodeCore.QueryString

open Encoding Uri

/-! ### Decoding -/

/-- Each `%XX` is a byte. Anything else is left as it is, one character at a time. -/
def percentDecode : Str → Bytes
  | [] => []
  | 37 :: a :: b :: s =>
    match hexVal a, hexVal b with
    | some x, some y => UInt8.ofNat (16 * x + y) :: percentDecode s
    | _, _ => 37 :: percentDecode (a :: b :: s)
  | c :: s => c.toUInt8 :: percentDecode s

lemma octet_ne {c : UInt16} (hc : c ≠ 37) (s : Str) : octet (c :: s) = none := by
  unfold octet
  split
  · rename_i h
    exact absurd (List.cons.inj h).1 hc
  · rfl

lemma octet_short {s : Str} (h : s.length < 3) : octet s = none := by
  unfold octet
  split
  · simp only [List.length_cons] at h
    omega
  · rfl

lemma percentDecode_octet {s r : Str} {b : ℕ} (h : octet s = some (b, r)) :
    percentDecode s = UInt8.ofNat b :: percentDecode r := by
  unfold octet at h
  split at h
  · split at h
    next hx hy =>
      obtain ⟨rfl, rfl⟩ := Prod.mk.inj (Option.some.inj h)
      rw [percentDecode, hx, hy]
    next => cases h
  · cases h

lemma percentDecode_cons {c : UInt16} {s : Str} (h : octet (c :: s) = none) :
    percentDecode (c :: s) = c.toUInt8 :: percentDecode s := by
  by_cases hc : c = 37
  · subst hc
    match s with
    | [] => rfl
    | [a] => rfl
    | a :: b :: s =>
      rw [octet] at h
      rw [percentDecode]
      cases hx : hexVal a with
      | none => rfl
      | some x =>
        cases hy : hexVal b with
        | none => rfl
        | some y => simp [hx, hy] at h
  · rw [percentDecode]
    intro a b s h37
    exact absurd h37 hc

lemma hexVal_ne {c : UInt16} {n : ℕ} (h : hexVal c = some n) : c ≠ 37 := by
  rintro rfl
  cases h

/-- The two digits of an escape are decoded as they are without the `%`. -/
lemma length_of_octet {c : UInt16} {s r : Str} {b : ℕ} (h : octet (c :: s) = some (b, r)) :
    (percentDecode s).length = (percentDecode r).length + 2 := by
  unfold octet at h
  split at h
  · rename_i hs
    split at h
    next hx hy =>
      obtain ⟨-, rfl⟩ := Prod.mk.inj (Option.some.inj h)
      obtain ⟨-, rfl⟩ := List.cons.inj hs
      rw [percentDecode_cons (octet_ne (hexVal_ne hx) _),
        percentDecode_cons (octet_ne (hexVal_ne hy) _)]
      rfl
    next => cases h
  · cases h

lemma octet_of_hexVal {a : UInt16} (h : hexVal a = none) (s : Str) :
    octet (37 :: a :: s) = none := by
  cases s with
  | nil => rfl
  | cons b s => simp only [octet, h]

/-! ### The rounds of the loop -/

/-- What the loop makes of what is left. -/
def remaining (state : State) (s : Str) : Bytes :=
  (unescapeLoop false state (s.map some ++ [none])).dropLast

lemma unescapeLoop_ne_nil (state : State) (s : Str) :
    unescapeLoop false state (s.map some ++ [none]) ≠ [] := by
  induction s generalizing state with
  | nil => cases state <;> exact List.cons_ne_nil _ _
  | cons c s ih => exact List.append_ne_nil_of_right_ne_nil _ (ih _)

lemma remaining_cons (state : State) (c : UInt16) (s : Str) :
    remaining state (c :: s) = (unescapeStep false (some c) state).2 ++
      remaining (unescapeStep false (some c) state).1 s :=
  List.dropLast_append_of_ne_nil (unescapeLoop_ne_nil _ s)

/-- What has been read and not written. -/
def State.pending : State → Str
  | .char => []
  | .hex0 => [37]
  | .hex1 _ hexchar => [37, hexchar.getD 0]

/-- The digit is what has been read. -/
def State.Read : State → Prop
  | .hex1 n hexchar => hexchar.bind hexVal = some n
  | _ => True

/-! ### Escapes that are missed -/

/-- How many `%` and `%h` there are in a row at the end of what is given backwards. -/
def percents : Str → ℕ
  | [] => 0
  | [c] => if c = 37 then 1 else 0
  | c :: d :: p =>
    if c = 37 then percents (d :: p) + 1
    else if d = 37 ∧ (hexVal c).isSome then percents p + 1
    else 0

/-- Each `%XX` is behind an even number of them. -/
def Seen (p s : Str) : Prop :=
  ∀ i < s.length, (octet (s.drop i)).isSome → Even (percents ((s.take i).reverse ++ p))

lemma seen_cons (p : Str) (c : UInt16) (s : Str) :
    Seen p (c :: s) ↔ ((octet (c :: s)).isSome → Even (percents p)) ∧ Seen (c :: p) s := by
  have hback (i : ℕ) : ((c :: s).take (i + 1)).reverse ++ p = (s.take i).reverse ++ c :: p := by
    rw [List.take_succ_cons, List.reverse_cons, List.append_assoc]
    rfl
  constructor
  · intro h
    refine ⟨h 0 (Nat.succ_pos _), fun i hi hoctet => ?_⟩
    rw [← hback]
    exact h (i + 1) (Nat.succ_lt_succ hi) hoctet
  · rintro ⟨hfirst, hrest⟩ i hi hoctet
    cases i with
    | zero => exact hfirst hoctet
    | succ i =>
      rw [hback]
      exact hrest i (Nat.lt_of_succ_lt_succ hi) hoctet

lemma seen_cons_of_none {c : UInt16} {s : Str} (h : octet (c :: s) = none) (p : Str) :
    Seen p (c :: s) ↔ Seen (c :: p) s := by
  rw [seen_cons, h]
  simp

lemma percents_percent (p : Str) : percents (37 :: p) = percents p + 1 := by
  cases p <;> simp [percents]

lemma percents_ne {c : UInt16} (hc : c ≠ 37) {p : Str} (h : Even (percents p)) :
    Even (percents (c :: p)) := by
  cases p with
  | nil => simp [percents, hc]
  | cons d p =>
    rw [percents, if_neg hc]
    split_ifs with hd
    · rwa [hd.1, percents_percent] at h
    · exact Even.zero

lemma percents_digit {a : UInt16} {n : ℕ} (ha : hexVal a = some n) (p : Str) :
    percents (a :: 37 :: p) = percents p + 1 := by
  simp [percents, hexVal_ne ha, ha]

/-- What breaks off an escape is one `%` more, or it ends the row. -/
lemma percents_broken {c : UInt16} (hc : hexVal c = none) {p : Str} (h : Even (percents p)) :
    Even (percents (c :: 37 :: p)) := by
  by_cases hpercent : c = 37
  · rw [hpercent, percents_percent, percents_percent]
    exact h.add even_two
  · simp [percents, hpercent, hc]

lemma percents_behind_digit {a : UInt16} {n : ℕ} (ha : hexVal a = some n) (c : UInt16) {p : Str}
    (h : Even (percents p)) : Even (percents (c :: a :: 37 :: p)) := by
  by_cases hpercent : c = 37
  · rw [hpercent, percents_percent, percents_digit ha]
    exact h.add even_two
  · simp [percents, hpercent, hexVal_ne ha]

/-! ### The loop and the decoder -/

/-- A character that breaks off an escape is written as it is. -/
lemma written_iff {c : UInt16} {s q : Str} (hodd : ¬ Even (percents q))
    (hle : (percentDecode s).length ≤ (remaining .char s).length)
    (hiff : remaining .char s = percentDecode s ↔ Seen (c :: q) s) :
    (percentDecode (c :: s)).length ≤ (remaining .char s).length + 1 ∧
      (c.toUInt8 :: remaining .char s = percentDecode (c :: s) ↔ Seen q (c :: s)) := by
  cases h : octet (c :: s) with
  | none =>
    rw [percentDecode_cons h, seen_cons_of_none h, List.cons_inj_right]
    exact ⟨Nat.succ_le_succ hle, hiff⟩
  | some found =>
    obtain ⟨b, r⟩ := found
    have hlength := length_of_octet h
    have hseen : ¬ Seen q (c :: s) := by
      rw [seen_cons, h]
      exact fun hs => hodd (hs.1 rfl)
    rw [percentDecode_octet h, List.length_cons]
    refine ⟨by omega, iff_of_false (fun heq => ?_) hseen⟩
    have hsame := congrArg List.length heq
    rw [List.length_cons, List.length_cons] at hsame
    omega

/-- What is left is decoded together with what has been read, if no escape is missed. What the loop
makes of it is no shorter than that. -/
structure Follows (state : State) (q s : Str) : Prop where
  le : (percentDecode (state.pending ++ s)).length ≤ (remaining state s).length
  iff : remaining state s = percentDecode (state.pending ++ s) ↔ Seen q (state.pending ++ s)

/-- Too short for an escape, all of it is left as it is. -/
lemma follows_nil (state : State) (q : Str) : Follows state q [] := by
  have hseen {t : Str} (ht : t.length < 3) : Seen q t := by
    intro i hi hoctet
    rw [octet_short (by rw [List.length_drop]; omega)] at hoctet
    cases hoctet
  have hshort : (state.pending ++ []).length < 3 := by
    cases state <;> simp [State.pending]
  have hdecode : remaining state [] = percentDecode (state.pending ++ []) := by
    cases state with
    | char => rfl
    | hex0 => rfl
    | hex1 n hexchar =>
      simp only [State.pending, List.append_nil]
      rw [percentDecode_cons (octet_short (by simp)), percentDecode_cons (octet_short (by simp))]
      rfl
  exact ⟨hdecode ▸ le_rfl, iff_of_true hdecode (hseen hshort)⟩

lemma Follows.char {c : UInt16} (hc : c ≠ 37) {q s : Str} (h : Follows .char (c :: q) s) :
    Follows .char q (c :: s) := by
  obtain ⟨hle, hiff⟩ := h
  have hstep : unescapeStep false (some c) .char = (.char, [c.toUInt8]) := by
    simp [unescapeStep, toByte, hc]
  have hoctet := octet_ne hc s
  simp only [State.pending, List.nil_append] at hle hiff
  constructor <;> rw [remaining_cons, hstep] <;>
    simp only [State.pending, List.nil_append, List.singleton_append]
  · rw [percentDecode_cons hoctet]
    exact Nat.succ_le_succ hle
  · rw [percentDecode_cons hoctet, seen_cons_of_none hoctet, List.cons_inj_right]
    exact hiff

/-- A `%` without a digit behind it. -/
lemma Follows.hex0 {c : UInt16} (hhex : hexVal c = none) {q s : Str} (heven : Even (percents q))
    (h : Follows .char (c :: 37 :: q) s) : Follows .hex0 q (c :: s) := by
  have hstep : unescapeStep false (some c) .hex0 = (.char, [37, c.toUInt8]) := by
    simp [unescapeStep, toByte, hhex]
  have hodd : ¬ Even (percents (37 :: q)) := by
    rw [percents_percent]
    exact fun h => Nat.even_add_one.mp h heven
  obtain ⟨hle, hiff⟩ := written_iff hodd h.le h.iff
  have hoctet := octet_of_hexVal hhex s
  constructor <;> rw [remaining_cons, hstep] <;>
    simp only [State.pending, List.cons_append, List.nil_append]
  · rw [percentDecode_cons hoctet]
    exact Nat.succ_le_succ hle
  · rw [percentDecode_cons hoctet, seen_cons_of_none hoctet]
    exact (List.cons_inj_right _).trans hiff

section digit

variable {a c : UInt16} {n : ℕ} {q s : Str} (ha : hexVal a = some n) (heven : Even (percents q))
include ha heven

/-- An escape. -/
lemma Follows.hex1 {m : ℕ} (hhex : hexVal c = some m) (h : Follows .char (c :: a :: 37 :: q) s) :
    Follows (.hex1 n (some a)) q (c :: s) := by
  obtain ⟨hle, hiff⟩ := h
  have hstep : unescapeStep false (some c) (.hex1 n (some a)) =
      (.char, [UInt8.ofNat (16 * n + m)]) := by
    simp [unescapeStep, hhex]
  have hoctet : octet (37 :: a :: c :: s) = some (16 * n + m, s) := by
    simp only [octet, ha, hhex]
  simp only [State.pending, List.nil_append] at hle hiff
  constructor <;> rw [remaining_cons, hstep] <;>
    simp only [State.pending, List.cons_append, List.nil_append, Option.getD_some]
  · rw [percentDecode_octet hoctet]
    exact Nat.succ_le_succ hle
  · rw [percentDecode_octet hoctet, seen_cons, seen_cons_of_none (octet_ne (hexVal_ne ha) _),
      seen_cons_of_none (octet_ne (hexVal_ne hhex) _), List.cons_inj_right]
    exact hiff.trans (and_iff_right fun _ => heven).symm

/-- One digit only. -/
lemma Follows.hex1_none (hhex : hexVal c = none) (h : Follows .char (c :: a :: 37 :: q) s) :
    Follows (.hex1 n (some a)) q (c :: s) := by
  have hstep : unescapeStep false (some c) (.hex1 n (some a)) =
      (.char, [37, a.toUInt8, c.toUInt8]) := by
    simp [unescapeStep, toByte, hhex]
  have hodd : ¬ Even (percents (a :: 37 :: q)) := by
    rw [percents_digit ha]
    exact fun h => Nat.even_add_one.mp h heven
  obtain ⟨hle, hiff⟩ := written_iff hodd h.le h.iff
  have hoctet : octet (37 :: a :: c :: s) = none := by
    simp only [octet, ha, hhex]
  have hdigit := octet_ne (hexVal_ne ha) (c :: s)
  constructor <;> rw [remaining_cons, hstep] <;>
    simp only [State.pending, List.cons_append, List.nil_append, Option.getD_some]
  · rw [percentDecode_cons hoctet, percentDecode_cons hdigit]
    exact Nat.succ_le_succ (Nat.succ_le_succ hle)
  · rw [percentDecode_cons hoctet, percentDecode_cons hdigit, seen_cons_of_none hoctet,
      seen_cons_of_none hdigit]
    exact (List.cons_inj_right _).trans ((List.cons_inj_right _).trans hiff)

end digit

lemma follows (s : Str) {state : State} (hread : state.Read) {q : Str}
    (heven : Even (percents q)) : Follows state q s := by
  induction s generalizing state q with
  | nil => exact follows_nil state q
  | cons c s ih =>
    have hchar : State.char.Read := trivial
    cases state with
    | char =>
      by_cases hc : c = 37
      · subst hc
        have hread' : State.hex0.Read := trivial
        have hpercent := ih hread' heven
        exact ⟨hpercent.le, hpercent.iff⟩
      · exact .char hc (ih hchar (percents_ne hc heven))
    | hex0 =>
      cases hhex : hexVal c with
      | some n =>
        have hstep : unescapeStep false (some c) .hex0 = (.hex1 n (some c), []) := by
          simp [unescapeStep, hhex]
        have hread' : (State.hex1 n (some c)).Read := hhex
        have hdigit : Follows (.hex1 n (some c)) q s := ih hread' heven
        constructor <;> rw [remaining_cons, hstep]
        · exact hdigit.le
        · exact hdigit.iff
      | none => exact .hex0 hhex heven (ih hchar (percents_broken hhex heven))
    | hex1 n hexchar =>
      obtain ⟨a, rfl, ha⟩ := Option.bind_eq_some_iff.mp hread
      cases hhex : hexVal c with
      | some m => exact .hex1 ha heven hhex (ih hchar (percents_behind_digit ha c heven))
      | none => exact .hex1_none ha heven hhex (ih hchar (percents_behind_digit ha c heven))

/-- **`unescapeBuffer`** decodes a string, of characters that are bytes or of any, if and only if
each escape is behind an even number of `%` and `%h` in a row. -/
theorem unescapeBuffer_iff (s : Str) :
    unescapeBuffer s false = percentDecode s ↔
      ∀ i < s.length, (octet (s.drop i)).isSome → Even (percents (s.take i).reverse) := by
  have hseen : Seen [] s ↔
      ∀ i < s.length, (octet (s.drop i)).isSome → Even (percents (s.take i).reverse) := by
    simp only [Seen, List.append_nil]
  rw [← hseen]
  have hchar : State.char.Read := trivial
  exact (follows s hchar Even.zero).iff

/-- `%%41` stays as it is, where `%A` was to come out. -/
theorem unescapeBuffer_misses :
    ¬ ∀ s : Str, (∀ c ∈ s, c < 256) → unescapeBuffer s false = percentDecode s := by
  intro hall
  exact absurd (hall (js "%%41") (by decide)) (by decide)

end NodeCore.QueryString
