import NodeCore.Writev

/-!
When corked writes are plain writes.

For each chunk there is what a Buffer makes of it and what `Writev` makes of it. The names that a
Buffer knows mean the same to both; without a name the one takes UTF-8 and the other the low
bytes, which are the same for ASCII alone.
-/

namespace NodeCore.Writev

open NodeCore.Encoding NodeCore.EncodeConcat NodeCore.StringBytes

/-! ### Each by itself -/

variable {num : ToNumber}

/-- No name, or the empty one. -/
def Missing (encoding : EncArg) : Prop := encoding = none ∨ encoding = some []

instance : DecidablePred Missing := fun encoding =>
  inferInstanceAs (Decidable (encoding = none ∨ encoding = some []))

/-- A chunk that `_write` does not take: a string too large, or one of which no Buffer can be
made. -/
def Refused (num : ToNumber) (e : Entry) : Prop :=
  match e.chunk with
  | .buf _ => False
  | .str string =>
    e.encoding ≠ some (js "buffer") ∧
      match direct e.encoding with
      | some encoding => ∃ n, chunkSize string encoding = some n ∧ INT_MAX < n
      | none =>
        kMaxLength < byteLength string e.encoding ∨
          match asLength num e.encoding with
          | some length => string ≠ [] ∧ length < 0
          | none =>
            ofName (orUtf8 e.encoding) = none ∨
              ofName (orUtf8 e.encoding) = some .hex ∧ string.length % 2 ≠ 0

/-- A string whose encoding is a number, and is too small for it. -/
def Cut (num : ToNumber) (e : Entry) : Prop :=
  ∃ string length, e.chunk = .str string ∧ asLength num e.encoding = some length ∧
    0 ≤ length ∧ length < (writeUtf8 string).length

/-- A chunk that `_write` sends. -/
def Taken (num : ToNumber) (e : Entry) : Prop :=
  ¬ Refused num e ∧ ¬ ∃ string, e.chunk = .str string ∧ e.encoding = some (js "buffer")

/-- What a Buffer makes of a chunk. -/
def made (num : ToNumber) (e : Entry) : Option Bytes :=
  match e.chunk with
  | .buf b => some b
  | .str string => bufferOf num string e.encoding

/-- What a chunk adds to the wire when it is sent by itself. -/
def sentBy (num : ToNumber) (e : Entry) : Bytes := (made num e).getD []

/-- Without a name a Buffer takes UTF-8, `Writev` the low bytes. -/
lemma Missing.known {encoding : EncArg} (h : Missing encoding) :
    ofName (orUtf8 encoding) = some .utf8 ∧ parseEncoding encoding .binary = .binary := by
  rcases h with rfl | rfl <;> decide

lemma needs_le {chunks : List Entry} {e : Entry} (he : e ∈ chunks) :
    needs e ≤ (chunks.map needs).sum :=
  List.le_sum_of_mem (List.mem_map_of_mem he)

/-- The number that is written in decimal digits. -/
def decimalFloor (name : Str) : Option ℤ :=
  if name.isEmpty || !(name.all fun c => 48 ≤ c.toNat && c.toNat ≤ 57) then none
  else some (name.foldl (fun n c => n * 10 + (c.toNat - 48)) 0)

/-- No name of an encoding begins with a digit. -/
lemma decimalFloor_unnamed (name : Str) (h : decimalFloor name ≠ none) (d : Coding) :
    parseEncoding (some name) d = d := by
  have hdigits : ¬ (name.isEmpty || !(name.all fun c => 48 ≤ c.toNat && c.toNat ≤ 57)) = true :=
    fun hno => h (if_pos hno)
  rcases name with _ | ⟨c, r⟩
  · exact absurd rfl hdigits
  simp only [List.isEmpty_cons, List.all_cons, Bool.false_or, Bool.not_eq_true', Bool.not_eq_false,
    Bool.and_eq_true, decide_eq_true_eq] at hdigits
  obtain ⟨⟨hlow, hhigh⟩, -⟩ := hdigits
  have hne : ∀ w : Str, (w.head?.any fun x => 57 < x.toNat) = true →
      toLowerCase ((c :: r).takeWhile (· ≠ 0)) ≠ w := by
    have hzero : decide (c ≠ 0) = true := by
      refine decide_eq_true fun hc => ?_
      rw [hc] at hlow
      exact absurd hlow (by decide)
    have hlower : lowerUnit c = c := if_neg fun hc => by
      have := UInt16.le_iff_toNat_le.mp hc.1
      simp only [UInt16.reduceToNat] at this
      omega
    intro w hw heq
    simp only [List.takeWhile_cons, hzero, if_true, toLowerCase, List.map_cons, hlower] at heq
    rw [← heq] at hw
    have := of_decide_eq_true hw
    omega
  simp only [parseEncoding, parseName, hne (js "utf8") (by decide),
    hne (js "utf-8") (by decide), hne (js "ascii") (by decide), hne (js "base64") (by decide),
    hne (js "ucs2") (by decide), hne (js "ucs-2") (by decide), hne (js "utf16le") (by decide),
    hne (js "utf-16le") (by decide), hne (js "binary") (by decide), hne (js "buffer") (by decide),
    hne (js "hex") (by decide), hne (js "raw") (by decide), hne (js "raws") (by decide),
    or_self, if_false]

def decimal : ToNumber := ⟨decimalFloor, decimalFloor_unnamed⟩

end NodeCore.Writev
