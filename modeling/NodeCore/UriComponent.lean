import NodeCore.Encoding

/-!
`encodeURIComponent` and `decodeURIComponent`.

Both are built into the language: a unit that is not left as it is becomes the escapes of its
UTF-8 bytes, and an escape that is not the shortest form of a character is an error. `none` is
the `URIError`.
-/

namespace NodeCore.Uri

open Encoding

/-- What is said of the units of a string is not decided over all units there are. -/
instance (priority := 2000) decidableUnits {p : UInt16 → Prop} [DecidablePred p] (s : Str) :
    Decidable (∀ c ∈ s, p c) :=
  List.decidableBAll p s

/-! ### The functions -/

/-- `A-Z a-z 0-9 - _ . ! ~ * ' ( )` -/
def isUnescaped (c : UInt16) : Bool :=
  (65 ≤ c ∧ c ≤ 90) ∨ (97 ≤ c ∧ c ≤ 122) ∨ (48 ≤ c ∧ c ≤ 57) ∨ c ∈ js "-_.!~*'()"

def hexDigit (n : ℕ) : UInt16 := UInt16.ofNat (if n < 10 then 48 + n else 55 + n)

def hexVal (c : UInt16) : Option ℕ :=
  if 48 ≤ c ∧ c ≤ 57 then some (c.toNat - 48)
  else if 65 ≤ c ∧ c ≤ 70 then some (c.toNat - 55)
  else if 97 ≤ c ∧ c ≤ 102 then some (c.toNat - 87)
  else none

/-- `%XX` -/
def escaped (b : UInt8) : Str := [37, hexDigit (b.toNat / 16), hexDigit (b.toNat % 16)]

def encodeURIComponent : Str → Option Str
  | [] => some []
  | [c] =>
    if isUnescaped c then some [c]
    else if isLead c ∨ isTrail c then none
    else some ((utf8Unit c).flatMap escaped)
  | c :: d :: s =>
    if isUnescaped c then (encodeURIComponent (d :: s)).map (c :: ·)
    else if isTrail c then none
    else if isLead c then
      if isTrail d then (encodeURIComponent s).map ((utf8Pair c d).flatMap escaped ++ ·) else none
    else (encodeURIComponent (d :: s)).map ((utf8Unit c).flatMap escaped ++ ·)

/-- The byte of an escape, and what follows it. -/
def octet : Str → Option (ℕ × Str)
  | 37 :: a :: b :: s =>
    match hexVal a, hexVal b with
    | some x, some y => some (16 * x + y, s)
    | _, _ => none
  | _ => none

/-- `n` bytes more of the form `10xxxxxx`. -/
def moreOctets : ℕ → ℕ → Str → Option (ℕ × Str)
  | 0, v, s => some (v, s)
  | n + 1, v, s =>
    match octet s with
    | some (b, s) => if b / 64 = 2 then moreOctets n (v * 64 + b % 64) s else none
    | none => none

/-- A character of several bytes, as long as no fewer would do and it is no surrogate. -/
def longCharacter (n v least : ℕ) (s : Str) : Option (Str × Str) :=
  match moreOctets n v s with
  | some (v, s) =>
    if least ≤ v ∧ v < 0x110000 ∧ ¬ (0xD800 ≤ v ∧ v ≤ 0xDFFF) then some (unitsOf v, s) else none
  | none => none

/-- The character of an escape and of those it needs behind it. -/
def character (s : Str) : Option (Str × Str) :=
  match octet s with
  | none => none
  | some (b, s) =>
    if b < 0x80 then some (unitsOf b, s)
    else if b < 0xC0 then none
    else if b < 0xE0 then longCharacter 1 (b % 32) 0x80 s
    else if b < 0xF0 then longCharacter 2 (b % 16) 0x800 s
    else if b < 0xF8 then longCharacter 3 (b % 8) 0x10000 s
    else none

/-- The loop of `Decode`, at most so often. -/
def decodeLoop : ℕ → Str → Option Str
  | _, [] => some []
  | 0, _ :: _ => none
  | n + 1, c :: s =>
    if c = 37 then
      match character (c :: s) with
      | some (u, r) => (decodeLoop n r).map (u ++ ·)
      | none => none
    else (decodeLoop n s).map (c :: ·)

def decodeURIComponent (s : Str) : Option Str := decodeLoop s.length s

example : encodeURIComponent (js "a:b/é") = some (js "a%3Ab%2F%C3%A9") := by decide
example : decodeURIComponent (js "a%3ab%2F%C3%A9") = some (js "a:b/é") := by decide

/-! ### Escapes are read back -/

lemma hexVal_hexDigit : ∀ n < 16, hexVal (hexDigit n) = some n := by decide

lemma octet_escaped (b : UInt8) (r : Str) : octet (escaped b ++ r) = some (b.toNat, r) := by
  have hb := b.toNat_lt
  have hhigh := hexVal_hexDigit (b.toNat / 16) (by omega)
  have hlow := hexVal_hexDigit (b.toNat % 16) (by omega)
  simp only [escaped, octet, List.cons_append, List.nil_append, hhigh, hlow]
  rw [Nat.div_add_mod]

lemma unitsOf_toNat (c : UInt16) : unitsOf c.toNat = [c] := by
  have hc := c.toNat_lt
  rw [unitsOf, if_pos (by omega), UInt16.ofNat_toNat]

lemma moreOctets_escaped {k : ℕ} (hk : k < 0x40) (n v : ℕ) (r : Str) :
    moreOctets (n + 1) v (escaped (UInt8.ofNat (0x80 + k)) ++ r) = moreOctets n (v * 64 + k) r := by
  have hb : (UInt8.ofNat (0x80 + k)).toNat = 0x80 + k := by
    rw [UInt8.toNat_ofNat']
    omega
  simp only [moreOctets, octet_escaped, hb]
  rw [if_pos (by omega), show (0x80 + k) % 64 = k by omega]

/-- The first byte says how many there are. -/
lemma character_escaped {b : ℕ} (hb : b < 0x100) (r : Str) :
    character (escaped (UInt8.ofNat b) ++ r) =
      if b < 0x80 then some (unitsOf b, r)
      else if b < 0xC0 then none
      else if b < 0xE0 then longCharacter 1 (b % 32) 0x80 r
      else if b < 0xF0 then longCharacter 2 (b % 16) 0x800 r
      else if b < 0xF8 then longCharacter 3 (b % 8) 0x10000 r
      else none := by
  have hn : (UInt8.ofNat b).toNat = b := by
    rw [UInt8.toNat_ofNat']
    omega
  simp only [character, octet_escaped, hn]

lemma character_unit {c : UInt16} (hlead : isLead c = false) (htrail : isTrail c = false)
    (r : Str) :
    character ((utf8Unit c).flatMap escaped ++ r) = some ([c], r) := by
  have hc := c.toNat_lt
  simp only [isLead, isTrail, UInt16.le_iff_toNat_le, UInt16.reduceToNat, decide_eq_false_iff_not]
    at hlead htrail
  have hu : c.toUInt8 = UInt8.ofNat c.toNat := rfl
  unfold utf8Unit
  simp only [UInt16.le_iff_toNat_le, UInt16.reduceToNat, hu]
  split_ifs with h1 h2 <;>
    simp only [List.flatMap_cons, List.flatMap_nil, List.append_nil, List.append_assoc]
  · rw [character_escaped (by omega), if_pos (by omega), unitsOf_toNat]
  · have hv : (0xC0 + c.toNat / 0x40) % 32 * 64 + c.toNat % 0x40 = c.toNat := by omega
    rw [character_escaped (by omega), if_neg (by omega), if_neg (by omega), if_pos (by omega),
      longCharacter, moreOctets_escaped (by omega), hv]
    simp only [moreOctets]
    rw [if_pos (by omega), unitsOf_toNat]
  · have hv : ((0xE0 + c.toNat / 0x1000) % 16 * 64 + c.toNat / 0x40 % 0x40) * 64 + c.toNat % 0x40 =
        c.toNat := by omega
    rw [character_escaped (by omega), if_neg (by omega), if_neg (by omega), if_neg (by omega),
      if_pos (by omega), longCharacter, moreOctets_escaped (by omega),
      moreOctets_escaped (by omega), hv]
    simp only [moreOctets]
    rw [if_pos (by omega), unitsOf_toNat]

lemma unitsOf_combine {c d : UInt16} (hc : isLead c = true) (hd : isTrail d = true) :
    unitsOf (combine c d) = [c, d] := by
  simp only [isLead, isTrail, UInt16.le_iff_toNat_le, UInt16.reduceToNat, decide_eq_true_eq]
    at hc hd
  have hhigh : 0xD800 + (combine c d - 0x10000) / 0x400 % 0x400 = c.toNat := by
    unfold combine
    omega
  have hlow : 0xDC00 + (combine c d - 0x10000) % 0x400 = d.toNat := by
    unfold combine
    omega
  rw [unitsOf, if_neg (by unfold combine; omega), hhigh, hlow, UInt16.ofNat_toNat,
    UInt16.ofNat_toNat]

lemma character_pair {c d : UInt16} (hc : isLead c = true) (hd : isTrail d = true) (r : Str) :
    character ((utf8Pair c d).flatMap escaped ++ r) = some ([c, d], r) := by
  have hp : 0x10000 ≤ combine c d ∧ combine c d < 0x110000 := by
    unfold combine
    omega
  have hu := unitsOf_combine hc hd
  simp only [utf8Pair, List.flatMap_cons, List.flatMap_nil, List.append_nil, List.append_assoc]
  generalize combine c d = p at hp hu ⊢
  have hv : (((0xF0 + p / 0x40000) % 8 * 64 + p / 0x1000 % 0x40) * 64 + p / 0x40 % 0x40) * 64 +
      p % 0x40 = p := by omega
  rw [character_escaped (by omega), if_neg (by omega), if_neg (by omega), if_neg (by omega),
    if_neg (by omega), if_pos (by omega), longCharacter, moreOctets_escaped (by omega),
    moreOctets_escaped (by omega), moreOctets_escaped (by omega), hv]
  simp only [moreOctets]
  rw [if_pos (by omega), hu]

/-! ### How a string is written -/

/-- A string and its text, character by character. A colon is written `%3A`, and no other
character has this escape in its text. -/
inductive Written : Str → Str → Prop
  | nil : Written [] []
  | unit {c : UInt16} {s e : Str} (hc : isUnescaped c = true) (h : Written s e) :
      Written (c :: s) (c :: e)
  | escape {u s e : Str} {bytes : Bytes} (hne : bytes ≠ [])
      (hread : ∀ r, character (bytes.flatMap escaped ++ r) = some (u, r))
      (hcolon : 58 ∈ bytes → bytes = [58] ∧ u = [58]) (h : Written s e) :
      Written (u ++ s) (bytes.flatMap escaped ++ e)

lemma utf8Unit_ne_nil (c : UInt16) : utf8Unit c ≠ [] := by
  unfold utf8Unit
  split_ifs <;> exact List.cons_ne_nil _ _

/-- The bytes of a character that is not in ASCII are not in ASCII. -/
lemma ofNat_ne_colon {b : UInt8} {n : ℕ} (h : b = UInt8.ofNat n) (hlow : 0x80 ≤ n)
    (hhigh : n < 0x100) :
    b ≠ 58 := by
  rintro rfl
  have hn := congrArg UInt8.toNat h
  rw [UInt8.toNat_ofNat'] at hn
  simp only [UInt8.reduceToNat] at hn
  omega

lemma utf8Unit_colon {c : UInt16} (h : 58 ∈ utf8Unit c) : utf8Unit c = [58] ∧ [c] = [58] := by
  have hc := c.toNat_lt
  unfold utf8Unit at h ⊢
  simp only [UInt16.le_iff_toNat_le, UInt16.reduceToNat] at h ⊢
  split_ifs at h ⊢ with h1 h2 <;> simp only [List.mem_cons, List.not_mem_nil, or_false] at h
  · have hn := congrArg UInt8.toNat h
    rw [UInt16.toNat_toUInt8] at hn
    simp only [UInt8.reduceToNat] at hn
    have hcolon : c = 58 := UInt16.toNat_inj.mp (show c.toNat = 58 by omega)
    rw [hcolon]
    exact ⟨rfl, rfl⟩
  · obtain h | h := h
    · exact absurd rfl (ofNat_ne_colon h (by omega) (by omega))
    · exact absurd rfl (ofNat_ne_colon h (by omega) (by omega))
  · obtain h | h | h := h
    · exact absurd rfl (ofNat_ne_colon h (by omega) (by omega))
    · exact absurd rfl (ofNat_ne_colon h (by omega) (by omega))
    · exact absurd rfl (ofNat_ne_colon h (by omega) (by omega))

lemma utf8Pair_colon (c d : UInt16) : 58 ∉ utf8Pair c d := by
  intro h
  have hp : combine c d < 0x110000 := by
    unfold combine
    omega
  simp only [utf8Pair, List.mem_cons, List.not_mem_nil, or_false] at h
  generalize combine c d = p at hp h
  obtain h | h | h | h := h
  all_goals exact absurd rfl (ofNat_ne_colon h (by omega) (by omega))

lemma Written.escape_unit {c : UInt16} {s e : Str} (hlead : isLead c = false)
    (htrail : isTrail c = false) (h : Written s e) :
    Written (c :: s) ((utf8Unit c).flatMap escaped ++ e) :=
  .escape (u := [c]) (utf8Unit_ne_nil c) (character_unit hlead htrail) utf8Unit_colon h

lemma Written.of_encode {s e : Str} (h : encodeURIComponent s = some e) : Written s e := by
  induction s using encodeURIComponent.induct generalizing e with
  | case1 =>
    obtain rfl := Option.some.inj h
    exact .nil
  | case2 c hc =>
    rw [encodeURIComponent, if_pos hc] at h
    obtain rfl := Option.some.inj h
    exact .unit hc .nil
  | case3 c hc hs =>
    rw [encodeURIComponent, if_neg hc, if_pos hs] at h
    cases h
  | case4 c hc hs =>
    rw [encodeURIComponent, if_neg hc, if_neg hs] at h
    simp only [not_or, Bool.not_eq_true] at hs
    obtain rfl := Option.some.inj h
    simpa using Written.escape_unit hs.1 hs.2 .nil
  | case5 c d s hc ih =>
    rw [encodeURIComponent, if_pos hc] at h
    obtain ⟨e, he, rfl⟩ := Option.map_eq_some_iff.mp h
    exact .unit hc (ih he)
  | case6 c d s hc ht =>
    rw [encodeURIComponent, if_neg hc, if_pos ht] at h
    cases h
  | case7 c d s hc ht hl hd ih =>
    rw [encodeURIComponent, if_neg hc, if_neg ht, if_pos hl, if_pos hd] at h
    obtain ⟨e, he, rfl⟩ := Option.map_eq_some_iff.mp h
    exact .escape (u := [c, d]) (List.cons_ne_nil _ _) (character_pair hl hd)
      (fun hm => absurd hm (utf8Pair_colon c d)) (ih he)
  | case8 c d s hc ht hl hd =>
    rw [encodeURIComponent, if_neg hc, if_neg ht, if_pos hl, if_neg hd] at h
    cases h
  | case9 c d s hc ht hl ih =>
    rw [encodeURIComponent, if_neg hc, if_neg ht, if_neg hl] at h
    obtain ⟨e, he, rfl⟩ := Option.map_eq_some_iff.mp h
    exact .escape_unit (Bool.eq_false_iff.mpr hl) (Bool.eq_false_iff.mpr ht) (ih he)

/-- No surrogate without its other half. -/
def paired : Str → Bool
  | [] => true
  | [c] => !isLead c && !isTrail c
  | c :: d :: s =>
    if isTrail c then false
    else if isLead c then isTrail d && paired s
    else paired (d :: s)

lemma isUnescaped_unit {c : UInt16} (h : isUnescaped c = true) :
    isLead c = false ∧ isTrail c = false := by
  have hlow : c.toNat < 128 := by
    simp only [isUnescaped, UInt16.le_iff_toNat_le, UInt16.reduceToNat, decide_eq_true_eq] at h
    obtain h | h | h | h := h
    · omega
    · omega
    · omega
    · exact (by decide : ∀ d ∈ js "-_.!~*'()", d.toNat < 128) c h
  simp only [isLead, isTrail, UInt16.le_iff_toNat_le, UInt16.reduceToNat, decide_eq_false_iff_not]
  omega

lemma encode_of_paired {s : Str} (h : paired s = true) : ∃ e, encodeURIComponent s = some e := by
  induction s using encodeURIComponent.induct with
  | case1 => exact ⟨_, rfl⟩
  | case2 c hc =>
    rw [encodeURIComponent, if_pos hc]
    exact ⟨_, rfl⟩
  | case3 c hc hs =>
    simp only [paired, Bool.and_eq_true, Bool.not_eq_true'] at h
    simp [h.1, h.2] at hs
  | case4 c hc hs =>
    rw [encodeURIComponent, if_neg hc, if_neg hs]
    exact ⟨_, rfl⟩
  | case5 c d s hc ih =>
    have hunit := isUnescaped_unit hc
    simp only [paired, hunit.1, hunit.2, Bool.false_eq_true, if_false] at h
    obtain ⟨e, he⟩ := ih h
    rw [encodeURIComponent, if_pos hc, he]
    exact ⟨_, rfl⟩
  | case6 c d s hc ht =>
    simp [paired, ht] at h
  | case7 c d s hc ht hl hd ih =>
    simp only [paired, ht, hl, hd, Bool.false_eq_true, if_false, if_true, Bool.true_and] at h
    obtain ⟨e, he⟩ := ih h
    rw [encodeURIComponent, if_neg hc, if_neg ht, if_pos hl, if_pos hd, he]
    exact ⟨_, rfl⟩
  | case8 c d s hc ht hl hd =>
    simp [paired, ht, hl, hd] at h
  | case9 c d s hc ht hl ih =>
    simp only [paired, ht, hl, Bool.false_eq_true, if_false] at h
    obtain ⟨e, he⟩ := ih h
    rw [encodeURIComponent, if_neg hc, if_neg ht, if_neg hl, he]
    exact ⟨_, rfl⟩

lemma Written.of_paired {s : Str} (h : paired s = true) :
    ∃ e, encodeURIComponent s = some e ∧ Written s e := by
  obtain ⟨e, he⟩ := encode_of_paired h
  exact ⟨e, he, .of_encode he⟩

/-! ### The text of a string -/

lemma isUnescaped_hexDigit : ∀ n < 16, isUnescaped (hexDigit n) = true := by decide

/-- The units of an encoded string. -/
def isEncoded (c : UInt16) : Bool := isUnescaped c || c = 37

lemma isEncoded_escaped (b : UInt8) : ∀ c ∈ escaped b, isEncoded c = true := by
  have hb := b.toNat_lt
  intro c hc
  simp only [escaped, List.mem_cons, List.not_mem_nil, or_false] at hc
  obtain rfl | rfl | rfl := hc
  · rfl
  · rw [isEncoded, isUnescaped_hexDigit _ (by omega), Bool.true_or]
  · rw [isEncoded, isUnescaped_hexDigit _ (by omega), Bool.true_or]

lemma Written.isEncoded {s e : Str} (h : Written s e) : ∀ c ∈ e, isEncoded c = true := by
  induction h with
  | nil => exact nofun
  | unit hc _ ih =>
    intro c hm
    obtain rfl | hm := List.mem_cons.mp hm
    · rw [Uri.isEncoded, hc, Bool.true_or]
    · exact ih c hm
  | escape _ _ _ _ ih =>
    intro c hm
    obtain hm | hm := List.mem_append.mp hm
    · obtain ⟨b, -, hb⟩ := List.mem_flatMap.mp hm
      exact isEncoded_escaped b c hb
    · exact ih c hm

lemma decodeLoop_escape {u r : Str} {bytes : Bytes} (hne : bytes ≠ [])
    (hread : character (bytes.flatMap escaped ++ r) = some (u, r)) (n : ℕ) :
    decodeLoop (n + 1) (bytes.flatMap escaped ++ r) = (decodeLoop n r).map (u ++ ·) := by
  cases bytes with
  | nil => exact absurd rfl hne
  | cons b bytes =>
    simp only [List.flatMap_cons, escaped, List.cons_append, List.nil_append] at hread ⊢
    rw [decodeLoop, if_pos rfl, hread]

lemma decodeLoop_unit {c : UInt16} (hc : c ≠ 37) (n : ℕ) (r : Str) :
    decodeLoop (n + 1) (c :: r) = (decodeLoop n r).map (c :: ·) := by
  rw [decodeLoop, if_neg hc]

lemma isUnescaped_ne {c : UInt16} (h : isUnescaped c = true) : c ≠ 37 := by
  rintro rfl
  cases h

lemma length_escapes {bytes : Bytes} (hne : bytes ≠ []) (e : Str) :
    e.length < (bytes.flatMap escaped ++ e).length := by
  cases bytes with
  | nil => exact absurd rfl hne
  | cons b bytes =>
    simp only [List.flatMap_cons, escaped, List.cons_append, List.length_cons, List.length_append]
    omega

lemma decodeLoop_written {s e : Str} (h : Written s e) {n : ℕ} (hn : e.length ≤ n) :
    decodeLoop n e = some s := by
  induction h generalizing n with
  | nil => cases n <;> rfl
  | @unit c s e hc _ ih =>
    obtain ⟨n, rfl⟩ := Nat.exists_eq_succ_of_ne_zero (Nat.ne_zero_of_lt hn)
    rw [decodeLoop_unit (isUnescaped_ne hc), ih (Nat.le_of_succ_le_succ hn)]
    rfl
  | @escape u s e bytes hne hread _ _ ih =>
    have hlen := length_escapes hne e
    obtain ⟨n, rfl⟩ := Nat.exists_eq_succ_of_ne_zero (Nat.ne_zero_of_lt (hlen.trans_le hn))
    rw [decodeLoop_escape hne (hread e), ih (by omega)]
    rfl

/-- What is encoded is decoded to what it was. -/
theorem decode_of_written {s e : Str} (h : Written s e) : decodeURIComponent e = some s :=
  decodeLoop_written h le_rfl

/-- What has no escape is left as it is. -/
lemma decode_append {front : Str} (h : ∀ c ∈ front, c ≠ 37) (s : Str) :
    decodeURIComponent (front ++ s) = (decodeURIComponent s).map (front ++ ·) := by
  induction front with
  | nil => exact Option.map_id'.symm
  | cons c front ih =>
    obtain ⟨hc, hfront⟩ := List.forall_mem_cons.mp h
    rw [List.cons_append, decodeURIComponent, List.length_cons, decodeLoop_unit hc,
      ← decodeURIComponent, ih hfront, Option.map_map]
    rfl

/-! ### No text is decoded to nothing -/

lemma unitsOf_ne_nil (v : ℕ) : unitsOf v ≠ [] := by
  unfold unitsOf
  split_ifs <;> exact List.cons_ne_nil _ _

lemma longCharacter_ne_nil {n v least : ℕ} {s u r : Str}
    (h : longCharacter n v least s = some (u, r)) : u ≠ [] := by
  unfold longCharacter at h
  split at h
  · split_ifs at h
    obtain ⟨rfl, -⟩ := Prod.mk.inj (Option.some.inj h)
    exact unitsOf_ne_nil _
  · cases h

lemma character_ne_nil {s u r : Str} (h : character s = some (u, r)) : u ≠ [] := by
  unfold character at h
  split at h
  · cases h
  · split_ifs at h
    · obtain ⟨rfl, -⟩ := Prod.mk.inj (Option.some.inj h)
      exact unitsOf_ne_nil _
    all_goals exact longCharacter_ne_nil h

lemma decode_ne_nil {s : Str} (hs : s ≠ []) : decodeURIComponent s ≠ some [] := by
  cases s with
  | nil => exact absurd rfl hs
  | cons c s =>
    intro h
    rw [decodeURIComponent, List.length_cons, decodeLoop] at h
    split_ifs at h
    · split at h
      next u r hu =>
        obtain ⟨t, -, ht⟩ := Option.map_eq_some_iff.mp h
        exact character_ne_nil hu (List.append_eq_nil_iff.mp ht).1
      next => cases h
    · obtain ⟨t, -, ht⟩ := Option.map_eq_some_iff.mp h
      exact List.cons_ne_nil _ _ ht

end NodeCore.Uri
