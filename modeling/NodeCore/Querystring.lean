import NodeCore.Separator
import NodeCore.UriComponent

/-!
`querystring`: an object written as a text of keys and values, and such a text read.

A thrown `URIError` is `none`. Where `decodeURIComponent` throws, `parse` has its own decoder,
which takes any text.
-/

namespace NodeCore.QueryString

open Encoding Uri Separator

/-! ### Objects -/

/-- A value that is no array. A number is the text that the language has for it, `thing` a function
or an object and `nothing` either of `undefined` and `null`. -/
inductive Primitive
  | str (s : Str)
  | bool (b : Bool)
  | number (text : Str)
  | nothing
  | thing
  deriving DecidableEq

inductive Value
  | one (v : Primitive)
  | array (vs : List Primitive)
  deriving DecidableEq

/-- The own properties of an object, with each key once. -/
structure Obj where
  entries : List (Str × Value)
  nodup : (entries.map Prod.fst).Nodup

/-- `{}` -/
def Obj.empty : Obj := ⟨[], List.nodup_nil⟩

def Obj.get (obj : Obj) (k : Str) : Option Value := obj.entries.lookup k

def hasOwnProperty (obj : Obj) (prop : Str) : Bool := (obj.get prop).isSome

/-- The entries with another value for `k`. -/
def replaceValue (k : Str) (v : Value) (entries : List (Str × Value)) : List (Str × Value) :=
  entries.map fun e => if e.1 = k then (e.1, v) else e

lemma keys_replaceValue (k : Str) (v : Value) (entries : List (Str × Value)) :
    (replaceValue k v entries).map Prod.fst = entries.map Prod.fst := by
  rw [replaceValue, List.map_map]
  refine List.map_congr_left fun e _ => ?_
  rw [Function.comp_apply]
  split_ifs <;> rfl

/-- `obj[k] = v`. What is assigned to `__proto__` becomes no property of the object. -/
def Obj.put (obj : Obj) (k : Str) (v : Value) : Obj :=
  if k = js "__proto__" then obj
  else if h : obj.entries.any fun e => e.1 = k then
    ⟨replaceValue k v obj.entries, keys_replaceValue k v obj.entries ▸ obj.nodup⟩
  else
    ⟨obj.entries ++ [(k, v)], by
      rw [List.map_append, List.nodup_append]
      refine ⟨obj.nodup, List.nodup_singleton _, fun a ha b hb hab => h ?_⟩
      obtain ⟨e, he, rfl⟩ := List.mem_map.mp ha
      exact List.any_eq_true.mpr ⟨e, he, decide_eq_true (hab.trans (List.mem_singleton.mp hb))⟩⟩

/-! ### Writing -/

/-- `sep || '&'`, and `eq || '='`. -/
def orElse (s : Option Str) (default : Str) : Str :=
  match s with
  | none | some [] => default
  | some s => s

def escape (str : Str) : Option Str := encodeURIComponent str

def stringifyPrimitive : Primitive → Str
  | .str v => v
  | .bool v => if v then js "true" else js "false"
  | .number v => if v = js "NaN" ∨ v = js "Infinity" ∨ v = js "-Infinity" then [] else v
  | .nothing | .thing => []

/-- `!name` -/
def Primitive.falsy : Primitive → Bool
  | .str s => s = []
  | .bool b => !b
  | .number text => text = js "0" ∨ text = js "NaN"
  | .nothing => true
  | .thing => false

/-- `ks + QueryString.escape(stringifyPrimitive(v))` -/
def stringifyMember (ks : Str) (v : Primitive) : Option Str := do
  return ks ++ (← escape (stringifyPrimitive v))

/-- What `stringify` makes of one property. -/
def stringifyProperty (sep eq : Str) : Str × Value → Option Str
  | (k, v) => do
    let ks := (← escape (stringifyPrimitive (.str k))) ++ eq
    match v with
    | .array vs => return List.intercalate sep (← vs.mapM (stringifyMember ks))
    | .one v => stringifyMember ks v

/-- The first argument of `stringify`. -/
inductive Arg
  | object (obj : Obj)
  | primitive (v : Primitive)

def stringify (obj : Arg) (sep eq : Option Str) (name : Primitive) : Option Str := do
  let sep := orElse sep (js "&")
  let eq := orElse eq (js "=")
  match obj with
  | .object obj => return List.intercalate sep (← obj.entries.mapM (stringifyProperty sep eq))
  | .primitive obj =>
    if name.falsy then return []
    return (← escape (stringifyPrimitive name)) ++ eq ++ (← escape (stringifyPrimitive obj))

/-! ### Reading -/

/-- `state` of `unescapeBuffer`, with the digit that has been read. -/
inductive State
  | char
  | hex0
  | hex1 (n : ℕ) (hexchar : Option UInt16)

/-- The byte that is stored for a number; `none` is `NaN`. -/
def toByte (c : Option UInt16) : UInt8 := (c.getD 0).toUInt8

/-- A round of the loop, and what it appends to `out`. -/
def unescapeStep (decodeSpaces : Bool) (c : Option UInt16) : State → State × Bytes
  | .char =>
    if c = some 37 then (.hex0, [])
    else if c = some 43 ∧ decodeSpaces then (.char, [32])
    else (.char, [toByte c])
  | .hex0 =>
    match c.bind hexVal with
    | some n => (.hex1 n c, [])
    | none => (.char, [37, toByte c])
  | .hex1 n hexchar =>
    match c.bind hexVal with
    | some m => (.char, [UInt8.ofNat (16 * n + m)])
    | none => (.char, [37, toByte hexchar, toByte c])

def unescapeLoop (decodeSpaces : Bool) : State → List (Option UInt16) → Bytes
  | _, [] => []
  | state, c :: s =>
    let (state, out) := unescapeStep decodeSpaces c state
    out ++ unescapeLoop decodeSpaces state s

/-- The loop reads behind the end too, where the code is `NaN`. What that makes is cut off. -/
def unescapeBuffer (s : Str) (decodeSpaces : Bool) : Bytes :=
  (unescapeLoop decodeSpaces .char (s.map some ++ [none])).dropLast

def unescape (s : Str) (decodeSpaces : Bool) : Str := utf8Slice (unescapeBuffer s decodeSpaces)

/-- `replace(/\+/g, '%20')` -/
def replacePlus (s : Str) : Str := s.flatMap fun c => if c = 43 then js "%20" else [c]

/-- `kstr` and `vstr`. -/
def cutPair (eq x : Str) : Str × Str :=
  match indexOf eq x with
  | some idx => (x.take idx, x.drop (idx + 1))
  | none => (x, [])

/-- `k` and `v`. -/
def decodePair (kstr vstr : Str) : Str × Str :=
  match decodeURIComponent kstr, decodeURIComponent vstr with
  | some k, some v => (k, v)
  | _, _ => (unescape kstr true, unescape vstr true)

/-- A value for `k`, which becomes an array when there is one already. -/
def addPair (obj : Obj) (k v : Str) : Obj :=
  match obj.get k with
  | none => obj.put k (.one (.str v))
  | some (.array vs) => obj.put k (.array (vs ++ [.str v]))
  | some (.one w) => obj.put k (.array [w, .str v])

def parseRound (eq : Str) (obj : Obj) (part : Str) : Obj :=
  let (kstr, vstr) := cutPair eq (replacePlus part)
  let (k, v) := decodePair kstr vstr
  addPair obj k v

/-- `len`, of so many parts. `NaN` limits it no more than a number that is not positive. -/
def limit (maxKeys : Option ℚ) (len : ℕ) : ℕ :=
  let maxKeys := maxKeys.getD 1000
  if 0 < maxKeys ∧ maxKeys < len then ⌈maxKeys⌉₊ else len

/-- `parse`; `none` is a `qs` that is not a string, and options without a number. -/
def parse (qs sep eq : Option Str) (maxKeys : Option ℚ) : Obj :=
  let sep := orElse sep (js "&")
  let eq := orElse eq (js "=")
  match qs with
  | none | some [] => .empty
  | some qs =>
    let qs := split sep qs
    (qs.take (limit maxKeys qs.length)).foldl (parseRound eq) .empty

example : (parse (some (js "a=1&b=%&a=x+y%3D")) none none none).entries =
    [(js "a", .array [.str (js "1"), .str (js "x y=")]), (js "b", .one (.str (js "%")))] := by
  decide


/-! ### What an object holds -/

lemma lookup_replaceValue {k : Str} {v : Value} {entries : List (Str × Value)}
    (hk : k ∈ entries.map Prod.fst) (k' : Str) :
    (replaceValue k v entries).lookup k' = if k' = k then some v else entries.lookup k' := by
  induction entries with
  | nil => cases hk
  | cons e entries ih =>
    obtain ⟨a, w⟩ := e
    have hcons : replaceValue k v ((a, w) :: entries) =
        (a, if a = k then v else w) :: replaceValue k v entries := by
      rw [replaceValue, List.map_cons]
      split_ifs <;> rfl
    rw [hcons, List.lookup_cons, List.lookup_cons]
    by_cases ha : k' = a
    · subst ha
      simp only [beq_self_eq_true]
      split_ifs <;> rfl
    · rw [beq_false_of_ne ha]
      by_cases hmem : k ∈ entries.map Prod.fst
      · exact ih hmem
      · obtain rfl : k = a := (List.mem_cons.mp hk).resolve_right hmem
        have hsame : replaceValue k v entries = entries := by
          refine (List.map_congr_left fun e he => ?_).trans (List.map_id entries)
          rw [if_neg fun h => hmem (List.mem_map.mpr ⟨e, he, h⟩), id]
        rw [hsame, if_neg ha]

lemma lookup_eq_none {k : Str} {entries : List (Str × Value)} (h : k ∉ entries.map Prod.fst) :
    entries.lookup k = none := by
  rw [List.lookup_eq_none_iff]
  intro e he
  exact bne_iff_ne.mpr fun hk => h (List.mem_map.mpr ⟨e, he, hk.symm⟩)

lemma any_key {k : Str} {entries : List (Str × Value)} :
    (entries.any fun e => e.1 = k) = true ↔ k ∈ entries.map Prod.fst := by
  simp [List.any_eq_true, List.mem_map]

theorem get_put {k : Str} (hk : k ≠ js "__proto__") (obj : Obj) (v : Value) (k' : Str) :
    (obj.put k v).get k' = if k' = k then some v else obj.get k' := by
  rw [Obj.put, if_neg hk]
  split_ifs with hany hkk hkk
  · rw [Obj.get, lookup_replaceValue (any_key.mp hany), if_pos hkk]
  · rw [Obj.get, lookup_replaceValue (any_key.mp hany), if_neg hkk, Obj.get]
  · subst hkk
    rw [Obj.get, List.lookup_append, lookup_eq_none (mt any_key.mpr hany)]
    simp
  · rw [Obj.get, List.lookup_append, Obj.get]
    simp [List.lookup_cons, beq_false_of_ne hkk]

/-- The value that there is after one more for its key. -/
def grown (old : Option Value) (v : Str) : Value :=
  match old with
  | none => .one (.str v)
  | some (.array vs) => .array (vs ++ [.str v])
  | some (.one w) => .array [w, .str v]

lemma addPair_eq (obj : Obj) (k v : Str) : addPair obj k v = obj.put k (grown (obj.get k) v) := by
  unfold addPair grown
  split <;> rfl

lemma get_addPair {k : Str} (hk : k ≠ js "__proto__") (obj : Obj) (v k' : Str) :
    (addPair obj k v).get k' = if k' = k then some (grown (obj.get k) v) else obj.get k' := by
  rw [addPair_eq, get_put hk]

/-! ### Pairs -/

/-- A string without lone surrogates. -/
def Primitive.isText : Primitive → Bool
  | .str s => paired s
  | _ => false

/-- Such a string, or at least two of them. -/
def Value.plain : Value → Bool
  | .one v => v.isText
  | .array vs => 2 ≤ vs.length && vs.all Primitive.isText

/-- The keys and the values can all come back. -/
def Obj.Plain (obj : Obj) : Prop :=
  ∀ e ∈ obj.entries, e.1 ≠ js "__proto__" ∧ paired e.1 = true ∧ e.2.plain = true

def Value.members : Value → List Primitive
  | .one v => [v]
  | .array vs => vs

/-- One property as pairs of texts. -/
def pairsOf (e : Str × Value) : List (Str × Str) :=
  e.2.members.map fun v => (e.1, stringifyPrimitive v)

def Obj.pairs (obj : Obj) : List (Str × Str) := obj.entries.flatMap pairsOf

lemma paired_of_isText {v : Primitive} (h : v.isText = true) :
    paired (stringifyPrimitive v) = true := by
  cases v with
  | str => exact h
  | bool | number | nothing | thing => cases h

lemma members_isText {v : Value} (h : v.plain = true) : ∀ w ∈ v.members, w.isText = true := by
  cases v with
  | one v =>
    intro w hw
    rwa [List.mem_singleton.mp hw]
  | array vs => exact List.all_eq_true.mp (Bool.and_eq_true_iff.mp h).2

lemma members_ne_nil {v : Value} (h : v.plain = true) : v.members ≠ [] := by
  cases v with
  | one v => exact List.cons_ne_nil _ _
  | array vs =>
    rintro rfl
    cases h

/-! ### The text of a pair -/

/-- Two strings that can stand between what is encoded: neither has a unit of an encoded text, and
nothing that is split starts in the other. -/
structure Separates (sep eq : Str) : Prop where
  sep_ne : sep ≠ []
  eq_ne : eq ≠ []
  sep_escaped : ∀ c ∈ sep, isEncoded c = false
  eq_escaped : ∀ c ∈ eq, isEncoded c = false
  no_plus : 43 ∉ eq
  clear : Clear sep eq

/-- `&` and `=` do. -/
lemma separates_default : Separates (js "&") (js "=") where
  sep_ne := List.cons_ne_nil _ _
  eq_ne := List.cons_ne_nil _ _
  sep_escaped := by decide
  eq_escaped := by decide
  no_plus := by decide
  clear := clear_of_not_mem (by decide) []

/-- `t` is what is written for a pair. -/
def PairText (eq : Str) (p : Str × Str) (t : Str) : Prop :=
  ∃ k v, Written p.1 k ∧ Written p.2 v ∧ t = k ++ eq ++ v

lemma not_mem_of_written {s e : Str} (h : Written s e) {c : UInt16} (hc : isEncoded c = false) :
    c ∉ e := by
  intro hm
  rw [h.isEncoded c hm] at hc
  cases hc

/-- No separator starts in an encoded text. -/
lemma clear_of_written {s e sep : Str} (h : Written s e) (hne : sep ≠ [])
    (hsep : ∀ c ∈ sep, isEncoded c = false) : Clear sep e := by
  cases sep with
  | nil => exact absurd rfl hne
  | cons x sep => exact clear_of_not_mem (not_mem_of_written h (hsep x List.mem_cons_self)) sep

lemma PairText.clear {sep eq : Str} (hsep : Separates sep eq) {p : Str × Str} {t : Str}
    (h : PairText eq p t) : Clear sep t := by
  obtain ⟨k, v, hk, hv, rfl⟩ := h
  have hkey := clear_of_written hk hsep.sep_ne hsep.sep_escaped
  have hvalue := clear_of_written hv hsep.sep_ne hsep.sep_escaped
  exact (hkey.append hsep.clear).append hvalue

lemma PairText.no_plus {sep eq : Str} (hsep : Separates sep eq) {p : Str × Str} {t : Str}
    (h : PairText eq p t) : 43 ∉ t := by
  obtain ⟨k, v, hk, hv, rfl⟩ := h
  intro hm
  obtain hm | hm := List.mem_append.mp hm
  · obtain hm | hm := List.mem_append.mp hm
    · exact not_mem_of_written hk rfl hm
    · exact hsep.no_plus hm
  · exact not_mem_of_written hv rfl hm

lemma PairText.ne_nil {eq : Str} (heq : eq ≠ []) {p : Str × Str} {t : Str}
    (h : PairText eq p t) : t ≠ [] := by
  obtain ⟨k, v, -, -, rfl⟩ := h
  exact List.append_ne_nil_of_left_ne_nil (List.append_ne_nil_of_right_ne_nil k heq) v

lemma replacePlus_eq {s : Str} (h : 43 ∉ s) : replacePlus s = s := by
  rw [replacePlus]
  conv_rhs => rw [← List.flatMap_singleton' s]
  refine List.flatMap_congr fun c hc => if_neg ?_
  rintro rfl
  exact h hc

lemma pairText_of_mem {eq : Str} {ps : List (Str × Str)} {ts : List Str}
    (h : List.Forall₂ (PairText eq) ps ts) : ∀ t ∈ ts, ∃ p, PairText eq p t := by
  induction h with
  | nil => exact fun _ ht => absurd ht List.not_mem_nil
  | cons hp _ ih => exact List.forall_mem_cons.mpr ⟨⟨_, hp⟩, ih⟩

/-- The cut leaves all but the first unit of `eq` at the value. -/
lemma cutPair_eq {eq k : Str} (heq : eq ≠ []) (hk : Clear eq k) (v : Str) :
    cutPair eq (k ++ eq ++ v) = (k, eq.tail ++ v) := by
  have hindex : indexOf eq (k ++ eq ++ v) = some k.length := by
    rw [List.append_assoc, hk.indexOf_append, indexOf_self]
    rfl
  rw [cutPair, hindex, List.append_assoc]
  simp only [List.take_left]
  rw [← List.drop_drop, List.drop_left, List.drop_one, List.tail_append_of_ne_nil heq]

/-- What is written for a pair is read as that pair, with the rest of `eq` in front of the value. -/
theorem parseRound_pairText {sep eq : Str} (hsep : Separates sep eq) {p : Str × Str} {t : Str}
    (h : PairText eq p t) (obj : Obj) :
    parseRound eq obj t = addPair obj p.1 (eq.tail ++ p.2) := by
  have hplus : replacePlus t = t := replacePlus_eq (h.no_plus hsep)
  obtain ⟨k, v, hk, hv, rfl⟩ := h
  have hcut := cutPair_eq hsep.eq_ne (clear_of_written hk hsep.eq_ne hsep.eq_escaped) v
  have hrest : ∀ c ∈ eq.tail, c ≠ 37 := by
    rintro c hc rfl
    cases hsep.eq_escaped 37 (List.mem_of_mem_tail hc)
  have hdecode : decodePair k (eq.tail ++ v) = (p.1, eq.tail ++ p.2) := by
    rw [decodePair, decode_of_written hk, decode_append hrest, decode_of_written hv]
    rfl
  simp only [parseRound, hplus, hcut, hdecode]

/-- The pairs one after the other, with `front` in front of each value. -/
def addPairs (front : Str) (obj : Obj) (ps : List (Str × Str)) : Obj :=
  ps.foldl (fun obj p => addPair obj p.1 (front ++ p.2)) obj

lemma foldl_parseRound {sep eq : Str} (hsep : Separates sep eq) {ps : List (Str × Str)}
    {ts : List Str} (h : List.Forall₂ (PairText eq) ps ts) (obj : Obj) :
    ts.foldl (parseRound eq) obj = addPairs eq.tail obj ps := by
  induction h generalizing obj with
  | nil => rfl
  | cons hp _ ih => rw [List.foldl_cons, parseRound_pairText hsep hp, ih, addPairs, addPairs,
      List.foldl_cons]

/-! ### The text of an object -/

/-- A function that may fail does not, and its results are what is said of them. -/
lemma mapM_some {α β : Type} {f : α → Option β} {R : α → β → Prop} {l : List α}
    (h : ∀ a ∈ l, ∃ b, f a = some b ∧ R a b) :
    ∃ bs, l.mapM f = some bs ∧ List.Forall₂ R l bs := by
  induction l with
  | nil => exact ⟨[], rfl, .nil⟩
  | cons a l ih =>
    obtain ⟨b, hb, hab⟩ := h a List.mem_cons_self
    obtain ⟨bs, hbs, hall⟩ := ih fun a ha => h a (List.mem_cons_of_mem _ ha)
    exact ⟨b :: bs, by rw [List.mapM_cons, hb, hbs]; rfl, .cons hab hall⟩

lemma escape_pair {k ks : Str} (hks : Written k ks) (eq : Str) {v : Primitive}
    (hv : v.isText = true) :
    ∃ t, stringifyMember (ks ++ eq) v = some t ∧ PairText eq (k, stringifyPrimitive v) t := by
  obtain ⟨e, he, hwritten⟩ := Written.of_paired (paired_of_isText hv)
  exact ⟨ks ++ eq ++ e, by rw [stringifyMember, escape, he]; rfl, ks, e, hks, hwritten, rfl⟩

/-- The texts of the pairs of one property. -/
lemma stringifyProperty_eq (sep eq : Str) {e : Str × Value} (hk : paired e.1 = true)
    (hv : e.2.plain = true) :
    ∃ ts, stringifyProperty sep eq e = some (List.intercalate sep ts) ∧
      ts ≠ [] ∧ List.Forall₂ (PairText eq) (pairsOf e) ts := by
  obtain ⟨k, v⟩ := e
  obtain ⟨ks, hks, hwritten⟩ := Written.of_paired hk
  have hmembers := members_isText hv
  have hne := members_ne_nil hv
  cases v with
  | one v =>
    obtain ⟨t, ht, hpair⟩ := escape_pair hwritten eq (hmembers v List.mem_cons_self)
    refine ⟨[t], ?_, List.cons_ne_nil _ _, .cons hpair .nil⟩
    rw [List.intercalate_singleton, ← ht]
    simp only [stringifyProperty, stringifyPrimitive, escape, hks]
    rfl
  | array vs =>
    obtain ⟨ts, hts, hall⟩ := mapM_some (R := fun v t => PairText eq (k, stringifyPrimitive v) t)
      fun v hv => escape_pair hwritten eq (hmembers v hv)
    refine ⟨ts, ?_, ?_, List.forall₂_map_left_iff.mpr hall⟩
    · simp only [Value.members] at hts
      simp only [stringifyProperty, stringifyPrimitive, escape, hks, Option.bind_eq_bind,
        Option.bind_some, hts]
      rfl
    · rintro rfl
      exact hne (List.forall₂_nil_right_iff.mp hall)

/-- The text of an object is that of its pairs. -/
theorem stringify_eq {obj : Obj} (h : obj.Plain) (sep eq : Option Str) :
    ∃ ts, stringify (.object obj) sep eq .nothing =
        some (List.intercalate (orElse sep (js "&")) ts) ∧
      List.Forall₂ (PairText (orElse eq (js "="))) obj.pairs ts := by
  generalize hsep' : orElse sep (js "&") = sep'
  generalize heq' : orElse eq (js "=") = eq'
  let R (e : Str × Value) (text : Str) : Prop :=
    ∃ ts, text = List.intercalate sep' ts ∧ ts ≠ [] ∧ List.Forall₂ (PairText eq') (pairsOf e) ts
  have hall : ∀ e ∈ obj.entries, ∃ text, stringifyProperty sep' eq' e = some text ∧ R e text := by
    intro e he
    obtain ⟨-, hk, hv⟩ := h e he
    obtain ⟨ts, hts, hne, hpairs⟩ := stringifyProperty_eq sep' eq' hk hv
    exact ⟨_, hts, ts, rfl, hne, hpairs⟩
  obtain ⟨texts, htexts, hR⟩ := mapM_some hall
  have hgroups : ∀ {entries : List (Str × Value)} {texts : List Str},
      List.Forall₂ R entries texts →
        ∃ groups : List (List Str), texts = groups.map (List.intercalate sep') ∧
          (∀ g ∈ groups, g ≠ []) ∧
          List.Forall₂ (PairText eq') (entries.flatMap pairsOf) groups.flatten := by
    intro entries texts hR
    induction hR with
    | nil => exact ⟨[], rfl, fun _ hg => absurd hg List.not_mem_nil, .nil⟩
    | cons he _ ih =>
      obtain ⟨ts, rfl, hne, hpairs⟩ := he
      obtain ⟨groups, rfl, hgroups, hall⟩ := ih
      refine ⟨ts :: groups, rfl, List.forall_mem_cons.mpr ⟨hne, hgroups⟩, ?_⟩
      rw [List.flatMap_cons, List.flatten_cons]
      exact List.rel_append hpairs hall
  obtain ⟨groups, rfl, hne, hpairs⟩ := hgroups hR
  refine ⟨groups.flatten, ?_, hpairs⟩
  rw [← intercalate_flatten _ hne]
  simp only [stringify, hsep', heq', htexts, Option.bind_eq_bind, Option.bind_some]
  rfl

/-! ### The pairs put together again -/

/-- A string with `front` in front of it. -/
def Primitive.behind (front : Str) : Primitive → Primitive
  | .str s => .str (front ++ s)
  | v => v

/-- Each string of a value with `front` in front of it. -/
def Value.behind (front : Str) : Value → Value
  | .one v => .one (v.behind front)
  | .array vs => .array (vs.map (Primitive.behind front))

lemma behind_of_isText {v : Primitive} (h : v.isText = true) (front : Str) :
    .str (front ++ stringifyPrimitive v) = v.behind front := by
  cases v with
  | str => rfl
  | bool | number | nothing | thing => cases h

lemma Primitive.behind_nil (v : Primitive) : v.behind [] = v := by
  cases v <;> rfl

lemma Value.behind_nil (v : Value) : v.behind [] = v := by
  cases v with
  | one v => rw [Value.behind, Primitive.behind_nil]
  | array vs => rw [Value.behind, funext Primitive.behind_nil, List.map_id']

lemma get_pushed {k : Str} (hk : k ≠ js "__proto__") (front : Str) {obj : Obj}
    {ws vs : List Primitive} (hget : obj.get k = some (.array ws))
    (hvs : ∀ v ∈ vs, v.isText = true) (k' : Str) :
    (addPairs front obj (vs.map fun v => (k, stringifyPrimitive v))).get k' =
      if k' = k then some (.array (ws ++ vs.map (Primitive.behind front))) else obj.get k' := by
  induction vs generalizing obj ws with
  | nil =>
    rw [List.map_nil, List.map_nil, List.append_nil, ← hget]
    split_ifs with h
    · rw [h]; rfl
    · rfl
  | cons v vs ih =>
    have hv := behind_of_isText (hvs v List.mem_cons_self) front
    have hnext : (addPair obj k (front ++ stringifyPrimitive v)).get k =
        some (.array (ws ++ [v.behind front])) := by
      rw [get_addPair hk, if_pos rfl, hget, grown, hv]
    rw [List.map_cons, addPairs, List.foldl_cons, ← addPairs,
      ih hnext fun v hv => hvs v (List.mem_cons_of_mem _ hv), get_addPair hk, List.append_assoc]
    split_ifs <;> rfl

/-- The pairs of one property give it again. -/
lemma get_pairsOf {k : Str} (hk : k ≠ js "__proto__") (front : Str) {v : Value}
    (hv : v.plain = true) {obj : Obj} (hget : obj.get k = none) (k' : Str) :
    (addPairs front obj (pairsOf (k, v))).get k' =
      if k' = k then some (v.behind front) else obj.get k' := by
  have hmembers := members_isText hv
  cases v with
  | one v =>
    have hstr := behind_of_isText (hmembers v List.mem_cons_self) front
    simp only [pairsOf, addPairs, Value.members, List.map_cons, List.map_nil, List.foldl_cons,
      List.foldl_nil]
    rw [get_addPair hk, hget, grown, hstr, Value.behind]
  | array vs =>
    match vs, hv with
    | a :: b :: vs, _ =>
      have ha := behind_of_isText (hmembers a List.mem_cons_self) front
      have hb := behind_of_isText (hmembers b (List.mem_cons_of_mem _ List.mem_cons_self)) front
      have hrest : ∀ v ∈ vs, v.isText = true := fun v hv =>
        hmembers v (List.mem_cons_of_mem _ (List.mem_cons_of_mem _ hv))
      have hone : (addPair obj k (front ++ stringifyPrimitive a)).get k =
          some (.one (a.behind front)) := by
        rw [get_addPair hk, if_pos rfl, hget, grown, ha]
      have htwo : (addPair (addPair obj k (front ++ stringifyPrimitive a)) k
          (front ++ stringifyPrimitive b)).get k =
            some (.array [a.behind front, b.behind front]) := by
        rw [get_addPair hk, if_pos rfl, hone, grown, hb]
      simp only [pairsOf, addPairs, Value.members, List.map_cons, List.foldl_cons]
      rw [← addPairs, get_pushed hk front htwo hrest]
      by_cases h : k' = k
      · rw [if_pos h, if_pos h]
        rfl
      · rw [if_neg h, if_neg h, get_addPair hk, if_neg h, get_addPair hk, if_neg h]

lemma get_pairs (front : Str) {entries : List (Str × Value)}
    (hnodup : (entries.map Prod.fst).Nodup)
    (hplain : ∀ e ∈ entries, e.1 ≠ js "__proto__" ∧ paired e.1 = true ∧ e.2.plain = true)
    {obj : Obj} (hget : ∀ e ∈ entries, obj.get e.1 = none) (k : Str) :
    (addPairs front obj (entries.flatMap pairsOf)).get k =
      ((entries.lookup k).map (Value.behind front)).or (obj.get k) := by
  induction entries generalizing obj with
  | nil => rfl
  | cons e entries ih =>
    obtain ⟨a, v⟩ := e
    obtain ⟨ha, -, hv⟩ := hplain _ List.mem_cons_self
    obtain ⟨hnew, hnodup⟩ := List.nodup_cons.mp hnodup
    have hone := get_pairsOf ha front hv (hget _ List.mem_cons_self)
    have hrest : ∀ e ∈ entries, (addPairs front obj (pairsOf (a, v))).get e.1 = none := by
      intro e he
      rw [hone, if_neg fun h => hnew (List.mem_map.mpr ⟨e, he, h⟩)]
      exact hget e (List.mem_cons_of_mem _ he)
    rw [List.flatMap_cons, addPairs, List.foldl_append, ← addPairs, ← addPairs, ih hnodup
      (fun e he => hplain e (List.mem_cons_of_mem _ he)) hrest, hone, List.lookup_cons]
    by_cases hk : k = a
    · subst hk
      rw [if_pos rfl, lookup_eq_none hnew, beq_self_eq_true]
      rfl
    · rw [if_neg hk, beq_false_of_ne hk]

/-! ### The round trip -/

lemma limit_none {len : ℕ} (h : len ≤ 1000) : limit none len = len := by
  refine if_neg fun hlt => ?_
  have hlen : (1000 : ℚ) < len := hlt.2
  exact absurd (by exact_mod_cast hlen : 1000 < len) (Nat.not_lt.mpr h)

lemma parse_texts {sep eq : Option Str}
    (hsep : Separates (orElse sep (js "&")) (orElse eq (js "="))) {ps : List (Str × Str)}
    {ts : List Str} (h : List.Forall₂ (PairText (orElse eq (js "="))) ps ts)
    (hlen : ps.length ≤ 1000) :
    parse (some (List.intercalate (orElse sep (js "&")) ts)) sep eq none =
      addPairs (orElse eq (js "=")).tail .empty ps := by
  cases h with
  | nil => rfl
  | @cons p t ps ts hp hps =>
    have hall : List.Forall₂ _ (p :: ps) (t :: ts) := .cons hp hps
    have hsplit : split (orElse sep (js "&"))
        (List.intercalate (orElse sep (js "&")) (t :: ts)) = t :: ts := by
      refine split_intercalate hsep.sep_ne (fun part hpart => ?_) (List.cons_ne_nil _ _)
      obtain ⟨p, hp⟩ := pairText_of_mem hall part hpart
      exact hp.clear hsep
    have hne : List.intercalate (orElse sep (js "&")) (t :: ts) ≠ [] :=
      intercalate_ne_nil _ (hp.ne_nil hsep.eq_ne) ts
    have hlimit : limit none (t :: ts).length = (t :: ts).length :=
      limit_none (hall.length_eq ▸ hlen)
    obtain ⟨c, s, hs⟩ := List.exists_cons_of_ne_nil hne
    rw [hs] at hsplit ⊢
    simp only [parse, hsplit, hlimit, List.take_length]
    exact foldl_parseRound hsep hall .empty

/-- What is read has the keys of what was written, and the values with all but the first unit of
`eq` in front of each string. -/
theorem parse_separated {sep eq : Option Str}
    (hsep : Separates (orElse sep (js "&")) (orElse eq (js "="))) {obj : Obj} (h : obj.Plain)
    (hpairs : obj.pairs.length ≤ 1000) :
    ∃ text, stringify (.object obj) sep eq .nothing = some text ∧
      ∀ k, (parse (some text) sep eq none).get k =
        (obj.get k).map (Value.behind (orElse eq (js "=")).tail) := by
  obtain ⟨ts, hts, hall⟩ := stringify_eq h sep eq
  refine ⟨_, hts, fun k => ?_⟩
  rw [parse_texts hsep hall hpairs, Obj.pairs, get_pairs _ obj.nodup h (fun _ _ => rfl)]
  exact Option.or_none

/-- **The round trip**: an object of at most 1000 pairs, with other keys than `__proto__` and with
strings or arrays of at least two strings as values, has each property again. -/
theorem parse_stringify (obj : Obj) (h : obj.Plain) (hpairs : obj.pairs.length ≤ 1000) :
    ∃ text, stringify (.object obj) none none .nothing = some text ∧
      ∀ k, (parse (some text) none none none).get k = obj.get k := by
  have hdefault : Separates (orElse none (js "&")) (orElse none (js "=")) := separates_default
  obtain ⟨text, htext, hget⟩ := parse_separated hdefault h hpairs
  refine ⟨text, htext, fun k => ?_⟩
  rw [hget, show (orElse none (js "=")).tail = [] from rfl, funext Value.behind_nil,
    Option.map_id']

/-- Keys of `Object.prototype` and the empty key, strings that are empty and that need escapes. -/
def someObject : Obj :=
  ⟨[(js "toString", .array [.str [], .str (js "a b"), .str []]), ([], .one (.str [])),
    (js "a=b&c", .one (.str [0xD83D, 0xDE00, 43]))], by decide⟩

theorem parse_stringify_someObject :
    ∃ text, stringify (.object someObject) none none .nothing = some text ∧
      ∀ k, (parse (some text) none none none).get k = someObject.get k :=
  parse_stringify someObject
    (fun e he => (by decide : ∀ e ∈ someObject.entries, e.1 ≠ js "__proto__" ∧
      paired e.1 = true ∧ e.2.plain = true) e he) (by decide)

end NodeCore.QueryString
