import NodeCore.Querystring

/-!
`querystring` with other separators than `&` and `=`.

`stringify` writes any of them. `parse` cuts a pair at all of `eq` but takes only one unit of it
away, so that of a longer one the rest stays in front of each value.
-/

namespace NodeCore.QueryString

open Encoding Uri Separator

/-! ### Characters and their units -/

/-- The units of characters. -/
def units (s : List Char) : Str := s.flatMap fun c => unitsOf c.toNat

/-- `encodeURIComponent` does not leave it as it is. -/
def Escapes (c : Char) : Prop := encodeURIComponent (units [c]) ≠ some (units [c])

instance (c : Char) : Decidable (Escapes c) := inferInstanceAs (Decidable (_ ≠ _))

lemma units_singleton (c : Char) : units [c] = unitsOf c.toNat := List.flatMap_singleton _ _

lemma units_cons (c : Char) (s : List Char) : units (c :: s) = unitsOf c.toNat ++ units s :=
  List.flatMap_cons

/-- A character is a unit that is no surrogate, or a lead and a trail. -/
lemma unitsOf_cases (c : Char) :
    (∃ u, unitsOf c.toNat = [u] ∧ isLead u = false ∧ isTrail u = false ∧ u.toNat = c.toNat) ∨
      ∃ u v, unitsOf c.toNat = [u, v] ∧ isLead u = true ∧ isTrail v = true ∧
        combine u v = c.toNat := by
  have hvalid : c.toNat < 0xD800 ∨ 0xDFFF < c.toNat ∧ c.toNat < 0x110000 := c.valid
  simp only [isLead, isTrail, UInt16.le_iff_toNat_le, UInt16.reduceToNat, decide_eq_false_iff_not,
    decide_eq_true_eq]
  unfold unitsOf
  split_ifs with h
  · refine .inl ⟨_, rfl, ?_⟩
    rw [UInt16.toNat_ofNat']
    omega
  · refine .inr ⟨_, _, rfl, ?_⟩
    unfold combine
    rw [UInt16.toNat_ofNat', UInt16.toNat_ofNat']
    omega

/-- No character begins with another. -/
lemma eq_of_unitsOf {c d : Char} {rest : Str} (h : unitsOf d.toNat <+: unitsOf c.toNat ++ rest) :
    d = c := by
  obtain ⟨u, hd, hlead, -, hu⟩ | ⟨u, v, hd, hlead, -, hu⟩ := unitsOf_cases d <;>
    obtain ⟨u', hc, hlead', -, hu'⟩ | ⟨u', v', hc, hlead', -, hu'⟩ := unitsOf_cases c <;>
      rw [hc, hd, List.cons_append, List.cons_prefix_cons] at h <;> obtain ⟨rfl, h⟩ := h
  · exact Char.toNat_inj.mp (hu.symm.trans hu')
  · cases hlead.symm.trans hlead'
  · cases hlead.symm.trans hlead'
  · obtain ⟨rfl, -⟩ := List.cons_prefix_cons.mp h
    exact Char.toNat_inj.mp (hu.symm.trans hu')

/-- Nor with the second half of one. -/
lemma not_prefix_trail {d : Char} {v : UInt16} (hv : isTrail v = true) (rest : Str) :
    ¬ unitsOf d.toNat <+: v :: rest := by
  intro h
  obtain ⟨u, hd, -, htrail, -⟩ | ⟨u, w, hd, hlead, -, -⟩ := unitsOf_cases d <;>
    rw [hd, List.cons_prefix_cons] at h <;> obtain ⟨rfl, -⟩ := h
  · cases htrail.symm.trans hv
  · simp only [isLead, isTrail, UInt16.le_iff_toNat_le, UInt16.reduceToNat, decide_eq_true_eq]
      at hlead hv
    omega

lemma clear_unitsOf {c d : Char} (h : d ≠ c) (s : List Char) :
    Clear (units (d :: s)) (unitsOf c.toNat) := by
  have hnot (t : Str) (hd : ¬ unitsOf d.toNat <+: t) : ¬ units (d :: s) <+: t := by
    rw [units_cons]
    exact fun ht => hd ((List.prefix_append _ _).trans ht)
  have hfirst (rest : Str) : ¬ units (d :: s) <+: unitsOf c.toNat ++ rest :=
    hnot _ fun ht => h (eq_of_unitsOf ht)
  obtain ⟨u, hc, -⟩ | ⟨u, v, hc, -, hv, -⟩ := unitsOf_cases c <;> rw [hc] at hfirst ⊢
  · exact ⟨hfirst, trivial⟩
  · exact ⟨hfirst, fun rest => hnot _ (not_prefix_trail hv rest), trivial⟩

/-- A text starts nowhere in another that has none of its characters. -/
lemma clear_units {s t : List Char} (hne : s ≠ []) (h : ∀ c ∈ s, c ∉ t) :
    Clear (units s) (units t) := by
  obtain ⟨d, s, rfl⟩ := List.exists_cons_of_ne_nil hne
  have hd := h d List.mem_cons_self
  induction t with
  | nil => trivial
  | cons c t ih =>
    obtain ⟨hc, ht⟩ := not_or.mp (mt List.mem_cons.mpr hd)
    rw [units_cons c]
    exact (clear_unitsOf hc s).append (ih (fun c hc ht => h c hc (List.mem_cons_of_mem _ ht)) ht)

/-! ### Separators -/

/-- Separators that escapes keep apart from what they stand between, and from each other. -/
structure Separators where
  sep : List Char
  eq : List Char
  sep_ne : sep ≠ []
  eq_ne : eq ≠ []
  escapes : ∀ c ∈ sep ++ eq, Escapes c ∧ c ≠ '%' ∧ c ≠ '+'
  apart : ∀ c ∈ sep, c ∉ eq

lemma isEncoded_unitsOf {c : Char} (h : Escapes c) (hne : c ≠ '%') :
    ∀ u ∈ unitsOf c.toNat, isEncoded u = false := by
  rw [Escapes, units_singleton] at h
  obtain ⟨u, hc, -, -, hu⟩ | ⟨u, v, hc, hlead, htrail, -⟩ := unitsOf_cases c <;> rw [hc] at h ⊢
  · refine List.forall_mem_singleton.mpr (Bool.or_eq_false_iff.mpr ⟨?_, ?_⟩)
    · refine Bool.eq_false_iff.mpr fun hunescaped => h ?_
      rw [encodeURIComponent, if_pos hunescaped]
    · refine decide_eq_false fun hpercent => hne (Char.toNat_inj.mp ?_)
      rw [← hu, hpercent]
      rfl
  · have hsurrogate {w : UInt16} (hw : isLead w = true ∨ isTrail w = true) :
        isEncoded w = false := by
      refine Bool.or_eq_false_iff.mpr ⟨Bool.eq_false_iff.mpr fun hunescaped => ?_, ?_⟩
      · obtain ⟨hlead, htrail⟩ := isUnescaped_unit hunescaped
        simp [hlead, htrail] at hw
      · refine decide_eq_false ?_
        rintro rfl
        revert hw
        decide
    simp only [List.forall_mem_cons, List.not_mem_nil, false_implies, implies_true, and_true]
    exact ⟨hsurrogate (.inl hlead), hsurrogate (.inr htrail)⟩

lemma isEncoded_units {s : List Char} (h : ∀ c ∈ s, Escapes c ∧ c ≠ '%' ∧ c ≠ '+') :
    ∀ u ∈ units s, isEncoded u = false := by
  intro u hu
  obtain ⟨c, hc, hu⟩ := List.mem_flatMap.mp hu
  exact isEncoded_unitsOf (h c hc).1 (h c hc).2.1 u hu

lemma plus_not_mem_units {s : List Char} (h : '+' ∉ s) : 43 ∉ units s := by
  intro hm
  obtain ⟨c, hc, hu⟩ := List.mem_flatMap.mp hm
  obtain ⟨u, hunits, -, -, hchar⟩ | ⟨u, v, hunits, hlead, htrail, -⟩ := unitsOf_cases c <;>
    rw [hunits] at hu
  · obtain rfl := List.mem_singleton.mp hu
    obtain rfl : '+' = c := Char.toNat_inj.mp hchar
    exact h hc
  · simp only [List.mem_cons, List.not_mem_nil, or_false] at hu
    obtain rfl | rfl := hu
    · cases hlead
    · cases htrail

lemma units_ne_nil {s : List Char} (h : s ≠ []) : units s ≠ [] := by
  obtain ⟨c, s, rfl⟩ := List.exists_cons_of_ne_nil h
  rw [units_cons]
  exact List.append_ne_nil_of_left_ne_nil (unitsOf_ne_nil _) _

lemma Separators.separates (s : Separators) : Separates (units s.sep) (units s.eq) where
  sep_ne := units_ne_nil s.sep_ne
  eq_ne := units_ne_nil s.eq_ne
  sep_escaped := isEncoded_units fun c hc => s.escapes c (List.mem_append_left _ hc)
  eq_escaped := isEncoded_units fun c hc => s.escapes c (List.mem_append_right _ hc)
  no_plus := plus_not_mem_units fun h => (s.escapes '+' (List.mem_append_right _ h)).2.2 rfl
  clear := clear_units s.sep_ne s.apart

lemma orElse_of_ne_nil {s : Str} (h : s ≠ []) (default : Str) : orElse (some s) default = s := by
  obtain ⟨c, s, rfl⟩ := List.exists_cons_of_ne_nil h
  rfl

/-! ### The round trip -/

/-- A value is another one with anything in front of its strings. -/
lemma eq_nil_of_behind {front : Str} {v : Value} (hv : v.plain = true) (h : v.behind front = v) :
    front = [] := by
  have hstr {w : Primitive} (hw : w.isText = true) (hbehind : w.behind front = w) : front = [] := by
    cases w with
    | str s => exact List.append_left_eq_self.mp (Primitive.str.inj hbehind)
    | bool | number | nothing | thing => cases hw
  cases v with
  | one w => exact hstr hv (Value.one.inj h)
  | array vs =>
    have hmembers := members_isText hv
    cases vs with
    | nil => cases hv
    | cons w vs => exact hstr (hmembers w List.mem_cons_self) (List.cons.inj (Value.array.inj h)).1

/-- **The round trip with any separators**: each property is there again if and only if `eq` is a
single unit, or there is no property. -/
theorem parse_separators_iff (s : Separators) (obj : Obj) (h : obj.Plain)
    (hpairs : obj.pairs.length ≤ 1000) :
    ∃ text, stringify (.object obj) (some (units s.sep)) (some (units s.eq)) .nothing = some text ∧
      ((∀ k, (parse (some text) (some (units s.sep)) (some (units s.eq)) none).get k = obj.get k) ↔
        (units s.eq).length = 1 ∨ obj.entries = []) := by
  have hsep := s.separates
  have hsep' : Separates (orElse (some (units s.sep)) (js "&"))
      (orElse (some (units s.eq)) (js "=")) := by
    rwa [orElse_of_ne_nil hsep.sep_ne, orElse_of_ne_nil hsep.eq_ne]
  obtain ⟨text, htext, hget⟩ := parse_separated hsep' h hpairs
  rw [orElse_of_ne_nil hsep.eq_ne] at hget
  refine ⟨text, htext, ?_⟩
  simp only [hget]
  have hlength := List.length_pos_iff.mpr hsep.eq_ne
  constructor
  · intro hall
    refine or_iff_not_imp_right.mpr fun hentries => ?_
    obtain ⟨e, entries, he⟩ := List.exists_cons_of_ne_nil hentries
    have hfirst : obj.get e.1 = some e.2 := by
      rw [Obj.get, he, List.lookup_cons, beq_self_eq_true]
    have hbehind := hall e.1
    rw [hfirst, Option.map_some, Option.some.injEq] at hbehind
    have htail := eq_nil_of_behind (h e (he ▸ List.mem_cons_self)).2.2 hbehind
    have hnil := congrArg List.length htail
    rw [List.length_tail, List.length_nil] at hnil
    omega
  · rintro (hone | hentries) k
    · have htail : (units s.eq).tail = [] := by
        rw [← List.length_eq_zero_iff, List.length_tail, hone]
      rw [htail, funext Value.behind_nil, Option.map_id']
    · rw [Obj.get, hentries]
      rfl

/-- `;` and `:`. -/
def semicolonColon : Separators where
  sep := [';']
  eq := [':']
  sep_ne := List.cons_ne_nil _ _
  eq_ne := List.cons_ne_nil _ _
  escapes := by
    simp only [List.mem_append, List.mem_singleton, forall_eq_or_imp, forall_eq]
    decide
  apart := List.forall_mem_singleton.mpr (by decide)

theorem parse_separators_iff_colon :
    ∃ text, stringify (.object someObject) (some (js ";")) (some (js ":")) .nothing = some text ∧
      ∀ k, (parse (some text) (some (js ";")) (some (js ":")) none).get k = someObject.get k := by
  obtain ⟨text, htext, hiff⟩ := parse_separators_iff semicolonColon someObject
    (fun e he => (by decide : ∀ e ∈ someObject.entries, e.1 ≠ js "__proto__" ∧
      paired e.1 = true ∧ e.2.plain = true) e he) (by decide)
  exact ⟨text, htext, hiff.mpr (.inl (by decide))⟩

/-- `;` and `::`. -/
def semicolonColons : Separators where
  sep := [';']
  eq := [':', ':']
  sep_ne := List.cons_ne_nil _ _
  eq_ne := List.cons_ne_nil _ _
  escapes := by
    simp only [List.mem_append, List.mem_cons, List.not_mem_nil, or_false, forall_eq_or_imp,
      forall_eq]
    decide
  apart := List.forall_mem_singleton.mpr (by decide)

/-- `{a: 'b'}` -/
def oneObject : Obj := ⟨[(js "a", .one (.str (js "b")))], by decide⟩

/-- It is written as `a::b`, and the value that is read is `:b`. -/
theorem parse_separators_colons : ¬ ∀ (s : Separators) (obj : Obj), obj.Plain →
    obj.pairs.length ≤ 1000 →
    ∃ text, stringify (.object obj) (some (units s.sep)) (some (units s.eq)) .nothing = some text ∧
      ∀ k, (parse (some text) (some (units s.sep)) (some (units s.eq)) none).get k = obj.get k := by
  intro hall
  obtain ⟨text, htext, hget⟩ := hall semicolonColons oneObject
    (fun e he => (by decide : ∀ e ∈ oneObject.entries, e.1 ≠ js "__proto__" ∧
      paired e.1 = true ∧ e.2.plain = true) e he) (by decide)
  have hwritten : stringify (.object oneObject) (some (units semicolonColons.sep))
      (some (units semicolonColons.eq)) .nothing = some (js "a::b") := by decide
  obtain rfl := Option.some.inj (htext.symm.trans hwritten)
  exact absurd (hget (js "a")) (by decide)

end NodeCore.QueryString
