import NodeCore.HttpParser

/-!
How header lines are folded into one object.

A line that repeats a name is appended to an array, joined with a comma or dropped. What the
object inherits counts as a line that has come before.
-/

namespace NodeCore.HttpParser

open NodeCore.Encoding

/-! ### The claim -/

/-- The values that come under a name, in order; `lower` is `String.prototype.toLowerCase`. -/
def valuesOf (lower : Str → Str) (lines : List (Str × Str)) (name : Str) : List Str :=
  (lines.filter fun l => lower l.1 = name).map Prod.snd

/-- What they are folded into. -/
def folded (name : Str) (values : List Str) : HeaderValue :=
  if name = js "set-cookie" then .many values
  else if commaSeparated.any (· = name) || (js "x-").isPrefixOf name then
    .one ((js ", ").intercalate values)
  else .one (values.headD [])

/-- **What is claimed** of the object: each name that occurs has its values, and nothing else is
there. -/
structure Folds (lower : Str → Str) (lines : List (Str × Str)) (dest : Headers) : Prop where
  values : ∀ l ∈ lines,
    dest.lookup (lower l.1) = some (folded (lower l.1) (valuesOf lower lines (lower l.1)))
  only : ∀ name ∈ dest.map Prod.fst, ∃ l ∈ lines, lower l.1 = name
  once : (dest.map Prod.fst).Nodup

namespace IncomingMessage

/-- `_addHeaderLine`, for any `toLowerCase`. -/
def addHeaderLineBy (lower : Str → Str) (m : IncomingMessage) (line : Str × Str) :
    IncomingMessage :=
  if m.complete then { m with trailers := addField m.trailers (lower line.1) line.2 }
  else { m with headers := addField m.headers (lower line.1) line.2 }

/-- `dest`. -/
def dest (m : IncomingMessage) : Headers := if m.complete then m.trailers else m.headers

end IncomingMessage

/-! ### Objects -/

section Objects

variable {dest : Headers} {field name value : Str}

lemma lookup_cons_ite (h : Str × HeaderValue) :
    List.lookup name (h :: dest) = if name = h.1 then some h.2 else dest.lookup name := by
  rw [List.lookup_cons]
  split_ifs with hn
  · rw [beq_iff_eq.mpr hn]
  · rw [beq_false_of_ne hn]

lemma lookup_set (v : HeaderValue) :
    (dest.set field v).lookup name =
      if name = field then (dest.lookup field).map fun _ => v else dest.lookup name := by
  induction dest with
  | nil =>
    rw [Headers.set, List.map_nil]
    split_ifs <;> rfl
  | cons h dest ih =>
    rw [Headers.set] at ih ⊢
    rw [List.map_cons, lookup_cons_ite, lookup_cons_ite, lookup_cons_ite, ih]
    by_cases hh : h.1 = field
    · subst hh
      simp only [if_true, Option.map_some]
      split_ifs <;> rfl
    · rw [if_neg hh, if_neg (Ne.symm hh)]
      by_cases hn : name = field
      · simp only [hn, if_true, if_neg (Ne.symm hh)]
      · simp only [if_neg hn]

lemma keys_set (v : HeaderValue) : (dest.set field v).map Prod.fst = dest.map Prod.fst := by
  rw [Headers.set, List.map_map]
  refine List.map_congr_left fun h _ => ?_
  rw [Function.comp_apply]
  split_ifs with hh
  · exact hh.symm
  · rfl

lemma lookup_snoc (v : HeaderValue) (hnone : dest.lookup field = none) :
    List.lookup name (dest ++ [(field, v)]) =
      if name = field then some v else dest.lookup name := by
  rw [List.lookup_append, lookup_cons_ite]
  by_cases hn : name = field
  · rw [hn, hnone, if_pos rfl, if_pos rfl]
    rfl
  · rw [if_neg hn, if_neg hn]
    exact Option.or_none

lemma lookup_addField_of_ne (hn : name ≠ field) :
    (addField dest field value).lookup name = dest.lookup name := by
  have hset (v : HeaderValue) : (dest.set field v).lookup name = dest.lookup name := by
    rw [lookup_set, if_neg hn]
  have hsnoc (v : HeaderValue) : (dest ++ [(field, v)]).lookup name = dest.lookup name := by
    rw [List.lookup_append, lookup_cons_ite, if_neg hn]
    exact Option.or_none
  unfold addField
  split_ifs
  · split <;> simp only [hset, hsnoc]
  · split <;> simp only [hset, hsnoc]
  · rfl
  · exact hsnoc _

lemma intercalate_snoc (sep : Str) {values : List Str} (hne : values ≠ []) :
    sep.intercalate (values ++ [value]) = sep.intercalate values ++ (sep ++ value) := by
  induction values with
  | nil => exact absurd rfl hne
  | cons v values ih =>
    rcases eq_or_ne values [] with rfl | hrest
    · rw [List.cons_append, List.nil_append, List.intercalate_cons_cons,
        List.intercalate_singleton, List.intercalate_singleton, List.append_assoc]
    · rw [List.cons_append, List.intercalate_cons_of_ne_nil (by simp),
        List.intercalate_cons_of_ne_nil hrest, ih hrest]
      simp only [List.append_assoc]

/-- No name that is folded is inherited. -/
lemma not_folded_of_inherited (h : field ∈ inherited) :
    field ≠ js "set-cookie" ∧ ¬ (field ∈ commaSeparated ∨ (js "x-").isPrefixOf field = true) := by
  have hall : ∀ name ∈ inherited, name ≠ js "set-cookie" ∧
      ¬ (name ∈ commaSeparated ∨ (js "x-").isPrefixOf name = true) := by decide
  exact hall field h

lemma folded_eq (name : Str) (values : List Str) : folded name values =
    if name = js "set-cookie" then .many values
    else if name ∈ commaSeparated ∨ (js "x-").isPrefixOf name = true then
      .one ((js ", ").intercalate values)
    else .one (values.headD []) := by
  unfold folded
  simp only [Bool.or_eq_true, List.any_eq_true, decide_eq_true_eq, exists_eq_right]

/-- One more value under a name. -/
lemma lookup_addField_self {values : List Str}
    (h : dest.lookup field =
      if values = [] ∨ field ∈ inherited then none else some (folded field values)) :
    (addField dest field value).lookup field =
      if field ∈ inherited then none else some (folded field (values ++ [value])) := by
  by_cases hin : field ∈ inherited
  · obtain ⟨hcookie, hcomma⟩ := not_folded_of_inherited hin
    rw [if_pos (.inr hin)] at h
    rw [addField, if_neg hcookie, if_neg hcomma, if_pos (.inr hin), if_pos hin, h]
  · simp only [hin, or_false] at h
    rw [if_neg hin]
    rcases eq_or_ne values [] with rfl | hne
    · -- the first one
      rw [if_pos rfl] at h
      rw [folded_eq]
      unfold addField
      simp only [h, hin, Option.isSome_none, Bool.false_eq_true, or_false, if_false,
        List.nil_append, List.intercalate_singleton, List.headD_cons]
      split_ifs
      all_goals rw [lookup_snoc _ h, if_pos rfl]
    · rw [if_neg hne] at h
      unfold addField
      rw [folded_eq] at h ⊢
      split_ifs with hcookie hcomma hsome
      · rw [if_pos hcookie] at h
        simp only [h, lookup_set, if_true, Option.map_some]
      · rw [if_neg hcookie, if_pos hcomma] at h
        simp only [h, lookup_set, if_true, Option.map_some, List.append_assoc,
          intercalate_snoc _ hne]
      · rw [if_neg hcookie, if_neg hcomma] at h
        obtain ⟨v, rest, rfl⟩ := List.exists_cons_of_ne_nil hne
        exact h
      · rw [if_neg hcookie, if_neg hcomma] at h
        exact absurd (.inl (by rw [h]; rfl)) hsome

/-- The names are those there were, and the new one. -/
lemma keys_addField (dest : Headers) (field value : Str) :
    (addField dest field value).map Prod.fst = dest.map Prod.fst ∨
      (addField dest field value).map Prod.fst = dest.map Prod.fst ++ [field] ∧
        dest.lookup field = none := by
  unfold addField
  split_ifs with hcookie hcomma hsome
  · split
    · exact .inl (keys_set _)
    · exact .inl rfl
    · next hnone => exact .inr ⟨by rw [List.map_append]; rfl, hnone⟩
  · split
    · exact .inl (keys_set _)
    · exact .inl rfl
    · next hnone => exact .inr ⟨by rw [List.map_append]; rfl, hnone⟩
  · exact .inl rfl
  · have hnone : dest.lookup field = none := by
      rw [← Option.not_isSome_iff_eq_none]
      exact fun hs => hsome (.inl hs)
    exact .inr ⟨by rw [List.map_append]; rfl, hnone⟩

end Objects

/-! ### Lines -/

section Lines

variable {lower : Str → Str} {lines : List (Str × Str)} {line : Str × Str} {name : Str}

lemma valuesOf_snoc : valuesOf lower (lines ++ [line]) name =
    valuesOf lower lines name ++ if lower line.1 = name then [line.2] else [] := by
  rw [valuesOf, valuesOf, List.filter_append, List.map_append, List.filter_singleton]
  split_ifs with h <;> simp [h]

lemma valuesOf_ne_nil : valuesOf lower lines name ≠ [] ↔ ∃ l ∈ lines, lower l.1 = name := by
  rw [valuesOf, Ne, List.map_eq_nil_iff, List.filter_eq_nil_iff]
  simp only [decide_eq_true_eq, not_forall, not_not, exists_prop]

/-- The lines folded into an object, one after the other. -/
def fold (lower : Str → Str) (lines : List (Str × Str)) : Headers :=
  lines.foldl (fun dest l => addField dest (lower l.1) l.2) []

lemma fold_snoc : fold lower (lines ++ [line]) =
    addField (fold lower lines) (lower line.1) line.2 := by
  rw [fold, List.foldl_append]
  rfl

/-- **The object after any lines**: an inherited name never has a value of its own. -/
lemma lookup_fold : (fold lower lines).lookup name =
    if valuesOf lower lines name = [] ∨ name ∈ inherited then none
    else some (folded name (valuesOf lower lines name)) := by
  induction lines using List.reverseRecOn generalizing name with
  | nil => exact (if_pos (.inl rfl)).symm
  | append_singleton lines line ih =>
    rw [fold_snoc, valuesOf_snoc]
    by_cases hn : name = lower line.1
    · subst hn
      rw [lookup_addField_self ih, if_pos rfl]
      simp
    · rw [lookup_addField_of_ne hn, ih, if_neg (Ne.symm hn), List.append_nil]

lemma keys_fold : (∀ name ∈ (fold lower lines).map Prod.fst, ∃ l ∈ lines, lower l.1 = name) ∧
    ((fold lower lines).map Prod.fst).Nodup := by
  induction lines using List.reverseRecOn with
  | nil => exact ⟨fun _ h => (by cases h), List.nodup_nil⟩
  | append_singleton lines line ih =>
    obtain ⟨honly, honce⟩ := ih
    rw [fold_snoc]
    have hsame : ∀ name ∈ (fold lower lines).map Prod.fst,
        ∃ l ∈ lines ++ [line], lower l.1 = name := fun name hname => by
      obtain ⟨l, hl, heq⟩ := honly name hname
      exact ⟨l, List.mem_append_left _ hl, heq⟩
    rcases keys_addField (fold lower lines) _ _ with hkeys | ⟨hkeys, hnone⟩
    · rw [hkeys]
      exact ⟨hsame, honce⟩
    · rw [hkeys]
      refine ⟨fun name hname => ?_, List.nodup_append.mpr ⟨honce, List.nodup_singleton _, ?_⟩⟩
      · rcases List.mem_append.mp hname with hname | hname
        · exact hsame name hname
        · rw [List.mem_singleton.mp hname]
          exact ⟨line, List.mem_append_right _ List.mem_cons_self, rfl⟩
      · intro name hname other hother heq
        obtain ⟨h, hh, rfl⟩ := List.mem_map.mp hname
        rw [List.mem_singleton] at hother
        have hne := List.lookup_eq_none_iff.mp hnone h hh
        rw [← hother, ← heq] at hne
        simp at hne

/-- The lines of a message go into one of its two objects. -/
lemma foldl_addHeaderLineBy (m : IncomingMessage) :
    (lines.foldl (IncomingMessage.addHeaderLineBy lower) m).dest =
      lines.foldl (fun dest l => addField dest (lower l.1) l.2) m.dest := by
  induction lines generalizing m with
  | nil => rfl
  | cons l lines ih =>
    rw [List.foldl_cons, List.foldl_cons, ih]
    unfold IncomingMessage.addHeaderLineBy IncomingMessage.dest
    split_ifs with hc <;> rfl

end Lines

/-- **When the object has what is claimed**: when no name is one that every object inherits. -/
theorem folds_iff (lower : Str → Str) (info : Info) (url : Str) (complete : Bool)
    (lines : List (Str × Str)) :
    Folds lower lines (lines.foldl (IncomingMessage.addHeaderLineBy lower)
      ⟨info, url, [], [], complete⟩).dest ↔ ∀ l ∈ lines, lower l.1 ∉ inherited := by
  have hdest : (lines.foldl (IncomingMessage.addHeaderLineBy lower)
      ⟨info, url, [], [], complete⟩).dest = fold lower lines := by
    rw [foldl_addHeaderLineBy, fold]
    cases complete <;> rfl
  rw [hdest]
  constructor
  · intro h l hl hin
    have hvalues := h.values l hl
    rw [lookup_fold, if_pos (.inr hin)] at hvalues
    cases hvalues
  · intro h
    refine ⟨fun l hl => ?_, keys_fold.1, keys_fold.2⟩
    rw [lookup_fold, if_neg]
    exact not_or.mpr ⟨valuesOf_ne_nil.mpr ⟨l, hl, rfl⟩, h l hl⟩

/-- A header that is called like the property of every object that leads back to its maker. -/
theorem not_folds_constructor : ¬ ∀ lines : List (Str × Str),
    Folds toLowerCase lines (lines.foldl IncomingMessage.addHeaderLine
      ⟨⟨some (js "GET"), 0, 1, 1, false⟩, js "/", [], [], false⟩).dest := by
  intro h
  have hvalues := (h [(js "Constructor", js "1")]).values _ List.mem_cons_self
  revert hvalues
  decide

end NodeCore.HttpParser
