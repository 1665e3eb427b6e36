import NodeCore.Encoding

/-!
Plain objects: their own properties, in the order in which the keys have come, and what they have
that nobody has put there, the properties of `Object.prototype`.
-/

namespace NodeCore.Encoding

/-! ### Own properties -/

section Assign

variable {α β : Type*} [DecidableEq α]

/-- `object[key] = value`. -/
def assign (object : List (α × β)) (key : α) (value : β) : List (α × β) :=
  if object.any (·.1 = key) then object.map fun h => if h.1 = key then (key, value) else h
  else object ++ [(key, value)]

variable {object : List (α × β)} {key : α} {value : β}

lemma mem_assign {x : α × β} :
    x ∈ assign object key value ↔ x = (key, value) ∨ (x ∈ object ∧ x.1 ≠ key) := by
  unfold assign
  split_ifs with hany
  · obtain ⟨y, hy, hkey⟩ := List.any_eq_true.mp hany
    rw [List.mem_map]
    constructor
    · rintro ⟨z, hz, rfl⟩
      split_ifs with hzk
      · exact .inl rfl
      · exact .inr ⟨hz, hzk⟩
    · rintro (rfl | ⟨hx, hne⟩)
      · exact ⟨y, hy, if_pos (of_decide_eq_true hkey)⟩
      · exact ⟨x, hx, if_neg hne⟩
  · have hnone : ∀ y ∈ object, y.1 ≠ key := fun y hy hkey =>
      hany (List.any_eq_true.mpr ⟨y, hy, decide_eq_true hkey⟩)
    rw [List.mem_append, List.mem_singleton]
    constructor
    · rintro (hx | rfl)
      · exact .inr ⟨hx, hnone x hx⟩
      · exact .inl rfl
    · rintro (rfl | ⟨hx, -⟩)
      · exact .inr rfl
      · exact .inl hx

/-- No key is there twice. -/
lemma nodup_assign (h : (object.map Prod.fst).Nodup) :
    ((assign object key value).map Prod.fst).Nodup := by
  unfold assign
  split_ifs with hany
  · have heq : (object.map fun h => if h.1 = key then (key, value) else h).map Prod.fst =
        object.map Prod.fst := by
      rw [List.map_map]
      refine List.map_congr_left fun x _ => ?_
      rw [Function.comp_apply]
      split_ifs with hx
      · exact hx.symm
      · rfl
    rw [heq]
    exact h
  · rw [List.map_append, List.nodup_append]
    refine ⟨h, List.nodup_singleton _, fun a ha b hb => ?_⟩
    obtain ⟨x, hx, rfl⟩ := List.mem_map.mp ha
    rw [List.map_singleton, List.mem_singleton] at hb
    intro hab
    exact hany (List.any_eq_true.mpr ⟨x, hx, decide_eq_true (hab.trans hb)⟩)

/-- A new key comes last. -/
lemma assign_of_notMem (h : key ∉ object.map Prod.fst) :
    assign object key value = object ++ [(key, value)] := by
  rw [assign, if_neg]
  intro hany
  obtain ⟨y, hy, hkey⟩ := List.any_eq_true.mp hany
  exact h (List.mem_map.mpr ⟨y, hy, of_decide_eq_true hkey⟩)

end Assign

/-! ### What is inherited -/

/-- The text of a function of the language. -/
def nativeText (name : String) : Str := js "function " ++ js name ++ js "() { [native code] }"

/-- The names, and the texts of what is found under them. -/
def objectPrototype : List (Str × Str) :=
  (js "__proto__", js "[object Object]") :: (js "constructor", nativeText "Object") ::
    ["toString", "toLocaleString", "valueOf", "hasOwnProperty", "isPrototypeOf",
      "propertyIsEnumerable", "__defineGetter__", "__lookupGetter__", "__defineSetter__",
      "__lookupSetter__"].map fun name => (js name, nativeText name)

/-- The names that every object inherits. -/
def inherited : List Str := objectPrototype.map Prod.fst

end NodeCore.Encoding
