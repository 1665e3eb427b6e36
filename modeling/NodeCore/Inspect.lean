import NodeCore.Encoding
import NodeCore.Separator

/-!
`util.inspect` on plain objects and arrays, whatever refers to what.

`ctx.seen` is a stack of the objects that are being formatted, and what refers to one of them is
printed as circular. `Prints` has the path to a value instead. With each object on the stack there
are fewer that are not, so formatting comes to an end.
-/

namespace NodeCore.Inspect

open NodeCore.Encoding

/-! ### Objects -/

/-- A number is what `'' + value` makes of it. -/
inductive Value (n : ℕ)
  | undefined
  | null
  | boolean (value : Bool)
  | number (text : Str)
  | string (value : Str)
  | ref (id : Fin n)
  deriving DecidableEq

/-- There are no getters. -/
inductive Descriptor (n : ℕ)
  | data (value : Value n)
  | setter
  deriving DecidableEq

structure Property (n : ℕ) where
  key : Str
  enumerable : Bool
  desc : Descriptor n
  deriving DecidableEq

def decimal (i : ℕ) : Str := (Nat.toDigits 10 i).map fun c => UInt16.ofNat c.toNat

structure Obj (n : ℕ) where
  /-- The `length`, if it is an array. -/
  array : Option ℕ
  /-- Its own, as `getOwnPropertyNames` has them. -/
  properties : List (Property n)
  nodup : (properties.map Property.key).Nodup
  length : ∀ l, array = some l → ⟨js "length", false, .data (.number (decimal l))⟩ ∈ properties

abbrev Heap (n : ℕ) := Fin n → Obj n

variable {n : ℕ}

def Obj.own (value : Obj n) (key : Str) : Option (Property n) :=
  value.properties.find? fun p => p.key = key

/-! ### Text -/

structure Ctx where
  showHidden : Bool
  colors : Bool

inductive Style
  | special | number | boolean | undefined | null | string | name

/-- `inspect.styles` and `inspect.colors`. -/
def Style.codes : Style → Option (ℕ × ℕ)
  | special => some (36, 39)
  | number | boolean => some (33, 39)
  | undefined => some (90, 39)
  | null => some (1, 22)
  | string => some (32, 39)
  | name => none

def Ctx.stylize (ctx : Ctx) (str : Str) (style : Style) : Str :=
  if ctx.colors then
    match style.codes with
    | some (on, off) => [27, 91] ++ decimal on ++ [109] ++ str ++ [27, 91] ++ decimal off ++ [109]
    | none => str
  else str

/-- What `JSON.stringify` makes of a character. -/
def escape (c : UInt16) : Str :=
  let hex (d : UInt16) : UInt16 := if d < 10 then 48 + d else 87 + d
  if c = 34 ∨ c = 92 then [92, c]
  else if c = 8 then [92, 98]
  else if c = 9 then [92, 116]
  else if c = 10 then [92, 110]
  else if c = 12 then [92, 102]
  else if c = 13 then [92, 114]
  else if c < 32 then [92, 117, 48, 48, hex (c / 16), hex (c % 16)]
  else [c]

/-- `JSON.stringify` of a string. -/
def stringify (s : Str) : Str := [34] ++ s.flatMap escape ++ [34]

/-- What stands between the quotes. -/
def unquote (s : Str) : Str := (s.drop 1).dropLast

/-- `replace(/\\"/g, '"')` -/
def unescape : Str → Str
  | c :: d :: s => if c = 92 ∧ d = 34 then 34 :: unescape s else c :: unescape (d :: s)
  | s => s

/-- `replace(/'/g, "\\'").replace(/\\"/g, '"')` -/
def requote (s : Str) : Str := unescape (s.flatMap fun c => if c = 39 then [92, 39] else [c])

/-- It is `undefined` for an object. -/
def formatPrimitive (ctx : Ctx) : Value n → Option Str
  | .undefined => some (ctx.stylize (js "undefined") .undefined)
  | .string value =>
    some (ctx.stylize ([39] ++ requote (unquote (stringify value)) ++ [39]) .string)
  | .number text => some (ctx.stylize text .number)
  | .boolean value => some (ctx.stylize (if value then js "true" else js "false") .boolean)
  | .null => some (ctx.stylize (js "null") .null)
  | .ref _ => none

def digit (c : UInt16) : Bool := 48 ≤ c && c ≤ 57

/-- `/^\d+$/` -/
def isDigits (key : Str) : Bool := !key.isEmpty && key.all digit

/-- `/^[a-zA-Z_][a-zA-Z_0-9]*$/` -/
def isName : Str → Bool
  | [] => false
  | c :: s =>
    let letter (c : UInt16) : Bool := (97 ≤ c && c ≤ 122) || (65 ≤ c && c ≤ 90) || c = 95
    letter c && s.all fun c => letter c || digit c

/-- The end of `formatProperty`: `name + ': ' + str`. -/
def Ctx.named (ctx : Ctx) (visibleKeys : List Str) (key : Str) (array : Bool) (str : Str) : Str :=
  if !visibleKeys.any fun k => k = key then [91] ++ key ++ [93] ++ js ": " ++ str
  else if array && isDigits key then str
  else
    let name := stringify key
    if isName (unquote name) then ctx.stylize (unquote name) .name ++ js ": " ++ str
    else ctx.stylize ([39] ++ unquote (requote name) ++ [39]) .string ++ js ": " ++ str

/-- Each line behind an indentation. -/
def indentLines (indent str : Str) : Str :=
  List.intercalate [10] ((str.splitOn 10).map fun line => indent ++ line)

/-- The text of a value in that of a property. -/
def nested (array : Bool) (str : Str) : Str :=
  if str.any fun c => c = 10 then
    if array then (indentLines (js "  ") str).drop 2 else 10 :: indentLines (js "   ") str
  else str

/-- How much `/\u001b\[\d\d?m/` matches in front; 0 where it does not. -/
def styleAt (s : Str) : ℕ :=
  if s.take 2 = [27, 91] ∧ (s[2]?).any digit then
    if s[3]? = some 109 then 4
    else if (s[3]?).any digit ∧ s[4]? = some 109 then 5
    else 0
  else 0

def reduceToSingleString (output : List Str) (base : Str) (braces : Str × Str) : Str :=
  let length := (output.map fun cur =>
    (Separator.splitMatches styleAt 0 cur).flatten.length + 1).sum
  if length > 60 then
    braces.1 ++ (if base = [] then [] else base ++ js "\n ") ++ js " " ++
      List.intercalate (js ",\n  ") output ++ js " " ++ braces.2
  else braces.1 ++ base ++ js " " ++ List.intercalate (js ", ") output ++ js " " ++ braces.2

/-! ### `formatValue` -/

/-- `ctx.seen`, the innermost object last. -/
abbrev Seen (n : ℕ) := List (Fin n)

/-- The keys of `arrayToHash(Object.keys(value))`; `hash.__proto__` is no property of the hash. -/
def Obj.visibleKeys (value : Obj n) : List Str :=
  ((value.properties.filter Property.enumerable).map Property.key).filter fun key =>
    key ≠ js "__proto__"

/-- The properties whose names are in `keys`. -/
def Obj.keys (ctx : Ctx) (value : Obj n) : List (Property n) :=
  if ctx.showHidden then value.properties else value.properties.filter Property.enumerable

def Obj.braces (value : Obj n) : Str × Str :=
  if value.array.isSome then ([91], [93]) else ([123], [125])

/-- There is nothing to be listed. -/
def Obj.bare (ctx : Ctx) (value : Obj n) : Bool :=
  (value.keys ctx).isEmpty && (value.array = none || value.array = some 0)

/-- `ctx.seen.indexOf(value) >= 0` -/
def isSeen (seen : Seen n) : Value n → Bool
  | .ref id => seen.any fun other => other = id
  | _ => false

/-- Calls one after the other, each with what the one before has left in `ctx.seen`. -/
def mapSeen {α : Type} (f : Seen n → α → Option (Str × Seen n)) (seen : Seen n) :
    List α → Option (List Str × Seen n)
  | [] => some ([], seen)
  | a :: as =>
    (f seen a).bind fun (str, seen) =>
      (mapSeen f seen as).map fun (output, seen) => (str :: output, seen)

section Format

variable (formatValue : Seen n → Value n → Option ℤ → Option (Str × Seen n)) (ctx : Ctx)

def formatProperty (seen : Seen n) (value : Obj n) (recurseTimes : Option ℤ) (p : Property n) :
    Option (Str × Seen n) :=
  let array := value.array.isSome
  let str : Option (Str × Seen n) := match p.desc with
    | .setter => some (ctx.stylize (js "[Setter]") .special, seen)
    | .data v =>
      if isSeen seen v then some (ctx.stylize (js "[Circular]") .special, seen)
      else
        (formatValue seen v (recurseTimes.map (· - 1))).map fun (str, seen) =>
          (nested array str, seen)
  str.map fun (str, seen) => (ctx.named value.visibleKeys p.key array str, seen)

/-- What is no index is listed behind the elements, but for names made of digits. -/
def formatArray (seen : Seen n) (value : Obj n) (length : ℕ) (recurseTimes : Option ℤ) :
    Option (List Str × Seen n) :=
  (mapSeen (fun seen i =>
    match value.own (decimal i) with
    | some p => formatProperty formatValue ctx seen value recurseTimes p
    | none => some ([], seen)) seen (List.range length)).bind fun (elements, seen) =>
  (mapSeen (fun seen p => formatProperty formatValue ctx seen value recurseTimes p) seen
    ((value.keys ctx).filter fun p => !isDigits p.key)).map fun (others, seen) =>
      (elements ++ others, seen)

end Format

/-- `fuel` bounds how deep the calls are nested; `none` is a call that does not return. A
`recurseTimes` of `none` is `null`. -/
def formatValue (heap : Heap n) (ctx : Ctx) :
    ℕ → Seen n → Value n → Option ℤ → Option (Str × Seen n)
  | 0, _, _, _ => none
  | fuel + 1, seen, value, recurseTimes =>
    match value with
    | .ref id =>
      let value := heap id
      if value.bare ctx then some (value.braces.1 ++ value.braces.2, seen)
      else if recurseTimes.any (· < 0) then some (ctx.stylize (js "[Object]") .special, seen)
      else
        let output := match value.array with
          | some length =>
            formatArray (formatValue heap ctx fuel) ctx (seen ++ [id]) value length recurseTimes
          | none =>
            mapSeen (fun seen p =>
              formatProperty (formatValue heap ctx fuel) ctx seen value recurseTimes p)
              (seen ++ [id]) (value.keys ctx)
        output.map fun (output, seen) =>
          (reduceToSingleString output [] value.braces, seen.dropLast)
    | value => (formatPrimitive ctx value).map fun str => (str, seen)

/-! ### What is printed -/

/-- The properties that are listed; `none` for a hole of an array. -/
def Obj.listed (ctx : Ctx) (value : Obj n) : List (Option (Property n)) :=
  match value.array with
  | some length =>
    (List.range length).map (fun i => value.own (decimal i)) ++
      ((value.keys ctx).filter fun p => !isDigits p.key).map some
  | none => (value.keys ctx).map some

mutual

/-- What is printed of a value, where `path` leads from the first object to it. -/
inductive Prints (heap : Heap n) (ctx : Ctx) : List (Fin n) → Value n → Str → Prop
  | primitive {path : List (Fin n)} {value : Value n} {str : Str}
      (text : formatPrimitive ctx value = some str) : Prints heap ctx path value str
  | bare {path : List (Fin n)} {id : Fin n} (bare : (heap id).bare ctx = true) :
      Prints heap ctx path (.ref id) ((heap id).braces.1 ++ (heap id).braces.2)
  | object {path : List (Fin n)} {id : Fin n} {output : List Str}
      (bare : (heap id).bare ctx = false)
      (items : Lists heap ctx (heap id) (path ++ [id]) ((heap id).listed ctx) output) :
      Prints heap ctx path (.ref id) (reduceToSingleString output [] (heap id).braces)

/-- What is printed of properties of an object, where `path` ends with the object. A reference is
circular if the path goes through the object it leads to, and only then. -/
inductive Lists (heap : Heap n) (ctx : Ctx) :
    Obj n → List (Fin n) → List (Option (Property n)) → List Str → Prop
  | nil {value : Obj n} {path : List (Fin n)} : Lists heap ctx value path [] []
  | hole {value : Obj n} {path : List (Fin n)} {items : List (Option (Property n))}
      {output : List Str} (rest : Lists heap ctx value path items output) :
      Lists heap ctx value path (none :: items) ([] :: output)
  | setter {value : Obj n} {path : List (Fin n)} {p : Property n}
      {items : List (Option (Property n))} {output : List Str} (desc : p.desc = .setter)
      (rest : Lists heap ctx value path items output) :
      Lists heap ctx value path (some p :: items)
        (ctx.named value.visibleKeys p.key value.array.isSome
          (ctx.stylize (js "[Setter]") .special) :: output)
  | circular {value : Obj n} {path : List (Fin n)} {p : Property n} {id : Fin n}
      {items : List (Option (Property n))} {output : List Str} (desc : p.desc = .data (.ref id))
      (ancestor : id ∈ path) (rest : Lists heap ctx value path items output) :
      Lists heap ctx value path (some p :: items)
        (ctx.named value.visibleKeys p.key value.array.isSome
          (ctx.stylize (js "[Circular]") .special) :: output)
  | value {value : Obj n} {path : List (Fin n)} {p : Property n} {v : Value n} {str : Str}
      {items : List (Option (Property n))} {output : List Str} (desc : p.desc = .data v)
      (fresh : ∀ id, v = .ref id → id ∉ path) (printed : Prints heap ctx path v str)
      (rest : Lists heap ctx value path items output) :
      Lists heap ctx value path (some p :: items)
        (ctx.named value.visibleKeys p.key value.array.isSome
          (nested value.array.isSome str) :: output)

end

/-! ### One call after the other -/

section MapSeen

variable {α β : Type} {f : Seen n → α → Option (Str × Seen n)}

lemma mapSeen_append (seen : Seen n) (as bs : List α) :
    mapSeen f seen (as ++ bs) = (mapSeen f seen as).bind fun (output, seen) =>
      (mapSeen f seen bs).map fun (others, seen) => (output ++ others, seen) := by
  induction as generalizing seen with
  | nil =>
    exact Option.map_id'.symm
  | cons a as ih =>
    rw [List.cons_append, mapSeen, mapSeen]
    rcases f seen a with - | ⟨str, seen⟩
    · rfl
    · dsimp only [Option.bind_some]
      rw [ih]
      rcases mapSeen f seen as with - | ⟨output, seen⟩
      · rfl
      · dsimp only [Option.bind_some, Option.map_some]
        rcases mapSeen f seen bs with - | ⟨others, seen⟩ <;> rfl

lemma mapSeen_map (g : β → α) (seen : Seen n) (bs : List β) :
    mapSeen f seen (bs.map g) = mapSeen (fun seen b => f seen (g b)) seen bs := by
  induction bs generalizing seen with
  | nil => rfl
  | cons b bs ih =>
    rw [List.map_cons, mapSeen, mapSeen]
    rcases f seen (g b) with - | ⟨str, seen⟩
    · rfl
    · dsimp only [Option.bind_some]
      rw [ih]

end MapSeen

variable {heap : Heap n} {ctx : Ctx}

/-- A property, or a hole. -/
def formatItem (formatValue : Seen n → Value n → Option ℤ → Option (Str × Seen n)) (ctx : Ctx)
    (value : Obj n) (recurseTimes : Option ℤ) (seen : Seen n) :
    Option (Property n) → Option (Str × Seen n)
  | some p => formatProperty formatValue ctx seen value recurseTimes p
  | none => some ([], seen)

/-- Arrays and other objects alike. -/
lemma formatValue_object {fuel : ℕ} {seen : Seen n} {id : Fin n}
    (hbare : (heap id).bare ctx = false) :
    formatValue heap ctx (fuel + 1) seen (.ref id) none =
      (mapSeen (formatItem (formatValue heap ctx fuel) ctx (heap id) none) (seen ++ [id])
        ((heap id).listed ctx)).map fun (output, seen) =>
          (reduceToSingleString output [] (heap id).braces, seen.dropLast) := by
  rw [formatValue]
  dsimp only
  rw [hbare, if_neg Bool.false_ne_true, Option.any_none, if_neg Bool.false_ne_true]
  congr 1
  unfold Obj.listed
  cases (heap id).array with
  | none =>
    rw [mapSeen_map]
    rfl
  | some length =>
    dsimp only
    rw [mapSeen_append, mapSeen_map]
    simp only [mapSeen_map]
    rfl

/-! ### The end -/

/-- The objects that are not on the stack. -/
def unseen (seen : Seen n) : ℕ := (Finset.univ.filter fun id => id ∉ seen).card

lemma unseen_le (seen : Seen n) : unseen seen ≤ n := by
  have hle := Finset.card_le_univ (Finset.univ.filter fun id : Fin n => id ∉ seen)
  rwa [Fintype.card_fin] at hle

lemma unseen_push {seen : Seen n} {id : Fin n} (h : id ∉ seen) :
    unseen (seen ++ [id]) < unseen seen := by
  refine Finset.card_lt_card
    ((Finset.ssubset_iff_of_subset fun other hother => ?_).mpr ⟨id, ?_, ?_⟩)
  · rw [Finset.mem_filter_univ] at hother ⊢
    exact fun hmem => hother (List.mem_append_left _ hmem)
  · rwa [Finset.mem_filter_univ]
  · rw [Finset.mem_filter_univ, not_not]
    exact List.mem_append_right _ (List.mem_singleton.mpr rfl)

/-- The value is formatted as `Prints` has it, with any fuel above `k`, and the stack is as it
was. -/
def Formats (heap : Heap n) (ctx : Ctx) (k : ℕ) (seen : Seen n) (value : Value n) : Prop :=
  ∃ str, Prints heap ctx seen value str ∧
    ∀ fuel, k < fuel → formatValue heap ctx fuel seen value none = some (str, seen)

lemma isSeen_ref {seen : Seen n} {id : Fin n} : isSeen seen (.ref id) = true ↔ id ∈ seen := by
  simp [isSeen]

/-- A property, whatever it refers to. -/
lemma formatItem_data {format : Seen n → Value n → Option ℤ → Option (Str × Seen n)}
    {value : Obj n} {path : List (Fin n)} {p : Property n} {v : Value n} {str : Str}
    (hdesc : p.desc = .data v) (hfresh : isSeen path v = false)
    (hformat : format path v none = some (str, path)) :
    formatItem format ctx value none path (some p) =
      some (ctx.named value.visibleKeys p.key value.array.isSome (nested value.array.isSome str),
        path) := by
  rw [formatItem, formatProperty, hdesc]
  dsimp only [Option.map_none]
  rw [hfresh, if_neg Bool.false_ne_true, hformat]
  rfl

/-- **Step lemma.** A property, once the value in it is formatted. -/
lemma item_of_formats {k : ℕ} {path : List (Fin n)} (value : Obj n)
    (h : ∀ v : Value n, (∀ id, v = .ref id → id ∉ path) → Formats heap ctx k path v)
    (item : Option (Property n)) :
    ∃ str, (∀ items output, Lists heap ctx value path items output →
        Lists heap ctx value path (item :: items) (str :: output)) ∧
      ∀ fuel, k < fuel →
        formatItem (formatValue heap ctx fuel) ctx value none path item = some (str, path) := by
  cases item with
  | none => exact ⟨[], fun _ _ => .hole, fun _ _ => rfl⟩
  | some p =>
    cases hdesc : p.desc with
    | setter =>
      refine ⟨_, fun _ _ => .setter hdesc, fun fuel _ => ?_⟩
      rw [formatItem, formatProperty, hdesc]
      rfl
    | data v =>
      cases hseen : isSeen path v with
      | true =>
        obtain ⟨id, rfl⟩ : ∃ id, v = .ref id := by
          cases v with
          | ref id => exact ⟨id, rfl⟩
          | undefined | null | boolean | number | string => cases hseen
        refine ⟨_, fun _ _ => .circular hdesc (isSeen_ref.mp hseen), fun fuel _ => ?_⟩
        rw [formatItem, formatProperty, hdesc]
        dsimp only
        rw [hseen, if_pos rfl]
        rfl
      | false =>
        have hfresh (id : Fin n) (hv : v = .ref id) : id ∉ path := fun hmem => by
          rw [hv, isSeen_ref.mpr hmem] at hseen
          cases hseen
        obtain ⟨str, hprints, hformat⟩ := h v hfresh
        exact ⟨_, fun _ _ => .value hdesc hfresh hprints,
          fun fuel hfuel => formatItem_data hdesc hseen (hformat fuel hfuel)⟩

/-- One property after the other. -/
lemma lists_of_formats {k : ℕ} {path : List (Fin n)} (value : Obj n)
    (h : ∀ v : Value n, (∀ id, v = .ref id → id ∉ path) → Formats heap ctx k path v)
    (items : List (Option (Property n))) :
    ∃ output, Lists heap ctx value path items output ∧
      ∀ fuel, k < fuel →
        mapSeen (formatItem (formatValue heap ctx fuel) ctx value none) path items =
          some (output, path) := by
  induction items with
  | nil => exact ⟨[], .nil, fun _ _ => rfl⟩
  | cons item items ih =>
    obtain ⟨output, hlists, hmap⟩ := ih
    obtain ⟨str, hcons, hitem⟩ := item_of_formats value h item
    refine ⟨str :: output, hcons items output hlists, fun fuel hfuel => ?_⟩
    rw [mapSeen, hitem fuel hfuel, Option.bind_some]
    dsimp only
    rw [hmap fuel hfuel]
    rfl

lemma formats_primitive {k : ℕ} {seen : Seen n} {value : Value n} {str : Str}
    (h : formatPrimitive ctx value = some str) : Formats heap ctx k seen value := by
  refine ⟨str, .primitive h, fun fuel hfuel => ?_⟩
  obtain ⟨fuel, rfl⟩ := Nat.exists_eq_succ_of_ne_zero (Nat.ne_of_gt (Nat.zero_lt_of_lt hfuel))
  cases value with
  | ref id => cases h
  | undefined | null | boolean | number | string =>
    exact congrArg (Option.map fun str => (str, seen)) h

/-- An object, once what is below it is formatted. -/
lemma formats_ref {k : ℕ} {seen : Seen n} {id : Fin n}
    (h : ∀ v : Value n, (∀ other, v = .ref other → other ∉ seen ++ [id]) →
      Formats heap ctx k (seen ++ [id]) v) : Formats heap ctx (k + 1) seen (.ref id) := by
  cases hbare : (heap id).bare ctx with
  | true =>
    refine ⟨_, .bare hbare, fun fuel hfuel => ?_⟩
    obtain ⟨fuel, rfl⟩ := Nat.exists_eq_succ_of_ne_zero (Nat.ne_of_gt (Nat.zero_lt_of_lt hfuel))
    rw [formatValue]
    dsimp only
    rw [hbare, if_pos rfl]
  | false =>
    obtain ⟨output, hlists, hmap⟩ := lists_of_formats (heap id) h ((heap id).listed ctx)
    refine ⟨_, .object hbare hlists, fun fuel hfuel => ?_⟩
    obtain ⟨fuel, rfl⟩ := Nat.exists_eq_succ_of_ne_zero (Nat.ne_of_gt (Nat.zero_lt_of_lt hfuel))
    rw [formatValue_object hbare, hmap fuel (Nat.lt_of_succ_lt_succ hfuel), Option.map_some]
    dsimp only
    rw [List.dropLast_concat]

/-- By the number of objects that are not on the stack. -/
lemma formats_of_fresh {k : ℕ} {seen : Seen n} {value : Value n} (hk : unseen seen ≤ k)
    (hfresh : ∀ id, value = .ref id → id ∉ seen) : Formats heap ctx k seen value := by
  induction k generalizing seen value with
  | zero =>
    cases value with
    | ref id =>
      have hpush := unseen_push (hfresh id rfl)
      omega
    | undefined | null | boolean | number | string => exact formats_primitive rfl
  | succ k ih =>
    cases value with
    | ref id =>
      have hpush := unseen_push (hfresh id rfl)
      exact formats_ref fun v hv => ih (by omega) hv
    | undefined | null | boolean | number | string => exact formats_primitive rfl

/-- **Formatting comes to an end.** Without a limit on the depth a call of `formatValue` returns,
whatever is on the stack; of the references that are listed it prints as circular those to objects
on the path, and no others, and it leaves the stack as it was. -/
theorem formatValue_returns (heap : Heap n) (ctx : Ctx) (seen : Seen n) (value : Value n) :
    ∃ str, Prints heap ctx seen value str ∧
      ∀ fuel, n + 1 < fuel → formatValue heap ctx fuel seen value none = some (str, seen) := by
  cases value with
  | ref id =>
    exact formats_ref fun v hv => formats_of_fresh (unseen_le _) hv
  | undefined | null | boolean | number | string => exact formats_primitive rfl

/-- An object that is shared is printed twice; what refers to the object itself is circular. -/
example : formatValue
    (fun id : Fin 2 => match id with
      | 0 => ⟨none, [⟨js "self", true, .data (.ref 0)⟩, ⟨js "a", true, .data (.ref 1)⟩,
          ⟨js "b", true, .data (.ref 1)⟩], by decide, fun l h => by cases h⟩
      | 1 => ⟨none, [⟨js "up", true, .data (.ref 0)⟩], by decide, fun l h => by cases h⟩)
    ⟨false, false⟩ 4 [] (.ref 0) none =
      some (js "\x7b self: [Circular],\n  a: \x7b up: [Circular] \x7d,\n" ++
        js "  b: \x7b up: [Circular] \x7d \x7d", []) := by
  decide

end NodeCore.Inspect
