import NodeCore.HttpInjection

/-!
The headers of `writeHead` and those of `setHeader` in one header block.

An object is put over the headers that have been set, name by name as the names are spelled. For
an array it is the other way round: what the two have in common is sent twice, and the rest of what
has been set is not sent.
-/

namespace NodeCore.HttpMerge

open NodeCore.Encoding NodeCore.HttpOutgoing NodeCore.HttpInjection

/-! ### The claim -/

inductive Call
  | set (name : Str) (value : HeaderValue)
  | remove (name : Str)

/-- What the caller has asked for, a header for each name in lower case. -/
def Call.apply (headers : Headers) : Call → Headers
  | .set name value =>
    headers.filter (fun h => toLowerCase h.1 ≠ toLowerCase name) ++ [(name, value)]
  | .remove name => headers.filter fun h => toLowerCase h.1 ≠ toLowerCase name

def asked (calls : List Call) : Headers := calls.foldl Call.apply []

/-- Some header has been set; it may have been removed again. -/
def touched (calls : List Call) : Bool := calls.any fun
  | .set _ _ => true
  | .remove _ => false

/-- The calls, `none` where one throws. -/
def perform (r : ServerResponse) (calls : List Call) : Option ServerResponse :=
  calls.foldlM (fun r c => match c with
    | .set name value => r.setHeader name value
    | .remove name => r.removeHeader name) r

/-- The values under a name as it is spelled. -/
def under (headers : Headers) (name : Str) : List Str :=
  (headers.filter fun h => h.1 = name).flatMap fun h => h.2.toList

/-- The name is among these, whatever the case. -/
def covers (obj : Headers) (name : Str) : Prop := ∃ h ∈ obj, toLowerCase h.1 = toLowerCase name

instance (obj : Headers) (name : Str) : Decidable (covers obj name) :=
  inferInstanceAs (Decidable (∃ h ∈ obj, _))

/-- The headers that `writeHead` stores after the calls. -/
def sent (r : ServerResponse) (calls : List Call) (obj : HeadersArg) : Option Headers :=
  (perform r calls).bind fun r => r.allHeaders (some obj)

/-- The header block has these headers, and lines of the library. -/
def InBlock (r : ServerResponse) (calls : List Call) (date : Str) (statusCode : ℕ)
    (reasonPhrase : Option Str) (obj : HeadersArg) (headers : Headers) : Prop :=
  ∃ r₁ r₂ framing, perform r calls = some r₁ ∧
    r₁.writeHead date statusCode reasonPhrase (some obj) = some r₂ ∧
    framing.Sublist (framingFields date) ∧
    r₂.header = ServerResponse.statusLine statusCode reasonPhrase ++
      (render (stored headers.fields ++ framing) ++ crlf)

/-- **What is claimed** of the headers that are sent: each of `writeHead`, each of the others that
were set, and no more. -/
def Merged (set obj headers : Headers) : Prop := ∀ name,
  under headers name = under obj name ++ if covers obj name then [] else under set name

/-! ### Conditions -/

/-- The name `__proto__`, whatever the case, which `setHeader` loses. -/
def isProto (name : Str) : Prop := toLowerCase name = js "__proto__"

instance (name : Str) : Decidable (isProto name) := inferInstanceAs (Decidable (_ = _))

/-- What `headers[name]` is found to be among the headers that have been set. -/
def common (set : Headers) (name : Str) : List Str :=
  if set.any (·.1 = name) ∧ ¬ isProto name then under set name
  else ((objectPrototype.lookup name).map fun text => [text]).getD []

/-- **The condition for an object.** -/
structure ObjectOk (set obj : Headers) : Prop where
  /-- The empty name is passed over. -/
  empty : [] ∈ obj.map Prod.fst → under set [] = under obj []
  proto : under obj (js "__proto__") = []
  /-- A name that both have is spelled the same. -/
  spelled : ∀ name, name ∉ obj.map Prod.fst → covers obj name → ¬ isProto name →
    under set name = []
  lost : ∀ name, ¬ covers obj name → isProto name → under set name = []

/-- **The condition for an array.** -/
structure ArrayOk (set obj : Headers) : Prop where
  /-- No name is found among those set, or inherited. -/
  common : ∀ name ∈ obj.map Prod.fst, common set name = []
  /-- All that was set is replaced. -/
  covered : ∀ name, ¬ covers obj name → under set name = []

/-- **The condition for both to give the same.** -/
structure SameOk (set obj : Headers) : Prop where
  common : ∀ name ∈ obj.map Prod.fst, name ≠ [] → HttpMerge.common set name = []
  empty : under obj [] = []
  rest : ∀ name, name ∉ obj.map Prod.fst → ¬ isProto name → under set name = []

/-! ### Names -/

section Under

variable {headers obj : Headers} {name : Str}

@[simp] lemma under_nil : under [] name = [] := rfl

lemma under_cons (h : Str × HeaderValue) :
    under (h :: headers) name = (if h.1 = name then h.2.toList else []) ++ under headers name := by
  rw [under, List.filter_cons]
  split_ifs with hn <;> simp_all [under]

lemma under_append (a b : Headers) : under (a ++ b) name = under a name ++ under b name := by
  rw [under, List.filter_append, List.flatMap_append]
  rfl

lemma under_eq_nil (h : name ∉ headers.map Prod.fst) : under headers name = [] := by
  rw [under, List.filter_eq_nil_iff.mpr, List.flatMap_nil]
  intro x hx
  rw [decide_eq_true_eq]
  rintro rfl
  exact h (List.mem_map_of_mem hx)

lemma under_of_mem {value : HeaderValue} (hnd : (headers.map Prod.fst).Nodup)
    (hmem : (name, value) ∈ headers) : under headers name = value.toList := by
  induction headers with
  | nil => cases hmem
  | cons h headers ih =>
    rw [List.map_cons, List.nodup_cons] at hnd
    rw [under_cons]
    rcases List.mem_cons.mp hmem with rfl | hmem
    · rw [if_pos rfl, under_eq_nil hnd.1, List.append_nil]
    · have hne : h.1 ≠ name := by
        rintro rfl
        exact hnd.1 (List.mem_map.mpr ⟨_, hmem, rfl⟩)
      rw [if_neg hne, List.nil_append, ih hnd.2 hmem]

end Under

/-! ### What has been set -/

/-- Each header once, whatever the case of its name. -/
def Distinct (headers : Headers) : Prop := (headers.map fun h => toLowerCase h.1).Nodup

lemma Distinct.names {headers : Headers} (h : Distinct headers) :
    (headers.map Prod.fst).Nodup := by
  refine List.Nodup.of_map toLowerCase ?_
  rw [List.map_map]
  exact h

/-- `_headers` and `_headerNames` hold what has been asked for. -/
structure Held (l : List (Str × Str × HeaderValue)) (set : Headers) : Prop where
  key : ∀ h ∈ l, h.1 = toLowerCase h.2.1
  keys : (l.map Prod.fst).Nodup
  distinct : Distinct set
  mem : ∀ h, h ∈ l.map Prod.snd ↔ h ∈ set ∧ ¬ isProto h.1

lemma Held.nil : Held [] [] :=
  ⟨fun _ h => (by cases h), List.nodup_nil, List.nodup_nil, fun h => by simp⟩

section Held

variable {l : List (Str × Str × HeaderValue)} {set : Headers}

lemma distinct_filter (h : Distinct set) (p : Str × HeaderValue → Bool) :
    Distinct (set.filter p) :=
  h.sublist (List.filter_sublist.map _)

lemma Distinct.apply (h : Distinct set) (c : Call) : Distinct (c.apply set) := by
  cases c with
  | remove name => exact distinct_filter h _
  | set name value =>
    rw [Call.apply, Distinct, List.map_append, List.nodup_append]
    refine ⟨distinct_filter h _, List.nodup_singleton _, fun a ha b hb => ?_⟩
    obtain ⟨x, hx, rfl⟩ := List.mem_map.mp ha
    rw [List.map_singleton, List.mem_singleton] at hb
    rw [hb]
    exact of_decide_eq_true (List.mem_filter.mp hx).2

lemma Held.names (h : Held l set) : ((l.map Prod.snd).map Prod.fst).Nodup := by
  refine List.Nodup.of_map toLowerCase ?_
  rw [List.map_map, List.map_map]
  have heq : l.map ((toLowerCase ∘ Prod.fst) ∘ Prod.snd) = l.map Prod.fst :=
    List.map_congr_left fun x hx => (h.key x hx).symm
  rw [heq]
  exact h.keys

lemma Held.mem_names (h : Held l set) (name : Str) :
    name ∈ (l.map Prod.snd).map Prod.fst ↔ name ∈ set.map Prod.fst ∧ ¬ isProto name := by
  constructor
  · intro hn
    obtain ⟨x, hx, rfl⟩ := List.mem_map.mp hn
    exact ⟨List.mem_map_of_mem ((h.mem x).mp hx).1, ((h.mem x).mp hx).2⟩
  · rintro ⟨hn, hp⟩
    obtain ⟨x, hx, rfl⟩ := List.mem_map.mp hn
    exact List.mem_map_of_mem ((h.mem x).mpr ⟨hx, hp⟩)

lemma Held.under_eq (h : Held l set) (name : Str) :
    under (l.map Prod.snd) name = if isProto name then [] else under set name := by
  by_cases hn : name ∈ (l.map Prod.snd).map Prod.fst
  · obtain ⟨x, hx, rfl⟩ := List.mem_map.mp hn
    obtain ⟨hset, hp⟩ := (h.mem x).mp hx
    rw [under_of_mem h.names hx, if_neg hp, under_of_mem h.distinct.names hset]
  · rw [under_eq_nil hn]
    rw [h.mem_names, not_and_or, not_not] at hn
    split_ifs with hp
    · rfl
    · rw [under_eq_nil (hn.resolve_right hp)]

lemma Held.remove (h : Held l set) (name : Str) :
    Held (l.filter fun h => h.1 ≠ toLowerCase name) (Call.apply set (.remove name)) := by
  refine ⟨fun x hx => h.key x (List.mem_of_mem_filter hx),
    h.keys.sublist (List.filter_sublist.map _), h.distinct.apply _, fun x => ?_⟩
  have hkey : x ∈ (l.filter fun h => h.1 ≠ toLowerCase name).map Prod.snd ↔
      x ∈ l.map Prod.snd ∧ toLowerCase x.1 ≠ toLowerCase name := by
    simp only [List.mem_map, List.mem_filter, decide_eq_true_eq]
    constructor
    · rintro ⟨y, ⟨hy, hne⟩, rfl⟩
      exact ⟨⟨y, hy, rfl⟩, by rwa [← h.key y hy]⟩
    · rintro ⟨⟨y, hy, rfl⟩, hne⟩
      exact ⟨y, ⟨hy, by rwa [h.key y hy]⟩, rfl⟩
  rw [hkey, h.mem, Call.apply, List.mem_filter, decide_eq_true_eq]
  tauto

variable {name : Str}

/-- `_headers[key] = value` and `_headerNames[key] = name`. -/
lemma Held.put (h : Held l set) (hp : ¬ isProto name) (value : HeaderValue) :
    Held (assign l (toLowerCase name) (name, value)) (Call.apply set (.set name value)) := by
  refine ⟨fun x hx => ?_, nodup_assign h.keys, h.distinct.apply _, fun x => ?_⟩
  · rcases mem_assign.mp hx with rfl | ⟨hx, -⟩
    · rfl
    · exact h.key x hx
  · have hkey : x ∈ (assign l (toLowerCase name) (name, value)).map Prod.snd ↔
        x = (name, value) ∨ (x ∈ l.map Prod.snd ∧ toLowerCase x.1 ≠ toLowerCase name) := by
      simp only [List.mem_map, mem_assign]
      constructor
      · rintro ⟨y, rfl | ⟨hy, hne⟩, rfl⟩
        · exact .inl rfl
        · exact .inr ⟨⟨y, hy, rfl⟩, by rwa [← h.key y hy]⟩
      · rintro (rfl | ⟨⟨y, hy, rfl⟩, hne⟩)
        · exact ⟨_, .inl rfl, rfl⟩
        · exact ⟨y, .inr ⟨hy, by rwa [h.key y hy]⟩, rfl⟩
    rw [hkey, h.mem, Call.apply, List.mem_append, List.mem_singleton, List.mem_filter,
      decide_eq_true_eq]
    constructor
    · rintro (rfl | ⟨⟨hset, hx⟩, hne⟩)
      · exact ⟨.inr rfl, hp⟩
      · exact ⟨.inl ⟨hset, hne⟩, hx⟩
    · rintro ⟨⟨hset, hne⟩ | rfl, hx⟩
      · exact .inr ⟨⟨hset, hx⟩, hne⟩
      · exact .inl rfl

/-- A header `__proto__` is not set, whatever the case. -/
lemma Held.skip (h : Held l set) (hp : isProto name) (value : HeaderValue) :
    Held l (Call.apply set (.set name value)) := by
  refine ⟨h.key, h.keys, h.distinct.apply _, fun x => ?_⟩
  rw [h.mem, Call.apply, List.mem_append, List.mem_singleton, List.mem_filter,
    decide_eq_true_eq]
  constructor
  · rintro ⟨hset, hx⟩
    exact ⟨.inl ⟨hset, fun heq => hx (heq.trans hp)⟩, hx⟩
  · rintro ⟨⟨hset, -⟩ | rfl, hx⟩
    · exact ⟨hset, hx⟩
    · exact absurd hp hx

end Held

lemma isProto_proto : isProto (js "__proto__") := by decide

/-- `_renderHeaders` makes a header of each. -/
lemma foldl_setKey {l : Headers} (hs : Headers) (hp : ∀ h ∈ l, h.1 ≠ js "__proto__")
    (hnd : ((hs ++ l).map Prod.fst).Nodup) :
    l.foldl (fun hs h => setKey hs h.1 h.2) hs = hs ++ l := by
  induction l generalizing hs with
  | nil => exact (List.append_nil hs).symm
  | cons h l ih =>
    obtain ⟨hh, hl⟩ := List.forall_mem_cons.mp hp
    have hfresh : h.1 ∉ hs.map Prod.fst := by
      rw [List.map_append, List.nodup_append] at hnd
      exact fun hx => hnd.2.2 _ hx _ (List.mem_map_of_mem List.mem_cons_self) rfl
    have hset : setKey hs h.1 h.2 = hs ++ [h] := by
      rw [setKey, if_neg hh, assign_of_notMem hfresh]
    rw [List.foldl_cons, hset, ih _ hl (by rwa [List.append_assoc]), List.append_assoc]
    rfl

lemma Held.render {l : List (Str × Str × HeaderValue)} {set : Headers} (h : Held l set) :
    (l.map Prod.snd).foldl (fun hs h => setKey hs h.1 h.2) [] = l.map Prod.snd := by
  refine foldl_setKey [] (fun x hx hproto => ?_) h.names
  exact ((h.mem x).mp hx).2 (hproto ▸ isProto_proto)

/-! ### Calls -/

lemma perform_snoc (r : ServerResponse) (calls : List Call) (c : Call) :
    perform r (calls ++ [c]) = (perform r calls).bind fun r => perform r [c] := by
  rw [perform, List.foldlM_append]
  rfl

/-- No call throws before the headers are sent. -/
lemma perform_held {r : ServerResponse} (hheader : r.header = []) (hnone : r.headers = none)
    (calls : List Call) :
    ∃ headers, perform r calls = some { r with headers } ∧
      Held (headers.getD []) (asked calls) ∧ headers.isSome = touched calls := by
  induction calls using List.reverseRecOn with
  | nil => exact ⟨none, by rw [← hnone]; rfl, Held.nil, rfl⟩
  | append_singleton calls c ih =>
    obtain ⟨headers, hr, hheld, htouched⟩ := ih
    have hasked : asked (calls ++ [c]) = c.apply (asked calls) := by
      rw [asked, List.foldl_append]
      rfl
    rw [perform_snoc, hr, hasked, touched, List.any_append, ← touched, ← htouched]
    cases c with
    | set name value =>
      have hset : perform { r with headers } [.set name value] = some { r with headers := some (
          if isProto name then headers.getD []
          else assign (headers.getD []) (toLowerCase name) (name, value)) } := by
        show Option.bind (ServerResponse.setHeader { r with headers } name value) some = _
        rw [Option.bind_fun_some, ServerResponse.setHeader, if_neg (not_not.mpr hheader)]
        rfl
      refine ⟨_, hset, ?_, (Bool.or_true _).symm⟩
      rw [Option.getD_some]
      split_ifs with hp
      · exact hheld.skip hp value
      · exact hheld.put hp value
    | remove name =>
      have hremove : perform { r with headers } [.remove name] = some { r with
          headers := headers.map (·.filter (·.1 ≠ toLowerCase name)) } := by
        show Option.bind (ServerResponse.removeHeader { r with headers } name) some = _
        rw [Option.bind_fun_some, ServerResponse.removeHeader, if_neg (not_not.mpr hheader)]
      refine ⟨_, hremove, ?_, ?_⟩
      · cases headers with
        | none => exact hheld.remove name
        | some l => exact hheld.remove name
      · rw [Option.isSome_map]
        exact (Bool.or_false _).symm

/-! ### Merging -/

section Merge

variable {hs obj : Headers} {name key : Str} {value : HeaderValue}

lemma nodup_setKey (hnd : (hs.map Prod.fst).Nodup) :
    ((setKey hs key value).map Prod.fst).Nodup := by
  unfold setKey
  split_ifs
  · exact hnd
  · exact nodup_assign hnd

lemma under_setKey (hnd : (hs.map Prod.fst).Nodup) (hp : key ≠ js "__proto__") :
    under (setKey hs key value) name = if name = key then value.toList else under hs name := by
  have hmem (x : Str × HeaderValue) :
      x ∈ setKey hs key value ↔ x = (key, value) ∨ (x ∈ hs ∧ x.1 ≠ key) := by
    rw [setKey, if_neg hp, mem_assign]
  split_ifs with hn
  · rw [hn]
    exact under_of_mem (nodup_setKey hnd) ((hmem _).mpr (.inl rfl))
  · by_cases hin : name ∈ hs.map Prod.fst
    · obtain ⟨x, hx, rfl⟩ := List.mem_map.mp hin
      rw [under_of_mem hnd hx]
      exact under_of_mem (nodup_setKey hnd) ((hmem x).mpr (.inr ⟨hx, hn⟩))
    · rw [under_eq_nil hin, under_eq_nil]
      intro hin'
      obtain ⟨x, hx, rfl⟩ := List.mem_map.mp hin'
      rcases (hmem x).mp hx with rfl | ⟨hx, -⟩
      · exact hn rfl
      · exact hin (List.mem_map_of_mem hx)

/-- One header of an object. -/
lemma under_step (hnd : (hs.map Prod.fst).Nodup) (h : Str × HeaderValue) :
    under (if h.1 = [] then hs else setKey hs h.1 h.2) name =
      if name = h.1 ∧ name ≠ [] ∧ name ≠ js "__proto__" then h.2.toList else under hs name := by
  by_cases hempty : h.1 = []
  · rw [if_pos hempty, if_neg]
    rintro ⟨rfl, hne, -⟩
    exact hne hempty
  · rw [if_neg hempty]
    by_cases hproto : h.1 = js "__proto__"
    · rw [setKey, if_pos hproto, if_neg]
      rintro ⟨rfl, -, hne⟩
      exact hne hproto
    · rw [under_setKey hnd hproto]
      by_cases hn : name = h.1
      · subst hn
        rw [if_pos rfl, if_pos ⟨rfl, hempty, hproto⟩]
      · rw [if_neg hn, if_neg fun hc => hn hc.1]

/-- **An object over what has been set.** -/
lemma under_object (name : Str) (hnd : (hs.map Prod.fst).Nodup)
    (hobj : (obj.map Prod.fst).Nodup) :
    under (mergeHeaders hs (.object obj)) name =
      if name ∈ obj.map Prod.fst ∧ name ≠ [] ∧ name ≠ js "__proto__" then under obj name
      else under hs name := by
  show under (obj.foldl (fun hs h => if h.1 = [] then hs else setKey hs h.1 h.2) hs) name = _
  induction obj generalizing hs with
  | nil => rfl
  | cons h obj ih =>
    rw [List.map_cons, List.nodup_cons] at hobj
    have hnext : ((if h.1 = [] then hs else setKey hs h.1 h.2).map Prod.fst).Nodup := by
      split_ifs
      · exact hnd
      · exact nodup_setKey hnd
    rw [List.foldl_cons, ih hnext hobj.2, under_step hnd, under_cons, List.map_cons]
    by_cases hn : name = h.1
    · subst hn
      simp only [hobj.1, false_and, if_false, true_and, List.mem_cons_self, if_true,
        under_eq_nil hobj.1, List.append_nil]
    · simp only [hn, Ne.symm hn, false_and, if_false, List.mem_cons, false_or, List.nil_append]

/-- What is pushed for each header of an array that is found. -/
lemma under_pushed : under (obj.filterMap fun h => (valueAt hs h.1).map fun v => (h.1, v)) name =
    (obj.filter fun h => h.1 = name).flatMap
      fun _ => ((valueAt hs name).map (·.toList)).getD [] := by
  induction obj with
  | nil => rfl
  | cons h obj ih =>
    rw [List.filterMap_cons, List.filter_cons]
    by_cases hn : h.1 = name
    · subst hn
      cases hvalue : valueAt hs h.1 with
      | none =>
        rw [hvalue] at ih
        simp only [Option.map_none, decide_true, if_true, List.flatMap_cons, ih]
        rfl
      | some v =>
        rw [hvalue] at ih
        simp only [Option.map_some, decide_true, if_true, List.flatMap_cons, under_cons, ih]
        rfl
    · rw [if_neg (by simpa using hn), ← ih]
      cases valueAt hs h.1 with
      | none => rfl
      | some v =>
        rw [Option.map_some]
        dsimp only
        rw [under_cons, if_neg hn, List.nil_append]

/-- **An array over what has been set.** -/
lemma under_array (hs obj : Headers) (name : Str) :
    under (mergeHeaders hs (.array obj)) name = under obj name ++
      (obj.filter fun h => h.1 = name).flatMap
        fun _ => ((valueAt hs name).map (·.toList)).getD [] := by
  rw [← under_pushed]
  exact under_append _ _

end Merge

section Sent

variable {l : List (Str × Str × HeaderValue)} {set obj : Headers}

lemma common_eq (set : Headers) (name : Str) : common set name =
    if name ∈ set.map Prod.fst ∧ ¬ isProto name then under set name
    else ((objectPrototype.lookup name).map fun text => [text]).getD [] := by
  have hany : set.any (·.1 = name) = true ↔ name ∈ set.map Prod.fst := by
    rw [List.any_eq_true, List.mem_map]
    simp only [decide_eq_true_eq]
  unfold common
  simp only [hany]

lemma Held.value (h : Held l set) (name : Str) :
    ((valueAt (l.map Prod.snd) name).map (·.toList)).getD [] = common set name := by
  rw [common_eq]
  unfold valueAt
  cases hfind : (l.map Prod.snd).find? (·.1 = name) with
  | some x =>
    have hx := List.mem_of_find?_eq_some hfind
    have hname := List.find?_some hfind
    obtain rfl : x.1 = name := of_decide_eq_true hname
    rw [if_pos ((h.mem_names _).mp (List.mem_map_of_mem hx)),
      under_of_mem h.distinct.names ((h.mem x).mp hx).1]
    rfl
  | none =>
    rw [if_neg]
    · cases objectPrototype.lookup name <;> rfl
    · rw [← h.mem_names]
      intro hn
      obtain ⟨x, hx, hxn⟩ := List.mem_map.mp hn
      have hno := List.find?_eq_none.mp hfind x hx
      rw [decide_eq_true_eq] at hno
      exact hno hxn

lemma asked_of_untouched {calls : List Call} (h : touched calls = false) : asked calls = [] := by
  induction calls using List.reverseRecOn with
  | nil => rfl
  | append_singleton calls c ih =>
    rw [touched, List.any_append, ← touched, Bool.or_eq_false_iff] at h
    have hasked : asked (calls ++ [c]) = c.apply (asked calls) := by
      rw [asked, List.foldl_append]
      rfl
    rw [hasked, ih h.1]
    cases c with
    | set name value => cases h.2
    | remove name => rfl

/-- Where nothing has been set, the headers are those of `writeHead`. -/
lemma sent_eq {r : ServerResponse} (hheader : r.header = []) (hnone : r.headers = none)
    (calls : List Call) :
    ∃ l, Held l (asked calls) ∧ ∀ obj, sent r calls obj = some (
      if touched calls then mergeHeaders (l.map Prod.snd) obj else obj.toHeaders) := by
  obtain ⟨headers, hr, hheld, htouched⟩ := perform_held hheader hnone calls
  refine ⟨_, hheld, fun obj => ?_⟩
  rw [sent, hr, Option.bind_some, ← htouched]
  unfold ServerResponse.allHeaders
  cases headers with
  | none => rfl
  | some l =>
    dsimp only
    rw [ServerResponse.renderHeaders, if_neg (not_not.mpr hheader), Option.getD_some]
    rw [Option.getD_some] at hheld
    rw [Option.map_some, hheld.render]
    rfl

lemma inBlock {r : ServerResponse} {calls : List Call} {obj : HeadersArg} {headers : Headers}
    (h : sent r calls obj = some headers) (date : Str) (statusCode : ℕ)
    (reasonPhrase : Option Str) : InBlock r calls date statusCode reasonPhrase obj headers := by
  obtain ⟨r₁, hr₁, hall⟩ := Option.bind_eq_some_iff.mp h
  set m : Message := { r₁.toMessage with
    statusCode := some statusCode
    hasBody := r₁.hasBody && !ServerResponse.noBody statusCode
    shouldKeepAlive := r₁.shouldKeepAlive && !(r₁.expectContinue && !r₁.sent100) } with hm
  obtain ⟨framing, hsub, hheader⟩ := header_storeHeader m
    (ServerResponse.statusLine statusCode reasonPhrase) headers date
  set m' := m.storeHeader (ServerResponse.statusLine statusCode reasonPhrase) headers date
  refine ⟨r₁, { r₁ with toMessage := m' }, framing, hr₁, ?_, hsub, hheader⟩
  rw [ServerResponse.writeHead, hall]
  rfl

/-! ### Both forms -/

lemma covers_of_mem {name : Str} (h : name ∈ obj.map Prod.fst) : covers obj name := by
  obtain ⟨x, hx, rfl⟩ := List.mem_map.mp h
  exact ⟨x, hx, rfl⟩

lemma merged_untouched : Merged [] obj obj := by
  intro name
  split_ifs <;> simp

lemma not_proto_empty : ¬ isProto [] := by decide

lemma merged_object (h : Held l set) (hobj : (obj.map Prod.fst).Nodup) :
    Merged set obj (mergeHeaders (l.map Prod.snd) (.object obj)) ↔ ObjectOk set obj := by
  have hunder (name : Str) := under_object name h.names hobj
  simp only [h.under_eq] at hunder
  constructor
  · intro hm
    refine ⟨fun hin => ?_, ?_, fun name hin hc hp => ?_, fun name hc hp => ?_⟩
    · have hname := hm []
      rwa [hunder, if_neg (by simp), if_neg not_proto_empty, if_pos (covers_of_mem hin),
        List.append_nil] at hname
    · have hname := hm (js "__proto__")
      rw [hunder, if_neg (by simp), if_pos isProto_proto] at hname
      exact (List.append_eq_nil_iff.mp hname.symm).1
    · have hname := hm name
      rwa [hunder, if_neg (fun hh => hin hh.1), if_neg hp, if_pos hc, under_eq_nil hin,
        List.append_nil] at hname
    · have hname := hm name
      have hin : name ∉ obj.map Prod.fst := fun hin => hc (covers_of_mem hin)
      rw [hunder, if_neg (fun hh => hin hh.1), if_pos hp, if_neg hc] at hname
      exact (List.append_eq_nil_iff.mp hname.symm).2
  · intro hok name
    rw [hunder]
    by_cases hin : name ∈ obj.map Prod.fst
    · rw [if_pos (covers_of_mem hin), List.append_nil]
      rcases eq_or_ne name [] with rfl | hne
      · rw [if_neg (by simp), if_neg not_proto_empty]
        exact hok.empty hin
      · rcases eq_or_ne name (js "__proto__") with rfl | hne'
        · rw [if_neg (by simp), if_pos isProto_proto, hok.proto]
        · rw [if_pos ⟨hin, hne, hne'⟩]
    · rw [if_neg (fun hh => hin hh.1), under_eq_nil hin, List.nil_append]
      by_cases hc : covers obj name
      · rw [if_pos hc]
        split_ifs with hp
        · rfl
        · exact hok.spelled name hin hc hp
      · rw [if_neg hc]
        split_ifs with hp
        · exact (hok.lost name hc hp).symm
        · rfl

/-- Nothing is pushed under a name. -/
lemma pushed_eq_nil {name : Str} {values : List Str} :
    (obj.filter fun h => h.1 = name).flatMap (fun _ => values) = [] ↔
      (name ∈ obj.map Prod.fst → values = []) := by
  rw [List.flatMap_eq_nil_iff]
  constructor
  · intro hall hin
    obtain ⟨x, hx, rfl⟩ := List.mem_map.mp hin
    exact hall x (List.mem_filter.mpr ⟨hx, decide_eq_true rfl⟩)
  · intro hv x hx
    obtain ⟨hx, hn⟩ := List.mem_filter.mp hx
    exact hv (of_decide_eq_true hn ▸ List.mem_map_of_mem hx)

lemma pushed_eq {name : Str} (values : List Str) (hobj : (obj.map Prod.fst).Nodup)
    (hin : name ∈ obj.map Prod.fst) :
    (obj.filter fun h => h.1 = name).flatMap (fun _ => values) = values := by
  induction obj with
  | nil => cases hin
  | cons h obj ih =>
    rw [List.map_cons, List.nodup_cons] at hobj
    rw [List.filter_cons]
    rcases List.mem_cons.mp hin with rfl | hin
    · rw [if_pos (decide_eq_true rfl), List.flatMap_cons,
        pushed_eq_nil.mpr fun hin' => absurd hin' hobj.1, List.append_nil]
    · rw [if_neg, ih hobj.2 hin]
      rw [decide_eq_true_eq]
      rintro rfl
      exact hobj.1 hin

lemma merged_array (h : Held l set) :
    Merged set obj (mergeHeaders (l.map Prod.snd) (.array obj)) ↔ ArrayOk set obj := by
  have hunder (name : Str) := under_array (l.map Prod.snd) obj name
  simp only [h.value] at hunder
  constructor
  · intro hm
    refine ⟨fun name hin => ?_, fun name hc => ?_⟩
    · have hname := hm name
      rw [hunder, if_pos (covers_of_mem hin)] at hname
      exact pushed_eq_nil.mp (List.append_cancel_left hname) hin
    · have hname := hm name
      have hin : name ∉ obj.map Prod.fst := fun hin => hc (covers_of_mem hin)
      rw [hunder, if_neg hc, pushed_eq_nil.mpr fun hin' => absurd hin' hin] at hname
      exact (List.append_cancel_left hname).symm
  · intro hok name
    rw [hunder, pushed_eq_nil.mpr (hok.common name)]
    split_ifs with hc
    · rfl
    · rw [hok.covered name hc]

lemma common_empty (set : Headers) : common set [] = under set [] := by
  rw [common_eq]
  split_ifs with hin
  · rfl
  · rw [under_eq_nil fun hmem => hin ⟨hmem, not_proto_empty⟩]
    decide

lemma common_proto (set : Headers) : common set (js "__proto__") ≠ [] := by
  rw [common_eq, if_neg fun hin => hin.2 isProto_proto]
  decide

lemma same_iff (h : Held l set) (hobj : (obj.map Prod.fst).Nodup) :
    (∀ name, under (mergeHeaders (l.map Prod.snd) (.object obj)) name =
      under (mergeHeaders (l.map Prod.snd) (.array obj)) name) ↔ SameOk set obj := by
  have harray (name : Str) := under_array (l.map Prod.snd) obj name
  have hobject (name : Str) := under_object name h.names hobj
  simp only [h.value] at harray
  simp only [h.under_eq] at hobject
  constructor
  · intro hs
    refine ⟨fun name hin hne => ?_, ?_, fun name hin hp => ?_⟩
    · have hname := hs name
      rw [hobject, harray] at hname
      refine pushed_eq_nil.mp ?_ hin
      by_cases hproto : name = js "__proto__"
      · rw [if_neg fun hh => hh.2.2 hproto, if_pos (hproto ▸ isProto_proto)] at hname
        exact (List.append_eq_nil_iff.mp hname.symm).2
      · rw [if_pos ⟨hin, hne, hproto⟩] at hname
        exact List.append_cancel_left (hname.symm.trans (List.append_nil _).symm)
    · by_cases hin : [] ∈ obj.map Prod.fst
      · have hname := hs []
        rw [hobject, harray, if_neg (by simp), if_neg not_proto_empty, pushed_eq _ hobj hin,
          common_empty] at hname
        exact List.append_cancel_right (hname.symm.trans (List.nil_append _).symm)
      · exact under_eq_nil hin
    · have hname := hs name
      rwa [hobject, harray, if_neg fun hh => hin hh.1, if_neg hp, under_eq_nil hin,
        pushed_eq_nil.mpr fun hin' => absurd hin' hin] at hname
  · intro hok name
    rw [hobject, harray]
    by_cases hin : name ∈ obj.map Prod.fst
    · rcases eq_or_ne name [] with rfl | hne
      · rw [if_neg (by simp), if_neg not_proto_empty, pushed_eq _ hobj hin, common_empty,
          hok.empty, List.nil_append]
      · have hcommon := hok.common name hin hne
        have hproto : name ≠ js "__proto__" := by
          rintro rfl
          exact common_proto set hcommon
        rw [if_pos ⟨hin, hne, hproto⟩, pushed_eq_nil.mpr fun _ => hcommon, List.append_nil]
    · rw [if_neg fun hh => hin hh.1, under_eq_nil hin,
        pushed_eq_nil.mpr fun hin' => absurd hin' hin]
      split_ifs with hp
      · rfl
      · exact hok.rest name hin hp

end Sent

/-- **When the headers are merged as claimed.** -/
theorem merged_iff {r : ServerResponse} (hheader : r.header = []) (hnone : r.headers = none)
    (calls : List Call) (date : Str) (statusCode : ℕ) (reasonPhrase : Option Str)
    (obj : Headers) :
    ∃ viaObject viaArray,
      (sent r calls (.object obj) = some viaObject ∧
        InBlock r calls date statusCode reasonPhrase (.object obj) viaObject) ∧
      (sent r calls (.array obj) = some viaArray ∧
        InBlock r calls date statusCode reasonPhrase (.array obj) viaArray) ∧
      (Merged (asked calls) obj viaArray ↔ (touched calls → ArrayOk (asked calls) obj)) ∧
      -- no key of an object is there twice
      ((obj.map Prod.fst).Nodup →
        (Merged (asked calls) obj viaObject ↔ (touched calls → ObjectOk (asked calls) obj)) ∧
        ((∀ name, under viaObject name = under viaArray name) ↔
          (touched calls → SameOk (asked calls) obj))) := by
  obtain ⟨l, hheld, hsent⟩ := sent_eq hheader hnone calls
  refine ⟨_, _, ⟨hsent _, inBlock (hsent _) _ _ _⟩, ⟨hsent _, inBlock (hsent _) _ _ _⟩, ?_⟩
  by_cases htouched : touched calls = true
  · simp only [htouched, if_true, forall_const]
    exact ⟨merged_array hheld, fun hobj => ⟨merged_object hheld hobj, same_iff hheld hobj⟩⟩
  · simp only [htouched, if_false, false_imp_iff, iff_true, Bool.false_eq_true]
    rw [asked_of_untouched (Bool.eq_false_of_not_eq_true htouched)]
    exact ⟨merged_untouched, fun _ => ⟨merged_untouched, fun _ => rfl⟩⟩

/-- An object and an array that replace the one header that has been set. -/
theorem merged_iff_replaced : ∃ viaObject,
    sent (.new ⟨js "GET", 1, 1, none⟩) [.set (js "A") (.one (js "1"))]
      (.object [(js "A", .one (js "2"))]) = some viaObject ∧
    Merged [(js "A", .one (js "1"))] [(js "A", .one (js "2"))] viaObject := by
  obtain ⟨viaObject, _, hobject, -, -, hboth⟩ := merged_iff
    (r := .new ⟨js "GET", 1, 1, none⟩) rfl rfl [.set (js "A") (.one (js "1"))] (js "now") 200 none
    [(js "A", .one (js "2"))]
  refine ⟨viaObject, hobject.1, ((hboth (List.nodup_singleton _)).1).mpr fun _ => ?_⟩
  refine ⟨by decide, by decide, fun name hin _ _ => under_eq_nil hin, fun name hc _ => ?_⟩
  have hcover (hin : name ∈ [js "A"]) : covers [(js "A", .one (js "2"))] name := covers_of_mem hin
  exact under_eq_nil fun hin => hc (hcover hin)

/-- An array next to another header: what has been set is not sent. -/
theorem array_drops : ¬ ∀ (calls : List Call) (obj headers : Headers),
    sent (.new ⟨js "GET", 1, 1, none⟩) calls (.array obj) = some headers →
      Merged (asked calls) obj headers := by
  intro h
  have hname := h [.set (js "A") (.one (js "1"))] [(js "B", .one (js "2"))]
    [(js "B", .one (js "2"))] (by decide) (js "A")
  revert hname
  decide

end NodeCore.HttpMerge
