import Mathlib.Algebra.Ring.Nat
import NodeCore.Url

/-!
The pieces that `url.parse` cuts a URL into, and what can be said of each.
-/

namespace NodeCore.UrlParse

open Encoding Uri

/-! ### Lists -/

lemma mem_takeWhile {p : UInt16 → Bool} {s : Str} {c : UInt16} (h : c ∈ s.takeWhile p) :
    p c = true :=
  List.mem_takeWhile_imp h

lemma head_dropWhile {p : UInt16 → Bool} {s : Str} {c : UInt16}
    (h : (s.dropWhile p).head? = some c) :
    p c = false := by
  cases hs : s.dropWhile p with
  | nil => simp [hs] at h
  | cons d r =>
    rw [hs] at h
    obtain rfl := Option.some.inj h
    have := List.head?_dropWhile_not p s
    rw [hs] at this
    simpa using this

lemma takeWhile_stop {p : UInt16 → Bool} {x y : Str} (hx : ∀ c ∈ x, p c = true)
    (hy : ∀ c, y.head? = some c → p c = false) : (x ++ y).takeWhile p = x := by
  rw [List.takeWhile_append_of_pos hx]
  cases y with
  | nil => simp
  | cons c y => rw [List.takeWhile_cons_of_neg (by simp [hy c rfl]), List.append_nil]

lemma dropWhile_stop {p : UInt16 → Bool} {x y : Str} (hx : ∀ c ∈ x, p c = true)
    (hy : ∀ c, y.head? = some c → p c = false) : (x ++ y).dropWhile p = y := by
  rw [List.dropWhile_append_of_pos hx]
  cases y with
  | nil => simp
  | cons c y => rw [List.dropWhile_cons_of_neg (by simp [hy c rfl])]

/-! ### ASCII -/

/-- What holds of the 128 units holds of each. -/
lemma ascii_all {P : UInt16 → Prop} (h : ∀ n < 128, P (UInt16.ofNat n)) {c : UInt16}
    (hc : c < 128) :
    P c := by
  have hn := h c.toNat (UInt16.lt_iff_toNat_lt.mp hc)
  rwa [UInt16.ofNat_toNat] at hn

lemma isHostnameChar_lt {c : UInt16} (h : isHostnameChar c = true) : c < 128 := by
  have hjs : js "_-" = [95, 45] := by decide
  simp only [isHostnameChar, isLetter, isDigit, hjs, Bool.or_eq_true, decide_eq_true_eq,
    List.mem_cons, List.not_mem_nil, or_false, UInt16.le_iff_toNat_le, UInt16.reduceToNat] at h
  rw [UInt16.lt_iff_toNat_lt, show (128 : UInt16).toNat = 128 from rfl]
  obtain (h | h) | rfl | rfl := h
  · omega
  · omega
  all_goals decide

/-! ### White space -/

/-- Neither end is white space. -/
structure Trimmed (s : Str) : Prop where
  head : ∀ c, s.head? = some c → isSpace c = false
  last : ∀ c, s.getLast? = some c → isSpace c = false

lemma last_rdropWhile (s : Str) (c : UInt16) (h : (s.rdropWhile isSpace).getLast? = some c) :
    isSpace c = false := by
  rw [List.rdropWhile, List.getLast?_reverse] at h
  exact head_dropWhile h

lemma head_rdropWhile {s : Str} (h : ∀ c, s.head? = some c → isSpace c = false) :
    (s.rdropWhile isSpace).head? = s.head? := by
  cases s with
  | nil => rfl
  | cons c s =>
    have hc := h c rfl
    obtain ⟨w, hw⟩ := List.rdropWhile_prefix isSpace (l := c :: s)
    cases hr : (c :: s).rdropWhile isSpace with
    | nil =>
      have hall := List.rdropWhile_eq_nil_iff.mp hr c (List.mem_cons_self)
      cases hc.symm.trans hall
    | cons d r =>
      rw [hr] at hw
      rw [← hw]
      rfl

lemma trimmed_trim (s : Str) : Trimmed (trim s) := by
  have hhead : ∀ c, (s.dropWhile isSpace).head? = some c → isSpace c = false :=
    fun c => head_dropWhile
  refine ⟨fun c hc => hhead c ?_, fun c => last_rdropWhile _ c⟩
  rwa [trim, head_rdropWhile hhead] at hc

lemma dropWhile_of_head {s : Str} (h : ∀ c, s.head? = some c → isSpace c = false) :
    s.dropWhile isSpace = s := by
  cases s with
  | nil => rfl
  | cons c s => rw [List.dropWhile_cons_of_neg (by simp [h c rfl])]

lemma trim_of_head {s : Str} (h : ∀ c, s.head? = some c → isSpace c = false) :
    trim s = s.rdropWhile isSpace := by
  rw [trim, dropWhile_of_head h]

lemma rdropWhile_of_last {s : Str} (h : ∀ c, s.getLast? = some c → isSpace c = false) :
    s.rdropWhile isSpace = s := by
  rw [List.rdropWhile, dropWhile_of_head (by simpa using h), List.reverse_reverse]

lemma Trimmed.trim_eq {s : Str} (h : Trimmed s) : trim s = s := by
  rw [trim_of_head h.head, rdropWhile_of_last h.last]

/-! ### The protocol -/

lemma protocolPattern_eq_some {s p r : Str} (h : protocolPattern s = some (p, r)) :
    ∃ n, n ≠ [] ∧ (∀ c ∈ n, isProtocolChar c = true) ∧ p = n ++ [58] ∧ s = p ++ r := by
  unfold protocolPattern at h
  split at h
  next rest hdrop =>
    split_ifs at h with hn
    obtain ⟨rfl, rfl⟩ := Prod.mk.inj (Option.some.inj h)
    refine ⟨_, hn, fun c hc => mem_takeWhile hc, rfl, ?_⟩
    rw [List.append_assoc, List.singleton_append, ← hdrop, List.takeWhile_append_dropWhile]
  next => cases h

lemma protocolPattern_append {n : Str} (hn : n ≠ []) (hchars : ∀ c ∈ n, isProtocolChar c = true)
    (r : Str) : protocolPattern (n ++ [58] ++ r) = some (n ++ [58], r) := by
  have hstop : ∀ c, (58 :: r : Str).head? = some c → isProtocolChar c = false := by
    rintro c ⟨⟩
    rfl
  rw [List.append_assoc, List.singleton_append]
  simp only [protocolPattern, takeWhile_stop hchars hstop, dropWhile_stop hchars hstop]
  rw [if_neg hn]

lemma protocolPattern_slashes (r : Str) : protocolPattern (47 :: r) = none := rfl

lemma isProtocolChar_lt {c : UInt16} (h : isProtocolChar c = true) : c < 128 := by
  have hjs : js ".+-" = [46, 43, 45] := by decide
  simp only [isProtocolChar, isLetter, isDigit, hjs, Bool.or_eq_true, decide_eq_true_eq,
    List.mem_cons, List.not_mem_nil, or_false, UInt16.le_iff_toNat_le, UInt16.reduceToNat] at h
  rw [UInt16.lt_iff_toNat_lt, show (128 : UInt16).toNat = 128 from rfl]
  obtain (h | h) | rfl | rfl | rfl := h
  · omega
  · omega
  all_goals decide

/-! ### Escapes -/

/-- What `escapeRest` makes of a unit. -/
def escapeUnit (c : UInt16) : Str := if c ∈ autoEscape then escaped c.toUInt8 else [c]

lemma escapeOf_eq : ∀ c ∈ autoEscape, escapeOf c = escaped c.toUInt8 := by decide

lemma not_autoEscape_escaped : ∀ c ∈ autoEscape, ∀ d ∈ escaped c.toUInt8, d ∉ autoEscape := by
  decide

/-- The units that were replaced do not come back, so that one pass does for all. -/
lemma foldl_replaceAll (l : List UInt16) (hl : ∀ c ∈ l, c ∈ autoEscape) (s : Str) :
    l.foldl (fun rest ae => replaceAll ae (escapeOf ae) rest) s =
      s.flatMap fun c => if c ∈ l then escaped c.toUInt8 else [c] := by
  induction l generalizing s with
  | nil => simp
  | cons ae l ih =>
    have hae := hl ae List.mem_cons_self
    have hrest : ∀ c ∈ l, c ∈ autoEscape := fun c hc => hl c (List.mem_cons_of_mem _ hc)
    rw [List.foldl_cons, ih hrest, replaceAll, List.flatMap_assoc, escapeOf_eq ae hae]
    refine List.flatMap_congr fun c _ => ?_
    by_cases hc : c = ae
    · subst hc
      have hkept : ∀ d ∈ escaped c.toUInt8, (if d ∈ l then escaped d.toUInt8 else [d]) = [d] :=
        fun d hd => if_neg fun hm => not_autoEscape_escaped c hae d hd (hrest d hm)
      rw [if_pos rfl, if_pos List.mem_cons_self, List.flatMap_congr hkept, List.flatMap_singleton']
    · rw [if_neg hc, List.flatMap_singleton]
      simp [hc]

lemma escapeRest_eq (s : Str) : escapeRest s = s.flatMap escapeUnit :=
  foldl_replaceAll autoEscape (fun _ hc => hc) s

lemma escapeRest_nil : escapeRest [] = [] := by rw [escapeRest_eq, List.flatMap_nil]

lemma escapeRest_append (s t : Str) : escapeRest (s ++ t) = escapeRest s ++ escapeRest t := by
  simp only [escapeRest_eq, List.flatMap_append]

lemma escapeRest_cons (c : UInt16) (s : Str) :
    escapeRest (c :: s) = escapeUnit c ++ escapeRest s := by
  simp only [escapeRest_eq, List.flatMap_cons]

lemma escapeRest_of_clean {s : Str} (h : ∀ c ∈ s, c ∉ autoEscape) : escapeRest s = s := by
  have hunit : ∀ c ∈ s, escapeUnit c = [c] := fun c hc => if_neg (h c hc)
  rw [escapeRest_eq, List.flatMap_congr hunit, List.flatMap_singleton']

lemma not_autoEscape_of_mem_escapeRest {s : Str} {c : UInt16} (h : c ∈ escapeRest s) :
    c ∉ autoEscape := by
  rw [escapeRest_eq] at h
  obtain ⟨d, -, hc⟩ := List.mem_flatMap.mp h
  unfold escapeUnit at hc
  split_ifs at hc with hd
  · exact not_autoEscape_escaped d hd c hc
  · rwa [List.mem_singleton.mp hc]

lemma escapeRest_escapeRest (s : Str) : escapeRest (escapeRest s) = escapeRest s :=
  escapeRest_of_clean fun _ hc => not_autoEscape_of_mem_escapeRest hc

/-- Escaping commutes with cutting at units that it neither takes nor makes. -/
lemma escapeRest_takeWhile {p : UInt16 → Bool}
    (hp : ∀ c ∈ autoEscape, p c = true ∧ ∀ d ∈ escaped c.toUInt8, p d = true) (s : Str) :
    (escapeRest s).takeWhile p = escapeRest (s.takeWhile p) ∧
      (escapeRest s).dropWhile p = escapeRest (s.dropWhile p) := by
  simp only [escapeRest_eq]
  induction s with
  | nil => exact ⟨rfl, rfl⟩
  | cons c s ih =>
    have hunit : p c = true → ∀ d ∈ escapeUnit c, p d = true := by
      intro h d hd
      unfold escapeUnit at hd
      split_ifs at hd with hc
      · exact (hp c hc).2 d hd
      · rwa [List.mem_singleton.mp hd]
    rw [List.flatMap_cons]
    by_cases h : p c = true
    · rw [List.takeWhile_append_of_pos (hunit h), List.dropWhile_append_of_pos (hunit h),
        List.takeWhile_cons_of_pos h, List.dropWhile_cons_of_pos h, List.flatMap_cons, ih.1]
      exact ⟨rfl, ih.2⟩
    · have hc : escapeUnit c = [c] := if_neg fun hm => h (hp c hm).1
      rw [hc, List.singleton_append, List.takeWhile_cons_of_neg h, List.dropWhile_cons_of_neg h,
        List.takeWhile_cons_of_neg h, List.dropWhile_cons_of_neg h, List.flatMap_cons, hc]
      exact ⟨rfl, rfl⟩

lemma startsWithSlashes_iff {s : Str} : startsWithSlashes s = true ↔ ∃ y, s = 47 :: 47 :: y := by
  constructor
  · intro h
    have htake := of_decide_eq_true h
    have hs := List.take_append_drop 2 s
    rw [htake] at hs
    exact ⟨_, hs.symm⟩
  · rintro ⟨y, rfl⟩
    rfl

/-- A unit that is not the start of an escape was there. -/
lemma escapeRest_eq_cons {x y : Str} {c : UInt16} (h : escapeRest x = c :: y) (hc : c ≠ 37) :
    ∃ z, x = c :: z ∧ escapeRest z = y := by
  cases x with
  | nil =>
    rw [escapeRest_nil] at h
    cases h
  | cons d z =>
    rw [escapeRest_cons, escapeUnit] at h
    split_ifs at h with hd
    · rw [escaped, List.cons_append] at h
      exact absurd (List.cons.inj h).1.symm hc
    · rw [List.singleton_append] at h
      obtain ⟨rfl, hz⟩ := List.cons.inj h
      exact ⟨z, rfl, hz⟩

lemma escapeRest_cons_slash (s : Str) : escapeRest (47 :: s) = 47 :: escapeRest s := by
  rw [escapeRest_cons, escapeUnit, if_neg (by decide), List.singleton_append]

lemma startsWithSlashes_escapeRest (s : Str) :
    startsWithSlashes (escapeRest s) = startsWithSlashes s := by
  rw [Bool.eq_iff_iff, startsWithSlashes_iff, startsWithSlashes_iff]
  constructor
  · rintro ⟨y, h⟩
    obtain ⟨z, rfl, hz⟩ := escapeRest_eq_cons h (by decide)
    obtain ⟨z, rfl, -⟩ := escapeRest_eq_cons hz (by decide)
    exact ⟨z, rfl⟩
  · rintro ⟨y, rfl⟩
    exact ⟨escapeRest y, by rw [escapeRest_cons_slash, escapeRest_cons_slash]⟩

lemma startsWithSlashes_trimmed {s : Str} (h : startsWithSlashes s = false) :
    startsWithSlashes (s.rdropWhile isSpace) = false := by
  refine Bool.eq_false_iff.mpr fun hs => ?_
  obtain ⟨y, hy⟩ := startsWithSlashes_iff.mp hs
  obtain ⟨w, hw⟩ := List.rdropWhile_prefix isSpace s
  rw [hy] at hw
  cases h.symm.trans (startsWithSlashes_iff.mpr ⟨y ++ w, hw.symm⟩)

/-- Escaping takes white space away from an end, and puts none there. -/
lemma last_escapeRest {s : Str} (h : ∀ c, s.getLast? = some c → isSpace c = false) :
    ∀ c, (escapeRest s).getLast? = some c → isSpace c = false := by
  have hall : ∀ c ∈ autoEscape, ∀ d ∈ escaped c.toUInt8, isSpace d = false := by decide
  obtain rfl | ⟨x, d, rfl⟩ := List.eq_nil_or_concat s
  · rw [escapeRest_nil]
    exact nofun
  · intro c hc
    have hunit : escapeUnit d ≠ [] := by
      unfold escapeUnit escaped
      split_ifs <;> exact List.cons_ne_nil _ _
    rw [List.concat_eq_append] at hc h
    rw [escapeRest_append, escapeRest_cons, escapeRest_nil, List.append_nil,
      List.getLast?_append_of_ne_nil _ hunit] at hc
    have hm := List.mem_of_getLast? hc
    unfold escapeUnit at hm
    split_ifs at hm with hd
    · exact hall d hd c hm
    · rw [List.mem_singleton.mp hm]
      exact h d List.getLast?_concat

lemma escapeRest_eq_append {x n y : Str} (hn : ∀ c ∈ n, c ≠ 37) (h : escapeRest x = n ++ y) :
    ∃ z, x = n ++ z ∧ escapeRest z = y := by
  induction n generalizing x with
  | nil => exact ⟨x, rfl, h⟩
  | cons c n ih =>
    obtain ⟨z, rfl, hz⟩ := escapeRest_eq_cons h (hn c List.mem_cons_self)
    obtain ⟨w, rfl, hw⟩ := ih (fun d hd => hn d (List.mem_cons_of_mem _ hd)) hz
    exact ⟨w, rfl, hw⟩

/-- Escaping makes no protocol. -/
lemma protocolPattern_escapeRest {x : Str} (h : protocolPattern x = none) :
    protocolPattern (escapeRest x) = none := by
  cases hp : protocolPattern (escapeRest x) with
  | none => rfl
  | some p =>
    obtain ⟨n, hne, hchars, hn, hs⟩ := protocolPattern_eq_some (hp : _ = some (p.1, p.2))
    rw [hn] at hs
    have hplain : ∀ c ∈ n ++ [58], c ≠ 37 := by
      intro c hc he
      subst he
      obtain hc | hc := List.mem_append.mp hc
      · cases hchars 37 hc
      · cases List.mem_singleton.mp hc
    obtain ⟨z, rfl, -⟩ := escapeRest_eq_append hplain hs
    cases h.symm.trans (protocolPattern_append hne hchars z)

lemma head_escapeRest {x : Str} (h : ∀ c, x.head? = some c → isSpace c = false) :
    ∀ c, (escapeRest x).head? = some c → isSpace c = false := by
  intro c hc
  cases x with
  | nil =>
    rw [escapeRest_nil] at hc
    cases hc
  | cons d x =>
    rw [escapeRest_cons, escapeUnit] at hc
    split_ifs at hc
    · rw [escaped, List.cons_append, List.head?_cons] at hc
      obtain rfl := Option.some.inj hc
      decide
    · rw [List.singleton_append, List.head?_cons] at hc
      exact h c hc

lemma trimmed_escapeRest {x : Str} (h : Trimmed x) : Trimmed (escapeRest x) :=
  ⟨head_escapeRest h.head, last_escapeRest h.last⟩

/-! ### User and host -/

/-- User characters, and behind them an `@` with another. -/
def AtHost (s : Str) : Prop :=
  ∃ c y, s.dropWhile isUserChar = 64 :: c :: y ∧ isUserChar c = true

lemma userAtHost_iff {s : Str} :
    userAtHost (47 :: 47 :: s) = true ↔ s.takeWhile isUserChar ≠ [] ∧ AtHost s := by
  simp only [userAtHost]
  constructor
  · intro h
    split at h
    next c y hcut =>
      obtain ⟨hne, hc⟩ := of_decide_eq_true h
      exact ⟨hne, c, y, hcut, hc⟩
    next => cases h
  · rintro ⟨hne, c, y, hcut, hc⟩
    rw [hcut]
    exact decide_eq_true ⟨hne, hc⟩

lemma userAtHost_append {x s : Str} (hx : ∀ c ∈ x, isUserChar c = true) (hne : x ≠ []) :
    userAtHost (47 :: 47 :: (x ++ s)) = true ↔ AtHost s := by
  rw [userAtHost_iff, List.takeWhile_append_of_pos hx, AtHost, List.dropWhile_append_of_pos hx]
  exact and_iff_right (List.append_ne_nil_of_left_ne_nil hne _)

lemma isUserChar_escaped : ∀ c ∈ autoEscape, isUserChar c = true ∧
    ∀ d ∈ escaped c.toUInt8, isUserChar d = true := by decide

lemma atHost_escapeRest {s : Str} : AtHost (escapeRest s) ↔ AtHost s := by
  unfold AtHost
  rw [(escapeRest_takeWhile isUserChar_escaped s).2]
  constructor
  · rintro ⟨c, y, hcut, hc⟩
    obtain ⟨z, hz, hrest⟩ := escapeRest_eq_cons hcut (by decide)
    cases z with
    | nil =>
      rw [escapeRest_nil] at hrest
      cases hrest
    | cons d z =>
      refine ⟨d, z, hz, ?_⟩
      by_cases hd : d ∈ autoEscape
      · exact (isUserChar_escaped d hd).1
      · rw [escapeRest_cons, escapeUnit, if_neg hd, List.singleton_append] at hrest
        obtain ⟨rfl, -⟩ := List.cons.inj hrest
        exact hc
  · rintro ⟨c, y, hcut, hc⟩
    rw [hcut, escapeRest_cons, escapeRest_cons, escapeUnit, if_neg (by decide),
      List.singleton_append, escapeUnit]
    split_ifs with hd
    · exact ⟨37, _, rfl, by decide⟩
    · exact ⟨c, _, rfl, hc⟩

lemma userAtHost_escapeRest {x : Str} (h : userAtHost (escapeRest x) = true) :
    userAtHost x = true := by
  have hstart : startsWithSlashes (escapeRest x) = true := by
    unfold userAtHost at h
    split at h
    next rest hx =>
      rw [hx]
      rfl
    next => cases h
  rw [startsWithSlashes_escapeRest] at hstart
  obtain ⟨w, rfl⟩ := startsWithSlashes_iff.mp hstart
  rw [escapeRest_cons_slash, escapeRest_cons_slash, userAtHost_iff,
    (escapeRest_takeWhile isUserChar_escaped w).1, atHost_escapeRest] at h
  refine userAtHost_iff.mpr ⟨fun hnil => h.1 ?_, h.2⟩
  rw [hnil, escapeRest_nil]

/-! ### The authority -/

lemma cutLastAt_of_not_mem {s : Str} (h : 64 ∉ s) : cutLastAt s = none := by
  induction s with
  | nil => rfl
  | cons c s ih =>
    obtain ⟨hc, hs⟩ := not_or.mp (mt List.mem_cons.mpr h)
    rw [cutLastAt, ih hs]
    exact if_neg (Ne.symm hc)

lemma cutLastAt_append {x y : Str} (h : 64 ∉ y) : cutLastAt (x ++ 64 :: y) = some (x, y) := by
  induction x with
  | nil => rw [List.nil_append, cutLastAt, cutLastAt_of_not_mem h, if_pos rfl]
  | cons c x ih => rw [List.cons_append, cutLastAt, ih]

/-- The last `@` splits the text, or there is none. -/
lemma cutLastAt_cases (s : Str) :
    (cutLastAt s = none ∧ 64 ∉ s) ∨
      ∃ x y, cutLastAt s = some (x, y) ∧ s = x ++ 64 :: y ∧ 64 ∉ y := by
  by_cases h : 64 ∈ s
  · refine .inr ?_
    obtain ⟨y, x, hs, hy⟩ := List.eq_append_cons_of_mem (List.mem_reverse.mpr h)
    have hrev := congrArg List.reverse hs
    simp only [List.reverse_reverse, List.reverse_append, List.reverse_cons, List.append_assoc,
      List.singleton_append] at hrev
    have hnot : 64 ∉ y.reverse := fun hm => hy (List.mem_reverse.mp hm)
    exact ⟨x.reverse, y.reverse, hrev ▸ cutLastAt_append hnot, hrev, hnot⟩
  · exact .inl ⟨cutLastAt_of_not_mem h, h⟩

lemma portPattern_append (x : Str) {d : Str} (hd : ∀ c ∈ d, isDigit c = true) :
    portPattern (x ++ 58 :: d) = some (x, d) := by
  have hrev : (x ++ 58 :: d).reverse = d.reverse ++ 58 :: x.reverse := by
    rw [List.reverse_append, List.reverse_cons, List.append_assoc, List.singleton_append]
  have hdigits : ∀ c ∈ d.reverse, isDigit c = true := fun c hc => hd c (List.mem_reverse.mp hc)
  have hstop : ∀ c, (58 :: x.reverse : Str).head? = some c → isDigit c = false := by
    rintro c ⟨⟩
    rfl
  simp only [portPattern, List.rtakeWhile, hrev, takeWhile_stop hdigits hstop,
    dropWhile_stop hdigits hstop, List.reverse_reverse]

lemma portPattern_eq_some {s x d : Str} (h : portPattern s = some (x, d)) :
    s = x ++ 58 :: d ∧ ∀ c ∈ d, isDigit c = true := by
  unfold portPattern at h
  split at h
  next rest hdrop =>
    obtain ⟨rfl, rfl⟩ := Prod.mk.inj (Option.some.inj h)
    have hs := List.takeWhile_append_dropWhile (p := isDigit) (l := s.reverse)
    rw [hdrop] at hs
    refine ⟨?_, fun c hc => mem_takeWhile (List.mem_reverse.mp hc)⟩
    have hrev := congrArg List.reverse hs
    rw [List.reverse_reverse, List.reverse_append, List.reverse_cons, List.append_assoc,
      List.singleton_append] at hrev
    exact hrev.symm
  next => cases h

lemma portPattern_of_not_mem {s : Str} (h : 58 ∉ s) : portPattern s = none := by
  cases hs : portPattern s with
  | none => rfl
  | some p =>
    obtain ⟨rfl, -⟩ := portPattern_eq_some hs
    exact absurd (List.mem_append_right _ List.mem_cons_self) h

lemma portPattern_of_last {s : Str} {c : UInt16} (h : s.getLast? = some c) (hc : c ≠ 58)
    (hdigit : isDigit c = false) : portPattern s = none := by
  cases hs : portPattern s with
  | none => rfl
  | some p =>
    obtain ⟨rfl, hd⟩ := portPattern_eq_some hs
    rw [List.getLast?_append_cons] at h
    obtain heq | hm := List.mem_cons.mp (List.mem_of_getLast? h)
    · exact absurd heq hc
    · cases hdigit.symm.trans (hd c hm)

/-! ### Hostnames -/

/-- The units of a hostname that is in ASCII. -/
def isPlain (c : UInt16) : Bool := isHostnameChar c || c = 46

lemma isPlain_lt {c : UInt16} (h : isPlain c = true) : c < 128 := by
  rw [isPlain, Bool.or_eq_true, decide_eq_true_eq] at h
  obtain h | rfl := h
  · exact isHostnameChar_lt h
  · decide

lemma isHostnameChar_of_isPlain {c : UInt16} (h : isPlain c = true) (hc : c ≠ 46) :
    isHostnameChar c = true := by
  rw [isPlain, Bool.or_eq_true, decide_eq_true_eq] at h
  exact h.resolve_right hc

lemma mem_join {c : UInt16} {parts : List Str} (h : c ∈ join parts) :
    c = 46 ∨ ∃ part ∈ parts, c ∈ part := by
  unfold join at h
  induction parts with
  | nil => cases h
  | cons part parts ih =>
    cases parts with
    | nil => exact .inr ⟨part, List.mem_cons_self, by rwa [List.intercalate_singleton] at h⟩
    | cons next parts =>
      rw [List.intercalate_cons_cons, List.append_assoc] at h
      obtain h | h := List.mem_append.mp h
      · exact .inr ⟨part, List.mem_cons_self, h⟩
      · obtain rfl | h := List.mem_cons.mp h
        · exact .inl rfl
        · obtain h | ⟨p, hp, hc⟩ := ih h
          · exact .inl h
          · exact .inr ⟨p, List.mem_cons_of_mem _ hp, hc⟩

lemma mem_splitOn {s part : Str} (h : part ∈ s.splitOn 46) {c : UInt16} (hc : c ∈ part) :
    c ∈ s ∧ c ≠ 46 := by
  induction s generalizing part with
  | nil =>
    rw [List.splitOn_nil, List.mem_singleton] at h
    rw [h] at hc
    cases hc
  | cons d s ih =>
    rw [List.splitOn_cons_eq_if_modifyHead] at h
    split_ifs at h with hd
    · obtain rfl | h := List.mem_cons.mp h
      · cases hc
      · exact (ih h hc).imp_left (List.mem_cons_of_mem _)
    · cases hsplit : s.splitOn 46 with
      | nil => exact absurd hsplit (List.splitOn_ne_nil _ _)
      | cons first others =>
        rw [hsplit, List.modifyHead_cons] at h
        obtain rfl | h := List.mem_cons.mp h
        · obtain rfl | hc := List.mem_cons.mp hc
          · exact ⟨List.mem_cons_self, fun he => hd (beq_iff_eq.mpr he)⟩
          · exact (ih (hsplit ▸ List.mem_cons_self) hc).imp_left (List.mem_cons_of_mem _)
        · exact (ih (hsplit ▸ List.mem_cons_of_mem _ h) hc).imp_left (List.mem_cons_of_mem _)

lemma join_splitOn (s : Str) : join (s.splitOn 46) = s := List.intercalate_splitOn 46

lemma toASCII_plain {T : Tables} (hT : ∀ s, ∀ c ∈ T.encode s, isHostnameChar c = true) (s : Str) :
    ∀ c ∈ toASCII T s, isPlain c = true := by
  intro c hc
  obtain rfl | ⟨part, hpart, hc⟩ := mem_join hc
  · rfl
  · obtain ⟨label, -, rfl⟩ := List.mem_map.mp hpart
    rw [isPlain, Bool.or_eq_true]
    split_ifs at hc with hall
    · exact .inl (List.all_eq_true.mp hall c hc)
    · obtain hc | hc := List.mem_append.mp hc
      · exact .inl ((by decide : ∀ c ∈ js "xn--", isHostnameChar c = true) c hc)
      · exact .inl (hT label c hc)

lemma parts_of_plain {s part : Str} (h : ∀ c ∈ s, isPlain c = true) (hpart : part ∈ s.splitOn 46) :
    ∀ c ∈ part, isHostnameChar c = true := fun c hc =>
  isHostnameChar_of_isPlain (h c (mem_splitOn hpart hc).1) (mem_splitOn hpart hc).2

lemma toASCII_of_plain (T : Tables) {s : Str} (h : ∀ c ∈ s, isPlain c = true) :
    toASCII T s = s := by
  have hparts : ∀ part ∈ s.splitOn 46,
      (if part.all isHostnameChar then part else js "xn--" ++ T.encode part) = part :=
    fun part hpart => if_pos (List.all_eq_true.mpr (parts_of_plain h hpart))
  rw [toASCII, List.map_congr_left hparts, List.map_id', join_splitOn]

lemma validPart_iff {part : Str} (h : ∀ c ∈ part, isHostnameChar c = true) :
    validPart part = true ↔ part.length ≤ 63 := by
  have hmap : part.map placeholder = part := by
    have hunit : ∀ c ∈ part, placeholder c = c := fun c hc => by
      have hlt := isHostnameChar_lt (h c hc)
      rw [UInt16.lt_iff_toNat_lt] at hlt
      refine if_neg ?_
      rw [UInt16.lt_iff_toNat_lt]
      exact not_lt.mpr (Nat.le_of_lt_succ hlt)
    rw [List.map_congr_left hunit, List.map_id']
  rw [validPart, hmap, Bool.or_assoc, Bool.or_self, Bool.or_eq_true, decide_eq_true_eq,
    hostnamePartPattern, decide_eq_true_eq]
  constructor
  · rintro (rfl | ⟨-, hlen⟩)
    · exact Nat.zero_le _
    · exact hlen
  · exact fun hlen => .inr ⟨List.all_eq_true.mpr h, hlen⟩

lemma hostnamePartStart_eq_some {part start bit : Str}
    (h : hostnamePartStart part = some (start, bit)) :
    start.length ≤ 63 ∧ start ++ bit = part := by
  simp only [hostnamePartStart] at h
  split_ifs at h
  · obtain ⟨rfl, rfl⟩ := Prod.mk.inj (Option.some.inj h)
    have hpre : (part.takeWhile isHostnameChar).take 63 <+: part :=
      (List.take_prefix _ _).trans (List.takeWhile_prefix _)
    exact ⟨List.length_take_le _ _, List.prefix_iff_eq_append.mp hpre⟩

lemma validParts_of_valid {parts : List Str} (h : ∀ part ∈ parts, validPart part = true) :
    validParts parts = (parts, []) := by
  induction parts with
  | nil => rfl
  | cons part parts ih =>
    rw [validParts, if_pos (h part List.mem_cons_self),
      ih fun p hp => h p (List.mem_cons_of_mem _ hp)]

/-- What the parts take, each with a dot. -/
def weight (parts : List Str) : ℕ := (parts.map fun part => part.length + 1).sum

lemma length_join (parts : List Str) : (join parts).length = weight parts - 1 := by
  unfold join weight
  induction parts with
  | nil => rfl
  | cons part parts ih =>
    cases parts with
    | nil => simp
    | cons next parts =>
      rw [List.intercalate_cons_cons, List.length_append, List.length_append, ih]
      simp only [List.map_cons, List.sum_cons, List.length_singleton]
      omega

/-- A part that is not valid makes the hostname shorter. -/
lemma weight_validParts {parts : List Str}
    (hchars : ∀ part ∈ parts, ∀ c ∈ part, isHostnameChar c = true)
    (h : ∃ part ∈ parts, ¬ validPart part = true) :
    weight (validParts parts).1 < weight parts ∧ 2 ≤ weight parts := by
  obtain ⟨bad, hbad, hlong⟩ := h
  induction parts with
  | nil => cases hbad
  | cons part parts ih =>
    have hpart := hchars part List.mem_cons_self
    by_cases hv : validPart part = true
    · obtain rfl | hbad := List.mem_cons.mp hbad
      · exact absurd hv hlong
      · have hrec := ih (fun p hp => hchars p (List.mem_cons_of_mem _ hp)) hbad
        rw [validParts, if_pos hv]
        simp only [weight, List.map_cons, List.sum_cons] at hrec ⊢
        omega
    · have hlen := mt (validPart_iff hpart).mpr hv
      rw [validParts, if_neg hv]
      split
      next start bit hstart =>
        have hshort := (hostnamePartStart_eq_some hstart).1
        simp only [weight, List.map_cons, List.sum_cons, List.map_nil, List.sum_nil]
        omega
      next =>
        simp only [weight, List.map_cons, List.sum_cons, List.map_nil, List.sum_nil]
        omega

lemma weight_validParts_le {parts : List Str}
    (hchars : ∀ part ∈ parts, ∀ c ∈ part, isHostnameChar c = true) :
    weight (validParts parts).1 ≤ weight parts := by
  by_cases h : ∃ part ∈ parts, ¬ validPart part = true
  · exact (weight_validParts hchars h).1.le
  · push Not at h
    rw [validParts_of_valid h]

/-! ### The end -/

lemma cutTail_append (t : Str) :
    (cutTail t).pathname ++ (cutTail t).search ++ (cutTail t).hash = t := by
  simp only [cutTail, List.takeWhile_append_dropWhile]

end NodeCore.UrlParse
