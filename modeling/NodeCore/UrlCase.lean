import NodeCore.UrlHref

/-!
Two URLs that differ in the case of the scheme.

The protocol is kept in lower case, but two of the three tables are asked for it as it is written.
-/

namespace NodeCore.UrlParse

open Encoding Uri

variable {T : Tables}

/-- What is compared of two URLs. -/
structure Fields where
  protocol : Option Str
  slashes : Bool
  auth : Option Str
  host : Option Str
  port : Option Str
  pathname : Option Str
  search : Option Str
  hash : Option Str
  deriving DecidableEq

def Url.fields (u : Url) : Fields :=
  ⟨u.protocol, u.slashes, u.auth, u.host, u.port, u.pathname, u.search, u.hash⟩

/-- The hostname as it is written, in what is behind the slashes. -/
def writtenHostname (rest : Str) : Str :=
  (parseHost ((splitAuth rest).2.takeWhile (· ∉ nonHostChars))).2

def behindHost (rest : Str) : Str := (splitAuth rest).2.dropWhile (· ∉ nonHostChars)

/-- A host that is not empty, without brackets, is all that stands behind the slashes, but for a
search and a hash; what comes before its `@` can be decoded and printed. -/
structure Pathless (T : Tables) (rest : Str) : Prop where
  auth : ∀ auth, (splitAuth rest).1 = some auth →
    ∃ text, decodeURIComponent auth = some text ∧ (formatAuth text).isSome = true
  bracket : ipv6Hostname (writtenHostname rest) = false
  /-- Nothing of it is moved to the path. -/
  valid : (validParts ((writtenHostname rest).splitOn 46)).2 = []
  length : (join (validParts ((writtenHostname rest).splitOn 46)).1).length ≤ hostnameMaxLen
  host : T.toLowerCase (join (validParts ((writtenHostname rest).splitOn 46)).1) ≠ []
  behind : ∀ c, (behindHost rest).head? = some c → c = 63 ∨ c = 35

/-! ### What is read behind a scheme -/

lemma rdropWhile_append_cons {s : Str} {c : UInt16} (hc : isSpace c = false) (rest : Str) :
    (s ++ c :: rest).rdropWhile isSpace = s ++ c :: rest.rdropWhile isSpace := by
  have hreverse : (s ++ c :: rest).reverse = rest.reverse ++ c :: s.reverse := by simp
  rw [List.rdropWhile, List.rdropWhile, hreverse, List.dropWhile_append]
  split_ifs with h
  · rw [List.isEmpty_iff.mp h, List.dropWhile_cons_of_neg (by simp [hc])]
    simp
  · simp

lemma isSpace_protocolChar {c : UInt16} (h : isProtocolChar c = true) : isSpace c = false :=
  ascii_all (P := fun c => isProtocolChar c = true → isSpace c = false) (by decide)
    (isProtocolChar_lt h) h

/-- The text without the white space at its end. -/
def trimEnd (s : Str) : Str := s.rdropWhile isSpace

lemma front_scheme {n : Str} (hn : n ≠ []) (hchars : ∀ c ∈ n, isProtocolChar c = true)
    (rest : Str) (b : Bool) : front (n ++ 58 :: rest) b =
      ⟨some (n ++ [58]), startsWithSlashes (trimEnd rest) && !hostlessProtocol (n ++ [58]),
        !hostlessProtocol (n ++ [58]) &&
          (startsWithSlashes (trimEnd rest) || !slashedProtocol (n ++ [58])),
        if startsWithSlashes (trimEnd rest) && !hostlessProtocol (n ++ [58])
          then (trimEnd rest).drop 2 else trimEnd rest⟩ := by
  have htrim : trim (n ++ 58 :: rest) = n ++ [58] ++ trimEnd rest := by
    rw [trim_of_head, rdropWhile_append_cons (by decide), List.append_assoc]
    · rfl
    · intro c hc
      obtain ⟨d, n, rfl⟩ := List.exists_cons_of_ne_nil hn
      obtain rfl := Option.some.inj hc
      exact isSpace_protocolChar (hchars d List.mem_cons_self)
  unfold front takeProtocol
  rw [htrim, protocolPattern_append hn hchars]
  simp only [Option.isSome_some, Bool.or_true, Bool.true_or, Bool.true_and, Option.any_some]

lemma fields_href (u : Url) :
    ((format u).map fun href => { u with href := some href }).map Url.fields =
      (formatAuth (u.auth.getD [])).map fun _ => u.fields := by
  rw [Option.map_map, format, Option.map_map]
  rfl

/-- The fields, where the authority can be read and printed. -/
lemma parse_fields (T : Tables) (url : Str) (b : Bool) : (parse T url b).map Url.fields =
    if (front url b).hosted then (readAuthority T (front url b).rest).bind fun a =>
      (formatAuth (a.auth.getD [])).map fun _ => (fill T (front url b) (some a)).fields
    else some (fill T (front url b) none).fields := by
  unfold parse
  split_ifs with h
  · simp only [h, if_true]
    cases readAuthority T (front url b).rest with
    | none => rfl
    | some a => exact fields_href _
  · simp only [h, Bool.false_eq_true, if_false]
    exact fields_href (fill T (front url b) none)

/-- There is a hostname in the one URL and none in the other. -/
lemma fields_ne {url url' : Str} {b : Bool} (h : (front url b).hosted = true)
    (h' : (front url' b).hosted = false) :
    (parse T url b).map Url.fields ≠ (parse T url' b).map Url.fields := by
  rw [parse_fields, parse_fields, h, h', if_pos rfl, if_neg Bool.false_ne_true]
  intro heq
  obtain ⟨a, -, heq⟩ := Option.bind_eq_some_iff.mp heq
  obtain ⟨text, -, heq⟩ := Option.map_eq_some_iff.mp heq
  cases congrArg Fields.host heq

/-! ### A host and no path -/

lemma join_eq_nil {parts : List Str} (hne : parts ≠ []) (h : join parts = []) : parts = [[]] := by
  cases parts with
  | nil => exact absurd rfl hne
  | cons part parts =>
    cases parts with
    | nil => rw [← h, join, List.intercalate_singleton]
    | cons next parts =>
      rw [join, List.intercalate_cons_cons] at h
      simp at h

lemma toASCII_eq_nil {hostname : Str} : toASCII T hostname = [] ↔ hostname = [] := by
  constructor
  · intro h
    have hparts := join_eq_nil (by simp [List.splitOn_ne_nil]) h
    obtain ⟨part, hsplit, hpart⟩ := List.map_eq_singleton_iff.mp hparts
    have hnil : part = [] := by
      split_ifs at hpart
      · exact hpart
      · cases hpart
    rw [← join_splitOn hostname, hsplit, hnil]
    rfl
  · rintro rfl
    rfl

/-- The first unit of what is behind the host decides whether there is a path. -/
lemma pathname_eq_nil (rest : Str) :
    (cutTail (escapeRest rest)).pathname = [] ↔ ∀ c, rest.head? = some c → c = 63 ∨ c = 35 := by
  have hunit (d : UInt16) (s : Str) :
      ((d :: s).takeWhile (· ≠ 35)).takeWhile (· ≠ 63) = [] ↔ d = 63 ∨ d = 35 := by
    by_cases h35 : d = 35
    · simp [h35]
    · by_cases h63 : d = 63 <;> simp [h35, h63]
  cases rest with
  | nil => simp [escapeRest_nil, cutTail]
  | cons c rest =>
    have hhead : (∀ d, (c :: rest).head? = some d → d = 63 ∨ d = 35) ↔ c = 63 ∨ c = 35 := by
      simp
    rw [hhead, escapeRest_cons, escapeUnit]
    split_ifs with hc
    · -- an escape starts with `%`
      have hne : ∀ d ∈ autoEscape, ¬ (d = 63 ∨ d = 35) := by decide
      exact iff_of_false (mt (hunit _ _).mp (by decide)) (hne c hc)
    · exact hunit c _

lemma readHostname_pathless (name after : Str) :
    ((if (readHostname T name after).ipv6 then
        (readHostname T name after).hostname.tail.dropLast
      else (readHostname T name after).hostname) ≠ [] ∧
      (cutTail (escapeRest (readHostname T name after).rest)).pathname = []) ↔
    ipv6Hostname name = false ∧ (validParts (name.splitOn 46)).2 = [] ∧
      (join (validParts (name.splitOn 46)).1).length ≤ hostnameMaxLen ∧
      T.toLowerCase (join (validParts (name.splitOn 46)).1) ≠ [] ∧
      ∀ c, after.head? = some c → c = 63 ∨ c = 35 := by
  rw [pathname_eq_nil]
  cases hv : ipv6Hostname name with
  | true =>
    -- a slash is put behind the bracket
    refine iff_of_false ?_ fun h => Bool.noConfusion h.1
    rintro ⟨-, hrest⟩
    rw [readHostname_ipv6 T hv] at hrest
    dsimp only at hrest
    split_ifs at hrest with hslash
    · exact absurd (hrest 47 rfl) (by decide)
    · exact absurd (hrest 47 (not_not.mp hslash)) (by decide)
  | false =>
    rw [readHostname_plain T hv, validate]
    dsimp only
    rw [if_neg Bool.false_ne_true, ne_eq, toASCII_eq_nil]
    constructor
    · rintro ⟨hname, hrest⟩
      split_ifs at hname with hlength
      · exact absurd rfl hname
      · split_ifs at hrest with hvalid
        · exact ⟨rfl, hvalid, Nat.le_of_not_lt hlength, hname, hrest⟩
        · exact absurd (hrest 47 rfl) (by decide)
    · rintro ⟨-, hvalid, hlength, hname, hrest⟩
      rw [if_neg (Nat.not_lt.mpr hlength), if_pos hvalid]
      exact ⟨hname, hrest⟩

lemma readAuthority_eq (rest : Str) : readAuthority T rest =
    match (splitAuth rest).1 with
    | some auth => (decodeURIComponent auth).map fun text =>
      ⟨readHostname T (writtenHostname rest) (behindHost rest), some text,
        (parseHost ((splitAuth rest).2.takeWhile (· ∉ nonHostChars))).1⟩
    | none => some ⟨readHostname T (writtenHostname rest) (behindHost rest), none,
        (parseHost ((splitAuth rest).2.takeWhile (· ∉ nonHostChars))).1⟩ := rfl

lemma pathless_iff (rest : Str) : Pathless T rest ↔ ∃ a, readAuthority T rest = some a ∧
    (formatAuth (a.auth.getD [])).isSome = true ∧ a.name ≠ [] ∧
    (cutTail (escapeRest a.rest)).pathname = [] := by
  have hhost (auth port : Option Str) :
      ((Authority.mk (readHostname T (writtenHostname rest) (behindHost rest)) auth port).name ≠
          [] ∧
        (cutTail (escapeRest (readHostname T (writtenHostname rest)
          (behindHost rest)).rest)).pathname = []) ↔ _ :=
    readHostname_pathless (writtenHostname rest) (behindHost rest)
  rw [readAuthority_eq]
  constructor
  · intro h
    have hread := (hhost · · |>.mpr ⟨h.bracket, h.valid, h.length, h.host, h.behind⟩)
    cases hauth : (splitAuth rest).1 with
    | none => exact ⟨_, rfl, rfl, hread _ _⟩
    | some auth =>
      obtain ⟨text, htext, hformat⟩ := h.auth auth hauth
      exact ⟨_, congrArg (Option.map _) htext, hformat, hread (some text) _⟩
  · rintro ⟨a, ha, hformat, hread⟩
    cases hauth : (splitAuth rest).1 with
    | none =>
      rw [hauth] at ha
      obtain rfl := Option.some.inj ha
      obtain ⟨hbracket, hvalid, hlength, hname, hbehind⟩ := (hhost _ _).mp hread
      refine ⟨fun auth h => ?_, hbracket, hvalid, hlength, hname, hbehind⟩
      cases hauth.symm.trans h
    | some auth =>
      rw [hauth] at ha
      obtain ⟨text, htext, rfl⟩ := Option.map_eq_some_iff.mp ha
      obtain ⟨hbracket, hvalid, hlength, hname, hbehind⟩ := (hhost _ _).mp hread
      refine ⟨fun auth' h => ?_, hbracket, hvalid, hlength, hname, hbehind⟩
      obtain rfl := Option.some.inj (hauth.symm.trans h)
      exact ⟨text, htext, hformat⟩

/-! ### Two schemes -/

/-- What the tables hold is in lower case. -/
lemma listed_lower {p : Str} (h : hostlessProtocol p = true ∨ slashedProtocol p = true) :
    p.map lowerUnit = p := by
  have hhostless : ∀ q ∈ [js "javascript", js "javascript:"], q.map lowerUnit = q := by decide
  have hslashed : ∀ q ∈ [js "http", js "https", js "ftp", js "gopher", js "file", js "http:",
      js "https:", js "ftp:", js "gopher:", js "file:"], q.map lowerUnit = q := by decide
  rcases h with h | h
  · exact hhostless p (by simpa [hostlessProtocol] using h)
  · obtain ⟨q, hq, heq⟩ := List.any_eq_true.mp h
    rw [of_decide_eq_true heq]
    exact hslashed q hq

lemma not_hostless {p : Str} (h : slashedProtocol p = true) : hostlessProtocol p = false := by
  obtain ⟨q, hq, heq⟩ := List.any_eq_true.mp h
  rw [of_decide_eq_true heq]
  exact (by decide : ∀ q ∈ [js "http", js "https", js "ftp", js "gopher", js "file", js "http:",
    js "https:", js "ftp:", js "gopher:", js "file:"], hostlessProtocol q = false) q hq

lemma isProtocolChar_lower (c : UInt16) : isProtocolChar (lowerUnit c) = isProtocolChar c := by
  by_cases hc : c < 128
  · exact ascii_all (P := fun c => isProtocolChar (lowerUnit c) = isProtocolChar c) (by decide) hc
  · rw [lowerUnit, if_neg]
    rintro ⟨-, hle⟩
    exact hc (UInt16.lt_of_le_of_lt hle (by decide))

section Schemes

variable {n n' : Str} (hn : n ≠ []) (hchars : ∀ c ∈ n, isProtocolChar c = true)
  (hcase : n.map lowerUnit = n'.map lowerUnit)

include hchars hcase in
lemma isProtocolChar_of_case : ∀ c ∈ n', isProtocolChar c = true := by
  intro c hc
  have hmem : lowerUnit c ∈ n.map lowerUnit := hcase ▸ List.mem_map_of_mem hc
  obtain ⟨d, hd, heq⟩ := List.mem_map.mp hmem
  rw [← isProtocolChar_lower, ← heq, isProtocolChar_lower]
  exact hchars d hd

include hn hcase in
lemma ne_nil_of_case : n' ≠ [] := by
  rintro rfl
  exact hn (List.map_eq_nil_iff.mp hcase)

include hchars hcase in
lemma toLowerCase_case (hT : T.Lawful) :
    T.toLowerCase (n ++ [58]) = T.toLowerCase (n' ++ [58]) := by
  rw [(hT.protocol hchars).1, (hT.protocol (isProtocolChar_of_case hchars hcase)).1, hcase]

include hcase in
/-- Two schemes that are both in the tables are the same. -/
lemma eq_of_listed
    (h : hostlessProtocol (n ++ [58]) = true ∨ slashedProtocol (n ++ [58]) = true)
    (h' : hostlessProtocol (n' ++ [58]) = true ∨ slashedProtocol (n' ++ [58]) = true) :
    n ++ [58] = n' ++ [58] := by
  rw [← listed_lower h, ← listed_lower h', List.map_append, List.map_append, hcase]

include hn hchars hcase in
/-- The tables say the same of both. -/
lemma parse_same (hT : T.Lawful)
    (hhostless : hostlessProtocol (n ++ [58]) = hostlessProtocol (n' ++ [58]))
    (hslashed : slashedProtocol (n ++ [58]) = slashedProtocol (n' ++ [58])) (rest : Str)
    (b : Bool) : parse T (n ++ 58 :: rest) b = parse T (n' ++ 58 :: rest) b := by
  have hfront : front (n' ++ 58 :: rest) b =
      { front (n ++ 58 :: rest) b with proto := some (n' ++ [58]) } := by
    rw [front_scheme hn hchars, front_scheme (ne_nil_of_case hn hcase)
      (isProtocolChar_of_case hchars hcase), hhostless, hslashed]
  have hproto : (front (n ++ 58 :: rest) b).proto = some (n ++ [58]) := by
    rw [front_scheme hn hchars]
  have hfill (a : Option Authority) :
      fill T (front (n ++ 58 :: rest) b) a = fill T (front (n' ++ 58 :: rest) b) a := by
    rw [hfront]
    simp only [fill, hproto, Option.map_some, Option.any_some, hslashed,
      toLowerCase_case hchars hcase hT]
  unfold parse
  rw [hfront] at hfill ⊢
  simp only [hfill]

include hn hchars hcase in
/-- The one is slashed as it is written, and the other is not. -/
lemma parse_slashed_iff (hT : T.Lawful) (hslashed : slashedProtocol (n ++ [58]) = true)
    (hother : slashedProtocol (n' ++ [58]) = false)
    (hhostless : hostlessProtocol (n' ++ [58]) = false) (rest : Str) (b : Bool) :
    (parse T (n ++ 58 :: rest) b).map Url.fields =
        (parse T (n' ++ 58 :: rest) b).map Url.fields ↔
      startsWithSlashes (trimEnd rest) = true ∧
        ¬ Pathless T ((trimEnd rest).drop 2) := by
  have hfront := front_scheme hn hchars rest b
  have hfront' :=
    front_scheme (ne_nil_of_case hn hcase) (isProtocolChar_of_case hchars hcase) rest b
  rw [hslashed, not_hostless hslashed] at hfront
  rw [hother, hhostless] at hfront'
  cases hstart : startsWithSlashes (trimEnd rest) with
  | false =>
    rw [hstart] at hfront hfront'
    refine iff_of_false (fun h => ?_) fun h => Bool.noConfusion h.1
    exact fields_ne (by rw [hfront']; rfl) (by rw [hfront]; rfl) h.symm
  | true =>
    -- only the path that is filled in may differ
    rw [hstart] at hfront hfront'
    simp only [Bool.not_false, Bool.and_true, Bool.true_or, if_true] at hfront hfront'
    have hlower := toLowerCase_case hchars hcase hT
    have hsafe : unsafeProtocol (T.toLowerCase (n' ++ [58])) = false := by
      have hsame : n.map lowerUnit ++ [58] = (n ++ [58]).map lowerUnit := by
        rw [List.map_append]
        rfl
      rw [← hlower, (hT.protocol hchars).1, hsame, listed_lower (.inr hslashed)]
      exact not_hostless hslashed
    have hfill (a : Authority) :
        (fill T (front (n ++ 58 :: rest) b) (some a)).fields =
          { (fill T (front (n' ++ 58 :: rest) b) (some a)).fields with
            pathname := nonEmpty (if (cutTail (escapeRest a.rest)).pathname = [] ∧ a.name ≠ []
              then [47] else (cutTail (escapeRest a.rest)).pathname) } := by
      rw [hfront, hfront']
      simp [fill, Url.fields, hlower, hsafe, hslashed]
    have hpathname (a : Authority) :
        (fill T (front (n' ++ 58 :: rest) b) (some a)).fields.pathname =
          nonEmpty (cutTail (escapeRest a.rest)).pathname := by
      rw [hfront']
      simp [fill, Url.fields, hsafe, hother]
    have hrest : (front (n ++ 58 :: rest) b).rest = (trimEnd rest).drop 2 := by rw [hfront]
    have hrest' : (front (n' ++ 58 :: rest) b).rest = (trimEnd rest).drop 2 := by rw [hfront']
    rw [parse_fields, parse_fields, if_pos (by rw [hfront]), if_pos (by rw [hfront']), hrest,
      hrest', pathless_iff]
    constructor
    · intro heq
      refine ⟨rfl, ?_⟩
      rintro ⟨a, hread, hauth, hname, hnil⟩
      obtain ⟨text, htext⟩ := Option.isSome_iff_exists.mp hauth
      rw [hread, Option.bind_some, Option.bind_some, htext, Option.map_some, Option.map_some,
        hfill, if_pos ⟨hnil, hname⟩] at heq
      have hpath := congrArg Fields.pathname (Option.some.inj heq)
      rw [hpathname, hnil] at hpath
      cases hpath
    · rintro ⟨-, hpath⟩
      refine Option.bind_congr fun a hread => ?_
      cases hauth : formatAuth (a.auth.getD []) with
      | none => rfl
      | some text =>
        rw [Option.map_some, Option.map_some, hfill, if_neg, ← hpathname]
        exact fun h => hpath ⟨a, hread, by rw [hauth]; rfl, h.2, h.1⟩

include hn hchars hcase in
/-- The one is without a host as it is written, and the other is not. -/
lemma fields_ne_of_hostless (hhostless : hostlessProtocol (n ++ [58]) = true)
    (hother : hostlessProtocol (n' ++ [58]) = false) (rest : Str) (b : Bool) :
    (parse T (n ++ 58 :: rest) b).map Url.fields ≠
      (parse T (n' ++ 58 :: rest) b).map Url.fields := by
  have hslashed : slashedProtocol (n' ++ [58]) = false := by
    by_contra h
    rw [Bool.not_eq_false] at h
    rw [eq_of_listed hcase (.inl hhostless) (.inr h), hother] at hhostless
    cases hhostless
  refine (fields_ne ?_ ?_).symm
  · rw [front_scheme (ne_nil_of_case hn hcase) (isProtocolChar_of_case hchars hcase), hother,
      hslashed]
    simp
  · rw [front_scheme hn hchars, hhostless]
    rfl

end Schemes

/-- **The case of the scheme.** It does not matter exactly if the tables of protocols without a
host and of slashed protocols have the same answer for both spellings, or if only the second have
another answer, two slashes follow and what follows them is not just a host without a path. -/
theorem parse_case_iff (hT : T.Lawful) {n n' : Str} (hn : n ≠ [])
    (hchars : ∀ c ∈ n, isProtocolChar c = true) (hcase : n.map lowerUnit = n'.map lowerUnit)
    (rest : Str) (b : Bool) :
    (parse T (n ++ 58 :: rest) b).map Url.fields =
        (parse T (n' ++ 58 :: rest) b).map Url.fields ↔
      hostlessProtocol (n ++ [58]) = hostlessProtocol (n' ++ [58]) ∧
        (slashedProtocol (n ++ [58]) = slashedProtocol (n' ++ [58]) ∨
          startsWithSlashes (trimEnd rest) = true ∧ ¬ Pathless T ((trimEnd rest).drop 2)) := by
  have hn' := ne_nil_of_case hn hcase
  have hchars' := isProtocolChar_of_case hchars hcase
  by_cases hhostless : hostlessProtocol (n ++ [58]) = hostlessProtocol (n' ++ [58])
  swap
  · refine iff_of_false (fun h => ?_) fun h => hhostless h.1
    cases hp : hostlessProtocol (n ++ [58]) <;> cases hp' : hostlessProtocol (n' ++ [58])
    · exact hhostless (hp.trans hp'.symm)
    · exact fields_ne_of_hostless hn' hchars' hcase.symm hp' hp rest b h.symm
    · exact fields_ne_of_hostless hn hchars hcase hp hp' rest b h
    · exact hhostless (hp.trans hp'.symm)
  by_cases hslashed : slashedProtocol (n ++ [58]) = slashedProtocol (n' ++ [58])
  · refine iff_of_true ?_ ⟨hhostless, .inl hslashed⟩
    rw [parse_same hn hchars hcase hT hhostless hslashed]
  rw [and_iff_right hhostless, or_iff_right hslashed]
  cases hp : slashedProtocol (n ++ [58]) <;> cases hp' : slashedProtocol (n' ++ [58])
  · exact absurd (hp.trans hp'.symm) hslashed
  · rw [not_hostless hp'] at hhostless
    rw [eq_comm]
    exact parse_slashed_iff hn' hchars' hcase.symm hT hp' hp hhostless rest b
  · rw [not_hostless hp] at hhostless
    exact parse_slashed_iff hn hchars hcase hT hp hp' hhostless.symm rest b
  · exact absurd (hp.trans hp'.symm) hslashed

theorem parse_case_iff_path :
    (parse asciiTables (js "HTTP" ++ 58 :: js "//h/p") false).map Url.fields =
      (parse asciiTables (js "http" ++ 58 :: js "//h/p") false).map Url.fields := by
  have hcase : (js "HTTP").map lowerUnit = (js "http").map lowerUnit := by decide
  refine (parse_case_iff asciiTables_lawful (by decide) (by decide) hcase (js "//h/p") false).mpr
    ⟨by decide, .inr ⟨by decide, fun h => ?_⟩⟩
  exact absurd (h.behind 47 (by decide)) (by decide)

/-- A path is filled in for the one. -/
theorem parse_not_case : (parse asciiTables (js "HTTP://h") false).map Url.fields ≠
    (parse asciiTables (js "http://h") false).map Url.fields := by decide +kernel

end NodeCore.UrlParse
