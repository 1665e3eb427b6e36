import NodeCore.UrlParts

/-!
How a printed authority is read back.

A hostname that was read once is written in ASCII, or stands in brackets. It is read back as it
is when it fits: encoding can make it, or one of its parts, longer than is read.
-/

namespace NodeCore.UrlParse

open Encoding Uri

/-- What the tables are relied on for. In lower case ASCII has no letter but `a` to `z`, the other
units of ASCII are those that were there, and brackets at the ends stay there; the encoder writes
letters, digits and hyphens. -/
structure Tables.Lawful (T : Tables) : Prop where
  ascii : ∀ s, (∀ c ∈ s, c < 128) → T.toLowerCase s = Encoding.toLowerCase s
  again : ∀ s, T.toLowerCase (T.toLowerCase s) = T.toLowerCase s
  unit : ∀ s, ∀ c ∈ T.toLowerCase s, c < 128 →
    (97 ≤ c ∧ c ≤ 122) ∨ (c ∈ s ∧ isLetter c = false)
  brackets : ∀ s, ipv6Hostname s = true → ipv6Hostname (T.toLowerCase s) = true
  encode : ∀ s, ∀ c ∈ T.encode s, isLetter c = true ∨ isDigit c = true ∨ c = 45

/-- The tables on texts in ASCII, where lower case is a matter of units and the encoder copies
letters, digits and hyphens and ends with a hyphen. -/
def asciiTables : Tables :=
  ⟨Encoding.toLowerCase, fun s => s.filter (fun c => isLetter c || isDigit c || c = 45) ++ [45]⟩

lemma lowerUnit_cases (c : UInt16) :
    (97 ≤ lowerUnit c ∧ lowerUnit c ≤ 122) ∨ (lowerUnit c = c ∧ isLetter c = false) := by
  unfold lowerUnit isLetter
  split_ifs with h
  · refine .inl ?_
    simp only [UInt16.le_iff_toNat_le, UInt16.toNat_add, UInt16.reduceToNat] at h ⊢
    omega
  · by_cases hl : 97 ≤ c ∧ c ≤ 122
    · exact .inl hl
    · exact .inr ⟨rfl, decide_eq_false fun ho => ho.elim h hl⟩

lemma asciiTables_lawful : asciiTables.Lawful where
  ascii _ _ := rfl
  again s := by
    have hunit : ∀ c, lowerUnit (lowerUnit c) = lowerUnit c := by
      intro c
      unfold lowerUnit
      simp only [UInt16.le_iff_toNat_le, UInt16.reduceToNat]
      split_ifs with h h' <;> try rfl
      simp only [UInt16.toNat_add, UInt16.reduceToNat] at h'
      omega
    simp only [asciiTables, Encoding.toLowerCase, List.map_map, Function.comp_def, hunit]
  unit s c hc _ := by
    obtain ⟨d, hd, rfl⟩ := List.mem_map.mp hc
    refine (lowerUnit_cases d).imp_right ?_
    rintro ⟨hsame, hl⟩
    rw [hsame]
    exact ⟨hd, hl⟩
  brackets s h := by
    obtain ⟨hhead, hlast⟩ := of_decide_eq_true h
    refine decide_eq_true ⟨?_, ?_⟩
    · simp only [asciiTables, Encoding.toLowerCase, List.head?_map, hhead]
      rfl
    · simp only [asciiTables, Encoding.toLowerCase, List.getLast?_map, hlast]
      rfl
  encode s c hc := by
    obtain hc | hc := List.mem_append.mp hc
    · have hkept := List.of_mem_filter hc
      rw [Bool.or_eq_true, Bool.or_eq_true, decide_eq_true_eq, or_assoc] at hkept
      exact hkept
    · exact .inr (.inr (List.mem_singleton.mp hc))

variable {T : Tables}

/-- The hostnames that are printed. -/
def Named (T : Tables) (hostname : Str) : Prop :=
  (∀ c ∈ hostname, isPlain c = true) ∨
    (ipv6Hostname hostname = true ∧ T.toLowerCase hostname = hostname ∧
      ∀ c ∈ hostname, c ∉ nonHostChars ∧ c ≠ 64)

/-- It is not too long, and out of brackets no part of it is, and all of it is in lower case. -/
structure Fits (hostname : Str) : Prop where
  length : hostname.length ≤ hostnameMaxLen
  parts : ipv6Hostname hostname = false → ∀ part ∈ hostname.splitOn 46, part.length ≤ 63
  lower : ipv6Hostname hostname = false → ∀ c ∈ hostname, lowerUnit c = c

lemma isPlain_not_nonHostChars {c : UInt16} (h : isPlain c = true) : c ∉ nonHostChars ∧ c ≠ 64 := by
  have hall : ∀ d ∈ 64 :: nonHostChars, isPlain d = false := by decide
  refine ⟨fun hm => ?_, fun he => ?_⟩
  · cases h.symm.trans (hall c (List.mem_cons_of_mem _ hm))
  · cases h.symm.trans (hall c (he ▸ List.mem_cons_self))

lemma Named.chars {hostname : Str} (h : Named T hostname) :
    ∀ c ∈ hostname, c ∉ nonHostChars ∧ c ≠ 64 := by
  obtain h | ⟨-, -, h⟩ := h
  · exact fun c hc => isPlain_not_nonHostChars (h c hc)
  · exact h

lemma not_ipv6_of_plain {s : Str} (h : ∀ c ∈ s, isPlain c = true) : ipv6Hostname s = false := by
  refine decide_eq_false fun hends => ?_
  cases h 91 (List.mem_of_head? hends.1)

/-- No port is read out of a hostname. -/
lemma Named.portPattern {hostname : Str} (h : Named T hostname) :
    UrlParse.portPattern hostname = none := by
  obtain h | ⟨h, -, -⟩ := h
  · exact portPattern_of_not_mem fun hm => by cases h 58 hm
  · exact portPattern_of_last (of_decide_eq_true h).2 (by decide) (by decide)

lemma Named.last {hostname : Str} (h : Named T hostname) :
    ∀ c, hostname.getLast? = some c → isSpace c = false := by
  intro c hc
  obtain h | ⟨h, -, -⟩ := h
  · have hall : ∀ d ∈ spaces, isPlain d = false := by decide
    refine decide_eq_false fun hm => ?_
    cases (h c (List.mem_of_getLast? hc)).symm.trans (hall c hm)
  · obtain rfl := Option.some.inj ((of_decide_eq_true h).2.symm.trans hc)
    decide

lemma plain_lower {c : UInt16} (h : isPlain c = true) : isPlain (lowerUnit c) = true :=
  ascii_all (P := fun c => isPlain c = true → isPlain (lowerUnit c) = true) (by decide)
    (isPlain_lt h) h

namespace Tables.Lawful

variable (hT : T.Lawful)
include hT

lemma isHostnameChar_encode (s : Str) : ∀ c ∈ T.encode s, isHostnameChar c = true := by
  intro c hc
  simp only [isHostnameChar, Bool.or_eq_true, decide_eq_true_eq]
  obtain h | h | rfl := hT.encode s c hc
  · exact .inl (.inl h)
  · exact .inl (.inr h)
  · exact .inr (by decide)

/-- Lower-casing adds no unit that a host cannot have. -/
lemma chars_lower {s : Str} (h : ∀ c ∈ s, c ∉ nonHostChars ∧ c ≠ 64) :
    ∀ c ∈ T.toLowerCase s, c ∉ nonHostChars ∧ c ≠ 64 := by
  have hall : ∀ d ∈ 64 :: nonHostChars, d < 128 ∧ ¬ (97 ≤ d ∧ d ≤ 122) := by decide
  have hnew : ∀ c ∈ T.toLowerCase s, c ∉ 64 :: nonHostChars := by
    intro c hc hm
    obtain ⟨hlt, hletter⟩ := hall c hm
    obtain hl | ⟨hold, -⟩ := hT.unit s c hc hlt
    · exact hletter hl
    · obtain rfl | hm := List.mem_cons.mp hm
      · exact (h 64 hold).2 rfl
      · exact (h c hold).1 hm
  exact fun c hc => ⟨fun hm => hnew c hc (List.mem_cons_of_mem _ hm),
    fun he => hnew c hc (he ▸ List.mem_cons_self)⟩

lemma lower_plain {s : Str} (h : ∀ c ∈ s, isPlain c = true) : T.toLowerCase s = s.map lowerUnit :=
  hT.ascii s fun c hc => isPlain_lt (h c hc)

end Tables.Lawful

/-! ### The hostname -/

lemma readHostname_plain (T : Tables) {hostname : Str} (h : ipv6Hostname hostname = false)
    (rest : Str) :
    readHostname T hostname rest =
      ⟨toASCII T (if hostnameMaxLen < (validate hostname rest).1.length then []
        else T.toLowerCase (validate hostname rest).1), false, (validate hostname rest).2⟩ := by
  simp only [readHostname, h, Bool.false_eq_true, if_false, false_and]

lemma readHostname_ipv6 (T : Tables) {hostname : Str} (h : ipv6Hostname hostname = true)
    (rest : Str) :
    readHostname T hostname rest =
      ⟨if hostnameMaxLen < hostname.length then [] else T.toLowerCase hostname, true,
        if rest.head? ≠ some 47 then 47 :: rest else rest⟩ := by
  simp only [readHostname, h, if_true, true_and]

lemma Tables.Lawful.named (hT : T.Lawful) {hostname : Str}
    (h : ∀ c ∈ hostname, c ∉ nonHostChars ∧ c ≠ 64) (rest : Str) :
    Named T (readHostname T hostname rest).hostname := by
  cases hv : ipv6Hostname hostname with
  | false =>
    rw [readHostname_plain T hv]
    exact .inl (toASCII_plain hT.isHostnameChar_encode _)
  | true =>
    rw [readHostname_ipv6 T hv]
    simp only
    split_ifs
    · exact .inl nofun
    · exact .inr ⟨hT.brackets _ hv, hT.again _, hT.chars_lower h⟩

lemma mem_notHost {parts : List Str} {part : Str} (h : part ∈ (validParts parts).2) {c : UInt16}
    (hc : c ∈ part) : ∃ p ∈ parts, c ∈ p := by
  induction parts with
  | nil => cases h
  | cons first parts ih =>
    rw [validParts] at h
    split_ifs at h
    · obtain ⟨p, hp, hm⟩ := ih h
      exact ⟨p, List.mem_cons_of_mem _ hp, hm⟩
    · cases hstart : hostnamePartStart first with
      | none =>
        rw [hstart] at h
        exact ⟨part, List.mem_cons_of_mem _ h, hc⟩
      | some p =>
        rw [hstart] at h
        obtain rfl | h := List.mem_cons.mp h
        · refine ⟨first, List.mem_cons_self, ?_⟩
          rw [← (hostnamePartStart_eq_some hstart).2]
          exact List.mem_append_right _ hc
        · exact ⟨part, List.mem_cons_of_mem _ h, hc⟩

lemma mem_valid {parts : List Str} {part : Str} (h : part ∈ (validParts parts).1) {c : UInt16}
    (hc : c ∈ part) : ∃ p ∈ parts, c ∈ p := by
  induction parts with
  | nil => cases h
  | cons first parts ih =>
    rw [validParts] at h
    split_ifs at h
    · obtain rfl | h := List.mem_cons.mp h
      · exact ⟨part, List.mem_cons_self, hc⟩
      · obtain ⟨p, hp, hm⟩ := ih h
        exact ⟨p, List.mem_cons_of_mem _ hp, hm⟩
    · cases hstart : hostnamePartStart first with
      | none =>
        rw [hstart] at h
        cases h
      | some p =>
        rw [hstart] at h
        obtain rfl := List.mem_singleton.mp h
        refine ⟨first, List.mem_cons_self, ?_⟩
        rw [← (hostnamePartStart_eq_some hstart).2]
        exact List.mem_append_left _ hc

/-- What is not part of the host goes in front of the rest, behind a slash. -/
lemma readHostname_rest (T : Tables) (hostname rest : Str) :
    (readHostname T hostname rest).rest = rest ∨
      ∃ m, (∀ c ∈ m, c = 46 ∨ c ∈ hostname) ∧
        (readHostname T hostname rest).rest = 47 :: m ++ rest := by
  cases hv : ipv6Hostname hostname with
  | false =>
    rw [readHostname_plain T hv]
    simp only [validate]
    split_ifs
    · exact .inl rfl
    · refine .inr ⟨_, fun c hc => ?_, rfl⟩
      refine (mem_join hc).imp_right fun ⟨part, hpart, hm⟩ => ?_
      obtain ⟨old, hold, hm⟩ := mem_notHost hpart hm
      exact (mem_splitOn hold hm).1
  | true =>
    rw [readHostname_ipv6 T hv]
    simp only
    split_ifs
    · exact .inr ⟨[], nofun, rfl⟩
    · exact .inl rfl

lemma readHostname_slash (T : Tables) {hostname rest : Str}
    (h : (readHostname T hostname rest).ipv6 = true) :
    (readHostname T hostname rest).rest.head? = some 47 := by
  cases hv : ipv6Hostname hostname with
  | false =>
    rw [readHostname_plain T hv] at h
    cases h
  | true =>
    rw [readHostname_ipv6 T hv]
    simp only
    split_ifs with hhead
    · rfl
    · exact not_not.mp hhead

/-- A hostname that fits is read back. -/
lemma Fits.readHostname (hT : T.Lawful) {hostname rest : Str} (h : Fits hostname)
    (hn : Named T hostname) (hrest : ipv6Hostname hostname = true → rest.head? = some 47) :
    UrlParse.readHostname T hostname rest = ⟨hostname, ipv6Hostname hostname, rest⟩ := by
  have hlen := not_lt.mpr h.length
  cases hv : ipv6Hostname hostname with
  | false =>
    have hplain : ∀ c ∈ hostname, isPlain c = true := by
      refine hn.resolve_right fun hb => ?_
      cases hv.symm.trans hb.1
    have hparts : ∀ part ∈ hostname.splitOn 46, validPart part = true := fun part hpart =>
      (validPart_iff (parts_of_plain hplain hpart)).mpr (h.parts hv part hpart)
    have hvalid : validate hostname rest = (hostname, rest) := by
      simp only [validate, validParts_of_valid hparts, join_splitOn, if_true]
    have hlower : T.toLowerCase hostname = hostname := by
      rw [hT.lower_plain hplain, List.map_congr_left (h.lower hv), List.map_id']
    rw [readHostname_plain T hv, hvalid, if_neg hlen, hlower, toASCII_of_plain T hplain]
  | true =>
    have hlower : T.toLowerCase hostname = hostname := by
      obtain hplain | hb := hn
      · cases hv.symm.trans (not_ipv6_of_plain hplain)
      · exact hb.2.1
    rw [readHostname_ipv6 T hv, if_neg hlen, hlower, if_neg (not_not.mpr (hrest hv))]

/-- And only such a one. -/
lemma fits_of_readHostname (hT : T.Lawful) {hostname rest : Str} (hn : Named T hostname)
    (h : (readHostname T hostname rest).hostname = hostname) : Fits hostname := by
  cases hv : ipv6Hostname hostname with
  | false =>
    have hplain : ∀ c ∈ hostname, isPlain c = true := by
      refine hn.resolve_right fun hb => ?_
      cases hv.symm.trans hb.1
    have hparts : ∀ part ∈ hostname.splitOn 46, ∀ c ∈ part, isHostnameChar c = true :=
      fun part hpart => parts_of_plain hplain hpart
    have hvalid : (validate hostname rest).1 = join (validParts (hostname.splitOn 46)).1 := rfl
    have htotal := length_join (hostname.splitOn 46)
    have hless := weight_validParts_le hparts
    rw [join_splitOn] at htotal
    rw [readHostname_plain T hv, hvalid] at h
    simp only at h
    split_ifs at h with hlen
    · -- the empty hostname is not too long
      rw [toASCII_of_plain T (fun _ hc => absurd hc List.not_mem_nil)] at h
      have hzero : hostname.length = 0 := by rw [← h, List.length_nil]
      rw [length_join, hostnameMaxLen] at hlen
      omega
    · have hkept : ∀ c ∈ join (validParts (hostname.splitOn 46)).1, isPlain c = true := by
        intro c hc
        obtain rfl | ⟨part, hpart, hm⟩ := mem_join hc
        · rfl
        · obtain ⟨old, hold, hm⟩ := mem_valid hpart hm
          exact hplain c (mem_splitOn hold hm).1
      have hlowered : ∀ c ∈ (join (validParts (hostname.splitOn 46)).1).map lowerUnit,
          isPlain c = true := by
        intro c hc
        obtain ⟨d, hd, rfl⟩ := List.mem_map.mp hc
        exact plain_lower (hkept d hd)
      rw [hT.lower_plain hkept, toASCII_of_plain T hlowered] at h
      have hsame : weight (validParts (hostname.splitOn 46)).1 - 1 =
          weight (hostname.splitOn 46) - 1 := by
        rw [← length_join, ← htotal, ← congrArg List.length h, List.length_map]
      have hall : ∀ part ∈ hostname.splitOn 46, validPart part = true := by
        by_contra hbad
        push Not at hbad
        have hshort := weight_validParts hparts hbad
        omega
      rw [validParts_of_valid hall, join_splitOn] at h hlen
      refine ⟨not_lt.mp hlen, fun _ part hpart => (validPart_iff (hparts part hpart)).mp
        (hall part hpart), fun _ c hc => ?_⟩
      exact List.map_inj_left.mp (h.trans (List.map_id' hostname).symm) c hc
  | true =>
    rw [readHostname_ipv6 T hv] at h
    simp only at h
    split_ifs at h with hlen
    · rw [← h] at hv
      cases hv
    · refine ⟨not_lt.mp hlen, fun hf => ?_, fun hf => ?_⟩ <;> cases hv.symm.trans hf

/-! ### The authority -/

/-- What can be left behind a host: it starts with a unit that no host has, and an `@` comes only
after a slash, a search or a hash. -/
structure Behind (rest : Str) : Prop where
  head : ∀ c, rest.head? = some c → c ∈ nonHostChars
  user : 64 ∉ rest.takeWhile (· ∉ hostEndingChars)

lemma mem_takeWhile_mono {p q : UInt16 → Bool} (hpq : ∀ c, p c = true → q c = true) {s : Str}
    {c : UInt16} (h : c ∈ s.takeWhile p) : c ∈ s.takeWhile q := by
  have hsplit := List.takeWhile_append_dropWhile (p := p) (l := s)
  rw [← hsplit, List.takeWhile_append_of_pos fun d hd => hpq d (mem_takeWhile hd)]
  exact List.mem_append_left _ h

lemma not_hostEnding_of_not_nonHost (c : UInt16)
    (h : decide (c ∉ nonHostChars) = true) : decide (c ∉ hostEndingChars) = true := by
  have hall : ∀ d ∈ hostEndingChars, d ∈ nonHostChars := by decide
  rw [decide_eq_true_eq] at h ⊢
  exact fun hm => h (hall c hm)

/-- Behind the last `@` there is none before the slash. -/
lemma splitAuth_spec (s : Str) :
    (∃ x, s = x ++ (splitAuth s).2) ∧ 64 ∉ (splitAuth s).2.takeWhile (· ∉ hostEndingChars) := by
  unfold splitAuth
  obtain ⟨h, hno⟩ | ⟨x, y, h, hs, hno⟩ := cutLastAt_cases (s.takeWhile (· ∉ hostEndingChars))
  · rw [h]
    exact ⟨⟨[], rfl⟩, hno⟩
  · rw [h]
    have hy : ∀ c ∈ y, decide (c ∉ hostEndingChars) = true := fun c hc =>
      mem_takeWhile (hs ▸ List.mem_append_right _ (List.mem_cons_of_mem _ hc))
    have hstop : ∀ c, (s.dropWhile (· ∉ hostEndingChars)).head? = some c →
        decide (c ∉ hostEndingChars) = false := fun c hc => head_dropWhile hc
    refine ⟨⟨x ++ [64], ?_⟩, ?_⟩
    · have hsplit := List.takeWhile_append_dropWhile (p := (· ∉ hostEndingChars)) (l := s)
      rw [hs] at hsplit
      simpa using hsplit.symm
    · simp only
      rwa [takeWhile_stop hy hstop]

/-- What is known of an authority that was read. -/
structure Authority.Read (T : Tables) (s : Str) (a : Authority) : Prop where
  named : Named T a.hostname
  port : ∀ d, a.port = some d → d ≠ [] ∧ ∀ c ∈ d, isDigit c = true
  behind : Behind a.rest
  slash : a.ipv6 = true → a.rest.head? = some 47
  ipv6 : a.hostname ≠ [] → ipv6Hostname a.hostname = a.ipv6
  /-- Two slashes were there, and so was what is behind them. -/
  last : startsWithSlashes a.rest = true → a.rest.getLast? = s.getLast?

lemma parseHost_spec (host : Str) :
    (∀ c ∈ (parseHost host).2, c ∈ host) ∧
      ∀ d, (parseHost host).1 = some d → d ≠ [] ∧ ∀ c ∈ d, isDigit c = true := by
  unfold parseHost
  cases h : portPattern host with
  | none => exact ⟨fun _ hc => hc, nofun⟩
  | some p =>
    obtain ⟨rfl, hdigits⟩ := portPattern_eq_some h
    refine ⟨fun c hc => List.mem_append_left _ hc, fun d hd => ?_⟩
    simp only at hd
    split_ifs at hd with hnil
    obtain rfl := Option.some.inj hd
    exact ⟨hnil, hdigits⟩

lemma readAuthority_eq_some {s : Str} {a : Authority} (h : readAuthority T s = some a) :
    a.toHost = readHostname T (parseHost ((splitAuth s).2.takeWhile (· ∉ nonHostChars))).2
        ((splitAuth s).2.dropWhile (· ∉ nonHostChars)) ∧
      a.port = (parseHost ((splitAuth s).2.takeWhile (· ∉ nonHostChars))).1 := by
  simp only [readAuthority] at h
  split at h
  · obtain ⟨_, -, rfl⟩ := Option.map_eq_some_iff.mp h
    exact ⟨rfl, rfl⟩
  · obtain rfl := Option.some.inj h
    exact ⟨rfl, rfl⟩

lemma Tables.Lawful.ipv6 (hT : T.Lawful) (hostname rest : Str)
    (h : (readHostname T hostname rest).hostname ≠ []) :
    ipv6Hostname (readHostname T hostname rest).hostname = (readHostname T hostname rest).ipv6 := by
  cases hv : ipv6Hostname hostname with
  | false =>
    rw [readHostname_plain T hv]
    exact not_ipv6_of_plain (toASCII_plain hT.isHostnameChar_encode _)
  | true =>
    rw [readHostname_ipv6 T hv] at h ⊢
    simp only at h ⊢
    split_ifs at h ⊢
    · exact absurd rfl h
    · exact hT.brackets _ hv

/-- What is left is what was there, or has a slash in front. -/
lemma behind_readHostname (hostname : Str) {after : Str} (h : Behind after) :
    Behind (readHostname T hostname after).rest := by
  obtain hr | ⟨m, -, hr⟩ := readHostname_rest T hostname after
  · rwa [hr]
  · rw [hr]
    refine ⟨fun c hc => ?_, ?_⟩
    · obtain rfl := Option.some.inj hc
      decide
    · rw [List.cons_append, List.takeWhile_cons_of_neg (by decide)]
      exact List.not_mem_nil

lemma last_readHostname {hostname after : Str} (hchars : ∀ c ∈ hostname, c ∉ nonHostChars)
    (h : startsWithSlashes (readHostname T hostname after).rest = true) :
    after ≠ [] ∧ (readHostname T hostname after).rest.getLast? = after.getLast? := by
  obtain hr | ⟨m, hm, hr⟩ := readHostname_rest T hostname after
  · rw [hr] at h ⊢
    refine ⟨?_, rfl⟩
    rintro rfl
    cases h
  · have hne : after ≠ [] := by
      rintro rfl
      rw [hr] at h
      cases m with
      | nil => cases h
      | cons c m =>
        have hc : c = 47 := by
          have htake := of_decide_eq_true h
          simp only [List.append_nil, List.take_succ_cons, List.take_zero, List.cons.injEq] at htake
          exact htake.2.1
        subst hc
        obtain hc | hc := hm 47 List.mem_cons_self
        · cases hc
        · exact hchars 47 hc (by decide)
    refine ⟨hne, ?_⟩
    rw [hr, List.getLast?_append_of_ne_nil _ hne]

theorem Authority.Read.of_eq (hT : T.Lawful) {s : Str} {a : Authority}
    (h : readAuthority T s = some a) : a.Read T s := by
  obtain ⟨hhost, hport⟩ := readAuthority_eq_some h
  obtain ⟨⟨x, hs⟩, huser⟩ := splitAuth_spec s
  generalize (splitAuth s).2 = rest at hhost hport hs huser
  have hsplit := List.takeWhile_append_dropWhile (p := (· ∉ nonHostChars)) (l := rest)
  have htext : ∀ c ∈ rest.takeWhile (· ∉ nonHostChars), c ∉ nonHostChars ∧ c ≠ 64 := by
    refine fun c hc => ⟨of_decide_eq_true (mem_takeWhile hc), ?_⟩
    rintro rfl
    exact huser (mem_takeWhile_mono not_hostEnding_of_not_nonHost hc)
  have hbehind : Behind (rest.dropWhile (· ∉ nonHostChars)) := by
    refine ⟨fun c hc => not_not.mp (of_decide_eq_false (head_dropWhile hc)), fun hm => huser ?_⟩
    rw [← hsplit, List.takeWhile_append_of_pos fun c hc =>
      not_hostEnding_of_not_nonHost c (mem_takeWhile hc)]
    exact List.mem_append_right _ hm
  generalize rest.takeWhile (· ∉ nonHostChars) = host at hhost hport htext hsplit
  generalize rest.dropWhile (· ∉ nonHostChars) = after at hhost hbehind hsplit
  obtain ⟨hname, hdigits⟩ := parseHost_spec host
  have hchars : ∀ c ∈ (parseHost host).2, c ∉ nonHostChars ∧ c ≠ 64 := fun c hc =>
    htext c (hname c hc)
  refine ⟨?_, ?_, ?_, ?_, ?_, ?_⟩
  · rw [hhost]
    exact hT.named hchars _
  · rw [hport]
    exact hdigits
  · rw [hhost]
    exact behind_readHostname _ hbehind
  · rw [hhost]
    exact readHostname_slash T
  · rw [hhost]
    exact hT.ipv6 _ _
  · rw [hhost]
    intro hslashes
    obtain ⟨hne, hlast⟩ := last_readHostname (fun c hc => (hchars c hc).1) hslashes
    rw [hlast, hs, ← hsplit, ← List.append_assoc, List.getLast?_append_of_ne_nil _ hne]

/-! ### Reading it back -/

lemma digit_not_nonHostChars {c : UInt16} (h : isDigit c = true) :
    c ∉ nonHostChars ∧ c ≠ 64 ∧ isSpace c = false := by
  have hall : ∀ d ∈ 64 :: nonHostChars ++ spaces, isDigit d = false := by decide
  refine ⟨fun hm => ?_, fun he => ?_, decide_eq_false fun hm => ?_⟩
  · cases h.symm.trans (hall c (List.mem_append_left _ (List.mem_cons_of_mem _ hm)))
  · subst he
    cases h
  · cases h.symm.trans (hall c (List.mem_append_right _ hm))

namespace Authority.Read

variable {s : Str} {a : Authority} (h : a.Read T s)
include h

lemma host_chars : ∀ c ∈ a.host, c ∉ nonHostChars ∧ c ≠ 64 := by
  intro c hc
  obtain hc | hc := List.mem_append.mp hc
  · exact h.named.chars c hc
  · cases hport : a.port with
    | none =>
      rw [hport] at hc
      cases hc
    | some d =>
      rw [hport] at hc
      obtain rfl | hc := List.mem_cons.mp hc
      · decide
      · obtain ⟨h1, h2, -⟩ := digit_not_nonHostChars ((h.port d hport).2 c hc)
        exact ⟨h1, h2⟩

lemma parseHost_host : parseHost a.host = (a.port, a.hostname) := by
  unfold Authority.host parseHost
  cases hport : a.port with
  | none => rw [Option.elim_none, List.append_nil, h.named.portPattern]
  | some d =>
    obtain ⟨hne, hdigits⟩ := h.port d hport
    rw [Option.elim_some, portPattern_append _ hdigits]
    simp only [if_neg hne]

end Authority.Read

lemma Authority.name_eq_nil {a : Authority} (h : a.host = []) : a.name = [] := by
  have hnil := (List.append_eq_nil_iff.mp h).1
  unfold Authority.name
  rw [hnil]
  exact ite_self _

lemma splitAuth_of_not_mem {s : Str} (h : 64 ∉ s.takeWhile (· ∉ hostEndingChars)) :
    splitAuth s = (none, s) := by
  rw [splitAuth, cutLastAt_of_not_mem h]

lemma splitAuth_append {e s : Str} (he : ∀ c ∈ e, c ∉ hostEndingChars)
    (h : 64 ∉ s.takeWhile (· ∉ hostEndingChars)) : splitAuth (e ++ 64 :: s) = (some e, s) := by
  have hpos : ∀ c ∈ e ++ [64], decide (c ∉ hostEndingChars) = true := by
    intro c hc
    obtain hc | hc := List.mem_append.mp hc
    · exact decide_eq_true (he c hc)
    · rw [List.mem_singleton.mp hc]
      decide
  rw [← List.singleton_append, ← List.append_assoc, splitAuth, List.takeWhile_append_of_pos hpos,
    List.dropWhile_append_of_pos hpos, List.append_assoc, List.singleton_append,
    cutLastAt_append h]
  simp only [List.takeWhile_append_dropWhile]

/-- The text of a host and what is behind it are cut where they were put together. -/
lemma user_append {host rest : Str} (hhost : ∀ c ∈ host, c ∉ nonHostChars ∧ c ≠ 64)
    (hrest : Behind rest) : 64 ∉ (host ++ rest).takeWhile (· ∉ hostEndingChars) := by
  rw [List.takeWhile_append_of_pos fun c hc =>
    not_hostEnding_of_not_nonHost c (decide_eq_true (hhost c hc).1)]
  intro hm
  obtain hm | hm := List.mem_append.mp hm
  · exact (hhost 64 hm).2 rfl
  · exact hrest.user hm

lemma host_append {host rest : Str} (hhost : ∀ c ∈ host, c ∉ nonHostChars ∧ c ≠ 64)
    (hrest : Behind rest) :
    (host ++ rest).takeWhile (· ∉ nonHostChars) = host ∧
      (host ++ rest).dropWhile (· ∉ nonHostChars) = rest := by
  have hpos : ∀ c ∈ host, decide (c ∉ nonHostChars) = true := fun c hc =>
    decide_eq_true (hhost c hc).1
  have hstop : ∀ c, rest.head? = some c → decide (c ∉ nonHostChars) = false := fun c hc =>
    decide_eq_false (not_not.mpr (hrest.head c hc))
  exact ⟨takeWhile_stop hpos hstop, dropWhile_stop hpos hstop⟩

lemma readAuthority_host (T : Tables) {host rest : Str}
    (hhost : ∀ c ∈ host, c ∉ nonHostChars ∧ c ≠ 64) (hrest : Behind rest) :
    readAuthority T (host ++ rest) =
      some ⟨readHostname T (parseHost host).2 rest, none, (parseHost host).1⟩ := by
  obtain ⟨htake, hdrop⟩ := host_append hhost hrest
  simp only [readAuthority, splitAuth_of_not_mem (user_append hhost hrest), htake, hdrop]

lemma readAuthority_auth (T : Tables) {e auth host rest : Str} (he : ∀ c ∈ e, c ∉ hostEndingChars)
    (hauth : decodeURIComponent e = some auth)
    (hhost : ∀ c ∈ host, c ∉ nonHostChars ∧ c ≠ 64) (hrest : Behind rest) :
    readAuthority T (e ++ 64 :: (host ++ rest)) =
      some ⟨readHostname T (parseHost host).2 rest, some auth, (parseHost host).1⟩ := by
  obtain ⟨htake, hdrop⟩ := host_append hhost hrest
  simp only [readAuthority, splitAuth_append he (user_append hhost hrest), htake, hdrop, hauth,
    Option.map_some]

/-! ### The text before the host -/

lemma replaceColon_cons {c : UInt16} (hc : c ≠ 37) (s : Str) :
    replaceColon (c :: s) = c :: replaceColon s := by
  rw [replaceColon]
  exact fun _ _ he _ => hc he

lemma hexDigit_cases : ∀ n < 16, hexDigit n ≠ 37 ∧ (hexDigit n = 51 → n = 3) ∧
    (hexDigit n = 65 ∨ hexDigit n = 97 → n = 10) := by decide

/-- Only the escape of a colon is replaced. -/
lemma replaceColon_escaped {b : UInt8} (hb : b ≠ 58) (r : Str) :
    replaceColon (escaped b ++ r) = escaped b ++ replaceColon r := by
  have hlt := b.toNat_lt
  obtain ⟨hhigh, hthree, -⟩ := hexDigit_cases (b.toNat / 16) (by omega)
  obtain ⟨hlow, -, hten⟩ := hexDigit_cases (b.toNat % 16) (by omega)
  simp only [escaped, List.cons_append, List.nil_append]
  by_cases h51 : hexDigit (b.toNat / 16) = 51
  · have hnot : ¬ (hexDigit (b.toNat % 16) = 65 ∨ hexDigit (b.toNat % 16) = 97) := by
      intro hcolon
      have h3 := hthree h51
      have h10 := hten hcolon
      exact hb (UInt8.toNat_inj.mp (show b.toNat = 58 by omega))
    rw [h51] at hhigh ⊢
    rw [replaceColon, if_neg hnot, replaceColon_cons hhigh, replaceColon_cons hlow]
  · have hnext : replaceColon (37 :: hexDigit (b.toNat / 16) :: hexDigit (b.toNat % 16) :: r) =
        37 :: replaceColon (hexDigit (b.toNat / 16) :: hexDigit (b.toNat % 16) :: r) := by
      rw [replaceColon]
      rintro c s - he
      exact h51 (List.cons.inj he).1
    rw [hnext, replaceColon_cons hhigh, replaceColon_cons hlow]

lemma replaceColon_escapes {bytes : Bytes} (hb : 58 ∉ bytes) (r : Str) :
    replaceColon (bytes.flatMap escaped ++ r) = bytes.flatMap escaped ++ replaceColon r := by
  induction bytes with
  | nil => rfl
  | cons b bytes ih =>
    obtain ⟨hne, hnot⟩ := not_or.mp (mt List.mem_cons.mpr hb)
    rw [List.flatMap_cons, List.append_assoc, replaceColon_escaped (Ne.symm hne), ih hnot,
      List.append_assoc]

lemma decodeLoop_replaceColon {s e : Str} (h : Written s e) {n : ℕ}
    (hn : (replaceColon e).length ≤ n) : decodeLoop n (replaceColon e) = some s := by
  induction h generalizing n with
  | nil => cases n <;> rfl
  | @unit c s e hc _ ih =>
    rw [replaceColon_cons (isUnescaped_ne hc)] at hn ⊢
    obtain ⟨n, rfl⟩ := Nat.exists_eq_succ_of_ne_zero (Nat.ne_zero_of_lt hn)
    rw [decodeLoop_unit (isUnescaped_ne hc), ih (Nat.le_of_succ_le_succ hn)]
    rfl
  | @escape u s e bytes hne hread hcolon hw ih =>
    by_cases hm : 58 ∈ bytes
    · -- what follows the first colon is left as it is
      obtain ⟨rfl, rfl⟩ := hcolon hm
      have hfirst : replaceColon (([58] : Bytes).flatMap escaped ++ e) = 58 :: e := rfl
      rw [hfirst] at hn ⊢
      obtain ⟨n, rfl⟩ := Nat.exists_eq_succ_of_ne_zero (Nat.ne_zero_of_lt hn)
      rw [decodeLoop_unit (by decide), decodeLoop_written hw (Nat.le_of_succ_le_succ hn)]
      rfl
    · rw [replaceColon_escapes hm] at hn ⊢
      have hlen := length_escapes hne (replaceColon e)
      obtain ⟨n, rfl⟩ := Nat.exists_eq_succ_of_ne_zero (Nat.ne_zero_of_lt (hlen.trans_le hn))
      rw [decodeLoop_escape hne (hread _), ih (by omega)]
      rfl

lemma mem_replaceColon {s : Str} {c : UInt16} (h : c ∈ replaceColon s) : c = 58 ∨ c ∈ s := by
  induction s using replaceColon.induct with
  | case1 d s hd =>
    rw [replaceColon, if_pos hd] at h
    refine (List.mem_cons.mp h).imp_right fun hm => ?_
    exact List.mem_cons_of_mem _ (List.mem_cons_of_mem _ (List.mem_cons_of_mem _ hm))
  | case2 d s hd ih =>
    rw [replaceColon, if_neg hd] at h
    obtain rfl | h := List.mem_cons.mp h
    · exact .inr List.mem_cons_self
    · exact (ih h).imp_right (List.mem_cons_of_mem _)
  | case3 d s hnot ih =>
    rw [replaceColon.eq_2 d s hnot] at h
    obtain rfl | h := List.mem_cons.mp h
    · exact .inr List.mem_cons_self
    · exact (ih h).imp_right (List.mem_cons_of_mem _)
  | case4 => exact .inr h

/-- The units of the text before the `@`. -/
lemma isEncoded_not_hostEnding {c : UInt16} (h : isEncoded c = true ∨ c = 58) :
    c ∉ hostEndingChars ∧ isUserChar c = true := by
  have hall : ∀ d ∈ 64 :: hostEndingChars, isEncoded d = false ∧ d ≠ 58 := by decide
  have hnot : c ∉ 64 :: hostEndingChars := by
    intro hm
    obtain ⟨henc, hcolon⟩ := hall c hm
    obtain h | h := h
    · cases h.symm.trans henc
    · exact hcolon h
  obtain ⟨hat, hend⟩ := not_or.mp (mt List.mem_cons.mpr hnot)
  refine ⟨hend, decide_eq_true ⟨hat, ?_⟩⟩
  rintro rfl
  exact hend (by decide)

/-- Nothing is printed before the host, or a text that is decoded to what it was made from. -/
lemma formatAuth_cases {auth text : Str} (h : formatAuth auth = some text) :
    (auth = [] ∧ text = []) ∨
      ∃ e, auth ≠ [] ∧ e ≠ [] ∧ text = e ++ [64] ∧ decodeURIComponent e = some auth ∧
        ∀ c ∈ e, c ∉ hostEndingChars ∧ isUserChar c = true := by
  unfold formatAuth at h
  split_ifs at h with hnil
  · exact .inl ⟨hnil, (Option.some.inj h).symm⟩
  · obtain ⟨e, he, rfl⟩ := Option.map_eq_some_iff.mp h
    have hw := Written.of_encode he
    have hdec : decodeURIComponent (replaceColon e) = some auth := decodeLoop_replaceColon hw le_rfl
    refine .inr ⟨_, hnil, ?_, rfl, hdec, fun c hc => ?_⟩
    · intro hempty
      rw [hempty] at hdec
      exact hnil (Option.some.inj hdec).symm
    · refine isEncoded_not_hostEnding ((mem_replaceColon hc).symm.imp_left fun hm => ?_)
      exact hw.isEncoded c hm

end NodeCore.UrlParse
