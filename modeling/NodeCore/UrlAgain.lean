import NodeCore.UrlHref

/-!
Reading a text that was printed.

There are five ways to read a text whose ends are not white space, and each gives `href` in closed
form. A host that was printed is cut where it was put together, and is printed again as it was if
its hostname fits.
-/

namespace NodeCore.UrlParse

open Encoding Uri

variable {T : Tables}

/-! ### Reading a text again -/

lemma trim_trim (u : Str) : trim (trim u) = trim u := (trimmed_trim u).trim_eq

lemma front_trim (u : Str) : front (trim u) false = front u false := by
  simp only [front, trim_trim]

lemma href_trim (T : Tables) (u : Str) : href T (trim u) = href T u := by
  simp only [href, parse, front_trim]

/-- A protocol in lower case. -/
structure Protocol (T : Tables) (p : Str) : Prop where
  pattern : ∃ n, n ≠ [] ∧ (∀ c ∈ n, isProtocolChar c = true) ∧ p = n ++ [58]
  lower : T.toLowerCase p = p

lemma Tables.Lawful.protocol_lower (hT : T.Lawful) {u : Str} {d : Bool} {p : Str}
    (h : (front u d).proto = some p) : Protocol T (T.toLowerCase p) := by
  obtain ⟨n, hne, hchars, rfl, -⟩ := front_proto h
  obtain ⟨hlower, hn⟩ := hT.protocol hchars
  rw [hlower]
  have hchars' : ∀ c ∈ n.map lowerUnit, isProtocolChar c = true := fun c hc => (hn c hc).1
  refine ⟨⟨_, fun he => hne (List.map_eq_nil_iff.mp he), hchars', rfl⟩, ?_⟩
  have hid : (n.map lowerUnit).map lowerUnit = n.map lowerUnit := by
    rw [List.map_congr_left fun c hc => (hn c hc).2, List.map_id']
  rw [(hT.protocol hchars').1, hid]

/-- The front of a text that starts with a protocol. -/
lemma Protocol.front {p y : Str} (hp : Protocol T p) (htrim : trim (p ++ y) = p ++ y) :
    UrlParse.front (p ++ y) false =
      ⟨some p, startsWithSlashes y && !hostlessProtocol p,
        !hostlessProtocol p && (startsWithSlashes y || !slashedProtocol p),
        if startsWithSlashes y && !hostlessProtocol p then y.drop 2 else y⟩ := by
  obtain ⟨n, hne, hchars, rfl⟩ := hp.pattern
  simp only [UrlParse.front, htrim, takeProtocol, protocolPattern_append hne hchars,
    Option.any_some, Option.isSome_some, Bool.or_true, Bool.true_or, Bool.true_and]

/-- The front of a text that starts with two slashes. -/
lemma front_of_slashes {y : Str} (htrim : trim (47 :: 47 :: y) = 47 :: 47 :: y) :
    front (47 :: 47 :: y) false =
      ⟨none, userAtHost (47 :: 47 :: y), userAtHost (47 :: 47 :: y),
        if userAtHost (47 :: 47 :: y) then y else 47 :: 47 :: y⟩ := by
  have hstart : startsWithSlashes (47 :: 47 :: y) = true := rfl
  simp only [front, htrim, takeProtocol, protocolPattern_slashes, hstart, Option.any_none,
    Option.isSome_none, Bool.or_false, Bool.false_or, Bool.and_true, Bool.not_false, Bool.true_and]
  rfl

lemma tailText_eq (T : Tables) (f : Front) (rest : Str) :
    tailText T f rest =
      if unsafeProtocol (protocolText T f) then rest else escapeRest rest := by
  unfold tailText protocolText
  cases f.proto <;> rfl

/-! ### What is behind the host -/

namespace Behind

lemma escape {s : Str} (h : Behind s) : Behind (escapeRest s) := by
  have hescaped : ∀ c ∈ autoEscape, decide (c ∉ hostEndingChars) = true ∧
      ∀ d ∈ escaped c.toUInt8, decide (d ∉ hostEndingChars) = true := by decide
  have hat : ∀ c ∈ autoEscape, 64 ∉ escaped c.toUInt8 := by decide
  refine ⟨fun c hc => ?_, fun hm => ?_⟩
  · cases s with
    | nil =>
      rw [escapeRest_nil] at hc
      cases hc
    | cons d s =>
      rw [escapeRest_cons, escapeUnit] at hc
      split_ifs at hc
      · obtain rfl := Option.some.inj hc
        decide
      · obtain rfl := Option.some.inj hc
        exact h.head _ rfl
  · rw [(escapeRest_takeWhile hescaped s).1, escapeRest_eq] at hm
    obtain ⟨d, hd, hm⟩ := List.mem_flatMap.mp hm
    unfold escapeUnit at hm
    split_ifs at hm with hauto
    · exact hat d hauto hm
    · obtain rfl := List.mem_singleton.mp hm
      exact h.user hd

lemma addSlash {s : Str} (h : Behind s) (slashes filled : Bool) :
    Behind (addSlash slashes filled s) := by
  unfold UrlParse.addSlash
  split_ifs
  · refine ⟨fun c hc => ?_, ?_⟩
    · obtain rfl := Option.some.inj hc
      decide
    · rw [List.takeWhile_cons_of_neg (by decide)]
      exact List.not_mem_nil
  · exact h

lemma of_append {s w : Str} (h : Behind (s ++ w)) : Behind s := by
  refine ⟨fun c hc => h.head c ?_, fun hm => h.user ?_⟩
  · rw [List.head?_append, hc]
    rfl
  · have hpre := List.takeWhile_append_dropWhile (p := (· ∉ hostEndingChars)) (l := s)
    rw [← hpre, List.append_assoc, List.takeWhile_append_of_pos fun c hc => mem_takeWhile hc]
    exact List.mem_append_left _ hm

lemma trimmed {s : Str} (h : Behind s) : Behind (s.rdropWhile isSpace) := by
  obtain ⟨w, hw⟩ := List.rdropWhile_prefix isSpace (l := s)
  exact of_append (hw ▸ h)

end Behind

/-- Host and rest are where they were put together. -/
lemma host_inj {x y r s : Str} (hx : ∀ c ∈ x, c ∉ nonHostChars ∧ c ≠ 64)
    (hy : ∀ c ∈ y, c ∉ nonHostChars ∧ c ≠ 64) (hr : Behind r) (hs : Behind s)
    (h : x ++ r = y ++ s) : x = y ∧ r = s := by
  obtain ⟨hxt, hxd⟩ := host_append hx hr
  obtain ⟨hyt, hyd⟩ := host_append hy hs
  exact ⟨hxt.symm.trans (h ▸ hyt), hxd.symm.trans (h ▸ hyd)⟩

/-! ### White space at the end -/

lemma trim_append {x r : Str} (hhead : ∀ c, x.head? = some c → isSpace c = false)
    (hlast : ∀ c, x.getLast? = some c → isSpace c = false) (hne : x ≠ []) :
    trim (x ++ r) = x ++ r.rdropWhile isSpace := by
  have hx : x.reverse.dropWhile isSpace = x.reverse := dropWhile_of_head (by simpa using hlast)
  have hstart : ∀ c, (x ++ r).head? = some c → isSpace c = false := fun c hc =>
    hhead c (by rwa [List.head?_append_of_ne_nil _ hne] at hc)
  rw [trim_of_head hstart, List.rdropWhile, List.rdropWhile, List.reverse_append,
    List.dropWhile_append, hx]
  split_ifs with hnil
  · rw [List.isEmpty_iff.mp hnil, List.reverse_reverse, List.reverse_nil, List.append_nil]
  · rw [List.reverse_append, List.reverse_reverse]

/-- What was printed is read again without white space at its end. -/
lemma rdropWhile_eq_self_iff {r : Str} :
    r.rdropWhile isSpace = r ↔ ∀ c, r.getLast? = some c → isSpace c = false :=
  ⟨fun h c hc => last_rdropWhile r c (h.symm ▸ hc), rdropWhile_of_last⟩

/-- A slash that goes in front does not make up for white space at the end. -/
lemma addSlash_trimmed {slashes filled : Bool} {r : Str}
    (h : addSlash slashes filled (r.rdropWhile isSpace) = r) :
    r.rdropWhile isSpace = r ∧ needsSlash slashes filled r = false := by
  unfold addSlash at h
  split_ifs at h with hneeds
  · have hlast : r.rdropWhile isSpace = r := by
      refine rdropWhile_of_last fun c hc => ?_
      rw [← h, List.getLast?_cons] at hc
      cases hq : (r.rdropWhile isSpace).getLast? with
      | none =>
        rw [hq] at hc
        obtain rfl := Option.some.inj hc
        decide
      | some d =>
        rw [hq] at hc
        obtain rfl := Option.some.inj hc
        exact last_rdropWhile r _ hq
    rw [hlast] at h
    exact absurd (congrArg List.length h) (Nat.succ_ne_self _)
  · rw [h] at hneeds
    exact ⟨h, Bool.eq_false_iff.mpr hneeds⟩

/-! ### The authority again -/

section Again

variable (hT : T.Lawful) {s e : Str} {a : Authority} (ha : a.Read T s)
  (he : formatAuth (a.auth.getD []) = some e)

include ha he in
/-- The text of an authority is cut as it was put together. -/
lemma reread {q : Str} (hq : Behind q) :
    ∃ b, readAuthority T (e ++ (a.host ++ q)) = some b ∧ formatAuth (b.auth.getD []) = some e ∧
      b.toHost = readHostname T a.hostname q ∧ b.port = a.port := by
  obtain ⟨hauth, rfl⟩ | ⟨e', hne, -, rfl, hdec, hchars⟩ := formatAuth_cases he
  · rw [List.nil_append]
    refine ⟨_, readAuthority_host T ha.host_chars hq, rfl, ?_, ?_⟩ <;> rw [ha.parseHost_host]
  · rw [List.append_assoc, List.singleton_append]
    refine ⟨_, readAuthority_auth T (fun c hc => (hchars c hc).1) hdec ha.host_chars hq, he, ?_, ?_⟩
      <;> rw [ha.parseHost_host]

lemma name_congr {a b : Authority} (hname : b.hostname = a.hostname)
    (hipv6 : a.hostname ≠ [] → b.ipv6 = a.ipv6) : b.name = a.name := by
  unfold Authority.name
  rw [hname]
  by_cases h : a.hostname = []
  · rw [h]
    exact (ite_self _).trans (ite_self _).symm
  · rw [hipv6 h]

include ha he in
/-- A text that is printed with the same start has the same host. -/
lemma hostText_inj {b : Authority} {x r rb : Str} (hb : b.Read T x) (hhost : a.host ≠ [])
    (hr : Behind r) (hrb : Behind rb) (h : hostText b e ++ rb = e ++ (a.host ++ r)) :
    b.host = a.host ∧ rb = r := by
  unfold hostText at h
  split_ifs at h with hnil
  · exfalso
    rw [List.nil_append] at h
    obtain ⟨-, rfl⟩ | ⟨e', -, -, rfl, -, hchars⟩ := formatAuth_cases he
    · have hempty := host_inj (x := []) nofun ha.host_chars hrb hr h
      exact hhost hempty.1.symm
    · refine hrb.user ?_
      have hpos : ∀ c ∈ e' ++ [64], decide (c ∉ hostEndingChars) = true := by
        intro c hc
        obtain hc | hc := List.mem_append.mp hc
        · exact decide_eq_true (hchars c hc).1
        · rw [List.mem_singleton.mp hc]
          decide
      rw [h, List.takeWhile_append_of_pos hpos, List.append_assoc]
      exact List.mem_append_right _ List.mem_cons_self
  · rw [List.append_assoc] at h
    exact host_inj hb.host_chars ha.host_chars hrb hr (List.append_cancel_left h)

include hT ha he in
/-- An authority is printed as it was exactly if its hostname fits, the rest has no white space at
its end and no path is filled in. -/
lemma again_iff {b : Authority} {slashes c : Bool} {r : Str} (hhost : a.host ≠ [])
    (hb : readAuthority T (e ++ (a.host ++ r.rdropWhile isSpace)) = some b)
    (hsame : b.toHost = readHostname T a.hostname (r.rdropWhile isSpace)) (hport : b.port = a.port)
    (hr : Behind r) (hclean : ∀ c ∈ r, c ∉ autoEscape)
    (hslash : a.ipv6 = true → r.head? = some 47) :
    hostText b e ++ addSlash slashes (c && b.name ≠ []) (escapeRest b.rest) =
        e ++ (a.host ++ r) ↔
      Fits a.hostname ∧ r.rdropWhile isSpace = r ∧
        needsSlash slashes (c && a.name ≠ []) r = false := by
  have hread := Authority.Read.of_eq hT hb
  have hfits : Fits a.hostname → b.toHost =
      ⟨a.hostname, ipv6Hostname a.hostname, r.rdropWhile isSpace⟩ := by
    intro h
    rw [hsame]
    refine h.readHostname hT ha.named fun hv => ?_
    have hne : a.hostname ≠ [] := by
      rintro hnil
      rw [hnil] at hv
      cases hv
    have hhead := hslash ((ha.ipv6 hne).symm.trans hv)
    rw [head_rdropWhile, hhead]
    intro d hd
    obtain rfl := Option.some.inj (hhead.symm.trans hd)
    decide
  have hname : Fits a.hostname → b.name = a.name := fun h =>
    name_congr (by rw [hfits h]) fun hne => by rw [hfits h, ha.ipv6 hne]
  have hescape : escapeRest (r.rdropWhile isSpace) = r.rdropWhile isSpace :=
    escapeRest_of_clean fun d hd => hclean d ((List.rdropWhile_prefix isSpace r).subset hd)
  constructor
  · intro h
    obtain ⟨hhosts, hrest⟩ := hostText_inj ha he hread hhost hr
      (hread.behind.escape.addSlash _ _) h
    have hhostname : b.hostname = a.hostname := by
      unfold Authority.host at hhosts
      rw [hport] at hhosts
      exact List.append_cancel_right hhosts
    have hagain : (readHostname T a.hostname (r.rdropWhile isSpace)).hostname = a.hostname := by
      rw [← hsame]
      exact hhostname
    have hfit := fits_of_readHostname hT ha.named hagain
    rw [congrArg Host.rest (hfits hfit), hescape, hname hfit] at hrest
    exact ⟨hfit, addSlash_trimmed hrest⟩
  · rintro ⟨hfit, htrim, hneeds⟩
    have hhosts : b.host = a.host := by
      unfold Authority.host
      rw [congrArg Host.hostname (hfits hfit), hport]
    rw [congrArg Host.rest (hfits hfit), hescape, hname hfit, hostText, hhosts, if_neg hhost, htrim,
      addSlash, hneeds, if_neg Bool.false_ne_true, List.append_assoc]

end Again

/-! ### The five ways to read a text -/

lemma Protocol.ne_nil {p : Str} (hp : Protocol T p) : p ≠ [] := by
  obtain ⟨n, -, -, rfl⟩ := hp.pattern
  exact List.append_ne_nil_of_right_ne_nil _ (List.cons_ne_nil _ _)

section Ways

variable (hT : T.Lawful)
include hT

/-- No host is read: behind a protocol that has none, or that needs slashes for it. -/
lemma href_bare {p y : Str} (hp : Protocol T p) (htrim : trim (p ++ y) = p ++ y)
    (h : hostlessProtocol p = true ∨ (slashedProtocol p = true ∧ startsWithSlashes y = false)) :
    href T (p ++ y) = some (p ++ if unsafeProtocol p then y else escapeRest y) := by
  have hfront := hp.front htrim
  have hnot : (front (p ++ y) false).hosted = false := by
    rw [hfront]
    obtain h | ⟨h, hs⟩ := h
    · simp only [h, Bool.not_true, Bool.false_and]
    · simp only [h, hs, Bool.not_true, Bool.or_self, Bool.and_false]
  have hrest : (front (p ++ y) false).rest = y := by
    rw [hfront]
    refine if_neg ?_
    obtain h | ⟨-, hs⟩ := h
    · simp [h]
    · simp [hs]
  have htext : protocolText T (front (p ++ y) false) = p := by
    rw [hfront]
    exact hp.lower
  rw [href_not_hosted hT hnot, tailText_eq, htext, hrest]

/-- A host is read behind a protocol that does not need slashes for it. -/
lemma href_host {p y : Str} (hp : Protocol T p) (htrim : trim (p ++ y) = p ++ y)
    (hsafe : unsafeProtocol p = false) (hopen : slashedProtocol p = false)
    (hs : startsWithSlashes y = false) :
    href T (p ++ y) = (readAuthority T y).bind fun b => (formatAuth (b.auth.getD [])).map fun e =>
      p ++ (hostText b e ++ escapeRest b.rest) := by
  have hostless : hostlessProtocol p = false := hsafe
  have hfront : front (p ++ y) false = ⟨some p, false, true, y⟩ := by
    rw [hp.front htrim, hs, hopen, hostless]
    rfl
  have htext : protocolText T (front (p ++ y) false) = p := by
    rw [hfront]
    exact hp.lower
  have hslashes : ∀ b, slashesText T (front (p ++ y) false) b = false := fun b => by
    unfold slashesText
    rw [htext, hopen, decide_eq_false hp.ne_nil, hfront]
    rfl
  have hfilled : ∀ b, filled (front (p ++ y) false) b = false := fun b => by
    rw [filled, hfront, Option.any_some, hopen, Bool.false_and]
  rw [href_hosted hT (by rw [hfront])]
  simp only [shown, hslashes, hfilled, htext, tailText_eq, hsafe, Bool.false_eq_true, if_false,
    List.nil_append, addSlash_false]
  rw [hfront]

/-- What slashes open a host for: nothing, if it looks like one, or a protocol that has one. -/
def Opens (T : Tables) (p y : Str) : Prop :=
  (p = [] ∧ userAtHost (47 :: 47 :: y) = true) ∨ (Protocol T p ∧ unsafeProtocol p = false)

/-- A host is read behind two slashes. -/
lemma href_slashes {p y : Str} (h : Opens T p y)
    (htrim : trim (p ++ 47 :: 47 :: y) = p ++ 47 :: 47 :: y) :
    href T (p ++ 47 :: 47 :: y) = (readAuthority T y).bind fun b =>
      (formatAuth (b.auth.getD [])).map fun e =>
        p ++ ([47, 47] ++ hostText b e ++
          addSlash true (slashedProtocol p && b.name ≠ []) (escapeRest b.rest)) := by
  have hfront : ∃ proto, front (p ++ 47 :: 47 :: y) false = ⟨proto, true, true, y⟩ ∧
      proto.elim [] T.toLowerCase = p ∧ proto.any slashedProtocol = slashedProtocol p ∧
        unsafeProtocol p = false := by
    obtain ⟨rfl, huser⟩ | ⟨hp, hsafe⟩ := h
    · refine ⟨none, ?_, rfl, by decide, by decide⟩
      rw [List.nil_append] at htrim ⊢
      rw [front_of_slashes htrim, huser]
      rfl
    · have hostless : hostlessProtocol p = false := hsafe
      have hs : startsWithSlashes (47 :: 47 :: y) = true := rfl
      refine ⟨some p, ?_, hp.lower, rfl, hsafe⟩
      rw [hp.front htrim, hostless, hs]
      rfl
  obtain ⟨proto, hfront, htext, hslashed, hsafe⟩ := hfront
  have htext : protocolText T (front (p ++ 47 :: 47 :: y) false) = p := by rw [hfront]; exact htext
  have hslashes : ∀ b, slashesText T (front (p ++ 47 :: 47 :: y) false) b = true := fun b => by
    unfold slashesText
    rw [hfront]
    rfl
  have hfilled : ∀ b, filled (front (p ++ 47 :: 47 :: y) false) b =
      (slashedProtocol p && b.name ≠ []) := fun b => by
    rw [filled, hfront, hslashed]
  rw [href_hosted hT (by rw [hfront])]
  simp only [shown, hslashes, hfilled, htext, tailText_eq, hsafe, Bool.false_eq_true, if_false,
    if_true]
  rw [hfront]

/-- No host is read behind slashes without a protocol. -/
lemma href_path {y : Str} (h : userAtHost (47 :: 47 :: y) = false)
    (htrim : trim (47 :: 47 :: y) = 47 :: 47 :: y) :
    href T (47 :: 47 :: y) = some (escapeRest (47 :: 47 :: y)) := by
  have hfront := front_of_slashes htrim
  rw [h] at hfront
  have htext : protocolText T (front (47 :: 47 :: y) false) = [] := by rw [hfront]; rfl
  have hsafe : unsafeProtocol [] = false := by decide
  have hrest : (front (47 :: 47 :: y) false).rest = 47 :: 47 :: y := by
    rw [hfront, if_neg Bool.false_ne_true]
  rw [href_not_hosted hT (by rw [hfront]), tailText_eq, htext, hrest, hsafe,
    if_neg Bool.false_ne_true, List.nil_append]

end Ways

/-! ### Printed again -/

section Printed

variable (hT : T.Lawful) {p s e r : Str} {a : Authority}
include hT

/-- No host is read where there is none. -/
lemma readAuthority_nil (hr : Behind r) :
    readAuthority T r = some ⟨⟨[], false, r⟩, none, none⟩ := by
  have hnone : ∀ c ∈ ([] : Str), c ∉ nonHostChars ∧ c ≠ 64 := fun _ hc => absurd hc List.not_mem_nil
  have hfits : Fits [] := ⟨Nat.zero_le _, by decide, fun _ _ hc => absurd hc List.not_mem_nil⟩
  have hread : readHostname T [] r = ⟨[], false, r⟩ :=
    hfits.readHostname hT (.inl fun _ hc => absurd hc List.not_mem_nil) nofun
  have hhost := readAuthority_host T hnone hr
  rw [List.nil_append] at hhost
  rw [hhost, show parseHost [] = (none, []) from rfl, hread]

/-- A host that is printed behind slashes. -/
lemma slashes_iff (ha : a.Read T s) (he : formatAuth (a.auth.getD []) = some e)
    (hhost : a.host ≠ []) (hr : Behind r) (hclean : ∀ c ∈ r, c ∉ autoEscape)
    (hslash : a.ipv6 = true → r.head? = some 47)
    (hopen : Opens T p (e ++ (a.host ++ r.rdropWhile isSpace)))
    (htrim : trim (p ++ 47 :: 47 :: (e ++ (a.host ++ r.rdropWhile isSpace))) =
      p ++ 47 :: 47 :: (e ++ (a.host ++ r.rdropWhile isSpace))) :
    href T (p ++ 47 :: 47 :: (e ++ (a.host ++ r.rdropWhile isSpace))) =
        some (p ++ 47 :: 47 :: (e ++ (a.host ++ r))) ↔
      Fits a.hostname ∧ r.rdropWhile isSpace = r ∧
        needsSlash true (slashedProtocol p && a.name ≠ []) r = false := by
  obtain ⟨b, hb, hauth, hsame, hport⟩ := reread ha he hr.trimmed
  rw [href_slashes hT hopen htrim, hb, Option.bind_some, hauth, Option.map_some,
    ← again_iff hT ha he hhost hb hsame hport hr hclean hslash]
  simp only [Option.some.injEq, List.append_cancel_left_eq, List.cons_append, List.nil_append,
    List.cons.injEq, true_and]

omit hT in
lemma not_startsWithSlashes (ha : a.Read T s) (he : formatAuth (a.auth.getD []) = some e)
    (hhost : a.host ≠ []) (y : Str) : startsWithSlashes (e ++ (a.host ++ y)) = false := by
  have hno : ∀ (c : UInt16) (z : Str), c ≠ 47 → startsWithSlashes (c :: z) = false := by
    intro c z hc
    refine decide_eq_false fun h => hc ?_
    rw [List.take_succ_cons] at h
    exact (List.cons.inj h).1
  obtain ⟨-, rfl⟩ | ⟨e', -, hne, rfl, -, hchars⟩ := formatAuth_cases he
  · cases hcons : a.host with
    | nil => exact absurd hcons hhost
    | cons c z =>
      refine hno c _ fun hc => ?_
      exact (ha.host_chars c (hcons ▸ List.mem_cons_self)).1 (hc ▸ by decide)
  · cases e' with
    | nil => exact absurd rfl hne
    | cons c z =>
      refine hno c _ fun hc => ?_
      exact (hchars c List.mem_cons_self).1 (hc ▸ by decide)

/-- A host that is printed behind the protocol alone. -/
lemma host_iff (ha : a.Read T s) (he : formatAuth (a.auth.getD []) = some e)
    (hhost : a.host ≠ []) (hr : Behind r) (hclean : ∀ c ∈ r, c ∉ autoEscape)
    (hslash : a.ipv6 = true → r.head? = some 47) (hp : Protocol T p)
    (hsafe : unsafeProtocol p = false) (hopen : slashedProtocol p = false)
    (htrim : trim (p ++ (e ++ (a.host ++ r.rdropWhile isSpace))) =
      p ++ (e ++ (a.host ++ r.rdropWhile isSpace))) :
    href T (p ++ (e ++ (a.host ++ r.rdropWhile isSpace))) = some (p ++ (e ++ (a.host ++ r))) ↔
      Fits a.hostname ∧ r.rdropWhile isSpace = r := by
  obtain ⟨b, hb, hauth, hsame, hport⟩ := reread ha he hr.trimmed
  have hiff : hostText b e ++ addSlash false (false && b.name ≠ []) (escapeRest b.rest) =
      e ++ (a.host ++ r) ↔ _ := again_iff hT ha he hhost hb hsame hport hr hclean hslash
  simp only [Bool.false_and, addSlash_false, needsSlash_false, and_true] at hiff
  have hs : startsWithSlashes (e ++ (a.host ++ r.rdropWhile isSpace)) = false :=
    not_startsWithSlashes ha he hhost _
  rw [href_host hT hp htrim hsafe hopen hs, hb, Option.bind_some, hauth, Option.map_some, ← hiff]
  simp only [Option.some.injEq, List.append_cancel_left_eq]

/-- No host, behind slashes. -/
lemma slashes_nil_iff (hr : Behind r) (hclean : ∀ c ∈ r, c ∉ autoEscape)
    (hneeds : needsSlash true false r = false) (hopen : Opens T p (r.rdropWhile isSpace))
    (htrim : trim (p ++ 47 :: 47 :: r.rdropWhile isSpace) = p ++ 47 :: 47 :: r.rdropWhile isSpace) :
    href T (p ++ 47 :: 47 :: r.rdropWhile isSpace) = some (p ++ 47 :: 47 :: r) ↔
      r.rdropWhile isSpace = r := by
  have hescape : escapeRest (r.rdropWhile isSpace) = r.rdropWhile isSpace :=
    escapeRest_of_clean fun d hd => hclean d ((List.rdropWhile_prefix isSpace r).subset hd)
  have hname : Authority.name ⟨⟨[], false, r.rdropWhile isSpace⟩, none, none⟩ = [] := rfl
  have htext : hostText ⟨⟨[], false, r.rdropWhile isSpace⟩, none, none⟩ [] = [] := rfl
  rw [href_slashes hT hopen htrim, readAuthority_nil hT hr.trimmed, Option.bind_some,
    show formatAuth ((none : Option Str).getD []) = some [] from rfl, Option.map_some, hname, htext,
    hescape]
  simp only [Option.some.injEq, List.append_cancel_left_eq, List.cons_append, List.nil_append,
    List.cons.injEq, true_and, ne_eq, not_true_eq_false, decide_false, Bool.and_false]
  constructor
  · exact fun h => (addSlash_trimmed h).1
  · intro h
    rw [h, addSlash, hneeds, if_neg Bool.false_ne_true]

end Printed

end NodeCore.UrlParse
