import NodeCore.UrlAgain

/-!
Whether `url.parse` is stable under printing.

What `href` holds is read again. Where no host was read it always gives itself; where one was,
there are four things that can make it be read otherwise, and if none is the case it gives itself
too.
-/

namespace NodeCore.UrlParse

open Encoding Uri

variable {T : Tables}

/-! ### What was printed -/

/-- The text in front of what is behind the host. -/
def shownHead (T : Tables) (f : Front) (a : Authority) (e : Str) : Str :=
  protocolText T f ++ ((if slashesText T f a then [47, 47] else []) ++ hostText a e)

/-- What is behind the host, as it is printed. -/
def shownTail (T : Tables) (f : Front) (a : Authority) : Str :=
  addSlash (slashesText T f a) (filled f a) (tailText T f a.rest)

lemma shown_eq (f : Front) (a : Authority) (e : Str) :
    shown T f a e = shownHead T f a e ++ shownTail T f a := by
  simp only [shown, shownHead, shownTail, List.append_assoc]

/-- Where a host is read without slashes there is a protocol that needs none. -/
lemma front_hosted {u : Str} (h : (front u false).hosted = true) :
    (front u false).slashes = true ∨
      ∃ p, (front u false).proto = some p ∧ slashedProtocol p = false := by
  simp only [front] at h ⊢
  generalize ((false || (takeProtocol (trim u)).1.isSome || userAtHost (takeProtocol (trim u)).2) &&
    startsWithSlashes (takeProtocol (trim u)).2) = slashes at h ⊢
  generalize (takeProtocol (trim u)).1 = proto at h ⊢
  cases proto with
  | none => cases slashes <;> simp at h ⊢
  | some p =>
    by_cases hp : slashedProtocol p = true
    · cases slashes <;> simp [hp] at h ⊢
      exact h
    · exact .inr ⟨p, rfl, Bool.eq_false_iff.mpr hp⟩

lemma protocolText_cases (hT : T.Lawful) (u : Str) :
    ((front u false).proto = none ∧ protocolText T (front u false) = []) ∨
      ((front u false).proto.isSome = true ∧ Protocol T (protocolText T (front u false))) := by
  cases h : (front u false).proto with
  | none => exact .inl ⟨rfl, by rw [protocolText, h]; rfl⟩
  | some p =>
    refine .inr ⟨rfl, ?_⟩
    rw [protocolText, h]
    exact hT.protocol_lower h

lemma Protocol.head {p : Str} (hp : Protocol T p) :
    ∀ c, p.head? = some c → isSpace c = false := by
  obtain ⟨n, hne, hchars, rfl⟩ := hp.pattern
  intro c hc
  rw [List.head?_append_of_ne_nil _ hne] at hc
  have hall : ∀ d ∈ spaces, isProtocolChar d = false := by decide
  refine decide_eq_false fun hm => ?_
  cases (hchars c (List.mem_of_head? hc)).symm.trans (hall c hm)

lemma Authority.Read.host_last {s : Str} {a : Authority} (ha : a.Read T s) :
    ∀ c, a.host.getLast? = some c → isSpace c = false := by
  intro c hc
  unfold Authority.host at hc
  cases hport : a.port with
  | none =>
    rw [hport, Option.elim_none, List.append_nil] at hc
    exact ha.named.last c hc
  | some d =>
    obtain ⟨hne, hdigits⟩ := ha.port d hport
    have hlast : (58 :: d : Str).getLast? = d.getLast? :=
      List.getLast?_append_of_ne_nil [58] hne
    rw [hport, Option.elim_some, List.getLast?_append_of_ne_nil _ (List.cons_ne_nil _ _),
      hlast] at hc
    exact (digit_not_nonHostChars (hdigits c (List.mem_of_getLast? hc))).2.2

/-- Slashes are printed where there is no protocol. -/
lemma slashesText_of_no_protocol (hT : T.Lawful) {u : Str} (hu : (front u false).hosted = true)
    (a : Authority) (h : protocolText T (front u false) = []) :
    slashesText T (front u false) a = true := by
  obtain hs | ⟨p, hp, -⟩ := front_hosted hu
  · rw [slashesText, hs, Bool.true_or]
  · refine absurd h ?_
    rw [protocolText, hp]
    exact (hT.protocol_lower hp).ne_nil

section Shown

variable (hT : T.Lawful) {u s e : Str} {a : Authority} (hu : (front u false).hosted = true)
  (ha : a.Read T s)

include hT hu ha in
/-- White space at the end of what was printed is at the end of what is behind the host. -/
lemma trim_shown :
    trim (shown T (front u false) a e) =
      shownHead T (front u false) a e ++ (shownTail T (front u false) a).rdropWhile isSpace := by
  have hopen := slashesText_of_no_protocol hT hu a
  rw [shown_eq]
  refine trim_append (fun c hc => ?_) (fun c hc => ?_) ?_
  · obtain ⟨-, hp⟩ | ⟨-, hp⟩ := protocolText_cases hT u
    · rw [shownHead, hp, hopen hp] at hc
      obtain rfl := Option.some.inj hc
      decide
    · rw [shownHead, List.head?_append_of_ne_nil _ hp.ne_nil] at hc
      exact hp.head c hc
  · unfold shownHead hostText at hc
    split_ifs at hc with hs hhost hhost
    · rw [List.append_nil, List.getLast?_append_of_ne_nil _ (List.cons_ne_nil _ _)] at hc
      obtain rfl := Option.some.inj hc
      decide
    · rw [← List.append_assoc, ← List.append_assoc, List.getLast?_append_of_ne_nil _ hhost] at hc
      exact ha.host_last c hc
    · obtain ⟨-, hp⟩ | ⟨-, hp⟩ := protocolText_cases hT u
      · exact absurd (hopen hp) hs
      · obtain ⟨n, -, -, hn⟩ := hp.pattern
        rw [hn, List.append_nil, List.append_nil, List.getLast?_append_cons] at hc
        obtain rfl := Option.some.inj hc
        decide
    · rw [← List.append_assoc, ← List.append_assoc, List.getLast?_append_of_ne_nil _ hhost] at hc
      exact ha.host_last c hc
  · obtain ⟨-, hp⟩ | ⟨-, hp⟩ := protocolText_cases hT u
    · rw [shownHead, hp, hopen hp]
      exact List.cons_ne_nil _ _
    · exact List.append_ne_nil_of_left_ne_nil hp.ne_nil _

end Shown

/-! ### What is printed behind the host -/

lemma mem_addSlash {slashes filled : Bool} {t : Str} {c : UInt16}
    (h : c ∈ addSlash slashes filled t) : c = 47 ∨ c ∈ t := by
  unfold addSlash at h
  split_ifs at h
  · exact List.mem_cons.mp h
  · exact .inr h

lemma getLast_addSlash (slashes filled : Bool) (t : Str) :
    (∀ c, (addSlash slashes filled t).getLast? = some c → isSpace c = false) ↔
      ∀ c, t.getLast? = some c → isSpace c = false := by
  unfold addSlash
  split_ifs
  · cases t with
    | nil =>
      refine ⟨fun _ => nofun, fun _ c hc => ?_⟩
      obtain rfl := Option.some.inj hc
      decide
    | cons d t => rw [List.getLast?_cons_cons]
  · exact Iff.rfl

lemma cutTail_slash (t : Str) : (cutTail (47 :: t)).pathname = 47 :: (cutTail t).pathname := rfl

/-- A path that starts with a slash needs none. -/
lemma needsSlash_addSlash (c filled : Bool) (t : Str) :
    needsSlash true c (addSlash true filled t) = true ↔
      c = true ∧ filled = false ∧ (cutTail t).pathname = [] := by
  unfold addSlash
  split_ifs with h
  · have hnot : needsSlash true c (47 :: t) = false := by
      unfold needsSlash
      rw [cutTail_slash]
      rfl
    rw [hnot]
    unfold needsSlash at h
    constructor
    · exact nofun
    · rintro ⟨-, rfl, hnil⟩
      rw [if_pos hnil] at h
      exact h
  · unfold needsSlash at h ⊢
    by_cases hnil : (cutTail t).pathname = []
    · rw [if_pos hnil] at h ⊢
      rw [Bool.not_eq_true] at h
      exact ⟨fun hc => ⟨hc, h, hnil⟩, fun hc => hc.1⟩
    · rw [if_neg hnil] at h ⊢
      exact ⟨fun hc => absurd hc h, fun hc => absurd hc.2.2 hnil⟩

section Tail

variable {s : Str} {a : Authority} {f : Front}

lemma tailText_safe (hsafe : unsafeProtocol (protocolText T f) = false) (rest : Str) :
    tailText T f rest = escapeRest rest := by
  rw [tailText_eq, hsafe, if_neg Bool.false_ne_true]

lemma shownTail_behind (ha : a.Read T s) (hsafe : unsafeProtocol (protocolText T f) = false) :
    Behind (shownTail T f a) := by
  rw [shownTail, tailText_safe hsafe]
  exact ha.behind.escape.addSlash _ _

lemma shownTail_clean (hsafe : unsafeProtocol (protocolText T f) = false) :
    ∀ c ∈ shownTail T f a, c ∉ autoEscape := by
  intro c hc
  rw [shownTail, tailText_safe hsafe] at hc
  obtain rfl | hc := mem_addSlash hc
  · decide
  · exact not_autoEscape_of_mem_escapeRest hc

lemma shownTail_slash (ha : a.Read T s) (hsafe : unsafeProtocol (protocolText T f) = false)
    (h : a.ipv6 = true) : (shownTail T f a).head? = some 47 := by
  have hrest := ha.slash h
  rw [shownTail, tailText_safe hsafe]
  unfold addSlash
  split_ifs
  · rfl
  · cases hcons : a.rest with
    | nil =>
      rw [hcons] at hrest
      cases hrest
    | cons c rest =>
      rw [hcons] at hrest
      obtain rfl := Option.some.inj hrest
      rw [escapeRest_cons]
      rfl

lemma shownTail_trimmed : (shownTail T f a).rdropWhile isSpace = shownTail T f a ↔
    ∀ c, (tailText T f a.rest).getLast? = some c → isSpace c = false := by
  rw [rdropWhile_eq_self_iff, shownTail, getLast_addSlash]

end Tail

/-! ### When printing changes nothing more -/

/-- The text behind two slashes is an authority, and a path, as they are printed. -/
def AsPrinted (T : Tables) (p x : Str) : Prop :=
  ∃ b e, readAuthority T x = some b ∧ formatAuth (b.auth.getD []) = some e ∧
    hostText b e ++ addSlash true (slashedProtocol p && b.name ≠ []) (escapeRest b.rest) = x

/-- None of the four things is the case that make a URL with a host be read otherwise when it is
printed. -/
structure Settled (T : Tables) (f : Front) (a : Authority) : Prop where
  /-- White space from in front of a port ends the text. -/
  space : ∀ c, (tailText T f a.rest).getLast? = some c → isSpace c = false
  /-- Encoding makes the hostname too long. Without a protocol this does no harm if there is no
  user either, and a path: no host is read the second time. -/
  fits : unsafeProtocol (protocolText T f) = false → a.host ≠ [] →
    f.proto.isSome = true ∨ a.auth ≠ none ∨ (cutTail (tailText T f a.rest)).pathname = [] →
      Fits a.hostname
  /-- A path is filled in only once the protocol is in lower case. -/
  path : unsafeProtocol (protocolText T f) = false → slashedProtocol (protocolText T f) = true →
    f.proto.any slashedProtocol = false → a.name ≠ [] →
      (cutTail (tailText T f a.rest)).pathname ≠ []
  /-- The host is empty and not printed, and the slashes of the path are read as its slashes. -/
  slashes : unsafeProtocol (protocolText T f) = false → f.slashes = false → a.host = [] →
    startsWithSlashes (tailText T f a.rest) = true →
      AsPrinted T (protocolText T f) ((tailText T f a.rest).drop 2)

lemma shownHead_slashes {f : Front} {a : Authority} (h : slashesText T f a = true) (e x : Str) :
    shownHead T f a e ++ x = protocolText T f ++ 47 :: 47 :: (hostText a e ++ x) := by
  rw [shownHead, h, if_pos rfl, List.append_assoc]
  rfl

lemma shownHead_bare {f : Front} {a : Authority} (h : slashesText T f a = false) (e x : Str) :
    shownHead T f a e ++ x = protocolText T f ++ (hostText a e ++ x) := by
  rw [shownHead, h, if_neg Bool.false_ne_true, List.append_assoc, List.nil_append]

/-- The rest ends as the URL does. -/
lemma front_rest_last {u : Str} {c : UInt16} (h : (front u false).rest.getLast? = some c) :
    isSpace c = false := by
  have hsuffix : (front u false).rest <:+ trim u := by
    have hproto : (takeProtocol (trim u)).2 <:+ trim u := by
      unfold takeProtocol
      cases hp : protocolPattern (trim u) with
      | none => exact List.suffix_refl _
      | some p =>
        obtain ⟨_, -, -, -, hs⟩ := protocolPattern_eq_some (hp : _ = some (p.1, p.2))
        exact ⟨p.1, hs.symm⟩
    simp only [front]
    split_ifs
    · exact (List.drop_suffix _ _).trans hproto
    · exact hproto
  obtain ⟨x, hx⟩ := hsuffix
  refine (trimmed_trim u).last c ?_
  rw [← hx, List.getLast?_append, h]
  rfl

/-- The front of a text without a protocol. -/
lemma front_of_no_protocol {x : Str} (htrim : trim x = x) (hp : protocolPattern x = none) :
    front x false = ⟨none, userAtHost x && startsWithSlashes x,
      userAtHost x && startsWithSlashes x,
      if userAtHost x && startsWithSlashes x then x.drop 2 else x⟩ := by
  simp only [front, htrim, takeProtocol, hp, Option.isSome_none, Option.any_none, Bool.false_or,
    Bool.or_false, Bool.not_false, Bool.and_true, Bool.true_and]

section Cases

variable (hT : T.Lawful) {u e : Str} {a : Authority} (hu : (front u false).hosted = true)
  (ha : readAuthority T (front u false).rest = some a)
  (he : formatAuth (a.auth.getD []) = some e)

include hT hu ha in
/-- The text that is read again. -/
lemma trim_again : trim (shownHead T (front u false) a e ++
      (shownTail T (front u false) a).rdropWhile isSpace) =
    shownHead T (front u false) a e ++ (shownTail T (front u false) a).rdropWhile isSpace := by
  rw [← trim_shown hT hu (.of_eq hT ha), trim_trim]

include hT hu ha in
lemma settled_unsafe (hp : unsafeProtocol (protocolText T (front u false)) = true) :
    href T (shown T (front u false) a e) = some (shown T (front u false) a e) ↔
      Settled T (front u false) a := by
  have htrim := trim_again hT hu ha (e := e)
  have hprotocol : Protocol T (protocolText T (front u false)) := by
    obtain ⟨-, h⟩ | ⟨-, h⟩ := protocolText_cases hT u
    · rw [h] at hp
      cases hp
    · exact h
  rw [← href_trim, trim_shown hT hu (.of_eq hT ha), shown_eq]
  unfold shownHead at htrim ⊢
  simp only [List.append_assoc] at htrim ⊢
  rw [href_bare hT hprotocol htrim (.inl hp), if_pos hp]
  simp only [Option.some.injEq, List.append_cancel_left_eq, shownTail_trimmed]
  constructor
  · intro h
    refine ⟨h, fun hs => ?_, fun hs => ?_, fun hs => ?_⟩ <;> cases hp.symm.trans hs
  · exact Settled.space

/-- Where nothing opens a host, there is no protocol and nothing in front of the host. -/
lemma userAtHost_of_auth {s x : Str} (hread : a.Read T s)
    (he : formatAuth (a.auth.getD []) = some e) (hhost : a.host ≠ []) (hne : e ≠ []) :
    userAtHost (47 :: 47 :: (e ++ (a.host ++ x))) = true := by
  obtain ⟨-, rfl⟩ | ⟨e', -, hne', rfl, -, hchars⟩ := formatAuth_cases he
  · exact absurd rfl hne
  · cases hcons : a.host with
    | nil => exact absurd hcons hhost
    | cons c z =>
      obtain ⟨hc, hat⟩ := hread.host_chars c (hcons ▸ List.mem_cons_self)
      have hslash : c ≠ 47 := fun h => hc (h ▸ by decide)
      have hpos : ∀ d ∈ e', isUserChar d = true := fun d hd => (hchars d hd).2
      have hstop : ∀ d, (64 :: (c :: z ++ x) : Str).head? = some d → isUserChar d = false := by
        rintro d ⟨⟩
        rfl
      rw [List.append_assoc, List.singleton_append]
      simp only [userAtHost, takeWhile_stop hpos hstop, dropWhile_stop hpos hstop]
      exact decide_eq_true ⟨hne', decide_eq_true ⟨hat, hslash⟩⟩

include hu in
/-- Where a host was read without a protocol, two slashes and a user were there. -/
lemma userAtHost_of_hosted (hproto : (front u false).proto = none) :
    userAtHost (47 :: 47 :: (front u false).rest) = true := by
  have hpattern : protocolPattern (trim u) = none := by
    cases hp : protocolPattern (trim u) with
    | none => rfl
    | some p =>
      simp only [front, takeProtocol, hp] at hproto
      cases hproto
  have hfront := front_of_no_protocol (trim_trim u) hpattern
  rw [front_trim] at hfront
  have hboth : (userAtHost (trim u) && startsWithSlashes (trim u)) = true := by
    rw [hfront] at hu
    exact hu
  obtain ⟨huser, hs⟩ := Bool.and_eq_true_iff.mp hboth
  obtain ⟨y, hy⟩ := startsWithSlashes_iff.mp hs
  rw [hfront, hboth, if_pos rfl, hy, List.drop_succ_cons, List.drop_succ_cons, List.drop_zero, ← hy]
  exact huser

/-- A user that is there is printed. -/
lemma auth_ne_nil {s x : Str} (hat : userAtHost (47 :: 47 :: s) = true)
    (ha : readAuthority T s = some a) (hauth : a.auth = some x) : x ≠ [] := by
  rintro rfl
  have hsplit : (splitAuth s).1 = some [] := by
    simp only [readAuthority] at ha
    split at ha
    next raw hraw =>
      obtain ⟨y, hdec, rfl⟩ := Option.map_eq_some_iff.mp ha
      obtain rfl := Option.some.inj hauth
      rw [hraw]
      exact congrArg some (not_not.mp fun hne => decode_ne_nil hne hdec)
    next =>
      obtain rfl := Option.some.inj ha
      cases hauth
  obtain ⟨hno, -⟩ | ⟨y, z, hcut, hs, -⟩ := cutLastAt_cases (s.takeWhile (· ∉ hostEndingChars))
  · rw [splitAuth, hno] at hsplit
    cases hsplit
  · rw [splitAuth, hcut] at hsplit
    obtain rfl := Option.some.inj hsplit
    have hstart := List.takeWhile_append_dropWhile (p := (· ∉ hostEndingChars)) (l := s)
    rw [hs] at hstart
    refine (userAtHost_iff.mp hat).1 ?_
    rw [← hstart]
    rfl

lemma isUserChar_of_host {c : UInt16} (h : c ∉ nonHostChars ∧ c ≠ 64) : isUserChar c = true := by
  refine decide_eq_true ⟨h.2, ?_⟩
  rintro rfl
  exact h.1 (by decide)

/-- Where no path is left, the rest is what was there. -/
lemma rest_of_no_path {s : Str} (ha : readAuthority T s = some a) (hauth : a.auth = none)
    (hpath : (cutTail (escapeRest a.rest)).pathname = []) :
    ∃ x, (∀ c ∈ x, isUserChar c = true) ∧ s = x ++ a.rest := by
  have hsplit : (splitAuth s).2 = s := by
    simp only [readAuthority] at ha
    split at ha
    next raw hraw =>
      obtain ⟨y, -, rfl⟩ := Option.map_eq_some_iff.mp ha
      cases hauth
    next hraw =>
      unfold splitAuth at hraw ⊢
      split at hraw
      · cases hraw
      next => rfl
  obtain ⟨hhost, -⟩ := readAuthority_eq_some ha
  rw [hsplit] at hhost
  obtain hr | ⟨m, -, hr⟩ := readHostname_rest T
    (parseHost (s.takeWhile (· ∉ nonHostChars))).2 (s.dropWhile (· ∉ nonHostChars))
  · rw [← hhost] at hr
    refine ⟨s.takeWhile (· ∉ nonHostChars), fun c hc => ?_, ?_⟩
    · refine isUserChar_of_host ⟨of_decide_eq_true (mem_takeWhile hc), ?_⟩
      rintro rfl
      have huser := (splitAuth_spec s).2
      rw [hsplit] at huser
      exact huser (mem_takeWhile_mono not_hostEnding_of_not_nonHost hc)
    · rw [hr, List.takeWhile_append_dropWhile]
  · rw [← hhost] at hr
    rw [hr, List.cons_append, escapeRest_cons_slash, cutTail_slash] at hpath
    cases hpath

/-- A path behind slashes starts with one. -/
lemma addSlash_of_path {filled : Bool} {t : Str} (h : (cutTail t).pathname ≠ []) :
    ∃ z, addSlash true filled t = 47 :: z := by
  unfold addSlash
  split_ifs with hneeds
  · exact ⟨t, rfl⟩
  · rw [needsSlash, if_neg h, Bool.true_and, decide_eq_true_eq, not_not] at hneeds
    have ht := cutTail_append t
    rw [List.append_assoc] at ht
    cases hp : (cutTail t).pathname with
    | nil => exact absurd hp h
    | cons c z =>
      rw [hp] at ht hneeds
      obtain rfl := Option.some.inj hneeds
      exact ⟨_, ht.symm⟩

lemma not_atHost_slash (s : Str) : ¬ AtHost (47 :: s) := by
  rintro ⟨c, y, hcut, -⟩
  rw [List.dropWhile_cons_of_neg (by decide)] at hcut
  exact absurd (List.cons.inj hcut).1 (by decide)

include hT hu ha he in
/-- What is printed without a protocol is read as a host again if there is a user, or no path. -/
lemma userAtHost_shown (hproto : (front u false).proto = none) (hhost : a.host ≠ []) :
    userAtHost (47 :: 47 :: (hostText a e ++ shownTail T (front u false) a)) = true ↔
      a.auth ≠ none ∨ (cutTail (tailText T (front u false) a.rest)).pathname = [] := by
  have hread := Authority.Read.of_eq hT ha
  have hat := userAtHost_of_hosted hu hproto
  have htext : hostText a e = e ++ a.host := if_neg hhost
  have hsafe : unsafeProtocol (protocolText T (front u false)) = false := by
    rw [protocolText, hproto, Option.elim_none]
    decide
  have hslashes : (front u false).slashes = true := by
    obtain h | ⟨p, hp, -⟩ := front_hosted hu
    · exact h
    · cases hproto.symm.trans hp
  have htail : shownTail T (front u false) a = addSlash true false (escapeRest a.rest) := by
    rw [shownTail, tailText_safe hsafe, slashesText, hslashes, filled, hproto]
    rfl
  rw [htext, tailText_safe hsafe, htail]
  cases hauth : a.auth with
  | some x =>
    have hne : e ≠ [] := by
      rintro rfl
      obtain ⟨hnil, -⟩ | ⟨e', -, -, hcons, -⟩ := formatAuth_cases he
      · rw [hauth] at hnil
        exact auth_ne_nil hat ha hauth hnil
      · exact List.append_ne_nil_of_right_ne_nil _ (List.cons_ne_nil _ _) hcons.symm
    rw [List.append_assoc]
    exact iff_of_true (userAtHost_of_auth hread he hhost hne) (.inl (Option.some_ne_none x))
  | none =>
    have hnil : e = [] := by
      rw [hauth] at he
      exact (Option.some.inj he).symm
    have hchars : ∀ c ∈ a.host, isUserChar c = true := fun c hc =>
      isUserChar_of_host (hread.host_chars c hc)
    rw [hnil, List.nil_append, userAtHost_append hchars hhost]
    have hnone : ¬ ((none : Option Str) ≠ none) := fun h => h rfl
    rw [or_iff_right hnone]
    by_cases hpath : (cutTail (escapeRest a.rest)).pathname = []
    · have hneeds : needsSlash true false (escapeRest a.rest) = false := by
        rw [needsSlash, if_pos hpath]
      rw [addSlash, hneeds, if_neg Bool.false_ne_true, atHost_escapeRest]
      obtain ⟨x, hx, hrest⟩ := rest_of_no_path ha hauth hpath
      have hthere := (userAtHost_iff.mp hat).2
      rw [hrest, AtHost, List.dropWhile_append_of_pos hx] at hthere
      exact iff_of_true hthere hpath
    · refine iff_of_false (fun h => ?_) hpath
      obtain ⟨z, hz⟩ := addSlash_of_path hpath
      rw [hz] at h
      exact not_atHost_slash z h

include hT hu ha he in
lemma settled_path (hsafe : unsafeProtocol (protocolText T (front u false)) = false)
    (hs : slashesText T (front u false) a = true)
    (hopen : ¬ Opens T (protocolText T (front u false))
      (hostText a e ++ (shownTail T (front u false) a).rdropWhile isSpace)) :
    href T (shown T (front u false) a e) = some (shown T (front u false) a e) ↔
      Settled T (front u false) a := by
  have hread := Authority.Read.of_eq hT ha
  have htrim := trim_again hT hu ha (e := e)
  obtain ⟨hproto, hp⟩ : (front u false).proto = none ∧ protocolText T (front u false) = [] := by
    obtain h | ⟨-, h⟩ := protocolText_cases hT u
    · exact h
    · exact absurd (.inr ⟨h, hsafe⟩) hopen
  have huser : userAtHost (47 :: 47 :: (hostText a e ++
      (shownTail T (front u false) a).rdropWhile isSpace)) = false :=
    Bool.eq_false_iff.mpr fun h => hopen (.inl ⟨hp, h⟩)
  have hclean : escapeRest (47 :: 47 :: (hostText a e ++
      (shownTail T (front u false) a).rdropWhile isSpace)) = 47 :: 47 :: (hostText a e ++
        (shownTail T (front u false) a).rdropWhile isSpace) := by
    have hauto : ∀ c ∈ autoEscape, c ∈ nonHostChars := by decide
    refine escapeRest_of_clean fun c hc => ?_
    obtain rfl | hc := List.mem_cons.mp hc
    · decide
    obtain rfl | hc := List.mem_cons.mp hc
    · decide
    obtain hc | hc := List.mem_append.mp hc
    · unfold hostText at hc huser
      split_ifs at hc huser with hhost
      · cases hc
      · have hnil : e = [] := by
          by_contra hne
          rw [List.append_assoc, userAtHost_of_auth hread he hhost hne] at huser
          cases huser
        rw [hnil, List.nil_append] at hc
        exact fun hm => (hread.host_chars c hc).1 (hauto c hm)
    · exact shownTail_clean hsafe c ((List.rdropWhile_prefix isSpace _).subset hc)
  rw [shownHead_slashes hs, hp, List.nil_append] at htrim
  rw [← href_trim, trim_shown hT hu hread, shown_eq, shownHead_slashes hs, shownHead_slashes hs, hp,
    List.nil_append, List.nil_append, href_path hT huser htrim, hclean]
  simp only [Option.some.injEq, List.append_cancel_left_eq, List.cons.injEq, true_and,
    shownTail_trimmed]
  constructor
  · intro h
    refine ⟨h, fun _ hhost hagain => ?_, fun _ hslashed => ?_, fun _ hf => ?_⟩
    · rw [shownTail_trimmed.mpr h] at huser
      rw [hproto, ← userAtHost_shown hT hu ha he hproto hhost, huser] at hagain
      simp at hagain
    · rw [hp] at hslashed
      cases hslashed
    · obtain hf' | ⟨p, hp', -⟩ := front_hosted hu
      · cases hf.symm.trans hf'
      · cases hproto.symm.trans hp'
  · exact Settled.space

include hT hu ha he in
lemma settled_slashes_host (hsafe : unsafeProtocol (protocolText T (front u false)) = false)
    (hs : slashesText T (front u false) a = true) (hhost : a.host ≠ [])
    (hopen : Opens T (protocolText T (front u false))
      (hostText a e ++ (shownTail T (front u false) a).rdropWhile isSpace)) :
    href T (shown T (front u false) a e) = some (shown T (front u false) a e) ↔
      Settled T (front u false) a := by
  have hread := Authority.Read.of_eq hT ha
  have htrim := trim_again hT hu ha (e := e)
  have htext : hostText a e = e ++ a.host := if_neg hhost
  have hneeds := needsSlash_addSlash
    (slashedProtocol (protocolText T (front u false)) && a.name ≠ []) (filled (front u false) a)
    (tailText T (front u false) a.rest)
  rw [← hs, ← shownTail, hs] at hneeds
  rw [shownHead_slashes hs, htext, List.append_assoc] at htrim
  rw [← href_trim, trim_shown hT hu hread, shown_eq, shownHead_slashes hs, shownHead_slashes hs]
  rw [htext, List.append_assoc] at hopen ⊢
  rw [List.append_assoc, slashes_iff hT hread he hhost (shownTail_behind hread hsafe)
    (shownTail_clean hsafe) (shownTail_slash hread hsafe) hopen htrim, shownTail_trimmed]
  constructor
  · rintro ⟨hfits, hspace, hno⟩
    refine ⟨hspace, fun _ _ _ => hfits, fun _ hslashed hproto hname hnil => ?_, fun _ _ hnil => ?_⟩
    · refine Bool.false_ne_true (hno.symm.trans (hneeds.mpr ⟨?_, ?_, hnil⟩))
      · rw [hslashed, Bool.true_and, decide_eq_true hname]
      · rw [filled, hproto, Bool.false_and]
    · exact absurd hnil hhost
  · intro h
    refine ⟨h.fits hsafe hhost ?_, h.space, Bool.eq_false_iff.mpr fun hno => ?_⟩
    · obtain ⟨hp, huser⟩ | ⟨hp, -⟩ := hopen
      · rw [shownTail_trimmed.mpr h.space] at huser
        obtain ⟨hproto, -⟩ | ⟨-, hprotocol⟩ := protocolText_cases hT u
        · refine .inr ((userAtHost_shown hT hu ha he hproto hhost).mp ?_)
          rwa [htext, List.append_assoc]
        · exact absurd hp hprotocol.ne_nil
      · obtain ⟨-, hnil⟩ | ⟨hsome, -⟩ := protocolText_cases hT u
        · exact absurd hnil hp.ne_nil
        · exact .inl hsome
    · obtain ⟨hc, hfilled, hnil⟩ := hneeds.mp hno
      rw [Bool.and_eq_true, decide_eq_true_eq] at hc
      rw [filled, decide_eq_true hc.2, Bool.and_true] at hfilled
      exact h.path hsafe hc.1 hfilled hc.2 hnil

include hT hu ha in
lemma settled_slashes_nil (hsafe : unsafeProtocol (protocolText T (front u false)) = false)
    (hs : slashesText T (front u false) a = true) (hhost : a.host = [])
    (hopen : Opens T (protocolText T (front u false))
      (hostText a e ++ (shownTail T (front u false) a).rdropWhile isSpace)) :
    href T (shown T (front u false) a e) = some (shown T (front u false) a e) ↔
      Settled T (front u false) a := by
  have hread := Authority.Read.of_eq hT ha
  have htrim := trim_again hT hu ha (e := e)
  have htext : hostText a e = [] := if_pos hhost
  have hname := Authority.name_eq_nil hhost
  have hneeds : needsSlash true false (shownTail T (front u false) a) = false := by
    refine Bool.eq_false_iff.mpr fun h => ?_
    rw [shownTail, hs, needsSlash_addSlash] at h
    exact Bool.false_ne_true h.1
  rw [shownHead_slashes hs, htext, List.nil_append] at htrim
  rw [htext, List.nil_append] at hopen
  rw [← href_trim, trim_shown hT hu hread, shown_eq, shownHead_slashes hs, shownHead_slashes hs,
    htext, List.nil_append, List.nil_append, slashes_nil_iff hT (shownTail_behind hread hsafe)
      (shownTail_clean hsafe) hneeds hopen htrim, shownTail_trimmed]
  constructor
  · intro h
    refine ⟨h, fun _ hne => absurd hhost hne, fun _ _ _ hne => absurd hname hne, fun _ hf => ?_⟩
    rw [slashesText, hf, Bool.false_or, hhost] at hs
    simp at hs
  · exact Settled.space

include hT hu in
/-- Where no slashes are printed there were none, and the protocol did not need them. -/
lemma bare_facts (hs : slashesText T (front u false) a = false) :
    Protocol T (protocolText T (front u false)) ∧ (front u false).proto.isSome = true ∧
      (front u false).proto.any slashedProtocol = false ∧
        (a.host ≠ [] → slashedProtocol (protocolText T (front u false)) = false) := by
  rw [slashesText, Bool.or_eq_false_iff] at hs
  obtain hf | ⟨p, hp, hopen⟩ := front_hosted hu
  · cases hf.symm.trans hs.1
  · have hprotocol : Protocol T (protocolText T (front u false)) := by
      rw [protocolText, hp]
      exact hT.protocol_lower hp
    refine ⟨hprotocol, by rw [hp]; rfl, by rw [hp]; exact hopen, fun hhost => ?_⟩
    have hand := hs.2
    rw [decide_eq_true hhost, Bool.and_true, Bool.or_eq_false_iff] at hand
    exact hand.2

include hT hu in
lemma shownTail_bare (hs : slashesText T (front u false) a = false) :
    shownTail T (front u false) a = tailText T (front u false) a.rest := by
  obtain ⟨-, -, hopen, -⟩ := bare_facts hT hu hs
  rw [shownTail, hs, filled, hopen, Bool.false_and, addSlash_false]

include hT hu ha he in
lemma settled_bare_host (hsafe : unsafeProtocol (protocolText T (front u false)) = false)
    (hs : slashesText T (front u false) a = false) (hhost : a.host ≠ []) :
    href T (shown T (front u false) a e) = some (shown T (front u false) a e) ↔
      Settled T (front u false) a := by
  have hread := Authority.Read.of_eq hT ha
  have htrim := trim_again hT hu ha (e := e)
  have htext : hostText a e = e ++ a.host := if_neg hhost
  obtain ⟨hp, hsome, -, hopen⟩ := bare_facts hT hu hs
  rw [shownHead_bare hs, htext, List.append_assoc] at htrim
  rw [← href_trim, trim_shown hT hu hread, shown_eq, shownHead_bare hs, shownHead_bare hs, htext,
    List.append_assoc, List.append_assoc, host_iff hT hread he hhost (shownTail_behind hread hsafe)
      (shownTail_clean hsafe) (shownTail_slash hread hsafe) hp hsafe (hopen hhost) htrim,
    shownTail_trimmed]
  constructor
  · rintro ⟨hfits, hspace⟩
    refine ⟨hspace, fun _ _ _ => hfits, fun _ hslashed => ?_, fun _ _ hnil => absurd hnil hhost⟩
    cases (hopen hhost).symm.trans hslashed
  · exact fun h => ⟨h.fits hsafe hhost (.inl hsome), h.space⟩

include hT hu ha in
lemma settled_bare_nil (hsafe : unsafeProtocol (protocolText T (front u false)) = false)
    (hs : slashesText T (front u false) a = false) (hhost : a.host = [])
    (hnone : startsWithSlashes (tailText T (front u false) a.rest) = false) :
    href T (shown T (front u false) a e) = some (shown T (front u false) a e) ↔
      Settled T (front u false) a := by
  have hread := Authority.Read.of_eq hT ha
  have htrim := trim_again hT hu ha (e := e)
  have htext : hostText a e = [] := if_pos hhost
  have hname := Authority.name_eq_nil hhost
  obtain ⟨hp, -, -, -⟩ := bare_facts hT hu hs
  have hno : startsWithSlashes ((shownTail T (front u false) a).rdropWhile isSpace) = false := by
    rw [shownTail_bare hT hu hs]
    exact startsWithSlashes_trimmed hnone
  have hescape : escapeRest ((shownTail T (front u false) a).rdropWhile isSpace) =
      (shownTail T (front u false) a).rdropWhile isSpace :=
    escapeRest_of_clean fun c hc =>
      shownTail_clean hsafe c ((List.rdropWhile_prefix isSpace _).subset hc)
  rw [shownHead_bare hs, htext, List.nil_append] at htrim
  have hagain : href T (protocolText T (front u false) ++
      (shownTail T (front u false) a).rdropWhile isSpace) =
        some (protocolText T (front u false) ++
          (shownTail T (front u false) a).rdropWhile isSpace) := by
    cases hopen : slashedProtocol (protocolText T (front u false)) with
    | true =>
      rw [href_bare hT hp htrim (.inr ⟨hopen, hno⟩), hsafe, if_neg Bool.false_ne_true, hescape]
    | false =>
      rw [href_host hT hp htrim hsafe hopen hno,
        readAuthority_nil hT (shownTail_behind hread hsafe).trimmed, Option.bind_some,
        show formatAuth ((none : Option Str).getD []) = some [] from rfl, Option.map_some]
      simp only [hescape]
      rfl
  rw [← href_trim, trim_shown hT hu hread, shown_eq, shownHead_bare hs, shownHead_bare hs, htext,
    List.nil_append, List.nil_append, hagain]
  simp only [Option.some.injEq, List.append_cancel_left_eq, shownTail_trimmed]
  constructor
  · intro h
    refine ⟨h, fun _ hne => absurd hhost hne, fun _ _ _ hne => absurd hname hne,
      fun _ _ _ hyes => ?_⟩
    cases hnone.symm.trans hyes
  · exact Settled.space

include hT hu ha in
lemma settled_bare_slashes (hsafe : unsafeProtocol (protocolText T (front u false)) = false)
    (hs : slashesText T (front u false) a = false) (hhost : a.host = [])
    (hyes : startsWithSlashes (tailText T (front u false) a.rest) = true) :
    href T (shown T (front u false) a e) = some (shown T (front u false) a e) ↔
      Settled T (front u false) a := by
  have hread := Authority.Read.of_eq hT ha
  have htrim := trim_again hT hu ha (e := e)
  have htext : hostText a e = [] := if_pos hhost
  have hname := Authority.name_eq_nil hhost
  obtain ⟨hp, -, -, -⟩ := bare_facts hT hu hs
  have hspace : ∀ c, (tailText T (front u false) a.rest).getLast? = some c → isSpace c = false := by
    rw [tailText_safe hsafe, startsWithSlashes_escapeRest] at hyes
    rw [tailText_safe hsafe]
    refine last_escapeRest fun c hc => ?_
    rw [hread.last hyes] at hc
    exact front_rest_last hc
  obtain ⟨y, hy⟩ := startsWithSlashes_iff.mp hyes
  rw [shownTail_trimmed.mpr hspace, shownHead_bare hs, htext, List.nil_append,
    shownTail_bare hT hu hs, hy] at htrim
  rw [shown_eq, shownHead_bare hs, htext, List.nil_append, shownTail_bare hT hu hs, hy,
    href_slashes hT (.inr ⟨hp, hsafe⟩) htrim]
  have hprinted : ((readAuthority T y).bind fun b => (formatAuth (b.auth.getD [])).map fun e =>
      protocolText T (front u false) ++ ([47, 47] ++ hostText b e ++
        addSlash true (slashedProtocol (protocolText T (front u false)) && b.name ≠ [])
          (escapeRest b.rest))) = some (protocolText T (front u false) ++ 47 :: 47 :: y) ↔
      AsPrinted T (protocolText T (front u false)) y := by
    rw [Option.bind_eq_some_iff]
    refine exists_congr fun b => ?_
    rw [Option.map_eq_some_iff]
    constructor
    · rintro ⟨hb, e', he', h⟩
      have hx := List.append_cancel_left h
      exact ⟨e', hb, he', (List.cons.inj (List.cons.inj hx).2).2⟩
    · rintro ⟨e', hb, he', h⟩
      refine ⟨hb, e', he', ?_⟩
      rw [List.append_assoc, h]
      rfl
  rw [hprinted]
  constructor
  · intro h
    refine ⟨hspace, fun _ hne => absurd hhost hne, fun _ _ _ hne => absurd hname hne,
      fun _ _ _ _ => ?_⟩
    rw [hy]
    exact h
  · intro h
    have hf : (front u false).slashes = false := by
      rw [slashesText, Bool.or_eq_false_iff] at hs
      exact hs.1
    have hprint := h.slashes hsafe hf hhost hyes
    rw [hy] at hprint
    exact hprint

include hT hu ha he in
/-- With a host, the text is read as it was exactly if none of the four things is the case. -/
lemma settled_iff : href T (shown T (front u false) a e) = some (shown T (front u false) a e) ↔
    Settled T (front u false) a := by
  cases hsafe : unsafeProtocol (protocolText T (front u false)) with
  | true => exact settled_unsafe hT hu ha hsafe
  | false =>
    cases hs : slashesText T (front u false) a with
    | true =>
      by_cases hopen : Opens T (protocolText T (front u false))
          (hostText a e ++ (shownTail T (front u false) a).rdropWhile isSpace)
      · by_cases hhost : a.host = []
        · exact settled_slashes_nil hT hu ha hsafe hs hhost hopen
        · exact settled_slashes_host hT hu ha he hsafe hs hhost hopen
      · exact settled_path hT hu ha he hsafe hs hopen
    | false =>
      by_cases hhost : a.host = []
      · cases hyes : startsWithSlashes (tailText T (front u false) a.rest) with
        | true => exact settled_bare_slashes hT hu ha hsafe hs hhost hyes
        | false => exact settled_bare_nil hT hu ha hsafe hs hhost hyes
      · exact settled_bare_host hT hu ha he hsafe hs hhost

end Cases

/-! ### Where no host is read -/

/-- The protocols that are looked up are written in lower case. -/
lemma Tables.Lawful.lower_known (hT : T.Lawful) {p : Str}
    (h : hostlessProtocol p = true ∨ slashedProtocol p = true) : T.toLowerCase p = p := by
  have hknown : p ∈ [js "javascript", js "javascript:", js "http", js "https", js "ftp",
      js "gopher", js "file", js "http:", js "https:", js "ftp:", js "gopher:", js "file:"] := by
    obtain h | h := h
    · obtain rfl | rfl := of_decide_eq_true h <;> simp
    · obtain ⟨q, hq, he⟩ := List.any_eq_true.mp h
      rw [of_decide_eq_true he]
      exact List.mem_cons_of_mem _ (List.mem_cons_of_mem _ hq)
  have hall : ∀ q ∈ [js "javascript", js "javascript:", js "http", js "https", js "ftp",
      js "gopher", js "file", js "http:", js "https:", js "ftp:", js "gopher:", js "file:"],
      (∀ c ∈ q, c < 128) ∧ Encoding.toLowerCase q = q := by decide
  obtain ⟨hascii, hlower⟩ := hall p hknown
  rw [hT.ascii p hascii, hlower]

lemma protocol_safe {p : Str} (h : slashedProtocol p = true) : unsafeProtocol p = false := by
  obtain ⟨q, hq, he⟩ := List.any_eq_true.mp h
  rw [of_decide_eq_true he]
  have hall : ∀ q ∈ [js "http", js "https", js "ftp", js "gopher", js "file",
      js "http:", js "https:", js "ftp:", js "gopher:", js "file:"],
      unsafeProtocol q = false := by decide
  exact hall q hq

lemma front_rest_bare {u : Str} (h : (front u false).slashes = false) :
    (front u false).rest = (takeProtocol (trim u)).2 := by
  simp only [front] at h ⊢
  rw [h, if_neg Bool.false_ne_true]

lemma Protocol.clean {p : Str} (hp : Protocol T p) (y : Str) :
    escapeRest (p ++ y) = p ++ escapeRest y := by
  obtain ⟨n, -, hchars, rfl⟩ := hp.pattern
  have hall : ∀ d ∈ autoEscape, isProtocolChar d = false ∧ d ≠ 58 := by decide
  rw [escapeRest_append, escapeRest_of_clean]
  intro c hc hm
  obtain ⟨hno, hcolon⟩ := hall c hm
  obtain hc | hc := List.mem_append.mp hc
  · cases (hchars c hc).symm.trans hno
  · exact hcolon (List.mem_singleton.mp hc)

/-- What is printed where no host was read is printed again as it is. -/
theorem stable_not_hosted (hT : T.Lawful) {u h : Str} (hu : (front u false).hosted = false)
    (hprint : href T u = some h) : href T h = some h := by
  have hslashes := front_slashes hu
  have hrest := front_rest_bare hslashes
  have htrim := trimmed_trim u
  rw [href_not_hosted hT hu] at hprint
  obtain rfl := Option.some.inj hprint
  cases hp : protocolPattern (trim u) with
  | none =>
    have hfront := front_of_no_protocol htrim.trim_eq hp
    rw [front_trim] at hfront
    have hsame : (takeProtocol (trim u)).2 = trim u := by rw [takeProtocol, hp]
    have htext : protocolText T (front u false) = [] := by rw [hfront]; rfl
    have hsafe : unsafeProtocol (protocolText T (front u false)) = false := by rw [htext]; decide
    rw [htext, tailText_safe hsafe, hrest, hsame, List.nil_append]
    have hagain := front_of_no_protocol (trimmed_escapeRest htrim).trim_eq
      (protocolPattern_escapeRest hp)
    have hno : (userAtHost (escapeRest (trim u)) && startsWithSlashes (escapeRest (trim u))) =
        false := by
      refine Bool.eq_false_iff.mpr fun h => ?_
      obtain ⟨huser, hs⟩ := Bool.and_eq_true_iff.mp h
      rw [hfront, userAtHost_escapeRest huser, ← startsWithSlashes_escapeRest, hs] at hu
      cases hu
    rw [hno, if_neg Bool.false_ne_true] at hagain
    have htext' : protocolText T (front (escapeRest (trim u)) false) = [] := by rw [hagain]; rfl
    have hsafe' : unsafeProtocol (protocolText T (front (escapeRest (trim u)) false)) = false := by
      rw [htext']
      decide
    rw [href_not_hosted hT (by rw [hagain]), htext', tailText_safe hsafe', hagain,
      escapeRest_escapeRest, List.nil_append]
  | some q =>
    obtain ⟨p, r⟩ := q
    obtain ⟨-, -, -, -, hx⟩ := protocolPattern_eq_some hp
    have htake : takeProtocol (trim u) = (some p, r) := by rw [takeProtocol, hp]
    have hproto : (front u false).proto = some p := by simp only [front, htake]
    have hcases : hostlessProtocol p = true ∨
        (slashedProtocol p = true ∧ startsWithSlashes r = false) := by
      simp only [front, htake, Option.any_some, Option.isSome_some, Bool.or_true, Bool.true_or,
        Bool.true_and] at hu
      cases hh : hostlessProtocol p <;> cases hs : startsWithSlashes r <;>
        cases hp' : slashedProtocol p <;> simp [hh, hs, hp'] at hu ⊢
    have hlower : T.toLowerCase p = p := hT.lower_known (hcases.imp_right And.left)
    have hprotocol : Protocol T p := hlower ▸ hT.protocol_lower hproto
    have htext : protocolText T (front u false) = p := by
      rw [protocolText, hproto]
      exact hlower
    rw [htake] at hrest
    rw [hx] at htrim
    rw [htext, tailText_eq, htext, hrest]
    obtain hh | ⟨hs, hno⟩ := hcases
    · have hscript : unsafeProtocol p = true := hh
      rw [hscript, if_pos rfl, href_bare hT hprotocol htrim.trim_eq (.inl hh), hscript, if_pos rfl]
    · have hsafe := protocol_safe hs
      have hagain := (trimmed_escapeRest htrim).trim_eq
      rw [hprotocol.clean] at hagain
      rw [hsafe, if_neg Bool.false_ne_true, href_bare hT hprotocol hagain
        (.inr ⟨hs, (startsWithSlashes_escapeRest r).trans hno⟩), hsafe, if_neg Bool.false_ne_true,
        escapeRest_escapeRest]

/-! ### The claim, settled -/

/-- The URL has no host, or it is settled. -/
def Stable (T : Tables) (u : Str) : Prop :=
  (front u false).hosted = true → ∀ a, readAuthority T (front u false).rest = some a →
    Settled T (front u false) a

/-- **What `url.parse` prints is printed again as it is** exactly if the URL has no host or none of
the four things is the case. -/
theorem href_stable_iff (hT : T.Lawful) {u h : Str} (hprint : href T u = some h) :
    href T h = some h ↔ Stable T u := by
  cases hu : (front u false).hosted with
  | false =>
    have hno : Stable T u := fun hhosted => by cases hu.symm.trans hhosted
    exact iff_of_true (stable_not_hosted hT hu hprint) hno
  | true =>
    rw [href_hosted hT hu] at hprint
    obtain ⟨a, ha, hprint⟩ := Option.bind_eq_some_iff.mp hprint
    obtain ⟨e, he, rfl⟩ := Option.map_eq_some_iff.mp hprint
    rw [settled_iff hT hu ha he]
    constructor
    · intro h _ b hb
      obtain rfl := Option.some.inj (ha.symm.trans hb)
      exact h
    · exact fun h => h hu a ha

/-- A path is filled in behind `foo` only the second time. -/
theorem href_not_stable_upperCase : asciiTables.Lawful ∧
    href asciiTables (js "HTTP:foo") = some (js "http://foo") ∧
      href asciiTables (js "http://foo") ≠ some (js "http://foo") :=
  ⟨asciiTables_lawful, by decide +kernel, by decide +kernel⟩

theorem href_stable_iff_user : Stable asciiTables (js "http://user:pw@foo:80/a b") ∧
    ¬ Stable asciiTables (js "HTTP:foo") :=
  ⟨(href_stable_iff asciiTables_lawful (u := js "http://user:pw@foo:80/a b")
      (h := js "http://user:pw@foo:80/a%20b") (by decide +kernel)).mp (by decide +kernel),
    mt (href_stable_iff asciiTables_lawful (u := js "HTTP:foo") (h := js "http://foo")
      (by decide +kernel)).mpr (by decide +kernel)⟩

end NodeCore.UrlParse
