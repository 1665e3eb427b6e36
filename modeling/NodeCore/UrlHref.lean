import NodeCore.UrlReading

/-!
What `url.parse` leaves in `href`.

The record is printed part by part, and the parts behind the host were cut from one text. So what
is printed is the protocol, the slashes, the host and that text, with a slash in front of it where
the path has to have one.
-/

namespace NodeCore.UrlParse

open Encoding Uri

variable (T : Tables)

/-- `url.parse(u).href` -/
def href (u : Str) : Option Str := (parse T u false).bind (·.href)

/-! ### What is printed -/

/-- The protocol, as it is printed. -/
def protocolText (f : Front) : Str := f.proto.elim [] T.toLowerCase

/-- What is behind the host, as it is printed. -/
def tailText (f : Front) (rest : Str) : Str :=
  if (f.proto.map T.toLowerCase).any unsafeProtocol then rest else escapeRest rest

/-- A path that is missing is filled in, and a path behind slashes starts with one. -/
def needsSlash (slashes filled : Bool) (t : Str) : Bool :=
  if (cutTail t).pathname = [] then filled else slashes && (cutTail t).pathname.head? ≠ some 47

def addSlash (slashes filled : Bool) (t : Str) : Str :=
  if needsSlash slashes filled t then 47 :: t else t

lemma needsSlash_false (t : Str) : needsSlash false false t = false := by
  unfold needsSlash
  split_ifs <;> rfl

lemma addSlash_false (t : Str) : addSlash false false t = t := by
  rw [addSlash, needsSlash_false, if_neg Bool.false_ne_true]

/-- Slashes are printed. -/
def slashesText (f : Front) (a : Authority) : Bool :=
  f.slashes || (protocolText T f = [] || slashedProtocol (protocolText T f)) && a.host ≠ []

/-- A missing path is filled in. -/
def filled (f : Front) (a : Authority) : Bool := f.proto.any slashedProtocol && a.name ≠ []

def hostText (a : Authority) (auth : Str) : Str := if a.host = [] then [] else auth ++ a.host

def shown (f : Front) (a : Authority) (auth : Str) : Str :=
  protocolText T f ++ ((if slashesText T f a then [47, 47] else []) ++ hostText a auth ++
    addSlash (slashesText T f a) (filled f a) (tailText T f a.rest))

variable {T}

lemma getD_nonEmpty (s : Str) : (nonEmpty s).getD [] = s := by
  unfold nonEmpty
  split_ifs with h
  · exact h.symm
  · rfl

lemma escapePathname_of_not_mem {s : Str} (h63 : 63 ∉ s) (h35 : 35 ∉ s) : escapePathname s = s := by
  have hunit : ∀ c ∈ s, (if c = 63 ∨ c = 35 then escapeOf c else [c]) = [c] := fun c hc =>
    if_neg fun he => he.elim (fun he => h63 (he ▸ hc)) fun he => h35 (he ▸ hc)
  rw [escapePathname, List.flatMap_congr hunit, List.flatMap_singleton']

lemma escapeSearch_of_not_mem {s : Str} (h : 35 ∉ s) : escapeSearch s = s := by
  have hall : ∀ c ∈ s, decide (c ≠ 35) = true := fun c hc =>
    decide_eq_true fun he => h (he ▸ hc)
  rw [escapeSearch, List.dropWhile_eq_nil_iff.mpr hall]

lemma withFirst_dropWhile (d : UInt16) (s : Str) :
    withFirst d (s.dropWhile (· ≠ d)) = s.dropWhile (· ≠ d) := by
  refine if_neg fun ⟨hne, hhead⟩ => ?_
  cases hs : s.dropWhile (· ≠ d) with
  | nil => exact hne hs
  | cons c r =>
    have hc := head_dropWhile (p := (· ≠ d)) (s := s) (c := c) (by rw [hs]; rfl)
    rw [hs] at hhead
    exact hhead (congrArg some (not_not.mp (of_decide_eq_false hc)))

lemma not_mem_takeWhile (d : UInt16) (s : Str) : d ∉ s.takeWhile (· ≠ d) := fun h =>
  of_decide_eq_true (mem_takeWhile h) rfl

/-- The parts are printed one behind the other. -/
lemma addSlash_eq (slashes filled : Bool) (t p : Str)
    (hp : p = if (cutTail t).pathname = [] ∧ filled = true then [47] else (cutTail t).pathname) :
    escapePathname (if slashes then withFirst 47 p else p) ++
        escapeSearch (withFirst 63 (cutTail t).search) ++ withFirst 35 (cutTail t).hash =
      addSlash slashes filled t := by
  have htail := cutTail_append t
  have h63 : 63 ∉ (cutTail t).pathname := not_mem_takeWhile 63 _
  have h35 : 35 ∉ (cutTail t).pathname := fun hm =>
    not_mem_takeWhile 35 t ((List.takeWhile_prefix _).subset hm)
  have hsearch : 35 ∉ (cutTail t).search := fun hm =>
    not_mem_takeWhile 35 t ((List.dropWhile_suffix _).subset hm)
  have hpath : (if slashes then withFirst 47 p else p) =
      if needsSlash slashes filled t then 47 :: (cutTail t).pathname else (cutTail t).pathname := by
    rw [hp]
    unfold needsSlash withFirst
    by_cases hnil : (cutTail t).pathname = []
    · cases filled <;> cases slashes <;> simp [hnil]
    · cases slashes <;> simp [hnil]
  have hclean : escapePathname (if slashes then withFirst 47 p else p) =
      if slashes then withFirst 47 p else p := by
    rw [hpath]
    refine escapePathname_of_not_mem ?_ ?_ <;> split_ifs
    · exact fun hm => (List.mem_cons.mp hm).elim (by decide) h63
    · exact h63
    · exact fun hm => (List.mem_cons.mp hm).elim (by decide) h35
    · exact h35
  have hs : withFirst 63 (cutTail t).search = (cutTail t).search := withFirst_dropWhile 63 _
  have hh : withFirst 35 (cutTail t).hash = (cutTail t).hash := withFirst_dropWhile 35 _
  rw [hclean, hs, hh, escapeSearch_of_not_mem hsearch, hpath, addSlash]
  split_ifs
  · rw [List.cons_append, List.cons_append, htail]
  · exact htail

lemma front_proto {u : Str} {d : Bool} {p : Str} (h : (front u d).proto = some p) :
    ∃ n, n ≠ [] ∧ (∀ c ∈ n, isProtocolChar c = true) ∧ p = n ++ [58] ∧
      ∃ r, protocolPattern (trim u) = some (p, r) := by
  simp only [front, takeProtocol] at h
  split at h
  next p' r hp =>
    obtain rfl := Option.some.inj h
    obtain ⟨n, hn, hchars, rfl, -⟩ := protocolPattern_eq_some hp
    exact ⟨n, hn, hchars, rfl, r, hp⟩
  next => cases h

/-- In lower case a protocol is one. -/
lemma Tables.Lawful.protocol (hT : T.Lawful) {n : Str} (h : ∀ c ∈ n, isProtocolChar c = true) :
    T.toLowerCase (n ++ [58]) = n.map lowerUnit ++ [58] ∧
      ∀ c ∈ n.map lowerUnit, isProtocolChar c = true ∧ lowerUnit c = c := by
  have hascii : ∀ c ∈ n ++ [58], c < 128 := by
    intro c hc
    obtain hc | hc := List.mem_append.mp hc
    · exact isProtocolChar_lt (h c hc)
    · rw [List.mem_singleton.mp hc]
      decide
  refine ⟨by rw [hT.ascii _ hascii, Encoding.toLowerCase, List.map_append]; rfl, fun c hc => ?_⟩
  obtain ⟨d, hd, rfl⟩ := List.mem_map.mp hc
  exact ascii_all (P := fun c => isProtocolChar c = true →
    isProtocolChar (lowerUnit c) = true ∧ lowerUnit (lowerUnit c) = lowerUnit c) (by decide)
    (isProtocolChar_lt (h d hd)) (h d hd)

lemma protocolText_last (hT : T.Lawful) (u : Str) (d : Bool) :
    ¬ (protocolText T (front u d) ≠ [] ∧ (protocolText T (front u d)).getLast? ≠ some 58) := by
  rintro ⟨hne, hlast⟩
  unfold protocolText at hne hlast
  cases hp : (front u d).proto with
  | none =>
    rw [hp] at hne
    exact hne rfl
  | some p =>
    obtain ⟨n, -, hchars, rfl, -⟩ := front_proto hp
    rw [hp, Option.elim_some, (hT.protocol hchars).1, List.getLast?_append_cons] at hlast
    exact hlast rfl

/-- `format` of a record whose last parts were cut from one text. -/
lemma format_eq (u : Url) {t p : Str} {filled : Bool}
    (hprotocol : ¬ (u.protocol.getD [] ≠ [] ∧ (u.protocol.getD []).getLast? ≠ some 58))
    (hp : p = if (cutTail t).pathname = [] ∧ filled = true then [47] else (cutTail t).pathname)
    (hpathname : u.pathname = nonEmpty p) (hsearch : u.search = nonEmpty (cutTail t).search)
    (hhash : u.hash = nonEmpty (cutTail t).hash) :
    format u = (formatAuth (u.auth.getD [])).map fun auth =>
      let slashes := u.slashes || (u.protocol.getD [] = [] ||
        slashedProtocol (u.protocol.getD [])) && (formatHost u auth).isSome
      u.protocol.getD [] ++ ((if slashes then [47, 47] else []) ++ (formatHost u auth).getD [] ++
        addSlash slashes filled t) := by
  unfold format
  congr 1
  funext auth
  simp only [if_neg hprotocol, hpathname, hsearch, hhash, getD_nonEmpty]
  rw [← addSlash_eq _ filled t p hp]
  split_ifs <;> simp only [List.append_assoc, List.nil_append]

lemma formatHost_fill (f : Front) (a : Authority) (auth : Str) :
    formatHost (fill T f (some a)) auth = if a.host = [] then none else some (auth ++ a.host) := by
  have hhost : (fill T f (some a)).host.getD [] = a.host := rfl
  have hname : (fill T f (some a)).hostname.getD [] = a.name := rfl
  unfold formatHost
  rw [hhost, hname]
  by_cases h : a.host = []
  · simp [h, Authority.name_eq_nil h]
  · simp [h]

lemma protocol_fill (f : Front) (a : Option Authority) :
    (fill T f a).protocol.getD [] = protocolText T f := by
  unfold fill protocolText
  cases f.proto <;> rfl

lemma pathname_fill (f : Front) (a : Option Authority) :
    (fill T f a).pathname = nonEmpty
      (if (cutTail (tailText T f (a.elim f.rest (·.rest)))).pathname = [] ∧
          (f.proto.any slashedProtocol && a.any (·.name ≠ [])) = true then [47]
        else (cutTail (tailText T f (a.elim f.rest (·.rest)))).pathname) := by
  simp only [fill, tailText, Bool.and_eq_true]

lemma bind_href (u : Url) :
    ((format u).map fun href => { u with href := some href }).bind (·.href) = format u := by
  cases format u <;> rfl

lemma format_fill (hT : T.Lawful) (u : Str) (a : Authority) :
    format (fill T (front u false) (some a)) =
      (formatAuth (a.auth.getD [])).map fun auth => shown T (front u false) a auth := by
  have hprotocol := protocol_fill (T := T) (front u false) (some a)
  rw [format_eq _ (hprotocol ▸ protocolText_last hT u false) rfl (pathname_fill _ _) rfl rfl]
  congr 1
  funext auth
  have hslashes : (fill T (front u false) (some a)).slashes = (front u false).slashes := rfl
  simp only [hprotocol, hslashes, formatHost_fill, shown, slashesText, hostText, filled]
  by_cases h : a.host = []
  · simp [h]
  · simp [h]

/-- `href` where there is a hostname. -/
lemma href_hosted (hT : T.Lawful) {u : Str} (h : (front u false).hosted = true) :
    href T u = (readAuthority T (front u false).rest).bind fun a =>
      (formatAuth (a.auth.getD [])).map fun auth => shown T (front u false) a auth := by
  unfold href parse
  simp only [h, if_true]
  cases readAuthority T (front u false).rest with
  | none => rfl
  | some a =>
    rw [Option.map_some, Option.bind_some, bind_href, format_fill hT]
    rfl

lemma front_slashes {u : Str} (h : (front u false).hosted = false) :
    (front u false).slashes = false := by
  simp only [front] at h ⊢
  generalize ((false || (takeProtocol (trim u)).1.isSome || userAtHost (takeProtocol (trim u)).2) &&
    startsWithSlashes (takeProtocol (trim u)).2) = slashes at h ⊢
  generalize (takeProtocol (trim u)).1.any hostlessProtocol = hostless at h ⊢
  cases slashes <;> cases hostless <;> simp at h ⊢

/-- `href` where there is none. -/
lemma href_not_hosted (hT : T.Lawful) {u : Str} (h : (front u false).hosted = false) :
    href T u = some (protocolText T (front u false) ++
      tailText T (front u false) (front u false).rest) := by
  have hprotocol := protocol_fill (T := T) (front u false) none
  have hformat := format_eq _ (hprotocol ▸ protocolText_last hT u false) rfl
    (pathname_fill (T := T) (front u false) none) rfl rfl
  have hauth : (fill T (front u false) none).auth = none := rfl
  have hslashes : (fill T (front u false) none).slashes = (front u false).slashes := rfl
  have hhost : ∀ auth, formatHost (fill T (front u false) none) auth = none := fun _ => rfl
  unfold href parse
  simp only [h, Bool.false_eq_true, if_false, Option.bind_some]
  rw [bind_href, hformat, hauth, hslashes, front_slashes h, hprotocol]
  simp only [hhost, Option.isSome_none, Bool.and_false, Bool.or_false, Option.any_none,
    Option.getD_none, formatAuth, if_true, Option.map_some, Bool.false_eq_true, if_false,
    List.append_nil, List.nil_append, addSlash_false]
  rfl

end NodeCore.UrlParse
