import NodeCore.PathRelative
import NodeCore.UrlReading

/-!
`url.resolve`.

The path of the relative URL is put behind that of the base, and the dots are taken out of the
result by the loop that `path.normalize` has, from the last segment to the first; `up` may take
away the empty segment in front as well, so that it is put back afterwards. A URL that is neither
slashed nor without a protocol is `psychotic`: its host takes part as the first segment.
-/

namespace NodeCore.UrlParse

open Encoding

/-! ### The code -/

/-- `result.href = result.format()` -/
def withHref (u : Url) : Option Url := (format u).map fun href => { u with href := some href }

/-- `a || b` -/
def orElse (a b : Option Str) : Option Str := if a.getD [] = [] then b else a

/-- The loop that takes segments off until one is the host: it, and those that are left. -/
def shiftHost : List Str → Str × List Str
  | [] => ([], [])
  | seg :: path => if seg = [] then shiftHost path else (seg, path)

/-- The host as the first segment, in the place of an empty one. -/
def unshiftHost (host : Str) (path : List Str) : List Str :=
  if host = [] then path
  else match path with
    | [] :: path => host :: path
    | path => host :: path

/-- `path[0] === '' || path[0] && path[0].charAt(0) === '/'` -/
def isAbsolute : List Str → Bool
  | [] => false
  | seg :: _ => seg = [] || seg.head? = some 47

/-- `authInHost`: what is before the first `@`, and what is behind it up to the next. -/
def authInHost (host : Str) : Option (Str × Str) :=
  match host.splitOn 64 with
  | auth :: host :: _ => if auth = [] then none else some (auth, host)
  | _ => none

/-- A host, and the auth that can get stuck in it. -/
def setHost (u : Url) (host : Option Str) : Url :=
  match host.bind authInHost with
  | some (auth, host) => { u with auth := some auth, host := some host, hostname := some host }
  | none => { u with host := host, hostname := host }

/-- `path`, to support `http.request` -/
def setPath (u : Url) : Url :=
  if u.pathname.isSome ∨ u.search.isSome then
    { u with path := some (u.pathname.getD [] ++ u.search.getD []) }
  else u

/-- Another protocol, for which the double slash is part of the URL. -/
def changeProtocol (result relative : Url) : Url :=
  let bare := relative.host.getD [] = [] ∧ ¬ relative.protocol.any hostlessProtocol
  let (host, relPath) := shiftHost (Path.split (relative.pathname.getD []))
  let relPath := if relPath.head? = some [] then relPath else [] :: relPath
  let relPath := if relPath.length < 2 then [] :: relPath else relPath
  let relHost := if bare then some host else relative.host
  let relHostname :=
    if bare ∧ relative.hostname.getD [] = [] then some [] else relative.hostname
  let u := { result with
    protocol := relative.protocol
    pathname := if bare then some (Path.join relPath) else relative.pathname
    search := relative.search
    query := relative.query
    host := some (relHost.getD [])
    auth := relative.auth
    hostname := orElse relHostname relHost
    port := relative.port }
  let u :=
    if u.pathname.getD [] ≠ [] ∨ u.search.getD [] ≠ [] then
      { u with path := some (u.pathname.getD [] ++ u.search.getD []) }
    else u
  { u with slashes := result.slashes || relative.slashes }

/-- The segments without the dots, for a path that may have to be absolute. -/
def removeDots (mustEndAbs removeAllDots hosted : Bool) (srcPath : List Str) : List Str :=
  let last := srcPath.getLast?
  let hasTrailingSlash :=
    hosted && (last = some (js ".") || last = some (js "..")) || last = some []
  let (srcPath, up) := Path.strip srcPath
  let srcPath :=
    if !mustEndAbs && !removeAllDots then List.replicate up (js "..") ++ srcPath else srcPath
  let srcPath := if mustEndAbs && !isAbsolute srcPath then [] :: srcPath else srcPath
  if hasTrailingSlash && (Path.join srcPath).getLast? ≠ some 47 then srcPath ++ [[]] else srcPath

/-- From the merged path on. -/
def putPath (result relative : Url) (psychotic mustEndAbs removeAllDots : Bool)
    (srcPath : List Str) : Option Url :=
  if srcPath = [] then
    withHref { result with
      pathname := none
      path := if result.search.getD [] = [] then none else some (47 :: result.search.getD []) }
  else
    let hosted := result.host.getD [] ≠ [] ∨ relative.host.getD [] ≠ []
    let srcPath := removeDots mustEndAbs removeAllDots hosted srcPath
    let isAbs := isAbsolute srcPath
    -- put the host back
    let (result, srcPath) :=
      if psychotic then
        if isAbs then (setHost result (some []), srcPath)
        else (setHost result (some (srcPath.headD [])), srcPath.tail)
      else (result, srcPath)
    let mustEndAbs := mustEndAbs || (result.host.getD [] ≠ [] ∧ srcPath ≠ [])
    let srcPath := if mustEndAbs && !isAbs then [] :: srcPath else srcPath
    let result :=
      if srcPath = [] then { result with pathname := none, path := none }
      else { result with pathname := some (Path.join srcPath) }
    let result := setPath result
    withHref { result with
      auth := orElse relative.auth result.auth
      slashes := result.slashes || relative.slashes }

/-- `pathname && pathname.split('/') || []` -/
def segments (pathname : Option Str) : List Str :=
  if pathname.getD [] = [] then [] else Path.split (pathname.getD [])

/-- The relative URL has no protocol, or that of the base, and does not cut to the host. -/
def mergePath (result relative : Url) : Option Url :=
  let isSourceAbs := (result.pathname.getD []).head? = some 47
  let isRelAbs := relative.host.getD [] ≠ [] ∨ (relative.pathname.getD []).head? = some 47
  let removeAllDots := isRelAbs ∨ isSourceAbs ∨
    result.host.getD [] ≠ [] ∧ relative.pathname.getD [] ≠ []
  let srcPath := segments result.pathname
  let relPath := segments relative.pathname
  let psychotic := result.protocol.getD [] ≠ [] ∧ ¬ result.protocol.any slashedProtocol
  -- the hosts become segments
  let crawls := psychotic ∧ relative.protocol.getD [] ≠ []
  let srcPath := if psychotic then unshiftHost (result.host.getD []) srcPath else srcPath
  let relPath := if crawls then unshiftHost (relative.host.getD []) relPath else relPath
  let result :=
    if psychotic then { result with hostname := some [], port := none, host := some [] } else result
  let relative :=
    if crawls then { relative with hostname := none, port := none, host := none } else relative
  let mustEndAbs := removeAllDots ∧
    (psychotic → relPath.head? = some [] ∨ srcPath.head? = some [])
  let searched := { result with search := relative.search, query := relative.query }
  if isRelAbs then
    let result := { searched with
      host := relative.host.orElse fun _ => result.host
      hostname := relative.hostname.orElse fun _ => result.hostname }
    putPath result relative psychotic mustEndAbs removeAllDots relPath
  else if relPath ≠ [] then
    putPath searched relative psychotic mustEndAbs removeAllDots (srcPath.dropLast ++ relPath)
  else if relative.search.isSome then
    let result := if psychotic then setHost result srcPath.head? else result
    withHref (setPath { result with search := relative.search, query := relative.query })
  else putPath result relative psychotic mustEndAbs removeAllDots srcPath

/-- `Url.prototype.resolveObject` -/
def resolveObject (base relative : Url) : Option Url :=
  let result := { base with hash := relative.hash }
  if relative.href = some [] then withHref result
  else if relative.slashes = true ∧ relative.protocol.getD [] = [] then
    let result := { relative with protocol := result.protocol }
    withHref
      (if result.protocol.any slashedProtocol ∧ result.hostname.getD [] ≠ [] ∧
          result.pathname.getD [] = [] then { result with pathname := some [47], path := some [47] }
        else result)
  else if relative.protocol.getD [] ≠ [] ∧ relative.protocol ≠ result.protocol then
    if relative.protocol.any slashedProtocol then withHref (changeProtocol result relative)
    else withHref relative
  else mergePath result relative

variable (T : Tables)

/-- `urlResolve`: both URLs are texts. -/
def urlResolve (source relative : Str) : Option Str :=
  (parse T source true).bind fun base => (parse T relative true).bind fun relative =>
    (resolveObject base relative).bind format

/-- The path of the URL is absolute, and no segment of it is `.` or `..`. -/
def Dotless (u : Url) : Prop :=
  ∃ p, u.pathname = some p ∧ p.head? = some 47 ∧
    ∀ x ∈ Path.split p, x ≠ js "." ∧ x ≠ js ".."

/-! ### Taking out the dots -/

/-- A segment that is no dots stays at the end. -/
lemma strip_concat (path : List Str) {x : Str} (hdot : x ≠ js ".") (hdots : x ≠ js "..") :
    ∃ front, (Path.strip (path ++ [x])).1 = front ++ [x] := by
  have hx : Path.strip [x] = ([x], 0) := by simp [Path.strip, hdot, hdots]
  rw [Path.strip_append, hx]
  exact ⟨_, rfl⟩

lemma isAbsolute_iff {path : List Str} (h : ∀ x ∈ path, Path.slash ∉ x) :
    isAbsolute path = true ↔ path.head? = some [] := by
  cases path with
  | nil => simp [isAbsolute]
  | cons x path =>
    cases x with
    | nil => simp [isAbsolute]
    | cons c x =>
      have hc : c ≠ 47 := fun hc => h (c :: x) List.mem_cons_self (hc ▸ List.mem_cons_self)
      simp [isAbsolute, hc]

/-- What may stand in a path that is in order. -/
structure Segment (x : Str) : Prop where
  slash : Path.slash ∉ x
  dot : x ≠ js "."
  dots : x ≠ js ".."

lemma segment_nil : Segment [] := ⟨List.not_mem_nil, by decide, by decide⟩

/-- **The dots are gone**, and the path is absolute. -/
lemma removeDots_absolute {path : List Str} (hne : path ≠ []) (h : ∀ x ∈ path, Path.slash ∉ x) :
    ∃ y rest, removeDots true true true path = [] :: y :: rest ∧
      (∀ x ∈ y :: rest, Segment x) := by
  have hstrip (x : Str) (hx : x ∈ (Path.strip path).1) : Segment x := by
    obtain ⟨hmem, hdot, hdots⟩ := Path.mem_strip hx
    exact ⟨h x hmem, hdot, hdots⟩
  -- with an empty segment in front
  obtain ⟨rest, hrest, hsegments⟩ : ∃ rest, (if isAbsolute (Path.strip path).1 = false
      then [] :: (Path.strip path).1 else (Path.strip path).1) = [] :: rest ∧
      ∀ x ∈ rest, Segment x := by
    split_ifs with habs
    · exact ⟨_, rfl, hstrip⟩
    · rw [Bool.not_eq_false, isAbsolute_iff fun x hx => (hstrip x hx).slash] at habs
      obtain ⟨rest, hrest⟩ := List.head?_eq_some_iff.mp habs
      exact ⟨rest, hrest, fun x hx => hstrip x (hrest ▸ List.mem_cons_of_mem _ hx)⟩
  have hpush : ∀ x ∈ rest ++ [[]], Segment x := by
    intro x hx
    rcases List.mem_append.mp hx with hx | hx
    · exact hsegments x hx
    · rw [List.mem_singleton.mp hx]
      exact segment_nil
  unfold removeDots
  simp only [Bool.not_true, Bool.and_self, Bool.false_eq_true, if_false, Bool.true_and,
    Bool.not_eq_true', hrest]
  split_ifs with htrail
  · cases rest with
    | nil => exact ⟨[], [], rfl, hpush⟩
    | cons y rest =>
      rw [List.cons_append] at hpush
      exact ⟨y, rest ++ [[]], rfl, hpush⟩
  · cases rest with
    | cons y rest => exact ⟨y, rest, rfl, hsegments⟩
    | nil =>
      -- the last segment would be left
      exfalso
      obtain ⟨front, x, rfl⟩ := (List.eq_nil_or_concat path).resolve_left hne
      rw [List.concat_eq_append] at *
      have hlast : x ≠ js "." ∧ x ≠ js ".." ∧ x ≠ [] := by
        refine ⟨?_, ?_, ?_⟩ <;>
        · rintro rfl
          apply htrail
          simp [Path.join]
      obtain ⟨left, hleft⟩ := strip_concat front hlast.1 hlast.2.1
      rw [hleft] at hrest
      split_ifs at hrest
      · exact List.cons_ne_nil _ _ (List.append_eq_nil_iff.mp (List.cons.inj hrest).2).2
      · have hx : (left ++ [x]).getLast? = some [] := by
          rw [hrest]
          rfl
        rw [List.getLast?_concat] at hx
        exact hlast.2.2 (Option.some.inj hx)

/-- The path as a text. -/
lemma join_absolute {y : Str} {rest : List Str} (h : ∀ x ∈ y :: rest, Segment x) :
    (Path.join ([] :: y :: rest)).head? = some 47 ∧
      ∀ x ∈ Path.split (Path.join ([] :: y :: rest)), x ≠ js "." ∧ x ≠ js ".." := by
  have hall : ∀ x ∈ [] :: y :: rest, Segment x := List.forall_mem_cons.mpr ⟨segment_nil, h⟩
  refine ⟨rfl, fun x hx => ?_⟩
  rw [Path.split_join (List.cons_ne_nil _ _) fun x hx => (hall x hx).slash] at hx
  exact ⟨(hall x hx).dot, (hall x hx).dots⟩

/-! ### A relative URL without a host -/

lemma format_isSome (u : Url) : (format u).isSome = (formatAuth (u.auth.getD [])).isSome :=
  Option.isSome_map

lemma parse_eq_some {T : Tables} {url : Str} {slashesDenoteHost : Bool} {u : Url}
    (h : parse T url slashesDenoteHost = some u) :
    ∃ a href, ((front url slashesDenoteHost).hosted = false → a = none) ∧
      format (fill T (front url slashesDenoteHost) a) = some href ∧
      u = { fill T (front url slashesDenoteHost) a with href := some href } := by
  unfold parse at h
  obtain ⟨a, ha, h⟩ := Option.bind_eq_some_iff.mp h
  obtain ⟨href, hhref, rfl⟩ := Option.map_eq_some_iff.mp h
  refine ⟨a, href, fun hhosted => ?_, hhref, rfl⟩
  rw [hhosted] at ha
  exact (Option.some.inj ha).symm

lemma front_bare {url : Str} {slashesDenoteHost : Bool}
    (hproto : (front url slashesDenoteHost).proto = none)
    (hslashes : startsWithSlashes (trim url) = false) :
    (front url slashesDenoteHost).hosted = false ∧
      (front url slashesDenoteHost).slashes = false := by
  unfold front at hproto ⊢
  have hrest : takeProtocol (trim url) = (none, trim url) := by
    unfold takeProtocol at hproto ⊢
    cases hp : protocolPattern (trim url) with
    | none => rfl
    | some x =>
      rw [hp] at hproto
      cases hproto
  simp [hrest, hslashes]

/-- A path of its own, and nothing in front of it. -/
structure Bare (r : Url) : Prop where
  protocol : r.protocol = none
  slashes : r.slashes = false
  auth : r.auth = none
  host : r.host = none
  hostname : r.hostname = none
  href : r.href ≠ some []

lemma escapePathname_ne_nil {pathname : Str} (h : pathname ≠ []) :
    escapePathname pathname ≠ [] := by
  cases pathname with
  | nil => exact absurd rfl h
  | cons c pathname =>
    have hunit : (if c = 63 ∨ c = 35 then escapeOf c else [c]) ≠ [] := by
      split_ifs with hc
      · rcases hc with rfl | rfl <;> decide
      · exact List.cons_ne_nil _ _
    exact fun hnil => hunit (List.append_eq_nil_iff.mp hnil).1

/-- The path is printed first. -/
lemma format_bare {u : Url} (hprotocol : u.protocol = none) (hslashes : u.slashes = false)
    (hauth : u.auth = none) (hhost : u.host = none) (hhostname : u.hostname = none) :
    ∃ behind, format u = some (escapePathname (u.pathname.getD []) ++ behind) := by
  have hnohost (auth : Str) : formatHost u auth = none := by simp [formatHost, hhost, hhostname]
  refine ⟨escapeSearch (withFirst 63 (u.search.getD [])) ++ withFirst 35 (u.hash.getD []), ?_⟩
  simp [format, formatAuth, hnohost, hprotocol, hslashes, hauth]

lemma bare_of_parse {url : Str} {r : Url} (h : parse T url true = some r)
    (hproto : r.protocol = none) (hslashes : startsWithSlashes (trim url) = false)
    (hpath : r.pathname.getD [] ≠ []) : Bare r := by
  obtain ⟨a, href, ha, hhref, rfl⟩ := parse_eq_some h
  have hnone : (front url true).proto = none := Option.map_eq_none_iff.mp hproto
  obtain ⟨hhosted, hbare⟩ := front_bare hnone hslashes
  obtain rfl := ha hhosted
  refine ⟨hproto, hbare, rfl, rfl, rfl, fun hnil => ?_⟩
  obtain ⟨behind, hprint⟩ :=
    format_bare (u := fill T (front url true) none) hproto hbare rfl rfl rfl
  rw [hhref, Option.some.inj hnil] at hprint
  have hempty := (List.append_eq_nil_iff.mp (Option.some.inj hprint).symm).1
  exact escapePathname_ne_nil hpath hempty

/-! ### `resolveObject` -/

section Resolve

variable {base r : Url}

lemma withHref_eq_some {u : Url} (h : (formatAuth (u.auth.getD [])).isSome = true) :
    ∃ href, withHref u = some { u with href := some href } ∧ format u = some href := by
  rw [← format_isSome] at h
  obtain ⟨href, hhref⟩ := Option.isSome_iff_exists.mp h
  exact ⟨href, by rw [withHref, hhref, Option.map_some], hhref⟩

lemma setPath_fields (u : Url) : (setPath u).pathname = u.pathname ∧ (setPath u).auth = u.auth := by
  unfold setPath
  split_ifs <;> exact ⟨rfl, rfl⟩

lemma putPath_absolute (hauth : (formatAuth (base.auth.getD [])).isSome = true)
    (hhost : base.host.getD [] ≠ []) (hr : Bare r) {path : List Str} (hne : path ≠ [])
    (hpath : ∀ x ∈ path, Path.slash ∉ x) :
    ∃ u text, putPath base r false true true path = some u ∧ format u = some text ∧
      u.href = some text ∧ Dotless u := by
  obtain ⟨y, rest, hdots, hsegments⟩ := removeDots_absolute hne hpath
  obtain ⟨hhead, hsplit⟩ := join_absolute hsegments
  obtain ⟨hpathname, hsame⟩ := setPath_fields
    { base with pathname := some (Path.join ([] :: y :: rest)) }
  set v := setPath { base with pathname := some (Path.join ([] :: y :: rest)) } with hv
  have hput : putPath base r false true true path =
      withHref { v with auth := v.auth, slashes := v.slashes || r.slashes } := by
    have habs : isAbsolute ([] :: y :: rest) = true := rfl
    unfold putPath
    rw [if_neg hne]
    simp [hdots, habs, hhost, hr.auth, orElse, hv]
  obtain ⟨text, hhref, hformat⟩ := withHref_eq_some
    (u := { v with auth := v.auth, slashes := v.slashes || r.slashes }) (by rwa [hsame])
  exact ⟨_, text, hput.trans hhref, hformat, rfl, _, hpathname, hhead, hsplit⟩

lemma notMem_of_mem_segments {pathname : Option Str} {x : Str} (h : x ∈ segments pathname) :
    Path.slash ∉ x := by
  unfold segments at h
  split_ifs at h
  · cases h
  · exact Path.notMem_of_mem_split h

lemma mergePath_slashed (hslashed : base.protocol.any slashedProtocol = true)
    (hhost : base.host.getD [] ≠ []) (hr : Bare r) (hrel : r.pathname.getD [] ≠ []) :
    mergePath base r = putPath { base with search := r.search, query := r.query } r false true true
      (if (r.pathname.getD []).head? = some 47 then segments r.pathname
        else (segments base.pathname).dropLast ++ segments r.pathname) := by
  have hpath : segments r.pathname ≠ [] := by
    rw [segments, if_neg hrel]
    exact Path.split_ne_nil _
  unfold mergePath
  simp only [hslashed, hr.host, hr.hostname, hr.protocol, hrel, hhost, hpath, ne_eq,
    not_true_eq_false, not_false_eq_true, and_false, if_false, if_true, Option.getD_none, and_true,
    or_true, false_or, decide_true, decide_false, false_implies, Option.orElse_none]
  split_ifs <;> rfl

lemma resolveObject_absolute (hauth : (formatAuth (base.auth.getD [])).isSome = true)
    (hslashed : base.protocol.any slashedProtocol = true) (hhost : base.host.getD [] ≠ [])
    (hr : Bare r) (hrel : r.pathname.getD [] ≠ []) :
    ∃ u text, resolveObject base r = some u ∧ format u = some text ∧ u.href = some text ∧
      Dotless u := by
  have hresolve : resolveObject base r = mergePath { base with hash := r.hash } r := by
    simp [resolveObject, hr.href, hr.slashes, hr.protocol]
  have hpath : segments r.pathname ≠ [] := by
    rw [segments, if_neg hrel]
    exact Path.split_ne_nil _
  have hmerge : mergePath { base with hash := r.hash } r = _ :=
    mergePath_slashed hslashed hhost hr hrel
  rw [hresolve, hmerge]
  refine putPath_absolute ?_ ?_ hr ?_ ?_
  · exact hauth
  · exact hhost
  · split_ifs
    · exact hpath
    · exact fun hnil => hpath (List.append_eq_nil_iff.mp hnil).2
  · intro x hx
    split_ifs at hx
    · exact notMem_of_mem_segments hx
    · rcases List.mem_append.mp hx with hx | hx
      · exact notMem_of_mem_segments (List.dropLast_subset _ hx)
      · exact notMem_of_mem_segments hx

end Resolve

/-- **`url.resolve` takes the dots out.** The base is slashed and has a host; the relative URL
has a path and no protocol, and does not start with two slashes behind white space. -/
theorem resolve_dotless {source relative : Str} {base r : Url}
    (hbase : parse T source true = some base)
    (hslashed : base.protocol.any slashedProtocol = true) (hhost : base.host.getD [] ≠ [])
    (hparse : parse T relative true = some r) (hprotocol : r.protocol = none)
    (hstart : startsWithSlashes (trim relative) = false) (hpath : r.pathname.getD [] ≠ []) :
    ∃ u text, resolveObject base r = some u ∧ urlResolve T source relative = some text ∧
      u.href = some text ∧ Dotless u := by
  have hauth : (formatAuth (base.auth.getD [])).isSome = true := by
    obtain ⟨a, href, -, hformat, rfl⟩ := parse_eq_some hbase
    have hsome : (format (fill T (front source true) a)).isSome = true := by rw [hformat]; rfl
    rwa [format_isSome] at hsome
  have hbare := bare_of_parse T hparse hprotocol hstart hpath
  obtain ⟨u, text, hu, hformat, hhref, hdotless⟩ :=
    resolveObject_absolute hauth hslashed hhost hbare hpath
  refine ⟨u, text, hu, ?_, hhref, hdotless⟩
  rw [urlResolve, hbase, Option.bind_some, hparse, Option.bind_some, hu, Option.bind_some, hformat]

theorem resolve_dotless_up : ∃ base r, parse asciiTables (js "http://a/b/c") true = some base ∧
    parse asciiTables (js "../../d/.") true = some r ∧ ∃ u text, resolveObject base r = some u ∧
      urlResolve asciiTables (js "http://a/b/c") (js "../../d/.") = some text ∧
      u.href = some text ∧ Dotless u := by
  have hbase : (parse asciiTables (js "http://a/b/c") true).any (fun base =>
      base.protocol.any slashedProtocol ∧ base.host.getD [] ≠ []) = true := by decide +kernel
  have hrel : (parse asciiTables (js "../../d/.") true).any (fun r =>
      r.protocol = none ∧ r.pathname.getD [] ≠ []) = true := by decide +kernel
  obtain ⟨base, hparse, hbase⟩ := (Option.any_eq_true _ _).mp hbase
  obtain ⟨r, hparse', hrel⟩ := (Option.any_eq_true _ _).mp hrel
  obtain ⟨hslashed, hhost⟩ := of_decide_eq_true hbase
  obtain ⟨hprotocol, hpath⟩ := of_decide_eq_true hrel
  exact ⟨base, r, hparse, hparse', resolve_dotless asciiTables hparse hslashed hhost hparse'
    hprotocol (by decide +kernel) hpath⟩

/-- The two slashes come behind a space that is trimmed. -/
theorem resolve_not_dotless : ∃ base r u, parse asciiTables (js "http://a/") true = some base ∧
    base.protocol.any slashedProtocol = true ∧ base.host = some (js "a") ∧
    parse asciiTables (js " //h/../x") true = some r ∧ r.protocol = none ∧
    startsWithSlashes (js " //h/../x") = false ∧ r.pathname = some (js "/../x") ∧
    resolveObject base r = some u ∧ u.pathname = some (js "/../x") ∧ ¬ Dotless u := by
  have hall : (parse asciiTables (js "http://a/") true).any (fun base =>
      (parse asciiTables (js " //h/../x") true).any fun r => (resolveObject base r).any fun u =>
        base.protocol.any slashedProtocol ∧ base.host = some (js "a") ∧ r.protocol = none ∧
        r.pathname = some (js "/../x") ∧ u.pathname = some (js "/../x")) = true := by decide +kernel
  obtain ⟨base, hbase, hall⟩ := (Option.any_eq_true _ _).mp hall
  obtain ⟨r, hr, hall⟩ := (Option.any_eq_true _ _).mp hall
  obtain ⟨u, hu, hall⟩ := (Option.any_eq_true _ _).mp hall
  obtain ⟨hslashed, hhost, hprotocol, hpath, hresolved⟩ := of_decide_eq_true hall
  refine ⟨base, r, u, hbase, hslashed, hhost, hr, hprotocol, by decide, hpath, hu, hresolved, ?_⟩
  rintro ⟨p, hp, -, hdots⟩
  obtain rfl := Option.some.inj (hresolved.symm.trans hp)
  exact (hdots (js "..") (by decide)).2 rfl

end NodeCore.UrlParse
