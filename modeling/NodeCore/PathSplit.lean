import NodeCore.Backtrack
import NodeCore.PathNormalize

/-!
`path.dirname`, `path.basename` and how `path.resolve` composes, outside Windows.

One regular expression takes a path apart. Its second group is lazy and stops in front of the last
name, so that what it captures is empty or ends in a slash.
-/

namespace NodeCore.Path

open NodeCore.Backtrack NodeCore.Encoding

/-! ### `splitPath` -/

/-- `'.'`. -/
def period : UInt16 := 46

/-- What the groups capture. -/
structure Split where
  root : Str
  dir : Str
  basename : Str
  ext : Str
  deriving DecidableEq

def isSlash (c : UInt16) : Bool := c = slash

def notSlash (c : UInt16) : Bool := c ≠ slash

/-- `(\/?|)` -/
def rootRe : Pattern UInt16 := either (opt (one isSlash)) nothing

/-- `(?:\.{1,2}|[^\/]+?|)` -/
def stemRe : Pattern UInt16 :=
  either (andThen (one (· = period)) (opt (one (· = period))))
    (either (andThen (one notSlash) (manyLazy notSlash)) nothing)

/-- `(\.[^.\/]*|)` -/
def extRe : Pattern UInt16 :=
  either (andThen (one (· = period)) (many fun c => c ≠ period ∧ c ≠ slash)) nothing

/-- The third group, with the fourth in it, and `(?:[\/]*)$` behind them. -/
def tailRe (s : Str) : List (Str × Str) :=
  (stemRe s).flatMap fun stem =>
    (extRe stem.2).flatMap fun ext =>
      (many isSlash ext.2).flatMap fun slashes =>
        if slashes.2 = [] then [(stem.1 ++ ext.1, ext.1)] else []

/-- All ways in which `splitPathRe` matches. -/
def splitPathRe (filename : Str) : List Split :=
  (rootRe filename).flatMap fun root =>
    (manyLazy (fun _ => true) root.2).flatMap fun dir =>
      (tailRe dir.2).map fun tail => ⟨root.1, dir.1, tail.1, tail.2⟩

/-- `splitPathRe.exec`; `none` where it gives `null`. -/
def splitPath (filename : Str) : Option Split := (splitPathRe filename).head?

def dirname (path : Str) : Option Str :=
  (splitPath path).map fun result =>
    if result.root = [] ∧ result.dir = [] then js "."
    else result.root ++ result.dir.take (result.dir.length - 1)

def basename (path : Str) (ext : Option Str) : Option Str :=
  (splitPath path).map fun result =>
    let f := result.basename
    match ext with
    | none => f
    | some ext =>
      if ext ≠ [] ∧ f.drop (f.length - ext.length) = ext then f.take (f.length - ext.length) else f

def extname (path : Str) : Option Str := (splitPath path).map Split.ext

/-! ### The groups -/

lemma of_isSlash (c : UInt16) (h : isSlash c = true) : c = slash := of_decide_eq_true h

lemma of_notSlash (c : UInt16) (h : notSlash c = true) : c ≠ slash := of_decide_eq_true h

lemma of_period (c : UInt16) (h : decide (c = period) = true) : c ≠ slash := by
  rw [of_decide_eq_true h]
  decide

lemma takes_stemRe : Takes stemRe (· ≠ slash) :=
  ((takes_one of_period).andThen (takes_one of_period).opt).either
    (((takes_one of_notSlash).andThen (takes_manyLazy of_notSlash)).either takes_nothing)

lemma takes_extRe : Takes extRe (· ≠ slash) :=
  ((takes_one of_period).andThen (takes_many fun _ h => (of_decide_eq_true h).2)).either
    takes_nothing

/-- Slashes and nothing else. -/
def Slashes (s : Str) : Prop := ∀ c ∈ s, c = slash

/-- A name without a slash and the slashes behind it. -/
lemma of_mem_tailRe {s : Str} {w : Str × Str} (h : w ∈ tailRe s) :
    ∃ slashes, s = w.1 ++ slashes ∧ Slashes slashes ∧ slash ∉ w.1 ∧ w.2 <:+ w.1 := by
  obtain ⟨stem, hstem, h⟩ := List.mem_flatMap.mp h
  obtain ⟨ext, hext, h⟩ := List.mem_flatMap.mp h
  obtain ⟨slashes, hslashes, h⟩ := List.mem_flatMap.mp h
  obtain ⟨hs, hplain⟩ := takes_stemRe s stem hstem
  obtain ⟨hs', hplain'⟩ := takes_extRe stem.2 ext hext
  obtain ⟨hs'', hall⟩ := takes_many of_isSlash ext.2 slashes hslashes
  split_ifs at h with hend
  · rw [List.mem_singleton.mp h]
    rw [hend, List.append_nil] at hs''
    refine ⟨slashes.1, ?_, hall, fun hmem => ?_, List.suffix_append _ _⟩
    · rw [← hs, ← hs', ← hs'', List.append_assoc]
    · exact (List.mem_append.mp hmem).elim (fun hc => hplain slash hc rfl)
        fun hc => hplain' slash hc rfl
  · exact absurd h List.not_mem_nil

/-- Such a text always matches. -/
lemma tailRe_ne_nil {name slashes : Str} (hname : slash ∉ name) (hslashes : Slashes slashes) :
    tailRe (name ++ slashes) ≠ [] := by
  have hplain : ∀ c ∈ name, notSlash c = true :=
    fun c hc => decide_eq_true fun h => hname (h ▸ hc)
  have hstem : (name, slashes) ∈ stemRe (name ++ slashes) := by
    refine List.mem_append_right _ ?_
    cases name with
    | nil => exact List.mem_append_right _ (List.mem_singleton.mpr rfl)
    | cons c name =>
      obtain ⟨hc, hrest⟩ := List.forall_mem_cons.mp hplain
      refine List.mem_append_left _ (List.mem_flatMap.mpr ⟨([c], name ++ slashes), ?_, ?_⟩)
      · rw [List.cons_append, one, if_pos hc]
        exact List.mem_singleton.mpr rfl
      · exact List.mem_map.mpr ⟨(name, slashes), mem_manyLazy name slashes hrest, rfl⟩
  have hext : ([], slashes) ∈ extRe slashes := List.mem_append_right _ (List.mem_singleton.mpr rfl)
  have hend : (slashes, []) ∈ many isSlash slashes := by
    have hmany := mem_many (p := isSlash) slashes [] fun c hc => decide_eq_true (hslashes c hc)
    rwa [List.append_nil] at hmany
  refine List.ne_nil_of_mem (a := (name ++ [], [])) ?_
  refine List.mem_flatMap.mpr ⟨_, hstem, List.mem_flatMap.mpr ⟨_, hext, ?_⟩⟩
  exact List.mem_flatMap.mpr ⟨_, hend, by simp⟩

/-- How a path is taken apart. -/
structure Split.Reads (result : Split) (path : Str) : Prop where
  whole : ∃ slashes, path = result.root ++ result.dir ++ result.basename ++ slashes ∧
    Slashes slashes
  root : result.root = if absolute path then [slash] else []
  dir : result.dir = [] ∨ ∃ front, result.dir = front ++ [slash]
  basename : slash ∉ result.basename
  ext : result.ext <:+ result.basename

/-- The second group and what follows, behind a root. -/
lemma reads_behind (root s : Str) :
    ∃ result, ((manyLazy (fun _ => true) s).findSome? fun dir =>
        ((tailRe dir.2).map fun tail => Split.mk root dir.1 tail.1 tail.2).head?) = some result ∧
      result.root = root ∧
      (∃ slashes, s = result.dir ++ result.basename ++ slashes ∧ Slashes slashes) ∧
      (result.dir = [] ∨ ∃ front, result.dir = front ++ [slash]) ∧ slash ∉ result.basename ∧
      result.ext <:+ result.basename := by
  generalize hf : (fun dir : Str × Str =>
    ((tailRe dir.2).map fun tail => Split.mk root dir.1 tail.1 tail.2).head?) = f
  have hnone {u r : Str} : f (u, r) = none ↔ tailRe r = [] := by
    rw [← hf, List.head?_eq_none_iff, List.map_eq_nil_iff]
  cases hsome : (manyLazy (fun _ => true) s).findSome? f with
  | none =>
    -- the second group could have taken everything
    have hall := mem_manyLazy (p := fun _ : UInt16 => true) s [] fun _ _ => rfl
    rw [List.append_nil] at hall
    have hempty := hnone.mp (List.findSome?_eq_none_iff.mp hsome _ hall)
    have hnil : Slashes [] := fun _ h => absurd h List.not_mem_nil
    exact absurd hempty (tailRe_ne_nil List.not_mem_nil hnil)
  | some result =>
    obtain ⟨u, r, hsplit, hres, hbefore⟩ := manyLazy_first hsome
    rw [← hf] at hres
    obtain ⟨tail, htail, rfl⟩ := List.mem_map.mp (List.mem_of_head? hres)
    obtain ⟨slashes, hr, hslashes, hplain, hext⟩ := of_mem_tailRe htail
    dsimp only at hr
    refine ⟨_, rfl, rfl, ⟨slashes, ?_, hslashes⟩, ?_, hplain, hext⟩
    · rw [← hsplit, hr, List.append_assoc]
    · rcases List.eq_nil_or_concat u with rfl | ⟨front, c, rfl⟩
      · exact .inl rfl
      · -- in front of any other character it would have stopped
        refine .inr ⟨front, ?_⟩
        rw [List.concat_eq_append] at hbefore ⊢
        by_contra hne
        have hc : c ≠ slash := fun h => hne (by rw [h])
        have hstop := hnone.mp (hbefore front [c] rfl (List.cons_ne_nil _ _))
        rw [hr, List.singleton_append, ← List.cons_append] at hstop
        refine tailRe_ne_nil ?_ hslashes hstop
        rw [List.mem_cons, not_or]
        exact ⟨hc.symm, hplain⟩

/-- **`splitPathRe` matches every path.** -/
theorem splitPath_reads (path : Str) :
    ∃ result, splitPath path = some result ∧ result.Reads path := by
  have hroot : ∃ s more, rootRe path = ((if absolute path then [slash] else []), s) :: more ∧
      path = (if absolute path then [slash] else []) ++ s := by
    cases path with
    | nil => exact ⟨[], _, rfl, rfl⟩
    | cons c s =>
      by_cases hc : c = slash
      · have habs : absolute (c :: s) = true := by simp [absolute, hc]
        rw [if_pos habs, hc]
        exact ⟨s, _, rfl, rfl⟩
      · have habs : ¬ absolute (c :: s) = true := by simp [absolute, hc]
        have hone : isSlash c = false := by simp [isSlash, hc]
        refine ⟨c :: s, [([], c :: s)], ?_, ?_⟩
        · rw [if_neg habs]
          simp [rootRe, either, opt, one, nothing, hone]
        · rw [if_neg habs, List.nil_append]
  obtain ⟨s, more, hways, hpath⟩ := hroot
  generalize hr : (if absolute path then [slash] else []) = root at hways hpath
  obtain ⟨result, hresult, hres, ⟨slashes, hs, hslashes⟩, hdir, hplain, hext⟩ := reads_behind root s
  refine ⟨result, ?_, ⟨slashes, ?_, hslashes⟩, by rw [hres, hr], hdir, hplain, hext⟩
  · rw [splitPath, splitPathRe, hways, List.head?_flatMap, List.findSome?_cons, List.head?_flatMap,
      hresult]
  · rw [hres, hpath, hs]
    simp only [List.append_assoc]

/-- An extension is the end of the last name. -/
theorem extname_suffix (path : Str) :
    ∃ ext name, extname path = some ext ∧ basename path none = some name ∧ ext <:+ name := by
  obtain ⟨result, hresult, hreads⟩ := splitPath_reads path
  exact ⟨result.ext, result.basename, by rw [extname, hresult, Option.map_some],
    by rw [basename, hresult, Option.map_some], hreads.ext⟩

/-- The name is what stands in front of the extension, and the extension. -/
theorem basename_extname (path : Str) :
    ∃ front ext, extname path = some ext ∧ basename path (some ext) = some front ∧
      basename path none = some (front ++ ext) := by
  obtain ⟨ext, name, hext, hname, front, rfl⟩ := extname_suffix path
  refine ⟨front, ext, hext, ?_, hname⟩
  obtain ⟨result, hresult, hbase⟩ := Option.map_eq_some_iff.mp hname
  rw [basename, hresult, Option.map_some]
  dsimp only at hbase ⊢
  rw [hbase, List.length_append, Nat.add_sub_cancel, List.drop_left, List.take_left]
  split_ifs with h
  · rfl
  · rw [show ext = [] by simpa using h, List.append_nil]

/-! ### `resolve` of the parts -/

lemma absolute_gather_eq (paths : List Str) (s s' : Str) :
    (gather paths s).2 = (gather paths s').2 := by
  induction paths generalizing s s' with
  | nil => rfl
  | cons path paths ih =>
    rw [gather, gather]
    split_ifs
    · exact ih s s'
    · rfl
    · exact ih _ _

/-- One more path, in front of which an absolute one leaves nothing. -/
lemma gather_cons (path : Str) (paths : List Str) :
    pieces (gather (path :: paths) []).1 =
        (if absolute path then [] else pieces (gather paths []).1) ++ pieces path ∧
      (gather (path :: paths) []).2 = (absolute path || (gather paths []).2) := by
  rw [gather]
  split_ifs with hnil habs habs
  · rw [hnil] at habs
    exact absurd habs (by decide)
  · rw [hnil, pieces_nil, List.append_nil]
    exact ⟨rfl, rfl⟩
  · rw [pieces_append, pieces_nil, List.append_nil, habs]
    exact ⟨rfl, rfl⟩
  · rw [pieces_gather, pieces_append, pieces_nil, List.append_nil,
      Bool.eq_false_of_not_eq_true habs, Bool.false_or]
    exact ⟨rfl, absolute_gather_eq _ _ _⟩

/-- `resolve` sees no more of the paths than this. -/
lemma resolve_congr {cwd : Str} {paths paths' : List Str}
    (habs : (gather (paths.reverse ++ [cwd]) []).2 = (gather (paths'.reverse ++ [cwd]) []).2)
    (hpieces : strip (pieces (gather (paths.reverse ++ [cwd]) []).1) =
      strip (pieces (gather (paths'.reverse ++ [cwd]) []).1)) :
    resolve cwd paths = resolve cwd paths' := by
  unfold resolve normalizeArray
  dsimp only
  rw [habs, hpieces]

lemma absolute_of_notMem {s : Str} (h : slash ∉ s) : absolute s = false := by
  rw [absolute, decide_eq_false_iff_not]
  exact fun hhead => h (List.mem_of_head? hhead)

/-- Slashes at the end add nothing. -/
lemma pieces_slashes {slashes : Str} (h : Slashes slashes) (s : Str) :
    pieces (s ++ slashes) = pieces s := by
  induction slashes generalizing s with
  | nil => rw [List.append_nil]
  | cons c slashes ih =>
    obtain ⟨rfl, hrest⟩ := List.forall_mem_cons.mp h
    have hnone := ih hrest []
    rw [List.nil_append] at hnone
    rw [pieces_append, hnone, pieces_nil, List.append_nil]

/-- A `.` adds nothing. -/
lemma strip_dot (l l' : List Str) : strip (l ++ [js "."] ++ l') = strip (l ++ l') := by
  have hdot : strip ([js "."] ++ l') = strip l' := by
    rw [List.singleton_append, strip]
    exact if_pos rfl
  rw [List.append_assoc, strip_append, hdot, ← strip_append]

/-- A name behind a directory. -/
lemma resolve_name {cwd dir name path : Str} (hname : slash ∉ name)
    (habs : absolute dir = absolute path)
    (hpieces : ∀ l, strip (l ++ pieces dir ++ pieces name) = strip (l ++ pieces path)) :
    resolve cwd [dir, name] = resolve cwd [path] := by
  have hrel := absolute_of_notMem hname
  obtain ⟨hbehind, hflag⟩ := gather_cons name [dir, cwd]
  obtain ⟨hdir, hdirFlag⟩ := gather_cons dir [cwd]
  obtain ⟨hpath, hpathFlag⟩ := gather_cons path [cwd]
  rw [hrel, hdirFlag, Bool.false_or, habs] at hflag
  rw [hrel, if_neg Bool.false_ne_true, hdir, habs] at hbehind
  refine resolve_congr (hflag.trans hpathFlag.symm) ?_
  show strip (pieces (gather [name, dir, cwd] []).1) = strip (pieces (gather [path, cwd] []).1)
  rw [hbehind, hpath, hpieces]

/-- **The directory and the last name of a path lead to where the path leads.** -/
theorem resolve_dirname_basename (cwd path : Str) :
    ∃ dir name, dirname path = some dir ∧ basename path none = some name ∧
      resolve cwd [dir, name] = resolve cwd [path] := by
  obtain ⟨result, hresult, ⟨slashes, hpath, hslashes⟩, hroot, hdir, hname, -⟩ :=
    splitPath_reads path
  obtain ⟨root, dir, name, ext⟩ := result
  dsimp only at hpath hroot hdir hname
  refine ⟨_, name, by rw [dirname, hresult, Option.map_some], by rw [basename, hresult]; rfl, ?_⟩
  have htail : pieces path = pieces (root ++ dir ++ name) := by
    rw [hpath, pieces_slashes hslashes]
  dsimp only
  split_ifs with hnone
  · -- no directory
    obtain ⟨rfl, rfl⟩ := hnone
    have habs : absolute path = false := by
      by_contra hne
      rw [if_pos (by simpa using hne)] at hroot
      exact absurd hroot (List.cons_ne_nil _ _).symm
    refine resolve_name hname ?_ fun l => ?_
    · rw [habs]
      decide
    · have hdot : pieces (js ".") = [js "."] := by decide
      rw [hdot, strip_dot, htail]
      rfl
  · obtain ⟨habs, hpieces⟩ : absolute (root ++ dir.take (dir.length - 1)) = absolute path ∧
        pieces (root ++ dir ++ name) =
          pieces (root ++ dir.take (dir.length - 1)) ++ pieces name := by
      rcases hdir with rfl | ⟨front, rfl⟩
      · have habs : absolute path = true := by
          by_contra hne
          rw [if_neg hne] at hroot
          exact hnone ⟨hroot, rfl⟩
        rw [if_pos habs] at hroot
        subst hroot
        exact ⟨habs.symm, pieces_slash name⟩
      · have hfront : (front ++ [slash]).take ((front ++ [slash]).length - 1) = front := by simp
        rw [hfront]
        refine ⟨?_, by rw [← List.append_assoc, List.append_assoc, List.singleton_append,
          pieces_append]⟩
        cases habs : absolute path with
        | true =>
          rw [if_pos habs] at hroot
          subst hroot
          rfl
        | false =>
          -- the path starts as the directory does
          rw [habs, if_neg Bool.false_ne_true] at hroot
          subst hroot
          cases front with
          | nil =>
            rw [hpath] at habs
            exact absurd habs (by simp [absolute])
          | cons c front =>
            rw [hpath] at habs
            simpa [absolute] using habs
    exact resolve_name hname habs fun l => by rw [htail, hpieces, List.append_assoc]

/-! ### `resolve` in two steps -/

/-- What is left of some parts can stand for them, but for the steps up. -/
lemma strip_strip (s : Str) (t : List Str) :
    (strip ((strip (pieces s)).1 ++ t)).1 = (strip (pieces s ++ t)).1 := by
  rw [strip_append, strip_append, climb_eq, climb_eq, strip_names (names_strip s)]

lemma gather_append (front : List Str) {rest rest' : List Str}
    (h : ∀ t, (strip (pieces (gather rest []).1 ++ t)).1 =
      (strip (pieces (gather rest' []).1 ++ t)).1) (t : List Str) :
    (strip (pieces (gather (front ++ rest) []).1 ++ t)).1 =
      (strip (pieces (gather (front ++ rest') []).1 ++ t)).1 := by
  induction front generalizing t with
  | nil => exact h t
  | cons p front ih =>
    rw [List.cons_append, List.cons_append, (gather_cons p _).1, (gather_cons p _).1]
    split_ifs
    · rfl
    · rw [List.append_assoc, List.append_assoc, ih]

/-- **What `resolve` makes of some arguments can stand for them** in front of others. -/
theorem resolve_resolve {cwd : Str} (h : absolute cwd = true) (ps qs : List Str) :
    resolve cwd (resolve cwd ps :: qs) = resolve cwd (ps ++ qs) := by
  have hfirst : ∀ t, (strip (pieces (gather [resolve cwd ps, cwd] []).1 ++ t)).1 =
      (strip (pieces (gather (ps.reverse ++ [cwd]) []).1 ++ t)).1 := by
    intro t
    have habs : absolute (render (resolved cwd ps)) = true := by simp [absolute, render]
    rw [(gather_cons _ [cwd]).1, resolve_eq h, if_pos habs, List.nil_append,
      pieces_render (names_resolved cwd ps), resolved, strip_strip]
  have hall := gather_append qs.reverse hfirst []
  rw [List.append_nil, List.append_nil] at hall
  rw [resolve_eq h, resolve_eq h (ps ++ qs), resolved, resolved, List.reverse_cons,
    List.reverse_append, List.append_assoc, List.append_assoc]
  exact congrArg render hall

theorem resolve_resolve_up :
    resolve (js "/") (resolve (js "/") [js "../a"] :: [js "../b"]) =
      resolve (js "/") [js "../a", js "../b"] :=
  resolve_resolve (by decide) [js "../a"] [js "../b"]

/-- The steps up and the names that are left of a path lead to where the path leads. -/
lemma strip_normalized (l : List Str) (path : Str) :
    (strip (l ++ written false (evaluate true (split path)))).1 = (strip (l ++ pieces path)).1 := by
  have h : evaluate true (split path) =
      List.replicate (strip (pieces path)).2 (js "..") ++ (strip (pieces path)).1 := by
    rw [← normalizeArray_eq_evaluate]
    rfl
  have hrest : (strip (l ++ evaluate true (split path))).1 = (strip (l ++ pieces path)).1 := by
    rw [h, strip_relative _ _ (names_strip path), strip_append l (pieces path), climb_eq]
  rw [written]
  split_ifs with hnil
  · have hdot := strip_dot l []
    rw [List.append_nil, List.append_nil] at hdot
    rw [hdot, ← hrest, hnil.1, List.append_nil]
  · exact hrest

/-- **A path leads to where it leads when normalized.** -/
theorem resolve_normalize {cwd : Str} (h : absolute cwd = true) (path : Str) :
    resolve cwd [normalize path] = resolve cwd [path] := by
  obtain ⟨-, hpieces, -, habs, -⟩ := normalize_stack path
  rw [resolve_eq h, resolve_eq h, resolved, resolved]
  show render (strip (pieces (gather [normalize path, cwd] []).1)).1 =
    render (strip (pieces (gather [path, cwd] []).1)).1
  rw [(gather_cons _ [cwd]).1, (gather_cons path [cwd]).1, habs, hpieces]
  cases absolute path with
  | false => exact congrArg render (strip_normalized _ path)
  | true =>
    have hnames : evaluate false (split path) = (strip (pieces path)).1 :=
      (normalizeArray_eq_evaluate false path).symm
    show render (strip (written true (evaluate false (split path)))).1 = _
    rw [written, if_neg (by simp), hnames, strip_names (names_strip path)]
    rfl

theorem resolve_normalize_up : resolve (js "/a") [normalize (js "../b/.")] =
    resolve (js "/a") [js "../b/."] :=
  resolve_normalize (by decide) (js "../b/.")

end NodeCore.Path
