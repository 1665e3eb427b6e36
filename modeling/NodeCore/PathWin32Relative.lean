import NodeCore.PathWin32

/-!
`path.relative` on Windows, and `resolve` behind a full path.

Of a path on a share, `trim` keeps two parts too few.
-/

namespace NodeCore.PathWin32

open NodeCore.Encoding
open NodeCore.Path (strip trim samePartsLength outputParts)

/-! ### `relative` -/

def relative (lower : Str → Str) (cwd : Str) (env : Str → Option Str) (fromPath toPath : Str) :
    Str :=
  let fromPath := resolve lower cwd env [fromPath]
  let toPath := resolve lower cwd env [toPath]
  let toParts := trim (toPath.splitOn backslash)
  let lowerFromParts := trim ((lower fromPath).splitOn backslash)
  let lowerToParts := trim ((lower toPath).splitOn backslash)
  let same := samePartsLength lowerFromParts lowerToParts
  if same = 0 then toPath else join (outputParts same lowerFromParts toParts)

/-- What is relied on of `toLowerCase`: each part becomes one of its own, no slash comes or goes,
nothing but `.` and `..` becomes what they become, and a drive in front is not lost. -/
structure LowerCase (lower : Str → Str) : Prop where
  append : ∀ a b, lower (a ++ backslash :: b) = lower a ++ backslash :: lower b
  slash : ∀ a c, isSlash c = true → (c ∈ lower a ↔ c ∈ a)
  nil : ∀ a, lower a = [] ↔ a = []
  dot : ∀ a, lower a = lower (js ".") → a = js "."
  dots : ∀ a, lower a = lower (js "..") → a = js ".."
  drive : ∀ c a, isLetter c = true → lower (c :: colon :: a) ≠ lower a

/-! ### The parts of a full path -/

/-- The parts of a device. -/
def Root.front : Root → List Str
  | .drive letter => [[letter, colon]]
  | .unc server share => [[], [], server, share]

/-- The parts of what is behind the device and the slash. -/
def cells (l : List Str) : List Str := if l = [] then [[]] else l

/-- What `trim` keeps. -/
def kept : Root → List Str → List Str
  | .drive letter, l => [letter, colon] :: l
  | .unc server share, l => (server :: share :: l).take l.length

lemma cells_ne_nil (l : List Str) : cells l ≠ [] := by
  rw [cells]
  split_ifs with h
  · exact List.cons_ne_nil _ _
  · exact h

lemma join_cells (l : List Str) : join (cells l) = join l := by
  rw [cells]
  split_ifs with h
  · rw [h]
    rfl
  · rfl

lemma cells_inj {l l' : List Str} (hl : [] ∉ l) (hl' : [] ∉ l') (h : cells l = cells l') :
    l = l' := by
  unfold cells at h
  split_ifs at h with hnil hnil' hnil'
  · rw [hnil, hnil']
  · exact absurd (h ▸ List.mem_cons_self) hl'
  · exact absurd (h ▸ List.mem_cons_self) hl
  · exact h

lemma render_eq_join (root : Root) (l : List Str) :
    render root l = join (root.front ++ cells l) := by
  have hne := cells_ne_nil l
  cases root with
  | drive c => rw [Root.front, List.singleton_append, join_cons hne, join_cells]; rfl
  | unc x y =>
    simp only [Root.front, List.cons_append, List.nil_append]
    rw [join_cons (List.cons_ne_nil _ _), join_cons (List.cons_ne_nil _ _),
      join_cons (List.cons_ne_nil _ _), join_cons hne, join_cells]
    simp [render, Root.text]

lemma splitOn_join {l : List Str} (h : ∀ x ∈ l, backslash ∉ x) (hne : l ≠ []) :
    (join l).splitOn backslash = l :=
  List.splitOn_intercalate _ h hne

lemma backslash_parts {root : Root} (h : root.Good) {l : List Str} (hl : Parts l) :
    ∀ x ∈ root.front ++ cells l, backslash ∉ x := by
  have hcells : ∀ x ∈ cells l, backslash ∉ x := by
    intro x hx
    rw [cells] at hx
    split_ifs at hx
    · rw [List.mem_singleton.mp hx]
      exact List.not_mem_nil
    · exact (hl x hx).backslash
  intro x hx
  rcases List.mem_append.mp hx with hx | hx
  · cases h with
    | drive hc =>
      rw [List.mem_singleton.mp hx]
      intro hmem
      rcases List.mem_pair.mp hmem with h | h
      · rw [← h] at hc
        exact absurd hc (by decide)
      · exact absurd h (by decide)
    | unc hserver hshare =>
      simp only [Root.front, List.mem_cons, List.not_mem_nil, or_false] at hx
      rcases hx with rfl | rfl | rfl | rfl
      · exact List.not_mem_nil
      · exact List.not_mem_nil
      · exact hserver.backslash
      · exact hshare.backslash
  · exact hcells x hx

lemma take_cells (l : List Str) : (cells l).take l.length = l := by
  rw [cells]
  split_ifs with h
  · rw [h]
    rfl
  · exact List.take_length

/-- Behind a part that is not empty, the names are where the parts end. -/
lemma stop_cells (a : List Str) {x : Str} (hx : x ≠ []) {l : List Str} (hl : [] ∉ l) :
    (a ++ x :: cells l).length - ((a ++ x :: cells l).reverse.takeWhile (· = [])).length =
      a.length + 1 + l.length := by
  have hreverse : (a ++ x :: cells l).reverse = (cells l).reverse ++ (x :: a.reverse) := by simp
  rcases eq_or_ne l [] with rfl | hne
  · rw [hreverse]
    simp [cells, hx]
  · rw [hreverse, cells, if_neg hne]
    obtain ⟨y, l', hl'⟩ := List.exists_cons_of_ne_nil (mt List.reverse_eq_nil_iff.mp hne)
    have hy : y ≠ [] := by
      rintro rfl
      exact hl (List.mem_reverse.mp (hl' ▸ List.mem_cons_self))
    rw [hl', List.cons_append, List.takeWhile_cons_of_neg (by simpa using hy)]
    simp only [List.length_append, List.length_cons, List.length_nil]
    omega

lemma trim_drive {x : Str} (hx : x ≠ []) {l : List Str} (hl : [] ∉ l) :
    trim (x :: cells l) = x :: l := by
  have hstop := stop_cells [] hx hl
  rw [List.nil_append, List.length_nil, Nat.zero_add, Nat.add_comm] at hstop
  unfold trim
  dsimp only
  rw [hstop, List.takeWhile_cons_of_neg (by simpa using hx), List.length_nil, Nat.sub_zero,
    if_neg (by omega), List.take_succ_cons, take_cells, List.drop_zero]

lemma trim_unc {x y : Str} (hx : x ≠ []) (hy : y ≠ []) {l : List Str} (hl : [] ∉ l) :
    trim ([] :: [] :: x :: y :: cells l) = (x :: y :: l).take l.length := by
  have hstop := stop_cells [[], [], x] hy hl
  have hstart : (([] :: [] :: x :: y :: cells l).takeWhile (· = [])).length = 2 := by simp [hx]
  rw [List.cons_append, List.cons_append, List.cons_append, List.nil_append] at hstop
  unfold trim
  dsimp only
  rw [hstop, hstart, List.length_cons, List.length_cons, List.length_singleton, if_neg (by omega),
    show 2 + 1 + 1 + l.length - 2 = l.length + 2 by omega, List.take_succ_cons,
    List.take_succ_cons, List.drop_succ_cons, List.drop_succ_cons, List.drop_zero, cells]
  split_ifs with h
  · rw [h]
    rfl
  · rfl

variable {lower : Str → Str}

lemma lower_nil (hlower : LowerCase lower) : lower [] = [] := (hlower.nil []).mpr rfl

lemma lower_join (hlower : LowerCase lower) {l : List Str} (h : l ≠ []) :
    lower (join l) = join (l.map lower) := by
  induction l with
  | nil => exact absurd rfl h
  | cons x l ih =>
    rcases eq_or_ne l [] with rfl | hne
    · rw [join, join, List.map_singleton, List.intercalate_singleton, List.intercalate_singleton]
    · rw [join_cons hne, hlower.append, ih hne, List.map_cons, join_cons (by simpa using hne)]

lemma map_cells (hlower : LowerCase lower) (l : List Str) :
    (cells l).map lower = cells (l.map lower) := by
  rcases eq_or_ne l [] with rfl | hne
  · simp [cells, lower_nil hlower]
  · simp [cells, hne]

lemma nil_notMem_lower (hlower : LowerCase lower) {l : List Str} (h : Parts l) :
    [] ∉ l.map lower := by
  intro hmem
  obtain ⟨x, hx, hnil⟩ := List.mem_map.mp hmem
  exact (h x hx).ne_nil ((hlower.nil x).mp hnil)

lemma lower_render (hlower : LowerCase lower) (root : Root) (l : List Str) : lower (render root l) =
    join (root.front.map lower ++ cells (l.map lower)) := by
  have hne : root.front ++ cells l ≠ [] :=
    List.append_ne_nil_of_right_ne_nil _ (cells_ne_nil l)
  rw [render_eq_join, lower_join hlower hne, List.map_append, map_cells hlower]

lemma splitOn_lower_render (hlower : LowerCase lower) {root : Root} (h : root.Good)
    {l : List Str} (hl : Parts l) : (lower (render root l)).splitOn backslash =
      root.front.map lower ++ cells (l.map lower) := by
  rw [lower_render hlower]
  refine splitOn_join ?_ (List.append_ne_nil_of_right_ne_nil _ (cells_ne_nil _))
  rw [← map_cells hlower, ← List.map_append]
  intro y hy
  obtain ⟨x, hx, rfl⟩ := List.mem_map.mp hy
  exact fun hmem => backslash_parts h hl x hx ((hlower.slash x _ (by decide)).mp hmem)

/-- Two full paths are the same up to case when their devices and their names are. -/
lemma lower_render_inj (hlower : LowerCase lower) {root root' : Root} (h : root.Good)
    (h' : root'.Good) {l l' : List Str} (hl : Parts l) (hl' : Parts l') :
    lower (render root l) = lower (render root' l') ↔
      root.front.map lower = root'.front.map lower ∧ l.map lower = l'.map lower := by
  refine ⟨fun heq => ?_, fun ⟨hfront, hnames⟩ => by
    rw [lower_render hlower, lower_render hlower, hfront, hnames]⟩
  have hsplit : root.front.map lower ++ cells (l.map lower) =
      root'.front.map lower ++ cells (l'.map lower) := by
    rw [← splitOn_lower_render hlower h hl, heq, splitOn_lower_render hlower h' hl']
  have hlength : (root.front.map lower).length = (root'.front.map lower).length := by
    have hdrive (c : UInt16) : lower [c, colon] ≠ [] := fun hnil =>
      absurd ((hlower.nil _).mp hnil) (List.cons_ne_nil _ _)
    cases root <;> cases root'
    · rfl
    · exact absurd (List.cons.inj hsplit).1 (by simpa [lower_nil hlower] using hdrive _)
    · exact absurd (List.cons.inj hsplit).1.symm (by simpa [lower_nil hlower] using hdrive _)
    · rfl
  obtain ⟨hfront, hcells⟩ := List.append_inj hsplit hlength
  exact ⟨hfront, cells_inj (nil_notMem_lower hlower hl) (nil_notMem_lower hlower hl') hcells⟩

lemma trim_render {root : Root} (h : root.Good) {l : List Str} (hl : Parts l) :
    trim ((render root l).splitOn backslash) = kept root l := by
  have hnil : [] ∉ l := fun hmem => (hl _ hmem).ne_nil rfl
  rw [render_eq_join, splitOn_join (backslash_parts h hl)
    (List.append_ne_nil_of_right_ne_nil _ (cells_ne_nil _))]
  cases h with
  | drive hc => exact trim_drive (List.cons_ne_nil _ _) hnil
  | unc hserver hshare => exact trim_unc hserver.ne_nil hshare.ne_nil hnil

lemma trim_lower_render (hlower : LowerCase lower) {root : Root} (h : root.Good) {l : List Str}
    (hl : Parts l) :
    trim ((lower (render root l)).splitOn backslash) = (kept root l).map lower := by
  have hnil := nil_notMem_lower hlower hl
  have hne {x : Str} (hx : x ≠ []) : lower x ≠ [] := mt (hlower.nil x).mp hx
  rw [splitOn_lower_render hlower h hl]
  cases h with
  | drive hc => exact trim_drive (hne (List.cons_ne_nil _ _)) hnil
  | unc hserver hshare =>
    simp only [Root.front, List.map_cons, lower_nil hlower, List.map_nil, List.cons_append,
      List.nil_append]
    rw [trim_unc (hne hserver.ne_nil) (hne hshare.ne_nil) hnil, kept, List.map_take,
      List.length_map, List.map_cons, List.map_cons]

variable {cwd : Str} {env : Str → Option Str} {fromPath toPath : Str}

/-- What `relative` returns. -/
lemma relative_eq (hlower : LowerCase lower) (hfrom : Full fromPath) (hto : Full toPath) :
    relative lower cwd env fromPath toPath =
      let fromParts := (kept (root fromPath) (names fromPath)).map lower
      let toParts := kept (root toPath) (names toPath)
      let same := samePartsLength fromParts (toParts.map lower)
      if same = 0 then render (root toPath) (names toPath)
      else join (outputParts same fromParts toParts) := by
  have hf := (text_root hfrom.device).2
  have ht := (text_root hto.device).2
  have hfn := (names_names fromPath).parts
  have htn := (names_names toPath).parts
  have hresolve {path : Str} (h : Full path) :
      resolve lower cwd env [path] = render (root path) (names path) := resolve_full h []
  unfold relative
  dsimp only
  rw [hresolve hfrom, hresolve hto, trim_render ht htn, trim_lower_render hlower hf hfn,
    trim_lower_render hlower ht htn]

/-! ### `resolve` behind a full path -/

section behind

lemma strip_back (parts l : List Str) : (strip (parts ++ l)).1 =
    (strip parts).1.take ((strip parts).1.length - (strip l).2) ++ (strip l).1 := by
  rw [Path.strip_append, Path.climb_eq]

lemma length_strip (l : List Str) : (strip l).1.length + (strip l).2 ≤ l.length := by
  induction l with
  | nil => exact le_rfl
  | cons x l ih =>
    rw [strip, List.length_cons]
    dsimp only
    split_ifs <;> dsimp only [List.length_cons] <;> omega

/-- What `strip` takes away is missing. -/
lemma length_strip_lt {x : Str} (h : x = js "." ∨ x = js "..") (l : List Str) :
    (strip (x :: l)).1.length ≤ l.length := by
  have hle := length_strip l
  rw [strip]
  dsimp only
  rcases h with rfl | rfl
  · rw [if_pos rfl]
    dsimp only
    omega
  · rw [if_neg (by decide), if_pos rfl]
    dsimp only
    omega

lemma device_of_head {path : Str} (h : path.head?.any isSlash = false)
    (hdrive : hasDrive path = false) : device path = [] := by
  have hunc : hasUnc path = false := by
    cases path with
    | nil => rfl
    | cons a path =>
      cases path with
      | nil => rfl
      | cons b p =>
        have ha : isSlash a = false := h
        simp [hasUnc, ha]
  rw [device, hdrive, hunc, if_neg Bool.false_ne_true, if_neg Bool.false_ne_true]

lemma head_join {l : List Str} (h : Parts l) : (join l).head?.any isSlash = false := by
  cases l with
  | nil => rfl
  | cons x l =>
    have hx := h x List.mem_cons_self
    rcases eq_or_ne l [] with rfl | hne
    · rw [join, List.intercalate_singleton, ← List.append_nil x]
      exact hx.head []
    · rw [join_cons hne]
      exact hx.head _

lemma hasDrive_join {x : Str} (hx : Part x) (l : List Str) :
    hasDrive (join (x :: l)) = hasDrive x := by
  rcases eq_or_ne l [] with rfl | hne
  · rw [join, List.intercalate_singleton]
  · rw [join_cons hne]
    cases x with
    | nil => exact absurd rfl hx.ne_nil
    | cons c x =>
      cases x with
      | nil => simp [hasDrive, backslash, colon]
      | cons d x => rfl

/-- Parts behind a full path are just added to its own. -/
lemma resolve_behind (h : Full fromPath) {l : List Str} (hl : Parts l)
    (hdrive : hasDrive (join l) = false) : resolve lower cwd env [fromPath, join l] =
      render (root fromPath) (strip (pieces (tail fromPath) ++ l)).1 := by
  have hdevice := device_of_head (head_join hl) hdrive
  have hrest : rest (join l) = join l := by
    rw [rest, hdevice]
    rfl
  have hslashed : slashed (join l) = false := by
    rw [slashed, hrest, head_join hl]
  have htail : tail (join l) = join l := by
    rw [tail, hslashed, if_neg Bool.false_ne_true, hrest]
  have hunc : isUnc (join l) = false := by simp [isUnc, hdevice]
  have hvisit : visit lower (join l) ⟨[], [], false, false⟩ =
      ⟨[], join l ++ [backslash], false, false⟩ := by
    simp [visit, hdevice, htail, hunc, isAbsolute, hslashed]
  rw [resolve, List.reverse_cons, List.reverse_singleton, List.singleton_append, gather]
  by_cases hnil : join l = []
  · have hl' : l = [] := by rw [← pieces_join hl, hnil, pieces_nil]
    rw [if_pos hnil, gather_full h, finish_full h.device, pieces_backslash, pieces_nil, hl']
  · rw [if_neg hnil]
    dsimp only
    rw [hvisit, if_neg fun hdone => hdone.1 rfl, gather_full h, finish_full h.device,
      pieces_backslash, pieces_backslash, pieces_join hl, pieces_nil, List.append_nil]

end behind

lemma isUnc_of_lower (hlower : LowerCase lower) {path : Str} {c : UInt16} (hc : isLetter c = true)
    (h : lower (device path) = lower [c, colon]) : isUnc path = false := by
  by_contra hunc
  rw [Bool.not_eq_false] at hunc
  have hne : device path ≠ [] := by
    intro hnil
    simp [isUnc, hnil] at hunc
  rcases device_cases hne with ⟨d, p, rfl, hd⟩ | ⟨a, b, p, rfl, ha, -, hdrive, hshare⟩
  · exact absurd (isUnc_drive hd p) (by simp [hunc])
  · have hmem : a ∈ [c, colon] := by
      rw [← hlower.slash _ a ha, ← h, hlower.slash _ a ha, device_unc hshare hdrive]
      exact List.mem_cons_self
    rcases List.mem_pair.mp hmem with rfl | rfl
    · exact absurd ha (by simp [isSlash_of_isLetter hc])
    · exact absurd ha (by decide)

/-- A path that starts like a drive is taken for one on that drive: from its root, from where `from`
is if that is on the drive, or else from the directory the environment has for it. -/
lemma resolve_drive (hlower : LowerCase lower) (cwd : Str) (h : Full fromPath) {c : UInt16}
    (hc : isLetter c = true) (s : Str) {current : List Str} (hcurrent : Names current) :
    ∃ parts, resolve lower cwd (fun _ => some (render (.drive c) current))
        [fromPath, c :: colon :: s] = render (.drive c) (strip parts).1 ∧
      (parts = pieces s ∧ s.head?.any isSlash = true ∨
        (parts = pieces (tail fromPath) ++ pieces s ∧ lower (device fromPath) = lower [c, colon]) ∨
        parts = current ++ pieces s) := by
  have hdevice := device_drive hc s
  have hslashed : slashed (c :: colon :: s) = s.head?.any isSlash := by
    rw [slashed, rest_drive hc]
  have hfinish (t : Str) : finish ⟨[c, colon], t, true, false⟩ =
      render (.drive c) (strip (pieces t)).1 := by
    have hne : device [c, colon] ≠ [] := by
      rw [device_drive hc]
      exact List.cons_ne_nil _ _
    have hfinish := finish_full hne t
    rwa [device_drive hc, isUnc_drive hc, root_drive hc] at hfinish
  by_cases hs : s.head?.any isSlash = true
  · have hfull : Full (c :: colon :: s) :=
      ⟨by rw [hdevice]; exact List.cons_ne_nil _ _, by rw [isAbsolute, hslashed, hs]; rfl⟩
    refine ⟨pieces s, (resolve_full hfull [fromPath]).trans ?_, .inl ⟨rfl, hs⟩⟩
    rw [root_drive hc, names, tail, hslashed, if_pos hs, rest_drive hc]
    cases s with
    | nil => exact absurd hs Bool.false_ne_true
    | cons d s =>
      have hpieces := pieces_append [] (show isSlash d = true from hs) s
      rw [List.nil_append, pieces_nil, List.nil_append] at hpieces
      rw [hpieces]
      rfl
  · have hvisit : visit lower (c :: colon :: s) ⟨[], [], false, false⟩ =
        ⟨[c, colon], s ++ [backslash], false, false⟩ := by
      have htail : tail (c :: colon :: s) = s := by rw [tail, hslashed, if_neg hs, rest_drive hc]
      have habs : isAbsolute (c :: colon :: s) = false := by
        rw [isAbsolute, hslashed, isUnc_drive hc, Bool.or_false]
        exact Bool.eq_false_iff.mpr hs
      simp [visit, hdevice, htail, habs, isUnc_drive hc]
    have hne : fromPath ≠ [] := by
      rintro rfl
      exact h.device rfl
    rw [resolve, List.reverse_cons, List.reverse_singleton, List.singleton_append, gather,
      if_neg (List.cons_ne_nil _ _), hvisit]
    dsimp only
    rw [if_neg (by simp), gather, if_neg hne]
    by_cases hsame : lower (device fromPath) = lower [c, colon]
    · refine ⟨_, ?_, .inr (.inl ⟨rfl, hsame⟩)⟩
      have hunc := isUnc_of_lower hlower hc hsame
      have hfrom : visit lower fromPath ⟨[c, colon], s ++ [backslash], false, false⟩ =
          ⟨[c, colon], tail fromPath ++ backslash :: (s ++ [backslash]), true, false⟩ := by
        simp [visit, hsame, h.absolute, hunc]
      rw [hfrom, if_pos ⟨List.cons_ne_nil _ _, rfl⟩, hfinish, pieces_backslash, pieces_backslash,
        pieces_nil, List.append_nil]
    · refine ⟨_, ?_, .inr (.inr rfl)⟩
      have hgood : Root.Good (.drive c) := .drive hc
      have hfrom : visit lower fromPath ⟨[c, colon], s ++ [backslash], false, false⟩ =
          ⟨[c, colon], s ++ [backslash], false, isUnc fromPath⟩ := by
        simp [visit, hsame, h.device]
      have hdirectory (unc : Bool) : directory lower cwd (fun _ => some (render (.drive c) current))
          ⟨[c, colon], s ++ [backslash], false, unc⟩ = render (.drive c) current := by
        have htake : lower ((render (.drive c) current).take 3) =
            lower [c, colon] ++ [backslash] := by
          have happend := hlower.append [c, colon] []
          rwa [lower_nil hlower] at happend
        rw [directory, if_neg (List.cons_ne_nil _ _)]
        dsimp only
        rw [if_neg]
        rintro (hnil | hneg)
        · exact absurd hnil (List.cons_ne_nil _ _)
        · exact hneg htake
      have hcwd (unc : Bool) : visit lower (render (.drive c) current)
          ⟨[c, colon], s ++ [backslash], false, unc⟩ =
            ⟨[c, colon], join current ++ backslash :: (s ++ [backslash]), true, false⟩ := by
        have hfull := full_render hgood current
        have hread := (read_render hgood current).1
        have hunc : isUnc (render (.drive c) current) = false := isUnc_drive hc _
        simp [visit, hread, Root.text, hfull.absolute, tail_render hgood, hunc]
      have hpath : render (.drive c) current ≠ [] := List.cons_ne_nil _ _
      rw [hfrom, if_neg (by simp), gather, hdirectory, if_neg hpath, hcwd, hfinish,
        pieces_backslash, pieces_backslash, pieces_join hcurrent.parts, pieces_nil, List.append_nil]

end NodeCore.PathWin32
