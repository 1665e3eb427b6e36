import NodeCore.PathWin32Relative

/-!
When what `path.relative` returns on Windows resolves to `to` behind `from`, and when it does not.
-/

namespace NodeCore.PathWin32

open NodeCore.Encoding
open NodeCore.Path (strip samePartsLength outputParts)

variable {lower : Str → Str}

variable {cwd : Str} {env : Str → Option Str} {fromPath toPath : Str}

/-! ### When `relative` leads to `to` -/

/-- The drive, or the server. -/
def Root.first : Root → Str
  | .drive letter => [letter, colon]
  | .unc server _ => server

/-- What two full paths have to be like, each given by its device and its names. -/
inductive Meets (lower : Str → Str) : Root → List Str → Root → List Str → Prop
  /-- Another drive or server: `to` itself is returned. -/
  | apart {root root' : Root} {l l' : List Str} (h : lower root.first ≠ lower root'.first) :
      Meets lower root l root' l'
  /-- No name follows the share of `from`. -/
  | fromShare {server share : Str} {root' : Root} {l' : List Str} :
      Meets lower (.unc server share) [] root' l'
  /-- No name follows the share of `to`. -/
  | toShare {root : Root} {l : List Str} {server share : Str} :
      Meets lower root l (.unc server share) []
  /-- Two drives, unless `to` is below `from` and the next name reads like a drive. -/
  | drives {c c' : UInt16} {l l' : List Str}
      (h : l.map lower <+: l'.map lower → (l'.drop l.length).head?.any hasDrive = false) :
      Meets lower (.drive c) l (.drive c') l'
  /-- One share, and `to` is `from` or above it. -/
  | above {server share server' share' : Str} {l l' : List Str}
      (hshare : lower share = lower share') (h : l'.map lower <+: l.map lower) :
      Meets lower (.unc server share) l (.unc server' share') l'
  /-- One share, and `to` is below `from` by the very names that stand two parts before those. -/
  | below {server share server' share' : Str} {l l' : List Str}
      (hshare : lower share = lower share') (h : l.map lower <+: l'.map lower)
      (hagain : (((server' :: share' :: l').take l'.length).drop l.length).map lower =
        (l'.drop l.length).map lower)
      (hdrive : (((server' :: share' :: l').take l'.length).drop l.length).head?.any hasDrive =
        false) :
      Meets lower (.unc server share) l (.unc server' share') l'

lemma kept_eq_nil {root : Root} {l : List Str} (h : kept root l = []) :
    l = [] ∧ ∃ server share, root = .unc server share := by
  cases root with
  | drive c => exact absurd h (List.cons_ne_nil _ _)
  | unc x y =>
    cases l with
    | nil => exact ⟨rfl, x, y, rfl⟩
    | cons z l => exact absurd h (List.cons_ne_nil _ _)

lemma kept_cons {root : Root} {l : List Str} (h : kept root l ≠ []) :
    ∃ parts, kept root l = root.first :: parts := by
  cases root with
  | drive c => exact ⟨l, rfl⟩
  | unc x y =>
    cases l with
    | nil => exact absurd rfl h
    | cons z l => exact ⟨(y :: z :: l).take l.length, rfl⟩

/-- Nothing is the same just in the first three cases. -/
lemma same_eq_zero_iff (lower : Str → Str) (root root' : Root) (l l' : List Str) :
    samePartsLength ((kept root l).map lower) ((kept root' l').map lower) = 0 ↔
      kept root l = [] ∨ kept root' l' = [] ∨ lower root.first ≠ lower root'.first := by
  by_cases hl : kept root l = []
  · rw [hl]
    exact iff_of_true rfl (.inl rfl)
  by_cases hl' : kept root' l' = []
  · rw [hl']
    refine iff_of_true ?_ (.inr (.inl rfl))
    exact Nat.le_zero.mp (Path.samePartsLength_le _ _).2
  obtain ⟨parts, hparts⟩ := kept_cons hl
  obtain ⟨parts', hparts'⟩ := kept_cons hl'
  rw [hparts, hparts', List.map_cons, List.map_cons, samePartsLength]
  split_ifs with h <;> simp [h]

lemma le_samePartsLength {n : ℕ} {l l' : List Str} (h : l.take n = l'.take n) (hn : n ≤ l.length)
    (hn' : n ≤ l'.length) : n ≤ samePartsLength l l' := by
  induction n generalizing l l' with
  | zero => exact Nat.zero_le _
  | succ n ih =>
    cases l with
    | nil => exact absurd hn (Nat.not_succ_le_zero n)
    | cons x l =>
      cases l' with
      | nil => exact absurd hn' (Nat.not_succ_le_zero n)
      | cons y l' =>
        rw [List.take_succ_cons, List.take_succ_cons] at h
        obtain ⟨rfl, htail⟩ := List.cons.inj h
        rw [samePartsLength, if_pos rfl]
        exact Nat.succ_le_succ (ih htail (Nat.le_of_succ_le_succ hn) (Nat.le_of_succ_le_succ hn'))

lemma parts_kept {root : Root} (h : root.Good) {l : List Str} (hl : Parts l) :
    Parts (kept root l) := by
  intro x hx
  cases h with
  | @drive c hc =>
    rcases List.mem_cons.mp hx with rfl | hx
    · refine ⟨List.cons_ne_nil _ _, fun d hd => ?_⟩
      rcases List.mem_pair.mp hd with rfl | rfl
      · exact isSlash_of_isLetter hc
      · decide
    · exact hl x hx
  | unc hserver hshare =>
    rcases List.mem_cons.mp (List.mem_of_mem_take hx) with rfl | hx
    · exact hserver
    · rcases List.mem_cons.mp hx with rfl | hx
      · exact hshare
      · exact hl x hx

lemma parts_ups (k : ℕ) {l : List Str} (h : Parts l) : Parts (List.replicate k (js "..") ++ l) := by
  intro x hx
  rcases List.mem_append.mp hx with hx | hx
  · rw [List.eq_of_mem_replicate hx]
    exact part_of_all (by decide) (by decide)
  · exact h x hx

/-- Only what starts with a name can read like a drive. -/
lemma hasDrive_output (k : ℕ) {l : List Str} (hl : Parts l) :
    hasDrive (join (List.replicate k (js "..") ++ l)) =
      (decide (k = 0) && l.head?.any hasDrive) := by
  cases k with
  | zero =>
    cases l with
    | nil => rfl
    | cons x l =>
      rw [List.replicate_zero, List.nil_append, hasDrive_join (hl x List.mem_cons_self)]
      rfl
  | succ k =>
    rw [List.replicate_succ, List.cons_append, hasDrive_join (part_of_all (by decide) (by decide))]
    rfl

/-- Steps up and then names, behind a full path. -/
lemma resolve_names (h : Full fromPath) (k : ℕ) {l : List Str} (hl : Names l)
    (hdrive : k = 0 → l.head?.any hasDrive = false) :
    resolve lower cwd env [fromPath, join (List.replicate k (js "..") ++ l)] =
      render (root fromPath) ((names fromPath).take ((names fromPath).length - k) ++ l) := by
  have hout : hasDrive (join (List.replicate k (js "..") ++ l)) = false := by
    rw [hasDrive_output k hl.parts]
    by_cases hk : k = 0
    · simp [hdrive hk]
    · simp [hk]
  rw [resolve_behind h (parts_ups k hl.parts) hout, Path.strip_relative _ _ hl.posix]
  rfl

/-- Names that lead to other names up to case are names. -/
lemma names_of_lower (hlower : LowerCase lower) {l l' : List Str} (hl : Parts l) (hl' : Names l')
    (h : l.map lower = l'.map lower) : Names l := by
  intro x hx
  obtain ⟨y, hy, hxy⟩ := List.mem_map.mp (h ▸ List.mem_map_of_mem hx : lower x ∈ l'.map lower)
  refine ⟨hl x hx, ?_, ?_⟩
  · rintro rfl
    exact (hl' y hy).dot (hlower.dot y hxy)
  · rintro rfl
    exact (hl' y hy).dots (hlower.dots y hxy)

/-- What is left of the names of `from`, with what is added, comes to the names of `to`. -/
structure Leads (lower : Str → Str) (root : Root) (l : List Str) (root' : Root) (l' : List Str)
    (same : ℕ) : Prop where
  front : root.front.map lower = root'.front.map lower
  added : Names ((kept root' l').drop same)
  drive : (kept root l).length - same = 0 →
    ((kept root' l').drop same).head?.any hasDrive = false
  names : (l.take (l.length - ((kept root l).length - same)) ++
    (kept root' l').drop same).map lower = l'.map lower

lemma leads_drives {c c' : UInt16} {l l' : List Str} (hl' : Names l')
    (hfirst : lower [c, colon] = lower [c', colon])
    (h : l.map lower <+: l'.map lower → (l'.drop l.length).head?.any hasDrive = false) :
    Leads lower (.drive c) l (.drive c') l'
      (samePartsLength (l.map lower) (l'.map lower) + 1) := by
  obtain ⟨hle, -⟩ := Path.samePartsLength_le (l.map lower) (l'.map lower)
  have htake := Path.take_samePartsLength (l.map lower) (l'.map lower)
  rw [List.length_map] at hle
  generalize samePartsLength (l.map lower) (l'.map lower) = same at hle htake
  have hlength : (kept (.drive c) l).length - (same + 1) = l.length - same := by
    rw [kept, List.length_cons]
    omega
  have hdrop : (kept (.drive c') l').drop (same + 1) = l'.drop same := rfl
  refine ⟨by rw [Root.front, Root.front, List.map_singleton, List.map_singleton, hfirst],
    fun x hx => hl' x (List.mem_of_mem_drop hx), fun hall => ?_, ?_⟩
  · have heq : same = l.length := by omega
    subst heq
    rw [hdrop]
    refine h (List.prefix_iff_eq_take.mpr ?_)
    rw [List.length_map, ← htake, List.take_of_length_le (List.length_map lower).le]
  · rw [hlength, hdrop, Nat.sub_sub_self hle, List.map_append, List.map_take, List.map_drop, htake,
      List.take_append_drop]

lemma same_take {parts parts' : List Str} {k m : ℕ} (hk : k ≤ parts.length) (hm : m ≤ parts'.length)
    (h : parts.take (min k m) = parts'.take (min k m)) :
    samePartsLength (parts.take k) (parts'.take m) = min k m := by
  obtain ⟨hle, hle'⟩ := Path.samePartsLength_le (parts.take k) (parts'.take m)
  rw [List.length_take, min_eq_left hk] at hle
  rw [List.length_take, min_eq_left hm] at hle'
  refine le_antisymm (le_min hle hle') (le_samePartsLength ?_ ?_ ?_)
  · rw [List.take_take, List.take_take, min_eq_left (min_le_left k m),
      min_eq_left (min_le_right k m), h]
  · rw [List.length_take, min_eq_left hk]
    exact min_le_left k m
  · rw [List.length_take, min_eq_left hm]
    exact min_le_right k m

section unc

variable {server share server' share' : Str} {l l' : List Str}

@[simp] lemma length_kept_unc (server share : Str) (l : List Str) :
    (kept (.unc server share) l).length = l.length := by
  rw [kept, List.length_take, List.length_cons, List.length_cons]
  omega

lemma map_kept_unc (lower : Str → Str) (server share : Str) (l : List Str) :
    (kept (.unc server share) l).map lower =
      (lower server :: lower share :: l.map lower).take l.length := by
  rw [kept, List.map_take, List.map_cons, List.map_cons]

variable (hserver : lower server = lower server') (hshare : lower share = lower share')
include hserver hshare

lemma same_unc (h : (l.map lower).take (min l.length l'.length) =
    (l'.map lower).take (min l.length l'.length)) :
    samePartsLength ((kept (.unc server share) l).map lower)
      ((kept (.unc server' share') l').map lower) = min l.length l'.length := by
  rw [map_kept_unc, map_kept_unc, hserver, hshare]
  have hle (m : List Str) : m.length ≤ (lower server' :: lower share' :: m.map lower).length := by
    rw [List.length_cons, List.length_cons, List.length_map]
    omega
  refine same_take (hle l) (hle l') ?_
  have htake := congrArg (fun m => (lower server' :: lower share' :: m).take
    (min l.length l'.length)) h
  have htwo (m : List Str) (n : ℕ) : (lower server' :: lower share' :: m.take n).take n =
      (lower server' :: lower share' :: m).take n := by
    rw [← List.take_succ_cons, ← List.take_succ_cons, List.take_take, min_eq_left (by omega)]
  simpa only [htwo] using htake

lemma front_unc : (Root.unc server share).front.map lower =
    (Root.unc server' share').front.map lower := by
  simp [Root.front, hserver, hshare]

lemma leads_above (h : l'.map lower <+: l.map lower) :
    Leads lower (.unc server share) l (.unc server' share') l' (samePartsLength
      ((kept (.unc server share) l).map lower) ((kept (.unc server' share') l').map lower)) := by
  have hle : l'.length ≤ l.length := by simpa using h.length_le
  have htake : l'.map lower = (l.map lower).take l'.length := by
    simpa using List.prefix_iff_eq_take.mp h
  have hmin := min_eq_right hle
  have hfirst : (l.map lower).take (min l.length l'.length) =
      (l'.map lower).take (min l.length l'.length) := by
    rw [hmin, ← htake, List.take_of_length_le (List.length_map lower).le]
  have hsame := same_unc hserver hshare hfirst
  rw [hmin] at hsame
  have hdrop : (kept (.unc server' share') l').drop l'.length = [] :=
    List.drop_eq_nil_of_le (length_kept_unc _ _ _).le
  rw [hsame]
  refine ⟨front_unc hserver hshare, ?_, fun _ => by rw [hdrop]; rfl, ?_⟩
  · rw [hdrop]
    exact fun x hx => by cases hx
  · rw [hdrop, length_kept_unc, Nat.sub_sub_self hle, List.append_nil, List.map_take, htake]

lemma leads_below (hlower : LowerCase lower) (hgood' : (Root.unc server' share').Good)
    (hl' : Names l') (h : l.map lower <+: l'.map lower)
    (hagain : ((kept (.unc server' share') l').drop l.length).map lower =
      (l'.drop l.length).map lower)
    (hdrive : ((kept (.unc server' share') l').drop l.length).head?.any hasDrive = false) :
    Leads lower (.unc server share) l (.unc server' share') l' (samePartsLength
      ((kept (.unc server share) l).map lower) ((kept (.unc server' share') l').map lower)) := by
  have hle : l.length ≤ l'.length := by simpa using h.length_le
  have htake : l.map lower = (l'.map lower).take l.length := by
    simpa using List.prefix_iff_eq_take.mp h
  have hmin := min_eq_left hle
  have hfirst : (l.map lower).take (min l.length l'.length) =
      (l'.map lower).take (min l.length l'.length) := by
    rw [hmin, ← htake, List.take_of_length_le (List.length_map lower).le]
  have hsame := same_unc hserver hshare hfirst
  rw [hmin] at hsame
  have hparts : Parts ((kept (.unc server' share') l').drop l.length) := fun x hx =>
    parts_kept hgood' hl'.parts x (List.mem_of_mem_drop hx)
  have hnames : Names (l'.drop l.length) := fun x hx => hl' x (List.mem_of_mem_drop hx)
  rw [hsame]
  refine ⟨front_unc hserver hshare, names_of_lower hlower hparts hnames hagain, fun _ => hdrive, ?_⟩
  rw [length_kept_unc, Nat.sub_self, Nat.sub_zero, List.take_length, List.map_append, hagain,
    List.map_drop, htake]
  conv_rhs => rw [← List.take_append_drop l.length (l'.map lower)]

end unc

/-- Where a pair meets the condition and something is the same, the way is right. -/
lemma Meets.leads (hlower : LowerCase lower) {root root' : Root} (hgood' : root'.Good)
    {l l' : List Str} (hl' : Names l') (h : Meets lower root l root' l')
    (hsame : samePartsLength ((kept root l).map lower) ((kept root' l').map lower) ≠ 0) :
    Leads lower root l root' l'
      (samePartsLength ((kept root l).map lower) ((kept root' l').map lower)) := by
  rw [Ne, same_eq_zero_iff, not_or, not_or, not_ne_iff] at hsame
  obtain ⟨hl, hl'', hfirst⟩ := hsame
  cases h with
  | apart h => exact absurd hfirst h
  | fromShare => exact absurd rfl hl
  | toShare => exact absurd rfl hl''
  | @drives c c' _ _ h =>
    have hdrive : lower [c, colon] = lower [c', colon] := hfirst
    have hleads := leads_drives hl' hdrive h
    rw [kept, kept, List.map_cons, List.map_cons, samePartsLength, if_pos hdrive]
    exact hleads
  | above hshare h => exact leads_above hfirst hshare h
  | below hshare h hagain hdrive =>
    exact leads_below hfirst hshare hlower hgood' hl' h hagain hdrive

lemma lower_back (hlower : LowerCase lower) (hfrom : Full fromPath) (hto : Full toPath)
    (h : Meets lower (root fromPath) (names fromPath) (root toPath) (names toPath)) :
    lower (resolve lower cwd env [fromPath, relative lower cwd env fromPath toPath]) =
      lower (resolve lower cwd env [toPath]) := by
  have hgood' := (text_root hto.device).2
  have hnames' := names_names toPath
  have hresolve : resolve lower cwd env [toPath] = render (root toPath) (names toPath) :=
    resolve_full hto []
  rw [relative_eq hlower hfrom hto, hresolve]
  dsimp only
  split_ifs with hsame
  · have hlast : resolve lower cwd env [fromPath, render (root toPath) (names toPath)] = _ :=
      resolve_full (full_render hgood' _) [fromPath]
    rw [hlast, (read_render hgood' _).2, names_render hgood' hnames']
  · have hleads := h.leads hlower hgood' hnames' hsame
    have hparts (n : ℕ) : Parts ((names fromPath).take n ++ (kept (root toPath) (names toPath)).drop
        (samePartsLength ((kept (root fromPath) (names fromPath)).map lower)
          ((kept (root toPath) (names toPath)).map lower))) := fun x hx =>
      (List.mem_append.mp hx).elim
        (fun hx => (names_names fromPath).parts x (List.mem_of_mem_take hx))
        (hleads.added.parts x)
    rw [outputParts, List.length_map, resolve_names hfrom _ hleads.added hleads.drive]
    exact (lower_render_inj hlower (text_root hfrom.device).2 hgood' (hparts _)
      hnames'.parts).mpr
      ⟨hleads.front, hleads.names⟩

/-! ### And when it does not -/

/-- What is behind a drive in front of a name. -/
lemma pieces_behind_drive {x : Str} (hx : ∀ c ∈ x, isSlash c = false) {l : List Str}
    (hl : Parts l) : pieces (join (x :: l)) = if x = [] then l else x :: l := by
  split_ifs with h
  · rw [h]
    rcases eq_or_ne l [] with rfl | hne
    · exact pieces_nil
    · rw [join_cons hne, pieces_backslash, pieces_nil, List.nil_append, pieces_join hl]
  · refine pieces_join fun y hy => ?_
    rcases List.mem_cons.mp hy with rfl | hy
    · exact ⟨h, hx⟩
    · exact hl y hy

lemma join_drive (c : UInt16) (x : Str) (l : List Str) :
    join ((c :: colon :: x) :: l) = c :: colon :: join (x :: l) := by
  rcases eq_or_ne l [] with rfl | hne
  · rw [join, join, List.intercalate_singleton, List.intercalate_singleton]
  · rw [join_cons hne, join_cons hne]
    rfl

lemma Parts.append {l l' : List Str} (h : Parts l) (h' : Parts l') : Parts (l ++ l') := fun x hx =>
  (List.mem_append.mp hx).elim (h x) (h' x)

lemma length_strip_back (parts l : List Str) :
    (strip (parts ++ l)).1.length ≤ (strip parts).1.length + (strip l).1.length ∧
      (strip parts).1.length ≤ (strip (parts ++ l)).1.length + l.length := by
  have hle := length_strip l
  rw [strip_back, List.length_append, List.length_take]
  omega

lemma drive_of_any {l : List Str} (h : l.head?.any hasDrive = true) :
    ∃ c x l', l = (c :: colon :: x) :: l' ∧ isLetter c = true := by
  cases l with
  | nil => exact absurd h Bool.false_ne_true
  | cons y l =>
    cases y with
    | nil => exact absurd h Bool.false_ne_true
    | cons c y =>
      cases y with
      | nil => exact absurd h Bool.false_ne_true
      | cons d x =>
        have hd : (isLetter c && decide (d = colon)) = true := h
        rw [Bool.and_eq_true, decide_eq_true_eq] at hd
        exact ⟨c, x, l, by rw [hd.2], hd.1⟩

lemma nil_of_slash {x : Str} (hx : ∀ d ∈ x, isSlash d = false) {l : List Str}
    (h : (join (x :: l)).head?.any isSlash = true) : x = [] := by
  cases x with
  | nil => rfl
  | cons d x =>
    have hd : (join ((d :: x) :: l)).head? = some d := by
      rcases eq_or_ne l [] with rfl | hne
      · rw [join, List.intercalate_singleton]
        rfl
      · rw [join_cons hne]
        rfl
    rw [hd] at h
    exact absurd h (by simp [hx d List.mem_cons_self])

/-- With dots, or nothing, behind the drive a name is missing. -/
lemma length_strip_behind {x : Str} (hx : ∀ d ∈ x, isSlash d = false) (hname : ¬ Name x)
    {l : List Str} (hl : Parts l) : (strip (pieces (join (x :: l)))).1.length ≤ l.length := by
  rw [pieces_behind_drive hx hl]
  split_ifs with hnil
  · have hshort := length_strip l
    omega
  · refine length_strip_lt ?_ l
    by_contra hdots
    exact hname ⟨⟨hnil, hx⟩, fun h => hdots (.inl h), fun h => hdots (.inr h)⟩

/-- On the drive of `from`, the letter and the colon are lost: the names are too few, or another one
stands there. -/
lemma misread_same (hlower : LowerCase lower) {parts l l' : List Str} {c : UInt16} {x : Str}
    (hc : isLetter c = true) (hx : ∀ d ∈ x, isSlash d = false) (hl : Names l)
    (hdrop : l'.drop (strip parts).1.length = (c :: colon :: x) :: l)
    (hlength : (strip (parts ++ pieces (join (x :: l)))).1.length = l'.length) :
    (strip (parts ++ pieces (join (x :: l)))).1.map lower ≠ l'.map lower := by
  have hcount := congrArg List.length hdrop
  rw [List.length_drop, List.length_cons] at hcount
  by_cases hname : Name x
  · intro hmap
    have hxl : Names (x :: l) := by
      intro y hy
      rcases List.mem_cons.mp hy with rfl | hy
      · exact hname
      · exact hl y hy
    rw [strip_back, pieces_behind_drive hx hl.parts, if_neg hname.ne_nil,
      Path.strip_names hxl.posix] at hmap
    have hlast := congrArg (List.drop (strip parts).1.length) hmap
    rw [← List.map_drop, ← List.map_drop, hdrop] at hlast
    change (((strip parts).1.take ((strip parts).1.length - 0) ++ x :: l).drop _).map lower = _
      at hlast
    rw [Nat.sub_zero, List.take_length, List.drop_left, List.map_cons, List.map_cons] at hlast
    exact hlower.drive c x hc (List.cons.inj hlast).1.symm
  · have hshort := length_strip_behind hx hname hl.parts
    have hback := (length_strip_back parts (pieces (join (x :: l)))).1
    omega

/-- Names that start with one that reads like a drive do not lead to `to`. -/
lemma misread (hlower : LowerCase lower) (cwd : Str) (hfrom : Full fromPath) {root' : Root}
    (hgood' : root'.Good) {l' : List Str} (hl' : Names l') {same : ℕ} (hpos : 0 < same)
    (hall : (kept (root fromPath) (names fromPath)).length = same)
    (hhead : ((kept root' l').drop same).head?.any hasDrive = true) :
    ∃ env, lower (resolve lower cwd env [fromPath, join ((kept root' l').drop same)]) ≠
      lower (render root' l') := by
  obtain ⟨c, x, l, hdrop, hc⟩ := drive_of_any hhead
  -- a directory on another drive has too many names
  have hcurrent : Names (List.replicate (2 * l'.length + 3) (js "a")) := by
    intro y hy
    rw [List.eq_of_mem_replicate hy]
    exact ⟨part_of_all (by decide) (by decide), by decide, by decide⟩
  obtain ⟨parts, hresolve, hparts⟩ :=
    resolve_drive hlower cwd hfrom hc (join (x :: l)) hcurrent
  refine ⟨fun _ => some (render (.drive c) (List.replicate (2 * l'.length + 3) (js "a"))), ?_⟩
  rw [hdrop, join_drive, hresolve]
  intro heq
  have hnames : Names (strip parts).1 := by
    have hpieces := parts_pieces (join (x :: l))
    rcases hparts with ⟨rfl, -⟩ | ⟨rfl, -⟩ | rfl
    · exact names_strip hpieces
    · exact names_strip ((parts_pieces _).append hpieces)
    · exact names_strip (hcurrent.parts.append hpieces)
  obtain ⟨hfront, hmap⟩ :=
    (lower_render_inj hlower (.drive hc) hgood' hnames.parts hl'.parts).mp heq
  have hlength : (strip parts).1.length = l'.length := by simpa using congrArg List.length hmap
  cases hgood' with
  | unc => exact absurd (congrArg List.length hfront) (by simp [Root.front])
  | @drive c' =>
    obtain ⟨n, rfl⟩ := Nat.exists_eq_succ_of_ne_zero hpos.ne'
    have hdrop' : l'.drop n = (c :: colon :: x) :: l := hdrop
    have hmem : ∀ y ∈ (c :: colon :: x) :: l, Name y := fun y hy =>
      hl' y (List.mem_of_mem_drop (hdrop' ▸ hy))
    have hx : ∀ d ∈ x, isSlash d = false := fun d hd =>
      (hmem _ List.mem_cons_self).slash d (List.mem_cons_of_mem _ (List.mem_cons_of_mem _ hd))
    have hl : Names l := fun y hy => hmem y (List.mem_cons_of_mem _ hy)
    have hcount : l'.length = n + 1 + l.length := by
      have hlen := congrArg List.length hdrop'
      rw [List.length_drop, List.length_cons] at hlen
      omega
    rcases hparts with ⟨rfl, hslash⟩ | ⟨rfl, hsame⟩ | rfl
    · -- a drive and a slash: the names before are lost
      rw [pieces_behind_drive hx hl.parts, if_pos (nil_of_slash hx hslash)] at hlength
      have hshort := length_strip l
      omega
    · have hroot : root fromPath = .drive (fromPath.headD 0) := by
        rw [root, isUnc_of_lower hlower hc hsame, if_neg Bool.false_ne_true]
      have hn : (names fromPath).length = n := by
        rw [hroot, kept, List.length_cons] at hall
        omega
      exact misread_same hlower hc hx hl (hn.symm ▸ hdrop') hlength hmap
    · -- on another drive
      have hlong := (length_strip_back (List.replicate (2 * l'.length + 3) (js "a"))
        (pieces (join (x :: l)))).2
      rw [Path.strip_names hcurrent.posix, List.length_replicate] at hlong
      have hle : (pieces (join (x :: l))).length ≤ 1 + l.length := by
        rw [pieces_behind_drive hx hl.parts]
        split_ifs
        · omega
        · rw [List.length_cons]
          omega
      omega

section unc

variable {server share server' share' : Str} {l l' : List Str}
  (hserver : lower server = lower server') (hshare : lower share = lower share')
include hserver hshare

/-- The server and the share are the same as far as there are so many parts. -/
lemma two_le_same : min 2 (min l.length l'.length) ≤
    samePartsLength ((kept (.unc server share) l).map lower)
      ((kept (.unc server' share') l').map lower) := by
  refine le_samePartsLength ?_ (by simp) (by simp)
  rw [map_kept_unc, map_kept_unc, hserver, hshare, List.take_take, List.take_take,
    show min (min 2 (min l.length l'.length)) l.length = min 2 (min l.length l'.length) by omega,
    show min (min 2 (min l.length l'.length)) l'.length = min 2 (min l.length l'.length) by omega]
  have htwo : min 2 (min l.length l'.length) ≤ 2 := min_le_left _ _
  interval_cases min 2 (min l.length l'.length) <;> rfl

/-- If the names go as far as the parts do, no part comes where they would differ. -/
lemma same_eq_min {same : ℕ} (hsame : samePartsLength ((kept (.unc server share) l).map lower)
      ((kept (.unc server' share') l').map lower) = same)
    (h : (l.map lower).take same = (l'.map lower).take same) :
    same = min l.length l'.length := by
  obtain ⟨hle, hle'⟩ := Path.samePartsLength_le ((kept (.unc server share) l).map lower)
    ((kept (.unc server' share') l').map lower)
  rw [List.length_map, length_kept_unc] at hle hle'
  by_contra hne
  have hlt : same + 1 ≤ l.length ∧ same + 1 ≤ l'.length := by omega
  have hmore : same + 1 ≤ samePartsLength ((kept (.unc server share) l).map lower)
      ((kept (.unc server' share') l').map lower) := by
    refine le_samePartsLength ?_ (by simp [hlt.1]) (by simp [hlt.2])
    rw [map_kept_unc, map_kept_unc, hserver, hshare, List.take_take, List.take_take,
      min_eq_left hlt.1, min_eq_left hlt.2, List.take_succ_cons, List.take_succ_cons]
    cases same with
    | zero => rfl
    | succ n =>
      have htake := congrArg (List.take n) h
      rw [List.take_take, List.take_take, min_eq_left (Nat.le_succ n)] at htake
      rw [List.take_succ_cons, List.take_succ_cons, htake]
  omega

omit hserver hshare in
/-- What is added has no dots unless it starts with the share. -/
lemma names_added (hl' : Names l') {same : ℕ} (hpos : 0 < same)
    (h : Name share' ∨ 1 < same ∨ l'.length ≤ 1) :
    Names ((kept (.unc server' share') l').drop same) := by
  intro x hx
  obtain ⟨n, rfl⟩ := Nat.exists_eq_succ_of_ne_zero hpos.ne'
  cases l' with
  | nil => cases n <;> cases hx
  | cons y l' =>
    have htake : x ∈ ((share' :: y :: l').take l'.length).drop n := hx
    cases n with
    | zero =>
      rw [List.drop_zero] at htake
      rcases h with h | h | h
      · rcases List.mem_cons.mp (List.mem_of_mem_take htake) with rfl | hmem
        · exact h
        · exact hl' x hmem
      · omega
      · rw [List.length_cons] at h
        rw [show l'.length = 0 by omega, List.take_zero] at htake
        cases htake
    | succ n =>
      cases hlen : l'.length with
      | zero => rw [hlen, List.take_zero] at htake; cases htake
      | succ m =>
        rw [hlen, List.take_succ_cons, List.drop_succ_cons] at htake
        exact hl' x (List.mem_of_mem_take (List.mem_of_mem_drop htake))

/-- On one share only the last two cases lead to `to`. -/
lemma meets_unc (hgood' : (Root.unc server' share').Good) (hl' : Names l') {parts : List Str}
    (hparts : (strip parts).1 = l) {same : ℕ} (hpos : 0 < same)
    (hsame : samePartsLength ((kept (.unc server share) l).map lower)
      ((kept (.unc server' share') l').map lower) = same)
    (hdrive : l.length - same = 0 →
      ((kept (.unc server' share') l').drop same).head?.any hasDrive = false)
    (hmap : (strip (parts ++ (List.replicate (l.length - same) (js "..") ++
      (kept (.unc server' share') l').drop same))).1.map lower = l'.map lower) :
    Meets lower (.unc server share) l (.unc server' share') l' := by
  have htwo : min 2 (min l.length l'.length) ≤ _ := two_le_same hserver hshare
  have hle := Path.samePartsLength_le ((kept (.unc server share) l).map lower)
    ((kept (.unc server' share') l').map lower)
  rw [hsame, List.length_map, List.length_map, length_kept_unc, length_kept_unc] at hle
  rw [hsame] at htwo
  by_cases hnames : Name share' ∨ 1 < same ∨ l'.length ≤ 1
  · have hadded : Names ((kept (.unc server' share') l').drop same) :=
      names_added hl' hpos hnames
    rw [Path.strip_relative _ _ hadded.posix, hparts, Nat.sub_sub_self hle.1, List.map_append]
      at hmap
    have hsplit := hmap.trans (List.take_append_drop same (l'.map lower)).symm
    have hlength : ((l.take same).map lower).length = ((l'.map lower).take same).length := by
      simp [hle.1, hle.2]
    obtain ⟨hfirst, hlast⟩ := List.append_inj hsplit hlength
    rw [List.map_take] at hfirst
    have hmin := same_eq_min hserver hshare hsame hfirst
    rcases le_total l'.length l.length with h | h
    · refine .above hshare (List.prefix_iff_eq_take.mpr ?_)
      rw [min_eq_right h] at hmin
      rw [List.length_map, ← hmin, hfirst, hmin, List.take_of_length_le (List.length_map lower).le]
    · rw [min_eq_left h] at hmin
      subst hmin
      refine .below hshare (List.prefix_iff_eq_take.mpr ?_) (hlast.trans (List.map_drop ..).symm)
        (hdrive (Nat.sub_self _))
      rw [List.length_map, ← hfirst, List.take_of_length_le (List.length_map lower).le]
  · -- the share is `.` or `..`, so there are too few names
    rw [not_or, not_or] at hnames
    obtain ⟨hshare', hone, hmany⟩ := hnames
    have hsame' : same = 1 := by omega
    have hl : l.length = 1 := by omega
    subst hsame'
    have hdots : share' = js "." ∨ share' = js ".." := by
      by_contra hdots
      cases hgood' with
      | unc _ hpart => exact hshare' ⟨hpart, fun h => hdots (.inl h), fun h => hdots (.inr h)⟩
    have hkept : (kept (.unc server' share') l').drop 1 = share' :: l'.take (l'.length - 2) := by
      rw [kept, show l'.length = l'.length - 2 + 1 + 1 by omega, List.take_succ_cons,
        List.take_succ_cons, List.drop_succ_cons, List.drop_zero]
      rfl
    have hshort := length_strip_lt hdots (l'.take (l'.length - 2))
    have hback := (length_strip_back parts (share' :: l'.take (l'.length - 2))).1
    have hlength := congrArg List.length hmap
    rw [hl, hkept, List.replicate_zero, List.nil_append, List.length_map, List.length_map]
      at hlength
    rw [List.length_take] at hshort
    rw [hparts] at hback
    omega

end unc

/-- On a drive only a name that reads like one leads elsewhere. -/
lemma meets_drives {c c' : UInt16} {l l' : List Str} {same : ℕ} (hpos : 0 < same)
    (hsame : samePartsLength ((kept (.drive c) l).map lower) ((kept (.drive c') l').map lower) =
      same)
    (hdrive : (kept (.drive c) l).length - same = 0 →
      ((kept (.drive c') l').drop same).head?.any hasDrive = false) :
    Meets lower (.drive c) l (.drive c') l' := by
  refine .drives fun hprefix => ?_
  rw [kept, kept, List.map_cons, List.map_cons, samePartsLength] at hsame
  split_ifs at hsame
  · have hle := (Path.samePartsLength_le (l.map lower) (l'.map lower)).1
    have hge : l.length ≤ samePartsLength (l.map lower) (l'.map lower) := by
      have htake := List.prefix_iff_eq_take.mp hprefix
      rw [List.length_map] at htake
      refine le_samePartsLength ?_ (List.length_map lower).ge ?_
      · rw [← htake, List.take_of_length_le (List.length_map lower).le]
      · simpa using hprefix.length_le
    rw [List.length_map] at hle
    have heq : same = l.length + 1 := by omega
    subst heq
    exact hdrive (by rw [kept, List.length_cons, Nat.sub_self])
  · omega

lemma meets_of_back (hlower : LowerCase lower) (cwd : Str) (hfrom : Full fromPath)
    (hto : Full toPath)
    (h : ∀ env, lower (resolve lower cwd env [fromPath, relative lower cwd env fromPath toPath]) =
      lower (resolve lower cwd env [toPath])) :
    Meets lower (root fromPath) (names fromPath) (root toPath) (names toPath) := by
  have hgood := (text_root hfrom.device).2
  have hgood' := (text_root hto.device).2
  have hnames' := names_names toPath
  have hresolve (env : Str → Option Str) :
      resolve lower cwd env [toPath] = render (root toPath) (names toPath) := resolve_full hto []
  by_cases hsame : samePartsLength ((kept (root fromPath) (names fromPath)).map lower)
      ((kept (root toPath) (names toPath)).map lower) = 0
  · rcases (same_eq_zero_iff lower _ _ _ _).mp hsame with hnil | hnil | hfirst
    · obtain ⟨hl, x, y, hroot⟩ := kept_eq_nil hnil
      rw [hl, hroot]
      exact .fromShare
    · obtain ⟨hl, x, y, hroot⟩ := kept_eq_nil hnil
      rw [hl, hroot]
      exact .toShare
    · exact .apart hfirst
  have hle := (Path.samePartsLength_le ((kept (root fromPath) (names fromPath)).map lower)
    ((kept (root toPath) (names toPath)).map lower)).1
  rw [List.length_map] at hle
  have hrelative (env : Str → Option Str) := h env
  simp only [relative_eq hlower hfrom hto, hresolve, if_neg hsame, outputParts, List.length_map]
    at hrelative
  generalize hcount : samePartsLength ((kept (root fromPath) (names fromPath)).map lower)
    ((kept (root toPath) (names toPath)).map lower) = same at *
  have hpos : 0 < same := Nat.pos_of_ne_zero hsame
  have hadded : Parts ((kept (root toPath) (names toPath)).drop same) := fun x hx =>
    parts_kept hgood' hnames'.parts x (List.mem_of_mem_drop hx)
  have hdrive : (kept (root fromPath) (names fromPath)).length - same = 0 →
      ((kept (root toPath) (names toPath)).drop same).head?.any hasDrive = false := by
    intro hall
    by_contra hhead
    rw [Bool.not_eq_false] at hhead
    obtain ⟨env, hne⟩ := misread hlower cwd hfrom hgood' hnames' hpos (by omega) hhead
    refine hne ?_
    have heq := hrelative env
    rwa [hall, List.replicate_zero, List.nil_append] at heq
  have hout : hasDrive (join (List.replicate ((kept (root fromPath) (names fromPath)).length - same)
      (js "..") ++ (kept (root toPath) (names toPath)).drop same)) = false := by
    rw [hasDrive_output _ hadded]
    by_cases hall : (kept (root fromPath) (names fromPath)).length - same = 0
    · rw [hdrive hall, Bool.and_false]
    · rw [decide_eq_false hall, Bool.false_and]
  have hback := hrelative fun _ => none
  rw [resolve_behind hfrom (parts_ups _ hadded) hout] at hback
  have hstrip := names_strip ((parts_pieces (tail fromPath)).append (parts_ups
    ((kept (root fromPath) (names fromPath)).length - same) hadded))
  obtain ⟨hfront, hmap⟩ :=
    (lower_render_inj hlower hgood hgood' hstrip.parts hnames'.parts).mp hback
  have hparts : (strip (pieces (tail fromPath))).1 = names fromPath := rfl
  generalize root fromPath = r at *
  generalize names fromPath = l at *
  generalize root toPath = r' at *
  generalize names toPath = l' at *
  cases r with
  | drive c =>
    cases r' with
    | drive c' => exact meets_drives hpos hcount hdrive
    | unc server' share' => exact absurd (congrArg List.length hfront) (by simp [Root.front])
  | unc server share =>
    cases r' with
    | drive c' => exact absurd (congrArg List.length hfront) (by simp [Root.front])
    | unc server' share' =>
      simp only [Root.front, List.map_cons, List.cons.injEq, true_and, and_true] at hfront
      rw [length_kept_unc] at hdrive hmap
      exact meets_unc hfront.1 hfront.2 hgood' hnames' hparts hpos hcount hdrive hmap

/-- **There and back.** Whatever the environment, what `relative` returns leads to `to` up to case,
for just those pairs of full paths that `Meets` tells. -/
theorem resolve_relative_iff (hlower : LowerCase lower) (hfrom : Full fromPath)
    (hto : Full toPath) :
    (∀ cwd env, lower (resolve lower cwd env
      [fromPath, relative lower cwd env fromPath toPath]) =
        lower (resolve lower cwd env [toPath])) ↔
      Meets lower (root fromPath) (names fromPath) (root toPath) (names toPath) :=
  ⟨fun h => meets_of_back hlower [] hfrom hto (h []),
    fun h _ _ => lower_back hlower hfrom hto h⟩

lemma lowerUnit_eq {c d : UInt16} (hc : c < 97) (h : lowerUnit d = c) : d = c := by
  unfold lowerUnit at h
  split_ifs at h with hupper
  · subst h
    rw [UInt16.lt_iff_toNat_lt, UInt16.toNat_add] at hc
    rw [UInt16.le_iff_toNat_le, UInt16.le_iff_toNat_le] at hupper
    simp at hc hupper
    omega
  · exact h

lemma lowerCase_ascii : LowerCase toLowerCase where
  append a b := by
    rw [toLowerCase, List.map_append]
    rfl
  slash a c hc := by
    have hfix : c < 97 ∧ lowerUnit c = c := by
      rw [isSlash, Bool.or_eq_true, decide_eq_true_eq, decide_eq_true_eq] at hc
      rcases hc with rfl | rfl <;> decide
    refine ⟨fun h => ?_, fun h => hfix.2 ▸ List.mem_map_of_mem h⟩
    obtain ⟨d, hd, heq⟩ := List.mem_map.mp h
    rwa [← lowerUnit_eq hfix.1 heq]
  nil a := List.map_eq_nil_iff
  dot a h := by
    obtain ⟨d, rfl, hd⟩ := List.map_eq_singleton_iff.mp (show a.map lowerUnit = [46] from h)
    rw [lowerUnit_eq (by decide) hd]
    rfl
  dots a h := by
    have hmap : a.map lowerUnit = [46, 46] := h
    obtain ⟨d, s, rfl, hd, hs⟩ := List.map_eq_cons_iff.mp hmap
    obtain ⟨e, rfl, he⟩ := List.map_eq_singleton_iff.mp hs
    rw [lowerUnit_eq (by decide) hd, lowerUnit_eq (by decide) he]
    rfl
  drive c a _ h := by
    have hlength := congrArg List.length h
    simp only [toLowerCase, List.length_map, List.length_cons] at hlength
    omega

/-- On a drive the letter's case does not count. -/
theorem resolve_relative_iff_sibling :
    relative toLowerCase [] (fun _ => none) (js "C:\\a\\b") (js "c:/A/d") = js "..\\d" ∧
      ∀ cwd env, toLowerCase (resolve toLowerCase cwd env
        [js "C:\\a\\b", relative toLowerCase cwd env (js "C:\\a\\b") (js "c:/A/d")]) =
          toLowerCase (resolve toLowerCase cwd env [js "c:/A/d"]) := by
  refine ⟨by decide, (resolve_relative_iff lowerCase_ascii ⟨by decide, by decide⟩
    ⟨by decide, by decide⟩).mpr ?_⟩
  exact .drives fun _ => by decide

/-- On a share, from one file to the next, it leads nowhere. -/
theorem share_sibling : Full (js "\\\\s\\h\\a\\b") ∧ Full (js "\\\\s\\h\\a\\c") ∧
    relative toLowerCase [] (fun _ => none) (js "\\\\s\\h\\a\\b") (js "\\\\s\\h\\a\\c") = [] ∧
    toLowerCase (resolve toLowerCase [] (fun _ => none) [js "\\\\s\\h\\a\\b",
      relative toLowerCase [] (fun _ => none) (js "\\\\s\\h\\a\\b") (js "\\\\s\\h\\a\\c")]) ≠
        toLowerCase (resolve toLowerCase [] (fun _ => none) [js "\\\\s\\h\\a\\c"]) :=
  ⟨⟨by decide, by decide⟩, ⟨by decide, by decide⟩, by decide, by decide⟩

end NodeCore.PathWin32
