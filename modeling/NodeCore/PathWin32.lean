import NodeCore.PathRelative
import NodeCore.Separator

/-!
`path.resolve` on Windows. A full path, with a drive or the root of a share in front, is resolved
to that and a list of names.

`toLowerCase` is a parameter, the same one everywhere; so is what `process.env` has.
-/

namespace NodeCore.PathWin32

open NodeCore.Encoding
open NodeCore.Path (strip normalizeArray)

/-- `'\\'`. -/
def backslash : UInt16 := 92

/-- `':'`. -/
def colon : UInt16 := 58

/-- `[\\\/]`. -/
def isSlash (c : UInt16) : Bool := c = backslash || c = Path.slash

/-- `[a-zA-Z]`. -/
def isLetter (c : UInt16) : Bool := (65 ≤ c && c ≤ 90) || (97 ≤ c && c ≤ 122)

/-- `join('\\')`. -/
def join (parts : List Str) : Str := List.intercalate [backslash] parts

/-! ### `splitDeviceRe` -/

/-- `[a-zA-Z]:` is in front. -/
def hasDrive : Str → Bool
  | c :: d :: _ => isLetter c && d = colon
  | _ => false

/-- What `[^\\\/]+` takes behind two slashes. -/
def server (path : Str) : Str := (path.drop 2).takeWhile (!isSlash ·)

/-- What `[\\\/]+` takes behind that. -/
def slashes (path : Str) : Str := ((path.drop 2).dropWhile (!isSlash ·)).takeWhile isSlash

/-- What the second `[^\\\/]+` takes. -/
def share (path : Str) : Str :=
  (((path.drop 2).dropWhile (!isSlash ·)).dropWhile isSlash).takeWhile (!isSlash ·)

/-- `[\\\/]{2}[^\\\/]+[\\\/]+[^\\\/]+` is in front. -/
def hasUnc : Str → Bool
  | a :: b :: path =>
    isSlash a && isSlash b && server (a :: b :: path) ≠ [] && slashes (a :: b :: path) ≠ [] &&
      share (a :: b :: path) ≠ []
  | _ => false

/-- `result[1]`, empty where there is none. -/
def device (path : Str) : Str :=
  if hasDrive path then path.take 2
  else if hasUnc path then path.take 2 ++ server path ++ slashes path ++ share path
  else []

/-- What is behind the device. -/
def rest (path : Str) : Str := path.drop (device path).length

/-- There is a `result[2]`. -/
def slashed (path : Str) : Bool := (rest path).head?.any isSlash

/-- `result[3]`. -/
def tail (path : Str) : Str := if slashed path then (rest path).drop 1 else rest path

def isUnc (path : Str) : Bool := device path ≠ [] && (device path)[1]? ≠ some colon

def isAbsolute (path : Str) : Bool := slashed path || isUnc path

/-- `replace(/[\\\/]+/g, '\\')`: of each run the last becomes the backslash. -/
def squash : Str → Str
  | [] => []
  | c :: s =>
    if isSlash c then
      if s.head?.any isSlash then squash s else backslash :: squash s
    else c :: squash s

def normalizeUNCRoot (device : Str) : Str :=
  backslash :: backslash :: squash (device.dropWhile isSlash)

/-! ### `resolve` -/

/-- The variables of the loop. `isUnc` is of the last path that was not skipped as empty. -/
structure Acc where
  resolvedDevice : Str
  resolvedTail : Str
  resolvedAbsolute : Bool
  isUnc : Bool

/-- One turn of the loop, for a path that is not empty. -/
def visit (lower : Str → Str) (path : Str) (acc : Acc) : Acc :=
  if device path ≠ [] ∧ acc.resolvedDevice ≠ [] ∧
      lower (device path) ≠ lower acc.resolvedDevice then
    { acc with isUnc := isUnc path }
  else
    { resolvedDevice := if acc.resolvedDevice = [] then device path else acc.resolvedDevice
      resolvedTail :=
        if acc.resolvedAbsolute then acc.resolvedTail
        else tail path ++ backslash :: acc.resolvedTail
      resolvedAbsolute := acc.resolvedAbsolute || isAbsolute path
      isUnc := isUnc path }

/-- The path for the turn after the arguments: the current directory, or that of the drive. -/
def directory (lower : Str → Str) (cwd : Str) (env : Str → Option Str) (acc : Acc) : Str :=
  if acc.resolvedDevice = [] then cwd
  else match env (js "=" ++ acc.resolvedDevice) with
    | none => acc.resolvedDevice ++ [backslash]
    | some path =>
      if path = [] ∨ lower (path.take 3) ≠ lower acc.resolvedDevice ++ [backslash] then
        acc.resolvedDevice ++ [backslash]
      else path

def gather (lower : Str → Str) (cwd : Str) (env : Str → Option Str) : List Str → Acc → Acc
  | [], acc =>
    let path := directory lower cwd env acc
    if path = [] then acc else visit lower path acc
  | path :: paths, acc =>
    if path = [] then gather lower cwd env paths acc
    else
      let acc := visit lower path acc
      if acc.resolvedDevice ≠ [] ∧ acc.resolvedAbsolute then acc
      else gather lower cwd env paths acc

/-- The parts of a tail that are not empty. -/
def pieces (tail : Str) : List Str := (tail.splitOnP isSlash).filter (· ≠ [])

/-- What `resolve` makes of the variables after the loop. -/
def finish (acc : Acc) : Str :=
  let resolvedDevice :=
    if acc.isUnc then normalizeUNCRoot acc.resolvedDevice else acc.resolvedDevice
  let resolvedTail := join (normalizeArray (pieces acc.resolvedTail) (!acc.resolvedAbsolute))
  let path := resolvedDevice ++ (if acc.resolvedAbsolute then [backslash] else []) ++ resolvedTail
  if path = [] then js "." else path

def resolve (lower : Str → Str) (cwd : Str) (env : Str → Option Str) (paths : List Str) : Str :=
  finish (gather lower cwd env paths.reverse ⟨[], [], false, false⟩)

/-! ### Names and roots -/

/-- A part of a path, `..` included. -/
structure Part (x : Str) : Prop where
  ne_nil : x ≠ []
  slash : ∀ c ∈ x, isSlash c = false

structure Name (x : Str) : Prop extends Part x where
  dot : x ≠ js "."
  dots : x ≠ js ".."

def Parts (l : List Str) : Prop := ∀ x ∈ l, Part x

def Names (l : List Str) : Prop := ∀ x ∈ l, Name x

lemma Part.backslash {x : Str} (h : Part x) : backslash ∉ x := fun hmem =>
  absurd (h.slash _ hmem) (by decide)

lemma part_of_all {x : Str} (hne : x ≠ []) (h : x.all (!isSlash ·) = true) : Part x :=
  ⟨hne, fun c hc => by simpa using List.all_eq_true.mp h c hc⟩

lemma Names.parts {l : List Str} (h : Names l) : Parts l := fun x hx => (h x hx).toPart

lemma Names.posix {l : List Str} (h : Names l) : Path.Names l := fun x hx =>
  ⟨(h x hx).ne_nil, fun hmem => absurd ((h x hx).slash _ hmem) (by decide), (h x hx).dot,
    (h x hx).dots⟩

/-- What a device stands for. -/
inductive Root
  | drive (letter : UInt16)
  | unc (server share : Str)

/-- The device as `resolve` returns it. -/
def Root.text : Root → Str
  | .drive letter => [letter, colon]
  | .unc server share => backslash :: backslash :: (server ++ backslash :: share)

inductive Root.Good : Root → Prop
  | drive {letter : UInt16} (h : isLetter letter = true) : Good (.drive letter)
  | unc {server share : Str} (hserver : Part server) (hshare : Part share) :
      Good (.unc server share)

/-- The full path of these names. -/
def render (root : Root) (names : List Str) : Str := root.text ++ backslash :: join names

def root (path : Str) : Root :=
  if isUnc path then .unc (server path) (share path) else .drive (path.headD 0)

def names (path : Str) : List Str := (strip (pieces (tail path))).1

/-- A path with a drive or a share in front, and absolute. -/
structure Full (path : Str) : Prop where
  device : device path ≠ []
  absolute : isAbsolute path = true

/-! ### `pieces` -/

@[simp] lemma pieces_nil : pieces [] = [] := by
  rw [pieces, List.splitOnP_nil]
  rfl

lemma pieces_append (a : Str) {c : UInt16} (hc : isSlash c = true) (b : Str) :
    pieces (a ++ c :: b) = pieces a ++ pieces b := by
  rw [pieces, List.splitOnP_append_cons _ _ hc, List.filter_append]
  rfl

lemma pieces_backslash (a b : Str) : pieces (a ++ backslash :: b) = pieces a ++ pieces b :=
  pieces_append a (by decide) b

lemma pieces_part {x : Str} (h : Part x) : pieces x = [x] := by
  rw [pieces, List.splitOnP_eq_singleton h.slash, List.filter_singleton]
  simp [h.ne_nil]

lemma join_cons {l : List Str} (h : l ≠ []) (x : Str) :
    join (x :: l) = x ++ backslash :: join l := by
  rw [join, List.intercalate_cons_of_ne_nil h, List.append_assoc]
  rfl

lemma pieces_join {l : List Str} (h : Parts l) : pieces (join l) = l := by
  induction l with
  | nil => exact pieces_nil
  | cons x l ih =>
    have hx := pieces_part (h x List.mem_cons_self)
    rcases eq_or_ne l [] with rfl | hne
    · rwa [join, List.intercalate_singleton]
    · rw [join_cons hne, pieces_backslash, hx, ih fun z hz => h z (List.mem_cons_of_mem _ hz)]
      rfl

lemma slash_of_mem_splitOnP {s x : Str} (h : x ∈ s.splitOnP isSlash) :
    ∀ c ∈ x, isSlash c = false := by
  induction s generalizing x with
  | nil =>
    rw [List.splitOnP_nil, List.mem_singleton] at h
    simp [h]
  | cons d s ih =>
    rw [List.splitOnP_cons_eq_if_modifyHead] at h
    cases hs : s.splitOnP isSlash with
    | nil => exact absurd hs (List.splitOnP_ne_nil _ _)
    | cons y ys =>
      rw [hs] at h ih
      split_ifs at h with hd
      · rcases List.mem_cons.mp h with rfl | h
        · simp
        · exact ih h
      · rcases List.mem_cons.mp h with rfl | h
        · intro c hc
          rcases List.mem_cons.mp hc with rfl | hc
          · simpa using hd
          · exact ih List.mem_cons_self c hc
        · exact ih (List.mem_cons_of_mem _ h)

lemma parts_pieces (s : Str) : Parts (pieces s) := by
  intro x hx
  obtain ⟨hsplit, hne⟩ := List.mem_filter.mp hx
  exact ⟨by simpa using hne, slash_of_mem_splitOnP hsplit⟩

lemma names_strip {l : List Str} (h : Parts l) : Names (strip l).1 := by
  intro x hx
  obtain ⟨hmem, hdot, hdots⟩ := Path.mem_strip hx
  exact ⟨h x hmem, hdot, hdots⟩

lemma names_names (path : Str) : Names (names path) :=
  names_strip (parts_pieces _)

/-! ### Devices -/

lemma part_takeWhile {s : Str} (h : s.takeWhile (!isSlash ·) ≠ []) :
    Part (s.takeWhile (!isSlash ·)) :=
  ⟨h, fun _ hc => by simpa using List.mem_takeWhile_imp hc⟩

lemma isSlash_of_isLetter {c : UInt16} (h : isLetter c = true) : isSlash c = false := by
  by_contra hslash
  rw [Bool.not_eq_false, isSlash, Bool.or_eq_true, decide_eq_true_eq, decide_eq_true_eq] at hslash
  rcases hslash with rfl | rfl <;> exact absurd h (by decide)

/-- A device is one of the two. -/
lemma device_cases {path : Str} (h : device path ≠ []) :
    (∃ c p, path = c :: colon :: p ∧ isLetter c = true) ∨
      ∃ a b p, path = a :: b :: p ∧ isSlash a = true ∧ isSlash b = true ∧
        hasDrive path = false ∧ hasUnc path = true := by
  cases path with
  | nil => exact absurd rfl h
  | cons a path =>
    cases path with
    | nil => exact absurd rfl h
    | cons b p =>
      by_cases hdrive : hasDrive (a :: b :: p) = true
      · left
        rw [hasDrive, Bool.and_eq_true, decide_eq_true_eq] at hdrive
        exact ⟨a, p, by rw [hdrive.2], hdrive.1⟩
      · right
        by_cases hunc : hasUnc (a :: b :: p) = true
        · have hslash := hunc
          simp only [hasUnc, Bool.and_eq_true] at hslash
          exact ⟨a, b, p, rfl, hslash.1.1.1.1, hslash.1.1.1.2, by simpa using hdrive, hunc⟩
        · exact absurd (by rw [device, if_neg hdrive, if_neg hunc]) h

section drive

variable {c : UInt16} (h : isLetter c = true) (p : Str)
include h

lemma device_drive : device (c :: colon :: p) = [c, colon] := by
  simp [device, hasDrive, h]

lemma isUnc_drive : isUnc (c :: colon :: p) = false := by
  simp [isUnc, device_drive h]

lemma rest_drive : rest (c :: colon :: p) = p := by
  rw [rest, device_drive h]
  rfl

lemma root_drive : root (c :: colon :: p) = .drive c := by
  rw [root, isUnc_drive h, if_neg Bool.false_ne_true]
  rfl

end drive

lemma squash_append {x : Str} (h : ∀ c ∈ x, isSlash c = false) (s : Str) :
    squash (x ++ s) = x ++ squash s := by
  induction x with
  | nil => rfl
  | cons c x ih =>
    rw [List.cons_append, squash, h c List.mem_cons_self, if_neg Bool.false_ne_true,
      ih fun d hd => h d (List.mem_cons_of_mem _ hd), List.cons_append]

lemma Part.head {x : Str} (h : Part x) (s : Str) : (x ++ s).head?.any isSlash = false := by
  cases x with
  | nil => exact absurd rfl h.ne_nil
  | cons c x => exact h.slash c List.mem_cons_self

lemma squash_run {x y : Str} (hx : ∀ c ∈ x, isSlash c = true) (hne : x ≠ []) (hy : Part y) :
    squash (x ++ y) = backslash :: y := by
  induction x with
  | nil => exact absurd rfl hne
  | cons c x ih =>
    rw [List.cons_append, squash, if_pos (hx c List.mem_cons_self)]
    cases x with
    | nil =>
      have hhead := hy.head []
      rw [List.append_nil] at hhead
      have hsquash := squash_append hy.slash []
      rw [List.append_nil] at hsquash
      rw [List.nil_append, hhead, if_neg Bool.false_ne_true, hsquash, squash, List.append_nil]
    | cons d x =>
      have hd : (d :: x ++ y).head?.any isSlash = true :=
        hx d (List.mem_cons_of_mem _ List.mem_cons_self)
      rw [hd, if_pos rfl]
      exact ih (fun e he => hx e (List.mem_cons_of_mem _ he)) (List.cons_ne_nil _ _)

section unc

variable {a b : UInt16} {p : Str} (hunc : hasUnc (a :: b :: p) = true)
  (hdrive : hasDrive (a :: b :: p) = false)
include hunc

lemma isSlash_unc : isSlash a = true ∧ isSlash b = true := by
  simp only [hasUnc, Bool.and_eq_true] at hunc
  exact hunc.1.1.1

lemma part_server : Part (server (a :: b :: p)) := by
  simp only [hasUnc, Bool.and_eq_true, decide_eq_true_eq] at hunc
  exact part_takeWhile hunc.1.1.2

lemma part_share : Part (share (a :: b :: p)) := by
  simp only [hasUnc, Bool.and_eq_true, decide_eq_true_eq] at hunc
  exact part_takeWhile hunc.2

lemma slashes_ne_nil : slashes (a :: b :: p) ≠ [] := by
  simp only [hasUnc, Bool.and_eq_true, decide_eq_true_eq] at hunc
  exact hunc.1.2

include hdrive

lemma device_unc : device (a :: b :: p) = a :: b ::
    (server (a :: b :: p) ++ (slashes (a :: b :: p) ++ share (a :: b :: p))) := by
  rw [device, hdrive, if_neg Bool.false_ne_true, hunc, if_pos rfl, List.append_assoc,
    List.append_assoc]
  rfl

lemma isUnc_unc : isUnc (a :: b :: p) = true := by
  have hb : b ≠ colon := by
    rintro rfl
    exact absurd (isSlash_unc hunc).2 (by decide)
  simp [isUnc, device_unc hunc hdrive, hb]

lemma root_unc : root (a :: b :: p) = .unc (server (a :: b :: p)) (share (a :: b :: p)) := by
  rw [root, isUnc_unc hunc hdrive, if_pos rfl]

lemma normalizeUNCRoot_unc : normalizeUNCRoot (device (a :: b :: p)) =
    (root (a :: b :: p)).text := by
  have hserver := part_server hunc
  have hrun : ∀ c ∈ slashes (a :: b :: p), isSlash c = true := fun c hc =>
    List.mem_takeWhile_imp hc
  obtain ⟨ha, hb⟩ := isSlash_unc hunc
  have hdrop : (device (a :: b :: p)).dropWhile isSlash =
      server (a :: b :: p) ++ (slashes (a :: b :: p) ++ share (a :: b :: p)) := by
    rw [device_unc hunc hdrive, List.dropWhile_cons_of_pos ha, List.dropWhile_cons_of_pos hb]
    generalize slashes (a :: b :: p) ++ share (a :: b :: p) = s
    generalize server (a :: b :: p) = x at hserver
    cases x with
    | nil => exact absurd rfl hserver.ne_nil
    | cons c x =>
      rw [List.cons_append, List.dropWhile_cons_of_neg]
      rw [hserver.slash c List.mem_cons_self]
      exact Bool.false_ne_true
  rw [root_unc hunc hdrive, normalizeUNCRoot, hdrop, squash_append hserver.slash,
    squash_run hrun (slashes_ne_nil hunc) (part_share hunc)]
  rfl

end unc

/-- What `resolve` returns in front of the names. -/
lemma text_root {path : Str} (h : device path ≠ []) :
    (if isUnc path then normalizeUNCRoot (device path) else device path) = (root path).text ∧
      (root path).Good := by
  rcases device_cases h with ⟨c, p, rfl, hc⟩ | ⟨a, b, p, rfl, -, -, hdrive, hunc⟩
  · rw [isUnc_drive hc, if_neg Bool.false_ne_true, device_drive hc, root_drive hc]
    exact ⟨rfl, .drive hc⟩
  · rw [isUnc_unc hunc hdrive, if_pos rfl, normalizeUNCRoot_unc hunc hdrive, root_unc hunc hdrive]
    exact ⟨rfl, .unc (part_server hunc) (part_share hunc)⟩

/-! ### A full path is read back -/

section part

variable {x : Str} (h : Part x) {c : UInt16} (hc : isSlash c = true) (s : Str)
include h hc

lemma takeWhile_part : (x ++ c :: s).takeWhile (!isSlash ·) = x := by
  rw [List.takeWhile_append_of_pos fun d hd => by simp [h.slash d hd],
    List.takeWhile_cons_of_neg (by simp [hc]), List.append_nil]

lemma dropWhile_part : (x ++ c :: s).dropWhile (!isSlash ·) = c :: s := by
  rw [List.dropWhile_append_of_pos fun d hd => by simp [h.slash d hd],
    List.dropWhile_cons_of_neg (by simp [hc])]

end part

section render

variable {root : Root} (h : root.Good) (l : List Str)
include h

lemma read_render : device (render root l) = root.text ∧
    PathWin32.root (render root l) = root := by
  cases h with
  | @drive c hc => exact ⟨device_drive hc _, root_drive hc _⟩
  | @unc x y hx hy =>
    have hslash : isSlash backslash = true := by decide
    have hpath : render (.unc x y) l =
        backslash :: backslash :: (x ++ backslash :: (y ++ backslash :: join l)) := by
      simp [render, Root.text]
    have hserver : server (render (.unc x y) l) = x := by
      rw [hpath]
      exact takeWhile_part hx hslash _
    have hdrop : ((render (.unc x y) l).drop 2).dropWhile (!isSlash ·) =
        backslash :: (y ++ backslash :: join l) := by
      rw [hpath]
      exact dropWhile_part hx hslash _
    have hhead : isSlash (y.headD 0) = false ∧ ∃ c s, y = c :: s := by
      cases y with
      | nil => exact absurd rfl hy.ne_nil
      | cons c y => exact ⟨hy.slash c List.mem_cons_self, c, y, rfl⟩
    obtain ⟨hc, c, s, hcons⟩ := hhead
    have hneg : ¬ isSlash c = true := by simpa [hcons] using hc
    have hslashes : slashes (render (.unc x y) l) = [backslash] := by
      rw [slashes, hdrop, List.takeWhile_cons_of_pos hslash, hcons, List.cons_append,
        List.takeWhile_cons_of_neg hneg]
    have hshare : share (render (.unc x y) l) = y := by
      rw [share, hdrop, List.dropWhile_cons_of_pos hslash]
      conv_lhs => rw [hcons, List.cons_append, List.dropWhile_cons_of_neg hneg]
      rw [← List.cons_append, ← hcons]
      exact takeWhile_part hy hslash _
    have hunc : hasUnc (render (.unc x y) l) = true := by
      rw [hpath] at hserver hslashes hshare ⊢
      simp [hasUnc, hserver, hslashes, hshare, hx.ne_nil, hy.ne_nil, hslash]
    rw [hpath] at hserver hslashes hshare hunc ⊢
    refine ⟨?_, ?_⟩
    · rw [device_unc hunc rfl, hserver, hslashes, hshare]
      rfl
    · rw [root_unc hunc rfl, hserver, hshare]

lemma rest_render : rest (render root l) = backslash :: join l := by
  rw [rest, (read_render h l).1, render, List.drop_left]

lemma slashed_render : slashed (render root l) = true := by
  rw [slashed, rest_render h]
  rfl

lemma tail_render : tail (render root l) = join l := by
  rw [tail, slashed_render h, if_pos rfl, rest_render h]
  rfl

lemma full_render : Full (render root l) := by
  refine ⟨?_, by rw [isAbsolute, slashed_render h, Bool.true_or]⟩
  rw [(read_render h l).1]
  cases h <;> exact List.cons_ne_nil _ _

lemma names_render {l : List Str} (hl : Names l) : names (render root l) = l := by
  rw [names, tail_render h, pieces_join hl.parts, Path.strip_names hl.posix]

end render

/-! ### `resolve` -/

variable {lower : Str → Str} {cwd : Str} {env : Str → Option Str}

/-- A full path ends the loop. -/
lemma gather_full {path : Str} (h : Full path) (paths : List Str) (t : Str) (unc : Bool) :
    gather lower cwd env (path :: paths) ⟨[], t, false, unc⟩ =
      ⟨device path, tail path ++ backslash :: t, true, isUnc path⟩ := by
  have hne : path ≠ [] := by
    rintro rfl
    exact h.device rfl
  rw [gather, if_neg hne]
  simp [visit, h.absolute, h.device]

lemma finish_full {path : Str} (h : device path ≠ []) (t : Str) :
    finish ⟨device path, t, true, isUnc path⟩ =
      render (root path) (strip (pieces t)).1 := by
  have hne : (root path).text ≠ [] := by cases root path <;> exact List.cons_ne_nil _ _
  simp only [finish, (text_root h).1, normalizeArray, Bool.not_true, Bool.false_eq_true, if_false,
    if_true]
  rw [if_neg (by simp [hne]), render, List.append_assoc, List.singleton_append]

/-- A full path in the last place is all that counts. -/
lemma resolve_full {path : Str} (h : Full path) (paths : List Str) :
    resolve lower cwd env (paths ++ [path]) = render (root path) (names path) := by
  rw [resolve, List.reverse_append, List.reverse_singleton, List.singleton_append, gather_full h,
    finish_full h.device, pieces_backslash, pieces_nil, List.append_nil]
  rfl

end NodeCore.PathWin32
