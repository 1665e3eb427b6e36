import Mathlib.Data.List.DropRight
import NodeCore.Encoding

/-!
`path.resolve`, outside Windows. A path that has been resolved is a list of names.
-/

namespace NodeCore.Path

open NodeCore.Encoding

/-- `'/'`. -/
def slash : UInt16 := 47

/-- `split('/')`. -/
def split : Str → List Str
  | [] => [[]]
  | c :: s =>
    if c = slash then [] :: split s
    else match split s with
      | x :: xs => (c :: x) :: xs
      | [] => [[c]]

/-- `join('/')`. -/
def join : List Str → Str
  | [] => []
  | [x] => x
  | x :: xs => x ++ slash :: join xs

/-- The loop of `normalizeArray`, which goes through the parts from the last to the first: what it
leaves of them, and `up`. -/
def strip : List Str → List Str × ℕ
  | [] => ([], 0)
  | last :: parts =>
    let (parts, up) := strip parts
    if last = js "." then (parts, up)
    else if last = js ".." then (parts, up + 1)
    else if 0 < up then (parts, up - 1)
    else (last :: parts, up)

def normalizeArray (parts : List Str) (allowAboveRoot : Bool) : List Str :=
  let (parts, up) := strip parts
  if allowAboveRoot then List.replicate up (js "..") ++ parts else parts

def absolute (path : Str) : Bool := path.head? = some slash

/-- The loop of `resolve` over its arguments from the last on: `resolvedPath` and
`resolvedAbsolute`. -/
def gather : List Str → Str → Str × Bool
  | [], resolvedPath => (resolvedPath, false)
  | path :: paths, resolvedPath =>
    if path = [] then gather paths resolvedPath
    else if absolute path then (path ++ slash :: resolvedPath, true)
    else gather paths (path ++ slash :: resolvedPath)

/-- The parts of a path that are not empty. -/
def pieces (path : Str) : List Str := (split path).filter (· ≠ [])

def resolve (cwd : Str) (paths : List Str) : Str :=
  let (resolvedPath, resolvedAbsolute) := gather (paths.reverse ++ [cwd]) []
  let resolvedPath := join (normalizeArray (pieces resolvedPath) (!resolvedAbsolute))
  let path := (if resolvedAbsolute then [slash] else []) ++ resolvedPath
  if path = [] then js "." else path

/-! ### Names -/

/-- An absolute path with these names. -/
def render (names : List Str) : Str := slash :: join names

structure Name (x : Str) : Prop where
  ne_nil : x ≠ []
  slash : slash ∉ x
  dot : x ≠ js "."
  dots : x ≠ js ".."

/-- All of them are names. -/
def Names (l : List Str) : Prop := ∀ x ∈ l, Name x

lemma split_ne_nil (s : Str) : split s ≠ [] := by
  cases s with
  | nil => exact List.cons_ne_nil _ _
  | cons c s =>
    rw [split]
    split_ifs
    · exact List.cons_ne_nil _ _
    · split <;> exact List.cons_ne_nil _ _

lemma split_append (a b : Str) : split (a ++ slash :: b) = split a ++ split b := by
  induction a with
  | nil => simp [split]
  | cons c a ih =>
    rw [List.cons_append, split, split, ih]
    split_ifs
    · rfl
    · cases hs : split a with
      | nil => exact absurd hs (split_ne_nil a)
      | cons x xs => rfl

lemma split_of_notMem {s : Str} (h : slash ∉ s) : split s = [s] := by
  induction s with
  | nil => rfl
  | cons c s ih =>
    rw [List.mem_cons, not_or] at h
    rw [split, if_neg (Ne.symm h.1), ih h.2]

lemma notMem_of_mem_split {s x : Str} (h : x ∈ split s) : slash ∉ x := by
  induction s generalizing x with
  | nil =>
    rw [List.mem_singleton.mp h]
    exact List.not_mem_nil
  | cons c s ih =>
    rw [split] at h
    split_ifs at h with hc
    · rcases List.mem_cons.mp h with rfl | h
      · exact List.not_mem_nil
      · exact ih h
    · cases hs : split s with
      | nil => exact absurd hs (split_ne_nil s)
      | cons y ys =>
        rw [hs] at h
        rcases List.mem_cons.mp h with rfl | h
        · rw [List.mem_cons, not_or]
          exact ⟨Ne.symm hc, ih (hs ▸ List.mem_cons_self)⟩
        · exact ih (hs ▸ List.mem_cons_of_mem _ h)

lemma split_join {l : List Str} (hne : l ≠ []) (h : ∀ x ∈ l, slash ∉ x) : split (join l) = l := by
  induction l with
  | nil => exact absurd rfl hne
  | cons x l ih =>
    have hx := split_of_notMem (h x List.mem_cons_self)
    cases l with
    | nil => exact hx
    | cons y l =>
      have hl := ih (List.cons_ne_nil _ _) fun z hz => h z (List.mem_cons_of_mem _ hz)
      rw [join, split_append, hx, hl]
      · rfl
      · exact fun h => List.cons_ne_nil _ _ h

lemma pieces_append (a b : Str) : pieces (a ++ slash :: b) = pieces a ++ pieces b := by
  rw [pieces, split_append, List.filter_append]
  rfl

@[simp] lemma pieces_nil : pieces [] = [] := rfl

lemma pieces_slash (s : Str) : pieces (slash :: s) = pieces s := by
  rw [← List.nil_append (slash :: s), pieces_append]
  rfl

lemma pieces_name {x : Str} (h : Name x) : pieces x = [x] := by
  rw [pieces, split_of_notMem h.slash, List.filter_singleton]
  simp [h.ne_nil]

lemma pieces_join {l : List Str} (h : Names l) : pieces (join l) = l := by
  induction l with
  | nil => rfl
  | cons x l ih =>
    have hx := pieces_name (h x List.mem_cons_self)
    cases l with
    | nil => exact hx
    | cons y l =>
      have hl := ih fun z hz => h z (List.mem_cons_of_mem _ hz)
      rw [join, pieces_append, hx, hl]
      · rfl
      · exact fun h => List.cons_ne_nil _ _ h

lemma pieces_render {l : List Str} (h : Names l) : pieces (render l) = l := by
  rw [render, pieces_slash, pieces_join h]

lemma render_inj {l l' : List Str} (h : Names l) (h' : Names l') (heq : render l = render l') :
    l = l' := by
  rw [← pieces_render h, heq, pieces_render h']

/-! ### `resolve` -/

lemma strip_names {l : List Str} (h : Names l) : strip l = (l, 0) := by
  induction l with
  | nil => rfl
  | cons x l ih =>
    have hx := h x List.mem_cons_self
    rw [strip, ih fun z hz => h z (List.mem_cons_of_mem _ hz)]
    simp [hx.dot, hx.dots]

lemma mem_strip {l : List Str} {x : Str} (h : x ∈ (strip l).1) :
    x ∈ l ∧ x ≠ js "." ∧ x ≠ js ".." := by
  induction l with
  | nil => exact absurd h List.not_mem_nil
  | cons y l ih =>
    rw [strip] at h
    dsimp only at h
    split_ifs at h with hdot hdots hup
    · exact ⟨List.mem_cons_of_mem _ (ih h).1, (ih h).2⟩
    · exact ⟨List.mem_cons_of_mem _ (ih h).1, (ih h).2⟩
    · exact ⟨List.mem_cons_of_mem _ (ih h).1, (ih h).2⟩
    · rcases List.mem_cons.mp h with rfl | h
      · exact ⟨List.mem_cons_self, hdot, hdots⟩
      · exact ⟨List.mem_cons_of_mem _ (ih h).1, (ih h).2⟩

lemma names_strip (s : Str) : Names (strip (pieces s)).1 := by
  intro x hx
  obtain ⟨hmem, hdot, hdots⟩ := mem_strip hx
  obtain ⟨hsplit, hne⟩ := List.mem_filter.mp hmem
  exact ⟨by simpa using hne, notMem_of_mem_split hsplit, hdot, hdots⟩

lemma absolute_gather (paths : List Str) {cwd : Str} (h : absolute cwd = true) (s : Str) :
    (gather (paths ++ [cwd]) s).2 = true := by
  have hne : cwd ≠ [] := by
    rintro rfl
    exact absurd h (by decide)
  induction paths generalizing s with
  | nil => rw [List.nil_append, gather, if_neg hne, if_pos h]
  | cons path paths ih =>
    rw [List.cons_append, gather]
    split_ifs
    · exact ih s
    · rfl
    · exact ih _

/-- The names of a resolved path. -/
def resolved (cwd : Str) (paths : List Str) : List Str :=
  (strip (pieces (gather (paths.reverse ++ [cwd]) []).1)).1

lemma names_resolved (cwd : Str) (paths : List Str) : Names (resolved cwd paths) := names_strip _

lemma resolve_eq {cwd : Str} (h : absolute cwd = true) (paths : List Str) :
    resolve cwd paths = render (resolved cwd paths) := by
  have habs := absolute_gather paths.reverse h []
  simp only [resolve, habs, normalizeArray, Bool.not_true, Bool.false_eq_true, if_false, if_true,
    List.singleton_append, List.cons_ne_nil]
  rfl

/-- A relative path behind one that is resolved. -/
lemma resolve_behind {cwd : Str} {l t : List Str} (hl : Names l) (ht : Names t) :
    resolve cwd [render l, join t] = render (l ++ t) := by
  have hnames : Names (l ++ t) := fun x hx => (List.mem_append.mp hx).elim (hl x) (ht x)
  have hgather : ∃ s, gather [join t, render l, cwd] [] = (s, true) ∧ pieces s = l ++ t := by
    have hrender : absolute (render l) = true := by simp [absolute, render]
    have hne : render l ≠ [] := List.cons_ne_nil _ _
    by_cases hjoin : join t = []
    · refine ⟨_, by rw [gather, if_pos hjoin, gather, if_neg hne, if_pos hrender], ?_⟩
      have htnil : t = [] := by rw [← pieces_join ht, hjoin, pieces_nil]
      rw [pieces_append, pieces_render hl, pieces_nil, htnil]
    · have hrel : absolute (join t) = false := by
        cases t with
        | nil => exact absurd rfl hjoin
        | cons x t =>
          have hx := ht x List.mem_cons_self
          cases x with
          | nil => exact absurd rfl hx.ne_nil
          | cons c x =>
            have hc : c ≠ slash := fun h => hx.slash (h ▸ List.mem_cons_self)
            cases t <;> simp [join, absolute, hc]
      refine ⟨_, by rw [gather, if_neg hjoin, if_neg (by simp [hrel]), gather, if_neg hne,
        if_pos hrender], ?_⟩
      rw [pieces_append, pieces_render hl, pieces_append, pieces_join ht, pieces_nil,
        List.append_nil]
  obtain ⟨s, hs, hpieces⟩ := hgather
  simp only [resolve, List.reverse_cons, List.reverse_nil, List.nil_append, List.cons_append, hs,
    hpieces, normalizeArray, strip_names hnames, Bool.not_true, Bool.false_eq_true, if_false,
    if_true, List.cons_ne_nil]
  rfl

end NodeCore.Path
