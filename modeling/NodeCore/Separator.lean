import Mathlib.Tactic

/-!
Lists written with a separator between them, and read back.

The separator is itself a list. Any parts in which it starts nowhere are read back.
`splitMatches` splits at whatever a pattern matches.
-/

namespace NodeCore.Separator

variable {α : Type} [DecidableEq α]

/-- Where `sep` first stands. -/
def indexOf (sep : List α) : List α → Option ℕ
  | [] => if sep = [] then some 0 else none
  | c :: s => if sep.isPrefixOf (c :: s) then some 0 else (indexOf sep s).map (· + 1)

/-- The parts between one `sep` and the next. The first `skip` elements belong to the last `sep`
that was found. -/
def splitFrom (sep : List α) : ℕ → List α → List (List α)
  | _, [] => [[]]
  | skip + 1, _ :: s => splitFrom sep skip s
  | 0, c :: s =>
    if sep.isPrefixOf (c :: s) then [] :: splitFrom sep (sep.length - 1) s
    else (splitFrom sep 0 s).modifyHead (c :: ·)

def split (sep s : List α) : List (List α) := splitFrom sep 0 s

/-- The parts between what a pattern matches: `len` is the length of the match in front, 0 for none.
The first `skip` elements belong to the last match. -/
def splitMatches (len : List α → ℕ) : ℕ → List α → List (List α)
  | _, [] => [[]]
  | skip + 1, _ :: s => splitMatches len skip s
  | 0, c :: s =>
    if len (c :: s) = 0 then (splitMatches len 0 s).modifyHead (c :: ·)
    else [] :: splitMatches len (len (c :: s) - 1) s

omit [DecidableEq α] in
lemma splitMatches_ne_nil (len : List α → ℕ) (skip : ℕ) (s : List α) :
    splitMatches len skip s ≠ [] := by
  induction s generalizing skip with
  | nil => cases skip <;> exact List.cons_ne_nil _ _
  | cons c s ih =>
    cases skip with
    | succ skip => exact ih skip
    | zero =>
      rw [splitMatches]
      split_ifs
      · cases hs : splitMatches len 0 s with
        | nil => exact absurd hs (ih 0)
        | cons y ys => exact List.cons_ne_nil _ _
      · exact List.cons_ne_nil _ _

/-- `sep` starts at no element, whatever follows. -/
def Clear (sep : List α) : List α → Prop
  | [] => True
  | c :: s => (∀ rest, ¬ sep <+: c :: s ++ rest) ∧ Clear sep s

omit [DecidableEq α] in
lemma Clear.append {sep s t : List α} (hs : Clear sep s) (ht : Clear sep t) :
    Clear sep (s ++ t) := by
  induction s with
  | nil => exact ht
  | cons c s ih =>
    refine ⟨fun rest hsep => hs.1 (t ++ rest) ?_, ih hs.2⟩
    rwa [← List.append_assoc]

omit [DecidableEq α] in
lemma clear_of_not_mem {x : α} {s : List α} (h : x ∉ s) (sep : List α) : Clear (x :: sep) s := by
  induction s with
  | nil => trivial
  | cons c s ih =>
    obtain ⟨hc, hs⟩ := not_or.mp (mt List.mem_cons.mpr h)
    exact ⟨fun rest hsep => hc (List.cons_prefix_cons.mp hsep).1, ih hs⟩

lemma Clear.isPrefixOf {c : α} {sep s : List α} (h : Clear sep (c :: s)) (rest : List α) :
    ¬ sep.isPrefixOf (c :: (s ++ rest)) = true :=
  fun hsep => h.1 rest (List.isPrefixOf_iff_prefix.mp hsep)

/-- What is clear belongs to the part in front. -/
lemma Clear.splitFrom_append {sep part : List α} (h : Clear sep part) (s : List α) :
    splitFrom sep 0 (part ++ s) = (splitFrom sep 0 s).modifyHead (part ++ ·) := by
  induction part with
  | nil => exact (congrFun List.modifyHead_id _).symm
  | cons c part ih =>
    rw [List.cons_append, splitFrom, if_neg (h.isPrefixOf s), ih h.2, List.modifyHead_modifyHead]
    rfl

lemma splitFrom_length (sep front s : List α) :
    splitFrom sep front.length (front ++ s) = splitFrom sep 0 s := by
  induction front with
  | nil => rfl
  | cons c front ih => exact ih

lemma splitFrom_sep {sep : List α} (h : sep ≠ []) (s : List α) :
    splitFrom sep 0 (sep ++ s) = [] :: splitFrom sep 0 s := by
  cases sep with
  | nil => exact absurd rfl h
  | cons x sep =>
    have hfront : (x :: sep).isPrefixOf (x :: (sep ++ s)) = true :=
      List.isPrefixOf_iff_prefix.mpr (List.prefix_append (x :: sep) s)
    rw [List.cons_append, splitFrom, if_pos hfront, List.length_cons, Nat.add_sub_cancel,
      splitFrom_length]

/-- Parts in which the separator does not start are read back. -/
theorem split_intercalate {sep : List α} {parts : List (List α)} (hsep : sep ≠ [])
    (h : ∀ part ∈ parts, Clear sep part) (hne : parts ≠ []) :
    split sep (List.intercalate sep parts) = parts := by
  induction parts with
  | nil => exact absurd rfl hne
  | cons part parts ih =>
    have hpart := h part List.mem_cons_self
    cases parts with
    | nil =>
      have hsplit := hpart.splitFrom_append []
      rw [List.append_nil] at hsplit
      rw [List.intercalate_singleton, split, hsplit, splitFrom, List.modifyHead_cons,
        List.append_nil]
    | cons next parts =>
      have hne := List.cons_ne_nil next parts
      have hrest := ih (fun part hp => h part (List.mem_cons_of_mem _ hp)) hne
      rw [List.intercalate_cons_of_ne_nil hne, List.append_assoc, split, hpart.splitFrom_append,
        splitFrom_sep hsep, List.modifyHead_cons, List.append_nil, ← split, hrest]

lemma Clear.indexOf_append {sep front : List α} (h : Clear sep front) (s : List α) :
    indexOf sep (front ++ s) = (indexOf sep s).map (front.length + ·) := by
  induction front with
  | nil => simp
  | cons c front ih =>
    rw [List.cons_append, indexOf, if_neg (h.isPrefixOf s), ih h.2, Option.map_map,
      List.length_cons]
    congr 1
    funext i
    simp only [Function.comp_apply]
    omega

lemma indexOf_self (sep s : List α) : indexOf sep (sep ++ s) = some 0 := by
  cases hs : sep ++ s with
  | nil => rw [indexOf, if_pos (List.append_eq_nil_iff.mp hs).1]
  | cons c t =>
    have hfront : sep.isPrefixOf (c :: t) = true :=
      List.isPrefixOf_iff_prefix.mpr (hs ▸ List.prefix_append sep s)
    rw [indexOf, if_pos hfront]

/-- The separator is all there where it is found. -/
lemma indexOf_le {sep s : List α} {i : ℕ} (h : indexOf sep s = some i) :
    i + sep.length ≤ s.length := by
  induction s generalizing i with
  | nil =>
    rw [indexOf] at h
    split_ifs at h with hnil
    rw [← Option.some.inj h, hnil]
    exact le_rfl
  | cons c s ih =>
    rw [indexOf] at h
    split_ifs at h with hfront
    · rw [← Option.some.inj h, Nat.zero_add]
      exact (List.isPrefixOf_iff_prefix.mp hfront).length_le
    · obtain ⟨j, hj, rfl⟩ := Option.map_eq_some_iff.mp h
      have hle := ih hj
      rw [List.length_cons]
      omega

/-- It is found there whatever follows. -/
lemma indexOf_of_prefix {sep s : List α} {i : ℕ} (h : indexOf sep s = some i) (t : List α) :
    indexOf sep (s ++ t) = some i := by
  induction s generalizing i with
  | nil =>
    rw [indexOf] at h
    split_ifs at h with hnil
    rw [hnil, ← Option.some.inj h]
    cases t <;> rfl
  | cons c s ih =>
    have hle := indexOf_le h
    rw [indexOf] at h
    rw [List.cons_append, indexOf]
    split_ifs at h with hfront
    · rw [if_pos, h]
      exact List.isPrefixOf_iff_prefix.mpr
        ((List.isPrefixOf_iff_prefix.mp hfront).trans (List.prefix_append _ _))
    · obtain ⟨j, hj, rfl⟩ := Option.map_eq_some_iff.mp h
      have hnot : ¬ sep.isPrefixOf (c :: (s ++ t)) = true := by
        intro hfront'
        refine hfront (List.isPrefixOf_iff_prefix.mpr ?_)
        refine List.prefix_of_prefix_length_le (List.isPrefixOf_iff_prefix.mp hfront')
          (List.prefix_append (c :: s) t) ?_
        omega
      rw [if_neg hnot, ih hj]
      rfl

/-- Nothing starts where the separator does not start. -/
lemma indexOf_skip {x : α} {front : List α} (h : x ∉ front) (sep s : List α) :
    indexOf (x :: sep) (front ++ s) = (indexOf (x :: sep) s).map (front.length + ·) :=
  (clear_of_not_mem h sep).indexOf_append s

omit [DecidableEq α] in
lemma intercalate_append (sep : List α) {xs ys : List (List α)} (hx : xs ≠ []) (hy : ys ≠ []) :
    List.intercalate sep (xs ++ ys) =
      List.intercalate sep xs ++ (sep ++ List.intercalate sep ys) := by
  induction xs with
  | nil => exact absurd rfl hx
  | cons x xs ih =>
    cases xs with
    | nil => simp [List.intercalate_cons_of_ne_nil hy]
    | cons y xs =>
      have hne : y :: xs ≠ [] := List.cons_ne_nil _ _
      rw [List.cons_append,
        List.intercalate_cons_of_ne_nil (List.append_ne_nil_of_left_ne_nil hne ys),
        List.intercalate_cons_of_ne_nil hne, ih hne]
      simp only [List.append_assoc]

omit [DecidableEq α] in
lemma intercalate_ne_nil (sep : List α) {part : List α} (h : part ≠ []) (parts : List (List α)) :
    List.intercalate sep (part :: parts) ≠ [] := by
  cases parts with
  | nil => rwa [List.intercalate_singleton]
  | cons next parts =>
    rw [List.intercalate_cons_of_ne_nil (List.cons_ne_nil _ _), List.append_assoc]
    exact List.append_ne_nil_of_left_ne_nil h _

omit [DecidableEq α] in
/-- Parts of parts are written as all of them at once, if there are no parts without parts. -/
theorem intercalate_flatten (sep : List α) {groups : List (List (List α))}
    (h : ∀ group ∈ groups, group ≠ []) :
    List.intercalate sep (groups.map (List.intercalate sep)) =
      List.intercalate sep groups.flatten := by
  induction groups with
  | nil => rfl
  | cons group groups ih =>
    have hgroup := h group List.mem_cons_self
    have hgroups : ∀ g ∈ groups, g ≠ [] := fun g hg => h g (List.mem_cons_of_mem _ hg)
    cases groups with
    | nil => simp
    | cons next groups =>
      have hflat : (next :: groups).flatten ≠ [] := by
        rw [List.flatten_cons]
        exact List.append_ne_nil_of_left_ne_nil (hgroups next List.mem_cons_self) _
      have hmap : (next :: groups).map (List.intercalate sep) ≠ [] := List.cons_ne_nil _ _
      rw [List.map_cons, List.intercalate_cons_of_ne_nil hmap, ih hgroups,
        List.flatten_cons (l := group), intercalate_append sep hgroup hflat, List.append_assoc]

end NodeCore.Separator
