import NodeCore.Path

/-!
`path.relative`, outside Windows: behind `from`, what it returns resolves to `to`.
-/

namespace NodeCore.Path

open NodeCore.Encoding

/-! ### `relative` -/

/-- The parts from the first that is not empty on. The number of those up to the last that is not is
taken for where they end. -/
def trim (arr : List Str) : List Str :=
  let start := (arr.takeWhile (· = [])).length
  let stop := arr.length - (arr.reverse.takeWhile (· = [])).length
  if stop ≤ start then [] else (arr.take (stop - start)).drop start

/-- How many parts are the same. -/
def samePartsLength : List Str → List Str → ℕ
  | x :: fromParts, y :: toParts => if x = y then samePartsLength fromParts toParts + 1 else 0
  | _, _ => 0

def outputParts (same : ℕ) (fromParts toParts : List Str) : List Str :=
  List.replicate (fromParts.length - same) (js "..") ++ toParts.drop same

def relative (cwd fromPath toPath : Str) : Str :=
  let fromParts := trim (split ((resolve cwd [fromPath]).drop 1))
  let toParts := trim (split ((resolve cwd [toPath]).drop 1))
  join (outputParts (samePartsLength fromParts toParts) fromParts toParts)

lemma trim_of_ne_nil {arr : List Str} (h : ∀ x ∈ arr, x ≠ []) : trim arr = arr := by
  have hnone {l : List Str} (hl : ∀ x ∈ l, x ≠ []) : l.takeWhile (· = []) = [] := by
    cases l with
    | nil => rfl
    | cons x l => rw [List.takeWhile_cons_of_neg (by simpa using hl x List.mem_cons_self)]
  unfold trim
  dsimp only
  rw [hnone h, hnone fun x hx => h x (List.mem_reverse.mp hx), List.length_nil, Nat.sub_zero,
    Nat.sub_zero, List.take_length, List.drop_zero]
  split_ifs with hle
  · exact (List.length_eq_zero_iff.mp (Nat.le_zero.mp hle)).symm
  · rfl

lemma samePartsLength_le (l l' : List Str) :
    samePartsLength l l' ≤ l.length ∧ samePartsLength l l' ≤ l'.length := by
  induction l generalizing l' with
  | nil => simp [samePartsLength]
  | cons x l ih =>
    cases l' with
    | nil => simp [samePartsLength]
    | cons y l' =>
      have hle := ih l'
      rw [samePartsLength, List.length_cons, List.length_cons]
      split_ifs <;> omega

lemma take_samePartsLength (l l' : List Str) :
    l.take (samePartsLength l l') = l'.take (samePartsLength l l') := by
  induction l generalizing l' with
  | nil => simp [samePartsLength]
  | cons x l ih =>
    cases l' with
    | nil => simp [samePartsLength]
    | cons y l' =>
      rw [samePartsLength]
      split_ifs with h
      · rw [List.take_succ_cons, List.take_succ_cons, ih l', h]
      · rfl

/-! ### `normalizeArray` of one list behind another -/

/-- The loop with `up` as the parts behind have left it. -/
def climb (up : ℕ) : List Str → List Str × ℕ
  | [] => ([], up)
  | last :: parts =>
    let (parts, up) := climb up parts
    if last = js "." then (parts, up)
    else if last = js ".." then (parts, up + 1)
    else if 0 < up then (parts, up - 1)
    else (last :: parts, up)

lemma strip_append (l l' : List Str) : strip (l ++ l') =
    ((climb (strip l').2 l).1 ++ (strip l').1, (climb (strip l').2 l).2) := by
  induction l with
  | nil => rfl
  | cons x l ih =>
    rw [List.cons_append, strip, climb, ih]
    dsimp only
    split_ifs <;> rfl

/-- Each step up takes the last name away that is left. -/
lemma climb_eq (up : ℕ) (l : List Str) : climb up l =
    ((strip l).1.take ((strip l).1.length - up), (strip l).2 + (up - (strip l).1.length)) := by
  induction l with
  | nil => simp [climb, strip]
  | cons x l ih =>
    rw [climb, strip, ih]
    rcases strip l with ⟨parts, left⟩
    dsimp only
    split_ifs with hdot hdots hup hleft hleft
    · rfl
    · rw [Nat.add_right_comm]
    · rw [Nat.sub_add_comm hleft]
    · -- the name is the last one that is left
      have hle : parts.length < up := by omega
      rw [List.length_cons, Nat.sub_eq_zero_of_le hle.le, Nat.sub_eq_zero_of_le hle, List.take_zero,
        List.take_zero]
      congr 1
      omega
    · omega
    · have hle : up ≤ parts.length := by omega
      rw [List.length_cons, Nat.sub_add_comm hle, List.take_succ_cons]
      congr 1
      omega

lemma strip_ups (k : ℕ) {l : List Str} (h : Names l) :
    strip (List.replicate k (js "..") ++ l) = (l, k) := by
  have hdots : js ".." ≠ js "." := by decide
  induction k with
  | zero => exact strip_names h
  | succ k ih =>
    rw [List.replicate_succ, List.cons_append, strip, ih]
    dsimp only
    rw [if_neg hdots, if_pos rfl]

/-- Steps up and then names, behind any parts. -/
lemma strip_relative (parts : List Str) (k : ℕ) {l : List Str} (h : Names l) :
    (strip (parts ++ (List.replicate k (js "..") ++ l))).1 =
      (strip parts).1.take ((strip parts).1.length - k) ++ l := by
  rw [strip_append, strip_ups k h, climb_eq]

/-! ### `resolve` behind a path -/

lemma pieces_gather (paths : List Str) (s : Str) :
    pieces (gather paths s).1 = pieces (gather paths []).1 ++ pieces s := by
  induction paths generalizing s with
  | nil => rfl
  | cons path paths ih =>
    rw [gather, gather]
    split_ifs
    · exact ih s
    · dsimp only
      rw [pieces_append, pieces_append, pieces_nil, List.append_nil]
    · rw [ih (path ++ slash :: s), ih (path ++ [slash]), pieces_append, pieces_append, pieces_nil,
        List.append_nil, List.append_assoc]

/-- Parts of a path, `..` among them. -/
def Parts (l : List Str) : Prop := ∀ x ∈ l, x ≠ [] ∧ slash ∉ x

lemma Names.parts {l : List Str} (h : Names l) : Parts l := fun x hx =>
  ⟨(h x hx).ne_nil, (h x hx).slash⟩

lemma pieces_join_parts {l : List Str} (h : Parts l) : pieces (join l) = l := by
  induction l with
  | nil => rfl
  | cons x l ih =>
    obtain ⟨hne, hslash⟩ := h x List.mem_cons_self
    have hx : pieces x = [x] := by
      rw [pieces, split_of_notMem hslash, List.filter_singleton]
      simp [hne]
    cases l with
    | nil => exact hx
    | cons y l =>
      have hl := ih fun z hz => h z (List.mem_cons_of_mem _ hz)
      rw [join, pieces_append, hx, hl]
      · rfl
      · exact fun h => List.cons_ne_nil _ _ h

lemma relative_join {l : List Str} (h : Parts l) : absolute (join l) = false := by
  cases l with
  | nil => rfl
  | cons x l =>
    obtain ⟨hne, hslash⟩ := h x List.mem_cons_self
    cases x with
    | nil => exact absurd rfl hne
    | cons c x =>
      have hc : c ≠ slash := fun heq => hslash (heq ▸ List.mem_cons_self)
      cases l <;> simp [join, absolute, hc]

/-- Parts behind other paths are just added to theirs. -/
lemma pieces_gather_join (paths : List Str) {l : List Str} (h : Parts l) :
    pieces (gather (join l :: paths) []).1 = pieces (gather paths []).1 ++ l := by
  rw [gather, relative_join h, if_neg Bool.false_ne_true]
  split_ifs with hnil
  · have hl : l = [] := by rw [← pieces_join_parts h, hnil, pieces_nil]
    rw [hl, List.append_nil]
  · rw [pieces_gather, pieces_append, pieces_join_parts h, pieces_nil, List.append_nil]

/-- A resolved path is taken apart into its names. -/
lemma trim_resolve {cwd : Str} (h : absolute cwd = true) (path : Str) :
    trim (split ((resolve cwd [path]).drop 1)) = resolved cwd [path] := by
  have hnames := names_resolved cwd [path]
  rw [resolve_eq h, render, List.drop_one, List.tail_cons]
  generalize resolved cwd [path] = l at hnames
  rcases eq_or_ne l [] with rfl | hne
  · rfl
  · rw [split_join hne fun x hx => (hnames x hx).slash]
    exact trim_of_ne_nil fun x hx => (hnames x hx).ne_nil

/-- What `relative` has left out is what steps up leave. -/
lemma take_append_drop_same (l l' : List Str) :
    l.take (l.length - (l.length - samePartsLength l l')) ++ l'.drop (samePartsLength l l') =
      l' := by
  rw [Nat.sub_sub_self (samePartsLength_le l l').1, take_samePartsLength,
    List.take_append_drop]

lemma parts_outputParts (same : ℕ) (fromParts : List Str) {toParts : List Str}
    (h : Names toParts) : Parts (outputParts same fromParts toParts) := by
  intro x hx
  rcases List.mem_append.mp hx with hx | hx
  · rw [List.eq_of_mem_replicate hx]
    exact ⟨by decide, by decide⟩
  · exact h.parts x (List.mem_of_mem_drop hx)

/-- **Back and forth.** Whatever the paths, `relative` leads from the one to the other. -/
theorem resolve_relative {cwd : Str} (h : absolute cwd = true) (fromPath toPath : Str) :
    resolve cwd [fromPath, relative cwd fromPath toPath] = resolve cwd [toPath] := by
  have ht := names_resolved cwd [toPath]
  have hresolved (rel : Str) : resolved cwd [fromPath, rel] =
      (strip (pieces (gather [rel, fromPath, cwd] []).1)).1 := by
    unfold resolved
    rw [show [fromPath, rel].reverse ++ [cwd] = [rel, fromPath, cwd] from rfl]
  have hfrom : resolved cwd [fromPath] = (strip (pieces (gather [fromPath, cwd] []).1)).1 := by
    unfold resolved
    rw [show [fromPath].reverse ++ [cwd] = [fromPath, cwd] from rfl]
  unfold relative
  rw [trim_resolve h, trim_resolve h, resolve_eq h, resolve_eq h, hresolved]
  generalize resolved cwd [toPath] = l' at ht
  refine congrArg render ?_
  have hdrop (same : ℕ) : Names (l'.drop same) := fun x hx => ht x (List.mem_of_mem_drop hx)
  rw [pieces_gather_join _ (parts_outputParts _ _ ht), outputParts, strip_relative _ _ (hdrop _),
    ← hfrom]
  exact take_append_drop_same _ _

/-- One step up, and down again. -/
theorem resolve_relative_sibling :
    relative (js "/work") (js "lib/./a") (js "/work/b") = js "../../b" ∧
      resolve (js "/work") [js "lib/./a", js "../../b"] = js "/work/b" := by
  have hrel : relative (js "/work") (js "lib/./a") (js "/work/b") = js "../../b" := by decide
  have hcwd : absolute (js "/work") = true := by decide
  refine ⟨hrel, ?_⟩
  rw [← hrel, resolve_relative hcwd]
  decide

end NodeCore.Path
