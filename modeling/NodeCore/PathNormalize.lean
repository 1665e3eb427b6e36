import NodeCore.PathRelative

/-!
`path.normalize`, outside Windows.

`normalizeArray` goes through the parts from the last to the first, with a counter of the steps up
that are still to be made. A stack that takes the parts from the first to the last holds the same
names, and the steps up that have met no name.
-/

namespace NodeCore.Path

open NodeCore.Encoding

def trailingSlash (path : Str) : Bool := path.getLast? = some slash

def normalize (path : Str) : Str :=
  let isAbsolute := absolute path
  let trailing := trailingSlash path
  let path := join (normalizeArray (pieces path) (!isAbsolute))
  let path := if path = [] ∧ isAbsolute = false then js "." else path
  let path := if path ≠ [] ∧ trailing = true then path ++ [slash] else path
  (if isAbsolute then [slash] else []) ++ path

/-! ### The stack -/

/-- One more part. The head of the list is the top of the stack. -/
def push (allowAboveRoot : Bool) (stack : List Str) (part : Str) : List Str :=
  if part = [] ∨ part = js "." then stack
  else if part = js ".." then
    match stack with
    | top :: below => if top = js ".." then part :: stack else below
    | [] => if allowAboveRoot then [part] else []
  else part :: stack

/-- What the stack holds behind the last part, from the bottom on. -/
def evaluate (allowAboveRoot : Bool) (parts : List Str) : List Str :=
  (parts.foldl (push allowAboveRoot) []).reverse

/-- What `normalizeArray` has found in some parts, as a stack. -/
def stackOf (allowAboveRoot : Bool) (found : List Str × ℕ) : List Str :=
  found.1.reverse ++ if allowAboveRoot then List.replicate found.2 (js "..") else []

section Push

variable (allow : Bool)

lemma push_skip (stack : List Str) {part : Str} (h : part = [] ∨ part = js ".") :
    push allow stack part = stack := if_pos h

lemma push_name (stack : List Str) {part : Str} (hne : part ≠ []) (hdot : part ≠ js ".")
    (hdots : part ≠ js "..") : push allow stack part = part :: stack := by
  unfold push
  rw [if_neg (not_or.mpr ⟨hne, hdot⟩), if_neg hdots]

/-- A step up, where no name is left. -/
lemma push_dots_up (up : ℕ) :
    push allow (stackOf allow ([], up)) (js "..") = stackOf allow ([], up + 1) := by
  have hskip : ¬ (js ".." = [] ∨ js ".." = js ".") := by decide
  unfold push
  rw [if_neg hskip, if_pos rfl]
  cases allow with
  | false => rfl
  | true =>
    cases up with
    | zero => rfl
    | succ up => rfl

/-- A step up takes the last name away. -/
lemma push_dots_name (names : List Str) {last : Str} (hlast : last ≠ js "..") (up : ℕ) :
    push allow (stackOf allow (names ++ [last], up)) (js "..") = stackOf allow (names, up) := by
  have hskip : ¬ (js ".." = [] ∨ js ".." = js ".") := by decide
  unfold push
  rw [if_neg hskip, if_pos rfl, stackOf, List.reverse_append, List.reverse_singleton,
    List.append_assoc, List.singleton_append]
  exact if_neg hlast

end Push

/-- **The stack agrees with the counter** after any number of parts. -/
lemma foldl_push (allow : Bool) (parts : List Str) :
    parts.foldl (push allow) [] = stackOf allow (strip (parts.filter (· ≠ []))) := by
  induction parts using List.reverseRecOn with
  | nil => cases allow <;> rfl
  | append_singleton parts part ih =>
    rw [List.foldl_append, List.foldl_cons, List.foldl_nil, ih, List.filter_append]
    rcases eq_or_ne part [] with rfl | hne
    · rw [push_skip allow _ (.inl rfl), List.filter_singleton]
      simp
    have hpart : [part].filter (· ≠ []) = [part] := by
      rw [List.filter_singleton]
      simp [hne]
    rw [hpart, strip_append, climb_eq]
    by_cases hdot : part = js "."
    · -- the part is left out
      have hstrip : strip [part] = ([], 0) := by simp [strip, hdot]
      rw [push_skip allow _ (.inr hdot), hstrip]
      simp
    by_cases hdots : part = js ".."
    · have hstrip : strip [js ".."] = ([], 1) := by decide
      have hmem : ∀ x ∈ (strip (parts.filter (· ≠ []))).1, x ≠ js ".." :=
        fun x hx => (mem_strip hx).2.2
      rw [hdots, hstrip]
      generalize strip (parts.filter (· ≠ [])) = found at hmem ⊢
      obtain ⟨names, up⟩ := found
      rcases List.eq_nil_or_concat names with rfl | ⟨init, last, rfl⟩
      · rw [push_dots_up]
        rfl
      · rw [List.concat_eq_append] at hmem ⊢
        rw [push_dots_name allow init (hmem last (by simp))]
        simp
    · have hstrip : strip [part] = ([part], 0) := by simp [strip, hdot, hdots]
      rw [push_name allow _ hne hdot hdots, hstrip]
      simp [stackOf]

theorem normalizeArray_eq_evaluate (allow : Bool) (path : Str) :
    normalizeArray (pieces path) allow = evaluate allow (split path) := by
  rw [evaluate, foldl_push, stackOf, List.reverse_append, List.reverse_reverse]
  cases allow with
  | false => rfl
  | true =>
    rw [if_pos rfl, List.reverse_replicate]
    rfl

/-! ### Parts that are in order -/

/-- Names, with steps up in front of them where they are allowed. -/
def Clean (allow : Bool) (parts : List Str) : Prop :=
  ∃ k names, parts = List.replicate k (js "..") ++ names ∧ Names names ∧ (allow = false → k = 0)

lemma clean_evaluate (allow : Bool) (path : Str) : Clean allow (evaluate allow (split path)) := by
  rw [← normalizeArray_eq_evaluate]
  cases allow with
  | false => exact ⟨0, _, rfl, names_strip path, fun _ => rfl⟩
  | true => exact ⟨_, _, rfl, names_strip path, fun h => nomatch h⟩

lemma Clean.parts {allow : Bool} {parts : List Str} (h : Clean allow parts) : Parts parts := by
  obtain ⟨k, names, rfl, hnames, -⟩ := h
  intro x hx
  rcases List.mem_append.mp hx with hx | hx
  · rw [List.eq_of_mem_replicate hx]
    exact ⟨by decide, by decide⟩
  · exact hnames.parts x hx

/-- They stay as they are. -/
lemma Clean.normalizeArray {allow : Bool} {parts : List Str} (h : Clean allow parts) :
    normalizeArray parts allow = parts := by
  obtain ⟨k, names, rfl, hnames, hk⟩ := h
  rw [Path.normalizeArray, strip_ups k hnames]
  cases allow with
  | false => rw [hk rfl]; rfl
  | true => rfl

/-! ### Normal paths -/

/-- The parts that are written: `.` stands for none. -/
def written (isAbsolute : Bool) (parts : List Str) : List Str :=
  if parts = [] ∧ isAbsolute = false then [js "."] else parts

/-- A path with these parts, and a slash behind them. -/
def layout (isAbsolute trailing : Bool) (parts : List Str) : Str :=
  (if isAbsolute then [slash] else []) ++ join (written isAbsolute parts) ++
    if written isAbsolute parts ≠ [] ∧ trailing = true then [slash] else []

lemma join_eq_nil {parts : List Str} (h : Parts parts) : join parts = [] ↔ parts = [] := by
  constructor
  · intro hjoin
    rw [← pieces_join_parts h, hjoin, pieces_nil]
  · rintro rfl
    rfl

lemma parts_written {allow isAbsolute : Bool} {parts : List Str} (h : Clean allow parts) :
    Parts (written isAbsolute parts) := by
  rw [written]
  split_ifs
  · intro x hx
    rw [List.mem_singleton.mp hx]
    exact ⟨by decide, by decide⟩
  · exact h.parts

lemma normalize_eq (path : Str) : normalize path =
    layout (absolute path) (trailingSlash path) (evaluate (!absolute path) (split path)) := by
  have hclean := clean_evaluate (!absolute path) path
  unfold normalize
  dsimp only
  rw [normalizeArray_eq_evaluate]
  generalize evaluate (!absolute path) (split path) = parts at hclean
  have hjoin : (if join parts = [] ∧ absolute path = false then js "." else join parts) =
      join (written (absolute path) parts) := by
    simp only [written, join_eq_nil hclean.parts]
    split_ifs <;> rfl
  have hw : Parts (written (absolute path) parts) := parts_written hclean
  simp only [hjoin, layout, List.append_assoc, ne_eq, join_eq_nil hw]
  congr 1
  split_ifs
  · rfl
  · rw [List.append_nil]

section Layout

variable {allow : Bool} (isAbsolute trailing : Bool) {parts : List Str}

lemma pieces_layout (h : Clean allow parts) :
    pieces (layout isAbsolute trailing parts) = written isAbsolute parts := by
  have hw : Parts (written isAbsolute parts) := parts_written h
  have hroot (s : Str) : pieces ((if isAbsolute then [slash] else []) ++ s) = pieces s := by
    cases isAbsolute with
    | false => rfl
    | true => exact pieces_slash s
  rw [layout, List.append_assoc, hroot]
  split_ifs
  · rw [pieces_append, pieces_join_parts hw, pieces_nil, List.append_nil]
  · rw [List.append_nil, pieces_join_parts hw]

lemma absolute_layout (h : Clean allow parts) :
    absolute (layout isAbsolute trailing parts) = isAbsolute := by
  cases isAbsolute with
  | true => rfl
  | false =>
    have hw : Parts (written false parts) := parts_written h
    have hne : written false parts ≠ [] := by
      rw [written]
      split_ifs with hnil
      · exact List.cons_ne_nil _ _
      · exact fun h0 => hnil ⟨h0, rfl⟩
    have hhead : (join (written false parts)).head? ≠ some slash := by
      simpa [absolute] using relative_join hw
    obtain ⟨c, s, hs⟩ := List.exists_cons_of_ne_nil (mt (join_eq_nil hw).mp hne)
    rw [hs] at hhead
    rw [layout, hs]
    simpa [absolute] using hhead

/-- The last part of a path does not end in a slash. -/
lemma trailingSlash_join (h : Parts parts) : trailingSlash (join parts) = false := by
  rcases List.eq_nil_or_concat parts with rfl | ⟨init, last, rfl⟩
  · rfl
  rw [List.concat_eq_append] at h ⊢
  obtain ⟨hne, hslash⟩ := h last (by simp)
  obtain ⟨front, hfront⟩ : ∃ front, join (init ++ [last]) = front ++ last := by
    clear h
    induction init with
    | nil => exact ⟨[], rfl⟩
    | cons x init ih =>
      obtain ⟨front, hfront⟩ := ih
      refine ⟨x ++ slash :: front, ?_⟩
      rw [List.cons_append, join, hfront, List.append_assoc, List.cons_append]
      exact fun h0 => List.append_ne_nil_of_right_ne_nil _ (List.cons_ne_nil _ _) h0
  rw [hfront, trailingSlash, List.getLast?_append_of_ne_nil _ hne, decide_eq_false_iff_not]
  exact fun hlast => hslash (List.mem_of_getLast? hlast)

lemma trailingSlash_layout (h : Clean allow parts) :
    trailingSlash (layout isAbsolute trailing parts) =
      if written isAbsolute parts = [] then isAbsolute else trailing := by
  have hw : Parts (written isAbsolute parts) := parts_written h
  split_ifs with hnil
  · rw [layout, hnil]
    cases isAbsolute <;> rfl
  · have hjoin : join (written isAbsolute parts) ≠ [] := mt (join_eq_nil hw).mp hnil
    have hlast := trailingSlash_join hw
    rw [trailingSlash] at hlast
    cases trailing with
    | true => simp [layout, hnil, trailingSlash]
    | false =>
      have hnone : ¬ (written isAbsolute parts ≠ [] ∧ false = true) := fun h0 => nomatch h0.2
      rw [layout, if_neg hnone, List.append_nil, trailingSlash,
        List.getLast?_append_of_ne_nil _ hjoin]
      exact hlast

/-- Where no part is written, it does not matter whether a slash is to follow. -/
lemma layout_again : layout isAbsolute (if written isAbsolute parts = [] then isAbsolute
    else trailing) parts = layout isAbsolute trailing parts := by
  unfold layout
  by_cases hnil : written isAbsolute parts = []
  · simp only [hnil, ne_eq, not_true_eq_false, false_and]
  · simp only [hnil, if_false]

end Layout

/-- The parts of a normal path are evaluated to what was written. -/
lemma evaluate_written {isAbsolute : Bool} {path : Str} {parts : List Str}
    (h : Clean (!isAbsolute) parts) (hpath : pieces path = written isAbsolute parts) :
    evaluate (!isAbsolute) (split path) = parts := by
  rw [← normalizeArray_eq_evaluate, hpath, written]
  split_ifs with hnil
  · obtain ⟨rfl, rfl⟩ := hnil
    rfl
  · exact h.normalizeArray

/-- **`normalize` evaluates the parts on a stack.** Steps up stay in front of relative paths only,
`.` stands for no parts at all, the path stays absolute or relative, and a slash at its end stays;
a normal path stays as it is. -/
theorem normalize_stack (path : Str) :
    normalize (normalize path) = normalize path ∧
      pieces (normalize path) =
        written (absolute path) (evaluate (!absolute path) (split path)) ∧
      Clean (!absolute path) (evaluate (!absolute path) (split path)) ∧
      absolute (normalize path) = absolute path ∧
      (trailingSlash (normalize path) = true ↔ trailingSlash path = true ∨
        absolute path = true ∧ evaluate (!absolute path) (split path) = []) := by
  have hclean := clean_evaluate (!absolute path) path
  have hpieces := pieces_layout (absolute path) (trailingSlash path) hclean
  have habs := absolute_layout (absolute path) (trailingSlash path) hclean
  have hslash := trailingSlash_layout (absolute path) (trailingSlash path) hclean
  rw [← normalize_eq path] at hpieces habs hslash
  have hwritten : written (absolute path) (evaluate (!absolute path) (split path)) = [] ↔
      absolute path = true ∧ evaluate (!absolute path) (split path) = [] := by
    rw [written]
    split_ifs with hnil
    · simp [hnil.2]
    · constructor
      · exact fun h0 => ⟨by simpa [h0] using hnil, h0⟩
      · exact And.right
  -- a path that only consists of slashes ends in one
  have hroot : trailingSlash (normalize path) = true ↔ trailingSlash path = true ∨
      absolute path = true ∧ evaluate (!absolute path) (split path) = [] := by
    rw [hslash]
    split_ifs with hnil
    · exact ⟨fun _ => .inr (hwritten.mp hnil), fun _ => (hwritten.mp hnil).1⟩
    · exact ⟨.inl, fun h => h.resolve_right (mt hwritten.mpr hnil)⟩
  refine ⟨?_, hpieces, hclean, habs, hroot⟩
  rw [normalize_eq (normalize path), habs, hslash, evaluate_written hclean hpieces, layout_again,
    ← normalize_eq path]

end NodeCore.Path
