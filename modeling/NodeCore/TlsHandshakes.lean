import Mathlib.Data.List.TakeWhile
import Mathlib.Tactic

/-!
The limit on the renegotiations of a TLS server connection.

A counter and the time of the last handshake stand for the times of all of them. The counter
starts again with a handshake that comes a window or more after the one before, so it counts
handshakes that are close to each other, however long the row of them is.
-/

namespace NodeCore.TlsHandshakes

structure Ssl where
  lastHandshakeTime : ℕ
  handshakes : ℕ
  deriving DecidableEq

structure Pair where
  ssl : Ssl
  /-- The calls of `setImmediate` that are still to emit the error. -/
  immediates : ℕ
  /-- The errors that `cleartext` has emitted. -/
  errors : ℕ
  deriving DecidableEq

def Pair.start : Pair := ⟨⟨0, 0⟩, 0, 0⟩

inductive Act
  | handshake (now : ℕ)
  /-- The function that was given to `setImmediate` runs. -/
  | immediate

section Model

variable (limit : ℕ) (window : ℚ)

/-- `onhandshakestart`, with the limits `CLIENT_RENEG_LIMIT` and `CLIENT_RENEG_WINDOW`; `none` where
the assertion fails. -/
def onhandshakestart (p : Pair) (now : ℕ) : Option Pair :=
  if now < p.ssl.lastHandshakeTime then none
  else
    let handshakes := if window * 1000 ≤ (now : ℚ) - p.ssl.lastHandshakeTime then 0
      else p.ssl.handshakes
    if p.ssl.lastHandshakeTime = 0 then some { p with ssl := ⟨now, handshakes⟩ }
    else some { p with
      ssl := ⟨now, handshakes + 1⟩
      immediates := if limit < handshakes + 1 then p.immediates + 1 else p.immediates }

def step (p : Pair) : Act → Option Pair
  | .handshake now => onhandshakestart limit window p now
  | .immediate =>
    if 0 < p.immediates then
      some { p with immediates := p.immediates - 1, errors := p.errors + 1 }
    else none

def run (acts : List Act) : Option Pair := acts.foldlM (step limit window) Pair.start

/-! ### The claim -/

/-- The error has been raised, or is on its way. -/
def Raised (p : Pair) : Prop := 0 < p.immediates + p.errors

/-- The times within an interval. -/
def within (a b : ℚ) (ts : List ℕ) : List ℕ :=
  ts.filter fun t : ℕ => decide (a ≤ (t : ℚ) ∧ (t : ℚ) ≤ b)

/-- More than `limit` of the times are within an interval that is shorter than the window. -/
def Burst (times : List ℕ) : Prop :=
  ∃ a b : ℚ, b - a < window * 1000 ∧ limit < (within a b times).length

/-- One less than a window after the other. -/
def Close (s t : ℕ) : Prop := (t : ℚ) - s < window * 1000

/-- More than `limit` times in a row, each close to the one before. -/
def Steady (times : List ℕ) : Prop :=
  ∃ row, row <:+: times ∧ row.length = limit + 1 ∧ row.IsChain (Close window)

end Model

/-- The times of the handshakes. -/
def times (acts : List Act) : List ℕ := acts.filterMap fun
  | .handshake now => some now
  | .immediate => none

/-- The handshakes that are counted: those behind the first one, where a time of 0 is as good as no
handshake. -/
def counted (times : List ℕ) : List ℕ := (times.dropWhile (· = 0)).tail

/-- **The condition**: renegotiations do not go on steadily without a burst; and where the clock
starts at 0, what is counted makes no difference. -/
def Even (limit : ℕ) (window : ℚ) (times : List ℕ) : Prop :=
  (times.head? ≠ some 0 → Steady limit window times.tail → Burst limit window times.tail) ∧
    (times.head? = some 0 → (Steady limit window (counted times) ↔ Burst limit window times.tail))

/-! ### Rows -/

section Rows

variable {limit : ℕ} {window : ℚ}

/-- A row up to now. -/
lemma isChain_snoc {ts row : List ℕ} {now : ℕ} (hrow : row <:+ ts) :
    (row ++ [now]).IsChain (Close window) ↔
      row.IsChain (Close window) ∧ (row ≠ [] → ∀ t ∈ ts.getLast?, Close window t now) := by
  rw [List.isChain_append]
  obtain ⟨front, rfl⟩ := hrow
  constructor
  · rintro ⟨hchain, -, hlast⟩
    refine ⟨hchain, fun hne t ht => hlast t ?_ now rfl⟩
    rwa [List.getLast?_append_of_ne_nil _ hne] at ht
  · rintro ⟨hchain, hlast⟩
    refine ⟨hchain, List.isChain_singleton _, fun t ht y hy => ?_⟩
    obtain rfl : now = y := Option.some.inj hy
    have hne : row ≠ [] := by
      rintro rfl
      cases ht
    refine hlast hne t ?_
    rwa [List.getLast?_append_of_ne_nil _ hne]

/-- A row goes on if the next one is close. -/
lemma row_snoc {ts : List ℕ} {n now : ℕ} (hclose : ∀ t ∈ ts.getLast?, Close window t now)
    (h : ∀ k, k ≤ n ↔ ∃ row, row <:+ ts ∧ row.length = k ∧ row.IsChain (Close window)) (k : ℕ) :
    k ≤ n + 1 ↔ ∃ row, row <:+ ts ++ [now] ∧ row.length = k ∧ row.IsChain (Close window) := by
  constructor
  · intro hk
    cases k with
    | zero => exact ⟨[], List.nil_suffix, rfl, List.isChain_nil⟩
    | succ k =>
      obtain ⟨row, hrow, rfl, hchain⟩ := (h k).mp (Nat.le_of_succ_le_succ hk)
      refine ⟨row ++ [now], List.suffix_concat_iff.mpr (.inr ⟨row, rfl, hrow⟩), by simp, ?_⟩
      exact (isChain_snoc hrow).mpr ⟨hchain, fun _ => hclose⟩
  · rintro ⟨row, hrow, rfl, hchain⟩
    rcases List.suffix_concat_iff.mp hrow with rfl | ⟨row, rfl, htail⟩
    · exact Nat.zero_le _
    · have hle := (h row.length).mpr ⟨row, htail, rfl, ((isChain_snoc htail).mp hchain).1⟩
      rw [List.length_append, List.length_singleton]
      omega

/-- Otherwise it starts again. -/
lemma row_restart {ts : List ℕ} {now : ℕ} (hfar : ∀ t ∈ ts.getLast?, ¬ Close window t now)
    (k : ℕ) :
    k ≤ 1 ↔ ∃ row, row <:+ ts ++ [now] ∧ row.length = k ∧ row.IsChain (Close window) := by
  constructor
  · intro hk
    rcases Nat.le_one_iff_eq_zero_or_eq_one.mp hk with rfl | rfl
    · exact ⟨[], List.nil_suffix, rfl, List.isChain_nil⟩
    · exact ⟨[now], List.suffix_append _ _, rfl, List.isChain_singleton _⟩
  · rintro ⟨row, hrow, rfl, hchain⟩
    rcases List.suffix_concat_iff.mp hrow with rfl | ⟨row, rfl, htail⟩
    · exact Nat.zero_le _
    · obtain ⟨-, hlast⟩ := (isChain_snoc htail).mp hchain
      rcases eq_or_ne row [] with rfl | hne
      · exact le_rfl
      · obtain ⟨t, ht⟩ := Option.ne_none_iff_exists'.mp fun hnone =>
          hne (List.suffix_nil.mp (List.getLast?_eq_none_iff.mp hnone ▸ htail))
        exact absurd (hlast hne t ht) (hfar t ht)

lemma steady_snoc {ts : List ℕ} {n now : ℕ}
    (h : ∀ k, k ≤ n ↔
      ∃ row, row <:+ ts ++ [now] ∧ row.length = k ∧ row.IsChain (Close window)) :
    Steady limit window (ts ++ [now]) ↔ Steady limit window ts ∨ limit < n := by
  rw [← Nat.succ_le_iff, h]
  constructor
  · rintro ⟨row, hrow, hlen, hchain⟩
    rcases List.infix_concat_iff.mp hrow with hrow | hrow
    · exact .inr ⟨row, hrow, hlen, hchain⟩
    · exact .inl ⟨row, hrow, hlen, hchain⟩
  · rintro (⟨row, hrow, hlen, hchain⟩ | ⟨row, hrow, hlen, hchain⟩)
    · exact ⟨row, List.infix_concat_iff.mpr (.inr hrow), hlen, hchain⟩
    · exact ⟨row, hrow.isInfix, hlen, hchain⟩

lemma isPrefix_within {ts : List ℕ} {a b : ℚ} (hsorted : ts.Pairwise (· ≤ ·))
    (ha : ∀ t ∈ ts, a ≤ (t : ℚ)) : within a b ts <+: ts := by
  induction ts with
  | nil => exact List.nil_prefix
  | cons t ts ih =>
    obtain ⟨hle, hsorted⟩ := List.pairwise_cons.mp hsorted
    obtain ⟨hat, ha⟩ := List.forall_mem_cons.mp ha
    rw [within, List.filter_cons]
    split_ifs with ht
    · exact (List.prefix_cons_inj t).mpr (ih hsorted ha)
    · have hb : b < t := by
        rw [decide_eq_true_eq, not_and] at ht
        exact not_le.mp (ht hat)
      rw [List.filter_eq_nil_iff.mpr fun s hs hc => ?_]
      · exact List.nil_prefix
      · have hts : (t : ℚ) ≤ s := Nat.cast_le.mpr (hle s hs)
        exact absurd (of_decide_eq_true hc).2 (not_le.mpr (hb.trans_le hts))

/-- They are next to each other. -/
lemma isInfix_within {ts : List ℕ} (hsorted : ts.Pairwise (· ≤ ·)) (a b : ℚ) :
    within a b ts <:+: ts := by
  induction ts with
  | nil => exact List.nil_infix
  | cons t ts ih =>
    obtain ⟨hle, htail⟩ := List.pairwise_cons.mp hsorted
    by_cases hat : a ≤ (t : ℚ)
    · refine (isPrefix_within hsorted fun s hs => ?_).isInfix
      rcases List.mem_cons.mp hs with rfl | hs
      · exact hat
      · exact hat.trans (Nat.cast_le.mpr (hle s hs))
    · rw [within, List.filter_cons, if_neg fun hc => hat (of_decide_eq_true hc).1]
      exact (ih htail).trans (List.suffix_cons t ts).isInfix

lemma steady_of_burst {ts : List ℕ} (hsorted : ts.Pairwise (· ≤ ·)) (h : Burst limit window ts) :
    Steady limit window ts := by
  obtain ⟨a, b, hshort, hmany⟩ := h
  refine ⟨(within a b ts).take (limit + 1), ?_, ?_, ?_⟩
  · exact (List.take_prefix _ _).isInfix.trans (isInfix_within hsorted a b)
  · rw [List.length_take]
    exact Nat.min_eq_left hmany
  · refine List.Pairwise.isChain (List.pairwise_of_forall_mem_list fun s hs t ht => ?_)
    have hmem : ∀ t ∈ (within a b ts).take (limit + 1), a ≤ (t : ℚ) ∧ (t : ℚ) ≤ b := fun t ht =>
      of_decide_eq_true (List.mem_filter.mp (List.mem_of_mem_take ht)).2
    have hs' := (hmem s hs).1
    have ht' := (hmem t ht).2
    rw [Close]
    linarith

end Rows

/-! ### Runs -/

/-- What the counter and the time are after the handshakes. -/
structure Counts (limit : ℕ) (window : ℚ) (ts : List ℕ) (p : Pair) : Prop where
  sorted : ts.Pairwise (· ≤ ·)
  last : p.ssl.lastHandshakeTime = ts.getLast?.getD 0
  le : ∀ t ∈ ts, t ≤ p.ssl.lastHandshakeTime
  row : ∀ k, k ≤ p.ssl.handshakes ↔
    ∃ row, row <:+ counted ts ∧ row.length = k ∧ row.IsChain (Close window)
  raised : Raised p ↔ Steady limit window (counted ts)

section Runs

variable {limit : ℕ} {window : ℚ} {ts : List ℕ} {p p' : Pair}

lemma counted_getLast {t : ℕ} (h : t ∈ (counted ts).getLast?) : ts.getLast? = some t := by
  have hsuffix : counted ts <:+ ts :=
    (List.tail_suffix _).trans (List.dropWhile_suffix _)
  obtain ⟨front, hfront⟩ := hsuffix
  have hne : counted ts ≠ [] := by
    rintro hnil
    rw [hnil] at h
    cases h
  rw [← hfront, List.getLast?_append_of_ne_nil _ hne]
  exact h

lemma dropWhile_zero (h : ∀ t ∈ ts, t ≤ 0) : ts.dropWhile (· = 0) = [] := by
  rw [List.dropWhile_eq_nil_iff]
  exact fun t ht => decide_eq_true (Nat.le_zero.mp (h t ht))

/-- Behind a time that is not 0 all are counted. -/
lemma counted_snoc {t now : ℕ} (ht : t ∈ ts) (hne : t ≠ 0) :
    counted (ts ++ [now]) = counted ts ++ [now] := by
  have hdrop : ts.dropWhile (· = 0) ≠ [] := by
    rw [Ne, List.dropWhile_eq_nil_iff]
    exact fun hall => hne (of_decide_eq_true (hall t ht))
  rw [counted, counted, List.dropWhile_append, if_neg (by simpa using hdrop),
    List.tail_append_of_ne_nil hdrop]

/-- The counter after a handshake that counts. -/
lemma row_counted (h : Counts limit window ts p) (now : ℕ) (k : ℕ) :
    k ≤ (if window * 1000 ≤ (now : ℚ) - p.ssl.lastHandshakeTime then 0
      else p.ssl.handshakes) + 1 ↔
    ∃ row, row <:+ counted ts ++ [now] ∧ row.length = k ∧ row.IsChain (Close window) := by
  have hlast : ∀ t ∈ (counted ts).getLast?, t = p.ssl.lastHandshakeTime := fun t ht => by
    rw [h.last, counted_getLast ht]
    rfl
  split_ifs with hfar
  · refine row_restart (fun t ht hclose => ?_) k
    rw [hlast t ht, Close] at hclose
    exact absurd hfar (not_le.mpr hclose)
  · refine row_snoc (fun t ht => ?_) h.row k
    rw [hlast t ht, Close]
    exact not_le.mp hfar

/-- Nothing has been counted, and the next one is not. -/
lemma Counts.idle (h : Counts limit window ts p) (hzero : p.ssl.lastHandshakeTime = 0) (now : ℕ) :
    counted ts = [] ∧ counted (ts ++ [now]) = [] ∧ p.ssl.handshakes = 0 := by
  have hdrop := dropWhile_zero (hzero ▸ h.le)
  have hnil : counted ts = [] := by
    rw [counted, hdrop]
    rfl
  refine ⟨hnil, ?_, ?_⟩
  · rw [counted, List.dropWhile_append, hdrop]
    by_cases hnow : now = 0
    · simp [hnow]
    · simp [hnow]
  · obtain ⟨row, hrow, hlen, -⟩ := (h.row p.ssl.handshakes).mp le_rfl
    rw [hnil] at hrow
    rw [← hlen, List.suffix_nil.mp hrow]
    rfl

lemma Counts.started (h : Counts limit window ts p) (hne : p.ssl.lastHandshakeTime ≠ 0) :
    ∃ t ∈ ts, t ≠ 0 := by
  refine ⟨p.ssl.lastHandshakeTime, ?_, hne⟩
  have hsome := h.last
  cases hget : ts.getLast? with
  | none =>
    rw [hget] at hsome
    exact absurd hsome hne
  | some t =>
    rw [hget] at hsome
    rw [hsome]
    exact List.mem_of_getLast? hget

lemma Counts.handshake (h : Counts limit window ts p) {now : ℕ}
    (hs : onhandshakestart limit window p now = some p') :
    Counts limit window (ts ++ [now]) p' := by
  unfold onhandshakestart at hs
  rw [ite_eq_iff] at hs
  obtain ⟨-, hs⟩ | ⟨hnow, hs⟩ := hs
  · cases hs
  have hle : ∀ t ∈ ts, t ≤ now := fun t ht => (h.le t ht).trans (Nat.le_of_not_lt hnow)
  have hsorted : (ts ++ [now]).Pairwise (· ≤ ·) := by
    rw [List.pairwise_append]
    refine ⟨h.sorted, List.pairwise_singleton _ _, fun t ht s hs => ?_⟩
    rw [List.mem_singleton.mp hs]
    exact hle t ht
  have hle' : ∀ t ∈ ts ++ [now], t ≤ now := fun t ht => by
    rcases List.mem_append.mp ht with ht | ht
    · exact hle t ht
    · exact (List.mem_singleton.mp ht).le
  have hlast : now = (ts ++ [now]).getLast?.getD 0 := by
    rw [List.getLast?_concat]
    rfl
  dsimp only at hs
  by_cases hzero : p.ssl.lastHandshakeTime = 0
  · rw [if_pos hzero] at hs
    obtain rfl := Option.some.inj hs
    obtain ⟨hnil, hnil', hnone⟩ := h.idle hzero now
    have hrow := h.row
    rw [hnil] at hrow
    refine ⟨hsorted, hlast, hle', ?_, ?_⟩
    · rw [hnil', hnone, ite_self, ← hnone]
      exact hrow
    · rw [hnil', ← hnil]
      exact h.raised
  · rw [if_neg hzero] at hs
    obtain rfl := Option.some.inj hs
    obtain ⟨t, ht, hne⟩ := h.started hzero
    refine ⟨hsorted, hlast, hle', ?_, ?_⟩
    · rw [counted_snoc ht hne]
      exact row_counted h now
    · rw [counted_snoc ht hne, steady_snoc (row_counted h now), ← h.raised]
      unfold Raised
      dsimp only
      split_ifs <;> omega

lemma times_snoc (acts : List Act) (a : Act) : times (acts ++ [a]) = times acts ++ times [a] :=
  List.filterMap_append

lemma counts_start : Counts limit window [] .start := by
  refine ⟨List.Pairwise.nil, rfl, fun _ ht => (by cases ht), fun k => ?_, ?_⟩
  · constructor
    · exact fun hk => ⟨[], List.nil_suffix, (Nat.le_zero.mp hk).symm, List.isChain_nil⟩
    · rintro ⟨row, hrow, rfl, -⟩
      rw [List.suffix_nil.mp hrow]
      exact le_rfl
  · refine ⟨fun hr => absurd hr (Nat.lt_irrefl 0), ?_⟩
    rintro ⟨row, hrow, hlen, -⟩
    rw [List.infix_nil.mp hrow] at hlen
    cases hlen

lemma Counts.step {a : Act} (h : Counts limit window ts p)
    (hs : step limit window p a = some p') : Counts limit window (ts ++ times [a]) p' := by
  cases a with
  | handshake now => exact h.handshake hs
  | immediate =>
    have hsame : ts ++ times [Act.immediate] = ts := List.append_nil _
    rw [TlsHandshakes.step] at hs
    split_ifs at hs with hsome
    obtain rfl := Option.some.inj hs
    rw [hsame]
    refine ⟨h.sorted, h.last, h.le, h.row, ?_⟩
    rw [← h.raised, Raised, Raised]
    dsimp only
    omega

lemma counts_of_run {acts : List Act} (h : run limit window acts = some p) :
    Counts limit window (times acts) p := by
  induction acts using List.reverseRecOn generalizing p with
  | nil =>
    obtain rfl := Option.some.inj h
    exact counts_start
  | append_singleton acts a ih =>
    rw [run, List.foldlM_append] at h
    obtain ⟨q, hq, ha⟩ := Option.bind_eq_some_iff.mp h
    have hstep : step limit window q a = some p := by
      rw [List.foldlM_cons] at ha
      obtain ⟨q', hq', hp⟩ := Option.bind_eq_some_iff.mp ha
      rwa [← Option.some.inj hp]
    rw [times_snoc]
    exact (ih hq).step hstep

end Runs

/-- **When the limit is what is claimed.** -/
theorem raised_iff {limit : ℕ} {window : ℚ} {acts : List Act} {p : Pair}
    (h : run limit window acts = some p) :
    (Raised p ↔ Burst limit window (times acts).tail) ↔ Even limit window (times acts) := by
  have hc := counts_of_run h
  rw [hc.raised, Even]
  by_cases hhead : (times acts).head? = some 0
  · simp only [hhead, ne_eq, not_true, false_imp_iff, true_and, forall_const]
  · have hcounted : counted (times acts) = (times acts).tail := by
      cases hts : times acts with
      | nil => rfl
      | cons t ts =>
        rw [hts] at hhead
        rw [counted, List.dropWhile_cons_of_neg fun ht => hhead (by rw [of_decide_eq_true ht]; rfl)]
    simp only [hhead, ne_eq, not_false_iff, forall_const, false_imp_iff, and_true, hcounted]
    exact ⟨fun hiff => hiff.mp, fun hs =>
      ⟨hs, steady_of_burst (hc.sorted.sublist (List.tail_sublist _))⟩⟩

/-- Four renegotiations within a few seconds. -/
theorem raised_iff_burst : ∃ p, run 3 600 [.handshake 1000, .handshake 2000, .handshake 3000,
    .handshake 4000, .handshake 5000, .immediate] = some p ∧
    (Raised p ↔ Burst 3 600 [2000, 3000, 4000, 5000]) := by
  have hrun : run 3 600 [.handshake 1000, .handshake 2000, .handshake 3000, .handshake 4000,
      .handshake 5000, .immediate] = some ⟨⟨5000, 4⟩, 0, 1⟩ := by
    norm_num [run, step, onhandshakestart, Pair.start]
  refine ⟨_, hrun, (raised_iff hrun).mpr ⟨fun _ _ => ?_, fun hzero => absurd hzero (by decide)⟩⟩
  show Burst 3 600 [2000, 3000, 4000, 5000]
  exact ⟨2000, 5000, by norm_num, by norm_num [within]⟩

/-- A renegotiation every nine minutes. -/
theorem raised_steady : ¬ ∀ acts p, run 3 600 acts = some p →
    (Raised p ↔ Burst 3 600 (times acts).tail) := by
  intro h
  have hrun : run 3 600 [.handshake 1000, .handshake 541000, .handshake 1081000,
      .handshake 1621000, .handshake 2161000] = some ⟨⟨2161000, 4⟩, 1, 0⟩ := by
    norm_num [run, step, onhandshakestart, Pair.start]
  obtain ⟨a, b, hshort, hmany⟩ := (h _ _ hrun).mp Nat.one_pos
  have hall : ∀ t ∈ [541000, 1081000, 1621000, 2161000], _ :=
    List.length_filter_eq_length_iff.mp (Nat.le_antisymm (List.length_filter_le _ _) hmany)
  have hfirst := (of_decide_eq_true (hall 541000 (by decide))).1
  have hlast := (of_decide_eq_true (hall 2161000 (by decide))).2
  norm_num at hfirst hlast hshort
  linarith

end NodeCore.TlsHandshakes
