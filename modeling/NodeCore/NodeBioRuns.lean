import NodeCore.NodeBioDry

/-!
Runs of a `NodeBIO`: any writes and reads, and `Gets` and `Reset` where they complete.
-/

namespace NodeCore.NodeBio

open NodeCore.Encoding NodeCore.Loop

variable {s : Bio} {q : Bytes}

lemma Reads.unique {copy : Bool} {size n n' : ℕ} {out out' : Bytes} {s₁ s₂ : Bio}
    (h : Reads s copy size n out s₁) (h' : Reads s copy size n' out' s₂) :
    n = n' ∧ out = out' ∧ s₁ = s₂ := by
  obtain ⟨t, ht, rfl, rfl, rfl⟩ := h
  obtain ⟨t', ht', rfl, rfl, rfl⟩ := h'
  obtain rfl := ht.unique ht'
  exact ⟨rfl, rfl, rfl⟩

lemma Holds.indexOf_eq (hs : Holds s q) {delim : UInt8} {limit i : ℕ}
    (h : IndexOf s delim limit i) :
    i = (q.take limit).findIdx (· == delim) := by
  by_cases hdry : s.Dry ∧ 0 < limit
  · exact absurd h (hs.not_indexOf delim hdry.1 hdry.2 i)
  · exact h.unique (hs.indexOf delim hdry)

/-- What an operation does is what it does to the queue. -/
lemma Holds.does (hs : Holds s q) {op : Op} {res : Res} {s' : Bio} (h : Does s op res s') :
    res = (op.spec q).1 ∧ Holds s' (op.spec q).2 := by
  cases h with
  | write h =>
    obtain ⟨s₁, hwrites, hholds⟩ := hs.writes _
    obtain rfl := h.unique hwrites
    exact ⟨rfl, hholds⟩
  | read h =>
    obtain ⟨s₁, hreads, hholds⟩ := hs.reads _ _
    obtain ⟨rfl, rfl, rfl⟩ := h.unique hreads
    exact ⟨rfl, hholds⟩
  | gets h =>
    unfold Gets at h
    rw [hs.1] at h
    simp only [Op.spec]
    split_ifs at h ⊢ with hzero
    · obtain ⟨rfl, rfl, rfl⟩ := h
      exact ⟨rfl, hs⟩
    · obtain ⟨i, m, hindex, rfl, h⟩ := h
      obtain rfl := hs.indexOf_eq hindex
      obtain ⟨s₁, hreads, hholds⟩ := hs.reads true _
      obtain ⟨-, rfl, rfl⟩ := h.unique hreads
      exact ⟨rfl, hholds⟩
  | reset h =>
    by_cases hdry : s.Dry
    · exact absurd h (not_resets hdry _)
    · obtain ⟨s₁, hresets, hholds⟩ := hs.resets hdry
      obtain rfl := h.unique hresets
      exact ⟨rfl, hholds⟩

lemma Holds.runs (hs : Holds s q) {ops : List Op} {res : List Res} {s' : Bio}
    (h : Runs s ops res s') : res = (specRun q ops).1 ∧ Holds s' (specRun q ops).2 := by
  induction h generalizing q with
  | nil => exact ⟨rfl, hs⟩
  | cons first _ ih =>
    obtain ⟨rfl, hs'⟩ := hs.does first
    obtain ⟨rfl, hs''⟩ := ih hs'
    exact ⟨rfl, hs''⟩

/-- A `Write` or a `Read`. -/
def Op.Plain : Op → Prop
  | .write _ | .read _ _ => True
  | .gets _ | .reset => False

lemma Holds.plain (hs : Holds s q) {op : Op} (h : op.Plain) :
    ∃ s', Does s op (op.spec q).1 s' ∧ Holds s' (op.spec q).2 := by
  cases op with
  | write data =>
    obtain ⟨s', hwrites, hholds⟩ := hs.writes data
    exact ⟨s', .write hwrites, hholds⟩
  | read copy size =>
    obtain ⟨s', hreads, hholds⟩ := hs.reads copy size
    exact ⟨s', .read hreads, hholds⟩
  | gets size => cases h
  | reset => cases h

/-- Writes and reads complete in any order. -/
lemma Holds.plain_runs (hs : Holds s q) {ops : List Op}
    (h : ∀ op ∈ ops, op.Plain) :
    ∃ s', Runs s ops (specRun q ops).1 s' ∧ Holds s' (specRun q ops).2 := by
  induction ops generalizing s q with
  | nil => exact ⟨s, .nil, hs⟩
  | cons op ops ih =>
    obtain ⟨s₁, hdoes, hs₁⟩ := hs.plain (h op (by simp))
    obtain ⟨s₂, hruns, hs₂⟩ := ih hs₁ fun o ho => h o (List.mem_cons_of_mem _ ho)
    exact ⟨s₂, .cons hdoes hruns, hs₂⟩

lemma Does.unique {op : Op} {res res' : Res} {s₁ s₂ : Bio} (h : Does s op res s₁)
    (h' : Does s op res' s₂) : res = res' ∧ s₁ = s₂ := by
  cases h with
  | write h =>
    cases h' with
    | write h' => exact ⟨rfl, h.unique h'⟩
  | read h =>
    cases h' with
    | read h' =>
      obtain ⟨rfl, rfl, rfl⟩ := h.unique h'
      exact ⟨rfl, rfl⟩
  | gets h =>
    cases h' with
    | gets h' =>
      unfold Gets at h h'
      split_ifs at h h' with hzero
      · obtain ⟨rfl, rfl, rfl⟩ := h
        obtain ⟨rfl, rfl, rfl⟩ := h'
        exact ⟨rfl, rfl⟩
      · obtain ⟨i, m, hindex, rfl, h⟩ := h
        obtain ⟨i', m', hindex', rfl, h'⟩ := h'
        obtain rfl := hindex.unique hindex'
        obtain ⟨-, rfl, rfl⟩ := h.unique h'
        exact ⟨rfl, rfl⟩
  | reset h =>
    cases h' with
    | reset h' => exact ⟨rfl, h.unique h'⟩

lemma Runs.unique {ops : List Op} {res res' : List Res} {s₁ s₂ : Bio}
    (h : Runs s ops res s₁) (h' : Runs s ops res' s₂) : res = res' ∧ s₁ = s₂ := by
  induction h generalizing res' with
  | nil =>
    cases h'
    exact ⟨rfl, rfl⟩
  | cons first _ ih =>
    cases h' with
    | cons first' rest' =>
      obtain ⟨rfl, rfl⟩ := first.unique first'
      obtain ⟨rfl, rfl⟩ := ih rest'
      exact ⟨rfl, rfl⟩

/-! ### First in, first out -/

/-- The bytes of all `Write`s. -/
def written (ops : List Op) : Bytes :=
  ops.flatMap fun
    | .write data => data
    | _ => []

/-- The bytes of all `Read`s, copied or not. -/
def consumed (res : List Res) : ℕ :=
  (res.map fun
    | .bytes n _ => n
    | _ => 0).sum

lemma specRun_append (q : Bytes) (pre post : List Op) :
    specRun q (pre ++ post) = ((specRun q pre).1 ++ (specRun (specRun q pre).2 post).1,
      (specRun (specRun q pre).2 post).2) := by
  induction pre generalizing q with
  | nil => rfl
  | cons op pre ih => simp only [List.cons_append, specRun, ih]

lemma length_specRun (q : Bytes) (ops : List Op) : (specRun q ops).1.length = ops.length := by
  induction ops generalizing q with
  | nil => rfl
  | cons op ops ih => simp only [specRun, List.length_cons, ih]

/-- What is left is what has been written, less what has been read. -/
lemma specRun_left {q : Bytes} {ops : List Op} (h : ∀ op ∈ ops, op.Plain) :
    (specRun q ops).2 = (q ++ written ops).drop (consumed (specRun q ops).1) ∧
      consumed (specRun q ops).1 ≤ (q ++ written ops).length := by
  induction ops generalizing q with
  | nil => simp [specRun, written, consumed]
  | cons op ops ih =>
    have hop := h op (by simp)
    have hrest : ∀ o ∈ ops, o.Plain := fun o ho => h o (List.mem_cons_of_mem _ ho)
    cases op with
    | write data =>
      obtain ⟨hleft, hle⟩ := ih (q := q ++ data) hrest
      have hwritten : q ++ written (.write data :: ops) = q ++ data ++ written ops := by
        simp [written]
      have hconsumed : consumed (specRun q (.write data :: ops)).1 =
          consumed (specRun (q ++ data) ops).1 := by simp [specRun, Op.spec, consumed]
      rw [hwritten, hconsumed]
      exact ⟨hleft, hle⟩
    | read copy size =>
      obtain ⟨hleft, hle⟩ := ih (q := q.drop size) hrest
      have hwritten : q ++ written (.read copy size :: ops) = q ++ written ops := by simp [written]
      have hconsumed : consumed (specRun q (.read copy size :: ops)).1 =
          min size q.length + consumed (specRun (q.drop size) ops).1 := by
        simp [specRun, Op.spec, consumed]
      have hdrop : q.drop size = q.drop (min size q.length) := by
        rcases Nat.le_total size q.length with hle | hle
        · rw [min_eq_left hle]
        · rw [min_eq_right hle, List.drop_eq_nil_of_le hle, List.drop_length]
      rw [hwritten, hconsumed, ← List.drop_drop, List.drop_append_of_le_length (min_le_right _ _),
        ← hdrop]
      refine ⟨hleft, ?_⟩
      rw [List.length_append, List.length_drop] at hle
      rw [List.length_append]
      omega
    | gets size => cases hop
    | reset => cases hop

/-- **First in, first out.** Writes and reads of any sizes complete, in any order; the bytes that
are read are, in order, those that were written, and `length_` counts what is left. -/
theorem fifo (ops : List Op) (h : ∀ op ∈ ops, op.Plain) :
    ∃ res s, Runs .new ops res s ∧ (∀ res' s', Runs .new ops res' s' → res' = res ∧ s' = s) ∧
      s.length + consumed res = (written ops).length ∧
      ∀ pre copy size post, ops = pre ++ .read copy size :: post →
        ∃ before n out after, res = before ++ .bytes n out :: after ∧ before.length = pre.length ∧
          n = min size ((written pre).length - consumed before) ∧
          (copy = true → out = ((written pre).drop (consumed before)).take size) := by
  obtain ⟨s, hruns, hlength, -⟩ := holds_new.plain_runs h
  obtain ⟨hleft, hle⟩ := specRun_left (q := []) h
  rw [List.nil_append] at hleft hle
  refine ⟨_, s, hruns, fun res' s' h' => h'.unique hruns, ?_, ?_⟩
  · rw [hlength, hleft, List.length_drop]
    omega
  · rintro pre copy size post rfl
    have hpres : ∀ op ∈ pre, op.Plain := fun op ho => h op (by simp [ho])
    obtain ⟨hpre, hpre'⟩ := specRun_left (q := []) hpres
    rw [List.nil_append] at hpre hpre'
    rw [specRun_append]
    refine ⟨(specRun [] pre).1, _, _, _, rfl, length_specRun _ _, ?_, fun hcopy => ?_⟩
    · rw [hpre, List.length_drop]
    · rw [hcopy, if_pos rfl, hpre]

/-- Three bytes, of which two are read and one is discarded. -/
theorem fifo_three : ∃ res s, Runs .new [.write [1, 2, 3], .read true 2, .read false 5] res s ∧
    s.length + consumed res = 3 := by
  obtain ⟨res, s, hruns, -, hlength, -⟩ := fifo [.write [1, 2, 3], .read true 2, .read false 5]
    (by simp [Op.Plain])
  exact ⟨res, s, hruns, hlength⟩

/-! ### The drained buffer -/

/-- One byte more than a buffer holds, of which a buffer is read. -/
def pastBuffer : List Op :=
  [.write (List.replicate (kBufferLength + 1) 0), .read false kBufferLength]

lemma pastBuffer_dry : ∃ res s, Runs .new pastBuffer res s ∧ s.Dry ∧ s.length = 1 := by
  set data : Bytes := List.replicate (kBufferLength + 1) 0 with hdata
  have hlen : data.length = kBufferLength + 1 := List.length_replicate
  have htake : (data.take kBufferLength).length = kBufferLength := by
    rw [List.length_take]
    omega
  have hdrop : data.drop kBufferLength = [0] := by
    rw [hdata, List.drop_replicate, Nat.add_sub_cancel_left]
    rfl
  -- the first buffer is full, the second one has a byte
  set s₁ := (Bio.new.put (data.take kBufferLength)).extend with hs₁
  have hwrite : s₁.writeHead = 1 := rfl
  have hsecond : s₁.heap 1 = .new 0 := Bio.extend_heap_new Nat.one_pos
  have hfirst : s₁.heap 0 = { (Bio.new.put (data.take kBufferLength)).heap 0 with next := 1 } :=
    Bio.extend_heap_last _
  have hput : (Bio.new.put (data.take kBufferLength)).heap 0 =
      (Buffer.new 0).put (data.take kBufferLength) := Bio.new.put_heap_last _
  have hpos := kBufferLength_pos
  have hround : writeRound ⟨.new, data⟩ = .next ⟨s₁, [0]⟩ := by
    rw [← hdrop]
    refine writeRound_more ?_ (by omega)
    show 0 + kBufferLength = _
    omega
  have hround' : writeRound ⟨s₁, [0]⟩ = .next ⟨s₁.put [0], []⟩ := by
    refine writeRound_last (by simp) ?_
    rw [hwrite, hsecond]
    show 0 + 1 ≤ kBufferLength
    omega
  have hwrites : Writes .new data (s₁.put [0]) :=
    .next hround (.next hround' (.exit writeRound_nil))
  have hhead : (s₁.put [0]).heap 0 = s₁.heap 0 := s₁.put_heap_ne _ (by rw [hwrite]; omega)
  have hlength : (s₁.put [0]).length = kBufferLength + 1 := by
    show 0 + (data.take kBufferLength).length + 1 = _
    omega
  have hread : ((s₁.put [0]).heap 0).readPos = 0 := by
    rw [hhead, hfirst, hput]
    rfl
  have hfull : ((s₁.put [0]).heap 0).writePos = kBufferLength := by
    rw [hhead, hfirst, hput]
    show 0 + (data.take kBufferLength).length = _
    omega
  -- reading all of the first buffer stops there
  set s₂ := (s₁.put [0]).store 0 { (s₁.put [0]).heap 0 with readPos := 0, writePos := 0 } with hs₂
  have hexp : (if (s₁.put [0]).length > kBufferLength then kBufferLength else (s₁.put [0]).length) =
      kBufferLength := by
    rw [if_pos (by omega)]
  have hreads : Reads (s₁.put [0]) false kBufferLength kBufferLength []
      { s₂ with length := s₂.length - kBufferLength } := by
    refine ⟨⟨s₂, kBufferLength, 0, []⟩, ?_, rfl, rfl, rfl⟩
    rw [hexp]
    have hhead₀ : (s₁.put [0]).readHead = 0 := rfl
    have hround : readRound false kBufferLength ⟨s₁.put [0], 0, kBufferLength, []⟩ =
        .next ⟨s₂, kBufferLength, 0, []⟩ := by
      simp [readRound, hpos, hhead₀, hread, hfull, hs₂]
    refine .next hround (.exit ?_)
    simp [readRound]
  refine ⟨[.done, .bytes kBufferLength []], { s₂ with length := s₂.length - kBufferLength },
    .cons (.write hwrites) (.cons (.read hreads) .nil), ⟨?_, ?_⟩, ?_⟩
  · show (s₂.heap 0).readPos = (s₂.heap 0).writePos
    rw [hs₂, Bio.store_heap_same]
  · show 0 < (s₁.put [0]).length - kBufferLength
    omega
  · show (s₁.put [0]).length - kBufferLength = 1
    omega

lemma line_runs : Runs .new [.write [1, 10]] [.done] (Bio.new.put [1, 10]) := by
  have hfit : (Bio.new.heap Bio.new.writeHead).writePos + [1, 10].length ≤ kBufferLength := by
    unfold kBufferLength
    decide
  exact .cons (.write (.next (writeRound_last (by simp) hfit) (.exit writeRound_nil))) .nil

lemma line_not_dry : ¬ (Bio.new.put [1, 10]).Dry := by
  rintro ⟨h, -⟩
  have hhead : (Bio.new.put [1, 10]).heap 0 = (Buffer.new 0).put [1, 10] := Bio.new.put_heap_last _
  have h' : ((Bio.new.put [1, 10]).heap 0).readPos = ((Bio.new.put [1, 10]).heap 0).writePos := h
  rw [hhead] at h'
  cases h'

/-- **`IndexOf`.** After any operations that complete, it gives the first delimiter among the bytes
it may look at, or their number, if and only if the buffer at the read head is not drained. -/
theorem indexOf_iff {ops : List Op} {res : List Res} (h : Runs .new ops res s) (delim : UInt8)
    (limit : ℕ) :
    IndexOf s delim limit (((specRun [] ops).2.take limit).findIdx (· == delim)) ↔
      ¬ (s.Dry ∧ 0 < limit) := by
  obtain ⟨-, hholds⟩ := holds_new.runs h
  constructor
  · rintro hindex ⟨hdry, hpos⟩
    exact hholds.not_indexOf delim hdry hpos _ hindex
  · exact hholds.indexOf delim

/-- The end of a line. -/
theorem indexOf_line : ∃ res s, Runs .new [.write [1, 10]] res s ∧ IndexOf s 10 5 1 :=
  ⟨_, _, line_runs, (indexOf_iff line_runs 10 5).mpr fun h => line_not_dry h.1⟩

/-- `IndexOf` of an unread byte that is never found. -/
theorem indexOf_spins : ∃ res s, Runs .new pastBuffer res s ∧ s.length = 1 ∧
    ∀ i, ¬ IndexOf s 0 1 i := by
  obtain ⟨res, s, hruns, hdry, hlength⟩ := pastBuffer_dry
  obtain ⟨-, hholds⟩ := holds_new.runs hruns
  exact ⟨res, s, hruns, hlength, hholds.not_indexOf 0 hdry Nat.one_pos⟩

/-- **`Reset`.** After any operations that complete, it completes, empties the queue, and what
follows is as on a fresh one, if and only if the buffer at the read head is not drained. -/
theorem reset_iff {ops : List Op} {res : List Res} (h : Runs .new ops res s) :
    (∃ s', Resets s s' ∧ s'.length = 0 ∧ ∀ ops', (∀ op ∈ ops', op.Plain) →
      ∃ res' t t', Runs s' ops' res' t ∧ Runs .new ops' res' t' ∧ t.length = t'.length) ↔
      ¬ s.Dry := by
  obtain ⟨-, hholds⟩ := holds_new.runs h
  constructor
  · rintro ⟨s', hresets, -⟩ hdry
    exact not_resets hdry s' hresets
  · intro hdry
    obtain ⟨s', hresets, hempty⟩ := hholds.resets hdry
    refine ⟨s', hresets, hempty.1, fun ops' hops' => ?_⟩
    obtain ⟨t, hruns, ht⟩ := hempty.plain_runs hops'
    obtain ⟨t', hruns', ht'⟩ := holds_new.plain_runs hops'
    exact ⟨_, t, t', hruns, hruns', ht.1.trans ht'.1.symm⟩

/-- A line is discarded. -/
theorem reset_line :
    ∃ res s s', Runs .new [.write [1, 10]] res s ∧ Resets s s' ∧ s'.length = 0 := by
  obtain ⟨s', hresets, hlength, -⟩ := (reset_iff line_runs).mpr line_not_dry
  exact ⟨_, _, s', line_runs, hresets, hlength⟩

/-- `Reset` with a byte unread that does not complete. -/
theorem reset_aborts :
    ∃ res s, Runs .new pastBuffer res s ∧ s.length = 1 ∧ ∀ s', ¬ Resets s s' := by
  obtain ⟨res, s, hruns, hdry, hlength⟩ := pastBuffer_dry
  exact ⟨res, s, hruns, hlength, not_resets hdry⟩

end NodeCore.NodeBio
