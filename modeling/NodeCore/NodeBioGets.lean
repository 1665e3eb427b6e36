import NodeCore.Memory
import NodeCore.NodeBioRuns

/-!
`Gets` of a `NodeBIO`, with the memory that it writes to.

The end of a line is looked for among the bytes that may be given, and counts as one of them. So
does a byte that is not there, where no line ends and less is left than may be given.
-/

namespace NodeCore.NodeBio

open NodeCore.Encoding NodeCore.Loop

/-- `Gets` of `size` with the bytes `out` of the caller: what it returns, and the bytes then. -/
def GetsInto (s : Bio) (size : ℤ) (out : ℕ → UInt8) (n : ℤ) (out' : ℕ → UInt8) (s' : Bio) : Prop :=
  if s.length = 0 then n = 0 ∧ out' = out ∧ s' = s
  else
    ∃ i m read, IndexOf s 10 (toSize size) i ∧ n = getsCount size i ∧
      Reads s true (toSize n) m read s' ∧
      out' = Function.update (Memory.store out 0 read) n.toNat 0

/-- The bytes that are to be given of the queue `q`: to the end of the first line if that leaves
room for the 0, and else as many as leave room. -/
def lineOf (q : Bytes) (size : ℕ) : Bytes :=
  let line := q.take (q.findIdx (· == 10) + 1)
  if 10 ∈ q ∧ line.length ≤ size - 1 then line else q.take (min q.length (size - 1))

/-- The caller gets them, with a 0 behind and their number, and they are consumed. -/
def GetsLine (s : Bio) (q : Bytes) (size : ℕ) (out : ℕ → UInt8) : Prop :=
  let line := lineOf q size
  ∃ s', GetsInto s size out line.length
      (Function.update (Memory.store out 0 line) line.length 0) s' ∧
    Holds s' (q.drop line.length)

variable {s : Bio} {q : Bytes} {size : ℕ}

lemma GetsInto.unique {size n n' : ℤ} {out out₁ out₂ : ℕ → UInt8} {s₁ s₂ : Bio}
    (h : GetsInto s size out n out₁ s₁) (h' : GetsInto s size out n' out₂ s₂) :
    n = n' ∧ out₁ = out₂ ∧ s₁ = s₂ := by
  unfold GetsInto at h h'
  split_ifs at h h' with hzero
  · obtain ⟨rfl, rfl, rfl⟩ := h
    exact ⟨h'.1.symm, h'.2.1.symm, h'.2.2.symm⟩
  · obtain ⟨i, m, read, hindex, rfl, hreads, rfl⟩ := h
    obtain ⟨i', m', read', hindex', rfl, hreads', rfl⟩ := h'
    obtain rfl := hindex.unique hindex'
    obtain ⟨-, rfl, rfl⟩ := hreads.unique hreads'
    exact ⟨rfl, rfl, rfl⟩

/-! ### After writes alone -/

/-- The first buffer has a byte as soon as there is one, and none of it is read. -/
structure Fresh (s : Bio) : Prop where
  brk : 0 < s.brk
  head : s.readHead = 0
  unread : (s.heap 0).readPos = 0
  some : (s.heap 0).writePos = 0 → s.length = 0 ∧ s.writeHead = 0

lemma Fresh.new : Fresh .new := ⟨Nat.one_pos, rfl, rfl, fun _ => ⟨rfl, rfl⟩⟩

lemma Fresh.put (h : Fresh s) (data : Bytes) : Fresh (s.put data) := by
  obtain ⟨hbrk, hhead, hunread, hsome⟩ := h
  by_cases hwrite : s.writeHead = 0
  · have hheap : (s.put data).heap 0 = (s.heap 0).put data := by
      have hlast := s.put_heap_last data
      rwa [hwrite] at hlast
    refine ⟨hbrk, hhead, by rw [hheap]; exact hunread, fun hzero => ⟨?_, hwrite⟩⟩
    have hsum : (s.heap 0).writePos + data.length = 0 := by rwa [hheap] at hzero
    have hlength := (hsome (by omega)).1
    show s.length + data.length = 0
    omega
  · have hheap : (s.put data).heap 0 = s.heap 0 := s.put_heap_ne data (Ne.symm hwrite)
    refine ⟨hbrk, hhead, by rw [hheap]; exact hunread, fun hzero => ?_⟩
    rw [hheap] at hzero
    exact absurd (hsome hzero).2 hwrite

lemma Fresh.extend (h : Fresh s) (hfull : (s.heap s.writeHead).writePos = kBufferLength) :
    Fresh s.extend := by
  obtain ⟨hbrk, hhead, hunread, hsome⟩ := h
  have hpos := kBufferLength_pos
  by_cases hwrite : s.writeHead = 0
  · have hheap : s.extend.heap 0 = { s.heap 0 with next := s.brk } := by
      have hlast := s.extend_heap_last
      rwa [hwrite] at hlast
    rw [hwrite] at hfull
    refine ⟨Nat.succ_pos _, hhead, by rw [hheap]; exact hunread, fun hzero => ?_⟩
    rw [hheap] at hzero
    exact absurd (hfull.symm.trans hzero) hpos.ne'
  · have hheap : s.extend.heap 0 = s.heap 0 := Bio.extend_heap_ne (Ne.symm hwrite) hbrk.ne
    refine ⟨Nat.succ_pos _, hhead, by rw [hheap]; exact hunread, fun hzero => ?_⟩
    rw [hheap] at hzero
    exact absurd (hsome hzero).2 hwrite

lemma Fresh.writes (h : Fresh s) {data : Bytes} {s' : Bio} (hwrites : Writes s data s') :
    Fresh s' := by
  have hnext (w w' : Writing) (hw : Fresh w.bio) (hround : writeRound w = .next w') :
      Fresh w'.bio := by
    obtain hcase | ⟨-, hcase⟩ | ⟨-, hcase⟩ | ⟨n, hn, hlong, hcase⟩ := writeRound_cases w
    · cases hcase.symm.trans hround
    · cases hcase.symm.trans hround
    · cases hcase.symm.trans hround
      exact hw.put _
    · cases hcase.symm.trans hround
      refine (hw.put _).extend ?_
      have hlast := w.bio.put_heap_last (w.data.take n)
      have hlen : (w.data.take n).length = n := by
        rw [List.length_take]
        omega
      show ((w.bio.put (w.data.take n)).heap w.bio.writeHead).writePos = _
      rw [hlast]
      show (w.bio.heap w.bio.writeHead).writePos + (w.data.take n).length = _
      omega
  have hexit (w : Writing) (r : Bio) (hw : Fresh w.bio) (hround : writeRound w = .exit r) :
      Fresh r := by
    obtain hcase | ⟨-, hcase⟩ | ⟨-, hcase⟩ | ⟨n, -, -, hcase⟩ := writeRound_cases w
    · cases hcase.symm.trans hround
    · cases hcase.symm.trans hround
      exact hw
    · cases hcase.symm.trans hround
    · cases hcase.symm.trans hround
  exact Exits.invariant hnext hexit hwrites h

lemma Fresh.runs {ws : List Bytes} {res : List Res} {s' : Bio} (h : Fresh s)
    (hruns : Runs s (ws.map .write) res s') : Fresh s' := by
  induction ws generalizing s res with
  | nil =>
    cases hruns
    exact h
  | cons data ws ih =>
    cases hruns with
    | cons first rest =>
      cases first with
      | write hwrites => exact ih (h.writes hwrites) rest

/-- A buffer with unread bytes is at the read head. -/
lemma Fresh.not_dry (h : Fresh s) : ¬ s.Dry := by
  rintro ⟨hdrained, hlength⟩
  rw [h.head, h.unread] at hdrained
  have hempty := (h.some hdrained.symm).1
  omega

/-! ### The line -/

lemma toInt_nat {n : ℕ} (h : n < 2 ^ 31) : toInt n = n := by
  have hle : ((2 ^ 32 : ℕ) : ℤ) / 2 = 2 ^ 31 := by norm_num
  have hlt : (((2 ^ 32 : ℕ) : ℤ) + 1) / 2 = 2 ^ 31 := by norm_num
  exact Int.bmod_eq_of_le (by rw [hle]; omega) (by rw [hlt]; omega)

lemma toSize_nat {n : ℕ} (h : n < 2 ^ 31) : toSize n = n := by
  rw [toSize, Int.emod_eq_of_lt (by omega) (by omega), Int.toNat_natCast]

/-- The number of bytes that `Gets` takes, by the place of the first line's end. -/
lemma getsCount_eq (hpos : 1 ≤ size) (hsize : size < 2 ^ 31) (q : Bytes) :
    getsCount size ((q.take size).findIdx (· == 10)) =
      (if q.findIdx (· == 10) + 1 < size then q.findIdx (· == 10) + 1 else size - 1 : ℕ) := by
  rw [List.findIdx_take, getsCount, toInt_nat (by omega)]
  generalize q.findIdx (· == 10) = p
  split_ifs <;> omega

lemma findIdx_lt_iff (q : Bytes) : q.findIdx (· == 10) < q.length ↔ 10 ∈ q := by
  rw [List.findIdx_lt_length]
  simp

/-- The number of bytes that it is to take. -/
lemma length_lineOf (q : Bytes) (size : ℕ) :
    (lineOf q size).length =
        (if 10 ∈ q ∧ q.findIdx (· == 10) + 1 ≤ size - 1 then q.findIdx (· == 10) + 1
          else min q.length (size - 1)) ∧
      lineOf q size = q.take (lineOf q size).length := by
  have hline (h : 10 ∈ q) : (q.take (q.findIdx (· == 10) + 1)).length =
      q.findIdx (· == 10) + 1 := by
    have hlt := (findIdx_lt_iff q).mpr h
    rw [List.length_take]
    omega
  unfold lineOf
  dsimp only
  by_cases hmem : 10 ∈ q
  · rw [hline hmem]
    split_ifs with hfits
    · exact ⟨hline hmem, by rw [hline hmem]⟩
    · rw [List.length_take]
      exact ⟨by omega, by congr 1; omega⟩
  · rw [if_neg fun h => hmem h.1, if_neg fun h => hmem h.1, List.length_take]
    exact ⟨by omega, by congr 1; omega⟩

/-- The two numbers are the same if there is a line's end, or not less than may be given. -/
lemma count_eq_iff (hpos : 1 ≤ size) :
    (if q.findIdx (· == 10) + 1 < size then q.findIdx (· == 10) + 1 else size - 1) =
      (lineOf q size).length ↔ 10 ∈ q ∨ size ≤ q.length + 1 := by
  rw [(length_lineOf q size).1]
  have hle : q.findIdx (· == 10) ≤ q.length := List.findIdx_le_length
  have hlt := findIdx_lt_iff q
  by_cases hmem : 10 ∈ q
  · have hlt' := hlt.mpr hmem
    simp only [hmem, true_and, true_or, iff_true]
    split_ifs <;> omega
  · have hge : ¬ q.findIdx (· == 10) < q.length := fun h => hmem (hlt.mp h)
    simp only [hmem, false_and, false_or, if_false]
    split_ifs <;> omega

/-- What `Gets` does to a queue that is not empty. -/
lemma Holds.getsInto (hs : Holds s q) (hdry : ¬ s.Dry) (hq : q ≠ []) (hpos : 1 ≤ size)
    (hsize : size < 2 ^ 31) (out : ℕ → UInt8) :
    let n := if q.findIdx (· == 10) + 1 < size then q.findIdx (· == 10) + 1 else size - 1
    ∃ s', GetsInto s size out n (Function.update (Memory.store out 0 (q.take n)) n 0) s' ∧
      Holds s' (q.drop n) := by
  have hcount := getsCount_eq hpos hsize q
  have hle : (if q.findIdx (· == 10) + 1 < size then q.findIdx (· == 10) + 1 else size - 1) <
      2 ^ 31 := by
    split_ifs <;> omega
  generalize (if q.findIdx (· == 10) + 1 < size then q.findIdx (· == 10) + 1 else size - 1) = n
    at hcount hle
  obtain ⟨s', hreads, hholds⟩ := hs.reads true n
  refine ⟨s', ?_, hholds⟩
  have hlength : s.length ≠ 0 := by
    rw [hs.1]
    exact List.length_pos_iff.mpr hq |>.ne'
  unfold GetsInto
  rw [if_neg hlength]
  rw [if_pos rfl, ← toSize_nat hle] at hreads
  refine ⟨_, _, _, hs.indexOf 10 fun h => hdry h.1, ?_, hreads, ?_⟩
  · rw [toSize_nat hsize, hcount]
  · rw [Int.toNat_natCast, toSize_nat hle]

/-- Writes complete, the ring has all bytes, and the read head stands where they begin. -/
lemma runs_writes (ws : List Bytes) :
    ∃ res s, Runs .new (ws.map .write) res s ∧ Holds s ws.flatten ∧ ¬ s.Dry := by
  have hspec (ws : List Bytes) (q : Bytes) :
      (specRun q (ws.map .write)).2 = q ++ ws.flatten := by
    induction ws generalizing q with
    | nil => simp [specRun]
    | cons data ws ih =>
      rw [List.map_cons, List.flatten_cons, ← List.append_assoc]
      exact ih (q ++ data)
  have hplain : ∀ op ∈ ws.map Op.write, op.Plain := by
    intro op hop
    obtain ⟨data, -, rfl⟩ := List.mem_map.mp hop
    trivial
  obtain ⟨s, hruns, hholds⟩ := holds_new.plain_runs hplain
  rw [hspec ws [], List.nil_append] at hholds
  exact ⟨_, s, hruns, hholds, (Fresh.new.runs hruns).not_dry⟩

/-- **`Gets`**: after any writes, and for any bytes of the caller, it gives the line that it is to
give, if and only if a byte is unread, and a line ends or as much is unread as may be given. -/
theorem gets_iff (ws : List Bytes) (size : ℕ) (hpos : 1 ≤ size) (hsize : size < 2 ^ 31) :
    ∃ res s, Runs .new (ws.map .write) res s ∧ Holds s ws.flatten ∧
      ((∀ out, GetsLine s ws.flatten size out) ↔
        0 < ws.flatten.length ∧ (10 ∈ ws.flatten ∨ size ≤ ws.flatten.length + 1)) := by
  obtain ⟨res, s, hruns, hholds, hdry⟩ := runs_writes ws
  refine ⟨res, s, hruns, hholds, ?_⟩
  generalize ws.flatten = q at hholds ⊢
  rcases eq_or_ne q [] with rfl | hq
  · -- nothing is written then
    simp only [List.length_nil, lt_irrefl, false_and, iff_false, not_forall]
    refine ⟨fun _ => 1, ?_⟩
    rintro ⟨s', hgets, -⟩
    have hzero : s.length = 0 := hholds.1
    have hline : lineOf [] size = [] := by
      simp [lineOf]
    rw [GetsInto, if_pos hzero, hline] at hgets
    have hterminated := congrFun hgets.2.1 0
    rw [List.length_nil, Function.update_self] at hterminated
    exact absurd hterminated (by decide)
  · have hlength := List.length_pos_iff.mpr hq
    rw [← count_eq_iff hpos]
    constructor
    · intro h
      obtain ⟨s₁, hgets, -⟩ := h fun _ => 0
      obtain ⟨s₂, hgets', -⟩ := hholds.getsInto hdry hq hpos hsize fun _ => 0
      exact ⟨hlength, by exact_mod_cast (hgets'.unique hgets).1⟩
    · rintro ⟨-, hcount⟩ out
      obtain ⟨s', hgets, hrest⟩ := hholds.getsInto hdry hq hpos hsize out
      rw [hcount] at hrest
      rw [hcount, ← (length_lineOf q size).2] at hgets
      exact ⟨s', hgets, hrest⟩

/-- A line of two bytes, with room for more. -/
theorem gets_iff_line : ∃ res s, Runs .new [.write [1], .write [10, 2]] res s ∧
    ∀ out, GetsLine s [1, 10, 2] 5 out := by
  obtain ⟨res, s, hruns, -, hiff⟩ := gets_iff [[1], [10, 2]] 5 (by decide) (by decide)
  exact ⟨res, s, hruns, hiff.mpr ⟨by decide, .inl (by decide)⟩⟩

/-- One byte that ends no line, with room for more: two are counted. -/
theorem gets_counts : ∃ res s, Runs .new [.write [65]] res s ∧
    ¬ ∀ out, GetsLine s [65] 5 out := by
  obtain ⟨res, s, hruns, hholds, hdry⟩ := runs_writes [[65]]
  refine ⟨res, s, hruns, fun h => ?_⟩
  obtain ⟨s₁, hgets, -⟩ := h fun _ => 0
  obtain ⟨s₂, hgets', -⟩ := hholds.getsInto hdry (by decide) (show 1 ≤ 5 by decide) (by decide)
    fun _ => 0
  exact absurd (hgets'.unique hgets).1 (by decide)

end NodeCore.NodeBio
