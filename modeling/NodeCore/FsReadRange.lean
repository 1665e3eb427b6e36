import Mathlib.Algebra.BigOperators.Group.List.Basic
import Mathlib.Algebra.Ring.Nat
import NodeCore.FsReadStream

/-!
The part of its file that an `fs.ReadStream` pushes.
-/

namespace NodeCore.FsReadStream

open NodeCore.Reentrant

variable {α : Type*}

/-! ### The claim -/

/-- **What is claimed.** The bytes from `start`, or the beginning, to `end` inclusive, or the end
of the file. -/
def ReadStream.range (x : ReadStream α) : List α :=
  let bytes := match x.last with
    | none => x.file.bytes
    | some e => x.file.bytes.take (e + 1).toNat
  bytes.drop (x.start.getD 0).toNat

/-- What a read at a position leaves out, of a file that is so long. -/
def Read.lost (length : ℕ) (r : Read) : ℕ :=
  min r.toRead (length - r.position.getD 0) - r.bytesRead

/-- Without a `start`, the file ends before `end`. With one, each read returns as much as it is to
read, or what is left of the file. With a `start` that is negative, the reads that are therefore
made at no position return as much as is claimed, and the others nothing. -/
def ReadStream.Fair (x : ReadStream α) : Prop :=
  match x.start with
  | none => ∀ e, x.last = some e → x.file.bytes.length ≤ (e + 1).toNat
  | some s =>
    if 0 ≤ s then ∀ r ∈ x.reads, r.lost x.file.bytes.length = 0
    else (x.reads.map Read.bytesRead).sum = x.range.length ∧
      ∀ r ∈ x.reads, r.position = none ∨ r.bytesRead = 0

/-! ### Every stream -/

variable {x y : ReadStream α} {b b' : List α} {r : Request} {k : ℕ}

/-- What holds of a stream, whatever its options are. -/
structure Told (x : ReadStream α) (b : List α) : Prop where
  idle : x.reading = false → x.request = none
  ended : x.ended = true → x.request = none
  length : b.length = (x.reads.map Read.bytesRead).sum
  pushes : ∀ r ∈ x.reads, x.ended = true ∨ 0 < r.bytesRead
  offset : x.file.offset ≤ x.file.bytes.length
  taken : (∀ r ∈ x.reads, r.position = none ∨ r.bytesRead = 0) →
    b = x.file.bytes.take x.file.offset

@[simp] lemma read_bytes (f : OpenFile α) (position : Option ℕ) (k : ℕ) :
    (f.read position k).2.bytes = f.bytes := by
  cases position <;> rfl

lemma read_take (f : OpenFile α) (hk : k ≤ left f none) :
    f.bytes.take (f.read none k).2.offset = f.bytes.take f.offset ++ (f.read none k).1 := by
  have hlength := read_length f hk
  show f.bytes.take (f.offset + (f.read none k).1.length) = _
  rw [hlength, List.take_add]
  rfl

lemma Told.got (h : Told x b) (hk : r.Returns x.file k) :
    Told (x.got r k) (b ++ (x.file.read (GET_OFFSET r.position) k).1) := by
  have hlength := read_length x.file hk.2.1
  have hreads : ∀ q ∈ (x.got r k).reads,
      q ∈ x.reads ∨ q = ⟨GET_OFFSET r.position, r.slice.length, k⟩ := fun q hq =>
    (List.mem_append.mp hq).imp_right List.mem_singleton.mp
  refine ⟨fun _ => rfl, fun _ => rfl, ?_, fun q hq => ?_, ?_, fun hall => ?_⟩
  · rw [List.length_append, hlength, h.length]
    simp [ReadStream.got]
  · rcases hreads q hq with hq | rfl
    · refine (h.pushes q hq).imp_left fun he => ?_
      simp [ReadStream.got, he]
    · rcases Nat.eq_zero_or_pos k with rfl | hk0
      · exact .inl (by simp [ReadStream.got])
      · exact .inr hk0
  · show (x.file.read _ k).2.offset ≤ (x.file.read _ k).2.bytes.length
    have hoffset := h.offset
    have hleft := hk.2.1
    cases hp : GET_OFFSET r.position with
    | some p => exact hoffset
    | none =>
      rw [hp] at hlength hleft
      show x.file.offset + (x.file.read none k).1.length ≤ x.file.bytes.length
      unfold left at hleft
      rw [Option.getD_none] at hleft
      omega
  · have hold := h.taken fun q hq => hall q (List.mem_append_left _ hq)
    have hnew := hall _ (List.mem_append_right _ (List.mem_singleton_self _))
    show _ = (x.file.read _ k).2.bytes.take (x.file.read _ k).2.offset
    rw [read_bytes, hold]
    have hleft := hk.2.1
    cases hp : GET_OFFSET r.position with
    | none =>
      rw [hp] at hleft
      exact (read_take x.file hleft).symm
    | some p =>
      rw [hp] at hnew hlength
      rcases hnew with hnew | hnew
      · cases hnew
      · obtain rfl : k = 0 := hnew
        rw [List.eq_nil_of_length_eq_zero hlength, List.append_nil]
        rfl

lemma Told.move (h : Told x b) (hm : Move x b y b') : Told y b' := by
  cases hm with
  | refl => exact h
  | destroy => exact ⟨h.idle, h.ended, h.length, h.pushes, h.offset, h.taken⟩
  | idle hidle _ => exact ⟨nofun, h.ended, h.length, h.pushes, h.offset, h.taken⟩
  | last hidle _ _ _ =>
    exact ⟨h.idle, fun _ => h.idle hidle, h.length, fun _ _ => .inl rfl, h.offset, h.taken⟩
  | ask _ hended _ _ =>
    exact ⟨nofun, fun he => (by cases hended.symm.trans he), h.length, h.pushes, h.offset, h.taken⟩
  | fail _ _ => exact ⟨fun _ => rfl, fun _ => rfl, h.length, h.pushes, h.offset, h.taken⟩
  | got _ hk => exact h.got hk

lemma Lives.told (h : Lives x b) : Told x b := by
  induction h with
  | create hc =>
    obtain ⟨rfl, -⟩ := ReadStream.create_eq hc
    exact ⟨fun _ => rfl, nofun, rfl, nofun, Nat.zero_le _, fun _ => rfl⟩
  | move _ hm ih => exact ih.move hm

/-- A stream that has not ended has pushed at least a byte for each read. -/
lemma Told.progress (h : Told x b) (hended : x.ended = false) : x.reads.length ≤ b.length := by
  rw [h.length]
  have hone : ∀ k ∈ x.reads.map Read.bytesRead, 1 ≤ k := by
    intro k hk
    obtain ⟨r, hr, rfl⟩ := List.mem_map.mp hk
    exact (h.pushes r hr).resolve_left (by simp [hended])
  simpa using List.length_le_sum_of_one_le _ hone

/-! ### Without a `start` -/

/-- All reads are made where the one before has ended. -/
structure Free (x : ReadStream α) : Prop where
  start : x.start = none
  pos : x.pos = none
  request : ∀ r, x.request = some r → r.position = none
  reads : ∀ r ∈ x.reads, r.position = none
  ended : x.ended = true → x.file.bytes.length ≤ x.file.offset

lemma Free.move (h : Free x) (ht : Told x b) (hm : Move x b y b') : Free y := by
  cases hm with
  | refl => exact h
  | destroy => exact ⟨h.start, h.pos, h.request, h.reads, h.ended⟩
  | idle _ _ => exact ⟨h.start, h.pos, h.request, h.reads, h.ended⟩
  | last _ hp _ _ => cases h.pos.symm.trans hp
  | ask _ _ _ _ =>
    refine ⟨h.start, ?_, fun r hr => ?_, h.reads, h.ended⟩
    · show x.pos.map _ = none
      rw [h.pos]
      rfl
    · obtain rfl := Option.some.inj hr
      exact h.pos
  | fail _ _ => exact ⟨h.start, h.pos, nofun, h.reads, h.ended⟩
  | @got r k hr hk =>
    have hposition : GET_OFFSET r.position = none := by
      rw [h.request r hr]
      rfl
    refine ⟨h.start, h.pos, nofun, fun q hq => ?_, fun hended => ?_⟩
    · rcases List.mem_append.mp hq with hq | hq
      · exact h.reads q hq
      · rw [List.mem_singleton.mp hq]
        exact hposition
    · show (x.file.read _ k).2.bytes.length ≤ (x.file.read _ k).2.offset
      have hlength := read_length x.file hk.2.1
      obtain ⟨-, -, hzero⟩ := hk
      rw [hposition] at hlength hzero ⊢
      show x.file.bytes.length ≤ x.file.offset + (x.file.read none k).1.length
      have hopen : x.ended = false := by
        refine Bool.eq_false_iff.mpr fun he => ?_
        cases (ht.ended he).symm.trans hr
      have hk0 : k = 0 := by simpa [ReadStream.got, hopen] using hended
      have hleft := hzero hk0
      unfold left at hleft
      rw [Option.getD_none] at hleft
      omega

lemma Lives.free (h : Lives x b) (hstart : x.start = none) : Free x := by
  induction h with
  | create hc =>
    obtain ⟨rfl, -⟩ := ReadStream.create_eq hc
    exact ⟨hstart, hstart, nofun, nofun, nofun⟩
  | @move x y b b' hl hm ih =>
    have hx : x.start = none := by
      cases hm <;> exact hstart
    exact (ih hx).move hl.told hm

/-- It pushes the whole file. -/
lemma Free.data (h : Free x) (ht : Told x b) (hended : x.ended = true) : b = x.file.bytes := by
  rw [ht.taken fun r hr => .inl (h.reads r hr), List.take_of_length_le (h.ended hended)]

/-! ### With a `start` that is not negative -/

/-- A part of a list and what comes behind it. -/
lemma drop_take_add (l : List α) {s q : ℕ} (h : s ≤ q) (n : ℕ) :
    (l.take (q + n)).drop s = (l.take q).drop s ++ (l.drop q).take n := by
  have hq : s + (q - s) = q := by omega
  rw [List.drop_take, List.drop_take, show q + n - s = q - s + n by omega, List.take_add,
    List.drop_drop, hq]

/-- What the reads have left out. -/
def ReadStream.lost (x : ReadStream α) : ℕ := (x.reads.map (Read.lost x.file.bytes.length)).sum

/-- The stream has read, or left out, what lies between `s` and `q`. -/
structure Placed (s q : ℕ) (x : ReadStream α) (b : List α) : Prop where
  start : x.start = some (s : ℤ)
  le : s ≤ q
  place : (x.request = none ∧ x.pos = some (q : ℤ)) ∨
    ∃ r, x.request = some r ∧ r.position = some (q : ℤ) ∧ x.pos = some (q + r.slice.length : ℤ)
  last : ∀ p e, x.pos = some p → x.last = some e → p ≤ e + 1
  length : b.length + x.lost = min q x.file.bytes.length - min s x.file.bytes.length
  whole : x.lost = 0 → b = (x.file.bytes.take q).drop s
  ended : x.ended = true → x.file.bytes.length ≤ q ∨ ∃ e, x.last = some e ∧ e < q

/-- It will never push again: it has been destroyed, or a read has failed. -/
def Stuck (x : ReadStream α) : Prop := x.reading = true ∧ x.request = none ∧ x.ended = false

lemma Stuck.move (h : Stuck x) (hm : Move x b y b') : Stuck y := by
  obtain ⟨hreading, hrequest, hended⟩ := h
  cases hm with
  | refl => exact ⟨hreading, hrequest, hended⟩
  | destroy => exact ⟨hreading, hrequest, hended⟩
  | idle hidle _ => cases hreading.symm.trans hidle
  | last hidle _ _ _ => cases hreading.symm.trans hidle
  | ask hidle _ _ _ => cases hreading.symm.trans hidle
  | fail hr _ => cases hrequest.symm.trans hr
  | got hr _ => cases hrequest.symm.trans hr

/-- A stream that waits for a read is reading, and has not ended. -/
lemma Told.busy (h : Told x b) (hr : x.request = some r) : x.reading = true ∧ x.ended = false := by
  constructor
  · refine Bool.of_not_eq_false fun hidle => ?_
    cases (h.idle hidle).symm.trans hr
  · refine Bool.eq_false_iff.mpr fun hended => ?_
    cases (h.ended hended).symm.trans hr

namespace Placed

variable {s q : ℕ}

/-- A stream that waits for no read is at `q`. -/
lemma at_rest (h : Placed s q x b) (hrequest : x.request = none) : x.pos = some (q : ℤ) := by
  obtain ⟨-, hpos⟩ | ⟨r, hr, -⟩ := h.place
  · exact hpos
  · cases hrequest.symm.trans hr

lemma got (h : Placed s q x b) (ht : Told x b) (hr : x.request = some r)
    (hk : r.Returns x.file k) :
    Placed s (q + r.slice.length) (x.got r k)
      (b ++ (x.file.read (GET_OFFSET r.position) k).1) := by
  have hb := read_length x.file hk.2.1
  obtain ⟨hnone, -⟩ | ⟨r', hr', hposition, hpos⟩ := h.place
  · cases hnone.symm.trans hr
  obtain rfl := Option.some.inj (hr.symm.trans hr')
  have hoffset : GET_OFFSET r.position = some q := by
    rw [hposition]
    show (if (q : ℤ) < 0 then none else some (q : ℤ).toNat) = _
    rw [if_neg (Int.not_lt.mpr (Int.natCast_nonneg q))]
    rfl
  obtain ⟨hlen, hleft, hzero⟩ := hk
  rw [hoffset] at hb hleft hzero ⊢
  unfold left at hleft hzero
  rw [Option.getD_some] at hleft hzero
  have hbytes : (x.got r k).file.bytes = x.file.bytes := read_bytes _ _ _
  have hlost : (x.got r k).lost =
      x.lost + (min r.slice.length (x.file.bytes.length - q) - k) := by
    unfold ReadStream.lost ReadStream.got
    rw [hoffset]
    show List.sum (List.map _ (x.reads ++ [_])) = _
    rw [List.map_append, List.sum_append]
    rfl
  refine ⟨h.start, Nat.le_add_right_of_le h.le, .inl ⟨rfl, ?_⟩, h.last, ?_, fun hw => ?_,
    fun hended => .inl ?_⟩
  · exact hpos
  · have hlength := h.length
    have hle := h.le
    rw [hlost, hbytes, List.length_append, hb]
    omega
  · rw [hlost] at hw
    have hwhole := h.whole (by omega)
    rw [hbytes, drop_take_add _ h.le, hwhole]
    refine congrArg _ ?_
    show (x.file.bytes.drop q).take k = _
    rw [List.take_eq_take_iff, List.length_drop]
    omega
  · have hk0 : k = 0 := by simpa [ReadStream.got, (ht.busy hr).2] using hended
    have := hzero hk0
    rw [hbytes]
    omega

lemma move (h : Placed s q x b) (ht : Told x b) (hm : Move x b y b') :
    Stuck y ∨ ∃ q', Placed s q' y b' := by
  cases hm with
  | refl => exact .inr ⟨q, h⟩
  | destroy => exact .inr ⟨q, h.start, h.le, h.place, h.last, h.length, h.whole, h.ended⟩
  | idle hidle hended => exact .inl ⟨rfl, ht.idle hidle, hended⟩
  | last hidle hp he hlt =>
    have hpos := h.at_rest (ht.idle hidle)
    obtain rfl := Option.some.inj (hp.symm.trans hpos)
    exact .inr ⟨q, h.start, h.le, h.place, h.last, h.length, h.whole, fun _ => .inr ⟨_, he, hlt⟩⟩
  | ask hidle hended hslice hlast =>
    have hpos := h.at_rest (ht.idle hidle)
    refine .inr ⟨q, h.start, h.le, .inr ⟨_, rfl, hpos, ?_⟩, fun p e hp he => ?_, h.length, h.whole,
      h.ended⟩
    · show x.pos.map _ = _
      rw [hpos]
      rfl
    · have hp' : x.pos.map _ = some p := hp
      rw [hpos] at hp'
      obtain rfl := Option.some.inj hp'
      exact hlast q e hpos he
  | fail hr _ => exact .inl ⟨(ht.busy hr).1, rfl, (ht.busy hr).2⟩
  | got hr hk => exact .inr ⟨_, h.got ht hr hk⟩

end Placed

lemma Lives.placed {s : ℕ} (h : Lives x b) (hstart : x.start = some (s : ℤ)) :
    Stuck x ∨ ∃ q, Placed s q x b := by
  induction h with
  | create hc =>
    obtain ⟨rfl, hle⟩ := ReadStream.create_eq hc
    obtain rfl : _ = some (s : ℤ) := hstart
    refine .inr ⟨s, rfl, Nat.le_refl s, .inl ⟨rfl, rfl⟩, fun p e hp he => ?_, ?_, fun _ => ?_,
      nofun⟩
    · have hse := hle s e rfl he
      obtain rfl := Option.some.inj hp
      omega
    · exact (Nat.sub_self _).symm
    · exact (List.drop_eq_nil_of_le (List.length_take_le s _)).symm
  | @move x y b b' hl hm ih =>
    have hx : x.start = some (s : ℤ) := by
      cases hm <;> exact hstart
    obtain hstuck | ⟨q, h⟩ := ih hx
    · exact .inl (hstuck.move hm)
    · exact h.move hl.told hm

lemma Placed.range_eq {s q : ℕ} (h : Placed s q x b) (hrest : x.request = none)
    (hended : x.ended = true) : x.range = (x.file.bytes.take q).drop s := by
  have hpos := h.at_rest hrest
  have hend := h.ended hended
  unfold ReadStream.range
  rw [h.start]
  refine congrArg (List.drop s) ?_
  split
  · next hlast =>
    obtain hlong | ⟨e, he, -⟩ := hend
    · exact (List.take_of_length_le hlong).symm
    · cases hlast.symm.trans he
  · next e hlast =>
    have hle := h.last q e hpos hlast
    rw [List.take_eq_take_iff]
    obtain hlong | ⟨e', he, hlt⟩ := hend
    · omega
    · obtain rfl := Option.some.inj (hlast.symm.trans he)
      omega

/-- It pushes its range if and only if no read has left anything out. -/
lemma Placed.data_iff {s q : ℕ} (h : Placed s q x b) (hrest : x.request = none)
    (hended : x.ended = true) : b = x.range ↔ x.lost = 0 := by
  have hrange := h.range_eq hrest hended
  constructor
  · intro hb
    have hlength := h.length
    have hlen := congrArg List.length (hb.trans hrange)
    rw [List.length_drop, List.length_take] at hlen
    have hle := h.le
    omega
  · intro hlost
    rw [hrange]
    exact h.whole hlost

/-! ### The claim, settled -/

/-- A process at some time of its run. -/
structure Process (α : Type*) where
  memory : ℕ → ℕ → α
  state : State α
  run : Runs (init memory) state

/-- **The chunks keep their bytes**, a stream that has not ended pushes something with each read,
and when it has ended it has pushed its range if it is fair; unless `start` is negative, only
then. -/
theorem ranged_iff (p : Process α) :
    (∀ t, Runs p.state t → ∀ i x, p.state.streams i = some x →
      ∃ y, t.streams i = some y ∧ x.pushed <+: y.pushed ∧
        ∀ c ∈ x.pushed, t.content c = p.state.content c) ∧
    ∀ i x, p.state.streams i = some x →
      (x.ended = false → x.reads.length ≤ (p.state.data x).length) ∧
      (x.ended = true → (x.Fair → p.state.data x = x.range) ∧
        ((∀ s, x.start = some s → 0 ≤ s) → p.state.data x = x.range → x.Fair)) := by
  refine ⟨fun t ht i x hx => chunks_kept (kept_of_run (kept_init _) p.run) ht hx, fun i x hx => ?_⟩
  have hlives := lives p.run hx
  have htold := hlives.told
  refine ⟨htold.progress, fun hended => ?_⟩
  have hrest := htold.ended hended
  unfold ReadStream.Fair
  cases hstart : x.start with
  | none =>
    have hdata := (hlives.free hstart).data htold hended
    have hrange : x.range = match x.last with
        | none => x.file.bytes
        | some e => x.file.bytes.take (e + 1).toNat := by
      unfold ReadStream.range
      rw [hstart]
      rfl
    rw [hdata, hrange]
    dsimp only
    refine ⟨fun hfair => ?_, fun _ heq e he => ?_⟩
    · split
      · rfl
      · next e he => exact (List.take_of_length_le (hfair e he)).symm
    · rw [he] at heq
      exact List.take_eq_self_iff _ |>.mp heq.symm
  | some s =>
    dsimp only
    split_ifs with hs
    · obtain ⟨s, rfl⟩ := Int.eq_ofNat_of_zero_le hs
      obtain hstuck | ⟨q, hplaced⟩ := hlives.placed hstart
      · cases hstuck.2.2.symm.trans hended
      have hiff : x.lost = 0 ↔ ∀ r ∈ x.reads, r.lost x.file.bytes.length = 0 := by
        simp [ReadStream.lost, List.sum_eq_zero_iff]
      rw [← hiff, hplaced.data_iff hrest hended]
      exact ⟨id, fun _ => id⟩
    · refine ⟨fun hfair => ?_, fun hpos => absurd (hpos s rfl) hs⟩
      obtain ⟨hsum, hreads⟩ := hfair
      have htaken := htold.taken hreads
      have hlength : (p.state.data x).length = x.range.length := htold.length.trans hsum
      have hpre : x.range <+: x.file.bytes := by
        unfold ReadStream.range
        rw [hstart, show (Option.getD (some s) 0).toNat = 0 by rw [Option.getD_some]; omega,
          List.drop_zero]
        split
        · exact List.prefix_refl _
        · exact List.take_prefix _ _
      have hdata : p.state.data x <+: x.file.bytes := htaken ▸ List.take_prefix _ _
      exact List.IsPrefix.eq_of_length (List.prefix_of_prefix_length_le hdata hpre hlength.le)
        hlength

/-- A file of three bytes, of which the first read returns one. -/
def shortRead : List (Act UInt8) :=
  [.create 0 (some 0) none true [1, 2, 3], .read 0 65536, .onread 0 (some 1), .read 0 65536,
    .onread 0 (some 0)]

/-- The other two are not read. -/
theorem not_ranged_shortRead : ∃ p : Process UInt8, ∃ x, p.state.streams 0 = some x ∧
    x.ended = true ∧ p.state.data x ≠ x.range := by
  obtain ⟨s, hs, hx⟩ : ∃ s, Runs (init fun _ _ => (0 : UInt8)) s ∧
      (s.streams 0).map (fun x => (x.ended, decide (s.data x = x.range))) = some (true, false) :=
    ⟨_, Run.of_foldlM (w := shortRead) rfl, rfl⟩
  obtain ⟨x, hx, heq⟩ := Option.map_eq_some_iff.mp hx
  obtain ⟨hended, hdata⟩ := Prod.mk.inj heq
  exact ⟨⟨_, s, hs⟩, x, hx, hended, of_decide_eq_false hdata⟩

end NodeCore.FsReadStream
