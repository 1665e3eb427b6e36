import NodeCore.PipeFanOut

/-!
A destination that is full receives nothing from the source until it drains.
-/

namespace NodeCore.Pipe

open NodeCore.Reentrant

variable {α : Type} {s t : State α} {k : List (Frame α)}

/-! ### Drains that are owed -/

/-- The destination that a frame is writing to. -/
def Frame.own : Frame α → Option ℕ
  | .write _ d _ => some d
  | _ => none

/-- The destinations that are told that they have been unpiped, of those that owed a drain. -/
def Frame.leaves : Frame α → ℕ
  | .unpiped _ owed => owed.toNat
  | .unpipeAll dests => dests.countP (·.2)
  | _ => 0

def leaving (k : List (Frame α)) : ℕ := (k.map Frame.leaves).sum

@[simp] lemma leaving_nil : leaving ([] : List (Frame α)) = 0 := rfl

@[simp] lemma leaving_cons (f : Frame α) : leaving (f :: k) = f.leaves + leaving k :=
  List.sum_cons

/-- What the destinations that are unpiped owe goes with them. -/
lemma settle_leave {l : List ℕ} (hl : l.Nodup) :
    (s.settle l).owing.length + (s.leave l).countP (·.2) ≤ s.owing.length := by
  have hleave : (s.leave l).countP (·.2) = (l.filter fun d => decide (d ∈ s.owing)).length := by
    unfold State.leave
    rw [List.countP_map, List.countP_eq_length_filter]
    rfl
  have hsub : (l.filter fun d => decide (d ∈ s.owing)) ⊆ s.owing.filter (· ∈ l) := by
    intro d hd
    rw [List.mem_filter, decide_eq_true_eq] at hd ⊢
    exact hd.symm
  have hle : (l.filter fun d => decide (d ∈ s.owing)).length ≤ (s.owing.filter (· ∈ l)).length :=
    (List.subperm_of_subset (hl.filter _) hsub).length_le
  have hsum := List.length_eq_length_filter_add (l := s.owing) (· ∈ l)
  have hnot : (s.settle l).owing = s.owing.filter fun d => !decide (d ∈ l) :=
    List.filter_congr fun d _ => by simp
  rw [hnot, hleave]
  omega

lemma settle_lt {d : ℕ} (hd : d ∈ s.owing) : (s.settle [d]).owing.length < s.owing.length :=
  List.length_filter_lt_length_iff_exists.mpr ⟨d, hd, by simp⟩

/-! ### The invariant -/

/-- `awaitDrain` counts the drains that are owed, `flow` reads when there are none, and no round
comes to a destination that owes one. -/
structure Held (s : State α) (k : List (Frame α)) : Prop where
  laid : Laid s k
  enough : s.ended = true ∨ (s.owing.length + leaving k : ℤ) ≤ s.awaitDrain
  reading : ∀ f ∈ k, f.isRead = true → s.ended = true ∨ s.owing = []
  apart : ∀ f ∈ k, ∀ d ∈ toCome s f, d ∉ s.owing ∧ f.own ≠ some d
  /-- A chunk is written when no round is under way and no chunk is being read. -/
  single : k.Pairwise fun f g => f.own ≠ none → toCome s g = [] ∧ g.isRead = false
  overrun : s.overrun = []

namespace Held

/-- Rounds that come to no more destinations. -/
lemma of_rounds (h : Held s k) (hlaid : Laid t k) (hcome : ∀ f ∈ k, toCome t f ⊆ toCome s f)
    (hawait : t.awaitDrain = s.awaitDrain) (hended : t.ended = s.ended)
    (howing : t.owing = s.owing) (hoverrun : t.overrun = s.overrun) : Held t k := by
  refine ⟨hlaid, ?_, ?_, fun f hf d hd => ?_, ?_, hoverrun.trans h.overrun⟩
  · rw [hended, howing, hawait]
    exact h.enough
  · rw [hended, howing]
    exact h.reading
  · rw [howing]
    exact h.apart f hf d (hcome f hf hd)
  · refine h.single.imp_of_mem fun {f g} _ hg hfg hf => ⟨?_, (hfg hf).2⟩
    exact List.subset_nil.mp ((hfg hf).1 ▸ hcome g hg)

/-- Flags and chunks are not looked at. -/
lemma congr (h : Held s k) (hpipes : t.pipes = s.pipes) (harrays : t.arrays = s.arrays)
    (hnext : t.nextArray = s.nextArray) (hawait : t.awaitDrain = s.awaitDrain)
    (hended : t.ended = s.ended) (howing : t.owing = s.owing) (hoverrun : t.overrun = s.overrun) :
    Held t k := by
  refine h.of_rounds (h.laid.congr hpipes harrays hnext) (fun f _ => ?_) hawait hended howing
    hoverrun
  unfold toCome
  rw [harrays]
  exact List.Subset.refl _

/-- A frame is left. -/
lemma tail {f : Frame α} (h : Held s (f :: k)) : Held s k := by
  refine ⟨h.laid.tail, ?_, fun g hg => h.reading g (List.mem_cons_of_mem f hg),
    fun g hg => h.apart g (List.mem_cons_of_mem f hg), (List.pairwise_cons.mp h.single).2,
    h.overrun⟩
  refine h.enough.imp_right fun hle => ?_
  rw [leaving_cons] at hle
  push_cast at hle
  omega

/-- A frame is entered that writes nothing. -/
lemma cons {f : Frame α} (h : Held s k) (heach : f.each = none) (hown : f.own = none)
    (hread : f.isRead = true → s.ended = true ∨ s.owing = [])
    (henough : s.ended = true ∨ (s.owing.length + leaving (f :: k) : ℤ) ≤ s.awaitDrain) :
    Held s (f :: k) := by
  refine ⟨h.laid.cons fun e he => ?_, henough, List.forall_mem_cons.mpr ⟨hread, h.reading⟩,
    List.forall_mem_cons.mpr ⟨fun d hd => ?_, h.apart⟩,
    List.pairwise_cons.mpr ⟨fun g _ hne => absurd hown hne, h.single⟩, h.overrun⟩
  · rw [heach] at he
    cases he
  · rw [toCome_nil heach] at hd
    cases hd

/-- A frame that tells nobody that it has been unpiped. -/
lemma cons_plain {f : Frame α} (h : Held s k) (heach : f.each = none) (hown : f.own = none)
    (hread : f.isRead = false) (hleaves : f.leaves = 0) : Held s (f :: k) := by
  refine h.cons heach hown (fun hf => by rw [hread] at hf; cases hf) ?_
  rw [leaving_cons, hleaves, Nat.zero_add]
  exact h.enough

/-! ### Rounds -/

/-- A destination that is full owes a drain. -/
lemma written {c : α} {d : ℕ} {e : Option Each} (h : Held s (.write c d e :: k)) (full : Bool) :
    Held (s.written d full) (.write c d e :: k) := by
  unfold State.written
  split_ifs
  · obtain ⟨htop, hbelow⟩ := List.forall_mem_cons.mp h.apart
    obtain ⟨hfirst, _⟩ := List.pairwise_cons.mp h.single
    have hlow (g : Frame α) (hg : g ∈ k) : toCome s g = [] ∧ g.isRead = false :=
      hfirst g hg (by simp [Frame.own])
    refine ⟨h.laid.congr rfl rfl rfl, ?_, List.forall_mem_cons.mpr ⟨nofun, fun g hg hread => ?_⟩,
      List.forall_mem_cons.mpr ⟨fun x hx => ?_, fun g hg x hx => ?_⟩, h.single, h.overrun⟩
    · refine h.enough.imp_right fun hle => ?_
      show ((s.owing ++ [d]).length + leaving _ : ℤ) ≤ s.awaitDrain + 1
      rw [List.length_append, List.length_singleton]
      push_cast
      omega
    · rw [(hlow g hg).2] at hread
      cases hread
    · obtain ⟨hnot, hown⟩ := htop x hx
      have hne : x ≠ d := fun heq => hown (by rw [heq]; rfl)
      exact ⟨by simp [hnot, hne], hown⟩
    · have hnil : x ∈ toCome s g := hx
      rw [(hlow g hg).1] at hnil
      cases hnil
  · exact h

/-- A destination that owes no drain is written to. -/
lemma give (h : Held s k) {c : α} {d : ℕ} {e : Option Each}
    (hlow : ∀ g ∈ k, toCome s g = [] ∧ g.isRead = false) (hout : d ∉ s.owing)
    (hmade : ∀ e' ∈ e, e'.array < s.nextArray)
    (hround : ∀ x ∈ toCome s (.write c d e), x ∉ s.owing ∧ x ≠ d) :
    Held (s.give c d) (.write c d e :: k) := by
  have hlaid : Laid (s.give c d) k := h.laid.congr rfl rfl rfl
  refine ⟨hlaid.cons hmade, ?_, List.forall_mem_cons.mpr ⟨nofun, h.reading⟩,
    List.forall_mem_cons.mpr ⟨fun x hx => ?_, h.apart⟩,
    List.pairwise_cons.mpr ⟨fun g hg _ => hlow g hg, h.single⟩, ?_⟩
  · rw [leaving_cons, show Frame.leaves (.write c d e) = 0 from rfl, Nat.zero_add]
    exact h.enough
  · obtain ⟨hnot, hne⟩ := hround x hx
    exact ⟨hnot, fun heq => hne (Option.some.inj heq).symm⟩
  · show (if d ∈ s.owing then s.overrun ++ [d] else s.overrun) = []
    rw [if_neg hout]
    exact h.overrun

/-- The next destination of a round. -/
lemma each (h : Held s k) {c : α} {e : Each}
    (hlow : ∀ g ∈ k, toCome s g = [] ∧ g.isRead = false) (hmade : e.array < s.nextArray)
    (hround : ∀ x ∈ ((s.arrays e.array).take e.length).drop e.index, x ∉ s.owing) :
    (s.each c e).Keeps Held k := by
  set l := (s.arrays e.array).take e.length with hl
  unfold State.each
  rw [← hl]
  cases hget : l[e.index]? with
  | none =>
    have hdata : Held s (.data :: k) := h.cons_plain rfl rfl rfl rfl
    exact hdata
  | some d =>
    obtain ⟨hlt, hd⟩ := List.getElem?_eq_some_iff.mp hget
    have hdrop : l.drop e.index = d :: l.drop (e.index + 1) := by
      rw [← hd]
      exact List.drop_eq_getElem_cons hlt
    have hnodup : (l.drop e.index).Nodup :=
      ((h.laid.nodup e.array).sublist (List.take_sublist _ _)).sublist (List.drop_sublist _ _)
    rw [hdrop] at hround hnodup
    obtain ⟨hout, hrest⟩ := List.forall_mem_cons.mp hround
    have hgiven : Held (s.give c d) (.write c d (some { e with index := e.index + 1 }) :: k) := by
      refine h.give hlow hout (fun e' he => ?_) fun x hx => ⟨hrest x hx, fun heq => ?_⟩
      · cases he
        exact hmade
      · exact (List.nodup_cons.mp hnodup).1 (heq ▸ hx)
    exact hgiven

/-- A chunk is read when no drain is owed, no round is under way and no other chunk is being
read. -/
lemma deliver (h : Held s k) (howing : s.owing = [])
    (hlow : ∀ f ∈ k, toCome s f = [] ∧ f.isRead = false) (c : α) :
    (s.deliver c).Keeps Held k := by
  have hdue : Held (s.dueAll c) k := h.congr rfl rfl rfl rfl rfl rfl rfl
  have hfree (x : ℕ) : x ∉ (s.dueAll c).owing := by
    show x ∉ s.owing
    rw [howing]
    exact List.not_mem_nil
  unfold State.deliver
  dsimp only
  split
  · exact hdue
  · next d _ =>
    have hgiven : Held ((s.dueAll c).give c d) (.write c d none :: k) :=
      hdue.give hlow (hfree d) nofun nofun
    exact hgiven
  · next a hmany => exact hdue.each hlow (h.laid.current a hmany) fun x _ => hfree x

/-! ### `flow` -/

lemma flowLoop (h : Held s k) (hnone : s.ended = true ∨ s.owing = []) :
    s.flowLoop.Keeps Held k := by
  unfold State.flowLoop
  split_ifs
  · exact h.congr rfl rfl rfl rfl rfl rfl rfl
  · have hread : Held s (.read :: k) := by
      refine h.cons rfl rfl (fun _ => hnone) ?_
      rw [leaving_cons, show Frame.leaves (.read : Frame α) = 0 from rfl, Nat.zero_add]
      exact h.enough
    exact hread

/-- `flow` is started when no drain is owed. -/
lemma flow (h : Held s k) (hnone : s.ended = true ∨ s.owing = [] ∧ leaving k = 0) :
    s.flow.Keeps Held k := by
  have hzero : Held { s with awaitDrain := 0 } k := by
    refine ⟨h.laid.congr rfl rfl rfl, hnone.imp_right fun hnone => ?_, h.reading, h.apart,
      h.single, h.overrun⟩
    rw [hnone.1, hnone.2]
    simp
  exact hzero.flowLoop (hnone.imp_right And.left)

lemma drained (h : Held s k) : s.drained.Keeps Held k := by
  unfold State.drained
  split_ifs
  · exact h.congr rfl rfl rfl rfl rfl rfl rfl
  · exact h.congr rfl rfl rfl rfl rfl rfl rfl

/-- A drain that was counted. -/
lemma ondrain (h : Held s k)
    (hmore : s.ended = true ∨ (s.owing.length + leaving k + 1 : ℤ) ≤ s.awaitDrain) :
    s.ondrain.Keeps Held k := by
  have hless : Held { s with awaitDrain := s.awaitDrain - 1 } k := by
    refine ⟨h.laid.congr rfl rfl rfl, hmore.imp_right fun hle => ?_, h.reading, h.apart,
      h.single, h.overrun⟩
    show (s.owing.length + leaving k : ℤ) ≤ s.awaitDrain - 1
    omega
  unfold State.ondrain
  dsimp only
  split_ifs with hlast
  · refine hless.flow (hmore.imp_right fun hle => ?_)
    have hnone : s.owing.length = 0 ∧ leaving k = 0 := by omega
    exact ⟨List.length_eq_zero_iff.mp hnone.1, hnone.2⟩
  · exact hless

lemma cleanup (h : Held s k) {waits : Bool} (hmore : waits = true →
    s.ended = true ∨ (s.owing.length + leaving k + 1 : ℤ) ≤ s.awaitDrain) :
    (s.cleanup waits).Keeps Held k := by
  unfold State.cleanup
  split_ifs with hwaits
  · exact h.ondrain (hmore hwaits)
  · exact h

/-- The destinations that are told were counted. -/
lemma tell (h : Held s k) {dests : List (ℕ × Bool)}
    (hmore : s.ended = true ∨
      (s.owing.length + leaving k + dests.countP (·.2) : ℤ) ≤ s.awaitDrain) :
    (s.tell dests).Keeps Held k := by
  cases dests with
  | nil => exact h
  | cons d rest =>
    have hrest : Held s (.unpipeAll rest :: k) := by
      refine h.cons rfl rfl nofun (hmore.imp_right fun hle => ?_)
      rw [List.countP_cons] at hle
      simp only [leaving_cons, Frame.leaves]
      push_cast at hle ⊢
      omega
    have htold : Held s (.unpiped d.1 d.2 :: .unpipeAll rest :: k) := by
      refine hrest.cons rfl rfl nofun (hmore.imp_right fun hle => ?_)
      rw [List.countP_cons] at hle
      simp only [leaving_cons, Frame.leaves, Bool.toNat]
      cases hd : d.2 <;> simp [hd] at hle ⊢ <;> omega
    exact htold

end Held

/-- What may be returned to a frame: a chunk is read when no round is under way and no other chunk
is being read, and only a destination that owed a drain is taken to wait for one. -/
def Fits (s : State α) (chunk : Option α) (full : Bool) : List (Frame α) → Prop
  | .read :: k => chunk = none ∨ ∀ g ∈ k, toCome s g = [] ∧ g.isRead = false
  | .unpiped _ false :: _ => full = true → s.ended = true
  | _ => True

namespace Held

/-- Foreign code returns to `pipe`, `unpipe` or `flow`. -/
lemma exec {f : Frame α} {chunk : Option α} {full : Bool} (h : Held s (f :: k))
    (hfits : Fits s chunk full (f :: k))
    (hlive : f.isRead = true → chunk ≠ none → s.ended = false) :
    (exec chunk full s f).Keeps Held k := by
  have hin := h.tail
  cases f with
  | piped =>
    show s.startFlow.Keeps Held k
    unfold State.startFlow
    split_ifs
    · exact hin
    · have hlisten : Held s (.listening :: k) := hin.cons_plain rfl rfl rfl rfl
      exact hlisten
  | listening => exact hin.congr rfl rfl rfl rfl rfl rfl rfl
  | read =>
    cases chunk with
    | none => exact hin.drained
    | some c =>
      have hended := hlive rfl nofun
      have howing := (h.reading .read List.mem_cons_self rfl).resolve_left (by simp [hended])
      exact hin.deliver howing (hfits.resolve_left nofun) c
  | write c d e =>
    have hwritten := h.written full
    cases e with
    | none =>
      have hdata : Held (s.written d full) (.data :: k) := hwritten.tail.cons_plain rfl rfl rfl rfl
      exact hdata
    | some e =>
      obtain ⟨htop, _⟩ := List.forall_mem_cons.mp hwritten.apart
      obtain ⟨hlow, _⟩ := List.pairwise_cons.mp hwritten.single
      exact hwritten.tail.each (fun g hg => hlow g hg nofun)
        (hwritten.laid.made _ List.mem_cons_self e rfl) fun x hx => (htop x hx).1
  | data =>
    show s.nextChunk.Keeps Held k
    unfold State.nextChunk
    split_ifs with hwait
    · exact hin
    · refine hin.flowLoop (hin.enough.imp_right fun hle => ?_)
      exact List.length_eq_zero_iff.mp (by omega)
  | unpiped d owed =>
    refine hin.cleanup fun hfull => ?_
    cases owed with
    | false => exact .inl (hfits hfull)
    | true =>
      refine h.enough.imp_right fun hle => ?_
      rw [leaving_cons] at hle
      push_cast [Frame.leaves, Bool.toNat] at hle
      simp at hle
      omega
  | unpipeAll dests =>
    refine hin.tell (h.enough.imp_right fun hle => ?_)
    rw [leaving_cons] at hle
    push_cast [Frame.leaves] at hle
    omega
  | boundary => exact hin

/-! ### `pipe` and `unpipe` -/

lemma settle (h : Held s k) (l : List ℕ) : Held (s.settle l) k := by
  refine ⟨h.laid.congr rfl rfl rfl, h.enough.imp_right fun hle => ?_, fun f hf hread => ?_,
    fun f hf d hd => ?_, h.single, h.overrun⟩
  · have hfilter : (s.settle l).owing.length ≤ s.owing.length := List.length_filter_le ..
    show (_ : ℤ) ≤ s.awaitDrain
    omega
  · refine (h.reading f hf hread).imp_right fun hnil => ?_
    show s.owing.filter _ = []
    rw [hnil]
    rfl
  · obtain ⟨hnot, hown⟩ := h.apart f hf d hd
    exact ⟨fun hmem => hnot (List.mem_of_mem_filter hmem), hown⟩

lemma removeAll (h : Held s k) : Held s.removeAll k :=
  h.of_rounds h.laid.removeAll (fun _ _ => List.Subset.refl _) rfl rfl rfl rfl

lemma remove (h : Held s k) {d : ℕ} (hcome : ∀ f ∈ k, toCome (s.remove d) f ⊆ toCome s f) :
    Held (s.remove d) k := by
  have hlaid := h.laid.remove d
  obtain ⟨pipes, arrays, flowing, hremove, -, -⟩ := s.remove_frame d
  rw [hremove] at hcome hlaid ⊢
  exact h.of_rounds hlaid hcome rfl rfl rfl rfl

lemma push (h : Held s k) {d : ℕ} (hd : d ∉ s.dests)
    (hcome : ∀ f ∈ k, toCome (s.push d) f ⊆ toCome s f) : Held (s.push d) k := by
  have hlaid := h.laid.push hd
  obtain ⟨pipes, arrays, next, hpush, -, -, -⟩ := s.push_frame d
  rw [hpush] at hcome hlaid ⊢
  exact h.of_rounds hlaid hcome rfl rfl rfl rfl

/-- Destinations that leave with what they owe. -/
lemma depart (h : Held t k) {l : List ℕ} (hl : l.Nodup) (howing : t.owing = s.owing) :
    ((t.settle l).tell (s.leave l)).Keeps Held k := by
  refine (h.settle l).tell (h.enough.imp_right fun hle => ?_)
  have hleave := settle_leave (s := t) hl
  have hsame : s.leave l = t.leave l := by
    unfold State.leave
    rw [howing]
  rw [hsame]
  show (_ : ℤ) ≤ t.awaitDrain
  omega

lemma unpipe (h : Held s k) {dest : Option ℕ} (hcome : ∀ d ∈ dest, d ∈ s.dests →
    ∀ f ∈ k, toCome (s.remove d) f ⊆ toCome s f) : (s.unpipe dest).Keeps Held k := by
  unfold State.unpipe
  split
  · exact h
  · exact h.removeAll.depart h.laid.distinct rfl
  · next d _ =>
    split_ifs with hin
    · refine (h.remove (hcome d rfl hin)).depart (List.nodup_singleton d) ?_
      obtain ⟨pipes, arrays, flowing, hremove, -, -⟩ := s.remove_frame d
      rw [hremove]
    · exact h

lemma pipe (h : Held s k) {d : ℕ} (hd : d ∉ s.dests)
    (hcome : ∀ f ∈ k, toCome (s.push d) f ⊆ toCome s f) : (s.pipe d).Keeps Held k := by
  have hfresh : Held ((s.push d).fresh d) k := (h.push hd hcome).congr rfl rfl rfl rfl rfl rfl rfl
  have hpiped : Held ((s.push d).fresh d) (.piped :: k) := hfresh.cons_plain rfl rfl rfl rfl
  exact hpiped

lemma resume (h : Held s k) :
    Held (Reentrant.resume (Pipe.exec none false) Frame.isBoundary s k).st
      (Reentrant.resume (Pipe.exec none false) Frame.isBoundary s k).stack := by
  refine resume_keeps (fun s f k _ h => h.exec ?_ fun _ hne => absurd rfl hne)
    (fun _ _ _ _ h => h.tail) h
  unfold Fits
  split
  · exact .inl rfl
  · exact nofun
  · trivial

lemma unwind (h : Held s k) : Held (unwind s k).st (unwind s k).stack := by
  induction k with
  | nil => exact h
  | cons f k ih =>
    unfold Pipe.unwind at ih ⊢
    cases hf : f.isBoundary with
    | true => simpa [List.dropWhile_cons, hf] using h.tail
    | false => simpa [List.dropWhile_cons, hf] using ih h.tail

end Held

/-! ### Runs -/

/-- The destinations are distinct, and while `flow` hands a chunk on to several of them none gets
into the reach of the round by `pipe` or `unpipe`; only a destination that owes a drain drains;
`flow` is started anew, by a tick or by `'readable'`, when none owes one. -/
def Pressed (m : Machine (State α) (Frame α)) : Act α → Prop
  | .pipe d => d ∉ m.st.dests ∧ ∀ f ∈ m.stack, toCome (m.st.push d) f ⊆ toCome m.st f
  | .unpipe (some d) => d ∈ m.st.dests →
      ∀ f ∈ m.stack, toCome (m.st.remove d) f ⊆ toCome m.st f
  | .drain d => m.st.ended = true ∨ d ∈ m.st.owing
  | .readable => m.st.ranOut = true →
      m.st.ended = true ∨ m.st.owing = [] ∧ leaving m.stack = 0
  | .tick => m.st.ended = true ∨ m.st.owing = []
  | .ret chunk full => Fits m.st chunk full m.stack
  | _ => True

/-- One step. -/
lemma held_step {m m' : Machine (State α) (Frame α)} {a : Act α} (h : Held m.st m.stack)
    (hpressed : Pressed m a) (hs : step m a = some m') : Held m'.st m'.stack := by
  have hpop (s : State α) (k : List (Frame α)) (h : Held s (.boundary :: k)) : Held s k := h.tail
  have hmark : Held m.st (.boundary :: m.stack) := h.cons_plain rfl rfl rfl rfl
  -- the mark goes through no destinations
  have hmarked {t : State α} (hcome : ∀ f ∈ m.stack, toCome t f ⊆ toCome m.st f) :
      ∀ f ∈ .boundary :: m.stack, toCome t f ⊆ toCome m.st f :=
    List.forall_mem_cons.mpr ⟨List.Subset.refl _, hcome⟩
  have hcount : leaving (.boundary :: m.stack) = leaving m.stack := Nat.zero_add _
  cases a with
  | pipe d =>
    cases hs
    exact enter_keeps hpop (hmark.pipe hpressed.1 (hmarked hpressed.2))
  | unpipe dest =>
    cases hs
    refine enter_keeps hpop (hmark.unpipe fun d hd hin => hmarked ?_)
    cases hd
    exact hpressed hin
  | drain d =>
    cases hs
    refine enter_keeps hpop ((hmark.settle [d]).ondrain ?_)
    rcases hpressed with hended | hin
    · exact .inl hended
    · refine h.enough.imp_right fun hle => ?_
      have hlt := settle_lt hin
      rw [hcount]
      show (_ : ℤ) ≤ m.st.awaitDrain
      omega
  | readable =>
    unfold step at hs
    dsimp only at hs
    split_ifs at hs with hran
    · cases hs
      have hin : Held { m.st with ranOut := false } (.boundary :: m.stack) :=
        hmark.congr rfl rfl rfl rfl rfl rfl rfl
      exact enter_keeps hpop (hin.flow (hcount ▸ hpressed hran))
    · cases hs
      exact h
  | tick =>
    unfold step at hs
    dsimp only at hs
    split_ifs at hs with hbusy
    cases hs
    rw [Bool.or_eq_true, not_or] at hbusy
    have hempty : m.stack = [] := by simpa using hbusy.1
    have hin : Held { m.st with ticks := m.st.ticks - 1 } (.boundary :: m.stack) :=
      hmark.congr rfl rfl rfl rfl rfl rfl rfl
    refine enter_keeps hpop (hin.flow (hpressed.imp_right fun hnone => ⟨hnone, ?_⟩))
    rw [hcount, hempty]
    rfl
  | ends =>
    cases hs
    exact ⟨h.laid.congr rfl rfl rfl, .inl rfl, fun _ _ _ => .inl rfl, h.apart, h.single,
      h.overrun⟩
  | release d waits =>
    unfold step at hs
    dsimp only at hs
    split_ifs at hs with hended
    cases hs
    exact enter_keeps hpop (hmark.cleanup fun _ => .inl hended)
  | ret chunk full =>
    have hfits : Fits m.st chunk full m.stack := hpressed
    obtain ⟨k, hstack, rfl⟩ | ⟨k, hstack, -, rfl⟩ | ⟨f, k, hstack, hended, hnext⟩ :=
      returned_cases hs <;> rw [hstack] at h hfits
    · exact h.tail
    · exact h.tail.unwind
    · have hexec := h.exec hfits hended
      obtain ⟨s, heq, rfl⟩ | ⟨s, fs, heq, rfl⟩ := hnext
      · rw [heq] at hexec
        exact Held.resume hexec
      · rw [heq] at hexec
        exact hexec
  | throw =>
    unfold step at hs
    dsimp only at hs
    split_ifs at hs
    cases hs
    exact h.unwind

/-- **Back-pressure.** In no run of such steps has `flow` written to a destination whose `write` had
returned `false`, and that had neither drained nor been unpiped since. -/
theorem back_pressure {m : Machine (State α) (Frame α)}
    (h : Run step (fun m a _ => Pressed m a) start m) : m.st.overrun = [] := by
  have hstart : Held (start : Machine (State α) (Frame α)).st [] :=
    ⟨⟨fun _ => List.nodup_nil, nofun, nofun⟩, .inr le_rfl, nofun, nofun, List.Pairwise.nil, rfl⟩
  exact (h.invariant (I := fun m => Held m.st m.stack) hstart
    fun n a n' hn hs hpressed => held_step hn hpressed hs).overrun

theorem back_pressure_drains :
    ∃ m : Machine (State ℕ) (Frame ℕ), Run step (fun m a _ => Pressed m a) start m ∧
      m.st.got 0 = [7, 8] ∧ m.st.overrun = [] := by
  have hrun : ∃ m : Machine (State ℕ) (Frame ℕ), Run step (fun m a _ => Pressed m a) start m ∧
      m.st.got 0 = [7, 8] :=
    ⟨_, Run.of_path .refl (w := piped ++ drains)
      ⟨_, rfl, ⟨by decide, nofun⟩, _, rfl, trivial, _, rfl, trivial, _, rfl, ⟨by decide, nofun⟩,
        _, rfl, trivial, _, rfl, .inr rfl, _, rfl, .inr (by decide), _, rfl, trivial,
        _, rfl, trivial, _, rfl, trivial, _, rfl, .inr (by decide), _, rfl, .inr (by decide),
        _, rfl, trivial, _, rfl, trivial, _, rfl, trivial, _, rfl, .inl rfl, rfl⟩,
      rfl⟩
  obtain ⟨m, hm, hgot⟩ := hrun
  exact ⟨m, hm, hgot, back_pressure hm⟩

/-- The first destination is full; the second, which is not, drains. -/
def drainsOther : List (Act ℕ) :=
  [.ret none true, .ret none false, .ret none false, .drain 1, .ret (some 8) false]

/-- A destination is piped, unpiped and piped again before `flow` is first run; it is full. -/
def pipedTwice : List (Act ℕ) :=
  [.pipe 0, .ret none false, .ret none false, .unpipe (some 0), .ret none false, .pipe 0,
    .ret none false, .ret none false, .tick, .ret (some 7) false, .ret none true, .ret none false,
    .tick, .ret (some 8) false]

theorem written_while_full :
    (∃ m : Machine (State ℕ) (Frame ℕ), Run step (fun _ _ _ => True) start m ∧
      m.st.got 0 = [7, 8] ∧ m.st.overrun = [0]) ∧
    ∃ m : Machine (State ℕ) (Frame ℕ), Run step (fun _ _ _ => True) start m ∧
      m.st.got 0 = [7, 8] ∧ m.st.overrun = [0] :=
  ⟨⟨_, Run.of_foldlM (w := piped ++ drainsOther) rfl, rfl, rfl⟩,
    _, Run.of_foldlM (w := pipedTwice) rfl, rfl, rfl⟩

end NodeCore.Pipe
