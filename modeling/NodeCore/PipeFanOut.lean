import NodeCore.Pipe

/-!
The chunks that the destinations of a source receive.
-/

namespace NodeCore.Pipe

open NodeCore.Reentrant

variable {α : Type} {s t : State α} {k : List (Frame α)}

/-! ### Unfinished rounds -/

/-- The destinations that a `forEach` has still to come to. -/
def toCome (s : State α) (f : Frame α) : List ℕ :=
  match f.each with
  | none => []
  | some e => ((s.arrays e.array).take e.length).drop e.index

lemma toCome_nil {f : Frame α} (hf : f.each = none) : toCome s f = [] := by
  unfold toCome
  rw [hf]

/-- The chunk that they will be given. -/
def chunkOf : Frame α → List α
  | .write chunk _ _ => [chunk]
  | _ => []

/-- What a destination will be given by the rounds that are under way. -/
def pending (s : State α) (k : List (Frame α)) (d : ℕ) : List α :=
  k.flatMap fun f => if d ∈ toCome s f then chunkOf f else []

@[simp] lemma pending_nil (d : ℕ) : pending s [] d = [] := rfl

lemma pending_cons (f : Frame α) (d : ℕ) :
    pending s (f :: k) d = (if d ∈ toCome s f then chunkOf f else []) ++ pending s k d :=
  List.flatMap_cons

lemma pending_cons_nil {f : Frame α} (hf : toCome s f = []) (d : ℕ) :
    pending s (f :: k) d = pending s k d := by
  simp [pending_cons, hf]

lemma pending_eq_nil (h : ∀ f ∈ k, toCome s f = []) (d : ℕ) : pending s k d = [] := by
  refine List.flatMap_eq_nil_iff.mpr fun f hf => ?_
  simp [h f hf]

lemma pending_congr {d : ℕ} (h : ∀ f ∈ k, d ∈ toCome s f ↔ d ∈ toCome t f) :
    pending s k d = pending t k d := by
  unfold pending
  induction k with
  | nil => rfl
  | cons f k ih =>
    have hf := h f List.mem_cons_self
    rw [List.flatMap_cons, List.flatMap_cons, ih fun g hg => h g (List.mem_cons_of_mem f hg)]
    simp only [hf]

/-! ### Arrays -/

/-- The arrays have no repetitions, and those that are gone through have been made. -/
structure Laid (s : State α) (k : List (Frame α)) : Prop where
  nodup : ∀ a, (s.arrays a).Nodup
  current : ∀ a, s.pipes = .many a → a < s.nextArray
  made : ∀ f ∈ k, ∀ e ∈ f.each, e.array < s.nextArray

namespace Laid

lemma congr (h : Laid s k) (hpipes : t.pipes = s.pipes) (harrays : t.arrays = s.arrays)
    (hnext : t.nextArray = s.nextArray) : Laid t k := by
  refine ⟨fun a => ?_, fun a ha => ?_, fun f hf e he => ?_⟩
  · rw [harrays]
    exact h.nodup a
  · rw [hnext]
    exact h.current a (hpipes ▸ ha)
  · rw [hnext]
    exact h.made f hf e he

lemma tail {f : Frame α} (h : Laid s (f :: k)) : Laid s k :=
  ⟨h.nodup, h.current, fun g hg => h.made g (List.mem_cons_of_mem f hg)⟩

lemma cons {f : Frame α} (h : Laid s k) (hf : ∀ e ∈ f.each, e.array < s.nextArray) :
    Laid s (f :: k) :=
  ⟨h.nodup, h.current, List.forall_mem_cons.mpr ⟨hf, h.made⟩⟩

lemma distinct (h : Laid s k) : s.dests.Nodup := by
  unfold State.dests
  split
  · exact List.nodup_nil
  · exact List.nodup_singleton _
  · exact h.nodup _

lemma removeAll (h : Laid s k) : Laid s.removeAll k := ⟨h.nodup, nofun, h.made⟩

lemma remove (h : Laid s k) (d : ℕ) : Laid (s.remove d) k := by
  obtain ⟨pipes, arrays, flowing, hremove, hpipes, harrays⟩ := s.remove_frame d
  rw [hremove]
  refine ⟨fun a => ?_, fun a ha => h.current a (hpipes a ha), h.made⟩
  show (arrays a).Nodup
  rcases harrays a with hsame | herase
  · rw [hsame]
    exact h.nodup a
  · rw [herase]
    exact (h.nodup a).erase d

lemma push (h : Laid s k) {d : ℕ} (hd : d ∉ s.dests) : Laid (s.push d) k := by
  obtain ⟨pipes, arrays, next, hpush, hnext, hpipes, harrays⟩ := s.push_frame d
  rw [hpush]
  refine ⟨fun a => ?_, fun a ha => ?_, fun f hf e he => lt_of_lt_of_le (h.made f hf e he) hnext⟩
  · show (arrays a).Nodup
    rcases harrays a with hsame | hnew
    · rw [hsame]
      exact h.nodup a
    · rw [hnew]
      exact List.nodup_append.mpr ⟨h.distinct, List.nodup_singleton d, fun x hx y hy hxy =>
        hd (by rwa [← List.mem_singleton.mp hy, ← hxy])⟩
  · rcases hpipes a ha with hold | hlt
    · exact lt_of_lt_of_le (h.current a hold) hnext
    · exact hlt

end Laid

/-! ### The invariant -/

/-- A destination has been given what it is due, but for the round that is under way. -/
structure Fair (s : State α) (k : List (Frame α)) : Prop where
  laid : Laid s k
  due : ∀ d ∈ s.dests, s.due d = s.got d ++ pending s k d
  /-- One round at most is under way. -/
  single : k.Pairwise fun f g => toCome s f = [] ∨ toCome s g = []

namespace Fair

/-- Flags and counts are not looked at. -/
lemma congr (h : Fair s k) (hpipes : t.pipes = s.pipes) (harrays : t.arrays = s.arrays)
    (hnext : t.nextArray = s.nextArray) (hdue : t.due = s.due) (hgot : t.got = s.got) :
    Fair t k := by
  have hdests : t.dests = s.dests := by
    unfold State.dests
    rw [hpipes, harrays]
  have hcome (f : Frame α) : toCome t f = toCome s f := by
    unfold toCome
    rw [harrays]
  refine ⟨h.laid.congr hpipes harrays hnext, fun d hd => ?_, ?_⟩
  · rw [hdue, hgot, h.due d (hdests ▸ hd)]
    exact congrArg _ (pending_congr fun f _ => by rw [hcome])
  · simpa only [hcome] using h.single

/-- A frame without a round is left. -/
lemma tail {f : Frame α} (h : Fair s (f :: k)) (hf : toCome s f = []) : Fair s k :=
  ⟨h.laid.tail, fun d hd => by rw [h.due d hd, pending_cons_nil hf],
    (List.pairwise_cons.mp h.single).2⟩

/-- A frame without a round is entered. -/
lemma cons {f : Frame α} (h : Fair s k) (hf : f.each = none) : Fair s (f :: k) := by
  have hnil : toCome s f = [] := toCome_nil hf
  refine ⟨h.laid.cons fun e he => ?_, fun d hd => by rw [h.due d hd, pending_cons_nil hnil],
    List.pairwise_cons.mpr ⟨fun _ _ => .inl hnil, h.single⟩⟩
  rw [hf] at he
  cases he

/-! ### Rounds -/

lemma written (h : Fair s k) (d : ℕ) (full : Bool) : Fair (s.written d full) k := by
  unfold State.written
  split_ifs
  · exact h.congr rfl rfl rfl rfl rfl
  · exact h

/-- The next destination of a round is given the chunk. -/
lemma each {c : α} {d : ℕ} {e : Each} (h : Fair s (.write c d (some e) :: k)) :
    (s.each c e).Keeps Fair k := by
  set l := (s.arrays e.array).take e.length with hl
  have hcome : toCome s (.write c d (some e)) = l.drop e.index := rfl
  unfold State.each
  rw [← hl]
  cases hget : l[e.index]? with
  | none =>
    have hnil : l.drop e.index = [] :=
      List.drop_eq_nil_of_le (List.getElem?_eq_none_iff.mp hget)
    have hdata : Fair s (.data :: k) := (h.tail (hcome.trans hnil)).cons rfl
    exact hdata
  | some d' =>
    obtain ⟨hlt, hd'⟩ := List.getElem?_eq_some_iff.mp hget
    have hdrop : l.drop e.index = d' :: l.drop (e.index + 1) := by
      rw [← hd']
      exact List.drop_eq_getElem_cons hlt
    have hnodup : (d' :: l.drop (e.index + 1)).Nodup := by
      rw [← hdrop]
      exact ((h.laid.nodup e.array).sublist (List.take_sublist _ _)).sublist (List.drop_sublist _ _)
    obtain ⟨hnot, -⟩ := List.nodup_cons.mp hnodup
    obtain ⟨hfirst, hrest⟩ := List.pairwise_cons.mp h.single
    -- the other rounds are over
    have hover : ∀ g ∈ k, toCome s g = [] := fun g hg =>
      (hfirst g hg).resolve_left (by rw [hcome, hdrop]; exact List.cons_ne_nil _ _)
    have hlaid : Laid (s.give c d') (.write c d' (some { e with index := e.index + 1 }) :: k) := by
      have htail : Laid (s.give c d') k := h.laid.tail.congr rfl rfl rfl
      refine htail.cons fun e' he => ?_
      cases he
      exact h.laid.made _ List.mem_cons_self e rfl
    refine ⟨hlaid, fun x hx => ?_, List.pairwise_cons.mpr
      ⟨fun g hg => .inr (hover g hg), hrest⟩⟩
    · have hdue := h.due x hx
      rw [pending_cons, pending_eq_nil hover, List.append_nil, hcome, hdrop] at hdue
      have hover' : pending (s.give c d') k x = [] := pending_eq_nil hover x
      have hnew : pending (s.give c d')
          (.write c d' (some { e with index := e.index + 1 }) :: k) x =
            if x ∈ l.drop (e.index + 1) then [c] else [] := by
        rw [pending_cons, hover', List.append_nil]
        rfl
      show s.due x = Function.update s.got d' (s.got d' ++ [c]) x ++
        pending (s.give c d') (.write c d' (some { e with index := e.index + 1 }) :: k) x
      rw [hnew, hdue]
      rcases eq_or_ne x d' with rfl | hne
      · simp [hnot, chunkOf]
      · simp [hne, chunkOf]

/-- A chunk is read when no round is under way. -/
lemma deliver (h : Fair s k) (hover : ∀ f ∈ k, toCome s f = []) (c : α) :
    (s.deliver c).Keeps Fair k := by
  have hgot (d : ℕ) (hd : d ∈ s.dests) : s.due d = s.got d := by
    rw [h.due d hd, pending_eq_nil hover, List.append_nil]
  have hdue (d : ℕ) (hd : d ∈ s.dests) : (s.dueAll c).due d = s.got d ++ [c] := by
    show (if d ∈ s.dests then s.due d ++ [c] else s.due d) = _
    rw [if_pos hd, hgot d hd]
  have hover' : ∀ f ∈ k, toCome (s.dueAll c) f = [] := hover
  unfold State.deliver
  dsimp only
  split
  · next hnull =>
    refine ⟨h.laid.congr rfl rfl rfl, fun d hd => ?_, h.single⟩
    unfold State.dests at hd
    rw [Res.state_ret, hnull] at hd
    cases hd
  · next d hone =>
    have hdests : s.dests = [d] := by
      unfold State.dests
      rw [show s.pipes = .one d from hone]
    have hlaid : Laid ((s.dueAll c).give c d) k := h.laid.congr rfl rfl rfl
    have hlaid' : Laid ((s.dueAll c).give c d) (.write c d none :: k) := hlaid.cons nofun
    refine ⟨hlaid', fun x hx => ?_, List.pairwise_cons.mpr ⟨fun _ _ => .inl rfl, h.single⟩⟩
    · have hx : x = d := by
        have hmem : x ∈ s.dests := hx
        rw [hdests] at hmem
        exact List.mem_singleton.mp hmem
      rw [hx]
      show (s.dueAll c).due d = Function.update s.got d (s.got d ++ [c]) d ++ pending _ _ d
      have hnone : pending ((s.dueAll c).give c d) (.write c d none :: k) d = [] := by
        refine pending_eq_nil (fun f hf => ?_) d
        rcases List.mem_cons.mp hf with rfl | hf
        · rfl
        · exact hover' f hf
      rw [hdue d (by simp [hdests]), Function.update_self]
      exact (congrArg _ hnone).trans (List.append_nil _) |>.symm
  · next a hmany =>
    have hdests : s.dests = s.arrays a := by
      unfold State.dests
      rw [show s.pipes = .many a from hmany]
    have hfull : toCome (s.dueAll c) (.write c 0 (some ⟨a, 0, (s.arrays a).length⟩)) =
        s.arrays a := List.take_length
    -- the round as it is before its first destination
    have hround : Fair (s.dueAll c) (.write c 0 (some ⟨a, 0, (s.arrays a).length⟩) :: k) := by
      have hlaid : Laid (s.dueAll c) k := h.laid.congr rfl rfl rfl
      refine ⟨hlaid.cons fun e he => ?_, fun d hd => ?_,
        List.pairwise_cons.mpr ⟨fun g hg => .inr (hover' g hg), h.single⟩⟩
      · cases he
        exact h.laid.current a hmany
      · have hmem : d ∈ s.dests := hd
        rw [hdue d hmem, pending_cons, pending_eq_nil hover', hfull, ← hdests, if_pos hmem]
        rfl
    exact hround.each

/-! ### `flow` -/

lemma flowLoop (h : Fair s k) : s.flowLoop.Keeps Fair k := by
  unfold State.flowLoop
  split_ifs
  · exact h.congr rfl rfl rfl rfl rfl
  · have hread : Fair s (.read :: k) := h.cons rfl
    exact hread

lemma flow (h : Fair s k) : s.flow.Keeps Fair k := by
  have hzero : Fair { s with awaitDrain := 0 } k := h.congr rfl rfl rfl rfl rfl
  exact hzero.flowLoop

lemma drained (h : Fair s k) : s.drained.Keeps Fair k := by
  unfold State.drained
  split_ifs
  · exact h.congr rfl rfl rfl rfl rfl
  · exact h.congr rfl rfl rfl rfl rfl

lemma ondrain (h : Fair s k) : s.ondrain.Keeps Fair k := by
  have hless : Fair { s with awaitDrain := s.awaitDrain - 1 } k := h.congr rfl rfl rfl rfl rfl
  unfold State.ondrain
  dsimp only
  split_ifs
  · exact hless.flow
  · exact hless

lemma cleanup (h : Fair s k) (waits : Bool) : (s.cleanup waits).Keeps Fair k := by
  unfold State.cleanup
  split_ifs
  · exact h.ondrain
  · exact h

lemma tell (h : Fair s k) (dests : List (ℕ × Bool)) : (s.tell dests).Keeps Fair k := by
  cases dests with
  | nil => exact h
  | cons d rest =>
    have htold : Fair s (.unpiped d.1 d.2 :: .unpipeAll rest :: k) := (h.cons rfl).cons rfl
    exact htold

/-- Foreign code returns to `pipe`, `unpipe` or `flow`. -/
lemma exec {f : Frame α} {chunk : Option α} {full : Bool} (h : Fair s (f :: k))
    (hread : f = .read → chunk = none ∨ ∀ g ∈ k, toCome s g = []) :
    (exec chunk full s f).Keeps Fair k := by
  cases f with
  | piped =>
    have hin := h.tail rfl
    show s.startFlow.Keeps Fair k
    unfold State.startFlow
    split_ifs
    · exact hin
    · have hlisten : Fair s (.listening :: k) := hin.cons rfl
      exact hlisten
  | listening => exact (h.tail rfl).congr rfl rfl rfl rfl rfl
  | read =>
    have hin := h.tail rfl
    rcases hread rfl with rfl | hover
    · exact hin.drained
    · cases chunk with
      | none => exact hin.drained
      | some c => exact hin.deliver hover c
  | write c d e =>
    cases e with
    | none =>
      have hdata : Fair (s.written d full) (.data :: k) :=
        ((h.tail rfl).written d full).cons rfl
      exact hdata
    | some e => exact (h.written d full).each
  | data =>
    have hin := h.tail rfl
    show s.nextChunk.Keeps Fair k
    unfold State.nextChunk
    split_ifs
    · exact hin
    · exact hin.flowLoop
  | unpiped d owed => exact (h.tail rfl).cleanup full
  | unpipeAll dests => exact (h.tail rfl).tell dests
  | boundary => exact h.tail rfl

/-! ### `pipe` and `unpipe` -/

lemma settle (h : Fair s k) (l : List ℕ) : Fair (s.settle l) k := h.congr rfl rfl rfl rfl rfl

/-- Rounds that are as they were, for other destinations. -/
lemma of_rounds (h : Fair s k) (hlaid : Laid t k) (hdue : t.due = s.due) (hgot : t.got = s.got)
    (hdests : t.dests ⊆ s.dests) (hcome : ∀ f ∈ k, toCome t f ⊆ toCome s f ∧
      ∀ d ∈ t.dests, d ∈ toCome s f → d ∈ toCome t f) : Fair t k := by
  refine ⟨hlaid, fun d hd => ?_, ?_⟩
  · rw [hdue, hgot, h.due d (hdests hd)]
    refine congrArg _ (pending_congr fun f hf => ?_)
    exact ⟨(hcome f hf).2 d hd, fun hm => (hcome f hf).1 hm⟩
  · refine h.single.imp_of_mem fun {f g} hf hg hfg => ?_
    refine hfg.imp (fun hnil => ?_) fun hnil => ?_
    · exact List.subset_nil.mp (hnil ▸ (hcome f hf).1)
    · exact List.subset_nil.mp (hnil ▸ (hcome g hg).1)

lemma removeAll (h : Fair s k) : Fair s.removeAll k :=
  h.of_rounds h.laid.removeAll rfl rfl (List.nil_subset _)
    fun _ _ => ⟨List.Subset.refl _, fun _ hd => absurd hd List.not_mem_nil⟩

/-- One destination is unpiped, and only it is taken out of the rounds. -/
lemma remove (h : Fair s k) {d : ℕ} (hd : d ∈ s.dests)
    (hcome : ∀ f ∈ k, toCome (s.remove d) f = (toCome s f).erase d) : Fair (s.remove d) k := by
  have hdests := s.remove_dests hd
  have hlaid := h.laid.remove d
  obtain ⟨pipes, arrays, flowing, hremove, -, -⟩ := s.remove_frame d
  rw [hremove] at hdests hcome hlaid ⊢
  refine h.of_rounds hlaid rfl rfl ?_ fun f hf => ?_
  · rw [hdests]
    exact List.erase_subset
  · rw [hcome f hf]
    refine ⟨List.erase_subset, fun x hx hm => ?_⟩
    rw [hdests, h.laid.distinct.mem_erase_iff] at hx
    exact (List.mem_erase_of_ne hx.1).mpr hm

lemma unpipe (h : Fair s k) {dest : Option ℕ} (hcome : ∀ d ∈ dest, d ∈ s.dests →
    ∀ f ∈ k, toCome (s.remove d) f = (toCome s f).erase d) : (s.unpipe dest).Keeps Fair k := by
  unfold State.unpipe
  split
  · exact h
  · exact (h.removeAll.settle s.dests).tell _
  · next d _ =>
    split_ifs with hin
    · exact ((h.remove hin (hcome d rfl hin)).settle [d]).tell _
    · exact h

/-- A destination is piped that is not piped yet, and the rounds do not come to it. -/
lemma pipe (h : Fair s k) {d : ℕ} (hd : d ∉ s.dests)
    (hcome : ∀ f ∈ k, toCome (s.push d) f = toCome s f ∧ d ∉ toCome s f) :
    (s.pipe d).Keeps Fair k := by
  have hdests := s.push_dests d
  have hlaid := h.laid.push hd
  have hpiped : Fair ((s.push d).fresh d) k := by
    obtain ⟨pipes, arrays, next, hpush, -, -, -⟩ := s.push_frame d
    rw [hpush] at hdests hcome hlaid ⊢
    refine ⟨hlaid.congr rfl rfl rfl, fun x hx => ?_, ?_⟩
    · have hpending : pending (State.fresh { s with
          pipes := pipes, arrays := arrays, nextArray := next } d) k x = pending s k x :=
        pending_congr fun f hf => by rw [← (hcome f hf).1]; rfl
      rw [hpending]
      show Function.update s.due d [] x = Function.update s.got d [] x ++ pending s k x
      rcases eq_or_ne x d with rfl | hne
      · have hnone : pending s k x = [] := by
          refine List.flatMap_eq_nil_iff.mpr fun f hf => ?_
          simp [(hcome f hf).2]
        simp [hnone]
      · have hx : x ∈ s.dests := by
          have hmem : x ∈ State.dests { s with
            pipes := pipes, arrays := arrays, nextArray := next } := hx
          rw [hdests] at hmem
          simpa [hne] using hmem
        simp [hne, h.due x hx]
    · refine h.single.imp_of_mem fun {f g} hf hg hfg => ?_
      show toCome _ f = [] ∨ toCome _ g = []
      exact hfg.imp (fun hnil => (hcome f hf).1.trans hnil) fun hnil => (hcome g hg).1.trans hnil
  have htold : Fair ((s.push d).fresh d) (.piped :: k) := hpiped.cons rfl
  exact htold

lemma resume (h : Fair s k) :
    Fair (Reentrant.resume (Pipe.exec none false) Frame.isBoundary s k).st
      (Reentrant.resume (Pipe.exec none false) Frame.isBoundary s k).stack :=
  resume_keeps (fun _ _ _ _ h => h.exec fun _ => .inl rfl)
    (fun s f k hb h => by
      cases f with
      | boundary => exact h.tail rfl
      | _ => cases hb) h

/-- An exception leaves no round unfinished. -/
lemma unwind (h : Fair s k)
    (hover : ∀ f ∈ k.takeWhile (fun f => !f.isBoundary), toCome s f = []) :
    Fair (unwind s k).st (unwind s k).stack := by
  induction k with
  | nil => exact h
  | cons f k ih =>
    unfold Pipe.unwind at ih ⊢
    cases hf : f.isBoundary with
    | true =>
      have hnil : f.each = none := by
        cases f with
        | boundary => rfl
        | _ => cases hf
      simpa [List.dropWhile_cons, hf] using h.tail (toCome_nil hnil)
    | false =>
      simp only [List.takeWhile_cons, hf, Bool.not_false, if_true, List.forall_mem_cons] at hover
      simpa [List.dropWhile_cons, hf] using ih (h.tail hover.1) hover.2

end Fair

/-! ### Runs -/

/-- The destinations are distinct, and while `flow` hands a chunk on to several of them: no
destination is unpiped so that another gets out of the reach of the round or into it, or is piped
into its reach; `flow` reads no further chunk; and there is no exception. -/
def Even (m : Machine (State α) (Frame α)) : Act α → Prop
  | .pipe d => d ∉ m.st.dests ∧
      ∀ f ∈ m.stack, toCome (m.st.push d) f = toCome m.st f ∧ d ∉ toCome m.st f
  | .unpipe (some d) => d ∈ m.st.dests →
      ∀ f ∈ m.stack, toCome (m.st.remove d) f = (toCome m.st f).erase d
  | .ret (some _) _ => ∀ k, m.stack = .read :: k → ∀ f ∈ k, toCome m.st f = []
  | .throw => ∀ f ∈ m.stack.takeWhile (fun f => !f.isBoundary), toCome m.st f = []
  | _ => True

/-- The destinations that are piped have been given the chunks that they are due, once and in order,
but for a round that is under way. -/
structure Fed (m : Machine (State α) (Frame α)) : Prop where
  order : ∀ d ∈ m.st.dests, m.st.got d <+: m.st.due d
  whole : (∀ f ∈ m.stack, toCome m.st f = []) → ∀ d ∈ m.st.dests, m.st.got d = m.st.due d

/-- One step. -/
lemma fair_step {m m' : Machine (State α) (Frame α)} {a : Act α} (h : Fair m.st m.stack)
    (heven : Even m a) (hs : step m a = some m') : Fair m'.st m'.stack := by
  have hpop (s : State α) (k : List (Frame α)) (h : Fair s (.boundary :: k)) : Fair s k :=
    h.tail rfl
  have hmark : Fair m.st (.boundary :: m.stack) := h.cons rfl
  have hmarked (f : Frame α) : f ∈ .boundary :: m.stack → f ∈ m.stack ∨ f = .boundary :=
    fun hf => (List.mem_cons.mp hf).symm
  cases a with
  | pipe d =>
    cases hs
    refine enter_keeps hpop (hmark.pipe heven.1 fun f hf => ?_)
    rcases hmarked f hf with hf | rfl
    · exact heven.2 f hf
    · exact ⟨rfl, List.not_mem_nil⟩
  | unpipe dest =>
    cases hs
    refine enter_keeps hpop (hmark.unpipe fun d hd hin f hf => ?_)
    cases hd
    rcases hmarked f hf with hf | rfl
    · exact heven hin f hf
    · rfl
  | drain d =>
    cases hs
    exact enter_keeps hpop (hmark.settle [d]).ondrain
  | readable =>
    unfold step at hs
    dsimp only at hs
    split_ifs at hs
    · cases hs
      have hin : Fair { m.st with ranOut := false } (.boundary :: m.stack) :=
        hmark.congr rfl rfl rfl rfl rfl
      exact enter_keeps hpop hin.flow
    · cases hs
      exact h
  | tick =>
    unfold step at hs
    dsimp only at hs
    split_ifs at hs
    cases hs
    have hin : Fair { m.st with ticks := m.st.ticks - 1 } (.boundary :: m.stack) :=
      hmark.congr rfl rfl rfl rfl rfl
    exact enter_keeps hpop hin.flow
  | ends =>
    cases hs
    exact h.congr rfl rfl rfl rfl rfl
  | release d waits =>
    unfold step at hs
    dsimp only at hs
    split_ifs at hs
    cases hs
    exact enter_keeps hpop (hmark.cleanup waits)
  | ret chunk full =>
    -- what is read is read with no round under way
    have hread {k : List (Frame α)} (hstack : m.stack = .read :: k) :
        chunk = none ∨ ∀ g ∈ k, toCome m.st g = [] := by
      cases chunk with
      | none => exact .inl rfl
      | some c => exact .inr (heven k hstack)
    obtain ⟨k, hstack, rfl⟩ | ⟨k, hstack, hchunk, rfl⟩ | ⟨f, k, hstack, -, hnext⟩ :=
      returned_cases hs
    · rw [hstack] at h
      exact hpop _ _ h
    · have hover := (hread hstack).resolve_left hchunk
      rw [hstack] at h
      exact (h.tail rfl).unwind fun g hg => hover g ((List.takeWhile_sublist _).subset hg)
    · rw [hstack] at h
      have hexec : (exec chunk full m.st f).Keeps Fair k :=
        h.exec fun hf => hread (hf ▸ hstack)
      obtain ⟨s, heq, rfl⟩ | ⟨s, fs, heq, rfl⟩ := hnext
      · rw [heq] at hexec
        exact Fair.resume hexec
      · rw [heq] at hexec
        exact hexec
  | throw =>
    unfold step at hs
    dsimp only at hs
    split_ifs at hs
    cases hs
    exact h.unwind heven

/-- **What the destinations receive.** In every run of even steps, a destination that is piped has
been given the chunks that were read while it was, each once and in order, up to the chunk that is
being handed on. -/
theorem fan_out {m : Machine (State α) (Frame α)}
    (h : Run step (fun m a _ => Even m a) start m) : Fed m := by
  have hstart : Fair (start : Machine (State α) (Frame α)).st [] :=
    ⟨⟨fun _ => List.nodup_nil, nofun, nofun⟩, nofun, List.Pairwise.nil⟩
  have hfair : Fair m.st m.stack := h.invariant (I := fun m => Fair m.st m.stack) hstart
    fun n a n' hn hs heven => fair_step hn heven hs
  refine ⟨fun d hd => ?_, fun hover d hd => ?_⟩
  · rw [hfair.due d hd]
    exact List.prefix_append _ _
  · rw [hfair.due d hd, pending_eq_nil hover, List.append_nil]

lemma even_read {m : Machine (State α) (Frame α)} (h : m.stack = [.read, .boundary]) (c : α)
    (full : Bool) : Even m (.ret (some c) full) := by
  intro k hk f hf
  rw [h] at hk
  cases hk
  rw [List.mem_singleton.mp hf]
  rfl

/-- Two destinations are piped; `flow` reads a chunk and writes it to the first. -/
def piped : List (Act ℕ) :=
  [.pipe 0, .ret none false, .ret none false, .pipe 1, .ret none false, .tick, .ret (some 7) false]

/-- The first is full and the second is not; after a drain `flow` goes on, until there is nothing
to be read. -/
def drains : List (Act ℕ) :=
  [.ret none true, .ret none false, .ret none false, .drain 0, .ret (some 8) false,
    .ret none false, .ret none false, .ret none false, .ret none false]

theorem fan_out_drains :
    ∃ m : Machine (State ℕ) (Frame ℕ), Run step (fun m a _ => Even m a) start m ∧ m.stack = [] ∧
      m.st.dests = [0, 1] ∧ m.st.due 1 = [7, 8] ∧ m.st.got 1 = m.st.due 1 := by
  have hrun : ∃ m : Machine (State ℕ) (Frame ℕ), Run step (fun m a _ => Even m a) start m ∧
      m.stack = [] ∧ m.st.dests = [0, 1] ∧ m.st.due 1 = [7, 8] :=
    ⟨_, Run.of_path .refl (w := piped ++ drains)
      ⟨_, rfl, ⟨by decide, nofun⟩, _, rfl, trivial, _, rfl, trivial, _, rfl, ⟨by decide, nofun⟩,
        _, rfl, trivial, _, rfl, trivial, _, rfl, even_read rfl 7 false, _, rfl, trivial,
        _, rfl, trivial, _, rfl, trivial, _, rfl, trivial, _, rfl, even_read rfl 8 false,
        _, rfl, trivial, _, rfl, trivial, _, rfl, trivial, _, rfl, trivial, rfl⟩,
      rfl, rfl, rfl⟩
  obtain ⟨m, hm, hstack, hdests, hdue⟩ := hrun
  refine ⟨m, hm, hstack, hdests, hdue, (fan_out hm).whole (fun f hf => ?_) 1 ?_⟩
  · rw [hstack] at hf
    cases hf
  · rw [hdests]
    decide

/-- The first destination is unpiped by its own `write`. -/
def unpiped : List (Act ℕ) :=
  [.unpipe (some 0), .ret none false, .ret none false, .ret none false, .ret none false]

/-- Three destinations; the first is full, and drains while the chunk is written to the second. -/
def drainsEarly : List (Act ℕ) :=
  [.pipe 0, .ret none false, .ret none false, .pipe 1, .ret none false, .pipe 2, .ret none false,
    .tick, .ret (some 7) false, .ret none true, .drain 0, .ret (some 8) false, .ret none false,
    .ret none false, .ret none false, .ret none false, .ret none false, .ret none false,
    .ret none false, .ret none false, .ret none false]

theorem chunk_missed :
    (∃ m : Machine (State ℕ) (Frame ℕ), Run step (fun _ _ _ => True) start m ∧ m.stack = [] ∧
      m.st.dests = [1] ∧ m.st.due 1 = [7] ∧ m.st.got 1 = []) ∧
    ∃ m : Machine (State ℕ) (Frame ℕ), Run step (fun _ _ _ => True) start m ∧ m.stack = [] ∧
      m.st.dests = [0, 1, 2] ∧ m.st.due 2 = [7, 8] ∧ m.st.got 2 = [8, 7] :=
  ⟨⟨_, Run.of_foldlM (w := piped ++ unpiped) rfl, rfl, rfl, rfl, rfl⟩,
    _, Run.of_foldlM (w := drainsEarly) rfl, rfl, rfl, rfl, rfl⟩

end NodeCore.Pipe
