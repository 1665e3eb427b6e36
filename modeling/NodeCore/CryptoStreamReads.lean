import NodeCore.CryptoStream

/-!
What a read pushes.

The bytes of a read are behind the offset of the slab from the moment it has them, and nothing is
written there again. They are in one piece as long as each round of the loop finds the slab where
the round before has left it.
-/

namespace NodeCore.CryptoStream

open NodeCore.Reentrant NodeCore.SlabBuffer

/-! ### What a piece of code does -/

/-- The code of a frame: whether it reads, or ends a read, and what it leaves of the slab. -/
inductive Code (st : St) (a : Answer) : Frame → St × List Frame → Prop
  | other {f : Frame} {st' : St} {fs : List Frame} (hid : f.id = none)
      (slab : st'.slab = st.slab) (log : st'.log = st.log) (pushed : st'.pushed = st.pushed)
      (reads : st'.reads = st.reads) (frames : ∀ g ∈ fs, g.id = none) : Code st a f (st', fs)
  | start {s : Stream} {size : ℕ} :
      Code st a (.read s size)
        (round { st with reads := st.reads + 1 }
          ⟨s, size, 0, st.slab.offset, st.reads, st.slab.pool⟩ a)
  | again {r : Reading} {read : ℕ} (more : continues st r read = true) :
      Code st a (.looped r read) (round st r a)
  | leave {r : Reading} {read : ℕ} (last : continues st r read = false) :
      Code st a (.looped r read) (leave st r)
  | broken {r : Reading} : Code st a (.broken r) (leave st r)
  | ondata {s : Stream} {p : Pushed} (fs : List Frame) (frames : ∀ g ∈ fs, g.id = none) :
      Code st a (.ondata s p) (st, fs ++ [.push s p])
  | push {s : Stream} {p : Pushed} {st' : St} (slab : st'.slab = st.slab)
      (log : st'.log = st.log)
      (pushed : st'.pushed = st.pushed ++ if p.start < p.stop then [p] else [])
      (reads : st'.reads = st.reads) : Code st a (.push s p) (st', [.foreign, .tail s])

variable {st st' : St} {a : Answer} {f : Frame} {fs : List Frame} {r : Reading}

lemma maybeInitFinished_frames (st : St) (p : ℕ) (a : Answer) :
    ∀ g ∈ (maybeInitFinished st p a).2, g.id = none := by
  unfold maybeInitFinished
  split_ifs <;> simp [Frame.id]

lemma maybeInitFinished_slab (st : St) (p : ℕ) (a : Answer) :
    (maybeInitFinished st p a).1.slab = st.slab ∧ (maybeInitFinished st p a).1.log = st.log ∧
      (maybeInitFinished st p a).1.pushed = st.pushed ∧
      (maybeInitFinished st p a).1.reads = st.reads := by
  unfold maybeInitFinished
  split_ifs <;> exact ⟨rfl, rfl, rfl, rfl⟩

lemma error_slab (st : St) (p : ℕ) (a : Answer) :
    (error st p a).slab = st.slab ∧ (error st p a).log = st.log ∧
      (error st p a).pushed = st.pushed ∧ (error st p a).reads = st.reads := by
  unfold error
  split_ifs <;> exact ⟨rfl, rfl, rfl, rfl⟩

theorem exec_code {x : St × List Frame} (h : exec st a f = some x) : Code st a f x := by
  cases f with
  | foreign => cases h
  | read s size =>
    simp only [exec] at h
    split_ifs at h with hbail
    · obtain rfl := Option.some.inj h
      exact .other rfl rfl rfl rfl rfl (by simp [Frame.id])
    · obtain rfl := Option.some.inj h
      exact .start
  | looped r read =>
    simp only [exec] at h
    split_ifs at h with hmore hssl
    · obtain rfl := Option.some.inj h
      exact .again hmore
    · obtain rfl := Option.some.inj h
      exact .leave (Bool.eq_false_iff.mpr hmore)
  | broken r =>
    obtain rfl := Option.some.inj h
    exact .broken
  | ondata s p =>
    simp only [exec] at h
    split_ifs at h
    · obtain rfl := Option.some.inj h
      exact .ondata [.foreign] (by simp [Frame.id])
    · obtain rfl := Option.some.inj h
      exact .ondata [] (by simp)
  | push s p =>
    simp only [exec] at h
    split_ifs at h with hsome
    · obtain rfl := Option.some.inj h
      exact .push rfl rfl (by rw [if_pos hsome]; rfl) rfl
    · obtain rfl := Option.some.inj h
      exact .push rfl rfl (by rw [if_neg hsome, List.append_nil]; rfl) rfl
  | flushed s data written =>
    obtain rfl := Option.some.inj h
    obtain ⟨hslab, hlog, hpushed, hreads⟩ := maybeInitFinished_slab st s.pair a
    refine .other rfl hslab hlog hpushed hreads fun g hg => ?_
    rcases List.mem_append.mp hg with hg | hg
    · exact maybeInitFinished_frames st s.pair a g hg
    · rw [List.mem_singleton.mp hg]
      rfl
  | write s data =>
    simp only [exec] at h
    split_ifs at h with h₁ h₂ h₃ h₄
    · obtain rfl := Option.some.inj h
      exact .other rfl rfl rfl rfl rfl (by simp [Frame.id])
    · obtain rfl := Option.some.inj h
      obtain ⟨hslab, hlog, hpushed, hreads⟩ := error_slab st s.pair a
      exact .other rfl hslab hlog hpushed hreads (by simp [Frame.id])
    · obtain rfl := Option.some.inj h
      exact .other rfl rfl rfl rfl rfl (by simp [Frame.id])
    · obtain rfl := Option.some.inj h
      exact .other rfl rfl rfl rfl rfl (by simp [Frame.id])
  | wrote s data written =>
    cases written with
    | none =>
      obtain rfl := Option.some.inj h
      exact .other rfl rfl rfl rfl rfl (by simp [Frame.id])
    | some n =>
      simp only [exec] at h
      split_ifs at h
      all_goals
        obtain rfl := Option.some.inj h
        exact .other rfl rfl rfl rfl rfl (by simp [Frame.id])
  | flush s | bail s | tail s | cycled s data written | retried s | queue s data =>
    simp only [exec] at h
    repeat' split at h
    all_goals
      obtain rfl := Option.some.inj h
      exact .other rfl rfl rfl rfl rfl (by simp [Frame.id])

/-! ### The bytes of the reads -/

lemma written_append (st st' : St) (id id' : ℕ) (b : List UInt8)
    (hlog : st'.log = st.log ++ b.map (Prod.mk id')) :
    written st' id = written st id ++ if id' = id then b else [] := by
  rw [written, hlog, List.filter_append, List.map_append]
  congr 1
  split_ifs with h
  · subst h
    simp [List.filter_map, Function.comp_def]
  · simp [List.filter_map, Function.comp_def, h]

lemma written_of_log (hlog : st'.log = st.log) (id : ℕ) : written st' id = written st id := by
  rw [written, hlog, written]

/-- Where the bytes of a read are. -/
def region (st : St) (pool start id : ℕ) : Region := ⟨pool, start, id, written st id⟩

/-- A read in its loop has its bytes in one piece. -/
structure Whole (st : St) (r : Reading) : Prop where
  kept : st.slab.Kept (region st r.pool r.start r.id)
  count : r.bytesRead = (written st r.id).length

/-- A slice with the bytes of its read. -/
structure Fine (st : St) (p : Pushed) : Prop where
  stop : p.stop = p.start + (written st p.id).length
  kept : written st p.id ≠ [] → st.slab.Kept (region st p.pool p.start p.id)

/-- What a frame knows of the slab is so. -/
def Sound (st : St) : Frame → Prop
  | .looped r read => Whole st r ∧ read ≤ r.bytesRead
  | .broken r => Whole st r
  | .ondata _ p | .push _ p => Fine st p
  | _ => True

/-- The slab and the bytes of a read later on. -/
structure Later (st st' : St) (id : ℕ) : Prop where
  kept : ∀ r, st.slab.Kept r → st'.slab.Kept r
  written : written st' id = written st id

lemma Later.trans {u : St} {id : ℕ} (h : Later st u id) (h' : Later u st' id) :
    Later st st' id :=
  ⟨fun r hr => h'.kept r (h.kept r hr), h'.written.trans h.written⟩

lemma Whole.later (h : Whole st r) (hl : Later st st' r.id) : Whole st' r := by
  refine ⟨?_, hl.written ▸ h.count⟩
  rw [region, hl.written]
  exact hl.kept _ h.kept

lemma Fine.later {p : Pushed} (h : Fine st p) (hl : Later st st' p.id) : Fine st' p := by
  refine ⟨hl.written ▸ h.stop, fun hne => ?_⟩
  rw [region, hl.written] at *
  exact hl.kept _ (h.kept hne)

lemma Sound.later (h : Sound st f) (hl : ∀ id, f.id = some id → Later st st' id) :
    Sound st' f := by
  cases f with
  | looped r read => exact ⟨h.1.later (hl _ rfl), h.2⟩
  | broken r => exact Whole.later h (hl _ rfl)
  | ondata s p | push s p => exact Fine.later h (hl _ rfl)
  | _ => trivial

lemma sound_of_id (h : f.id = none) : Sound st f := by
  cases f <;> trivial

/-- The reads that have frames or have pushed. -/
def ids (st : St) (stack : List Frame) : List ℕ :=
  stack.filterMap Frame.id ++ st.pushed.map Pushed.id

structure Good (st : St) (stack : List Frame) : Prop where
  frames : ∀ f ∈ stack, Sound st f
  pushed : ∀ p ∈ st.pushed, Fine st p ∧ p.start < p.stop
  once : (ids st stack).Nodup
  old : ∀ id ∈ ids st stack, id < st.reads
  fresh : ∀ id, st.reads ≤ id → written st id = []
  held : ∀ id, written st id ≠ [] → id ∈ ids st stack

/-- Code of the read `id` that goes on with it. -/
structure Goes (st : St) (id : ℕ) (x : St × List Frame) : Prop where
  frames : ∀ f ∈ x.2, Sound x.1 f
  own : x.2.filterMap Frame.id = [id]
  pushed : x.1.pushed = st.pushed
  reads : x.1.reads = st.reads
  others : ∀ i, i ≠ id → Later st x.1 i

lemma filterMap_id_of_none {fs : List Frame} (h : ∀ g ∈ fs, g.id = none) :
    fs.filterMap Frame.id = [] := List.filterMap_eq_nil_iff.mpr h

/-- A round that takes nothing, or finds the slab as the read has left it. -/
lemma goes_round (h : Whole st r)
    (hleft : st.slab.given r.size a.out = [] ∨
      st.slab.pool = r.pool ∧ st.slab.offset = r.start + r.bytesRead) :
    Goes st r.id (round st r a) := by
  obtain ⟨b, hb⟩ : ∃ b, b = st.slab.given r.size a.out := ⟨_, rfl⟩
  -- the state after `use`
  obtain ⟨u, hu⟩ : ∃ u : St, u = { st with
      slab := st.slab.use r.id r.size a.out, log := st.log ++ b.map (Prod.mk r.id) } := ⟨_, rfl⟩
  have hslab : u.slab = st.slab.use r.id r.size a.out := by rw [hu]
  have hwritten := fun id => written_append st u id r.id b (by rw [hu])
  have hkept : ∀ ρ, st.slab.Kept ρ → u.slab.Kept ρ := fun ρ hρ => hslab ▸ hρ.use
  have hwhole : Whole u (r.add b.length) := by
    have hown : written u r.id = written st r.id ++ b := by rw [hwritten, if_pos rfl]
    refine ⟨?_, ?_⟩
    · rw [region, Reading.add, hown]
      rcases hleft with hnone | ⟨hpool, hoffset⟩
      · rw [← hb] at hnone
        rw [hnone, List.append_nil]
        exact hkept _ h.kept
      · rw [hslab, hb]
        exact h.kept.more hpool (by rw [hoffset, h.count]; rfl)
    · rw [Reading.add, hown, List.length_append, h.count]
  have hothers : ∀ i, i ≠ r.id → Later st u i := fun i hi =>
    ⟨hkept, by rw [hwritten, if_neg (Ne.symm hi), List.append_nil]⟩
  have hround : round st r a =
      if (u.pairs r.stream.pair).ssl && a.error then
        (error u r.stream.pair a, [.foreign, .broken (r.add b.length)])
      else ((maybeInitFinished u r.stream.pair a).1,
        (maybeInitFinished u r.stream.pair a).2 ++ [.looped (r.add b.length) b.length]) := by
    rw [hu, hb]
    rfl
  rw [hround]
  split_ifs with herror
  · obtain ⟨hs, hl, hp, hr⟩ := error_slab u r.stream.pair a
    have hsame : ∀ i, Later u (error u r.stream.pair a) i :=
      fun i => ⟨fun ρ hρ => hs ▸ hρ, written_of_log hl i⟩
    refine ⟨?_, rfl, by rw [hp, hu], by rw [hr, hu], fun i hi => (hothers i hi).trans (hsame i)⟩
    simp only [List.forall_mem_cons, List.not_mem_nil, false_implies, implies_true, and_true]
    exact ⟨trivial, hwhole.later (hsame _)⟩
  · obtain ⟨hs, hl, hp, hr⟩ := maybeInitFinished_slab u r.stream.pair a
    have hsame : ∀ i, Later u (maybeInitFinished u r.stream.pair a).1 i :=
      fun i => ⟨fun ρ hρ => hs ▸ hρ, written_of_log hl i⟩
    have hframes := maybeInitFinished_frames u r.stream.pair a
    refine ⟨?_, ?_, by rw [hp, hu], by rw [hr, hu], fun i hi => (hothers i hi).trans (hsame i)⟩
    · intro f hf
      rcases List.mem_append.mp hf with hf | hf
      · exact sound_of_id (hframes f hf)
      · rw [List.mem_singleton.mp hf]
        exact ⟨hwhole.later (hsame _), Nat.le_add_left _ _⟩
    · rw [List.filterMap_append, filterMap_id_of_none hframes]
      rfl

lemma goes_leave (h : Whole st r) (hpool : r.bytesRead = 0 ∨ st.slab.pool = r.pool) :
    Goes st r.id (leave st r) := by
  have hlater : ∀ i, Later st (leave st r).1 i := by
    refine fun i => ⟨fun ρ hρ => ?_, rfl⟩
    simp only [leave]
    split_ifs
    · exact hρ.create
    · exact hρ
  refine ⟨?_, rfl, rfl, rfl, fun i _ => hlater i⟩
  have hfine : Fine st ⟨st.slab.pool, r.start, r.start + r.bytesRead, r.id⟩ := by
    refine ⟨by rw [h.count], fun hne => ?_⟩
    rcases hpool with hzero | hpool
    · exact absurd (List.length_eq_zero_iff.mp (h.count.symm.trans hzero)) hne
    · rw [hpool]
      exact h.kept
  intro f hf
  simp only [leave, List.mem_cons, List.not_mem_nil, or_false] at hf
  rcases hf with rfl | rfl | rfl
  · trivial
  · trivial
  · exact hfine.later (hlater r.id)

/-! ### Frame after frame -/

variable {k : List Frame} {id : ℕ}

lemma ids_cons_some (hf : f.id = some id) : ids st (f :: k) = id :: ids st k := by
  rw [ids, List.filterMap_cons_some hf, List.cons_append, ids]

lemma ids_cons_none (hf : f.id = none) : ids st (f :: k) = ids st k := by
  rw [ids, List.filterMap_cons_none hf, ids]

lemma mem_ids_of_frame {g : Frame} (hg : g ∈ k) (hid : g.id = some id) : id ∈ ids st k :=
  List.mem_append_left _ (List.mem_filterMap.mpr ⟨g, hg, hid⟩)

lemma mem_ids_of_pushed {p : Pushed} (hp : p ∈ st.pushed) : p.id ∈ ids st k :=
  List.mem_append_right _ (List.mem_map_of_mem hp)

/-- What does not belong to a read does not see it. -/
lemma Good.goes (h : Good st (f :: k)) (hf : f.id = some id) {x : St × List Frame}
    (hx : Goes st id x) : Good x.1 (x.2 ++ k) := by
  have honce := h.once
  have hold := h.old
  have hheld := h.held
  rw [ids_cons_some hf] at honce hold hheld
  have hne : ∀ i ∈ ids st k, i ≠ id := fun i hi heq => (List.nodup_cons.mp honce).1 (heq ▸ hi)
  have hids : ids x.1 (x.2 ++ k) = id :: ids st k := by
    rw [ids, List.filterMap_append, hx.own, hx.pushed]
    rfl
  refine ⟨?_, ?_, by rwa [hids], by rwa [hids, hx.reads], ?_, ?_⟩
  · intro g hg
    rcases List.mem_append.mp hg with hg | hg
    · exact hx.frames g hg
    · exact (h.frames g (List.mem_cons_of_mem _ hg)).later fun i hi =>
        hx.others i (hne i (mem_ids_of_frame hg hi))
  · intro p hp
    rw [hx.pushed] at hp
    obtain ⟨hfine, hsome⟩ := h.pushed p hp
    exact ⟨hfine.later (hx.others _ (hne _ (mem_ids_of_pushed hp))), hsome⟩
  · intro i hi
    rw [hx.reads] at hi
    have hlt := hold id List.mem_cons_self
    rw [(hx.others i (by omega)).written]
    exact h.fresh i hi
  · intro i hi
    rw [hids]
    by_cases heq : i = id
    · rw [heq]
      exact List.mem_cons_self
    · rw [(hx.others i heq).written] at hi
      exact hheld i hi

lemma Good.pop (h : Good st (f :: k)) (hf : f.id = none) : Good st k := by
  have hids : ids st (f :: k) = ids st k := ids_cons_none hf
  exact ⟨fun g hg => h.frames g (List.mem_cons_of_mem _ hg), h.pushed, hids ▸ h.once,
    hids ▸ h.old, h.fresh, hids ▸ h.held⟩

/-- Code that has nothing to do with the slab. -/
lemma Good.beside (fs : List Frame) (h : Good st k) (hslab : st'.slab = st.slab)
    (hlog : st'.log = st.log) (hpushed : st'.pushed = st.pushed) (hreads : st'.reads = st.reads)
    (hfs : ∀ g ∈ fs, g.id = none) : Good st' (fs ++ k) := by
  have hlater : ∀ i, Later st st' i := fun i =>
    ⟨fun r hr => hslab ▸ hr, written_of_log hlog i⟩
  have hids : ids st' (fs ++ k) = ids st k := by
    rw [ids, List.filterMap_append, filterMap_id_of_none hfs, hpushed, List.nil_append, ids]
  refine ⟨?_, ?_, by rw [hids]; exact h.once, by rw [hids, hreads]; exact h.old, ?_, ?_⟩
  · intro g hg
    rcases List.mem_append.mp hg with hg | hg
    · exact sound_of_id (hfs g hg)
    · exact (h.frames g hg).later fun i _ => hlater i
  · intro p hp
    rw [hpushed] at hp
    exact ⟨(h.pushed p hp).1.later (hlater _), (h.pushed p hp).2⟩
  · intro i hi
    rw [hreads] at hi
    rw [(hlater i).written]
    exact h.fresh i hi
  · intro i hi
    rw [(hlater i).written] at hi
    rw [hids]
    exact h.held i hi

/-- A new read, that has nothing yet. -/
lemma Good.start {s : Stream} {size : ℕ} (h : Good st (.read s size :: k)) :
    Good { st with reads := st.reads + 1 }
      (.looped ⟨s, size, 0, st.slab.offset, st.reads, st.slab.pool⟩ 0 :: k) := by
  have hnone := h.fresh st.reads le_rfl
  have honce := h.once
  have hold := h.old
  have hheld := h.held
  rw [ids_cons_none rfl] at honce hold hheld
  have hids : ids { st with reads := st.reads + 1 }
      (.looped ⟨s, size, 0, st.slab.offset, st.reads, st.slab.pool⟩ 0 :: k) =
      st.reads :: ids st k := ids_cons_some rfl
  have hlater : ∀ i, Later st { st with reads := st.reads + 1 } i := fun i =>
    ⟨fun r hr => hr, rfl⟩
  refine ⟨?_, fun p hp => ⟨(h.pushed p hp).1.later (hlater _), (h.pushed p hp).2⟩, ?_, ?_, ?_, ?_⟩
  · intro g hg
    rcases List.mem_cons.mp hg with rfl | hg
    · refine ⟨⟨?_, ?_⟩, le_rfl⟩
      · rw [region, (hlater _).written, hnone]
        exact kept_nil st.slab st.reads
      · rw [(hlater _).written, hnone]
        rfl
    · exact (h.frames g (List.mem_cons_of_mem _ hg)).later fun i _ => hlater i
  · rw [hids]
    exact List.nodup_cons.mpr ⟨fun hmem => Nat.lt_irrefl _ (hold _ hmem), honce⟩
  · rw [hids]
    intro i hi
    rcases List.mem_cons.mp hi with rfl | hi
    · exact Nat.lt_succ_self _
    · exact Nat.lt_succ_of_lt (hold i hi)
  · exact fun i hi => h.fresh i (Nat.le_of_succ_le hi)
  · intro i hi
    rw [hids]
    exact List.mem_cons_of_mem _ (hheld i hi)

/-- A read is over. -/
lemma Good.push {s : Stream} {p : Pushed} (h : Good st (.push s p :: k))
    (hslab : st'.slab = st.slab) (hlog : st'.log = st.log)
    (hpushed : st'.pushed = st.pushed ++ if p.start < p.stop then [p] else [])
    (hreads : st'.reads = st.reads) : Good st' ([.foreign, .tail s] ++ k) := by
  have hlater : ∀ i, Later st st' i := fun i =>
    ⟨fun r hr => hslab ▸ hr, written_of_log hlog i⟩
  have hfine : Fine st p := h.frames _ List.mem_cons_self
  have honce := h.once
  have hold := h.old
  have hheld := h.held
  rw [ids_cons_some rfl] at honce hold hheld
  have hframes : ∀ g ∈ [.foreign, .tail s] ++ k, Sound st' g := by
    intro g hg
    rcases List.mem_append.mp hg with hg | hg
    · refine sound_of_id ?_
      simp only [List.mem_cons, List.not_mem_nil, or_false] at hg
      rcases hg with rfl | rfl <;> rfl
    · exact (h.frames g (List.mem_cons_of_mem _ hg)).later fun i _ => hlater i
  have hfresh : ∀ i, st'.reads ≤ i → written st' i = [] := by
    intro i hi
    rw [hreads] at hi
    rw [(hlater i).written]
    exact h.fresh i hi
  by_cases hsome : p.start < p.stop
  · rw [if_pos hsome] at hpushed
    have hperm : (ids st' ([.foreign, .tail s] ++ k)).Perm (p.id :: ids st k) := by
      have hids : ids st' ([.foreign, .tail s] ++ k) = ids st k ++ [p.id] := by
        rw [ids, hpushed, List.map_append, ← List.append_assoc]
        rfl
      rw [hids]
      exact List.perm_append_singleton _ _
    refine ⟨hframes, ?_, hperm.nodup_iff.mpr honce, fun i hi => ?_, hfresh, fun i hi => ?_⟩
    · intro q hq
      rw [hpushed] at hq
      rcases List.mem_append.mp hq with hq | hq
      · exact ⟨(h.pushed q hq).1.later (hlater _), (h.pushed q hq).2⟩
      · rw [List.mem_singleton.mp hq]
        exact ⟨hfine.later (hlater _), hsome⟩
    · rw [hreads]
      exact hold i (hperm.mem_iff.mp hi)
    · rw [(hlater i).written] at hi
      exact hperm.mem_iff.mpr (hheld i hi)
  · rw [if_neg hsome, List.append_nil] at hpushed
    have hids : ids st' ([.foreign, .tail s] ++ k) = ids st k := by
      rw [ids, hpushed]
      rfl
    have hnone : written st p.id = [] := by
      have hstop := hfine.stop
      exact List.length_eq_zero_iff.mp (by omega)
    refine ⟨hframes, ?_, ?_, fun i hi => ?_, hfresh, fun i hi => ?_⟩
    · intro q hq
      rw [hpushed] at hq
      exact ⟨(h.pushed q hq).1.later (hlater _), (h.pushed q hq).2⟩
    · rw [hids]
      exact (List.nodup_cons.mp honce).2
    · rw [hids] at hi
      rw [hreads]
      exact hold i (List.mem_cons_of_mem _ hi)
    · rw [(hlater i).written] at hi
      rw [hids]
      rcases List.mem_cons.mp (hheld i hi) with rfl | hmem
      · exact absurd hnone hi
      · exact hmem

/-- A piece of code that finds the slab as it needs it. -/
theorem Good.exec (h : Good st (f :: k)) {x : St × List Frame} (hx : exec st a f = some x)
    (hund : undisturbed ⟨st, f :: k⟩ (.go a) = true) : Good x.1 (x.2 ++ k) := by
  have hsound := h.frames f List.mem_cons_self
  cases exec_code hx with
  | other hid slab log pushed reads frames =>
    exact (h.pop hid).beside _ slab log pushed reads frames
  | start =>
    have hstart := h.start
    have hwhole := (hstart.frames _ List.mem_cons_self).1
    exact hstart.goes rfl (goes_round hwhole (.inr ⟨rfl, rfl⟩))
  | @again r read more =>
    simp only [undisturbed, more, if_true, Bool.or_eq_true, Bool.and_eq_true,
      decide_eq_true_eq] at hund
    exact h.goes rfl (goes_round hsound.1 hund)
  | @leave r read last =>
    simp only [undisturbed, last, Bool.false_eq_true, if_false, Bool.or_eq_true,
      decide_eq_true_eq] at hund
    exact h.goes rfl (goes_leave hsound.1 hund)
  | broken =>
    simp only [undisturbed, Bool.or_eq_true, decide_eq_true_eq] at hund
    exact h.goes rfl (goes_leave hsound hund)
  | @ondata s p fs frames =>
    refine h.goes rfl ⟨fun g hg => ?_, ?_, rfl, rfl, fun i _ => ⟨fun ρ hρ => hρ, rfl⟩⟩
    · rcases List.mem_append.mp hg with hg | hg
      · exact sound_of_id (frames g hg)
      · rw [List.mem_singleton.mp hg]
        exact hsound
    · rw [List.filterMap_append, filterMap_id_of_none frames]
      rfl
  | push slab log pushed reads => exact h.push slab log pushed reads

lemma good_init (length : ℕ) : Good (init length).st (init length).stack where
  frames f hf := by cases hf
  pushed p hp := by cases hp
  once := List.nodup_nil
  old id hid := by cases hid
  fresh _ _ := rfl
  held id hne := absurd rfl hne

theorem good_step {m m' : State} {act : Act} (h : Good m.st m.stack)
    (hstep : step m act = some m') (hund : undisturbed m act = true) : Good m'.st m'.stack := by
  obtain ⟨st, stack⟩ := m
  cases act with
  | read s size =>
    simp only [step] at hstep
    split_ifs at hstep
    obtain rfl := Option.some.inj hstep
    exact h.beside [.read s size] rfl rfl rfl rfl (by simp [Frame.id])
  | write s data =>
    simp only [step] at hstep
    split_ifs at hstep
    obtain rfl := Option.some.inj hstep
    exact h.beside [.write s data] rfl rfl rfl rfl (by simp [Frame.id])
  | destroy p =>
    simp only [step] at hstep
    split_ifs at hstep
    obtain rfl := Option.some.inj hstep
    exact h.beside [] rfl rfl rfl rfl (by simp)
  | flags s resumingSession started =>
    simp only [step] at hstep
    split_ifs at hstep
    obtain rfl := Option.some.inj hstep
    exact h.beside [] rfl rfl rfl rfl (by simp)
  | ret =>
    simp only [step] at hstep
    split at hstep
    · obtain rfl := Option.some.inj hstep
      exact h.pop rfl
    · cases hstep
  | go a =>
    cases stack with
    | nil => cases hstep
    | cons f k =>
      obtain ⟨x, hx, rfl⟩ := Option.map_eq_some_iff.mp hstep
      exact h.exec hx hund

/-- **What the reads push.** Where a read always finds the slab as it has left it, each slice has
the bytes of its read. -/
theorem reads_exact {length : ℕ} {m : State}
    (h : Run step (fun m a _ => undisturbed m a = true) (init length) m) : Exact m := by
  have hgood := h.invariant (I := fun m => Good m.st m.stack) (good_init length)
    fun n a n' hn hs hund => good_step hn hs hund
  refine ⟨fun p hp => ?_, ?_, fun id hid hne => ?_⟩
  · obtain ⟨hfine, hsome⟩ := hgood.pushed p hp
    have hstop := hfine.stop
    have hne : written m.st p.id ≠ [] := fun hnone => by
      rw [hnone, List.length_nil] at hstop
      omega
    rw [hstop]
    exact (hfine.kept hne).slice_eq
  · exact (List.nodup_append.mp hgood.once).2.1
  · rcases List.mem_append.mp (hgood.held id hne) with hmem | hmem
    · obtain ⟨f, hf, heq⟩ := List.mem_filterMap.mp hmem
      exact absurd heq (hid f hf)
    · exact List.mem_map.mp hmem

/-! ### A listener that reads -/

/-- The object gives these bytes. -/
def gives (out : List UInt8) (initFinished : Bool) : Act :=
  .go ⟨out, none, false, false, initFinished, 0, false⟩

/-- It has nothing more. -/
def idle : Act := gives [] false

/-- A read of the encrypted side, from the call to the end. -/
def nested : List Act :=
  [.read ⟨0, .encrypted⟩ 16, gives [120] false, idle, idle, idle, idle, idle, idle, .ret, idle]

/-- The handshake is over in the last round of a read. -/
def lastRound : List Act :=
  [.read ⟨0, .cleartext⟩ 16, gives [65] false, gives [] true] ++ nested ++
    [.ret, idle, idle, idle, idle, idle, .ret, idle]

/-- The handshake is over in the first round of a read that has two. -/
def firstRound : List Act :=
  [.read ⟨0, .cleartext⟩ 16, gives [65] true] ++ nested ++
    [.ret, gives [66] false, idle, idle, idle, idle, idle, idle]

theorem reads_exact_nested : ∃ m : State,
    Run step (fun m a _ => undisturbed m a = true) (init 100) m ∧ m.st.pushed.length = 2 ∧
      m.stack = [] ∧ Exact m := by
  have hrun : (lastRound.foldlM (fun m a => if undisturbed m a = true then step m a else none)
      (init 100)).any (fun m => m.st.pushed.length == 2 && m.stack.isEmpty) = true := by
    decide +kernel
  obtain ⟨m, hm, hend⟩ := (Option.any_eq_true _ _).mp hrun
  obtain ⟨hlength, hstack⟩ := (Bool.and_eq_true _ _).mp hend
  have hreach : Run step (fun m a _ => undisturbed m a = true) (init 100) m := Run.of_checked hm
  exact ⟨m, hreach, beq_iff_eq.mp hlength, List.isEmpty_iff.mp hstack, reads_exact hreach⟩

theorem not_exact : ¬ ∀ (length : ℕ) (m : State),
    Run step (fun _ _ _ => True) (init length) m → Exact m := by
  intro hall
  have hrun : (firstRound.foldlM step (init 100)).any (fun m => m.st.pushed.any fun p =>
      m.st.slab.slice p.pool p.start p.stop != cells p.id (written m.st p.id)) = true := by
    decide +kernel
  obtain ⟨m, hm, hwrong⟩ := (Option.any_eq_true _ _).mp hrun
  obtain ⟨p, hp, hne⟩ := List.any_eq_true.mp hwrong
  exact bne_iff_ne.mp hne ((hall 100 m (Run.of_foldlM hm)).slices p hp)

end NodeCore.CryptoStream
