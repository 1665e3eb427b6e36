import NodeCore.ReadableEvents

/-!
A reader that has found nothing is woken by the next push.

It waits with `needReadable` set and `emittedReadable` clear, so that the push emits the event; or
the event is on a tick already. What may break this is an event that is emitted while `read` is
still inside `_read`.
-/

namespace NodeCore.ReadableWake

open NodeCore.Encoding NodeCore.Reentrant NodeCore.ReadableEvents
open NodeCore.Readable (State Frame Tick Chunk boundary maybeReadMore)

variable {α σ : Type}

/-! ### Readers -/

def Queued (s : State α σ) : Prop := Tick.emitReadable ∈ s.ticks

/-- The next push emits `'readable'`, or the event is on a tick. -/
def Armed (s : State α σ) : Prop :=
  Queued s ∨ s.needReadable = true ∧ s.emittedReadable = false

/-- Whoever waits is woken, by the next push or, after it, by a tick. -/
structure Wakes (w : Watched α σ) : Prop where
  armed : w.asleep → Armed w.st
  due : w.due → Queued w.st

/-- A call of `read` that may go to sleep. -/
def asking : Frame → Bool
  | .read _ nOrig _ => Watched.asks nOrig
  | _ => false

/-- Such a call has been made by foreign code, or is the next to go on. -/
def Apart (k : List Frame) : Prop :=
  k.IsChain fun f g => boundary f = false → asking g = false

/-- The same, and the first frame is no such call. -/
def Clear (k : List Frame) : Prop := Apart (.addChunk :: k)

lemma Clear.user {k : List Frame} (h : Apart k) : Clear (.user :: k) := by
  refine List.isChain_cons_cons.mpr ⟨fun _ => rfl, ?_⟩
  exact List.isChain_cons.mpr ⟨fun _ _ hf => (by cases hf), h⟩

lemma Apart.clear {f : Frame} {k : List Frame} (h : Apart (f :: k)) (hf : boundary f = false) :
    Clear k :=
  have h := List.isChain_cons.mp h
  List.isChain_cons.mpr ⟨fun g hg _ => h.1 g hg hf, h.2⟩

lemma Apart.tail {f : Frame} {k : List Frame} (h : Apart (f :: k)) : Apart k :=
  (List.isChain_cons.mp h).2

lemma Clear.apart {k : List Frame} (h : Clear k) : Apart k := Apart.tail h

lemma Clear.push {k : List Frame} (h : Clear k) (f : Frame) : Apart (f :: k) :=
  have h := List.isChain_cons.mp h
  List.isChain_cons.mpr ⟨fun g hg _ => h.1 g hg rfl, h.2⟩

lemma Clear.cons {k : List Frame} (h : Clear k) {f : Frame} (hf : asking f = false) :
    Clear (f :: k) :=
  List.isChain_cons_cons.mpr ⟨fun _ => hf, h.push f⟩

/-- What holds while foreign code runs. -/
def Wakeful (w : Watched α σ) (k : List Frame) : Prop := Wakes w ∧ Apart k

/-! ### What keeps readers awake -/

section Functions

variable {mode : Mode α σ} {w : Watched α σ} {k : List Frame}

lemma Armed.mono {s s' : State α σ} (h : Armed s) (hneed : s.needReadable → s'.needReadable)
    (hemitted : s'.emittedReadable → s.emittedReadable) (hticks : Queued s → Queued s') :
    Armed s' := by
  rcases h with h | ⟨hn, he⟩
  · exact .inl (hticks h)
  · refine .inr ⟨hneed hn, ?_⟩
    rw [← Bool.not_eq_true] at he ⊢
    exact fun hs => he (hemitted hs)

lemma Wakes.set (h : Wakes w) {s : State α σ} (hneed : w.st.needReadable → s.needReadable)
    (hemitted : s.emittedReadable → w.st.emittedReadable) (hticks : Queued w.st → Queued s) :
    Wakes { w with st := s } :=
  ⟨fun ha => (h.armed ha).mono hneed hemitted hticks, fun hd => hticks (h.due hd)⟩

/-- The event wakes everyone. -/
lemma wakes_wake (w : Watched α σ) (s : State α σ) : Wakes { w.wake with st := s } :=
  ⟨nofun, nofun⟩

/-- For a reader that waits for the event that is emitted. -/
lemma emitReadable_wakes (h : w.asleep → Armed w.st) (hdue : w.due → w.asleep ∨ Queued w.st)
    (hk : Apart k) : w.emitReadable.Keeps Wakeful k := by
  unfold Watched.emitReadable Readable.emitReadable
  split_ifs with hwake hemitted hsync hemitted hsync
  · simp [hemitted] at hwake
  · simp [hsync] at hwake
  · exact ⟨wakes_wake w _, hk⟩
  · have harmed (ha : w.asleep) : Queued w.st := by
      rcases h ha with hq | ⟨-, he⟩
      · exact hq
      · rw [hemitted] at he
        cases he
    exact ⟨⟨fun ha => .inl (harmed ha), fun hd => (hdue hd).elim harmed id⟩, hk⟩
  · have hqueued (b : Bool) (ha : b = true) : Queued { w.st with
        needReadable := false, emittedReadable := true, ticks := w.st.ticks ++ [.emitReadable] } :=
      List.mem_append_right _ List.mem_cons_self
    exact ⟨⟨fun ha => .inl (hqueued _ ha), fun hd => hqueued _ hd⟩, hk⟩
  · simp [hemitted, hsync] at hwake

lemma Wakes.emitReadable (h : Wakes w) (hk : Apart k) : w.emitReadable.Keeps Wakeful k :=
  emitReadable_wakes h.armed (fun hd => .inr (h.due hd)) hk

lemma Wakes.endReadable (h : Wakes w) : Wakes w.endReadable := by
  unfold Watched.endReadable Readable.endReadable
  split_ifs
  · exact ⟨h.armed, h.due⟩
  · exact h.set id id fun hq => List.mem_append_left _ hq
  · exact h

lemma Wakes.addChunkDone (h : Wakes w) (hk : Apart k) : w.addChunkDone.Keeps Wakeful k := by
  refine ⟨?_, hk⟩
  unfold Watched.addChunkDone Readable.addChunkDone maybeReadMore
  split_ifs
  · exact h.set id id fun hq => List.mem_append_left _ hq
  · exact h

/-- A chunk has been put in the buffer for whoever waits. -/
lemma chunkAdded_wakes (h : w.asleep → Armed w.st) (hdue : w.due → w.asleep ∨ Queued w.st)
    (hk : Clear k) : w.chunkAdded.Keeps Wakeful k := by
  unfold Watched.chunkAdded
  refine Res.Keeps.andThen (I := Wakeful) ?_ fun w hw => hw.1.addChunkDone hk.apart
  split_ifs with hneed
  · exact emitReadable_wakes h hdue (hk.push _)
  · have harmed (ha : w.asleep) : Queued w.st :=
      (h ha).resolve_right fun hn => hneed hn.1
    exact ⟨⟨h, fun hd => (hdue hd).elim harmed id⟩, hk.push _⟩

lemma Wakes.onEofChunk (h : Wakes w) (hk : Apart k) : (w.onEofChunk mode).Keeps Wakeful k := by
  unfold Watched.onEofChunk
  extract_lets chunk s w'
  have hw : Wakes w' := by
    refine h.set ?_ ?_ ?_
    all_goals
      unfold s
      split_ifs <;> exact id
  split_ifs
  · exact hw.emitReadable hk
  · exact ⟨hw.endReadable, hk⟩

lemma Wakes.addNull (h : Wakes w) (hk : Apart k) : (w.addNull mode).Keeps Wakeful k := by
  have hw : Wakes { w with st := { w.st with reading := false } } := h.set id id id
  unfold Watched.addNull
  dsimp only
  split_ifs
  · exact ⟨hw, hk⟩
  · exact hw.onEofChunk hk

lemma Wakes.readableAddChunk (h : Wakes w) (hk : Clear k) (chunk : Watched.Given α) :
    (w.readableAddChunk mode chunk).Keeps Wakeful k := by
  unfold Watched.readableAddChunk
  split
  · exact ⟨h, hk.apart⟩
  · exact Wakes.addNull ⟨h.armed, h.due⟩ hk.apart
  · split_ifs
    · exact ⟨h.set id id id, hk.apart⟩
    · exact ⟨h, hk.apart⟩
    · split
      · exact chunkAdded_wakes (fun ha => (h.armed ha).mono id id id) .inl hk
      · exact ⟨h.set id id id, hk.apart⟩

lemma Wakes.push (h : Wakes w) (hk : Clear k) (chunk : Chunk) (encoding : EncArg) :
    (w.push mode chunk encoding).Keeps Wakeful k := by
  unfold Watched.push
  cases chunk with
  | invalid => exact h.readableAddChunk hk _
  | null => exact h.readableAddChunk hk _
  | buf b => exact h.readableAddChunk hk _
  | str text =>
    dsimp only
    split_ifs
    · split
      · exact h.readableAddChunk hk _
      · exact ⟨h, hk.apart⟩
    · exact h.readableAddChunk hk _

lemma Wakes.pushObject (h : Wakes w) (hk : Clear k) (chunk : Option α) (encoding : Bool) :
    (w.pushObject mode chunk encoding).Keeps Wakeful k := by
  cases chunk with
  | none => exact h.readableAddChunk hk .null
  | some o => exact h.readableAddChunk hk (if encoding then .units [o] else .object o)

lemma Wakes.unshift (h : Wakes w) (hk : Clear k) (chunk : Option (List α)) :
    (w.unshift mode chunk).Keeps Wakeful k := by
  cases chunk with
  | none => exact Wakes.addNull ⟨h.armed, h.due⟩ hk.apart
  | some chunk =>
    unfold Watched.unshift
    dsimp only
    split_ifs
    · exact ⟨h, hk.apart⟩
    · exact ⟨h, hk.apart⟩
    · exact chunkAdded_wakes (fun ha => (h.armed ha).mono id id id) (fun hd => .inr (h.due hd)) hk

/-! #### Reading -/

lemma Wakes.give (h : Wakes w) {n : Option ℤ} {found : Bool} {ret : Option (List α)}
    (hmiss : Watched.asks n → w.st.ended = false → ret = none → Armed w.st) :
    Wakes (w.give n found ret) := by
  have hsame (ha : Armed w.st) : Armed (w.give n found ret).st := ha.mono id id id
  refine ⟨fun ha => hsame ?_, h.due⟩
  simp only [Watched.give, Bool.or_eq_true, Bool.and_eq_true, Bool.not_eq_true',
    decide_eq_true_eq] at ha
  rcases ha with ha | ⟨⟨hn, hended⟩, hret⟩
  · exact h.armed ha
  · exact hmiss hn hended hret

/-- What `read` finds in the buffer. -/
def found (mode : Mode α σ) (n : ℤ) (s : State α σ) : Option (List α) :=
  if 0 < n then (Watched.fromList mode n s.length s.buffer).1 else none

/-- What `read` leaves of the state when it has taken what it finds out of the buffer. -/
structure Fetched (mode : Mode α σ) (n : ℤ) (s s' : State α σ) : Prop where
  need : s.needReadable → s'.needReadable
  missed : found mode n s = none → s'.needReadable
  emitted : s'.emittedReadable = s.emittedReadable
  reading : s'.reading = s.reading
  ended : s'.ended = s.ended
  ticks : s'.ticks = s.ticks

lemma Fetched.queued {n : ℤ} {s s' : State α σ} (h : Fetched mode n s s') (hq : Queued s) :
    Queued s' := by
  rw [Queued, h.ticks]
  exact hq

lemma readEnd_fetched (w : Watched α σ) (n : ℤ) (nOrig : Option ℤ) (flag : Bool) :
    ∃ s, Fetched mode n w.st s ∧ w.readEnd mode n nOrig flag =
      (if s.ended ∧ !s.endEmitted ∧ s.length = 0 then
        Watched.endReadable { w with st := s } else { w with st := s }).give nOrig flag
          (found mode n w.st) := by
  unfold Watched.readEnd
  dsimp only
  have hfound : (if 0 < n then Watched.fromList mode n w.st.length w.st.buffer
      else (none, w.st.buffer)).1 = found mode n w.st := apply_ite Prod.fst _ _ _
  rw [hfound]
  refine ⟨_, ⟨?_, ?_, ?_, ?_, ?_, ?_⟩, rfl⟩
  · split_ifs
    all_goals first
      | exact fun _ => rfl
      | exact id
  · intro hret
    rw [if_pos hret]
    split_ifs <;> rfl
  all_goals split_ifs <;> rfl

/-- A reader that finds nothing waits for an event that has not been emitted. -/
lemma Wakes.readEnd (h : Wakes w) {n : ℤ} {nOrig : Option ℤ} (flag : Bool)
    (hmiss : Watched.asks nOrig → w.st.ended = false → found mode n w.st = none →
      Queued w.st ∨ w.st.emittedReadable = false) :
    Wakes (w.readEnd mode n nOrig flag) := by
  obtain ⟨s, hf, heq⟩ := readEnd_fetched w n nOrig flag
  rw [heq]
  have hs : Wakes { w with st := s } := h.set hf.need (hf.emitted ▸ id) hf.queued
  split_ifs with hend
  · refine hs.endReadable.give fun _ hopen _ => ?_
    rw [Watched.endReadable_ended hend.1] at hopen
    cases hopen
  · refine hs.give fun hn hopen hret => ?_
    refine (hmiss hn (hf.ended ▸ hopen) hret).imp hf.queued fun he => ?_
    exact ⟨hf.missed hret, hf.emitted.trans he⟩

/-- When `_read` has returned to a `read` that finds nothing, the event that it waits for has not
been emitted. -/
def Minds (mode : Mode α σ) (w : Watched α σ) : Frame → Prop
  | .read n nOrig _ =>
    let n := if !w.st.reading then (Watched.howMuchToRead mode nOrig w.st).1 else n
    Watched.asks nOrig → w.st.ended = false → found mode n w.st = none →
      Queued w.st ∨ w.st.emittedReadable = false
  | _ => True

lemma Wakes.readDone (h : Wakes w) (hk : Clear k) {n : ℤ} {nOrig : Option ℤ} {flag : Bool}
    (hmind : Minds mode w (.read n nOrig flag)) :
    (w.readDone mode n nOrig flag).Keeps Wakeful k := by
  have hsync : Wakes { w with st := { w.st with sync := false } } := h.set id id id
  unfold Minds at hmind
  unfold Watched.readDone
  dsimp only at hmind ⊢
  split_ifs with hreading
  · refine ⟨?_, hk.apart⟩
    rw [if_pos hreading] at hmind
    rw [Watched.howMuchToRead_sync]
    obtain ⟨hwm, need, hneed, hs⟩ :=
      Watched.howMuchToRead_state mode nOrig { w.st with sync := false }
    have hmuch : Wakes { w with st := { w.st with
        sync := false, highWaterMark := hwm, needReadable := need } } := hsync.set hneed id id
    rw [hs]
    exact hmuch.readEnd flag hmind
  · rw [if_neg hreading] at hmind
    exact ⟨hsync.readEnd flag hmind, hk.apart⟩

/-- Nothing is called between the start of this `read` and its end, unless it calls `_read`. -/
lemma Wakes.readFrom (h : Wakes w) (hk : Clear k) (n : ℤ) {nOrig : Option ℤ} (flag : Bool)
    (hfresh : Watched.asks nOrig → w.st.emittedReadable = false) :
    (w.readFrom mode n nOrig flag).Keeps Wakeful k := by
  unfold Watched.readFrom
  split_ifs with hend hlen
  · refine ⟨h.endReadable.give fun _ hopen _ => ?_, hk.apart⟩
    rw [Watched.endReadable_ended hend.2] at hopen
    cases hopen
  · refine ⟨h.give fun _ hopen _ => ?_, hk.apart⟩
    rw [hend.2] at hopen
    cases hopen
  · exact ⟨h.set (fun hn => by simp [hn]) id id, hk.push _⟩
  · exact ⟨h.readEnd flag fun hn _ _ => .inr (hfresh hn), hk.apart⟩

lemma Wakes.read (h : Wakes w) (hk : Clear k) (n : Option ℤ) :
    (w.read mode n).Keeps Wakeful k := by
  unfold Watched.read
  extract_lets src s w' flag
  have hw : Wakes w' := h.set id (fun he => (Bool.and_eq_true_iff.mp he).1) id
  split_ifs
  · exact hw.emitReadable hk.apart
  · obtain ⟨hwm, need, hneed, hs⟩ := Watched.howMuchToRead_state mode n s
    have hmuch : Wakes { w with st := { s with highWaterMark := hwm, needReadable := need } } :=
      hw.set hneed id id
    dsimp only
    rw [hs]
    refine hmuch.readFrom hk _ flag fun hn => ?_
    simp [s, hn]

lemma Wakes.readMoreDone (h : Wakes w) (hk : Apart k) : w.readMoreDone.Keeps Wakeful k :=
  ⟨h.set id id id, hk⟩

lemma Wakes.readMoreLoop (h : Wakes w) (hk : Clear k) :
    (w.readMoreLoop mode).Keeps Wakeful k := by
  unfold Watched.readMoreLoop
  split_ifs
  · refine Res.Keeps.andThen (I := Wakeful) ?_ fun w hw => hw.1.readMoreDone hk.apart
    exact h.read (hk.cons rfl) _
  · exact h.readMoreDone hk.apart

lemma Wakes.exec (h : Wakes w) (hk : Clear k) {f : Frame} (hmind : Minds mode w f) :
    (w.exec mode f).Keeps Wakeful k := by
  cases f with
  | user => exact ⟨h, hk.apart⟩
  | addChunk => exact h.addChunkDone hk.apart
  | read n nOrig flag => exact h.readDone hk hmind
  | readMore len =>
    unfold Watched.exec Watched.readMoreAfter
    dsimp only
    split_ifs
    · exact h.readMoreDone hk.apart
    · exact h.readMoreLoop hk

lemma Wakes.onReadable (h : Wakes w) (hk : Clear k) : (w.onReadable mode).Keeps Wakeful k := by
  unfold Watched.onReadable
  extract_lets src w'
  have hw : Wakes w' := h.set (fun _ => rfl) nofun id
  split_ifs
  · exact ⟨h, hk.apart⟩
  · exact hw.read hk _
  · exact hw.emitReadable hk.apart
  · exact ⟨hw, hk.apart⟩

/-- The tick of an event wakes everyone; the other ticks leave it where it is. -/
lemma Wakes.runTick (mode : Mode α σ) (h : Wakes w) {t : Tick} {ts : List Tick}
    (hticks : w.st.ticks = t :: ts) :
    (Watched.runTick mode { w with st := { w.st with ticks := ts } } t).Keeps Wakeful [] := by
  have hpop (ht : t ≠ .emitReadable) : Wakes { w with st := { w.st with ticks := ts } } := by
    refine h.set id id fun hq => ?_
    rw [Queued, hticks] at hq
    exact (List.mem_cons.mp hq).resolve_left ht.symm
  cases t with
  | emitReadable => exact ⟨wakes_wake w _, List.isChain_nil⟩
  | readMore => exact (hpop nofun).readMoreLoop (List.isChain_singleton _)
  | «end» =>
    unfold Watched.runTick
    dsimp only
    split_ifs
    · have hw := hpop nofun
      exact ⟨⟨fun ha => (hw.armed ha).mono id id id, hw.due⟩, List.isChain_nil⟩
    · exact ⟨hpop nofun, List.isChain_nil⟩

end Functions

/-! ### Runs -/

variable (mode : Mode α σ)

end NodeCore.ReadableWake
