import NodeCore.WritableBooks

/-!
The buffer of a stream, and how `clearBuffer` empties it.

While `clearBuffer` runs, the head of the buffer has been handed over already, and its frame on
the stack says how much of it. What is left is the rest.
-/

namespace NodeCore.WritableClear

open NodeCore.Encoding NodeCore.Reentrant NodeCore.Writable NodeCore.WritableBooks

/-! ### What is left to hand over -/

def isClear : Frame → Bool
  | .clearLoop _ | .clearFast => true
  | _ => false

/-- The frames of `clearBuffer`. -/
def clears (k : List Frame) : List Frame := k.filter isClear

@[simp] lemma clears_nil : clears [] = [] := rfl

@[simp] lemma clears_append (k l : List Frame) : clears (k ++ l) = clears k ++ clears l :=
  List.filter_append ..

lemma clears_cons_of {f : Frame} (h : isClear f = false) (k : List Frame) :
    clears (f :: k) = clears k := by
  simp [clears, h]

lemma mem_clears {f : Frame} {k : List Frame} : f ∈ clears k ↔ f ∈ k ∧ isClear f = true := by
  simp [clears]

lemma isClear_of_light {f : Frame} (h : light f = true) : isClear f = false := by
  cases f <;> first | rfl | cases h

/-- The buffered writes that have not been handed over. -/
def remaining (s : State) (k : List Frame) : List WriteReq :=
  match clears k with
  | .clearLoop c :: _ => s.buffer.drop (c + 1)
  | .clearFast :: _ => []
  | _ => s.buffer

/-- `clearBuffer` runs at most once at a time, with these writes left. -/
inductive Phase (s : State) (k : List Frame) : List WriteReq → Prop
  | idle (hb : s.bufferProcessing = false) (hk : clears k = []) : Phase s k s.buffer
  | loop (hb : s.bufferProcessing = true) {c : ℕ} (hk : clears k = [.clearLoop c])
      (hc : c < s.buffer.length) : Phase s k (s.buffer.drop (c + 1))
  | fast (hb : s.bufferProcessing = true) (hk : clears k = [.clearFast]) : Phase s k []

section Phase

variable {s t : State} {k l : List Frame} {left : List WriteReq}

lemma Phase.eq_remaining (h : Phase s k left) : left = remaining s k := by
  unfold remaining
  cases h with
  | idle hb hk => rw [hk]
  | loop hb hk hc => rw [hk]
  | fast hb hk => rw [hk]

lemma Phase.congr (h : Phase s k left) (hbuf : t.buffer = s.buffer)
    (hproc : t.bufferProcessing = s.bufferProcessing) (hk : clears l = clears k) :
    Phase t l left := by
  cases h with
  | idle hb hc =>
    rw [← hbuf]
    exact .idle (hproc.trans hb) (hk.trans hc)
  | loop hb hc hlt =>
    rw [← hbuf] at hlt ⊢
    exact .loop (hproc.trans hb) (hk.trans hc) hlt
  | fast hb hc => exact .fast (hproc.trans hb) (hk.trans hc)

/-- Frames other than those of `clearBuffer`. -/
lemma Phase.push (h : Phase s k left) {f : Frame} (hf : isClear f = false) :
    Phase s (f :: k) left :=
  h.congr rfl rfl (clears_cons_of hf k)

lemma Phase.pop {f : Frame} (h : Phase s (f :: k) left) (hf : isClear f = false) :
    Phase s k left :=
  h.congr rfl rfl (clears_cons_of hf k).symm

lemma Phase.eq_buffer (h : Phase s k left) (hb : s.bufferProcessing = false) :
    left = s.buffer ∧ clears k = [] := by
  cases h with
  | idle _ hk => exact ⟨rfl, hk⟩
  | loop hb' => rw [hb] at hb'; cases hb'
  | fast hb' => rw [hb] at hb'; cases hb'

lemma Phase.eq_of_nil (h : Phase s [] left) : left = s.buffer := by
  cases h with
  | idle => rfl
  | loop _ hk => cases hk
  | fast _ hk => cases hk

/-- While `clearBuffer` runs, its loop is on the stack or nothing is left. -/
lemma Phase.processing (h : Phase s k left) (hb : s.bufferProcessing = true) :
    left = [] ∨ ∃ c, .clearLoop c ∈ k := by
  cases h with
  | idle hb' => rw [hb] at hb'; cases hb'
  | @loop _ c hk _ =>
    have hmem : Frame.clearLoop c ∈ clears k := by simp [hk]
    exact .inr ⟨c, (mem_clears.mp hmem).1⟩
  | fast => exact .inl rfl

/-- A chunk at the end of the buffer, which is not about to be emptied. -/
lemma Phase.buffered (h : Phase s k left) (hf : .clearFast ∉ k) {e : WriteReq}
    (hbuf : t.buffer = s.buffer ++ [e]) (hproc : t.bufferProcessing = s.bufferProcessing) :
    Phase t k (left ++ [e]) := by
  cases h with
  | idle hb hk =>
    rw [← hbuf]
    exact .idle (hproc.trans hb) hk
  | @loop hb c hk hc =>
    have hdrop : (s.buffer ++ [e]).drop (c + 1) = s.buffer.drop (c + 1) ++ [e] :=
      List.drop_append_of_le_length (Nat.succ_le_of_lt hc)
    have hlt : c < t.buffer.length := by
      rw [hbuf, List.length_append]
      exact Nat.lt_add_right _ hc
    rw [← hdrop, ← hbuf]
    exact .loop (hproc.trans hb) hk hlt
  | fast hb hk =>
    have hmem : Frame.clearFast ∈ clears k := by simp [hk]
    exact absurd (mem_clears.mp hmem).1 hf

end Phase

/-! ### `clearBuffer` -/

variable (cfg : Config)

/-- The length that `clearBuffer` finds for a buffered write. -/
def reqLen (e : WriteReq) : ℤ := (cfg.len e.chunk).getD 0

/-- A write is handed over with `rest` left, or nothing is left. -/
inductive Hands (s : State) (k : List Frame) : List WriteReq → Result → Prop
  | one {e : WriteReq} {rest : List WriteReq} {c : ℕ}
      (hphase : Phase (s.startWrite [e.id] (reqLen cfg e) .user)
        ([.doWrite, .clearLoop c] ++ k) rest) :
      Hands s k (e :: rest)
        (.call (s.startWrite [e.id] (reqLen cfg e) .user) [.doWrite, .clearLoop c])
  | none (hphase : Phase { s with buffer := [], bufferProcessing := false } k []) :
      Hands s k [] (.ret { s with buffer := [], bufferProcessing := false })

/-- The loop, with everything before index `c` handed over. -/
lemma clearFrom_hands {s : State} {k : List Frame} (hb : s.bufferProcessing = true)
    (hk : clears k = []) (c : ℕ) : Hands cfg s k (s.buffer.drop c) (clearFrom cfg s c) := by
  unfold clearFrom
  cases he : s.buffer[c]? with
  | some entry =>
    obtain ⟨hlt, hge⟩ := List.getElem?_eq_some_iff.mp he
    have hdrop : s.buffer.drop c = entry :: s.buffer.drop (c + 1) := by
      rw [List.drop_eq_getElem_cons hlt, hge]
    have hkk : clears ([Frame.doWrite, Frame.clearLoop c] ++ k) = [.clearLoop c] := by
      rw [clears_append, hk]
      rfl
    have hphase : Phase (s.startWrite [entry.id] (reqLen cfg entry) .user)
        ([Frame.doWrite, Frame.clearLoop c] ++ k) (s.buffer.drop (c + 1)) :=
      Phase.loop (s := s.startWrite [entry.id] (reqLen cfg entry) .user) hb hkk hlt
    rw [hdrop]
    exact .one hphase
  | none =>
    have hle : s.buffer.length ≤ c := List.getElem?_eq_none_iff.mp he
    have hend : clearEnd s c = { s with buffer := [], bufferProcessing := false } := by
      rw [clearEnd, if_neg hle.not_gt]
    rw [List.drop_of_length_le hle]
    dsimp only
    rw [hend]
    exact .none (.idle rfl hk)

lemma clearEnd_phase (s : State) {k : List Frame} (hk : clears k = []) (c : ℕ) :
    Phase (clearEnd s c) k (s.buffer.drop c) := by
  have hbuf : (clearEnd s c).buffer = s.buffer.drop c := by
    unfold clearEnd
    split_ifs with h
    · rfl
    · exact (List.drop_of_length_le (not_lt.mp h)).symm
  rw [← hbuf]
  exact .idle rfl hk

/-- The frame of the loop leaves it while a write is pending, and else goes on with it. -/
lemma clearLoop_spec {s : State} {k : List Frame} {left : List WriteReq} {c : ℕ}
    (h : Phase s (.clearLoop c :: k) left) :
    (s.writing = true ∧ clearLoop cfg s c = .ret (clearEnd s (c + 1)) ∧
        Phase (clearEnd s (c + 1)) k left) ∨
      (s.writing = false ∧ Hands cfg s k left (clearLoop cfg s c)) := by
  have hcons : clears (.clearLoop c :: k) = .clearLoop c :: clears k := rfl
  cases h with
  | idle hb hk => simp [hcons] at hk
  | fast hb hk => simp [hcons] at hk
  | loop hb hk hc =>
    rw [hcons] at hk
    obtain ⟨he, hk'⟩ := List.cons.inj hk
    obtain rfl := Frame.clearLoop.inj he
    unfold clearLoop
    split_ifs with hw
    · exact .inl ⟨hw, rfl, clearEnd_phase s hk' _⟩
    · exact .inr ⟨by simpa using hw, clearFrom_hands cfg hb hk' _⟩

/-- The frame of the fast case empties the buffer. -/
lemma clearFast_phase {s : State} {k : List Frame} {left : List WriteReq}
    (h : Phase s (.clearFast :: k) left) :
    left = [] ∧ Phase { s with buffer := [], bufferProcessing := false } k [] := by
  have hcons : clears (.clearFast :: k) = .clearFast :: clears k := rfl
  cases h with
  | idle hb hk => simp [hcons] at hk
  | loop hb hk hc => simp [hcons] at hk
  | fast hb hk =>
    rw [hcons] at hk
    obtain ⟨-, hk⟩ := List.cons.inj hk
    exact ⟨rfl, .idle rfl hk⟩

/-- The state in which the fast case calls `_writev`. -/
def fastState (s : State) : State :=
  ({ s with bufferProcessing := true, pendingcb := s.pendingcb + 1 } : State).startWrite
    (s.buffer.map WriteReq.id) s.length (.writev (s.buffer.length - 1))

/-- `clearBuffer` hands everything to `_writev`, or the first write to `_write`. -/
lemma clearBuffer_spec {s : State} {k : List Frame} {left : List WriteReq}
    (hb : s.bufferProcessing = false) (h : Phase s k left) :
    (1 < left.length ∧ clearBuffer cfg s = .call (fastState s) [.doWrite, .clearFast] ∧
        Phase (fastState s) ([.doWrite, .clearFast] ++ k) []) ∨
      Hands cfg { s with bufferProcessing := true } k left (clearBuffer cfg s) := by
  obtain ⟨rfl, hk⟩ := h.eq_buffer hb
  unfold clearBuffer
  dsimp only
  split_ifs with hfast
  · have hkk : clears ([Frame.doWrite, Frame.clearFast] ++ k) = [.clearFast] := by
      rw [clears_append, hk]
      rfl
    have hlt : 1 < s.buffer.length := by
      simp only [Bool.and_eq_true, decide_eq_true_eq] at hfast
      exact hfast.2
    exact .inl ⟨hlt, rfl, .fast rfl hkk⟩
  · exact .inr (clearFrom_hands cfg rfl hk 0)

end NodeCore.WritableClear
