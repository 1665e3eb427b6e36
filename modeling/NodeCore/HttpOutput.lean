import NodeCore.HttpOutgoing
import NodeCore.EncodeConcat
import NodeCore.Ledger

/-!
The bytes of an output queue, and what `_buffer` does to them.

A queue stands for the bytes its entries encode to, one after the other. `_buffer` either adds
an entry or appends a string to the last one; the first always adds the string's own bytes,
the second only when encoding the joined string does. That is the whole difference between
buffering and writing at once.
-/

namespace NodeCore.HttpOutput

open NodeCore.Encoding NodeCore.EncodeConcat NodeCore.HttpOutgoing NodeCore.Ledger

/-- The bytes of a list of entries, each encoded on its own. -/
def wire : List Entry → Option Bytes
  | [] => some []
  | x :: q => (x.1.encode x.2).bind fun b => (wire q).map (b ++ ·)

@[simp] lemma wire_nil : wire [] = some [] := rfl

lemma wire_cons (x : Entry) (q : List Entry) :
    wire (x :: q) = (x.1.encode x.2).bind fun b => (wire q).map (b ++ ·) := rfl

@[simp] lemma wire_singleton (x : Entry) : wire [x] = x.1.encode x.2 := by
  cases h : x.1.encode x.2 <;> simp [wire, h]

lemma wire_append (q r : List Entry) :
    wire (q ++ r) = (wire q).bind fun b => (wire r).map (b ++ ·) := by
  induction q with
  | nil => simp
  | cons x q ih =>
    rw [List.cons_append, wire_cons, wire_cons, ih]
    cases x.1.encode x.2 with
    | none => rfl
    | some b => cases wire q <;> cases wire r <;> simp

lemma wire_concat (q : List Entry) (x : Entry) :
    wire (q ++ [x]) = (wire q).bind fun b => (x.1.encode x.2).map (b ++ ·) := by
  rw [wire_append, wire_singleton]

/-- A readable queue is readable entry by entry. -/
lemma wire_concat_some {q : List Entry} {x : Entry} {w : Bytes}
    (h : wire (q ++ [x]) = some w) :
    ∃ u v, wire q = some u ∧ x.1.encode x.2 = some v ∧ w = u ++ v := by
  rw [wire_concat] at h
  obtain ⟨u, hu, h⟩ := Option.bind_eq_some_iff.mp h
  obtain ⟨v, hv, rfl⟩ := Option.map_eq_some_iff.mp h
  exact ⟨u, v, hu, hv, rfl⟩

/-! ### The two ways of `_buffer` -/

lemma enqueue_join {q : List Entry} {last : Entry} {s : Str} {e : EncArg}
    (h : joins last e = true) :
    enqueue (q ++ [last]) (.str s) e = q ++ [(.str (text last.1 ++ s), last.2)] := by
  simp [enqueue, h]

lemma enqueue_new {q : List Entry} {d : Data} {e : EncArg}
    (h : ∀ s last, d = .str s → q.getLast? = some last → joins last e = false) :
    enqueue q d e = q ++ [(d, e)] := by
  unfold enqueue
  split
  · next s last hl => simp [h s last rfl hl]
  · rfl

lemma wire_join_iff {q : List Entry} {last : Entry} {s : Str} {e : EncArg} {w b : Bytes}
    (hw : wire (q ++ [last]) = some w) (h : joins last e = true) :
    wire (enqueue (q ++ [last]) (.str s) e) = some (w ++ b) ↔
      (Data.str (text last.1 ++ s)).encode last.2 = (last.1.encode last.2).map (· ++ b) := by
  obtain ⟨u, v, hu, hv, rfl⟩ := wire_concat_some hw
  rw [enqueue_join h, wire_concat, hu, hv]
  simp [List.append_assoc]

lemma wire_new_iff {q : List Entry} {d : Data} {e : EncArg} {w b : Bytes}
    (hw : wire q = some w)
    (h : ∀ s last, d = .str s → q.getLast? = some last → joins last e = false) :
    wire (enqueue q d e) = some (w ++ b) ↔ d.encode e = some b := by
  rw [enqueue_new h, wire_concat, hw]
  simp

/-! ### Pieces -/

/-- Something to write that its encoding accepts, with the bytes it has on its own. -/
structure Piece where
  data : Data
  enc : EncArg
  bytes : Bytes
  encodes : data.encode enc = some bytes

lemma write_nil (enc : Enc) : write enc [] = some [] := by cases enc <;> rfl

lemma Piece.bytes_nil (p : Piece) (h : p.data.length = 0) : p.bytes = [] := by
  obtain ⟨d, e, b, he⟩ := p
  cases d with
  | buf x =>
    have hx : x = [] := List.length_eq_zero_iff.mp h
    simp only [Data.encode, Option.some.injEq] at he
    exact he.symm.trans hx
  | str s =>
    have hs : s = [] := List.length_eq_zero_iff.mp h
    subst hs
    simp only [Data.encode, newBuffer] at he
    obtain ⟨enc, -, hb⟩ := Option.bind_eq_some_iff.mp he
    rw [write_nil] at hb
    exact (Option.some.inj hb).symm

/-- Where `_buffer` appends the piece to the last entry, the joined string encodes to the
bytes of the entry and then those of the piece. -/
def MergeSafe (q : List Entry) (p : Piece) : Prop :=
  ∀ s last, p.data = .str s → s ≠ [] → q.getLast? = some last → joins last p.enc = true →
    (Data.str (text last.1 ++ s)).encode last.2 = (last.1.encode last.2).map (· ++ p.bytes)

/-- `_buffer` of a piece adds its bytes exactly when a merge, if there is one, is safe. -/
theorem wire_buffer_iff {m : OutgoingMessage} {w : Bytes} (hw : wire m.output = some w)
    (p : Piece) :
    wire (m.buffer p.data p.enc).output = some (w ++ p.bytes) ↔ MergeSafe m.output p := by
  unfold OutgoingMessage.buffer
  split_ifs with h0
  · -- nothing is queued, and the piece has no bytes
    have hs : MergeSafe m.output p := fun s last hd hne _ _ => by
      rw [hd] at h0
      exact absurd (List.length_eq_zero_iff.mp h0) hne
    simp [p.bytes_nil h0, hw, hs]
  · by_cases hj : ∃ s last, p.data = .str s ∧ m.output.getLast? = some last ∧
        joins last p.enc = true
    · obtain ⟨s, last, hd, hl, hj⟩ := hj
      obtain ⟨q, hq⟩ := List.getLast?_eq_some_iff.mp hl
      have hne : s ≠ [] := fun hs => h0 (by rw [hd, hs]; rfl)
      simp only [hd, hq] at hw ⊢
      rw [wire_join_iff hw hj]
      constructor
      · intro h s' last' hs' _ hl' _
        rw [List.getLast?_concat] at hl'
        obtain rfl : s = s' := by simpa [hd] using hs'
        obtain rfl : last = last' := by simpa using hl'
        exact h
      · intro h
        exact h s last hd hne (by simp) hj
    · have hn : ∀ s last, p.data = .str s → m.output.getLast? = some last →
          joins last p.enc = false := by
        intro s last hd hl
        by_contra hc
        exact hj ⟨s, last, hd, hl, by simpa using hc⟩
      simp only [wire_new_iff hw hn, p.encodes, true_iff]
      intro s last hd _ hl hjl
      simp [hn s last hd hl] at hjl

/-! ### Which merges are safe

An entry of a single-byte encoding or of UCS-2 takes any string of its own encoding, one of
UTF-8 any that does not complete a surrogate pair. A string without an encoding is UTF-8: it
may join an entry of ASCII or binary only if it is ASCII text. -/

lemma mergeSafe_of_write {q : List Entry} {p : Piece} {l s : Str} {e : EncArg} {enc : Enc}
    (hl : q.getLast? = some (.str l, e)) (hp : p.data = .str s)
    (he : ofName (orUtf8 e) = some enc)
    (h : write enc (l ++ s) = (write enc l).map (· ++ p.bytes)) : MergeSafe q p := by
  intro s' last hd _ hl' _
  obtain rfl : (.str l, e) = last := by rw [hl] at hl'; exact Option.some.inj hl'
  obtain rfl : s = s' := by rw [hp] at hd; injection hd
  simpa [text, Data.encode, newBuffer, he] using h

theorem mergeSafe_same {q : List Entry} {p : Piece} {l s : Str} {e : EncArg} {enc : Enc}
    (hl : q.getLast? = some (.str l, e)) (hp : p.data = .str s)
    (he : ofName (orUtf8 e) = some enc) (hpe : ofName (orUtf8 p.enc) = some enc)
    (henc : enc = .ascii ∨ enc = .binary ∨ enc = .ucs2 ∨ enc = .utf8 ∧ seam l s = false) :
    MergeSafe q p := by
  refine mergeSafe_of_write hl hp he ?_
  have hb : write enc s = some p.bytes := by
    have := p.encodes
    rw [hp] at this
    simpa [Data.encode, newBuffer, hpe] using this
  rcases henc with rfl | rfl | rfl | ⟨rfl, hs⟩
  · simp only [write, Option.some.injEq, Option.map_some] at hb ⊢
    rw [writeOneByte_append, hb]
  · simp only [write, Option.some.injEq, Option.map_some] at hb ⊢
    rw [writeOneByte_append, hb]
  · simp only [write, Option.some.injEq, Option.map_some] at hb ⊢
    rw [writeUcs2_append, hb]
  · simp only [write, Option.some.injEq, Option.map_some] at hb ⊢
    rw [writeUtf8_append hs, hb]

theorem mergeSafe_ascii {q : List Entry} {p : Piece} {l s : Str} {e : EncArg} {enc : Enc}
    (hl : q.getLast? = some (.str l, e)) (hp : p.data = .str s) (hs : Ascii s)
    (he : ofName (orUtf8 e) = some enc)
    (henc : enc = .ascii ∨ enc = .binary ∨ enc = .utf8) (hpb : p.bytes = writeOneByte s) :
    MergeSafe q p := by
  refine mergeSafe_of_write hl hp he ?_
  rcases henc with rfl | rfl | rfl
  · simp [write, writeOneByte_append, hpb]
  · simp [write, writeOneByte_append, hpb]
  · simp [write, writeUtf8_append_ascii l hs, hpb]

/-! ### Messages -/

namespace OutgoingMessage

/-- The calls made to the connection. -/
def sent (m : OutgoingMessage) : List Entry :=
  match m.connection with
  | some c => c.written
  | none => []

end OutgoingMessage

/-- The message has no writable connection of its own, and none that was destroyed. -/
def Detached (m : OutgoingMessage) : Prop :=
  ∀ c, m.connection = some c → c.destroyed = false ∧ (c.mine && c.writable) = false

/-- The message has a writable connection of its own. -/
def Attached (m : OutgoingMessage) : Prop :=
  ∃ c, m.connection = some c ∧ c.mine = true ∧ c.writable = true ∧ c.destroyed = false

lemma Attached.not_detached {m : OutgoingMessage} (h : Attached m) : ¬ Detached m := by
  obtain ⟨c, hc, h1, h2, -⟩ := h
  intro hd
  simpa [h1, h2] using (hd c hc).2

lemma writeRaw_detached {m : OutgoingMessage} (h : Detached m) (d : Data) (e : EncArg) :
    (m.writeRaw d e).1 = m.buffer d e := by
  unfold OutgoingMessage.writeRaw
  split_ifs with h0
  · simp [OutgoingMessage.buffer, h0]
  · cases hc : m.connection with
    | none => rfl
    | some c =>
      obtain ⟨hd, hw⟩ := h c hc
      simp [hd, hw]

lemma shiftOut_writable {c : Connection} (h : c.writable = true) (q : List Entry) :
    shiftOut c q = ({ c with written := c.written ++ q }, []) := by
  induction q generalizing c with
  | nil => simp [shiftOut]
  | cons x q ih =>
    rw [shiftOut, if_pos h, ih (by exact h)]
    simp [Connection.write]

lemma writeRaw_attached {m : OutgoingMessage} {c : Connection} (hc : m.connection = some c)
    (h : c.mine = true ∧ c.writable = true ∧ c.destroyed = false) (d : Data) (e : EncArg)
    (h0 : d.length ≠ 0) :
    (m.writeRaw d e).1 =
      { m with output := []
               connection := some { c with written := c.written ++ m.output ++ [(d, e)] } } := by
  obtain ⟨h1, h2, h3⟩ := h
  simp [OutgoingMessage.writeRaw, h0, hc, h1, h2, h3, shiftOut_writable h2, Connection.write]

lemma flush_writable {m : OutgoingMessage} {c : Connection} (hc : m.connection = some c)
    (h : c.writable = true) :
    OutgoingMessage.sent m.flush = c.written ++ m.output ∧ m.flush.output = [] := by
  simp only [OutgoingMessage.flush, hc, shiftOut_writable h, OutgoingMessage.finish]
  split_ifs <;> simp_all [OutgoingMessage.sent]

lemma buffer_connection (m : OutgoingMessage) (d : Data) (e : EncArg) :
    (m.buffer d e).connection = m.connection := by
  unfold OutgoingMessage.buffer
  split_ifs <;> rfl

/-- A socket that has just been opened. -/
def Connection.fresh : Connection := ⟨true, true, false, 0, true, []⟩

lemma detached_new : Detached OutgoingMessage.new := by
  intro c hc
  simp [OutgoingMessage.new] at hc

end NodeCore.HttpOutput
