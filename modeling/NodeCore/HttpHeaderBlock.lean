import NodeCore.HttpOutput

/-!
Where the header block ends up: `_send` puts it on the wire with the first piece of the body.

It takes one of two ways. A string is appended to the header and sent in its own encoding; in
front of a Buffer the header goes to the head of the queue. The first is right for the
encodings in which ASCII text is its own bytes, the second when nothing is queued.
-/

namespace NodeCore.HttpHeaderBlock

open NodeCore.Encoding NodeCore.EncodeConcat NodeCore.HttpOutgoing NodeCore.HttpOutput
open NodeCore.Ledger

/-- A header block: ASCII text that ends with an end of line. -/
structure HeaderBlock (h : Str) : Prop where
  ascii : Ascii h
  ends : ∃ t, h = t ++ crlf

lemma HeaderBlock.two_le {h : Str} (hh : HeaderBlock h) : 2 ≤ h.length := by
  obtain ⟨t, rfl⟩ := hh.ends
  have : crlf.length = 2 := by decide
  rw [List.length_append]
  omega

/-- The encodings in which ASCII text is its own bytes. -/
def Plain (e : EncArg) : Prop :=
  ofName (orUtf8 e) = some .ascii ∨ ofName (orUtf8 e) = some .utf8 ∨
    ofName (orUtf8 e) = some .binary

instance : DecidablePred Plain := fun e =>
  inferInstanceAs (Decidable (ofName (orUtf8 e) = some .ascii ∨ ofName (orUtf8 e) = some .utf8 ∨
    ofName (orUtf8 e) = some .binary))

/-! ### A header in front of a string -/

lemma writeOneByte_length (s : Str) : (writeOneByte s).length = s.length := by
  simp [writeOneByte]

/-- In hex the decoder stops inside the header. -/
lemma hex_header_ne {h : Str} (hh : HeaderBlock h) (s : Str) (b : Bytes) :
    hexDecode (writeUtf8 (h ++ s)) ≠ writeOneByte h ++ b := by
  obtain ⟨t, rfl⟩ := hh.ends
  intro he
  have hcr : writeOneByte (t ++ crlf) = writeOneByte t ++ 13 :: [10] := by
    rw [writeOneByte_append]; rfl
  rw [writeUtf8_ascii_append hh.ascii, hcr, List.append_assoc, List.cons_append] at he
  have hle := hexDecode_length_le (u := writeOneByte t) (v := [10] ++ writeUtf8 s)
    (by decide : hex2bin 13 = none)
  rw [he] at hle
  simp only [List.length_append, writeOneByte_length, List.length_cons] at hle
  omega

/-- In base64 the header gives fewer bytes than it has characters. -/
lemma base64_header_ne {h : Str} (hh : HeaderBlock h) (s : Str) :
    base64Decode (base64DecodedSize (writeUtf8 (h ++ s))) 0 0 (writeUtf8 (h ++ s)) ≠
      writeOneByte h ++ base64Decode (base64DecodedSize (writeUtf8 s)) 0 0 (writeUtf8 s) := by
  intro he
  have hl := congrArg List.length he
  rw [List.length_append, base64_length, base64_length, writeUtf8_ascii_append hh.ascii,
    sextets_append, writeOneByte_length] at hl
  obtain ⟨t, rfl⟩ := hh.ends
  have h0 : sextets (writeOneByte crlf) = 0 := by decide
  have h1 := sextets_le (writeOneByte t)
  have h2 : crlf.length = 2 := by decide
  rw [writeOneByte_append, sextets_append, h0, List.length_append, h2] at hl
  rw [writeOneByte_length] at h1
  omega

/-- **A header in front of a string keeps its bytes exactly in the plain encodings.** -/
theorem header_encode_iff {h : Str} (hh : HeaderBlock h) {s : Str} {e : EncArg} {b : Bytes}
    (hb : (Data.str s).encode e = some b) :
    (Data.str (h ++ s)).encode e = some (writeOneByte h ++ b) ↔ Plain e := by
  simp only [Data.encode, newBuffer] at hb ⊢
  obtain ⟨enc, henc, hb⟩ := Option.bind_eq_some_iff.mp hb
  have h2 := hh.two_le
  simp only [Plain, henc, Option.bind_some, Option.some.injEq]
  cases enc with
  | ascii => simp_all [write, writeOneByte_append]
  | binary => simp_all [write, writeOneByte_append]
  | utf8 => simp_all [write, writeUtf8_ascii_append hh.ascii]
  | ucs2 =>
    have hne : ¬ writeUcs2 (h ++ s) = writeOneByte h ++ b := by
      intro he
      obtain rfl : writeUcs2 s = b := by simpa [write] using hb
      have := congrArg List.length he
      simp only [List.length_append, writeUcs2_length, writeOneByte_length] at this
      omega
    simp [write, hne]
  | base64 =>
    obtain rfl : base64Decode (base64DecodedSize (writeUtf8 s)) 0 0 (writeUtf8 s) = b := by
      simpa [write] using hb
    simp [write, base64_header_ne hh s]
  | hex =>
    have hne := hex_header_ne hh s b
    simp only [write]
    split_ifs <;> simp [hne]

/-! ### Sending -/

/-- Everything a message has given or will give to its connection. -/
def traffic (m : OutgoingMessage) : List Entry := OutgoingMessage.sent m ++ m.output

/-- Flushing moves entries from the queue to the connection and changes nothing else. -/
lemma traffic_flush {m : OutgoingMessage} {c : Connection} (hc : m.connection = some c)
    (h : c.writable = true) : traffic m.flush = traffic m := by
  obtain ⟨h1, h2⟩ := flush_writable hc h
  have h3 : OutgoingMessage.sent m = c.written := by simp [OutgoingMessage.sent, hc]
  rw [traffic, h1, h2, traffic, h3, List.append_nil]

/-- One `_send` of a piece. -/
def sendStep (m : OutgoingMessage) (p : Piece) : OutgoingMessage := (m.send p.data p.enc).1

/-- The header block is worth its ASCII bytes, once. -/
def sendWorth (m : OutgoingMessage) (p : Piece) : Bytes :=
  (if m.headerSent then [] else writeOneByte m.header) ++ p.bytes

/-- `_buffer` appends a string of this encoding to the entry. -/
def JoinsLast (m : OutgoingMessage) (e : EncArg) (last : Entry) : Prop :=
  Detached m ∧ m.output.getLast? = some last ∧ joins last e = true

/-- The first piece takes the header with it unharmed. A Buffer: the header may change places
with what is queued. A string: it is in a plain encoding, or, where it is appended to a queued
entry, header and string encode there as they do on their own. -/
def HeaderSafe (m : OutgoingMessage) (p : Piece) : Prop :=
  match p.data with
  | .buf _ => ∀ w, wire m.output = some w →
      writeOneByte m.header ++ w = w ++ writeOneByte m.header
  | .str s =>
    (∀ last, JoinsLast m p.enc last →
      (Data.str (text last.1 ++ (m.header ++ s))).encode last.2 =
        (last.1.encode last.2).map (· ++ (writeOneByte m.header ++ p.bytes))) ∧
    ((¬ ∃ last, JoinsLast m p.enc last) → Plain p.enc)

/-- A step of `_send` that is right. -/
def SendSafe (m : OutgoingMessage) (p : Piece) : Prop :=
  if m.headerSent then Detached m → MergeSafe m.output p else HeaderSafe m p

lemma wire_traffic {m : OutgoingMessage} {w : Bytes} (h : wire (traffic m) = some w) :
    ∃ u v, wire (OutgoingMessage.sent m) = some u ∧ wire m.output = some v ∧ w = u ++ v := by
  rw [traffic, wire_append] at h
  obtain ⟨u, hu, h⟩ := Option.bind_eq_some_iff.mp h
  obtain ⟨v, hv, rfl⟩ := Option.map_eq_some_iff.mp h
  exact ⟨u, v, hu, hv, rfl⟩

lemma wire_append_iff {q r : List Entry} {u v : Bytes} (h : wire q = some u) :
    wire (q ++ r) = some (u ++ v) ↔ wire r = some v := by
  rw [wire_append, h]
  simp

lemma encode_ascii_header (h : Str) :
    (Data.str h).encode (some (js "ascii")) = some (writeOneByte h) := by
  have : ofName (orUtf8 (some (js "ascii"))) = some .ascii := by decide
  simp only [Data.encode, newBuffer, this, Option.bind_some, write]

/-- With a writable connection the queue and the data go straight to it. -/
lemma wire_writeRaw_attached {m : OutgoingMessage} (hm : Attached m) {w v : Bytes}
    (hw : wire (traffic m) = some w) (d : Data) (e : EncArg) (h0 : d.length ≠ 0) :
    wire (traffic (m.writeRaw d e).1) = some (w ++ v) ↔ d.encode e = some v := by
  obtain ⟨c, hc, h⟩ := hm
  have ht : traffic (m.writeRaw d e).1 = traffic m ++ [(d, e)] := by
    rw [writeRaw_attached hc h d e h0]
    simp [traffic, OutgoingMessage.sent, hc]
  rw [ht, wire_append_iff hw, wire_singleton]

/-- Without one the data goes into the queue. -/
lemma wire_writeRaw_detached {m : OutgoingMessage} (hm : Detached m) {u v w : Bytes}
    (hu : wire (OutgoingMessage.sent m) = some u) (d : Data) (e : EncArg) :
    wire (traffic (m.writeRaw d e).1) = some (u ++ v ++ w) ↔
      wire (m.buffer d e).output = some (v ++ w) := by
  have hs : OutgoingMessage.sent (m.buffer d e) = OutgoingMessage.sent m := by
    simp [OutgoingMessage.sent, buffer_connection]
  rw [writeRaw_detached hm, traffic, hs, List.append_assoc, wire_append_iff hu]

lemma writeRaw_empty (m : OutgoingMessage) {d : Data} (e : EncArg) (h : d.length = 0) :
    (m.writeRaw d e).1 = m := by
  simp [OutgoingMessage.writeRaw, h]

lemma mergeSafe_empty {q : List Entry} {p : Piece} (h : p.data.length = 0) : MergeSafe q p := by
  intro s last hd hne _ _
  rw [hd] at h
  exact absurd (List.length_eq_zero_iff.mp h) hne

/-- A piece written as it is, behind whatever was sent or queued before. -/
lemma wire_writeRaw_iff {m : OutgoingMessage} (hm : Attached m ∨ Detached m) {w : Bytes}
    (hw : wire (traffic m) = some w) (p : Piece) :
    wire (traffic (m.writeRaw p.data p.enc).1) = some (w ++ p.bytes) ↔
      (Detached m → MergeSafe m.output p) := by
  by_cases h0 : p.data.length = 0
  · rw [writeRaw_empty m p.enc h0, hw, p.bytes_nil h0]
    simp [mergeSafe_empty h0]
  · rcases hm with hm | hm
    · rw [wire_writeRaw_attached hm hw _ _ h0]
      exact iff_of_true p.encodes fun hd => absurd hd hm.not_detached
    · obtain ⟨u, v, hu, hv, rfl⟩ := wire_traffic hw
      rw [wire_writeRaw_detached hm hu, wire_buffer_iff hv]
      simp [hm]

lemma send_sent {m : OutgoingMessage} (h : m.headerSent = true) (d : Data) (e : EncArg) :
    m.send d e = m.writeRaw d e := by
  simp [OutgoingMessage.send, h]

section First

variable {m : OutgoingMessage} (hs : m.headerSent = false) (hm : Attached m ∨ Detached m)
  {w : Bytes} (hw : wire (traffic m) = some w)

include hs hm hw

/-- The header in front of a string. -/
lemma wire_send_str_iff (hh : HeaderBlock m.header) {p : Piece} {s : Str} (hp : p.data = .str s) :
    wire (traffic (sendStep m p)) = some (w ++ (writeOneByte m.header ++ p.bytes)) ↔
      HeaderSafe m p := by
  have hpe := p.encodes
  have h0 : (Data.str (m.header ++ s)).length ≠ 0 := by
    have := hh.two_le
    simp only [Data.length, List.length_append]
    omega
  have hsend : sendStep m p =
      ({ m with headerSent := true }.writeRaw (.str (m.header ++ s)) p.enc).1 := by
    simp [sendStep, OutgoingMessage.send, hs, hp]
  rw [hp] at hpe
  simp only [HeaderSafe, hp, hsend]
  rcases hm with hm | hm
  · have hj : ∀ last, ¬ JoinsLast m p.enc last := fun last h => hm.not_detached h.1
    rw [wire_writeRaw_attached (m := { m with headerSent := true }) hm hw _ _ h0,
      header_encode_iff hh hpe]
    simp [hj]
  · obtain ⟨u, v, hu, hv, rfl⟩ := wire_traffic hw
    rw [wire_writeRaw_detached (m := { m with headerSent := true }) hm hu]
    simp only [OutgoingMessage.buffer, if_neg h0]
    by_cases hj : ∃ last, JoinsLast m p.enc last
    · obtain ⟨last, hl⟩ := hj
      obtain ⟨q, hq⟩ := List.getLast?_eq_some_iff.mp hl.2.1
      rw [hq] at hv ⊢
      rw [wire_join_iff hv hl.2.2]
      constructor
      · refine fun h => ⟨fun last' hl' => ?_, fun hn => absurd ⟨last, hl⟩ hn⟩
        obtain rfl : last = last' := by
          have := hl'.2.1
          rw [hl.2.1] at this
          exact Option.some.inj this
        exact h
      · exact fun h => h.1 last hl
    · have hn : ∀ s' last, Data.str (m.header ++ s) = .str s' →
          m.output.getLast? = some last → joins last p.enc = false := by
        intro s' last _ hl
        by_contra hc
        exact hj ⟨last, hm, hl, by simpa using hc⟩
      rw [wire_new_iff hv hn, header_encode_iff hh hpe]
      constructor
      · exact fun h => ⟨fun last hl => absurd ⟨last, hl⟩ hj, fun _ => h⟩
      · exact fun h => h.2 hj

/-- The header at the head of the queue, in front of a Buffer. -/
lemma wire_send_buf_iff {p : Piece} {b : Bytes} (hp : p.data = .buf b) :
    wire (traffic (sendStep m p)) = some (w ++ (writeOneByte m.header ++ p.bytes)) ↔
      HeaderSafe m p := by
  obtain ⟨u, v, hu, hv, rfl⟩ := wire_traffic hw
  set m' : OutgoingMessage := { m with
    headerSent := true
    output := (.str m.header, some (js "ascii")) :: m.output } with hm'
  have hsend : sendStep m p = (m'.writeRaw p.data p.enc).1 := by
    simp [sendStep, OutgoingMessage.send, hs, hp, hm']
  have hw' : wire (traffic m') = some (u ++ (writeOneByte m.header ++ v)) := by
    have : traffic m' = OutgoingMessage.sent m ++ m'.output := rfl
    rw [this, wire_append_iff hu, wire_cons, encode_ascii_header, hv]
    rfl
  have hsafe : Detached m' → MergeSafe m'.output p := by
    intro _ s last hd
    rw [hp] at hd
    cases hd
  have h := (wire_writeRaw_iff (m := m') hm hw' p).mpr hsafe
  rw [hsend, h]
  simp only [HeaderSafe, hp, hv, Option.some.injEq, forall_eq']
  rw [List.append_assoc u, List.append_assoc u, List.append_cancel_left_eq,
    ← List.append_assoc v, List.append_cancel_right_eq]

end First

/-- **The first piece**: the header goes out in front of it, behind everything earlier, exactly
when the piece is safe for it. -/
theorem wire_send_iff {m : OutgoingMessage} (hs : m.headerSent = false)
    (hh : HeaderBlock m.header) (hm : Attached m ∨ Detached m) {w : Bytes}
    (hw : wire (traffic m) = some w) (p : Piece) :
    wire (traffic (sendStep m p)) = some (w ++ (writeOneByte m.header ++ p.bytes)) ↔
      HeaderSafe m p := by
  cases hp : p.data with
  | str s => exact wire_send_str_iff hs hm hw hh hp
  | buf b => exact wire_send_buf_iff hs hm hw hp

/-! ### Runs

A response may be given its socket at any time, once. The socket has nothing of this message
on it yet, and takes what it is given. -/

/-- A connection that carries nothing of the message yet. -/
def Idle (c : Connection) : Prop := c.writable = true ∧ c.destroyed = false ∧ c.written = []

/-- What is done to a message whose header is stored. -/
inductive Op
  | send (p : Piece)
  | cork
  | uncork
  | assignSocket (socket : Connection) (idle : Idle socket)

def Op.bytes : Op → Bytes
  | .send p => p.bytes
  | _ => []

def Op.isSend : Op → Bool
  | .send _ => true
  | _ => false

/-- One operation. The server gives a socket to a response that has none. -/
def step (m : OutgoingMessage) : Op → OutgoingMessage
  | .send p => sendStep m p
  | .cork => m.cork
  | .uncork => m.uncork
  | .assignSocket socket _ => if m.connection.isNone then m.assignSocket socket else m

def worth (m : OutgoingMessage) : Op → Bytes
  | .send p => sendWorth m p
  | _ => []

def Safe (m : OutgoingMessage) : Op → Prop
  | .send p => SendSafe m p
  | _ => True

/-- The header block, once something has been sent. -/
def block (h : Str) (ops : List Op) : Bytes := if ops.any Op.isSend then writeOneByte h else []

lemma traffic_cork (m : OutgoingMessage) : traffic m.cork = traffic m := by
  cases hc : m.connection <;>
    simp [traffic, OutgoingMessage.cork, OutgoingMessage.sent, hc, Connection.cork]

lemma traffic_uncork (m : OutgoingMessage) : traffic m.uncork = traffic m := by
  cases hc : m.connection <;>
    simp [traffic, OutgoingMessage.uncork, OutgoingMessage.sent, hc, Connection.uncork]

lemma traffic_assignSocket {m : OutgoingMessage} (hm : m.connection = none) {c : Connection}
    (hc : Idle c) : traffic (m.assignSocket c) = traffic m := by
  obtain ⟨h1, -, h3⟩ := hc
  rw [OutgoingMessage.assignSocket, traffic_flush (c := { c with mine := true }) rfl h1]
  simp [traffic, OutgoingMessage.sent, hm, h3]

/-- The connection is the message's own and takes what it is given, or it is not there yet. -/
def Linked (m : OutgoingMessage) : Prop := Attached m ∨ Detached m

/-- `_writeRaw` touches the queue and the connection. -/
lemma writeRaw_frame (m : OutgoingMessage) (d : Data) (e : EncArg) :
    ∃ q c, (m.writeRaw d e).1 = { m with output := q, connection := c } := by
  have hb : ∀ m' : OutgoingMessage, ∃ q, m'.buffer d e = { m' with output := q } := fun m' => by
    unfold OutgoingMessage.buffer
    split_ifs
    · exact ⟨_, rfl⟩
    · exact ⟨_, rfl⟩
  unfold OutgoingMessage.writeRaw
  split_ifs
  · exact ⟨_, _, rfl⟩
  · cases m.connection with
    | none =>
      obtain ⟨q, hq⟩ := hb m
      exact ⟨q, _, hq⟩
    | some c =>
      dsimp only
      split_ifs
      · obtain ⟨q, hq⟩ := hb { m with
          connection := some (shiftOut c m.output).1, output := (shiftOut c m.output).2 }
        exact ⟨q, _, hq⟩
      · exact ⟨_, _, rfl⟩
      · exact ⟨_, _, rfl⟩
      · obtain ⟨q, hq⟩ := hb m
        exact ⟨q, _, hq⟩

lemma flush_frame (m : OutgoingMessage) :
    ∃ q c ev, m.flush = { m with output := q, connection := c, emitted := ev } := by
  unfold OutgoingMessage.flush
  cases m.connection with
  | none => exact ⟨_, _, _, rfl⟩
  | some c =>
    dsimp only
    split_ifs <;> exact ⟨_, _, _, rfl⟩

lemma Linked.writeRaw {m : OutgoingMessage} (h : Linked m) (d : Data) (e : EncArg) :
    Linked (m.writeRaw d e).1 := by
  by_cases h0 : d.length = 0
  · rwa [writeRaw_empty m e h0]
  · rcases h with ⟨c, hc, h⟩ | h
    · rw [writeRaw_attached hc h d e h0]
      exact .inl ⟨_, rfl, h⟩
    · rw [writeRaw_detached h]
      refine .inr fun c hc => h c ?_
      rwa [buffer_connection] at hc

lemma Linked.sendStep {m : OutgoingMessage} (h : Linked m) (p : Piece) :
    Linked (sendStep m p) := by
  unfold HttpHeaderBlock.sendStep OutgoingMessage.send
  split_ifs
  · exact h.writeRaw _ _
  · cases p.data with
    | str s => exact Linked.writeRaw (m := { m with headerSent := true }) h _ _
    | buf b =>
      exact Linked.writeRaw (m := { m with
        headerSent := true
        output := (.str m.header, some (js "ascii")) :: m.output }) h _ _

lemma linked_assignSocket (m : OutgoingMessage) {c : Connection} (hc : Idle c) :
    Linked (m.assignSocket c) := by
  obtain ⟨h1, h2, -⟩ := hc
  refine .inl ?_
  simp only [OutgoingMessage.assignSocket, OutgoingMessage.flush, OutgoingMessage.finish,
    shiftOut_writable (c := { c with mine := true }) h1]
  split_ifs <;> exact ⟨_, rfl, rfl, h1, h2⟩

/-- A change to the connection that keeps what a link is about. -/
lemma Linked.map {m : OutgoingMessage} (h : Linked m) {f : Connection → Connection}
    (hf : ∀ c, (f c).mine = c.mine ∧ (f c).writable = c.writable ∧
      (f c).destroyed = c.destroyed) :
    Linked { m with connection := m.connection.map f } := by
  rcases h with ⟨c, hc, h⟩ | h
  · obtain ⟨h1, h2, h3⟩ := hf c
    exact .inl ⟨f c, by simp [hc], h1 ▸ h2 ▸ h3 ▸ h⟩
  · refine .inr fun c' hc' => ?_
    obtain ⟨c, hc, rfl⟩ := Option.map_eq_some_iff.mp hc'
    obtain ⟨h1, h2, h3⟩ := hf c
    exact h1 ▸ h2 ▸ h3 ▸ h c hc

lemma Linked.step {m : OutgoingMessage} (h : Linked m) (op : Op) : Linked (step m op) := by
  cases op with
  | send p => exact h.sendStep p
  | assignSocket c hc =>
    unfold HttpHeaderBlock.step
    dsimp only
    split_ifs
    · exact linked_assignSocket m hc
    · exact h
  | cork => exact h.map fun _ => ⟨rfl, rfl, rfl⟩
  | uncork => exact h.map fun _ => ⟨rfl, rfl, rfl⟩

lemma send_frame (m : OutgoingMessage) (d : Data) (e : EncArg) :
    ∃ q c, (m.send d e).1 = { m with output := q, connection := c, headerSent := true } := by
  unfold OutgoingMessage.send
  split_ifs with h
  · obtain ⟨q, c, hq⟩ := writeRaw_frame m d e
    exact ⟨q, c, by rw [hq, ← h]⟩
  · cases d with
    | str s => exact writeRaw_frame { m with headerSent := true } _ _
    | buf b =>
      exact writeRaw_frame { m with
        headerSent := true
        output := (.str m.header, some (js "ascii")) :: m.output } _ _

lemma sendStep_frame (m : OutgoingMessage) (p : Piece) :
    ∃ q c, sendStep m p = { m with output := q, connection := c, headerSent := true } :=
  send_frame m p.data p.enc

/-- What an operation touches. -/
lemma step_frame (m : OutgoingMessage) (op : Op) :
    ∃ q c ev, step m op = { m with
      output := q, connection := c, emitted := ev, headerSent := m.headerSent || op.isSend } := by
  cases op with
  | send p =>
    obtain ⟨q, c, h⟩ := sendStep_frame m p
    exact ⟨q, c, m.emitted, by simpa [step, Op.isSend] using h⟩
  | cork => exact ⟨m.output, _, m.emitted, by simp [step, Op.isSend, OutgoingMessage.cork]; rfl⟩
  | uncork => exact ⟨m.output, _, m.emitted, by simp [step, Op.isSend, OutgoingMessage.uncork]; rfl⟩
  | assignSocket c hc =>
    simp only [step, Op.isSend, Bool.or_false]
    split_ifs
    · exact flush_frame { m with connection := some { c with mine := true } }
    · exact ⟨_, _, _, rfl⟩

lemma step_header (m : OutgoingMessage) (op : Op) :
    (step m op).header = m.header ∧ (step m op).headerSent = (m.headerSent || op.isSend) := by
  obtain ⟨q, c, ev, h⟩ := step_frame m op
  rw [h]
  exact ⟨rfl, rfl⟩

/-- A run is worth its header block, if it is still to come, and its pieces. -/
lemma total_eq (m : OutgoingMessage) (ops : List Op) :
    total step worth m ops =
      if m.headerSent then ops.flatMap Op.bytes
      else block m.header ops ++ ops.flatMap Op.bytes := by
  induction ops generalizing m with
  | nil => simp [block]
  | cons op t ih =>
    obtain ⟨h1, h2⟩ := step_header m op
    rw [total_cons, ih, h1, h2]
    cases hs : m.headerSent <;> cases op <;>
      simp [worth, sendWorth, hs, Op.bytes, Op.isSend, block]

lemma exact_step_iff {m : OutgoingMessage} (hm : Linked m)
    (hh : m.headerSent = false → HeaderBlock m.header) {w : Bytes}
    (hw : wire (traffic m) = some w) (op : Op) :
    Exact step (fun m => wire (traffic m)) worth m op ↔ Safe m op := by
  have silent : ∀ m', traffic m' = traffic m → wire (traffic m') = some (w ++ []) :=
    fun m' h => by rw [h, hw, List.append_nil]
  rw [Exact, hw, Option.map_some]
  cases op with
  | cork => exact iff_of_true (silent _ (traffic_cork m)) trivial
  | uncork => exact iff_of_true (silent _ (traffic_uncork m)) trivial
  | assignSocket c hc =>
    refine iff_of_true (silent _ ?_) trivial
    simp only [step]
    split_ifs with hn
    · exact traffic_assignSocket (by simpa using hn) hc
    · rfl
  | send p =>
    simp only [step, worth, sendWorth, Safe, SendSafe]
    cases hs : m.headerSent with
    | true =>
      simpa [sendStep, send_sent hs] using wire_writeRaw_iff hm hw p
    | false => simpa using wire_send_iff hs (hh hs) hm hw p

lemma steps_iff {m : OutgoingMessage} (hm : Linked m)
    (hh : m.headerSent = false → HeaderBlock m.header) {w : Bytes}
    (hw : wire (traffic m) = some w) (ops : List Op) :
    Steps step (fun m => wire (traffic m)) worth m ops ↔ Along step Safe m ops := by
  refine along_iff (I := fun m => Linked m ∧ (m.headerSent = false → HeaderBlock m.header) ∧
    ∃ w, wire (traffic m) = some w) ?_ ?_ ⟨hm, hh, w, hw⟩ ops
  · rintro m op ⟨hm, hh, w, hw⟩
    exact exact_step_iff hm hh hw op
  · rintro m op ⟨hm, hh, w, hw⟩ he
    obtain ⟨h1, h2⟩ := step_header m op
    refine ⟨hm.step op, fun hf => ?_, w ++ worth m op, by rw [Exact, hw] at he; exact he⟩
    rw [h2, Bool.or_eq_false_iff] at hf
    exact h1 ▸ hh hf.1

/-- A response whose header is stored, not yet at the head of its connection. -/
def waiting (h : Str) : OutgoingMessage := { OutgoingMessage.new with header := h }

/-- `HTTP/1.1 200 OK`, and the empty line. -/
def okHeader : Str := js "HTTP/1.1 200 OK\r\n\r\n"

lemma okHeader_block : HeaderBlock okHeader := by
  refine ⟨by decide, js "HTTP/1.1 200 OK\r\n", by decide⟩

end NodeCore.HttpHeaderBlock
