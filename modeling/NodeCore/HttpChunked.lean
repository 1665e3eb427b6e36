import NodeCore.HttpHeaderBlock
import NodeCore.Chunked

/-!
Chunked bodies: what `write` and `end` send for a chunk, and that a reader gets it back.

`write` frames a string as text and sends the frame in the encoding of the chunk, so the size
line is right only where ASCII text is its own bytes. For the names `'hex'`, `'base64'` and
`'binary'`, and for Buffers, it sends the chunk between two lines of its own, without the
encoding.
-/

namespace NodeCore.HttpChunked

open NodeCore.Encoding NodeCore.EncodeConcat NodeCore.HttpOutgoing NodeCore.HttpOutput
open NodeCore.HttpHeaderBlock NodeCore.Ledger

/-- A chunk whose frame is right: a Buffer, ASCII text under the name `'binary'`, any other
string in a plain encoding. -/
def Framed (d : Data) (e : EncArg) : Prop :=
  match d with
  | .buf _ => True
  | .str s => s = [] ∨
      (if OutgoingMessage.unfriendly e then e = some (js "binary") ∧ Ascii s else Plain e)

structure Chunk extends Piece where
  framed : Framed data enc

/-! ### Text around a chunk -/

lemma crlf_ascii : Ascii crlf := by decide

lemma writeOneByte_crlf : writeOneByte crlf = [13, 10] := by decide

lemma writeUtf8_crlf : writeUtf8 crlf = [13, 10] := by decide

/-- A digit of a size is ASCII. -/
lemma digitChar_unit {d : ℕ} (hd : d < 16) :
    UInt16.ofNat (Nat.digitChar d).toNat < 0x80 ∧
      (UInt16.ofNat (Nat.digitChar d).toNat).toUInt8 = UInt8.ofNat (Nat.digitChar d).toNat := by
  have h : ∀ d : Fin 16, UInt16.ofNat (Nat.digitChar d).toNat < 0x80 ∧
      (UInt16.ofNat (Nat.digitChar d).toNat).toUInt8 =
        UInt8.ofNat (Nat.digitChar d).toNat := by decide
  exact h ⟨d, hd⟩

lemma toString16_of_lt {n : ℕ} (hn : n < 16) :
    toString16 n = [UInt16.ofNat (Nat.digitChar n).toNat] := by
  rw [toString16, Nat.toDigits_of_lt_base hn]
  rfl

lemma toString16_of_le {n : ℕ} (hn : 16 ≤ n) :
    toString16 n = toString16 (n / 16) ++ [UInt16.ofNat (Nat.digitChar (n % 16)).toNat] := by
  rw [toString16, Nat.toDigits_of_base_le (by omega) hn, List.map_append]
  rfl

/-- A size is ASCII text, and its bytes are those of the size line. -/
lemma toString16_spec (n : ℕ) :
    Ascii (toString16 n) ∧ writeOneByte (toString16 n) = Chunked.digits n := by
  induction n using Nat.strongRecOn with
  | ind n ih =>
    rcases Nat.lt_or_ge n 16 with hn | hn
    · obtain ⟨h1, h2⟩ := digitChar_unit hn
      rw [toString16_of_lt hn, Chunked.digits_of_lt hn]
      exact ⟨fun c hc => List.mem_singleton.mp hc ▸ h1, congrArg (fun b => [b]) h2⟩
    · obtain ⟨h1, h2⟩ := digitChar_unit (by omega : n % 16 < 16)
      obtain ⟨i1, i2⟩ := ih (n / 16) (by omega)
      rw [toString16_of_le hn, Chunked.digits_of_le hn, writeOneByte_append, i2]
      refine ⟨i1.append fun c hc => List.mem_singleton.mp hc ▸ h1, ?_⟩
      exact congrArg (fun b => Chunked.digits (n / 16) ++ [b]) h2

lemma writeUtf8_toString16 (n : ℕ) : writeUtf8 (toString16 n) = Chunked.digits n := by
  obtain ⟨h1, h2⟩ := toString16_spec n
  rw [writeUtf8_ascii h1, h2]

/-- In a plain encoding ASCII text around a string stays what it is. -/
lemma plain_encode {h s t : Str} (hh : Ascii h) (ht : Ascii t) {e : EncArg} (he : Plain e)
    {b : Bytes} (hb : newBuffer s e = some b) :
    newBuffer (h ++ s ++ t) e = some (writeOneByte h ++ b ++ writeOneByte t) := by
  rcases he with he | he | he
  · obtain rfl : writeOneByte s = b := by simpa [newBuffer, he, write] using hb
    simp [newBuffer, he, write, writeOneByte_append]
  · obtain rfl : writeUtf8 s = b := by simpa [newBuffer, he, write] using hb
    simp only [newBuffer, he, write, Option.bind_some]
    rw [List.append_assoc, writeUtf8_ascii_append hh, writeUtf8_append_ascii s ht,
      List.append_assoc]
  · obtain rfl : writeOneByte s = b := by simpa [newBuffer, he, write] using hb
    simp [newBuffer, he, write, writeOneByte_append]

/-- The names that `byteLength` alone knows. -/
lemma ofName_raw {n : Str}
    (h : toLowerCase n = js "buffer" ∨ toLowerCase n = js "raw" ∨ toLowerCase n = js "raws") :
    ofName n = none := by
  unfold ofName
  rcases h with h | h | h <;> rw [h] <;> decide

/-- In a plain encoding `byteLength` is the number of bytes. -/
lemma byteLength_plain {s : Str} {e : EncArg} (he : Plain e) {b : Bytes}
    (hb : newBuffer s e = some b) : byteLength s e = b.length := by
  have hraw : ¬ (toLowerCase (orUtf8 e) = js "buffer" ∨ toLowerCase (orUtf8 e) = js "raw" ∨
      toLowerCase (orUtf8 e) = js "raws") := by
    intro h
    have hn := ofName_raw h
    rcases he with he | he | he <;> simp [hn] at he
  simp only [byteLength, if_neg hraw]
  rcases he with he | he | he
  all_goals
    simp only [newBuffer, he, write, Option.bind_some, Option.some.injEq] at hb
    simp [he, ← hb, writeOneByte_length]

lemma plain_length_ge {s : Str} {e : EncArg} (he : Plain e) {b : Bytes}
    (hb : newBuffer s e = some b) : s.length ≤ b.length := by
  have h8 := writeUtf8_length_ge s
  rcases he with he | he | he
  all_goals
    simp only [newBuffer, he, write, Option.bind_some, Option.some.injEq] at hb
    simp [← hb, writeOneByte_length, h8]

/-! ### What a chunk is sent as -/

def utf8Piece (s : Str) : Piece := ⟨.str s, none, writeUtf8 s, rfl⟩

def bufPiece (b : Bytes) : Piece := ⟨.buf b, none, b, rfl⟩

/-- The four sends of `sendParts`. -/
def parts (n : ℕ) (p : Piece) : List Op :=
  [.cork, .send (utf8Piece (toString16 n)), .send (bufPiece (writeUtf8 crlf)), .send p,
    .send (bufPiece (writeUtf8 crlf)), .uncork]

/-- The text of a frame. -/
def frameText (s : Str) (e : EncArg) : Str :=
  toString16 (byteLength s e) ++ crlf ++ s ++ crlf

lemma frameText_encode {s : Str} {e : EncArg} (he : Plain e) {b : Bytes}
    (hb : newBuffer s e = some b) :
    newBuffer (frameText s e) e = some (Chunked.frame b) := by
  obtain ⟨h1, h2⟩ := toString16_spec (byteLength s e)
  have h := plain_encode (h1.append crlf_ascii) crlf_ascii he hb
  rw [frameText, h, writeOneByte_append, h2, writeOneByte_crlf, byteLength_plain he hb]
  rfl

/-- The chunk goes out between two lines. -/
def Chunk.inParts (c : Chunk) : Bool :=
  match c.data with
  | .buf _ => true
  | .str _ => OutgoingMessage.unfriendly c.enc

lemma Chunk.encode_parts (c : Chunk) (h0 : c.data.length ≠ 0) (h : c.inParts = true) :
    c.data.encode none = some c.bytes ∧ c.data.length = c.bytes.length := by
  obtain ⟨⟨d, e, b, hb⟩, hf⟩ := c
  cases d with
  | buf x =>
    obtain rfl : x = b := by simpa [Data.encode] using hb
    exact ⟨rfl, rfl⟩
  | str s =>
    have hu : OutgoingMessage.unfriendly e = true := h
    have hs : s ≠ [] := fun hs => h0 (List.length_eq_zero_iff.mpr hs)
    obtain ⟨rfl, ha⟩ : e = some (js "binary") ∧ Ascii s := by simpa [Framed, hs, hu] using hf
    have hn : ofName (orUtf8 (some (js "binary"))) = some .binary := by decide
    have h8 : ofName (orUtf8 none) = some .utf8 := by decide
    obtain rfl : writeOneByte s = b := by simpa [Data.encode, newBuffer, hn, write] using hb
    refine ⟨?_, (writeOneByte_length s).symm⟩
    simp [Data.encode, newBuffer, h8, write, writeUtf8_ascii ha]

lemma Chunk.plain (c : Chunk) (h0 : c.data.length ≠ 0) (h : c.inParts = false) :
    Plain c.enc ∧ newBuffer (text c.data) c.enc = some c.bytes := by
  obtain ⟨⟨d, e, b, hb⟩, hf⟩ := c
  cases d with
  | buf x => simp [Chunk.inParts] at h
  | str s =>
    have hu : OutgoingMessage.unfriendly e = false := h
    have hs : s ≠ [] := fun hs => h0 (List.length_eq_zero_iff.mpr hs)
    exact ⟨by simpa [Framed, hs, hu] using hf, hb⟩

lemma Chunk.encode_text (c : Chunk) (h0 : c.data.length ≠ 0) (h : c.inParts = false) :
    (Data.str (frameText (text c.data) c.enc)).encode c.enc = some (Chunked.frame c.bytes) :=
  frameText_encode (c.plain h0 h).1 (c.plain h0 h).2

lemma Chunk.bytes_ne_nil (c : Chunk) (h0 : c.data.length ≠ 0) : c.bytes ≠ [] := by
  intro hb
  cases h : c.inParts with
  | true =>
    obtain ⟨-, hl⟩ := c.encode_parts h0 h
    exact h0 (by rw [hl, hb]; rfl)
  | false =>
    obtain ⟨hp, he⟩ := c.plain h0 h
    have hle := plain_length_ge hp he
    rw [hb] at hle
    cases hd : c.data with
    | buf x => simp [Chunk.inParts, hd] at h
    | str s =>
      rw [hd] at hle h0
      exact h0 (Nat.le_zero.mp hle)

/-- What `write` does with a chunk of a chunked body. -/
def Chunk.ops (c : Chunk) : List Op :=
  if h0 : c.data.length = 0 then []
  else if h : c.inParts then
    parts c.data.length ⟨c.data, none, c.bytes, (c.encode_parts h0 h).1⟩
  else
    [.send ⟨.str (frameText (text c.data) c.enc), c.enc, Chunked.frame c.bytes,
      c.encode_text h0 (by simpa using h)⟩]

/-- The bytes of a chunk are its frame; an empty one has none. -/
lemma Chunk.ops_bytes (c : Chunk) :
    c.ops.flatMap Op.bytes = if c.bytes = [] then [] else Chunked.frame c.bytes := by
  by_cases h0 : c.data.length = 0
  · simp [Chunk.ops, h0, c.bytes_nil h0]
  · cases h : c.inParts with
    | true =>
      obtain ⟨-, hl⟩ := c.encode_parts h0 h
      simp [Chunk.ops, h0, h, parts, Op.bytes, utf8Piece, bufPiece, writeUtf8_crlf,
        writeUtf8_toString16, c.bytes_ne_nil h0, Chunked.frame, ← hl]
    | false => simp [Chunk.ops, h0, h, Op.bytes, c.bytes_ne_nil h0]

/-- The last chunk. -/
def lastPiece : Piece := utf8Piece (js "0\r\n\r\n")

/-- The chunk given to `end`, unless it is the empty string. -/
def givenChunk (last : Option Chunk) : Option Chunk :=
  last.filter fun c => (OutgoingMessage.given (some c.data)).isSome

/-- What `end` does. -/
def endOps (last : Option Chunk) : List Op :=
  match givenChunk last with
  | some c => .cork :: c.ops ++ [.send lastPiece, .uncork]
  | none => [.send lastPiece]

/-! ### `write` and `end` as operations -/

/-- A message with a chunked body, after its header is stored and before `end`. -/
structure Ready (m : OutgoingMessage) : Prop where
  header : m.header ≠ []
  hasBody : m.hasBody = true
  chunked : m.chunkedEncoding = true
  trailer : m.trailer = []
  unfinished : m.finished = false

lemma Ready.step {m : OutgoingMessage} (hm : Ready m) (op : Op) : Ready (step m op) := by
  obtain ⟨q, c, ev, h⟩ := step_frame m op
  rw [h]
  exact ⟨hm.header, hm.hasBody, hm.chunked, hm.trailer, hm.unfinished⟩

lemma Ready.run {m : OutgoingMessage} (hm : Ready m) (ops : List Op) :
    Ready (run HttpHeaderBlock.step m ops) := by
  induction ops generalizing m with
  | nil => exact hm
  | cons op t ih => exact ih (hm.step op)

variable (implicitHeader : OutgoingMessage → OutgoingMessage)

lemma write_eq {m : OutgoingMessage} (hm : Ready m) (c : Chunk) :
    (OutgoingMessage.write implicitHeader m c.data c.enc).1 = run step m c.ops := by
  obtain ⟨⟨d, e, b, hb⟩, hf⟩ := c
  simp only [OutgoingMessage.write, if_neg hm.header, hm.hasBody, hm.chunked, Bool.not_true,
    Bool.false_eq_true, if_false, if_true]
  by_cases h0 : d.length = 0
  · simp [Chunk.ops, h0]
  · rw [if_neg h0, Chunk.ops, dif_neg h0]
    cases d with
    | buf x =>
      rw [dif_pos (show Chunk.inParts ⟨⟨.buf x, e, b, hb⟩, hf⟩ = true from rfl)]
      rfl
    | str s =>
      cases hu : OutgoingMessage.unfriendly e with
      | true =>
        rw [dif_pos (show Chunk.inParts ⟨⟨.str s, e, b, hb⟩, hf⟩ = true from hu)]
        rfl
      | false =>
        rw [dif_neg (show ¬ Chunk.inParts ⟨⟨.str s, e, b, hb⟩, hf⟩ = true from by
          simp [Chunk.inParts, hu])]
        rfl

lemma writes_eq {m : OutgoingMessage} (hm : Ready m) (cs : List Chunk) :
    cs.foldl (fun m c => (OutgoingMessage.write implicitHeader m c.data c.enc).1) m =
      run step m (cs.flatMap Chunk.ops) := by
  induction cs generalizing m with
  | nil => rfl
  | cons c t ih =>
    rw [List.foldl_cons, List.flatMap_cons, run_append, write_eq implicitHeader hm]
    exact ih (hm.run c.ops)

/-- Finishing a message sends nothing. -/
lemma traffic_finished (m : OutgoingMessage) :
    traffic { m with finished := true }.finishIfOut = traffic m := by
  unfold OutgoingMessage.finishIfOut
  cases hc : m.connection <;> dsimp only <;> split_ifs <;>
    simp [traffic, OutgoingMessage.sent, OutgoingMessage.finish, hc]

lemma send_last {m : OutgoingMessage} (hm : Ready m) :
    (m.send (.str (js "0\r\n" ++ m.trailer ++ js "\r\n")) none).1 =
      step m (.send lastPiece) := by
  have hl : js "0\r\n" ++ [] ++ js "\r\n" = js "0\r\n\r\n" := by decide
  rw [hm.trailer, hl]
  rfl

lemma end_eq {m : OutgoingMessage} (hm : Ready m) (last : Option Chunk) :
    traffic (OutgoingMessage.end implicitHeader m (last.map (·.data)) (last.bind (·.enc))).1 =
      traffic (run step m (endOps last)) := by
  simp only [OutgoingMessage.end, hm.unfinished, Bool.false_eq_true, if_false,
    if_neg hm.header, hm.hasBody, if_true]
  rw [traffic_finished, endOps]
  cases hg : givenChunk last with
  | none =>
    have hd : OutgoingMessage.given (last.map (·.data)) = none := by
      cases last with
      | none => rfl
      | some c => simpa [givenChunk] using hg
    simp only [hd, Option.isSome_none, Bool.false_eq_true, if_false, hm.chunked, if_true]
    rw [send_last hm]
    rfl
  | some c =>
    obtain ⟨rfl, hc⟩ := Option.filter_eq_some_iff.mp hg
    have hd : OutgoingMessage.given (some c.data) = some c.data := by
      revert hc
      unfold OutgoingMessage.given
      split <;> simp_all
    have h1 : Ready (step m .cork) := hm.step _
    have h2 : Ready (run step (step m .cork) c.ops) := h1.run _
    have hw := write_eq implicitHeader h1 c
    simp only [Option.map_some, hd, Option.isSome_some, if_true, Option.bind_some]
    have hcork : m.cork = step m .cork := rfl
    rw [hcork, hw, h2.chunked, if_pos rfl, send_last h2, List.cons_append, run_cons, run_append]
    rfl

/-! ### The round trip -/

/-- What is still to come of the header. -/
def headerLeft (m : OutgoingMessage) : Bytes :=
  if m.headerSent then [] else writeOneByte m.header

lemma endOps_bytes (last : Option Chunk) :
    (endOps last).flatMap Op.bytes =
      ((givenChunk last).toList.flatMap Chunk.ops).flatMap Op.bytes ++ Chunked.lastChunk := by
  have hl : lastPiece.bytes = Chunked.lastChunk := by decide
  unfold endOps
  cases givenChunk last <;> simp [Op.bytes, hl]

lemma endOps_isSend (last : Option Chunk) : (endOps last).any Op.isSend = true := by
  unfold endOps
  cases givenChunk last <;> simp [Op.isSend]

/-- The bytes of chunks are the frames of those that have any. -/
lemma flatMap_ops_bytes (cs : List Chunk) :
    (cs.flatMap Chunk.ops).flatMap Op.bytes =
      ((cs.map (·.bytes)).filter (· ≠ [])).flatMap Chunked.frame := by
  induction cs with
  | nil => rfl
  | cons c t ih =>
    rw [List.flatMap_cons, List.flatMap_append, ih, c.ops_bytes, List.map_cons]
    by_cases h : c.bytes = []
    · simp [h]
    · simp [h]

lemma flatten_filter (ds : List Bytes) : (ds.filter (· ≠ [])).flatten = ds.flatten := by
  induction ds with
  | nil => rfl
  | cons d t ih =>
    by_cases h : d = []
    · simpa [h] using ih
    · simpa [h] using ih

/-- What `end` drops has no bytes. -/
lemma givenChunk_bytes (last : Option Chunk) :
    ((givenChunk last).toList.map (·.bytes)).flatten =
      (last.toList.map (·.bytes)).flatten := by
  cases last with
  | none => rfl
  | some c =>
    by_cases h : (OutgoingMessage.given (some c.data)).isSome = true
    · have hg : givenChunk (some c) = some c := by simp [givenChunk, Option.filter, h]
      rw [hg]
    · have h0 : c.data.length = 0 := by
        revert h
        unfold OutgoingMessage.given
        split <;> simp_all [Data.length]
      simp [givenChunk, h, c.bytes_nil h0]

/-- The message as the first `write` or `end` finds it: with its header stored. -/
def stored (m : OutgoingMessage) : OutgoingMessage :=
  if m.header = [] then implicitHeader m else m

/-- All the calls on a message. -/
def sendAll (m : OutgoingMessage) (cs : List Chunk) (last : Option Chunk) : OutgoingMessage :=
  (OutgoingMessage.end implicitHeader
    (cs.foldl (fun m c => (OutgoingMessage.write implicitHeader m c.data c.enc).1) m)
    (last.map (·.data)) (last.bind (·.enc))).1

lemma write_stored {m : OutgoingMessage} (h : (stored implicitHeader m).header ≠ []) (d : Data)
    (e : EncArg) : OutgoingMessage.write implicitHeader m d e =
      OutgoingMessage.write implicitHeader (stored implicitHeader m) d e := by
  simp only [OutgoingMessage.write, if_neg h]
  rfl

lemma end_stored {m : OutgoingMessage} (hf : m.finished = false)
    (hu : (stored implicitHeader m).finished = false)
    (h : (stored implicitHeader m).header ≠ []) (d : Option Data) (e : EncArg) :
    OutgoingMessage.end implicitHeader m d e =
      OutgoingMessage.end implicitHeader (stored implicitHeader m) d e := by
  unfold OutgoingMessage.end
  have h1 : ¬ m.finished = true := by simp [hf]
  have h2 : ¬ (stored implicitHeader m).finished = true := by simp [hu]
  rw [if_neg h1, if_neg h2, if_neg h]
  rfl

lemma sendAll_stored {m : OutgoingMessage} (hf : m.finished = false)
    (hm : Ready (stored implicitHeader m)) (cs : List Chunk) (last : Option Chunk) :
    sendAll implicitHeader m cs last =
      sendAll implicitHeader (stored implicitHeader m) cs last := by
  cases cs with
  | nil =>
    simp only [sendAll, List.foldl_nil, end_stored implicitHeader hf hm.unfinished hm.header]
  | cons c t => simp only [sendAll, List.foldl_cons, write_stored implicitHeader hm.header]

lemma sendAll_traffic {m : OutgoingMessage} (hm : Ready m) (cs : List Chunk)
    (last : Option Chunk) :
    traffic (sendAll implicitHeader m cs last) =
      traffic (run step m (cs.flatMap Chunk.ops ++ endOps last)) := by
  rw [sendAll, writes_eq implicitHeader hm, end_eq implicitHeader (hm.run _), ← run_append]

/-- **A chunked body reads back**: when every chunk is framed right and every send is safe,
what follows the header block is a body of the chunked coding whose data is that of the
chunks. -/
theorem chunked_round_trip {m : OutgoingMessage} (hf : m.finished = false)
    (hm : Ready (stored implicitHeader m)) (hl : Linked (stored implicitHeader m))
    (hh : (stored implicitHeader m).headerSent = false →
      HeaderBlock (stored implicitHeader m).header) {w : Bytes}
    (hw : wire (traffic (stored implicitHeader m)) = some w) (cs : List Chunk)
    (last : Option Chunk)
    (hs : Along step Safe (stored implicitHeader m) (cs.flatMap Chunk.ops ++ endOps last)) :
    ∃ body, wire (traffic (sendAll implicitHeader m cs last)) =
        some (w ++ (headerLeft (stored implicitHeader m) ++ body)) ∧
      Chunked.decode body = some ((cs ++ last.toList).flatMap (·.bytes)) := by
  have hrun := run_exact ((steps_iff hl hh hw _).mpr hs)
  rw [sendAll_stored implicitHeader hf hm, sendAll_traffic implicitHeader hm, hrun, hw]
  set gs := cs ++ (givenChunk last).toList with hgs
  set ds := (gs.map (·.bytes)).filter (· ≠ []) with hds
  have hbytes : (cs.flatMap Chunk.ops ++ endOps last).flatMap Op.bytes =
      ds.flatMap Chunked.frame ++ Chunked.lastChunk := by
    rw [List.flatMap_append, endOps_bytes, ← List.append_assoc, ← List.flatMap_append,
      ← List.flatMap_append, flatMap_ops_bytes]
  have hdata : ds.flatten = (cs ++ last.toList).flatMap (·.bytes) := by
    rw [hds, flatten_filter, hgs, List.map_append, List.flatten_append, givenChunk_bytes,
      ← List.flatten_append, ← List.map_append, List.flatMap_def]
  refine ⟨ds.flatMap Chunked.frame ++ Chunked.lastChunk, ?_, ?_⟩
  · rw [total_eq, hbytes, headerLeft, block, List.any_append, endOps_isSend, Bool.or_true,
      if_pos rfl]
    cases (stored implicitHeader m).headerSent <;> rfl
  · rw [Chunked.decode_frames fun d hd => by simpa using (List.mem_filter.mp hd).2, hdata]

/-- A response with a chunked body, not yet at the head of its connection. -/
def chunkedOk : OutgoingMessage := { waiting okHeader with chunkedEncoding := true }

def euro : Chunk := ⟨⟨.str [0x20AC], none, [0xE2, 0x82, 0xAC], by decide⟩, .inr (by decide)⟩

theorem chunked_round_trip_euro :
    ∃ body, wire (traffic (sendAll id chunkedOk [euro] none)) =
        some ([] ++ (headerLeft (stored id chunkedOk) ++ body)) ∧
      Chunked.decode body = some [0xE2, 0x82, 0xAC] := by
  refine chunked_round_trip (m := chunkedOk) (w := []) id rfl ⟨by decide, rfl, rfl, rfl, rfl⟩
    (.inr detached_new) (fun _ => okHeader_block) (by decide) [euro] none
    ⟨?_, fun _ => ?_, trivial⟩
  · refine ⟨?_, fun _ => by decide⟩
    rintro last ⟨-, hl, -⟩
    cases hl
  · exact mergeSafe_ascii (l := okHeader ++ frameText [0x20AC] none) (by decide) rfl
      (by decide) (by decide : ofName (orUtf8 none) = some .utf8) (by simp) (by decide)

/-- The same response on its socket. -/
def chunkedLive : OutgoingMessage := { chunkedOk with connection := some Connection.fresh }

/-- A string in UCS-2 is framed in UCS-2, its size line included. -/
theorem chunked_ucs2 :
    ¬ ∀ p : Piece, ∃ body, wire (traffic (OutgoingMessage.end id
        (OutgoingMessage.write id chunkedLive (.buf [33]) none).1 (some p.data) p.enc).1) =
          some ([] ++ (headerLeft chunkedLive ++ body)) ∧
        Chunked.decode body = some (33 :: p.bytes) := by
  intro h
  obtain ⟨body, h1, h2⟩ := h ⟨.str (js "a"), some (js "ucs2"), [97, 0], by decide⟩
  have h3 : wire (traffic (OutgoingMessage.end id
      (OutgoingMessage.write id chunkedLive (.buf [33]) none).1 (some (.str (js "a")))
        (some (js "ucs2"))).1) =
      some ([] ++ (headerLeft chunkedLive ++ (Chunked.frame [33] ++
        [50, 0, 13, 0, 10, 0, 97, 0, 13, 0, 10, 0] ++ Chunked.lastChunk))) := by decide
  rw [h3] at h1
  obtain rfl := List.append_cancel_left (List.append_cancel_left (Option.some.inj h1))
  exact absurd h2 (by decide)

end NodeCore.HttpChunked
