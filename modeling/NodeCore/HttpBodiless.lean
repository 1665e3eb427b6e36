import NodeCore.HttpResponse
import NodeCore.HttpFraming

/-!
Responses without a body: what is sent of them besides their header block.
-/

namespace NodeCore.HttpBodiless

open NodeCore.Encoding NodeCore.Regex NodeCore.HttpOutgoing NodeCore.HttpOutput
open NodeCore.HttpHeaderBlock NodeCore.HttpFraming

/-! ### Traffic -/

/-- How much has been given or will be given to the connection. -/
def size (q : List Entry) : ℕ := (q.map (·.1.length)).sum

lemma size_append (q q' : List Entry) : size (q ++ q') = size q + size q' := by
  simp [size]

/-- The first thing that is sent. -/
lemma traffic_writeRaw_first {m : OutgoingMessage} (hm : Linked m) (ht : traffic m = [])
    {d : Data} (e : EncArg) (hd : d.length ≠ 0) : traffic (m.writeRaw d e).1 = [(d, e)] := by
  obtain ⟨hsent, hout⟩ := List.append_eq_nil_iff.mp ht
  rcases hm with ⟨c, hc, h⟩ | h
  · rw [writeRaw_attached hc h d e hd]
    have hwritten : c.written = [] := by simpa [OutgoingMessage.sent, hc] using hsent
    simp [traffic, OutgoingMessage.sent, hwritten, hout]
  · have hbuffer : (m.buffer d e).output = [(d, e)] := by
      unfold OutgoingMessage.buffer
      rw [if_neg hd]
      show enqueue m.output d e = _
      rw [hout]
      cases d <;> rfl
    have hsent' : OutgoingMessage.sent (m.buffer d e) = OutgoingMessage.sent m := by
      simp [OutgoingMessage.sent, buffer_connection]
    rw [writeRaw_detached h, traffic, hsent', hsent, hbuffer]
    rfl

/-- A string adds its length. -/
lemma size_writeRaw {m : OutgoingMessage} (hm : Linked m) (s : Str) :
    size (traffic (m.writeRaw (.str s) none).1) = size (traffic m) + s.length := by
  by_cases hs : (Data.str s).length = 0
  · have hlen : s.length = 0 := hs
    rw [writeRaw_empty m none hs, hlen, Nat.add_zero]
  · rcases hm with ⟨c, hc, h⟩ | h
    · rw [writeRaw_attached hc h _ _ hs]
      have htraffic : traffic m = c.written ++ m.output := by
        simp [traffic, OutgoingMessage.sent, hc]
      have hlast : size [(Data.str s, none)] = s.length := by simp [size, Data.length]
      rw [htraffic, ← hlast, ← size_append]
      simp [traffic, OutgoingMessage.sent]
    · have hsent : OutgoingMessage.sent (m.buffer (.str s) none) = OutgoingMessage.sent m := by
        simp [OutgoingMessage.sent, buffer_connection]
      have henqueue : size (enqueue m.output (.str s) none) = size m.output + s.length := by
        rcases List.eq_nil_or_concat m.output with hnil | ⟨q, last, hq⟩
        · rw [hnil]
          simp [enqueue, size, Data.length]
        · rw [hq]
          obtain ⟨d, e⟩ := last
          cases d with
          | str l => simp [enqueue, joins, truthy, isStr, text, size, Data.length, Nat.add_assoc]
          | buf b => simp [enqueue, joins, truthy, isStr, size, Data.length, Nat.add_assoc]
      have hbuffer : (m.buffer (.str s) none).output = enqueue m.output (.str s) none := by
        unfold OutgoingMessage.buffer
        rw [if_neg hs]
      rw [writeRaw_detached h, traffic, hsent, hbuffer, traffic, size_append, size_append, henqueue,
        Nat.add_assoc]

/-- The end of `end` only emits. -/
lemma finishIfOut_frame (m : OutgoingMessage) :
    ∃ ev, m.finishIfOut = { m with emitted := ev } := by
  unfold OutgoingMessage.finishIfOut
  split_ifs
  · exact ⟨_, rfl⟩
  · split
    · exact ⟨_, rfl⟩
    · split_ifs <;> exact ⟨_, rfl⟩

/-! ### A header block that has been stored -/

/-- Nothing has been sent, or the header block alone. -/
def Bare (m : OutgoingMessage) : Prop := traffic m = [] ∨ traffic m = [(.str m.header, none)]

instance (m : OutgoingMessage) : Decidable (Bare m) := by
  unfold Bare
  infer_instance

/-- The header block of a message without a body is stored, and nothing else has been sent. -/
structure Stored (m : OutgoingMessage) : Prop where
  header : m.header ≠ []
  hasBody : m.hasBody = false
  linked : Linked m
  sent : traffic m = if m.headerSent then [(.str m.header, none)] else []

namespace Stored

variable {m : OutgoingMessage}

lemma bare (h : Stored m) : Bare m := by
  unfold Bare
  rw [h.sent]
  split_ifs
  · exact .inr rfl
  · exact .inl rfl

/-- A flush of the header. -/
lemma flushHeader (h : Stored m) : Stored (m.send (.str []) none).1 := by
  unfold OutgoingMessage.send
  split_ifs with hsent
  · rw [writeRaw_empty m none rfl]
    exact h
  · have hnone : traffic { m with headerSent := true } = [] := by
      have ht := h.sent
      rw [if_neg hsent] at ht
      exact ht
    have hlinked : Linked { m with headerSent := true } := h.linked
    have hlength : (Data.str (m.header ++ [])).length ≠ 0 := by
      show (m.header ++ []).length ≠ 0
      rw [List.append_nil]
      exact fun h0 => h.header (List.length_eq_zero_iff.mp h0)
    have hfirst := traffic_writeRaw_first hlinked hnone none hlength
    have hl := hlinked.writeRaw (.str (m.header ++ [])) none
    obtain ⟨q, c, hq⟩ := writeRaw_frame { m with headerSent := true } (.str (m.header ++ [])) none
    dsimp only
    rw [hq] at hfirst hl ⊢
    refine ⟨h.header, h.hasBody, hl, ?_⟩
    rw [hfirst, List.append_nil]
    rfl

/-- `write` does nothing. -/
lemma write_eq (h : Stored m) (chunk : Data) (encoding : EncArg) :
    (OutgoingMessage.write id m chunk encoding).1 = m := by
  unfold OutgoingMessage.write
  rw [if_neg h.header]
  dsimp only
  rw [h.hasBody]
  rfl

lemma end_eq (h : Stored m) (hfinished : m.finished = false) (data : Option Data)
    (encoding : EncArg) : (OutgoingMessage.end id m data encoding).1 =
      { (m.send (.str (if m.chunkedEncoding then js "0\r\n" ++ m.trailer ++ js "\r\n" else []))
          none).1 with finished := true }.finishIfOut := by
  unfold OutgoingMessage.end
  rw [hfinished, if_neg Bool.false_ne_true, if_neg h.header]
  have hdata : (if m.hasBody then OutgoingMessage.given data else none) = none := by
    rw [h.hasBody]
    rfl
  simp only [hdata, Option.isSome_none, Bool.false_eq_true, if_false]
  split_ifs <;> rfl

lemma «end» (h : Stored m) (hchunked : m.chunkedEncoding = false) (data : Option Data)
    (encoding : EncArg) : Stored (OutgoingMessage.end id m data encoding).1 ∧
      (OutgoingMessage.end id m data encoding).1.chunkedEncoding = false := by
  cases hfinished : m.finished with
  | true =>
    unfold OutgoingMessage.end
    rw [hfinished]
    exact ⟨h, hchunked⟩
  | false =>
    have hf := h.flushHeader
    obtain ⟨q, c, hsend⟩ := sendStep_frame m ⟨.str [], none, [], rfl⟩
    have hchunked' : (m.send (.str []) none).1.chunkedEncoding = false := by
      unfold sendStep at hsend
      rw [hsend]
      exact hchunked
    obtain ⟨ev, hev⟩ := finishIfOut_frame { (m.send (.str []) none).1 with finished := true }
    rw [h.end_eq hfinished, hchunked, if_neg Bool.false_ne_true, hev]
    exact ⟨⟨hf.header, hf.hasBody, hf.linked, hf.sent⟩, hchunked'⟩

/-- The last chunk is sent. -/
lemma not_bare_end (h : Stored m) (hfinished : m.finished = false)
    (hchunked : m.chunkedEncoding = true) (data : Option Data) (encoding : EncArg) :
    ¬ Bare (OutgoingMessage.end id m data encoding).1 := by
  set chunk := js "0\r\n" ++ m.trailer ++ js "\r\n" with hchunk
  have hpos : 0 < chunk.length := by
    rw [hchunk, List.length_append, List.length_append]
    have : (js "\r\n").length = 2 := by decide
    omega
  have hsend : size (traffic (m.send (.str chunk) none).1) = m.header.length + chunk.length ∧
      (m.send (.str chunk) none).1.header = m.header := by
    have ht := h.sent
    unfold OutgoingMessage.send
    split_ifs with hsent
    · obtain ⟨q, c, hq⟩ := writeRaw_frame m (.str chunk) none
      rw [if_pos hsent] at ht
      rw [size_writeRaw h.linked, ht]
      refine ⟨?_, by rw [hq]⟩
      simp [size, Data.length]
    · obtain ⟨q, c, hq⟩ :=
        writeRaw_frame { m with headerSent := true } (.str (m.header ++ chunk)) none
      rw [if_neg hsent] at ht
      have hnone : traffic { m with headerSent := true } = [] := ht
      have hlinked : Linked { m with headerSent := true } := h.linked
      dsimp only
      rw [size_writeRaw hlinked, hnone]
      refine ⟨?_, by rw [hq]⟩
      simp [size]
  rw [h.end_eq hfinished, hchunked, if_pos rfl]
  obtain ⟨ev, hev⟩ := finishIfOut_frame { (m.send (.str chunk) none).1 with finished := true }
  rw [hev]
  show ¬ (traffic (m.send (.str chunk) none).1 = [] ∨
    traffic (m.send (.str chunk) none).1 = [(.str (m.send (.str chunk) none).1.header, none)])
  rw [hsend.2]
  rintro (hbare | hbare)
  · rw [hbare] at hsend
    have hzero : 0 = m.header.length + chunk.length := hsend.1
    omega
  · rw [hbare] at hsend
    have hone : m.header.length + 0 = m.header.length + chunk.length := hsend.1
    omega

end Stored

/-! ### Storing the header block -/

/-- A header block is stored for a message without a body. -/
lemma stored_storeHeader {m : Message} (hbody : m.hasBody = false)
    (hlinked : Linked m.toOutgoingMessage) (hsent : traffic m.toOutgoingMessage = [])
    (firstLine : Str) (headers : Headers) (date : Str) :
    Stored (m.storeHeader firstLine headers date).toOutgoingMessage := by
  obtain ⟨c, hc⟩ := composeHeader_frame m firstLine headers date
  have hcrlf : crlf ≠ [] := by decide
  have hstored : Stored { (m.composeHeader firstLine headers date).1.toOutgoingMessage with
      header := (m.composeHeader firstLine headers date).2.messageHeader ++ crlf
      headerSent := false } := by
    rw [hc]
    exact ⟨List.append_ne_nil_of_right_ne_nil _ hcrlf, hbody, hlinked, hsent⟩
  unfold Message.storeHeader
  dsimp only
  split_ifs
  · exact hstored.flushHeader
  · exact hstored

lemma storeHeader_chunked {m : Message} (hbody : m.hasBody = false)
    (hchunked : m.chunkedEncoding = false) (firstLine : Str) (headers : Headers) (date : Str) :
    (m.storeHeader firstLine headers date).chunkedEncoding =
      (has .transferEncoding (test chunkExpression) headers.fields && !bodiless m) := by
  obtain ⟨more, m', state, -, hcompose, -, hcl, hte, ⟨_, hframe⟩, -, hce, -⟩ :=
    compose_eq m firstLine headers date
  have hbody' : m'.hasBody = m.hasBody := by rw [hframe]
  rw [(storeHeader_eq_compose m firstLine headers date).2.1, hcompose]
  unfold Message.storeFraming
  rw [hcl, hte]
  split_ifs with hmarked hb
  · rw [hce, hchunked, Bool.false_or]
  · rw [hbody', hbody] at hb
    cases hb
  · rw [hbody', hbody] at hb
    cases hb
  · -- without a field for it nothing asks for chunks
    have hnone : has .transferEncoding (test chunkExpression) headers.fields = false := by
      rw [Bool.eq_false_iff]
      intro h
      obtain ⟨f, hf, hkind, -⟩ := has_iff.mp h
      apply hmarked
      rw [Bool.or_eq_true]
      exact .inr (has_iff.mpr ⟨f, hf, hkind, rfl⟩)
    rw [hnone]
    rfl

lemma storeHeader_finished (m : Message) (firstLine : Str) (headers : Headers) (date : Str) :
    (m.storeHeader firstLine headers date).finished = m.finished := by
  obtain ⟨c, hc⟩ := composeHeader_frame m firstLine headers date
  obtain ⟨q, c', sent, hstore⟩ := storeHeader_frame m firstLine headers date
  rw [hstore]
  show (m.composeHeader firstLine headers date).1.toOutgoingMessage.finished = m.finished
  rw [hc]

/-! ### Responses -/

/-- A response whose header block has not been stored, with its connection or before it. -/
structure Prepared (r : ServerResponse) : Prop where
  header : r.header = []
  headerSent : r.headerSent = false
  finished : r.finished = false
  chunkedEncoding : r.chunkedEncoding = false
  linked : Linked r.toOutgoingMessage
  sent : traffic r.toOutgoingMessage = []

/-- The request or the status says that there is no body. -/
def WithoutBody (r : ServerResponse) (statusCode : ℕ) : Prop :=
  r.hasBody = false ∨ ServerResponse.noBody statusCode = true

/-- A header asks for chunks, with a status for which that is not overruled. -/
def asksChunks (r : ServerResponse) (statusCode : ℕ) (obj : Option HeadersArg) : Bool :=
  has .transferEncoding (test chunkExpression) (Headers.fields ((r.allHeaders obj).getD [])) &&
    !(statusCode = 204 || statusCode = 304)

namespace Prepared

variable {r : ServerResponse}

lemma writeHead (h : Prepared r) {statusCode : ℕ} (hbody : WithoutBody r statusCode)
    (date : Str) (reasonPhrase : Option Str) (obj : Option HeadersArg) :
    ∃ r', r.writeHead date statusCode reasonPhrase obj = some r' ∧
      Stored r'.toOutgoingMessage ∧ r'.finished = false ∧
      r'.chunkedEncoding = asksChunks r statusCode obj := by
  obtain ⟨headers, hheaders⟩ : ∃ headers, r.allHeaders obj = some headers := by
    unfold ServerResponse.allHeaders ServerResponse.renderHeaders
    rw [if_neg (not_not.mpr h.header)]
    split <;> exact ⟨_, rfl⟩
  have hnone : (r.hasBody && !ServerResponse.noBody statusCode) = false := by
    rcases hbody with hbody | hbody
    · rw [hbody]
      rfl
    · rw [hbody, Bool.not_true, Bool.and_false]
  set m : Message := { r.toMessage with
    statusCode := some statusCode
    hasBody := r.hasBody && !ServerResponse.noBody statusCode
    shouldKeepAlive := r.shouldKeepAlive && !(r.expectContinue && !r.sent100) } with hm
  have hstored := stored_storeHeader (m := m) hnone h.linked h.sent
    (ServerResponse.statusLine statusCode reasonPhrase) headers date
  have hchunked := storeHeader_chunked (m := m) hnone h.chunkedEncoding
    (ServerResponse.statusLine statusCode reasonPhrase) headers date
  have hfinished := storeHeader_finished m (ServerResponse.statusLine statusCode reasonPhrase)
    headers date
  have hbodiless : bodiless m = (decide (statusCode = 204) || decide (statusCode = 304)) := by
    simp [bodiless, hm]
  unfold ServerResponse.writeHead asksChunks
  rw [hheaders]
  refine ⟨_, rfl, hstored, hfinished.trans h.finished, hchunked.trans ?_⟩
  rw [hbodiless]
  rfl

/-- `_implicitHeader`. -/
lemma implicitHeader (h : Prepared r) (hbody : WithoutBody r (r.statusCode.getD 200)) (date : Str) :
    Stored (r.implicitHeader date).toOutgoingMessage ∧ (r.implicitHeader date).finished = false ∧
      (r.implicitHeader date).chunkedEncoding =
        asksChunks r (r.statusCode.getD 200) none := by
  obtain ⟨r', hr', hstored⟩ := h.writeHead hbody date none none
  unfold ServerResponse.implicitHeader
  rw [if_pos h.header, hr']
  exact hstored

end Prepared

/-! ### Runs -/

/-- What is done to a response once its headers are set. -/
inductive Op
  | write (chunk : Data) (encoding : EncArg)
  | addTrailers (headers : List (Str × Str))
  | «end» (data : Option Data) (encoding : EncArg)
  /-- The response comes to the head of its connection. -/
  | assignSocket (socket : Connection) (h : Idle socket)

def step (date : Str) (r : ServerResponse) : Op → ServerResponse
  | .write chunk encoding => r.write date chunk encoding
  | .addTrailers headers => r.addTrailers headers
  | .end data encoding => r.end date data encoding
  | .assignSocket socket _ => if r.connection = none then r.assignSocket socket else r

/-- `writeHead`, if the caller calls it, and what follows. -/
def run (date : Str) (r : ServerResponse) (head : Option (ℕ × Option Str × Option HeadersArg))
    (ops : List Op) : ServerResponse :=
  ops.foldl (step date) (match head with
    | none => r
    | some (statusCode, reasonPhrase, obj) =>
      (r.writeHead date statusCode reasonPhrase obj).getD r)

/-- The status of the header block that will be stored. -/
def statusOf (r : ServerResponse) : Option (ℕ × Option Str × Option HeadersArg) → ℕ
  | none => r.statusCode.getD 200
  | some (statusCode, _, _) => statusCode

def objOf : Option (ℕ × Option Str × Option HeadersArg) → Option HeadersArg
  | none => none
  | some (_, _, obj) => obj

/-- Before the header block is stored, with nothing that asks for chunks, or after. -/
def Silent (r : ServerResponse) : Prop :=
  Prepared r ∧ WithoutBody r (r.statusCode.getD 200) ∧
      asksChunks r (r.statusCode.getD 200) none = false ∨
    Stored r.toOutgoingMessage ∧ r.chunkedEncoding = false

lemma Silent.bare {r : ServerResponse} (h : Silent r) : Bare r.toOutgoingMessage := by
  rcases h with ⟨h, -⟩ | ⟨h, -⟩
  · exact .inl h.sent
  · exact h.bare

lemma Silent.implicitHeader {r : ServerResponse} (h : Silent r) (date : Str) :
    Stored (r.implicitHeader date).toOutgoingMessage ∧
      (r.implicitHeader date).chunkedEncoding = false := by
  rcases h with ⟨h, hbody, hasks⟩ | ⟨h, hchunked⟩
  · obtain ⟨hstored, -, hchunked⟩ := h.implicitHeader hbody date
    exact ⟨hstored, hchunked.trans hasks⟩
  · unfold ServerResponse.implicitHeader
    rw [if_neg h.header]
    exact ⟨h, hchunked⟩

/-- What the headers say depends on nothing that is sent. -/
lemma asksChunks_congr {r r' : ServerResponse} (hheader : r'.header = r.header)
    (hheaders : r'.headers = r.headers) (statusCode : ℕ) (obj : Option HeadersArg) :
    asksChunks r' statusCode obj = asksChunks r statusCode obj := by
  unfold asksChunks ServerResponse.allHeaders ServerResponse.renderHeaders
  rw [hheader, hheaders]

lemma Silent.step {r : ServerResponse} (h : Silent r) (date : Str) (op : Op) :
    Silent (step date r op) := by
  cases op with
  | write chunk encoding =>
    obtain ⟨hstored, hchunked⟩ := h.implicitHeader date
    refine .inr ?_
    show Stored (OutgoingMessage.write id _ chunk encoding).1 ∧
      (OutgoingMessage.write id _ chunk encoding).1.chunkedEncoding = false
    rw [hstored.write_eq]
    exact ⟨hstored, hchunked⟩
  | addTrailers headers =>
    rcases h with ⟨h, hbody, hasks⟩ | ⟨h, hchunked⟩
    · exact .inl ⟨⟨h.header, h.headerSent, h.finished, h.chunkedEncoding, h.linked, h.sent⟩, hbody,
        hasks⟩
    · exact .inr ⟨⟨h.header, h.hasBody, h.linked, h.sent⟩, hchunked⟩
  | «end» data encoding =>
    unfold HttpBodiless.step ServerResponse.end
    dsimp only
    split_ifs
    · exact h
    · obtain ⟨hstored, hchunked⟩ := h.implicitHeader date
      exact .inr (hstored.end hchunked data encoding)
  | assignSocket socket hidle =>
    unfold HttpBodiless.step
    dsimp only
    split_ifs with hnone
    · have hlinked := linked_assignSocket r.toOutgoingMessage hidle
      have htraffic := traffic_assignSocket hnone hidle
      obtain ⟨q, c, ev, hflush⟩ :=
        flush_frame { r.toOutgoingMessage with connection := some { socket with mine := true } }
      have hframe : r.toOutgoingMessage.assignSocket socket =
          { r.toOutgoingMessage with output := q, connection := c, emitted := ev } := hflush
      rw [hframe] at hlinked htraffic
      unfold ServerResponse.assignSocket
      rw [hframe]
      rcases h with ⟨h, hbody, hasks⟩ | ⟨h, hchunked⟩
      · refine .inl
          ⟨⟨h.header, h.headerSent, h.finished, h.chunkedEncoding, hlinked, ?_⟩, hbody, ?_⟩
        · exact htraffic.trans h.sent
        · exact (asksChunks_congr rfl rfl _ _).trans hasks
      · exact .inr ⟨⟨h.header, h.hasBody, hlinked, htraffic.trans h.sent⟩, hchunked⟩
    · exact h

/-- **Responses without a body.** Whatever is written, added and ended, nothing is sent after the
header block of a response that must not have a body if and only if no header asks for chunks, or
the status is one for which that is overruled. -/
theorem bodiless_iff (date : Str) {r : ServerResponse} (h : Prepared r)
    (head : Option (ℕ × Option Str × Option HeadersArg)) (hbody : WithoutBody r (statusOf r head)) :
    (∀ ops, Bare (run date r head ops).toOutgoingMessage) ↔
      asksChunks r (statusOf r head) (objOf head) = false := by
  constructor
  · intro hbare
    by_contra hasks
    have hasks : asksChunks r (statusOf r head) (objOf head) = true := by simpa using hasks
    have hend := hbare [.end none none]
    cases head with
    | none =>
      obtain ⟨hstored, hfinished, hchunked⟩ := h.implicitHeader hbody date
      have hrun : (run date r none [.end none none]).toOutgoingMessage =
          (OutgoingMessage.end id (r.implicitHeader date).toOutgoingMessage none none).1 := by
        show (r.end date none none).toOutgoingMessage = _
        unfold ServerResponse.end
        rw [h.finished, if_neg Bool.false_ne_true]
      rw [hrun] at hend
      exact hstored.not_bare_end hfinished (hchunked.trans hasks) none none hend
    | some a =>
      obtain ⟨statusCode, reasonPhrase, obj⟩ := a
      have hbody : WithoutBody r statusCode := hbody
      obtain ⟨r', hr', hstored, hfinished, hchunked⟩ := h.writeHead hbody date reasonPhrase obj
      have hrun : (run date r (some (statusCode, reasonPhrase, obj))
          [.end none none]).toOutgoingMessage =
          (OutgoingMessage.end id r'.toOutgoingMessage none none).1 := by
        show (((r.writeHead date statusCode reasonPhrase obj).getD r).end date none
          none).toOutgoingMessage = _
        rw [hr', Option.getD_some]
        unfold ServerResponse.end ServerResponse.implicitHeader
        rw [hfinished, if_neg Bool.false_ne_true, if_neg hstored.header]
      rw [hrun] at hend
      exact hstored.not_bare_end hfinished (hchunked.trans hasks) none none hend
  · intro hasks ops
    have hsilent : ∀ (ops : List Op) (r : ServerResponse), Silent r →
        Silent (ops.foldl (step date) r) := by
      intro ops
      induction ops with
      | nil => exact fun r hr => hr
      | cons op ops ih => exact fun r hr => ih _ (hr.step date op)
    refine (hsilent ops _ ?_).bare
    cases head with
    | none => exact .inl ⟨h, hbody, hasks⟩
    | some a =>
      obtain ⟨statusCode, reasonPhrase, obj⟩ := a
      have hbody : WithoutBody r statusCode := hbody
      obtain ⟨r', hr', hstored, -, hchunked⟩ := h.writeHead hbody date reasonPhrase obj
      dsimp only
      rw [hr']
      exact .inr ⟨hstored, hchunked.trans hasks⟩

/-- The response to a HEAD request. -/
def headResponse : ServerResponse := .new ⟨js "HEAD", 1, 1, none⟩

lemma prepared_headResponse : Prepared headResponse :=
  ⟨rfl, rfl, rfl, rfl, .inr (fun _ hc => nomatch hc), rfl⟩

/-- Data for a response to a HEAD request is not sent. -/
theorem bodiless_head : Bare (run [] headResponse none
    [.write (.str (js "a")) none, .end (some (.str (js "b"))) none]).toOutgoingMessage := by
  have hbody : WithoutBody headResponse (statusOf headResponse none) := .inl rfl
  exact (bodiless_iff [] prepared_headResponse none hbody).mpr rfl _

/-- With a header that asks for chunks the last chunk is. -/
theorem bodiless_chunk : Prepared headResponse ∧ headResponse.hasBody = false ∧
    ¬ Bare (run [] headResponse
      (some (200, none, some (.object [(js "Transfer-Encoding", .one (js "chunked"))])))
      [.end none none]).toOutgoingMessage := by
  refine ⟨prepared_headResponse, by decide, ?_⟩
  decide

end NodeCore.HttpBodiless
