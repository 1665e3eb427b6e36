import NodeCore.HttpHeader
import NodeCore.HttpHeaderBlock
import Mathlib.Data.List.DropRight

/-!
How the end of a body is marked: by its length, by chunks, or by the end of the connection.
-/

namespace NodeCore.HttpFraming

open NodeCore.Encoding NodeCore.Regex NodeCore.HttpOutgoing NodeCore.HttpHeaderBlock

/-! ### Names and codings -/

def isWhite (c : UInt16) : Bool := c = 32 || c = 9

/-- The last coding of a list of them. -/
def lastCoding (value : Str) : Str :=
  (((toLowerCase value).rtakeWhile (· ≠ 44)).dropWhile isWhite).rdropWhile isWhite

/-- The body is sent in chunks. -/
def announcesChunked (value : Str) : Bool := lastCoding value = js "chunked"

/-- The name is exactly this, whatever the case. -/
def named (name : String) (f : Str × Str) : Bool := toLowerCase f.1 = js name

lemma named_kind {f : Str × Str} :
    (named "content-length" f = true → kind f.1 = .contentLength) ∧
      (named "transfer-encoding" f = true → kind f.1 = .transferEncoding) := by
  have htest (text : String) : test (ignoreCase text) f.1 = true ↔
      toLowerCase (js text) <:+: toLowerCase f.1 := test_ignoreCase
  constructor
  · intro h
    have hname : toLowerCase f.1 = js "content-length" := by simpa [named] using h
    rw [hname] at htest
    have hconn : ¬ test connectionExpression f.1 = true := by
      rw [connectionExpression, htest]
      decide
    have hte : ¬ test transferEncodingExpression f.1 = true := by
      rw [transferEncodingExpression, htest]
      decide
    have hcl : test contentLengthExpression f.1 = true := by
      rw [contentLengthExpression, htest]
      decide
    rw [kind, if_neg hconn, if_neg hte, if_pos hcl]
  · intro h
    have hname : toLowerCase f.1 = js "transfer-encoding" := by simpa [named] using h
    rw [hname] at htest
    have hconn : ¬ test connectionExpression f.1 = true := by
      rw [connectionExpression, htest]
      decide
    have hte : test transferEncodingExpression f.1 = true := by
      rw [transferEncodingExpression, htest]
      decide
    rw [kind, if_neg hconn, if_pos hte]

/-- What announces chunks passes the test for them. -/
lemma announcesChunked_test {value : Str} (h : announcesChunked value = true) :
    test chunkExpression value = true := by
  have hlast : lastCoding value = js "chunked" := by simpa [announcesChunked] using h
  have hinfix : lastCoding value <:+: toLowerCase value := by
    refine (List.rdropWhile_prefix _ _).isInfix.trans ?_
    exact ((List.dropWhile_suffix _).trans (List.rtakeWhile_suffix _ _)).isInfix
  have hchunk : toLowerCase (js "chunk") <:+: js "chunked" := by decide
  rw [chunkExpression, test_ignoreCase]
  exact hchunk.trans (hlast ▸ hinfix)

/-! ### The decision -/

/-- The peer can find the end of the body of a message with these fields. -/
def Framed (m : Message) (fields : List (Str × Str)) : Prop :=
  (∃ f ∈ fields, named "content-length" f = true) ∨
    ((∃ f ∈ fields, named "transfer-encoding" f = true ∧ announcesChunked f.2 = true) ∧
      m.chunkedEncoding = true) ∨
    m.last = true

instance (m : Message) (fields : List (Str × Str)) : Decidable (Framed m fields) := by
  unfold Framed
  infer_instance

/-- The status of a response without a body. -/
def bodiless (m : Message) : Bool := m.statusCode = some 204 || m.statusCode = some 304

/-- The message lets its connection go, by a field `Connection` or without one. -/
def Closes (m : Message) (fields : List (Str × Str)) : Prop :=
  m.last = true ∨ has .connection (test closeExpression) fields = true ∨
    has .connection always fields = false ∧
      (m.shouldKeepAlive = false ∨
        bodiless m = true ∧
          (m.chunkedEncoding = true ∨ has .transferEncoding (test chunkExpression) fields = true) ∨
        has .contentLength always fields = false ∧ m.useChunkedEncodingByDefault = false ∧
          m.agent = false)

/-- The fields are not misread: none of them looks like one that marks the end of the body, or one
of them is such a field. -/
def WellMarked (m : Message) (fields : List (Str × Str)) : Prop :=
  has .contentLength always fields = false ∧ has .transferEncoding always fields = false ∨
    (∃ f ∈ fields, named "content-length" f = true) ∨
    (∃ f ∈ fields, named "transfer-encoding" f = true ∧ announcesChunked (sanitize f.2) = true) ∧
      bodiless m = false

lemma has_iff {k : Kind} {p : Str → Bool} {fields : List (Str × Str)} :
    has k p fields = true ↔ ∃ f ∈ fields, kind f.1 = k ∧ p (sanitize f.2) = true := by
  simp [has]

section Stages

variable (m : Message) (state : HeaderState)

lemma storeStatus_eq : m.storeStatus = { m with
    chunkedEncoding := m.chunkedEncoding && !bodiless m
    shouldKeepAlive := m.shouldKeepAlive && !(bodiless m && m.chunkedEncoding) } := by
  obtain ⟨base, last, keep, useChunked, sendDate, agent, status⟩ := m
  obtain ⟨output, chunked, hasBody, trailer, finished, header, sent, connection, emitted⟩ := base
  unfold Message.storeStatus bodiless
  cases hb : (decide (status = some 204) || decide (status = some 304)) <;>
    cases chunked <;> simp

/-- A field that says nothing about the body. -/
def Neutral (f : Str × Str) : Prop :=
  named "content-length" f = false ∧ named "transfer-encoding" f = false

lemma neutral_connection (value : Str) : Neutral (js "Connection", value) := by
  constructor
  · show decide (toLowerCase (js "Connection") = js "content-length") = false
    decide
  · show decide (toLowerCase (js "Connection") = js "transfer-encoding") = false
    decide

lemma neutral_date (value : Str) : Neutral (js "Date", value) := by
  constructor
  · show decide (toLowerCase (js "Date") = js "content-length") = false
    decide
  · show decide (toLowerCase (js "Date") = js "transfer-encoding") = false
    decide

lemma storeDate_eq (date : Str) : ∃ more : List (Str × Str), (∀ f ∈ more, Neutral f) ∧
    (m.storeDate date state).fields = state.fields ++ more ∧
    (m.storeDate date state).sentConnectionHeader = state.sentConnectionHeader ∧
    (m.storeDate date state).sentContentLengthHeader = state.sentContentLengthHeader ∧
    (m.storeDate date state).sentTransferEncodingHeader = state.sentTransferEncodingHeader := by
  unfold Message.storeDate
  split_ifs
  · refine ⟨[(js "Date", date)], fun f hf => ?_, rfl, rfl, rfl, rfl⟩
    rw [List.mem_singleton.mp hf]
    exact neutral_date date
  · exact ⟨[], List.forall_mem_nil _, (List.append_nil _).symm, rfl, rfl, rfl⟩

lemma storeConnection_eq : ∃ more : List (Str × Str), (∀ f ∈ more, Neutral f) ∧
    (m.storeConnection state).2.fields = state.fields ++ more ∧
    (m.storeConnection state).2.sentContentLengthHeader = state.sentContentLengthHeader ∧
    (m.storeConnection state).2.sentTransferEncodingHeader = state.sentTransferEncodingHeader ∧
    (m.storeConnection state).1 = { m with
      last := m.last || (!state.sentConnectionHeader && !(m.shouldKeepAlive &&
        (state.sentContentLengthHeader || m.useChunkedEncodingByDefault || m.agent))) } := by
  have hmore (value : Str) : ∀ f ∈ [(js "Connection", value)], Neutral f := fun f hf => by
    rw [List.mem_singleton.mp hf]
    exact neutral_connection value
  unfold Message.storeConnection
  split_ifs with hsent hkeep
  · exact ⟨[], List.forall_mem_nil _, (List.append_nil _).symm, rfl, rfl, by simp [hsent]⟩
  · exact ⟨[(js "Connection", js "keep-alive")], hmore _, rfl, rfl, rfl, by rw [hkeep]; simp⟩
  · have hkeep : (m.shouldKeepAlive && (state.sentContentLengthHeader ||
        m.useChunkedEncodingByDefault || m.agent)) = false := by simpa using hkeep
    exact ⟨[(js "Connection", js "close")], hmore _, rfl, rfl, rfl, by rw [hkeep]; simp [hsent]⟩

end Stages

/-- Everything before the last decision of `_storeHeader`. -/
lemma compose_eq (m : Message) (firstLine : Str) (headers : Headers) (date : Str) :
    ∃ (more : List (Str × Str)) (m' : Message) (state : HeaderState), (∀ f ∈ more, Neutral f) ∧
      m.composeHeader firstLine headers date = m'.storeFraming state ∧
      state.fields = stored headers.fields ++ more ∧
      state.sentContentLengthHeader = has .contentLength always headers.fields ∧
      state.sentTransferEncodingHeader = has .transferEncoding always headers.fields ∧
      (∃ c, m'.toOutgoingMessage = { m.toOutgoingMessage with chunkedEncoding := c }) ∧
      m'.useChunkedEncodingByDefault = m.useChunkedEncodingByDefault ∧
      m'.chunkedEncoding = ((m.chunkedEncoding ||
        has .transferEncoding (test chunkExpression) headers.fields) && !bodiless m) ∧
      m'.last = ((m.last || has .connection (test closeExpression) headers.fields) ||
        (!has .connection always headers.fields &&
          !((m.shouldKeepAlive ||
                has .connection (fun v => !test closeExpression v) headers.fields) &&
              !(bodiless m && (m.chunkedEncoding ||
                has .transferEncoding (test chunkExpression) headers.fields)) &&
            (has .contentLength always headers.fields || m.useChunkedEncodingByDefault ||
              m.agent)))) := by
  have hfields := storeFields_eq m ⟨false, false, false, false, false, firstLine, []⟩ headers.fields
  simp only [Bool.false_or, List.nil_append] at hfields
  set m₀ := (storeFields m ⟨false, false, false, false, false, firstLine, []⟩ headers.fields).1
    with hm₀
  set state₀ := (storeFields m ⟨false, false, false, false, false, firstLine, []⟩ headers.fields).2
    with hstate₀
  obtain ⟨more₁, hmore₁, hf₁, hconn₁, hcl₁, hte₁⟩ := storeDate_eq m₀ state₀ date
  obtain ⟨more₂, hmore₂, hf₂, hcl₂, hte₂, hm₂⟩ :=
    storeConnection_eq m₀.storeStatus (m₀.storeDate date state₀)
  rw [hcl₁] at hcl₂ hm₂
  rw [hconn₁] at hm₂
  rw [hte₁] at hte₂
  rw [hf₁] at hf₂
  rw [hfields] at hm₀ hstate₀
  refine ⟨more₁ ++ more₂, _, _, fun f hf => ?_, rfl, ?_, ?_, ?_, ?_, ?_, ?_, ?_⟩
  · rcases List.mem_append.mp hf with hf | hf
    · exact hmore₁ f hf
    · exact hmore₂ f hf
  · rw [hf₂, hstate₀, List.append_assoc]
  · rw [hcl₂, hstate₀]
  · rw [hte₂, hstate₀]
  · exact ⟨_, by rw [hm₂, storeStatus_eq, hm₀]⟩
  · rw [hm₂, storeStatus_eq, hm₀]
  · rw [hm₂, storeStatus_eq, hm₀]
    rfl
  · rw [hm₂, storeStatus_eq, hm₀, hstate₀]
    rfl

lemma storeFraming_frame (m : Message) (state : HeaderState) :
    ∃ c, (m.storeFraming state).1.toOutgoingMessage =
      { m.toOutgoingMessage with chunkedEncoding := c } := by
  unfold Message.storeFraming
  split_ifs <;> exact ⟨_, rfl⟩

/-- Composing a header block decides whether the body is chunked, and touches nothing else of what
is sent. -/
lemma composeHeader_frame (m : Message) (firstLine : Str) (headers : Headers) (date : Str) :
    ∃ c, (m.composeHeader firstLine headers date).1.toOutgoingMessage =
      { m.toOutgoingMessage with chunkedEncoding := c } := by
  obtain ⟨_, m', state, -, hcompose, -, -, -, ⟨c', hc'⟩, -⟩ := compose_eq m firstLine headers date
  obtain ⟨c, hc⟩ := storeFraming_frame m' state
  refine ⟨c, ?_⟩
  rw [hcompose, hc, hc']

/-- The block is stored in the composed message; a request that expects an answer sends it. -/
lemma storeHeader_frame (m : Message) (firstLine : Str) (headers : Headers) (date : Str) :
    ∃ q c sent, m.storeHeader firstLine headers date =
      { (m.composeHeader firstLine headers date).1 with
        header := (m.composeHeader firstLine headers date).2.messageHeader ++ crlf
        output := q, connection := c, headerSent := sent } := by
  unfold Message.storeHeader
  dsimp only
  split_ifs
  · obtain ⟨q, c, hq⟩ := send_frame { (m.composeHeader firstLine headers date).1 with
      header := (m.composeHeader firstLine headers date).2.messageHeader ++ crlf
      headerSent := false } (.str []) none
    rw [hq]
    exact ⟨q, c, true, rfl⟩
  · exact ⟨_, _, false, rfl⟩

lemma storeHeader_eq_compose (m : Message) (firstLine : Str) (headers : Headers) (date : Str) :
    (m.storeHeader firstLine headers date).header =
        (m.composeHeader firstLine headers date).2.messageHeader ++ crlf ∧
      (m.storeHeader firstLine headers date).chunkedEncoding =
        (m.composeHeader firstLine headers date).1.chunkedEncoding ∧
      (m.storeHeader firstLine headers date).last =
        (m.composeHeader firstLine headers date).1.last := by
  obtain ⟨q, c, sent, hstore⟩ := storeHeader_frame m firstLine headers date
  rw [hstore]
  exact ⟨rfl, rfl, rfl⟩

lemma exists_stored (fields : List (Str × Str)) (p : Str → Prop) {more : List (Str × Str)}
    {name : String} (hmore : ∀ f ∈ more, named name f = false) :
    (∃ f ∈ stored fields ++ more, named name f = true ∧ p f.2) ↔
      ∃ f ∈ fields, named name f = true ∧ p (sanitize f.2) := by
  constructor
  · rintro ⟨f, hf, hname, hp⟩
    rcases List.mem_append.mp hf with hf | hf
    · obtain ⟨g, hg, rfl⟩ := List.mem_map.mp hf
      exact ⟨g, hg, hname, hp⟩
    · rw [hmore f hf] at hname
      cases hname
  · rintro ⟨f, hf, hname, hp⟩
    exact ⟨_, List.mem_append_left _ (List.mem_map_of_mem hf), hname, hp⟩

/-- The flags that let the connection go. -/
lemma closes_iff {last close conn kept keep bod ce te cl use agent : Bool}
    (h : conn = false → kept = false) :
    ((last || close) || (!conn && !((keep || kept) && !(bod && (ce || te)) &&
        (cl || use || agent)))) = true ↔
      last = true ∨ close = true ∨ conn = false ∧ (keep = false ∨
        bod = true ∧ (ce = true ∨ te = true) ∨ cl = false ∧ use = false ∧ agent = false) := by
  cases conn with
  | true => simp
  | false =>
    rw [h rfl]
    cases keep with
    | false => simp
    | true =>
      cases bod with
      | false => simp [or_assoc, and_assoc]
      | true => cases ce <;> cases te <;> simp [or_assoc, and_assoc]

/-- **The framing decision.** The header block of a message that may carry a body is its first line
with the fields, and marks the end of the body if and only if the given fields are not misread or
the connection is let go. -/
theorem framing_iff (m : Message) (firstLine : Str) (headers : Headers) (date : Str)
    (hbody : m.hasBody = true) :
    (m.storeHeader firstLine headers date).header =
        firstLine ++ render (m.composeHeader firstLine headers date).2.fields ++ crlf ∧
      (Framed (m.storeHeader firstLine headers date)
          (m.composeHeader firstLine headers date).2.fields ↔
        WellMarked m headers.fields ∨ Closes m headers.fields) := by
  obtain ⟨hheader, hchunked, hlast⟩ := storeHeader_eq_compose m firstLine headers date
  rw [Message.composeHeader_text] at hheader
  refine ⟨hheader, ?_⟩
  unfold Framed
  rw [hchunked, hlast]
  obtain ⟨more, m', state, hmore, hcompose, hfields, hcl, hte, ⟨_, hframe⟩, huse, hce, hl⟩ :=
    compose_eq m firstLine headers date
  have hbody' : m'.hasBody = m.hasBody := by rw [hframe]
  rw [hcompose]
  by_cases hmarked : (has .contentLength always headers.fields ||
      has .transferEncoding always headers.fields) = true
  · have hframing : m'.storeFraming state = (m', state) := by
      unfold Message.storeFraming
      rw [hcl, hte, if_pos hmarked]
    rw [hframing, hfields]
    have hlength : (∃ f ∈ stored headers.fields ++ more, named "content-length" f = true) ↔
        ∃ f ∈ headers.fields, named "content-length" f = true := by
      have h := exists_stored headers.fields (fun _ => True) fun f hf => (hmore f hf).1
      simpa only [and_true] using h
    have hcodings := exists_stored headers.fields (fun v => announcesChunked v = true)
      fun f hf => (hmore f hf).2
    -- a field that announces chunks has been seen
    have hseen (h : ∃ f ∈ headers.fields, named "transfer-encoding" f = true ∧
        announcesChunked (sanitize f.2) = true) :
        has .transferEncoding (test chunkExpression) headers.fields = true := by
      obtain ⟨f, hf, hname, hvalue⟩ := h
      exact has_iff.mpr ⟨f, hf, named_kind.2 hname, announcesChunked_test hvalue⟩
    have hconn (h : has .connection always headers.fields = false) :
        has .connection (fun v => !test closeExpression v) headers.fields = false := by
      rw [Bool.eq_false_iff] at h ⊢
      intro hnot
      obtain ⟨f, hf, hkind, -⟩ := has_iff.mp hnot
      exact h (has_iff.mpr ⟨f, hf, hkind, rfl⟩)
    have hfirst : ¬ (has .contentLength always headers.fields = false ∧
        has .transferEncoding always headers.fields = false) := by
      rintro ⟨h₁, h₂⟩
      rw [h₁, h₂] at hmarked
      cases hmarked
    have hcloses : m'.last = true ↔ Closes m headers.fields := by
      rw [hl]
      exact closes_iff hconn
    rw [hlength, hcodings, hcloses, hce]
    constructor
    · rintro (hname | ⟨hcoding, hchunks⟩ | hclose)
      · exact .inl (.inr (.inl hname))
      · have hbod : bodiless m = false := by
          rw [Bool.and_eq_true, Bool.not_eq_true'] at hchunks
          exact hchunks.2
        exact .inl (.inr (.inr ⟨hcoding, hbod⟩))
      · exact .inr hclose
    · rintro ((hnone | hname | ⟨hcoding, hbod⟩) | hclose)
      · exact absurd hnone hfirst
      · exact .inl hname
      · exact .inr (.inl ⟨hcoding, by rw [hseen hcoding, hbod, Bool.or_true]; rfl⟩)
      · exact .inr (.inr hclose)
  · have hnone : has .contentLength always headers.fields = false ∧
        has .transferEncoding always headers.fields = false := by simpa using hmarked
    refine iff_of_true ?_ (.inl (.inl hnone))
    have hframing : m'.storeFraming state = if m.useChunkedEncodingByDefault then
        ({ m' with chunkedEncoding := true },
          state.store (js "Transfer-Encoding") (js "chunked"))
        else ({ m' with last := true }, state) := by
      unfold Message.storeFraming
      rw [hcl, hte, if_neg hmarked, hbody', hbody, huse]
      rfl
    rw [hframing]
    split_ifs
    · refine .inr (.inl ⟨⟨(js "Transfer-Encoding", js "chunked"), ?_, ?_, ?_⟩, rfl⟩)
      · exact List.mem_append_right _ (List.mem_singleton_self _)
      · decide
      · decide
    · exact .inr (.inr rfl)

/-- A length. -/
theorem framing_length :
    Framed (Message.new.storeHeader (js "HTTP/1.1 200 OK\r\n")
        [(js "Content-Length", .one (js "5"))] [])
      (Message.new.composeHeader (js "HTTP/1.1 200 OK\r\n")
        [(js "Content-Length", .one (js "5"))] []).2.fields :=
  (framing_iff Message.new (js "HTTP/1.1 200 OK\r\n") [(js "Content-Length", .one (js "5"))] []
    rfl).2.mpr (.inl (.inr (.inl ⟨_, List.mem_singleton_self _, by decide⟩)))

/-- A name that only contains the one of a length. -/
theorem framing_misread :
    ¬ Framed (Message.new.storeHeader (js "HTTP/1.1 200 OK\r\n")
        [(js "X-Content-Length", .one (js "5"))] [])
      (Message.new.composeHeader (js "HTTP/1.1 200 OK\r\n")
        [(js "X-Content-Length", .one (js "5"))] []).2.fields := by
  decide

end NodeCore.HttpFraming
