import NodeCore.HttpOutgoing
import NodeCore.Regex

/-!
`_storeHeader`: the header block of an HTTP message, and what its fields decide about how the end
of the body is marked and whether the connection is kept.

Headers are given as the list of their names and values, in order, from an object or an array.
-/

namespace NodeCore.HttpOutgoing

open NodeCore.Encoding NodeCore.Regex

/-! ### Expressions -/

/-- A literal text with the flag `i`. -/
def ignoreCase (text : String) : List (Term UInt16) :=
  ((toLowerCase (js text)).map fun c d => lowerUnit d == c).map Term.one

def connectionExpression : List (Term UInt16) := ignoreCase "Connection"
def transferEncodingExpression : List (Term UInt16) := ignoreCase "Transfer-Encoding"
def closeExpression : List (Term UInt16) := ignoreCase "close"
def contentLengthExpression : List (Term UInt16) := ignoreCase "Content-Length"
def dateExpression : List (Term UInt16) := ignoreCase "Date"
def expectExpression : List (Term UInt16) := ignoreCase "Expect"
def chunkExpression : List (Term UInt16) := ignoreCase "chunk"

lemma test_ignoreCase {text : String} {s : Str} :
    test (ignoreCase text) s = true ↔ toLowerCase (js text) <:+: toLowerCase s := by
  have hforall (t v : Str) :
      List.Forall₂ (fun p c => p c = true) (t.map fun c d => lowerUnit d == c) v ↔
        toLowerCase v = t := by
    induction t generalizing v with
    | nil => cases v <;> simp [toLowerCase]
    | cons c t ih =>
      cases v with
      | nil => simp [toLowerCase]
      | cons d v =>
        rw [List.map_cons, List.forall₂_cons, ih v]
        simp [toLowerCase]
  unfold ignoreCase
  rw [test_text]
  constructor
  · rintro ⟨u, v, w, rfl, hv⟩
    refine ⟨toLowerCase u, toLowerCase w, ?_⟩
    rw [← (hforall _ v).mp hv]
    simp [toLowerCase]
  · rintro ⟨u, w, h⟩
    obtain ⟨s₁, w', rfl, h₁, rfl⟩ := List.map_eq_append_iff.mp h.symm
    obtain ⟨u', v, rfl, rfl, hv⟩ := List.map_eq_append_iff.mp h₁
    exact ⟨u', v, w', List.append_assoc .., (hforall _ v).mpr hv⟩

/-! ### `storeHeader` -/

/-- A message with what its subclass and the caller have decided about its connection. -/
structure Message extends OutgoingMessage where
  last : Bool
  shouldKeepAlive : Bool
  useChunkedEncodingByDefault : Bool
  sendDate : Bool
  /-- `this.agent` is there. -/
  agent : Bool
  /-- Only a response has one. -/
  statusCode : Option ℕ
  deriving DecidableEq

def Message.new : Message where
  toOutgoingMessage := .new
  last := false
  shouldKeepAlive := true
  useChunkedEncodingByDefault := true
  sendDate := false
  agent := false
  statusCode := none

structure HeaderState where
  sentConnectionHeader : Bool
  sentContentLengthHeader : Bool
  sentTransferEncodingHeader : Bool
  sentDateHeader : Bool
  sentExpect : Bool
  messageHeader : Str
  /-- The fields that `messageHeader` holds. -/
  fields : List (Str × Str)
  deriving DecidableEq

def isBreak (c : UInt16) : Bool := c = 13 || c = 10

/-- `value.replace(/[\r\n]+[ \t]*/g, '')`; the flag says that a match is going on. -/
def removeBreaks : Bool → Str → Str
  | _, [] => []
  | inMatch, c :: s =>
    if isBreak c then removeBreaks true s
    else if inMatch && (c = 32 || c = 9) then removeBreaks true s
    else c :: removeBreaks false s

def sanitize (value : Str) : Str := if value.any isBreak then removeBreaks false value else value

/-- A field of a header block, with its end of line. -/
def line (field value : Str) : Str := field ++ js ": " ++ value ++ crlf

def HeaderState.store (state : HeaderState) (field value : Str) : HeaderState :=
  { state with
    messageHeader := state.messageHeader ++ line field value
    fields := state.fields ++ [(field, value)] }

def storeHeader (self : Message) (state : HeaderState) (field value : Str) :
    Message × HeaderState :=
  let value := sanitize value
  let state := state.store field value
  if test connectionExpression field then
    let state := { state with sentConnectionHeader := true }
    if test closeExpression value then ({ self with last := true }, state)
    else ({ self with shouldKeepAlive := true }, state)
  else if test transferEncodingExpression field then
    let state := { state with sentTransferEncodingHeader := true }
    if test chunkExpression value then ({ self with chunkedEncoding := true }, state)
    else (self, state)
  else if test contentLengthExpression field then
    (self, { state with sentContentLengthHeader := true })
  else if test dateExpression field then (self, { state with sentDateHeader := true })
  else if test expectExpression field then (self, { state with sentExpect := true })
  else (self, state)

/-- The value of a header: one, or an array of them. -/
inductive HeaderValue
  | one (value : Str)
  | many (values : List Str)
  deriving DecidableEq

def HeaderValue.toList : HeaderValue → List Str
  | .one value => [value]
  | .many values => values

abbrev Headers := List (Str × HeaderValue)

/-- The fields in the order of the two loops. -/
def Headers.fields (headers : Headers) : List (Str × Str) :=
  headers.flatMap fun h => h.2.toList.map fun value => (h.1, value)

/-- The two loops of `_storeHeader`. -/
def storeFields (self : Message) (state : HeaderState) : List (Str × Str) → Message × HeaderState
  | [] => (self, state)
  | (field, value) :: rest =>
    let r := storeHeader self state field value
    storeFields r.1 r.2 rest

namespace Message

/-- The header `Date`. -/
def storeDate (m : Message) (date : Str) (state : HeaderState) : HeaderState :=
  if m.sendDate && !state.sentDateHeader then state.store (js "Date") date else state

/-- A response that must not have a body is not chunked, and its connection is closed. -/
def storeStatus (m : Message) : Message :=
  if (m.statusCode = some 204 || m.statusCode = some 304) && m.chunkedEncoding then
    { m with chunkedEncoding := false, shouldKeepAlive := false }
  else m

/-- The keep-alive logic. -/
def storeConnection (m : Message) (state : HeaderState) : Message × HeaderState :=
  if state.sentConnectionHeader then (m, state)
  else if m.shouldKeepAlive &&
      (state.sentContentLengthHeader || m.useChunkedEncodingByDefault || m.agent) then
    (m, state.store (js "Connection") (js "keep-alive"))
  else ({ m with last := true }, state.store (js "Connection") (js "close"))

/-- How the end of the body is marked, if no field has said so. -/
def storeFraming (m : Message) (state : HeaderState) : Message × HeaderState :=
  if state.sentContentLengthHeader || state.sentTransferEncodingHeader then (m, state)
  else if m.hasBody then
    if m.useChunkedEncodingByDefault then
      ({ m with chunkedEncoding := true }, state.store (js "Transfer-Encoding") (js "chunked"))
    else ({ m with last := true }, state)
  else ({ m with chunkedEncoding := false }, state)

/-- `_storeHeader` up to the header block, with the fields of the block. -/
def composeHeader (m : Message) (firstLine : Str) (headers : Headers) (date : Str) :
    Message × HeaderState :=
  let r := storeFields m ⟨false, false, false, false, false, firstLine, []⟩ headers.fields
  let state := r.1.storeDate date r.2
  let r := r.1.storeStatus.storeConnection state
  r.1.storeFraming r.2

/-- `_storeHeader`; `date` is `utcDate()`. -/
def storeHeader (m : Message) (firstLine : Str) (headers : Headers) (date : Str) : Message :=
  let r := m.composeHeader firstLine headers date
  let m := { r.1 with header := r.2.messageHeader ++ crlf, headerSent := false }
  if r.2.sentExpect then { m with toOutgoingMessage := (m.toOutgoingMessage.send (.str []) none).1 }
  else m

end Message

/-! ### What the fields decide -/

/-- The branch of `storeHeader` that a field name takes. -/
inductive Kind
  | connection | transferEncoding | contentLength | date | expect | other
  deriving DecidableEq

def kind (field : Str) : Kind :=
  if test connectionExpression field then .connection
  else if test transferEncodingExpression field then .transferEncoding
  else if test contentLengthExpression field then .contentLength
  else if test dateExpression field then .date
  else if test expectExpression field then .expect
  else .other

/-- Some field takes the branch, with a value that passes. -/
def has (k : Kind) (p : Str → Bool) (fields : List (Str × Str)) : Bool :=
  fields.any fun f => kind f.1 = k && p (sanitize f.2)

def always (_ : Str) : Bool := true

/-- What is stored of the fields. -/
def stored (fields : List (Str × Str)) : List (Str × Str) := fields.map fun f => (f.1, sanitize f.2)

/-- The fields as text. -/
def render (fields : List (Str × Str)) : Str := fields.flatMap fun f => line f.1 f.2

@[simp] lemma has_nil (k : Kind) (p : Str → Bool) : has k p [] = false := rfl

lemma has_cons (k : Kind) (p : Str → Bool) (f : Str × Str) (fields : List (Str × Str)) :
    has k p (f :: fields) = ((kind f.1 = k && p (sanitize f.2)) || has k p fields) := by
  simp [has]

/-- One field. -/
lemma storeHeader_eq (m : Message) (state : HeaderState) (field value : Str) :
    storeHeader m state field value =
      ({ m with
          last := m.last || has .connection (test closeExpression) [(field, value)]
          shouldKeepAlive := m.shouldKeepAlive ||
            has .connection (fun v => !test closeExpression v) [(field, value)]
          chunkedEncoding := m.chunkedEncoding ||
            has .transferEncoding (test chunkExpression) [(field, value)] },
        { sentConnectionHeader :=
            state.sentConnectionHeader || has .connection always [(field, value)]
          sentContentLengthHeader := state.sentContentLengthHeader ||
            has .contentLength always [(field, value)]
          sentTransferEncodingHeader := state.sentTransferEncodingHeader ||
            has .transferEncoding always [(field, value)]
          sentDateHeader := state.sentDateHeader || has .date always [(field, value)]
          sentExpect := state.sentExpect || has .expect always [(field, value)]
          messageHeader := state.messageHeader ++ render (stored [(field, value)])
          fields := state.fields ++ stored [(field, value)] }) := by
  have hrender : render (stored [(field, value)]) = line field (sanitize value) := by
    simp [render, stored]
  rw [hrender]
  unfold storeHeader
  simp only [has_cons, has_nil, kind, HeaderState.store, stored]
  split_ifs <;> simp_all [always]

lemma has_split (k : Kind) (p : Str → Bool) (f : Str × Str) (fields : List (Str × Str)) :
    has k p (f :: fields) = (has k p [f] || has k p fields) := by
  rw [has_cons, has_cons, has_nil, Bool.or_false]

/-- All fields. -/
lemma storeFields_eq (m : Message) (state : HeaderState) (fields : List (Str × Str)) :
    storeFields m state fields =
      ({ m with
          last := m.last || has .connection (test closeExpression) fields
          shouldKeepAlive := m.shouldKeepAlive ||
            has .connection (fun v => !test closeExpression v) fields
          chunkedEncoding := m.chunkedEncoding ||
            has .transferEncoding (test chunkExpression) fields },
        { sentConnectionHeader := state.sentConnectionHeader || has .connection always fields
          sentContentLengthHeader := state.sentContentLengthHeader ||
            has .contentLength always fields
          sentTransferEncodingHeader := state.sentTransferEncodingHeader ||
            has .transferEncoding always fields
          sentDateHeader := state.sentDateHeader || has .date always fields
          sentExpect := state.sentExpect || has .expect always fields
          messageHeader := state.messageHeader ++ render (stored fields)
          fields := state.fields ++ stored fields }) := by
  induction fields generalizing m state with
  | nil => simp [storeFields, stored, render]
  | cons f fields ih =>
    have hstored : stored (f :: fields) = stored [f] ++ stored fields := rfl
    have hrender :
        render (stored (f :: fields)) = render (stored [f]) ++ render (stored fields) := by
      rw [hstored, render, render, render, List.flatMap_append]
    obtain ⟨field, value⟩ := f
    rw [storeFields, storeHeader_eq, ih, hrender, hstored]
    simp only [has_split _ _ (field, value) fields, Bool.or_assoc, List.append_assoc]

namespace Message

variable (m : Message) (firstLine : Str) (headers : Headers) (date : Str)

/-- The header block is the first line and the fields. -/
lemma composeHeader_text : (m.composeHeader firstLine headers date).2.messageHeader =
    firstLine ++ render (m.composeHeader firstLine headers date).2.fields := by
  have hstore (state : HeaderState) (field value : Str)
      (h : state.messageHeader = firstLine ++ render state.fields) :
      (state.store field value).messageHeader =
        firstLine ++ render (state.store field value).fields := by
    have hline : render [(field, value)] = line field value := by simp [render]
    show state.messageHeader ++ line field value =
      firstLine ++ render (state.fields ++ [(field, value)])
    rw [h, render, render, List.flatMap_append, List.append_assoc, ← hline]
    rfl
  have hframing (m : Message) (state : HeaderState)
      (h : state.messageHeader = firstLine ++ render state.fields) :
      (m.storeFraming state).2.messageHeader =
        firstLine ++ render (m.storeFraming state).2.fields := by
    unfold storeFraming
    split_ifs
    · exact h
    · exact hstore _ _ _ h
    · exact h
    · exact h
  have hconnection (m : Message) (state : HeaderState)
      (h : state.messageHeader = firstLine ++ render state.fields) :
      (m.storeConnection state).2.messageHeader =
        firstLine ++ render (m.storeConnection state).2.fields := by
    unfold storeConnection
    split_ifs
    · exact h
    · exact hstore _ _ _ h
    · exact hstore _ _ _ h
  unfold composeHeader
  refine hframing _ _ (hconnection _ _ ?_)
  unfold storeDate
  split_ifs
  · refine hstore _ _ _ ?_
    rw [storeFields_eq]
    rfl
  · rw [storeFields_eq]
    rfl

end Message

end NodeCore.HttpOutgoing
