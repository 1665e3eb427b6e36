import NodeCore.EncodeConcat
import NodeCore.JsNumber
import NodeCore.Separator
import NodeCore.StringDecoderUtf8

/-!
The protocol of the debugger: responses in a stream of strings.

However the stream is cut, `execute` hands on the same responses. The blank line that ends a header
and the bytes of a body are looked for in all that has come, and what is left over starts the next
response.
-/

namespace NodeCore.Debugger

open NodeCore.Encoding NodeCore.EncodeConcat NodeCore.JsNumber NodeCore.StringDecoder
open NodeCore.JsNumber.Number (int truncate)

/-- What the language has: the unary `+`, `JSON.parse` (`none` where it throws) and `{}`. -/
structure Language (J : Type) where
  number : Option Str → Number
  parse : Str → Option J
  object : J

/-! ### `execute` -/

def crlf : Str := js "\r\n"

/-- `'\r\n\r\n'`. -/
def blank : Str := crlf ++ crlf

/-- How much `/: +/` matches in front; 0 where it does not. -/
def colonSpaces : Str → ℕ
  | [] => 0
  | c :: s => if c = 58 ∧ s.head? = some 32 then 1 + (s.takeWhile (· = 32)).length else 0

/-- The properties of an object; `none` for `undefined`. -/
abbrev Headers := List (Str × Option Str)

def Headers.get (headers : Headers) (key : Str) : Option Str :=
  (headers.find? (·.1 = key)).bind (·.2)

/-- Neither a string nor `undefined` can be a prototype. -/
def Headers.set (headers : Headers) (key : Str) (value : Option Str) : Headers :=
  if key = js "__proto__" then headers
  else if headers.any (·.1 = key) then
    headers.map fun p => if p.1 = key then (key, value) else p
  else headers ++ [(key, value)]

/-- `res.headers[kv[0]] = kv[1]`. -/
def readLine (headers : Headers) (line : Str) : Headers :=
  let kv := Separator.splitMatches colonSpaces 0 line
  headers.set (kv.headD []) kv[1]?

def readHeaders (rawHeader : Str) : Headers :=
  (Separator.split crlf rawHeader).foldl readLine []

inductive State
  | headers | body

/-- `raw` and `headers` are those of `res`. -/
structure Protocol where
  raw : Str
  headers : Headers
  state : State
  contentLength : Number
  bodyStartByteIndex : ℕ

def Protocol.new : Protocol := ⟨[], [], .headers, .undefined, 0⟩

/-- `Buffer.byteLength(s, 'utf8')`. -/
def utf8Length (s : Str) : ℕ := (writeUtf8 s).length

/-- `x >= y`, for an `x` that is a number. -/
def ge (x y : Number) : Bool := y.lt x || y = x

/-- `clamp` of an index of a Buffer. `~~` leaves a whole number as it is below `2 ^ 31`, and no
Buffer is so long. -/
def clamp (index : Number) (len : ℕ) : ℕ :=
  let index : ℤ := match index with
    | .fin q => truncate q
    | _ => 0
  if len ≤ index then len
  else if 0 ≤ index then index.toNat
  else if 0 ≤ index + len then (index + len).toNat
  else 0

/-- `slice`. -/
def slice (buf : Bytes) (start stop : Number) : Bytes :=
  let start := clamp start buf.length
  let stop := clamp stop buf.length
  (buf.drop start).take (stop - start)

/-- How many bytes there are from the start of the body on. -/
def Protocol.bodyBytes (p : Protocol) : Number :=
  int ((utf8Length p.raw : ℤ) - p.bodyStartByteIndex)

variable {J : Type} (lang : Language J)

/-- The case `'headers'`, and whether control gets to the case `'body'`. -/
def Protocol.enter (p : Protocol) : Protocol × Bool :=
  match p.state with
  | .body => (p, true)
  | .headers =>
    match Separator.indexOf blank p.raw with
    | none => (p, false)
    | some endHeaderIndex =>
      let rawHeader := p.raw.take endHeaderIndex
      let headers := (Separator.split crlf rawHeader).foldl readLine p.headers
      let p := { p with
        headers := headers
        contentLength := lang.number (headers.get (js "Content-Length"))
        bodyStartByteIndex := utf8Length rawHeader + 4
        state := .body }
      (p, !p.bodyBytes.lt p.contentLength)

/-- What `onResponse` is given. `text` is what `res.body` was before it was parsed. -/
structure Reported (J : Type) where
  raw : Str
  headers : Headers
  text : Str
  body : J

structure Outcome (J : Type) where
  protocol : Protocol
  reported : List (Reported J)
  threw : Bool

/-- `execute` with its string in `raw` already. Each turn takes a response off; a recursion that
does not is without end. -/
def Protocol.run : ℕ → Protocol → Option (Outcome J)
  | 0, _ => none
  | turns + 1, p =>
    let (p, through) := p.enter lang
    if through && ge p.bodyBytes p.contentLength then
      let buf := writeUtf8 p.raw
      let start := int p.bodyStartByteIndex
      let stop := start.add p.contentLength
      let text := utf8Slice (slice buf start stop)
      match if text = [] then some lang.object else lang.parse text with
      | none => some ⟨p, [], true⟩
      | some body =>
        -- `_newRes`, on the rest
        let rest := utf8Slice (slice buf stop (int buf.length))
        let o := run turns { p with raw := rest, headers := [], state := .headers }
        o.map fun o => { o with reported := ⟨p.raw, p.headers, text, body⟩ :: o.reported }
    else some ⟨p, [], false⟩

def Protocol.execute (p : Protocol) (d : Str) : Option (Outcome J) :=
  let p := { p with raw := p.raw ++ d }
  p.run lang (p.raw.length + 1)

/-- One string after the other, also after a call that has thrown: what is reported. -/
def Protocol.feed (p : Protocol) : List Str → Option (List (Reported J))
  | [] => some []
  | d :: chunks =>
    match p.execute lang d with
    | none => none
    | some o => (o.protocol.feed chunks).map (o.reported ++ ·)

/-! ### Responses -/

/-- Any header in which no blank line is, with the right `Content-Length` for an ASCII body. -/
structure Response where
  head : Str
  body : Str
  whole : Separator.indexOf blank (head ++ blank) = some head.length
  ascii : Ascii body
  length : lang.number ((readHeaders head).get (js "Content-Length")) = int body.length

variable {lang}

def Response.serial (r : Response lang) : Str := r.head ++ (blank ++ r.body)

/-- The parsed body. -/
def Response.value (r : Response lang) : Option J :=
  if r.body = [] then some lang.object else lang.parse r.body

/-- What is to be reported: the responses up to the first whose body `JSON.parse` throws at. -/
def expected : List (Response lang) → List (Headers × Str × J)
  | [] => []
  | r :: rs =>
    match r.value with
    | none => []
    | some body => (readHeaders r.head, r.body, body) :: expected rs

/-- The response in what is reported; `raw` is what had come by then. -/
def Reported.response (r : Reported J) : Headers × Str × J := (r.headers, r.text, r.body)

/-! ### Slices -/

lemma clamp_int {n len : ℕ} (h : n ≤ len) : clamp (int n) len = n := by
  have htruncate : truncate (n : ℚ) = n := by
    rw [truncate, if_pos (by positivity)]
    exact_mod_cast Int.floor_natCast n
  unfold clamp int
  dsimp only
  have hcast : ((n : ℤ) : ℚ) = (n : ℚ) := Int.cast_natCast n
  rw [hcast, htruncate]
  split_ifs <;> omega

lemma slice_int (front middle back : Bytes) :
    slice (front ++ (middle ++ back)) (int front.length) (int (front.length + middle.length : ℕ)) =
      middle := by
  unfold slice
  dsimp only
  rw [clamp_int (by simp), clamp_int (by simp only [List.length_append]; omega), List.drop_left,
    Nat.add_sub_cancel_left, List.take_left]

lemma slice_rest (front back : Bytes) :
    slice (front ++ back) (int front.length) (int (front ++ back).length) = back := by
  unfold slice
  have hfront : clamp (int front.length) (front ++ back).length = front.length :=
    clamp_int (by simp)
  dsimp only
  rw [hfront, clamp_int le_rfl, List.drop_left, List.length_append, Nat.add_sub_cancel_left,
    List.take_length]

lemma utf8Length_ascii {s : Str} (h : Ascii s) : utf8Length s = s.length := by
  rw [utf8Length, writeUtf8_ascii h, writeOneByte, List.length_map]

lemma ascii_blank : Ascii blank := by decide

lemma writeUtf8_front (head t : Str) : writeUtf8 (head ++ (blank ++ t)) =
    writeUtf8 head ++ writeOneByte blank ++ writeUtf8 t := by
  have hseam : seam (head ++ blank) t = false := by
    have hlast : (head ++ blank).getLast? = some 10 := by
      rw [List.getLast?_append_of_ne_nil _ (by decide)]
      rfl
    unfold seam
    rw [hlast]
    cases t.head? <;> rfl
  rw [← List.append_assoc, writeUtf8_append hseam, writeUtf8_append_ascii head ascii_blank]

lemma utf8Length_front (head t : Str) :
    utf8Length (head ++ (blank ++ t)) = utf8Length head + 4 + utf8Length t := by
  unfold utf8Length
  rw [writeUtf8_front, List.length_append, List.length_append]
  rfl

/-! ### What is ahead -/

variable {p : Protocol} {more : Str}

/-- The header of `r` has been read, and `t` is what there is behind it. -/
structure InBody (p : Protocol) (more : Str) (r : Response lang) (rs : List (Response lang))
    (t : Str) : Prop where
  state : p.state = .body
  headers : p.headers = readHeaders r.head
  length : p.contentLength = int r.body.length
  start : p.bodyStartByteIndex = utf8Length r.head + 4
  raw : p.raw = r.head ++ (blank ++ t)
  text : t ++ more = r.body ++ rs.flatMap Response.serial

/-- The responses `rs` are in what there is and in `more`, which is still to come. -/
inductive Ready (p : Protocol) (more : Str) : List (Response lang) → Prop
  | header {rs : List (Response lang)} (state : p.state = .headers) (headers : p.headers = [])
      (text : p.raw ++ more = rs.flatMap Response.serial) : Ready p more rs
  | body {r : Response lang} {rs : List (Response lang)} {t : Str}
      (h : InBody p more r rs t) : Ready p more (r :: rs)

/-- The same between two calls: the header is not complete, or the body is not, or it has made
`JSON.parse` throw. -/
inductive Ahead (p : Protocol) (more : Str) : List (Response lang) → Prop
  | header {rs : List (Response lang)} (state : p.state = .headers) (headers : p.headers = [])
      (text : p.raw ++ more = rs.flatMap Response.serial)
      (none : Separator.indexOf blank p.raw = none) : Ahead p more rs
  | body {r : Response lang} {rs : List (Response lang)} {t : Str} (h : InBody p more r rs t)
      (waits : t.length < r.body.length ∨ r.value = none) : Ahead p more (r :: rs)

lemma Ahead.ready {rs : List (Response lang)} {d : Str} (h : Ahead p (d ++ more) rs) :
    Ready { p with raw := p.raw ++ d } more rs := by
  cases h with
  | header state headers text none => exact .header state headers (by simpa using text)
  | @body r rs t h waits =>
    refine .body (t := t ++ d) ⟨h.state, h.headers, h.length, h.start, ?_, ?_⟩
    · simp [h.raw]
    · simpa using h.text

lemma ge_int (a b : ℕ) : ge (int a) (int b) = decide (b ≤ a) := by
  rw [ge, Number.int_lt]
  by_cases h : b ≤ a
  · rcases h.lt_or_eq with hlt | rfl
    · simp [hlt, h]
    · simp
  · have hne : int (b : ℤ) ≠ int a := fun heq => h (by
      have := Number.int_inj.mp heq
      omega)
    simp only [h, hne, decide_false, Bool.or_false, decide_eq_false_iff_not]
    omega

section body

variable {r : Response lang} {rs : List (Response lang)} {t : Str}

lemma InBody.bodyBytes (h : InBody p more r rs t) : p.bodyBytes = int (utf8Length t) := by
  rw [Protocol.bodyBytes, h.raw, utf8Length_front, h.start]
  congr 1
  push_cast
  ring

/-- The body is not all there, or the rest of the responses follows it. -/
lemma InBody.cases (h : InBody p more r rs t) :
    (t.length < r.body.length ∧ utf8Length t = t.length) ∨
      ∃ rest, t = r.body ++ rest ∧ rest ++ more = rs.flatMap Response.serial ∧
        utf8Length t = r.body.length + utf8Length rest := by
  rcases Nat.lt_or_ge t.length r.body.length with hlt | hge
  · left
    have hbody : t <+: r.body :=
      List.prefix_of_prefix_length_le ⟨more, h.text⟩ (List.prefix_append _ _) hlt.le
    exact ⟨hlt, utf8Length_ascii fun c hc => r.ascii c (hbody.subset hc)⟩
  · right
    obtain ⟨rest, rfl⟩ : r.body <+: t :=
      List.prefix_of_prefix_length_le ⟨_, h.text.symm⟩ (List.prefix_append t more) hge
    refine ⟨rest, rfl, ?_, ?_⟩
    · have htext := h.text
      rw [List.append_assoc] at htext
      exact List.append_cancel_left htext
    · rw [utf8Length, writeUtf8_ascii_append r.ascii, List.length_append, writeOneByte,
        List.length_map]
      rfl

variable {p' : Protocol} {through : Bool} {turns : ℕ}

lemma run_waits (henter : p.enter lang = (p', through)) (h : InBody p' more r rs t)
    (hlt : t.length < r.body.length) (hlength : utf8Length t = t.length) :
    p.run lang (turns + 1) = some ⟨p', [], false⟩ := by
  have hge : ge p'.bodyBytes p'.contentLength = false := by
    rw [h.bodyBytes, h.length, ge_int, hlength]
    simpa using hlt
  rw [Protocol.run, henter]
  dsimp only
  rw [hge, Bool.and_false, if_neg Bool.false_ne_true]

/-- What is cut out of the bytes. -/
lemma InBody.text_eq {rest : Str} (h : InBody p more r rs (r.body ++ rest)) :
    utf8Slice (slice (writeUtf8 p.raw) (int p.bodyStartByteIndex)
      ((int p.bodyStartByteIndex).add p.contentLength)) = r.body ∧
    utf8Slice (slice (writeUtf8 p.raw) ((int p.bodyStartByteIndex).add p.contentLength)
      (int (writeUtf8 p.raw).length)) = rest := by
  have hbytes : writeUtf8 p.raw = (writeUtf8 r.head ++ writeOneByte blank) ++
      (writeOneByte r.body ++ writeUtf8 rest) := by
    rw [h.raw, writeUtf8_front, writeUtf8_ascii_append r.ascii]
  have hstart : p.bodyStartByteIndex = (writeUtf8 r.head ++ writeOneByte blank).length := by
    rw [h.start, List.length_append]
    rfl
  have hstop : (int p.bodyStartByteIndex).add p.contentLength =
      int ((writeUtf8 r.head ++ writeOneByte blank).length + (writeOneByte r.body).length : ℕ) := by
    rw [hstart, h.length, Number.int_add, writeOneByte, writeOneByte, List.length_map]
    norm_cast
  rw [hstop, hstart, hbytes]
  constructor
  · rw [slice_int, ← writeUtf8_ascii r.ascii, utf8Slice_writeUtf8]
  · have hlength : (writeUtf8 r.head ++ writeOneByte blank).length +
        (writeOneByte r.body).length =
          (writeUtf8 r.head ++ writeOneByte blank ++ writeOneByte r.body).length :=
      List.length_append.symm
    rw [hlength, ← List.append_assoc, slice_rest, utf8Slice_writeUtf8]

lemma run_through (henter : p.enter lang = (p', true)) {rest : Str}
    (h : InBody p' more r rs (r.body ++ rest))
    (hlength : utf8Length (r.body ++ rest) = r.body.length + utf8Length rest) :
    (r.value = none → p.run lang (turns + 1) = some ⟨p', [], true⟩) ∧
      ∀ body, r.value = some body → p.run lang (turns + 1) =
        (Protocol.run lang turns { p' with raw := rest, headers := [], state := .headers }).map
          fun o => { o with reported := ⟨p'.raw, p'.headers, r.body, body⟩ :: o.reported } := by
  have hge : ge p'.bodyBytes p'.contentLength = true := by
    rw [h.bodyBytes, h.length, ge_int, hlength]
    simp
  obtain ⟨htext, hrest⟩ := h.text_eq
  have hvalue : (if r.body = [] then some lang.object else lang.parse r.body) = r.value := rfl
  constructor
  · intro hnone
    rw [Protocol.run, henter]
    dsimp only
    rw [hge, Bool.and_true, if_pos rfl, htext, hvalue, hnone]
  · intro body hsome
    rw [Protocol.run, henter]
    dsimp only
    rw [hge, Bool.and_true, if_pos rfl, htext, hrest, hvalue, hsome]

end body

/-- The blank line is there, so the header is the next response's. -/
lemma enter_header {rs : List (Response lang)} (state : p.state = .headers)
    (headers : p.headers = []) (text : p.raw ++ more = rs.flatMap Response.serial) {i : ℕ}
    (hi : Separator.indexOf blank p.raw = some i) :
    ∃ r rs' t p', rs = r :: rs' ∧ InBody p' more r rs' t ∧ p'.raw = p.raw ∧
      p.enter lang = (p', !(p'.bodyBytes.lt p'.contentLength)) := by
  cases rs with
  | nil =>
    obtain ⟨hraw, -⟩ := List.append_eq_nil_iff.mp text
    have hnone : Separator.indexOf blank [] = none := rfl
    rw [hraw, hnone] at hi
    cases hi
  | cons r rs =>
    have hwhole := Separator.indexOf_of_prefix r.whole (r.body ++ rs.flatMap Response.serial)
    have hall : p.raw ++ more = r.head ++ blank ++ (r.body ++ rs.flatMap Response.serial) := by
      simpa [Response.serial] using text
    have hfound := Separator.indexOf_of_prefix hi more
    rw [hall, hwhole] at hfound
    obtain rfl := Option.some.inj hfound
    have hle := Separator.indexOf_le hi
    obtain ⟨t, ht⟩ : r.head ++ blank <+: p.raw :=
      List.prefix_of_prefix_length_le ⟨_, hall.symm⟩ (List.prefix_append _ _)
        (by rw [List.length_append]; exact hle)
    have htake : p.raw.take r.head.length = r.head := by
      rw [← ht, List.append_assoc, List.take_left]
    have hmore : t ++ more = r.body ++ rs.flatMap Response.serial := by
      rw [← ht, List.append_assoc] at hall
      exact List.append_cancel_left hall
    refine ⟨r, rs, t, { p with
      headers := readHeaders r.head
      contentLength := lang.number ((readHeaders r.head).get (js "Content-Length"))
      bodyStartByteIndex := utf8Length r.head + 4
      state := .body }, rfl, ⟨rfl, rfl, r.length, rfl, ?_, hmore⟩, rfl, ?_⟩
    · rw [← List.append_assoc]
      exact ht.symm
    · rw [Protocol.enter, state]
      dsimp only
      rw [hi]
      dsimp only
      rw [htake, headers]
      rfl

/-- Control gets to the body with the header of the first response, or not all of a header has
come. -/
lemma Ready.enter {rs : List (Response lang)} (h : Ready p more rs) :
    (∃ r rs' t p', rs = r :: rs' ∧ InBody p' more r rs' t ∧ p'.raw = p.raw ∧
      (p.enter lang = (p', true) ∨ p.enter lang = (p', !(p'.bodyBytes.lt p'.contentLength)))) ∨
    p.enter lang = (p, false) ∧ Ahead p more rs := by
  cases h with
  | header state headers text =>
    cases hi : Separator.indexOf blank p.raw with
    | none =>
      refine .inr ⟨?_, .header state headers text hi⟩
      rw [Protocol.enter, state]
      dsimp only
      rw [hi]
    | some i =>
      obtain ⟨r, rs', t, p', hrs, hbody, hraw, henter⟩ := enter_header state headers text hi
      exact .inl ⟨r, rs', t, p', hrs, hbody, hraw, .inr henter⟩
  | @body r rs t h =>
    refine .inl ⟨r, rs, t, p, rfl, h, rfl, .inl ?_⟩
    rw [Protocol.enter, h.state]

/-- What one run reports is what is expected first, and what is left is as it should be. -/
lemma run_ahead (turns : ℕ) {rs : List (Response lang)} (h : Ready p more rs)
    (hturns : p.raw.length < turns) :
    ∃ (o : Outcome J) (rs' : List (Response lang)), p.run lang turns = some o ∧
      expected rs = o.reported.map Reported.response ++ expected rs' ∧
      Ahead o.protocol more rs' := by
  induction turns generalizing p rs with
  | zero => exact absurd hturns (Nat.not_lt_zero _)
  | succ turns ih =>
    rcases h.enter with ⟨r, rs', t, p', rfl, hbody, hraw, henter⟩ | ⟨henter, hahead⟩
    · rcases hbody.cases with ⟨hlt, hlength⟩ | ⟨rest, rfl, hrest, hlength⟩
      · -- the body is not all there
        have hrun : p.run lang (turns + 1) = some ⟨p', [], false⟩ := by
          rcases henter with henter | henter <;> exact run_waits henter hbody hlt hlength
        exact ⟨_, r :: rs', hrun, rfl, .body hbody (.inl hlt)⟩
      · have hthrough : p.enter lang = (p', true) := by
          rcases henter with henter | henter
          · exact henter
          · rw [henter, hbody.bodyBytes, hbody.length, Number.int_lt, hlength]
            congr 1
            simp
        obtain ⟨hthrows, hreports⟩ :=
          @run_through J lang p more r rs' p' turns hthrough rest hbody hlength
        cases hvalue : r.value with
        | none =>
          refine ⟨_, r :: rs', hthrows hvalue, ?_, .body hbody (.inr hvalue)⟩
          simp [expected, hvalue]
        | some body =>
          have hready : Ready { p' with raw := rest, headers := [], state := .headers } more rs' :=
            .header rfl rfl hrest
          have hshort : rest.length < turns := by
            have hlen := congrArg List.length hbody.raw
            rw [hraw] at hlen
            simp only [List.length_append] at hlen
            have hblank : blank.length = 4 := rfl
            omega
          obtain ⟨o, rs'', hrun, hexpected, hahead⟩ := ih hready hshort
          refine ⟨{ o with reported := ⟨p'.raw, p'.headers, r.body, body⟩ :: o.reported }, rs'',
            by rw [hreports body hvalue, hrun]; rfl, ?_, hahead⟩
          rw [expected, hvalue]
          dsimp only
          rw [hexpected, List.map_cons, Reported.response, hbody.headers]
          rfl
    · have hrun : p.run lang (turns + 1) = some ⟨p, [], false⟩ := by
        rw [Protocol.run, henter]
        rfl
      exact ⟨_, rs, hrun, rfl, hahead⟩

/-! ### All chunks -/

/-- Nothing more is expected where nothing more comes. -/
lemma Ahead.expected_eq_nil {rs : List (Response lang)} (h : Ahead p [] rs) : expected rs = [] := by
  cases h with
  | header state headers text none =>
    cases rs with
    | nil => rfl
    | cons r rs =>
      have hwhole := Separator.indexOf_of_prefix r.whole (r.body ++ rs.flatMap Response.serial)
      have hraw : p.raw = r.head ++ blank ++ (r.body ++ rs.flatMap Response.serial) := by
        simpa [Response.serial] using text
      rw [hraw, hwhole] at none
      cases none
  | @body r rs t h waits =>
    have hlength := congrArg List.length h.text
    rw [List.append_nil, List.length_append] at hlength
    have hvalue : r.value = none := waits.resolve_left (by omega)
    rw [expected, hvalue]

lemma feed_ahead (chunks : List Str) {rs : List (Response lang)} (h : Ahead p chunks.flatten rs) :
    ∃ reported : List (Reported J), p.feed lang chunks = some reported ∧
      reported.map Reported.response = expected rs := by
  induction chunks generalizing p rs with
  | nil => exact ⟨[], rfl, h.expected_eq_nil.symm⟩
  | cons d chunks ih =>
    obtain ⟨o, rs', hrun, hexpected, hahead⟩ := run_ahead _ h.ready (Nat.lt_succ_self _)
    obtain ⟨reported, hfeed, hreported⟩ := ih hahead
    have hexecute : p.execute lang d = some o := hrun
    refine ⟨o.reported ++ reported, ?_, ?_⟩
    · rw [Protocol.feed, hexecute]
      dsimp only
      rw [hfeed]
      rfl
    · rw [List.map_append, hreported, hexpected]

lemma length_of_mem_expected {rs : List (Response lang)} {x : Headers × Str × J}
    (h : x ∈ expected rs) : lang.number (x.1.get (js "Content-Length")) = int x.2.1.length := by
  induction rs with
  | nil => cases h
  | cons r rs ih =>
    rw [expected] at h
    cases hvalue : r.value with
    | none =>
      rw [hvalue] at h
      cases h
    | some body =>
      rw [hvalue] at h
      rcases List.mem_cons.mp h with rfl | h
      · exact r.length
      · exact ih h

/-- **Any cut.** However the responses are cut into strings, the same ones are reported in the same
order as from all in one, and each body is as long as its `Content-Length`. -/
theorem feed_cuts (responses : List (Response lang)) (chunks : List Str)
    (hall : chunks.flatten = responses.flatMap Response.serial) :
    ∃ cut whole : List (Reported J), Protocol.new.feed lang chunks = some cut ∧
      Protocol.new.feed lang [chunks.flatten] = some whole ∧
      cut.map Reported.response = whole.map Reported.response ∧
      cut.map Reported.response = expected responses ∧
      ∀ q ∈ cut, lang.number (q.headers.get (js "Content-Length")) = int q.text.length := by
  have hnew : Ahead Protocol.new (responses.flatMap Response.serial) responses :=
    .header rfl rfl rfl rfl
  obtain ⟨cut, hcut, hexpected⟩ := feed_ahead chunks (hall ▸ hnew)
  obtain ⟨whole, hwhole, hexpected'⟩ :=
    feed_ahead [chunks.flatten] (by rw [List.flatten_singleton, hall]; exact hnew)
  refine ⟨cut, whole, hcut, hwhole, hexpected.trans hexpected'.symm, hexpected, fun q hq => ?_⟩
  exact length_of_mem_expected (hexpected ▸ List.mem_map_of_mem hq : q.response ∈ _)

/-! ### Header lines -/

/-- Lines that are not empty and have no return in them make a header. -/
lemma whole_lines {lines : List Str} (h : ∀ line ∈ lines, line ≠ [] ∧ 13 ∉ line) :
    Separator.indexOf blank (List.intercalate crlf lines ++ blank) =
      some (List.intercalate crlf lines).length := by
  induction lines with
  | nil => rfl
  | cons line lines ih =>
    rw [List.forall_mem_cons] at h
    have hblank : blank = 13 :: [10, 13, 10] := rfl
    cases lines with
    | nil =>
      rw [List.intercalate_singleton, hblank, Separator.indexOf_skip h.1.2]
      rfl
    | cons next lines =>
      rw [List.intercalate_cons_of_ne_nil (List.cons_ne_nil _ _)]
      have hrest := ih h.2
      obtain ⟨c, s, hc, hcons⟩ :
          ∃ c s, c ≠ 13 ∧ List.intercalate crlf (next :: lines) = c :: s := by
        obtain ⟨hne, hnone⟩ := h.2 next List.mem_cons_self
        cases next with
        | nil => exact absurd rfl hne
        | cons c next =>
          have hc : c ≠ 13 := fun hc => hnone (hc ▸ List.mem_cons_self)
          cases lines with
          | nil => exact ⟨c, next, hc, List.intercalate_singleton⟩
          | cons other lines =>
            refine ⟨c, next ++ crlf ++ List.intercalate crlf (other :: lines), hc, ?_⟩
            rw [List.intercalate_cons_of_ne_nil (List.cons_ne_nil _ _), List.cons_append,
              List.cons_append]
      rw [hcons, hblank] at hrest
      have hnot : (13 :: [10, 13, 10] : Str).isPrefixOf
          (13 :: 10 :: (c :: s ++ 13 :: [10, 13, 10])) = false := by
        simp [List.isPrefixOf, Ne.symm hc]
      have hskip := Separator.indexOf_skip (by decide : (13 : UInt16) ∉ [10]) [10, 13, 10]
        (c :: s ++ 13 :: [10, 13, 10])
      rw [List.singleton_append, hrest] at hskip
      have hsplit : line ++ crlf ++ (c :: s) ++ blank =
          line ++ (13 :: 10 :: (c :: s ++ 13 :: [10, 13, 10])) := by
        simp [crlf, hblank, js]
      rw [hcons, hsplit, hblank, Separator.indexOf_skip h.1.2, Separator.indexOf, hnot,
        if_neg Bool.false_ne_true, hskip]
      have hcrlf : crlf.length = 2 := rfl
      simp only [Option.map_some, List.length_append, List.length_singleton, hcrlf]
      congr 1
      omega

/-- `+` on digits, and a `JSON.parse` that knows `{}` only. -/
def digits : Language Unit where
  number s := s.elim .nan fun s => int ((s.foldl (fun n c => 10 * n + (c.toNat - 48)) 0 : ℕ) : ℤ)
  parse s := if s = js "{}" then some () else none
  object := ()

/-- A response with a body. -/
def evaluated : Response digits :=
  ⟨js "Content-Length: 2", js "{}", by decide, by decide, by decide⟩

/-- The first response there is on a connection. -/
def connected : Response digits :=
  ⟨List.intercalate crlf [js "Type: connect", js "Content-Length: 0"], [], whole_lines (by decide),
    by decide, by decide⟩

/-- Cuts in a header's name, in the blank line, and behind a body. -/
theorem feed_cuts_lines :
    (Protocol.new.feed digits [js "Content-Len", js "gth: 2\r\n\r", js "\n{}Type: conn",
      js "ect\r\nContent-Length: 0\r\n\r", js "\n"]).map (·.map Reported.response) =
        some [([(js "Content-Length", some (js "2"))], js "{}", ()),
          ([(js "Type", some (js "connect")), (js "Content-Length", some (js "0"))], [], ())] := by
  obtain ⟨cut, whole, hcut, -, -, hexpected, -⟩ := feed_cuts [evaluated, connected]
    [js "Content-Len", js "gth: 2\r\n\r", js "\n{}Type: conn", js "ect\r\nContent-Length: 0\r\n\r",
      js "\n"] (by decide)
  rw [hcut, Option.map_some, hexpected]
  rfl

end NodeCore.Debugger
