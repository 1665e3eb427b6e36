import NodeCore.HttpNative

/-!
The head of a request comes out as it went in.

However the head is cut over the calls of `execute`, and whether its lines fit in the places or
are flushed, JavaScript is given the lines and the URL, and delivers the same message.
-/

namespace NodeCore.HttpReassembly

open NodeCore.Encoding NodeCore.HttpParser NodeCore.HttpIsolation NodeCore.HttpNative

/-- A header, in the fragments that the tokenizer hands on. -/
structure Line where
  field : List Bytes
  value : List Bytes
  field_ne : field ≠ []
  value_ne : value ≠ []

def Line.callbacks (l : Line) : List (Callback Bytes) :=
  l.field.map .field ++ l.value.map .value

/-- What JavaScript is to get of it. -/
def Line.text (l : Line) : Str × Str := (utf8Slice l.field.flatten, utf8Slice l.value.flatten)

/-- A head, all but its end. -/
def opening (url : List Bytes) (lines : List Line) : List (Callback Bytes) :=
  .messageBegin :: (url.map .url ++ lines.flatMap Line.callbacks)

/-- The head of a request. -/
structure Head where
  url : List Bytes
  lines : List Line
  info : Info
  request : info.method.isSome = true

namespace Head

variable (head : Head)

def opening : List (Callback Bytes) := HttpReassembly.opening head.url head.lines

def callbacks : List (Callback Bytes) := head.opening ++ [.headersComplete head.info]

def text : List (Str × Str) × Str := (head.lines.map Line.text, utf8Slice head.url.flatten)

def message : IncomingMessage :=
  head.text.1.foldl IncomingMessage.addHeaderLine ⟨head.info, head.text.2, [], [], false⟩

def Within (maxHeaderPairs : ℤ) : Prop :=
  maxHeaderPairs ≤ 0 ∨ 2 * (head.lines.length : ℤ) ≤ maxHeaderPairs

end Head

/-- The headers and the URL that `parserOnHeadersComplete` is going to use. -/
def received (p : Parser) (info : Info) : List (Str × Str) × Str :=
  if p.haveFlushed then (p.flush.headers, p.flush.url)
  else (p.createHeaders, if ownUrl p info = [] then p.url else ownUrl p info)

lemma onHeadersComplete_received (p : Parser) (info : Info) :
    (p.onHeadersComplete info).delivered = p.delivered ++
      [((received p info).1.take (p.limit (received p info).1.length)).foldl
        IncomingMessage.addHeaderLine ⟨info, (received p info).2, [], [], false⟩] := by
  cases hf : p.haveFlushed with
  | true =>
    rw [onHeadersComplete_slow hf, headersComplete_eq]
    have hlimit : p.flush.limit = p.limit := rfl
    have hdel : p.flush.delivered = p.delivered := rfl
    simp [received, hf, headMessage, hlimit, hdel]
  | false =>
    rw [onHeadersComplete_fast hf, headersComplete_eq]
    simp [received, hf, headMessage]

/-! ### Fragments -/

/-- Fragments that are taken one after the other as two at once would be are taken as one. -/
lemma foldl_flatten {on : Parser → Bytes → Parser} {p : Parser}
    (hjoin : ∀ b c, on (on p b) c = on p (b ++ c)) {l : List Bytes} (hl : l ≠ []) :
    l.foldl on p = on p l.flatten := by
  obtain ⟨b, l, rfl⟩ := List.exists_cons_of_ne_nil hl
  clear hl
  induction l generalizing b with
  | nil => simp
  | cons c l ih =>
    have h := ih (b ++ c)
    rw [List.foldl_cons] at h
    rw [List.foldl_cons, List.foldl_cons, hjoin, h]
    simp only [List.flatten_cons, List.append_assoc]

lemma fields_flatten {p : Parser} {l : List Bytes} (hl : l ≠ []) :
    (l.map Callback.field).foldl callbackOf p = p.onHeaderField l.flatten := by
  rw [List.foldl_map]
  exact foldl_flatten (fun b c => field_field p b c) hl

lemma values_flatten {p : Parser} (hp : Paired p) {l : List Bytes} (hl : l ≠ []) :
    (l.map Callback.value).foldl callbackOf p = p.onHeaderValue l.flatten := by
  rw [List.foldl_map]
  exact foldl_flatten (fun b c => value_value hp b c) hl

lemma urls_flatten (p : Parser) (l : List Bytes) :
    (l.map Callback.url).foldl callbackOf p = p.onUrl l.flatten := by
  induction l generalizing p with
  | nil => simp [Parser.onUrl]
  | cons b l ih =>
    rw [List.map_cons, List.foldl_cons, ih]
    simp [callbackOf, Parser.onUrl]

lemma line_flatten {p : Parser} (hp : Paired p) (l : Line) :
    l.callbacks.foldl callbackOf p =
      (p.onHeaderField l.field.flatten).onHeaderValue l.value.flatten := by
  have hpaired : Paired (p.onHeaderField l.field.flatten) := hp.event (.field _)
  rw [Line.callbacks, List.foldl_append, fields_flatten l.field_ne,
    values_flatten hpaired l.value_ne]

/-! ### One header after the other -/

/-- What has been collected of a head of `total` lines. -/
structure Collected (ds : List IncomingMessage) (url : Bytes) (total : ℕ)
    (lines : List (Str × Str)) (p : Parser) : Prop where
  pairs : p.fields.length = p.values.length
  lt : p.fields.length < 32
  eq : p.headers ++ p.createHeaders = lines
  url : p.url ++ utf8Slice p.nativeUrl = utf8Slice url
  clean : p.haveFlushed = false → Clean p
  within : p.maxHeaderPairs ≤ 0 ∨ 2 * (total : ℤ) ≤ p.maxHeaderPairs
  length : lines.length ≤ total
  delivered : p.delivered = ds

lemma createHeaders_concat {p : Parser} (h : p.fields.length = p.values.length) (a b : Bytes) :
    ({ p with fields := p.fields ++ [a], values := p.values ++ [b] } : Parser).createHeaders =
      p.createHeaders ++ [(utf8Slice a, utf8Slice b)] := by
  simp [Parser.createHeaders, List.zip_append h]

/-- As long as there is a line to come, `parserOnHeaders` goes on collecting. -/
lemma flush_headers {p : Parser}
    (h : p.maxHeaderPairs ≤ 0 ∨ 2 * (p.headers.length : ℤ) < p.maxHeaderPairs ∨
      p.createHeaders = []) :
    p.flush.headers = p.headers ++ p.createHeaders := by
  have hflush : p.flush.headers =
      if p.maxHeaderPairs ≤ 0 ∨ 2 * (p.headers.length : ℤ) < p.maxHeaderPairs then
        p.headers ++ p.createHeaders else p.headers := rfl
  rw [hflush]
  rcases h with h | h | h
  · rw [if_pos (.inl h)]
  · rw [if_pos (.inr h)]
  · rw [h, List.append_nil, ite_self]

lemma Collected.flush_headers {ds : List IncomingMessage} {url : Bytes} {total : ℕ}
    {lines : List (Str × Str)} {p : Parser} (h : Collected ds url total lines p) :
    p.flush.headers = lines := by
  rw [HttpReassembly.flush_headers, h.eq]
  refine h.within.imp_right fun hmax => ?_
  have hlen := congrArg List.length h.eq
  rw [List.length_append] at hlen
  have htotal := h.length
  by_cases h0 : p.createHeaders = []
  · exact .inr h0
  · have := List.length_pos_iff.mpr h0
    exact .inl (by omega)

lemma Collected.line {ds : List IncomingMessage} {url : Bytes} {total : ℕ}
    {lines : List (Str × Str)} {p : Parser} (h : Collected ds url total lines p)
    (ht : lines.length < total) (a b : Bytes) :
    Collected ds url total (lines ++ [(utf8Slice a, utf8Slice b)])
      ((p.onHeaderField a).onHeaderValue b) := by
  have hlen : (lines ++ [(utf8Slice a, utf8Slice b)]).length ≤ total := by
    rwa [List.length_append]
  by_cases h2 : p.fields.length + 1 = 32
  · -- the places are full
    rw [onHeaderField_flush h.pairs h2, onHeaderValue_new (by simp)]
    exact {
      pairs := rfl
      lt := Nat.one_lt_ofNat
      eq := congrArg (· ++ [(utf8Slice a, utf8Slice b)]) h.flush_headers
      url := (List.append_nil _).trans h.url
      clean := fun hf => absurd hf.symm Bool.false_ne_true
      within := h.within
      length := hlen
      delivered := h.delivered }
  · rw [onHeaderField_new h.pairs h2, onHeaderValue_new (by simp [h.pairs])]
    exact {
      pairs := by simp [h.pairs]
      lt := by
        have := h.lt
        simp only [List.length_append, List.length_singleton]
        omega
      eq := by
        rw [createHeaders_concat h.pairs, ← List.append_assoc, h.eq]
      url := h.url
      clean := h.clean
      within := h.within
      length := hlen
      delivered := h.delivered }

/-! ### Values come after names -/

lemma allReady_fields (p : Parser) (l : List Bytes) : AllReady p (l.map .field) := by
  induction l generalizing p with
  | nil => trivial
  | cons b l ih => exact ⟨trivial, ih _⟩

lemma allReady_urls (p : Parser) (l : List Bytes) : AllReady p (l.map .url) := by
  induction l generalizing p with
  | nil => trivial
  | cons b l ih => exact ⟨trivial, ih _⟩

lemma onHeaderValue_fields (p : Parser) (b : Bytes) : (p.onHeaderValue b).fields = p.fields := by
  unfold Parser.onHeaderValue
  split_ifs <;> rfl

lemma allReady_values {p : Parser} (hp : p.fields ≠ []) (l : List Bytes) :
    AllReady p (l.map .value) := by
  induction l generalizing p with
  | nil => trivial
  | cons b l ih => exact ⟨hp, ih (by rwa [callbackOf, onHeaderValue_fields])⟩

lemma onHeaderField_ne {p : Parser} (hp : p.fields.length = p.values.length) (b : Bytes) :
    (p.onHeaderField b).fields ≠ [] := by
  by_cases h2 : p.fields.length + 1 = 32
  · rw [onHeaderField_flush hp h2]
    exact List.cons_ne_nil _ _
  · rw [onHeaderField_new hp h2]
    exact List.append_ne_nil_of_right_ne_nil _ (List.cons_ne_nil _ _)

lemma line_pairs {p : Parser} (hp : p.fields.length = p.values.length) (a b : Bytes) :
    ((p.onHeaderField a).onHeaderValue b).fields.length =
      ((p.onHeaderField a).onHeaderValue b).values.length := by
  by_cases h2 : p.fields.length + 1 = 32
  · rw [onHeaderField_flush hp h2, onHeaderValue_new (by simp)]
    rfl
  · rw [onHeaderField_new hp h2, onHeaderValue_new (by simp [hp])]
    simp [hp]

lemma allReady_lines {p : Parser} (hp : p.fields.length = p.values.length) (ls : List Line) :
    AllReady p (ls.flatMap Line.callbacks) := by
  induction ls generalizing p with
  | nil => trivial
  | cons l ls ih =>
    rw [List.flatMap_cons]
    refine allReady_append.mpr ⟨?_, ih ?_⟩
    · refine allReady_append.mpr ⟨allReady_fields p _, allReady_values ?_ _⟩
      rw [fields_flatten l.field_ne]
      exact onHeaderField_ne hp _
    · rw [line_flatten (.inl hp)]
      exact line_pairs hp _ _

lemma allReady_opening (p : Parser) (url : List Bytes) (lines : List Line) :
    AllReady p (opening url lines) := by
  refine ⟨trivial, allReady_append.mpr ⟨allReady_urls _ _, allReady_lines ?_ _⟩⟩
  rw [urls_flatten]
  rfl

/-! ### A head -/

lemma Collected.foldl {ds : List IncomingMessage} {url : Bytes} {total : ℕ}
    {lines : List (Str × Str)} {p : Parser} (h : Collected ds url total lines p)
    {ls : List Line} (ht : lines.length + ls.length ≤ total) :
    Collected ds url total (lines ++ ls.map Line.text)
      ((ls.flatMap Line.callbacks).foldl callbackOf p) := by
  induction ls generalizing lines p with
  | nil => simpa using h
  | cons l ls ih =>
    rw [List.length_cons] at ht
    have hline := h.line (by omega) l.field.flatten l.value.flatten
    rw [← line_flatten (.inl h.pairs)] at hline
    have hrest := ih hline (by rw [List.length_append, List.length_singleton]; omega)
    rw [List.flatMap_cons, List.foldl_append, List.map_cons, ← List.singleton_append,
      ← List.append_assoc]
    exact hrest

lemma Collected.received {ds : List IncomingMessage} {url : Bytes} {total : ℕ}
    {lines : List (Str × Str)} {p : Parser} (h : Collected ds url total lines p) {info : Info}
    (hinfo : info.method.isSome = true) :
    received p info = (lines, utf8Slice url) := by
  have hown : ownUrl p info = utf8Slice p.nativeUrl := if_pos hinfo
  cases hf : p.haveFlushed with
  | true =>
    rw [HttpReassembly.received, if_pos hf, h.flush_headers]
    exact congrArg (Prod.mk lines) h.url
  | false =>
    -- nothing has been given to JavaScript
    obtain ⟨h1, h2⟩ := h.clean hf
    have heq := h.eq
    have hurl := h.url
    rw [h1, List.nil_append] at heq
    rw [h2, List.nil_append] at hurl
    rw [HttpReassembly.received, if_neg (by rw [hf]; exact Bool.false_ne_true), heq, hown, hurl]
    split_ifs with hnil
    · rw [h2, hnil]
    · rfl

lemma collected_opening {p : Parser} {head : Head} (hp : Clean p)
    (hmax : head.Within p.maxHeaderPairs) :
    Collected p.delivered head.url.flatten head.lines.length head.text.1
      (head.opening.foldl callbackOf p) := by
  have hbegin : Collected p.delivered head.url.flatten head.lines.length []
      (p.onMessageBegin.onUrl head.url.flatten) :=
    { pairs := rfl
      lt := Nat.ofNat_pos
      eq := (List.append_nil _).trans hp.1
      url := by
        rw [show (p.onMessageBegin.onUrl head.url.flatten).url = [] from hp.2]
        rfl
      clean := fun _ => hp
      within := hmax
      length := Nat.zero_le _
      delivered := rfl }
  have hall : Collected p.delivered head.url.flatten head.lines.length
      ([] ++ head.lines.map Line.text) ((head.lines.flatMap Line.callbacks).foldl callbackOf
        (p.onMessageBegin.onUrl head.url.flatten)) := hbegin.foldl (by simp)
  rw [← urls_flatten] at hall
  rw [Head.opening, opening, List.foldl_cons, List.foldl_append]
  exact hall

/-- **A parser that holds nothing delivers the message of the head**, whether it has flushed
before or not. -/
lemma head_delivered {p : Parser} {head : Head} (hp : Clean p)
    (hmax : head.Within p.maxHeaderPairs) :
    (head.callbacks.foldl callbackOf p).delivered = p.delivered ++ [head.message] := by
  have hc := collected_opening hp hmax
  have hlimit : (head.opening.foldl callbackOf p).limit head.text.1.length =
      head.text.1.length := by
    have hlen : head.text.1.length = head.lines.length := List.length_map _
    have hwithin := hc.within
    unfold Parser.limit
    split_ifs with h0
    · omega
    · rfl
  rw [Head.callbacks, List.foldl_append, List.foldl_cons, List.foldl_nil, callbackOf,
    onHeadersComplete_received, hc.received head.request, hc.delivered, hlimit,
    List.take_length]
  rfl

/-! ### Reassembly -/

/-- A parser after `Init`, on a new connection; the places may hold anything. -/
def fresh (n : Native) (maxHeaderPairs : ℤ) : Native :=
  { n.init with js := Parser.init maxHeaderPairs }

/-- The same, made to go the slow way. -/
def slow (n : Native) (maxHeaderPairs : ℤ) : Native :=
  { fresh n maxHeaderPairs with haveFlushed := true }

lemma run_head {n : Native} {head : Head} (hn : ∀ mem mem', n.abs mem' = n.abs mem) (hfit : Fits n)
    (hp : ∀ mem, Clean (n.abs mem)) (hmax : head.Within n.js.maxHeaderPairs)
    (es : List Execution) :
    (bytesOf es = head.opening → ∃ n', run n es = some n' ∧
        ∀ mem, received (n'.abs mem) head.info = head.text) ∧
      (bytesOf es = head.callbacks → ∃ n', run n es = some n' ∧
        n'.js.delivered = n.js.delivered ++ [head.message]) := by
  let mem : Memory := fun _ => 0
  constructor
  · intro hes
    have hc := collected_opening (hp mem) hmax
    have hready : AllReady (n.abs mem) head.opening := allReady_opening _ _ _
    rw [← hes] at hc hready
    obtain ⟨n', hn', -, habs⟩ := run_abs mem hfit (hn mem) hready
    refine ⟨n', hn', fun mem' => ?_⟩
    rw [habs]
    exact hc.received head.request
  · intro hes
    have hdel := head_delivered (hp mem) hmax
    have hready : AllReady (n.abs mem) head.callbacks :=
      allReady_append.mpr ⟨allReady_opening _ _ _, trivial, trivial⟩
    rw [← hes] at hdel hready
    obtain ⟨n', hn', -, habs⟩ := run_abs mem hfit (hn mem) hready
    rw [← habs mem] at hdel
    exact ⟨n', hn', hdel⟩

/-- **Headers are reassembled**: a fresh parser is given the head of a request within the
limit, cut over calls of `execute` and over their callbacks in any way. When the headers end,
JavaScript has the lines and the URL in order, and it delivers the message of these, on the
fast way and on the slow way. -/
theorem head_reassembled (n : Native) (maxHeaderPairs : ℤ) {head : Head}
    (hmax : head.Within maxHeaderPairs) (es : List Execution) :
    (bytesOf es = head.opening → ∀ start ∈ [fresh n maxHeaderPairs, slow n maxHeaderPairs],
      ∃ n', run start es = some n' ∧ ∀ mem, received (n'.abs mem) head.info = head.text) ∧
    (bytesOf es = head.callbacks → ∀ start ∈ [fresh n maxHeaderPairs, slow n maxHeaderPairs],
      ∃ n', run start es = some n' ∧ n'.js.delivered = [head.message]) := by
  have hfit : Fits (fresh n maxHeaderPairs) := ⟨Nat.le_refl 0, Nat.zero_le 1, Nat.ofNat_pos⟩
  have hclean : ∀ mem, Clean ((fresh n maxHeaderPairs).abs mem) := fun _ => ⟨rfl, rfl⟩
  obtain ⟨h1, h2⟩ := run_head (n := fresh n maxHeaderPairs) (fun _ _ => rfl) hfit hclean hmax es
  have hfit' : Fits (slow n maxHeaderPairs) := ⟨hfit.le, hfit.succ, hfit.lt⟩
  have hclean' : ∀ mem, Clean ((slow n maxHeaderPairs).abs mem) := fun _ => ⟨rfl, rfl⟩
  obtain ⟨h3, h4⟩ := run_head (n := slow n maxHeaderPairs) (fun _ _ => rfl) hfit' hclean' hmax es
  constructor
  · intro hes start hstart
    simp only [List.mem_cons, List.not_mem_nil, or_false] at hstart
    rcases hstart with rfl | rfl
    · exact h1 hes
    · exact h3 hes
  · intro hes start hstart
    simp only [List.mem_cons, List.not_mem_nil, or_false] at hstart
    rcases hstart with rfl | rfl
    · exact h2 hes
    · exact h4 hes

/-- `POST /` with a header `ab: 1`, of which the name is in two pieces. -/
def cutHead : Head where
  url := [[47]]
  lines := [⟨[[97], [98]], [[49]], List.cons_ne_nil _ _, List.cons_ne_nil _ _⟩]
  info := ⟨some (js "POST"), 0, 1, 1, false⟩
  request := rfl

/-- Two buffers at one address. -/
def cutBuffers : List Execution :=
  [⟨fun i => if i = 0 then 47 else 97,
      [.messageBegin, .url ⟨0, 1⟩, .field ⟨1, 1⟩]⟩,
    ⟨fun i => if i = 0 then 98 else 49, [.field ⟨0, 1⟩, .value ⟨1, 1⟩, .headersComplete
      ⟨some (js "POST"), 0, 1, 1, false⟩]⟩]

/-- A parser never used. -/
def unused : Native :=
  ⟨.null, fun _ => .null, fun _ => .null, 0, 0, false, Parser.init 2000⟩

theorem head_reassembled_cut : ∃ n', run (fresh unused 2000) cutBuffers = some n' ∧
    n'.js.delivered = [cutHead.message] :=
  (head_reassembled unused 2000 (show cutHead.Within 2000 from .inr (by decide)) cutBuffers).2
    (by decide) _ (List.mem_cons_self ..)

end NodeCore.HttpReassembly
