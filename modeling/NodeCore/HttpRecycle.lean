import NodeCore.HttpReassembly

/-!
Parsers that go from connection to connection through the free list.

`freeParser` empties `_headers` and forgets the message, `reinitialize` resets the native half.
Nothing resets `_url`: what a connection left there is put before the URL of a later message.
-/

namespace NodeCore.HttpRecycle

open NodeCore.Encoding NodeCore.HttpParser NodeCore.HttpIsolation NodeCore.HttpNative
  NodeCore.HttpReassembly

/-- A connection, as far as the parser is concerned. -/
structure Connection where
  maxHeaderPairs : ℤ
  executions : List Execution

/-- What the constructor of the free list makes. -/
def constructed : Native :=
  ⟨.null, fun _ => .null, fun _ => .null, 0, 0, false, Parser.init 0⟩

/-- `freeParser`. -/
def free (n : Native) : Native := { n with js := { n.js with headers := [], incoming := false } }

/-- A connection takes the parser: `reinitialize`, and what is set after it. The messages are
those of this connection. -/
def take (n : Native) (maxHeaderPairs : ℤ) : Native :=
  { n.init with
    js := { n.js with incoming := false, maxHeaderPairs := maxHeaderPairs, delivered := [] } }

/-- The parser over a connection, whatever ends it. -/
def serve (n : Native) (c : Connection) : Option Native :=
  run (take n c.maxHeaderPairs) c.executions

/-- What the connection is given. -/
def messages (n : Native) (c : Connection) : Option (List IncomingMessage) :=
  (serve n c).map fun n => n.js.delivered

/-- The parser has served these connections, and has been freed after each. -/
def history (cs : List Connection) : Option Native :=
  cs.foldlM (fun n c => (serve n c).map free) constructed

/-- A parser in the free list. -/
abbrev Used := { n : Native // ∃ cs, history cs = some n }

/-- A connection of a server, or of a client. -/
def Connection.IsFor (c : Connection) (request : Bool) : Prop :=
  ∀ info, Callback.headersComplete info ∈ bytesOf c.executions → info.method.isSome = request

/-! ### What is left -/

lemma serve_history {cs : List Connection} {n : Native} (h : history cs = some n) :
    n.js.headers = [] := by
  rcases List.eq_nil_or_concat cs with rfl | ⟨cs, c, rfl⟩
  · obtain rfl : constructed = n := Option.some.inj h
    rfl
  · rw [history, List.concat_eq_append, List.foldlM_append] at h
    obtain ⟨m, -, h⟩ := Option.bind_eq_some_iff.mp h
    rw [List.foldlM_cons] at h
    obtain ⟨m', hm', h⟩ := Option.bind_eq_some_iff.mp h
    obtain ⟨s, -, rfl⟩ := Option.map_eq_some_iff.mp hm'
    obtain rfl : free s = n := Option.some.inj h
    rfl

lemma take_abs (n : Native) (maxHeaderPairs : ℤ) (mem : Memory) :
    (take n maxHeaderPairs).abs mem =
      { Parser.init maxHeaderPairs with headers := n.js.headers, url := n.js.url } := rfl

lemma take_fits (n : Native) (maxHeaderPairs : ℤ) : Fits (take n maxHeaderPairs) :=
  ⟨Nat.le_refl 0, Nat.zero_le 1, Nat.ofNat_pos⟩

/-- The messages are those of the parser of bytes. -/
lemma messages_some {n : Native} {c : Connection} {p : Parser}
    (hp : ∀ mem, (take n c.maxHeaderPairs).abs mem = p) (hc : AllReady p (bytesOf c.executions)) :
    messages n c = some ((bytesOf c.executions).foldl callbackOf p).delivered := by
  let mem : Memory := fun _ => 0
  rw [← hp mem] at hc
  obtain ⟨n', hn', -, habs⟩ :=
    run_abs mem (take_fits n _) (fun mem' => by rw [hp, hp]) hc
  rw [messages, serve, hn', ← hp mem, ← habs mem]
  rfl

lemma messages_none {n : Native} {c : Connection} {p : Parser}
    (hp : ∀ mem, (take n c.maxHeaderPairs).abs mem = p)
    (hc : ¬ AllReady p (bytesOf c.executions)) : messages n c = none := by
  let mem : Memory := fun _ => 0
  rw [← hp mem] at hc
  rw [messages, serve, run_none mem (take_fits n _) (fun mem' => by rw [hp, hp]) hc]
  rfl

/-- Parsers that hold the same in JavaScript serve alike. -/
lemma messages_congr {a b : Native} (hheaders : a.js.headers = b.js.headers)
    (hurl : a.js.url = b.js.url) (c : Connection) : messages a c = messages b c := by
  have ha : ∀ mem, (take a c.maxHeaderPairs).abs mem = (take b c.maxHeaderPairs).abs mem := by
    intro mem
    rw [take_abs, take_abs, hheaders, hurl]
  by_cases hc : AllReady ((take b c.maxHeaderPairs).abs fun _ => 0) (bytesOf c.executions)
  · rw [messages_some (n := a) ha hc, messages_some (n := b) (fun _ => rfl) hc]
  · rw [messages_none (n := a) ha hc, messages_none (n := b) (fun _ => rfl) hc]

/-! ### A leak -/

/-- The parser with a past URL. -/
def leak (url : Str) (p : Parser) : Parser := { p with url := url ++ p.url }

lemma leak_flush (url : Str) (p : Parser) : (leak url p).flush = leak url p.flush := by
  simp only [Parser.flush, Parser.onHeaders, leak, List.append_assoc]
  rfl

lemma leak_field (url : Str) (p : Parser) (b : Bytes) :
    (leak url p).onHeaderField b = leak url (p.onHeaderField b) := by
  have hl : (leak url p).fields.length = p.fields.length := rfl
  have hv : (leak url p).values.length = p.values.length := rfl
  by_cases h1 : p.fields.length = p.values.length
  · by_cases h2 : p.fields.length + 1 = 32
    · rw [onHeaderField_flush h1 h2, onHeaderField_flush (by rwa [hl, hv]) (by rwa [hl]),
        leak_flush]
      rfl
    · rw [onHeaderField_new h1 h2, onHeaderField_new (by rwa [hl, hv]) (by rwa [hl])]
      rfl
  · rw [onHeaderField_more h1, onHeaderField_more (by rwa [hl, hv])]
    rfl

lemma leak_value (url : Str) (p : Parser) (b : Bytes) :
    (leak url p).onHeaderValue b = leak url (p.onHeaderValue b) := by
  have hl : (leak url p).fields.length = p.fields.length := rfl
  have hv : (leak url p).values.length = p.values.length := rfl
  by_cases h1 : p.values.length = p.fields.length
  · rw [onHeaderValue_more h1, onHeaderValue_more (by rwa [hl, hv])]
    rfl
  · rw [onHeaderValue_new h1, onHeaderValue_new (by rwa [hl, hv])]
    rfl

lemma leak_lines (url : Str) (p : Parser) (ls : List Line) :
    (ls.flatMap Line.callbacks).foldl callbackOf (leak url p) =
      leak url ((ls.flatMap Line.callbacks).foldl callbackOf p) := by
  have hstep : ∀ (cs : List (Callback Bytes)) (p : Parser),
      (∀ c ∈ cs, (∃ b, c = .field b) ∨ ∃ b, c = .value b) →
        cs.foldl callbackOf (leak url p) = leak url (cs.foldl callbackOf p) := by
    intro cs
    induction cs with
    | nil => exact fun _ _ => rfl
    | cons c cs ih =>
      intro p hcs
      have hrest := fun c hc => hcs c (List.mem_cons_of_mem _ hc)
      rw [List.foldl_cons, List.foldl_cons, ← ih _ hrest]
      rcases hcs c List.mem_cons_self with ⟨b, rfl⟩ | ⟨b, rfl⟩
      · rw [callbackOf, leak_field]
        rfl
      · rw [callbackOf, leak_value]
        rfl
  refine hstep _ p fun c hc => ?_
  obtain ⟨l, -, hl⟩ := List.mem_flatMap.mp hc
  rcases List.mem_append.mp hl with hl | hl
  · obtain ⟨b, -, rfl⟩ := List.mem_map.mp hl
    exact .inl ⟨b, rfl⟩
  · obtain ⟨b, -, rfl⟩ := List.mem_map.mp hl
    exact .inr ⟨b, rfl⟩

lemma leak_opening (url : Str) (p : Parser) (u : List Bytes) (ls : List Line) :
    (opening u ls).foldl callbackOf (leak url p) =
      leak url ((opening u ls).foldl callbackOf p) := by
  rw [opening, List.foldl_cons, List.foldl_cons, List.foldl_append, List.foldl_append,
    urls_flatten, urls_flatten, ← leak_lines]
  rfl

lemma foldl_addHeaderLine_url (l : List (Str × Str)) (m : IncomingMessage) :
    (l.foldl IncomingMessage.addHeaderLine m).url = m.url := by
  induction l generalizing m with
  | nil => rfl
  | cons h l ih =>
    rw [List.foldl_cons, ih, IncomingMessage.addHeaderLine]
    split_ifs <;> rfl

/-- The URL of the message that is delivered when the headers end. -/
lemma onHeadersComplete_url (p : Parser) (info : Info) :
    (p.onHeadersComplete info).delivered.getLast?.map (·.url) = some (received p info).2 := by
  rw [onHeadersComplete_received]
  simp [foldl_addHeaderLine_url]

lemma received_leak {url : Str} {p : Parser} (hp : p.haveFlushed = true) (info : Info) :
    (received (leak url p) info).2 = url ++ (received p info).2 := by
  have hp' : (leak url p).haveFlushed = true := hp
  rw [received, received, if_pos hp, if_pos hp', leak_flush]
  rfl

/-- A head with 32 headers `a: a`, of a request for `/` or of a response. -/
def crowdedUrl (request : Bool) : List Bytes := if request then [[47]] else []

def crowdedLines : List Line :=
  List.replicate 32 ⟨[[97]], [[97]], List.cons_ne_nil _ _, List.cons_ne_nil _ _⟩

def crowdedInfo (request : Bool) : Info :=
  if request then ⟨some (js "GET"), 0, 1, 1, false⟩ else ⟨none, 200, 1, 1, false⟩

def crowdedHead (request : Bool) : List (Callback Piece) :=
  .messageBegin :: ((if request then [.url ⟨0, 1⟩] else []) ++
    (List.replicate 32 [.field ⟨1, 1⟩, .value ⟨1, 1⟩]).flatten)

/-- The bytes that it is in. -/
def crowdedMemory : Memory := fun i => if i = 0 then 47 else 97

def crowded (request : Bool) : Connection :=
  ⟨2000, [⟨crowdedMemory, crowdedHead request ++ [.headersComplete (crowdedInfo request)]⟩]⟩

lemma bytesOf_opening (request : Bool) : bytesOf [⟨crowdedMemory, crowdedHead request⟩] =
    opening (crowdedUrl request) crowdedLines := by
  cases request <;> decide +kernel

lemma bytesOf_crowded (request : Bool) : bytesOf (crowded request).executions =
    opening (crowdedUrl request) crowdedLines ++ [.headersComplete (crowdedInfo request)] := by
  rw [← bytesOf_opening]
  simp [bytesOf, crowded, Callback.map]

lemma crowded_isFor (request : Bool) : (crowded request).IsFor request := by
  intro info hinfo
  rw [bytesOf_crowded, List.mem_append, List.mem_singleton] at hinfo
  rcases hinfo with hinfo | hinfo
  · cases request <;> simp [opening, crowdedUrl, crowdedLines, Line.callbacks] at hinfo
  · obtain rfl := Callback.headersComplete.inj hinfo
    cases request <;> rfl

lemma crowded_flushed (request : Bool) :
    ((opening (crowdedUrl request) crowdedLines).foldl callbackOf
      (Parser.init 2000)).haveFlushed = true := by
  cases request <;> decide +kernel

/-- **A URL that is left shows up**, before the URL of a head that does not fit in the places. -/
lemma leak_shows {n : Native} (hheaders : n.js.headers = []) (request : Bool) :
    (messages n (crowded request)).map (fun l => l.getLast?.map (·.url)) =
      some (some (n.js.url ++ (received ((opening (crowdedUrl request) crowdedLines).foldl
        callbackOf (Parser.init 2000)) (crowdedInfo request)).2)) := by
  have htake : ∀ mem, (take n 2000).abs mem = leak n.js.url (Parser.init 2000) := by
    intro mem
    rw [take_abs, hheaders, leak, show (Parser.init 2000).url = [] from rfl, List.append_nil]
    rfl
  have hready : AllReady (leak n.js.url (Parser.init 2000))
      (bytesOf (crowded request).executions) := by
    rw [bytesOf_crowded]
    exact allReady_append.mpr ⟨allReady_opening _ _ _, trivial, trivial⟩
  rw [messages_some htake hready, bytesOf_crowded, List.foldl_append, leak_opening,
    Option.map_some, List.foldl_cons, List.foldl_nil, callbackOf, onHeadersComplete_url,
    received_leak (crowded_flushed request)]

/-! ### Recycling -/

/-- **A recycled parser is as good as a new one exactly if no URL was left in it**: whatever
connections it has served, every connection of a server, or of a client, is given what a new
parser gives if and only if `_url` is empty when the parser was freed. -/
theorem recycled_iff (used : Used) (request : Bool) :
    (∀ c : Connection, c.IsFor request → messages used c = messages constructed c) ↔
      used.1.js.url = [] := by
  obtain ⟨n, cs, hcs⟩ := used
  have hheaders : n.js.headers = [] := serve_history hcs
  constructor
  · intro hall
    have hused := leak_shows hheaders request
    have hnew := leak_shows (n := constructed) rfl request
    rw [hall _ (crowded_isFor request), hnew, Option.some.injEq, Option.some.injEq] at hused
    exact (List.append_cancel_right hused).symm
  · exact fun hurl c _ => messages_congr (b := constructed) hheaders hurl c

/-- A request with 32 headers of which the connection closes before the headers end. -/
def cutShort : Connection := ⟨2000, [⟨crowdedMemory, crowdedHead true⟩]⟩

/-- The next connection gets its URL: a response that has none is said to be of `/`. -/
theorem cutShort_leaks :
    ¬ ∀ (used : Used) (c : Connection), messages used c = messages constructed c := by
  intro h
  have hfit := take_fits constructed 2000
  have hready : AllReady (Parser.init 2000) (bytesOf cutShort.executions) := by
    rw [show bytesOf cutShort.executions = opening (crowdedUrl true) crowdedLines from
      (bytesOf_opening true)]
    exact allReady_opening _ _ _
  obtain ⟨n, hn, -, habs⟩ := run_abs (fun _ => 0) hfit (fun _ => rfl) hready
  have hhistory : history [cutShort] = some (free n) := by
    rw [history, List.foldlM_cons, serve, show cutShort.maxHeaderPairs = 2000 from rfl, hn]
    rfl
  have hurl : n.js.url = [0x2f] := by
    have hjs : n.js.url = (n.abs fun _ => 0).url := rfl
    rw [hjs, habs]
    decide +kernel
  have hused := leak_shows (n := free n) rfl false
  have hnew := leak_shows (n := constructed) rfl false
  rw [h ⟨free n, _, hhistory⟩, hnew] at hused
  have hfree : (free n).js.url = n.js.url := rfl
  rw [Option.some.injEq, Option.some.injEq, hfree, hurl] at hused
  exact List.cons_ne_nil _ _ (List.append_cancel_right hused).symm

end NodeCore.HttpRecycle
