import NodeCore.HttpParser

/-!
What one message leaves in the parser for the next.

A parser that has been used differs from a new one in `have_flushed_`, which sends the headers
of every later message through `_headers` and `_url`; the message comes out the same as long
as these are empty when it begins. They are, unless a message with trailers ends while
`incoming` is `null`.
-/

namespace NodeCore.HttpIsolation

open NodeCore.Encoding NodeCore.HttpParser

/-- The JavaScript half holds nothing. -/
def Clean (p : Parser) : Prop := p.headers = [] ∧ p.url = []

/-- No dump in the rest of the message, or no piece of a trailer. -/
def Undisturbed (m : Message) : Prop :=
  Event.dump ∉ m.rest ∨ ∀ e ∈ m.rest, (∀ b, e ≠ .field b) ∧ ∀ b, e ≠ .value b

/-- What a new parser delivers for the message alone. -/
def alone (maxHeaderPairs : ℤ) (m : Message) : Option IncomingMessage :=
  ((Parser.init maxHeaderPairs).message m).delivered.getLast?

/-! ### Cuts

The pieces of a URL, of a name or of a value may come in any sizes, and a dump between two
events may as well come after the second. -/

/-- `Cut s t`: the events `s` are a cutting of `t`. -/
inductive Cut : List Event → List Event → Prop
  | nil : Cut [] []
  | cons (e : Event) {s t : List Event} (h : Cut s t) : Cut (e :: s) (e :: t)
  | url (a b : Bytes) {s t : List Event} (h : Cut (.url (a ++ b) :: s) t) :
      Cut (.url a :: .url b :: s) t
  | field (a b : Bytes) {s t : List Event} (h : Cut (.field (a ++ b) :: s) t) :
      Cut (.field a :: .field b :: s) t
  | value (a b : Bytes) {s t : List Event} (h : Cut (.value (a ++ b) :: s) t) :
      Cut (.value a :: .value b :: s) t
  | body {s t : List Event} (h : Cut (.body :: s) t) : Cut (.body :: .body :: s) t
  | dump (e : Event) {s t : List Event} (h : Cut (e :: .dump :: s) t) : Cut (.dump :: e :: s) t

/-- The same message, cut in another way. -/
structure SameMessage (m whole : Message) : Prop where
  head : Cut m.head whole.head
  info : m.info = whole.info
  rest : Cut m.rest whole.rest

/-- There are as many values as names, or one less. -/
def Paired (p : Parser) : Prop :=
  p.fields.length = p.values.length ∨ p.fields.length = p.values.length + 1

lemma updateLast_length (l : List Bytes) (b : Bytes) : (updateLast l b).length = l.length := by
  unfold updateLast
  cases h : l.getLast? with
  | none => rfl
  | some s =>
    obtain ⟨t, rfl⟩ := List.getLast?_eq_some_iff.mp h
    simp

lemma updateLast_updateLast (l : List Bytes) (a b : Bytes) :
    updateLast (updateLast l a) b = updateLast l (a ++ b) := by
  unfold updateLast
  cases h : l.getLast? with
  | none => simp [h]
  | some s => simp

lemma Paired.event {p : Parser} (h : Paired p) (e : Event) : Paired (p.event e) := by
  cases e with
  | url b => exact h
  | body => exact h
  | dump => exact h
  | field b =>
    simp only [Parser.event, Parser.onHeaderField]
    split_ifs with h1 h2
    · exact .inr rfl
    · exact .inr (by simp [h1])
    · exact h.imp (fun h => absurd h h1) fun h => by rwa [updateLast_length]
  | value b =>
    simp only [Parser.event, Parser.onHeaderValue]
    split_ifs with h1
    · have h' := h.resolve_left fun h => h1 h.symm
      exact .inl (by simp [h'])
    · exact h.imp (fun h => by rwa [updateLast_length]) fun h => by rwa [updateLast_length]

lemma onHeaderField_flush {p : Parser} (h1 : p.fields.length = p.values.length)
    (h2 : p.fields.length + 1 = 32) (b : Bytes) :
    p.onHeaderField b = { p.flush with fields := [b], values := [] } := by
  rw [Parser.onHeaderField, if_pos h1, if_pos h2]

lemma onHeaderField_new {p : Parser} (h1 : p.fields.length = p.values.length)
    (h2 : p.fields.length + 1 ≠ 32) (b : Bytes) :
    p.onHeaderField b = { p with fields := p.fields ++ [b] } := by
  rw [Parser.onHeaderField, if_pos h1, if_neg h2]

lemma onHeaderField_more {p : Parser} (h : p.fields.length ≠ p.values.length) (b : Bytes) :
    p.onHeaderField b = { p with fields := updateLast p.fields b } := if_neg h

lemma onHeaderValue_new {p : Parser} (h : p.values.length ≠ p.fields.length) (b : Bytes) :
    p.onHeaderValue b = { p with values := p.values ++ [b] } := if_pos h

lemma onHeaderValue_more {p : Parser} (h : p.values.length = p.fields.length) (b : Bytes) :
    p.onHeaderValue b = { p with values := updateLast p.values b } := if_neg (not_not.mpr h)

/-- Parsers with the same lines so far take a name in the same way. -/
lemma onHeaderField_same {p q : Parser} (hl : p.fields = q.fields) (hv : p.values = q.values)
    (b : Bytes) :
    (p.onHeaderField b = { p.flush with fields := [b], values := [] } ∧
      q.onHeaderField b = { q.flush with fields := [b], values := [] }) ∨
    ∃ fields, p.onHeaderField b = { p with fields := fields } ∧
      q.onHeaderField b = { q with fields := fields } := by
  by_cases h1 : q.fields.length = q.values.length
  · have h1' : p.fields.length = p.values.length := by rwa [hl, hv]
    by_cases h2 : q.fields.length + 1 = 32
    · have h2' : p.fields.length + 1 = 32 := by rwa [hl]
      exact .inl ⟨onHeaderField_flush h1' h2' b, onHeaderField_flush h1 h2 b⟩
    · have h2' : p.fields.length + 1 ≠ 32 := by rwa [hl]
      exact .inr ⟨_, hl ▸ onHeaderField_new h1' h2' b, onHeaderField_new h1 h2 b⟩
  · have h1' : p.fields.length ≠ p.values.length := by rwa [hl, hv]
    exact .inr ⟨_, hl ▸ onHeaderField_more h1' b, onHeaderField_more h1 b⟩

/-- And so a value. -/
lemma onHeaderValue_same {p q : Parser} (hl : p.fields = q.fields) (hv : p.values = q.values)
    (b : Bytes) :
    ∃ values, p.onHeaderValue b = { p with values := values } ∧
      q.onHeaderValue b = { q with values := values } := by
  by_cases h1 : q.values.length = q.fields.length
  · have h1' : p.values.length = p.fields.length := by rwa [hl, hv]
    exact ⟨_, hv ▸ onHeaderValue_more h1' b, onHeaderValue_more h1 b⟩
  · have h1' : p.values.length ≠ p.fields.length := by rwa [hl, hv]
    exact ⟨_, hv ▸ onHeaderValue_new h1' b, onHeaderValue_new h1 b⟩

/-- A name in two pieces. -/
lemma field_field (p : Parser) (a b : Bytes) :
    (p.onHeaderField a).onHeaderField b = p.onHeaderField (a ++ b) := by
  by_cases h1 : p.fields.length = p.values.length
  · by_cases h2 : p.fields.length + 1 = 32
    · rw [onHeaderField_flush h1 h2, onHeaderField_flush h1 h2, onHeaderField_more (by simp)]
      simp [updateLast]
    · rw [onHeaderField_new h1 h2, onHeaderField_new h1 h2,
        onHeaderField_more (by simp [h1])]
      simp [updateLast]
  · rw [onHeaderField_more h1, onHeaderField_more h1,
      onHeaderField_more (by rwa [updateLast_length])]
    simp [updateLast_updateLast]

/-- A value in two pieces. -/
lemma value_value {p : Parser} (h : Paired p) (a b : Bytes) :
    (p.onHeaderValue a).onHeaderValue b = p.onHeaderValue (a ++ b) := by
  by_cases h1 : p.values.length = p.fields.length
  · rw [onHeaderValue_more h1, onHeaderValue_more h1,
      onHeaderValue_more (by rwa [updateLast_length])]
    simp [updateLast_updateLast]
  · have h2 : p.fields.length = p.values.length + 1 := h.resolve_left fun h => h1 h.symm
    rw [onHeaderValue_new h1, onHeaderValue_new h1, onHeaderValue_more (by simp [h2])]
    simp [updateLast]

lemma dump_swap (p : Parser) (e : Event) : p.dump.event e = (p.event e).dump := by
  cases e with
  | url b => rfl
  | body => rfl
  | dump => rfl
  | field b =>
    have hl : p.dump.fields = p.fields := rfl
    simp only [Parser.event]
    obtain ⟨hp, hq⟩ | ⟨fields, hp, hq⟩ := onHeaderField_same hl rfl b
    · rw [hp, hq]
      rfl
    · rw [hp, hq]
      rfl
  | value b =>
    have hl : p.dump.fields = p.fields := rfl
    simp only [Parser.event]
    obtain ⟨values, hp, hq⟩ := onHeaderValue_same hl rfl b
    rw [hp, hq]
    rfl

/-- The parser cannot tell a cutting. -/
lemma Cut.foldl {s t : List Event} (h : Cut s t) {p : Parser} (hp : Paired p) :
    s.foldl Parser.event p = t.foldl Parser.event p := by
  induction h generalizing p with
  | nil => rfl
  | cons e h ih => exact ih (hp.event e)
  | url a b h ih =>
    rw [← ih hp]
    simp [Parser.event, Parser.onUrl, List.append_assoc]
  | field a b h ih =>
    rw [← ih hp]
    simp [Parser.event, field_field]
  | value a b h ih =>
    rw [← ih hp]
    simp [Parser.event, value_value hp]
  | body h ih => exact ih hp
  | dump e h ih =>
    rw [← ih hp]
    exact congrArg (List.foldl Parser.event · _) (dump_swap p e)

lemma paired_begin (p : Parser) : Paired p.onMessageBegin := .inl rfl

lemma paired_headersComplete (p : Parser) (info : Info) : Paired (p.onHeadersComplete info) :=
  .inl rfl

/-- A message in any cutting is the same message. -/
lemma SameMessage.progress {m whole : Message} (h : SameMessage m whole) (p : Parser) :
    p.progress m = p.progress whole := by
  simp only [Parser.progress]
  rw [h.head.foldl (paired_begin p), h.info, h.rest.foldl (paired_headersComplete _ _)]

/-! ### A used parser and a new one -/

/-- `p` is `q` with a past. -/
structure SameHead (p q : Parser) : Prop where
  eq : ∃ i d, p = { q with haveFlushed := p.haveFlushed, incoming := i, delivered := d }
  flushed : q.haveFlushed = true → p.haveFlushed = true
  clean : q.haveFlushed = false → Clean q

lemma SameHead.event {p q : Parser} (h : SameHead p q) (e : Event) :
    SameHead (p.event e) (q.event e) := by
  obtain ⟨⟨i, d, hp⟩, hf, hc⟩ := h
  cases e with
  | url b => exact ⟨⟨i, d, by rw [hp]; rfl⟩, hf, hc⟩
  | body => exact ⟨⟨i, d, hp⟩, hf, hc⟩
  | dump => exact ⟨⟨false, d, by rw [hp]; rfl⟩, hf, hc⟩
  | field b =>
    have hl : p.fields = q.fields := by rw [hp]
    have hv : p.values = q.values := by rw [hp]
    simp only [Parser.event]
    obtain ⟨hp', hq'⟩ | ⟨fields, hp', hq'⟩ := onHeaderField_same hl hv b <;> rw [hp', hq']
    · exact ⟨⟨i, d, by rw [hp]; rfl⟩, fun _ => rfl, fun h => by cases h⟩
    · exact ⟨⟨i, d, by rw [hp]⟩, hf, hc⟩
  | value b =>
    have hl : p.fields = q.fields := by rw [hp]
    have hv : p.values = q.values := by rw [hp]
    simp only [Parser.event]
    obtain ⟨values, hp', hq'⟩ := onHeaderValue_same hl hv b
    rw [hp', hq']
    exact ⟨⟨i, d, by rw [hp]⟩, hf, hc⟩

lemma SameHead.clean_left {p q : Parser} (h : SameHead p q) (hf : p.haveFlushed = false) :
    Clean p := by
  have hq : q.haveFlushed = false := by
    by_contra hq
    rw [h.flushed (by simpa using hq)] at hf
    cases hf
  obtain ⟨i, d, hp⟩ := h.eq
  rw [hp]
  exact h.clean hq

lemma SameHead.foldl {p q : Parser} (h : SameHead p q) (s : List Event) :
    SameHead (s.foldl Parser.event p) (s.foldl Parser.event q) := by
  induction s generalizing p q with
  | nil => exact h
  | cons e s ih => exact ih (h.event e)

lemma event_delivered (p : Parser) (e : Event) : (p.event e).delivered = p.delivered := by
  cases e with
  | url b => rfl
  | body => rfl
  | dump => rfl
  | field b =>
    simp only [Parser.event, Parser.onHeaderField]
    split_ifs <;> rfl
  | value b =>
    simp only [Parser.event, Parser.onHeaderValue]
    split_ifs <;> rfl

lemma foldl_delivered (p : Parser) (s : List Event) :
    (s.foldl Parser.event p).delivered = p.delivered := by
  induction s generalizing p with
  | nil => rfl
  | cons e s ih => exact (ih (p.event e)).trans (event_delivered p e)

/-- At the end of the headers both deliver the same message, and both are left with nothing. -/
structure SameRest (ds : List IncomingMessage) (p q : Parser) : Prop where
  eq : ∃ u f w, p = { q with
    nativeUrl := u, haveFlushed := f, url := w, delivered := ds ++ q.delivered }
  delivered : q.delivered ≠ []

lemma foldl_nativeUrl {p : Parser} (hp : p.nativeUrl = []) {s : List Event}
    (hs : ∀ b, Event.url b ∉ s) : (s.foldl Parser.event p).nativeUrl = [] := by
  induction s generalizing p with
  | nil => exact hp
  | cons e s ih =>
    refine ih ?_ fun b hb => hs b (by simp [hb])
    cases e with
    | url b => exact absurd (by simp) (hs b)
    | body => exact hp
    | dump => exact hp
    | field b =>
      simp only [Parser.event, Parser.onHeaderField]
      split_ifs
      · rfl
      · exact hp
      · exact hp
    | value b =>
      simp only [Parser.event, Parser.onHeaderValue]
      split_ifs <;> exact hp

/-- The message that the end of the headers delivers. -/
def headMessage (p : Parser) (info : Info) (given : Option (List (Str × Str) × Str)) :
    IncomingMessage :=
  let headers := (given.map Prod.fst).getD p.headers
  (headers.take (p.limit headers.length)).foldl IncomingMessage.addHeaderLine
    ⟨info, if (given.map Prod.snd).getD [] = [] then p.url else (given.map Prod.snd).getD [],
      [], [], false⟩

lemma headersComplete_eq (p : Parser) (info : Info) (given : Option (List (Str × Str) × Str)) :
    p.headersComplete info given = { p with
      headers := if given.isNone then [] else p.headers
      url := if (given.map Prod.snd).getD [] = [] then [] else p.url
      incoming := true
      delivered := p.delivered ++ [headMessage p info given] } := by
  unfold Parser.headersComplete headMessage
  cases given with
  | none => rfl
  | some g =>
    by_cases h : g.2 = []
    · simp [h, Parser.limit]
    · simp [h, Parser.limit]

lemma onHeadersComplete_slow {p : Parser} (h : p.haveFlushed = true) (info : Info) :
    p.onHeadersComplete info =
      { p.flush.headersComplete info none with fields := [], values := [] } := by
  simp [Parser.onHeadersComplete, h]

/-- The URL of the fast way. -/
def ownUrl (p : Parser) (info : Info) : Str :=
  if info.method.isSome then utf8Slice p.nativeUrl else []

lemma onHeadersComplete_fast {p : Parser} (h : p.haveFlushed = false) (info : Info) :
    p.onHeadersComplete info =
      { p.headersComplete info (some (p.createHeaders, ownUrl p info)) with
        fields := [], values := [] } := by
  simp [Parser.onHeadersComplete, h, ownUrl]

/-- After the end of the headers nothing is held in JavaScript. -/
lemma clean_headersComplete {p : Parser} (hp : p.haveFlushed = false → Clean p) (info : Info) :
    Clean (p.onHeadersComplete info) := by
  cases hf : p.haveFlushed with
  | true =>
    rw [onHeadersComplete_slow hf, headersComplete_eq]
    exact ⟨rfl, rfl⟩
  | false =>
    obtain ⟨h1, h2⟩ := hp hf
    rw [onHeadersComplete_fast hf, headersComplete_eq]
    exact ⟨h1, by simp [h2]⟩

lemma sameRest_of_eq {ds : List IncomingMessage} {p q : Parser} {m : IncomingMessage}
    (hq : q.delivered = [m]) {u : Bytes} {f : Bool} {w : Str}
    (hp : p = { q with nativeUrl := u, haveFlushed := f, url := w, delivered := ds ++ [m] }) :
    SameRest ds p q :=
  ⟨⟨u, f, w, by rw [hp, hq]⟩, by simp [hq]⟩

/-- The slow way and the fast way deliver the same message. -/
lemma SameHead.headersComplete {p q : Parser} (h : SameHead p q) (hq : q.delivered = [])
    {info : Info} (hurl : info.method = none → q.nativeUrl = []) :
    SameRest p.delivered (p.onHeadersComplete info) (q.onHeadersComplete info) := by
  obtain ⟨⟨i, d, hp⟩, hf, hc⟩ := h
  have hd : p.delivered = d := by rw [hp]
  cases hqf : q.haveFlushed with
  | true =>
    have hpf := hf hqf
    rw [hpf] at hp
    rw [onHeadersComplete_slow hpf, onHeadersComplete_slow hqf, headersComplete_eq,
      headersComplete_eq, hd]
    have hqd : q.flush.delivered = [] := hq
    refine sameRest_of_eq (m := headMessage q.flush info none) (u := []) (f := true) (w := [])
      (by simp [hqd]) ?_
    rw [hp]
    rfl
  | false =>
    obtain ⟨h1, h2⟩ := hc hqf
    rw [onHeadersComplete_fast hqf, headersComplete_eq, hd]
    cases hpf : p.haveFlushed with
    | false =>
      rw [hpf] at hp
      rw [onHeadersComplete_fast hpf, headersComplete_eq]
      refine sameRest_of_eq (m := headMessage q info (some (q.createHeaders, ownUrl q info)))
        (u := q.nativeUrl) (f := false)
        (w := if ownUrl q info = [] then [] else q.url) (by simp [hq]) ?_
      rw [hp]
      rfl
    | true =>
      rw [hpf] at hp
      have hcond : q.maxHeaderPairs ≤ 0 ∨ 2 * (q.headers.length : ℤ) < q.maxHeaderPairs := by
        rw [h1]
        simp only [List.length_nil]
        omega
      have hurl' : ownUrl q info = utf8Slice q.nativeUrl := by
        unfold ownUrl
        cases hm : info.method with
        | none => rw [hurl hm]; rfl
        | some m => rfl
      have hmsg : headMessage p.flush info none =
          headMessage q info (some (q.createHeaders, ownUrl q info)) := by
        have hheaders : p.flush.headers = q.createHeaders := by
          have h : p.flush.headers =
            if q.maxHeaderPairs ≤ 0 ∨ 2 * (q.headers.length : ℤ) < q.maxHeaderPairs then
              q.headers ++ q.createHeaders else q.headers := by rw [hp]; rfl
          rw [h, if_pos hcond, h1, List.nil_append]
        have hu : p.flush.url = utf8Slice q.nativeUrl := by
          have h : p.flush.url = q.url ++ utf8Slice q.nativeUrl := by rw [hp]; rfl
          rw [h, h2, List.nil_append]
        have hl : p.flush.limit = q.limit := by rw [hp]; rfl
        by_cases hne : utf8Slice q.nativeUrl = []
        · simp [headMessage, hheaders, hu, hl, hurl', hne, h2]
        · simp [headMessage, hheaders, hu, hl, hurl', hne]
      rw [onHeadersComplete_slow hpf, headersComplete_eq, hmsg]
      refine sameRest_of_eq (m := headMessage q info (some (q.createHeaders, ownUrl q info)))
        (u := []) (f := true) (w := []) (by simp [hq]) ?_
      rw [hp]
      simp [Parser.flush, Parser.onHeaders, h1]

/-! ### From the end of the headers to the end of the message -/

lemma SameRest.event {ds : List IncomingMessage} {p q : Parser} (h : SameRest ds p q)
    (e : Event) : SameRest ds (p.event e) (q.event e) := by
  obtain ⟨⟨u, f, w, hp⟩, hd⟩ := h
  refine ⟨?_, by rwa [event_delivered]⟩
  cases e with
  | url b => exact ⟨u ++ b, f, w, by rw [hp]; rfl⟩
  | body => exact ⟨u, f, w, hp⟩
  | dump => exact ⟨u, f, w, by rw [hp]; rfl⟩
  | field b =>
    have hl : p.fields = q.fields := by rw [hp]
    have hv : p.values = q.values := by rw [hp]
    simp only [Parser.event]
    obtain ⟨hp', hq'⟩ | ⟨fields, hp', hq'⟩ := onHeaderField_same hl hv b <;> rw [hp', hq']
    · exact ⟨[], true, w ++ utf8Slice u, by rw [hp]; rfl⟩
    · exact ⟨u, f, w, by rw [hp]⟩
  | value b =>
    have hl : p.fields = q.fields := by rw [hp]
    have hv : p.values = q.values := by rw [hp]
    simp only [Parser.event]
    obtain ⟨values, hp', hq'⟩ := onHeaderValue_same hl hv b
    rw [hp', hq']
    exact ⟨u, f, w, by rw [hp]⟩

lemma SameRest.foldl {ds : List IncomingMessage} {p q : Parser} (h : SameRest ds p q)
    (s : List Event) : SameRest ds (s.foldl Parser.event p) (s.foldl Parser.event q) := by
  induction s generalizing p q with
  | nil => exact h
  | cons e s ih => exact ih (h.event e)

lemma finishLast_append {ds l : List IncomingMessage} (hl : l ≠ []) (t : List (Str × Str)) :
    Parser.finishLast (ds ++ l) t = ds ++ Parser.finishLast l t := by
  obtain ⟨l', m, rfl⟩ := (List.eq_nil_or_concat l).resolve_left hl
  simp [Parser.finishLast, ← List.append_assoc]

lemma SameRest.flush {ds : List IncomingMessage} {p q : Parser} (h : SameRest ds p q) :
    SameRest ds p.flush q.flush := by
  obtain ⟨⟨u, f, w, hp⟩, hd⟩ := h
  exact ⟨⟨[], true, w ++ utf8Slice u, by rw [hp]; rfl⟩, hd⟩

lemma SameRest.messageComplete {ds : List IncomingMessage} {p q : Parser}
    (h : SameRest ds p q) : p.messageComplete.delivered = ds ++ q.messageComplete.delivered := by
  obtain ⟨⟨u, f, w, hp⟩, hd⟩ := h
  have hheaders : p.headers = q.headers := by rw [hp]
  have hdel : p.delivered = ds ++ q.delivered := by rw [hp]
  have hin : p.incoming = q.incoming := by rw [hp]
  unfold Parser.messageComplete
  rw [hin]
  split_ifs
  · simp only [hheaders, hdel, finishLast_append hd]
  · exact hdel

lemma SameRest.onMessageComplete {ds : List IncomingMessage} {p q : Parser}
    (h : SameRest ds p q) :
    p.onMessageComplete.delivered = ds ++ q.onMessageComplete.delivered := by
  have hfields : p.fields = q.fields := by
    obtain ⟨⟨u, f, w, hp⟩, -⟩ := h
    rw [hp]
  unfold Parser.onMessageComplete
  rw [hfields]
  split_ifs
  · exact h.flush.messageComplete
  · exact h.messageComplete

/-! ### What is left -/

lemma event_incoming (p : Parser) {e : Event} (he : e ≠ .dump) :
    (p.event e).incoming = p.incoming := by
  cases e with
  | dump => exact absurd rfl he
  | url b => rfl
  | body => rfl
  | field b =>
    simp only [Parser.event, Parser.onHeaderField]
    split_ifs <;> rfl
  | value b =>
    simp only [Parser.event, Parser.onHeaderValue]
    split_ifs <;> rfl

lemma foldl_incoming {p : Parser} {s : List Event} (hs : Event.dump ∉ s) :
    (s.foldl Parser.event p).incoming = p.incoming := by
  induction s generalizing p with
  | nil => rfl
  | cons e s ih =>
    rw [List.mem_cons, not_or] at hs
    exact (ih hs.2).trans (event_incoming p (Ne.symm hs.1))

/-- Without pieces of trailers nothing is collected. -/
lemma foldl_noTrailers {p : Parser} (hp : Clean p) (hf : p.fields = []) {s : List Event}
    (hs : ∀ e ∈ s, (∀ b, e ≠ .field b) ∧ ∀ b, e ≠ .value b) :
    Clean (s.foldl Parser.event p) ∧ (s.foldl Parser.event p).fields = [] := by
  induction s generalizing p with
  | nil => exact ⟨hp, hf⟩
  | cons e s ih =>
    have hs' := fun e he => hs e (List.mem_cons_of_mem _ he)
    cases e with
    | url b => exact ih (p := p.onUrl b) hp hf hs'
    | body => exact ih (p := p) hp hf hs'
    | dump => exact ih (p := p.dump) hp hf hs'
    | field b => exact absurd rfl ((hs _ (by simp)).1 b)
    | value b => exact absurd rfl ((hs _ (by simp)).2 b)

/-! ### Runs -/

lemma init_sameHead {p : Parser} (hp : Clean p) :
    SameHead p.onMessageBegin (Parser.init p.maxHeaderPairs).onMessageBegin := by
  obtain ⟨h1, h2⟩ := hp
  refine ⟨⟨p.incoming, p.delivered, ?_⟩, (fun h => by cases h), fun _ => ⟨rfl, rfl⟩⟩
  cases p
  simp_all [Parser.onMessageBegin, Parser.init]

/-- **An undisturbed message leaves nothing**, if nothing was left to it. -/
theorem clean_message {p : Parser} {m : Message}
    (hp : Clean p) (hm : Undisturbed m) : Clean (p.message m) := by
  have hc := clean_headersComplete ((init_sameHead hp).foldl m.head).clean_left m.info
  simp only [Parser.message, Parser.progress]
  set r := (m.head.foldl Parser.event p.onMessageBegin).onHeadersComplete m.info with hr
  have hin : r.incoming = true := by
    rw [hr]
    cases hf : (m.head.foldl Parser.event p.onMessageBegin).haveFlushed with
    | true => rw [onHeadersComplete_slow hf, headersComplete_eq]
    | false => rw [onHeadersComplete_fast hf, headersComplete_eq]
  have hfields : r.fields = [] := by
    rw [hr]
    rfl
  unfold Parser.onMessageComplete Parser.messageComplete
  rcases hm with hdump | hno
  · have hin' : (m.rest.foldl Parser.event r).incoming = true := (foldl_incoming hdump).trans hin
    by_cases hf : (m.rest.foldl Parser.event r).fields ≠ []
    · have hin'' : (m.rest.foldl Parser.event r).flush.incoming = true := hin'
      rw [if_pos hf, if_pos hin'']
      exact ⟨rfl, rfl⟩
    · rw [if_neg hf, if_pos hin']
      exact ⟨rfl, rfl⟩
  · obtain ⟨h1, h2⟩ := foldl_noTrailers hc hfields hno
    rw [if_neg (not_not.mpr h2)]
    split_ifs
    · exact ⟨rfl, rfl⟩
    · exact h1

/-- A message in progress on a parser to which nothing was left. -/
lemma progress_sameRest {p : Parser} (hp : Clean p) (m : Message) :
    SameRest p.delivered (p.progress m) ((Parser.init p.maxHeaderPairs).progress m) := by
  have hhead := (init_sameHead hp).foldl m.head
  have hdel : (m.head.foldl Parser.event
      (Parser.init p.maxHeaderPairs).onMessageBegin).delivered = [] := foldl_delivered _ _
  have hdelp : (m.head.foldl Parser.event p.onMessageBegin).delivered = p.delivered :=
    foldl_delivered _ _
  have hurl : m.info.method = none → (m.head.foldl Parser.event
      (Parser.init p.maxHeaderPairs).onMessageBegin).nativeUrl = [] :=
    fun hm => foldl_nativeUrl rfl (m.noUrl hm)
  have hrest := hhead.headersComplete hdel hurl
  rw [hdelp] at hrest
  exact hrest.foldl m.rest

lemma event_maxHeaderPairs (p : Parser) (e : Event) :
    (p.event e).maxHeaderPairs = p.maxHeaderPairs := by
  cases e with
  | url b => rfl
  | body => rfl
  | dump => rfl
  | field b =>
    simp only [Parser.event, Parser.onHeaderField]
    split_ifs <;> rfl
  | value b =>
    simp only [Parser.event, Parser.onHeaderValue]
    split_ifs <;> rfl

lemma foldl_maxHeaderPairs (p : Parser) (s : List Event) :
    (s.foldl Parser.event p).maxHeaderPairs = p.maxHeaderPairs := by
  induction s generalizing p with
  | nil => rfl
  | cons e s ih => exact (ih (p.event e)).trans (event_maxHeaderPairs p e)

lemma onHeadersComplete_frame (p : Parser) (info : Info) :
    (p.onHeadersComplete info).maxHeaderPairs = p.maxHeaderPairs ∧
      ∃ m, (p.onHeadersComplete info).delivered = p.delivered ++ [m] := by
  cases hf : p.haveFlushed with
  | true =>
    rw [onHeadersComplete_slow hf, headersComplete_eq]
    exact ⟨rfl, _, rfl⟩
  | false =>
    rw [onHeadersComplete_fast hf, headersComplete_eq]
    exact ⟨rfl, _, rfl⟩

lemma finishLast_length (l : List IncomingMessage) (t : List (Str × Str)) :
    (Parser.finishLast l t).length = l.length := by
  rcases List.eq_nil_or_concat l with rfl | ⟨l', m, rfl⟩
  · rfl
  · simp [Parser.finishLast]

lemma onMessageComplete_frame (p : Parser) :
    p.onMessageComplete.maxHeaderPairs = p.maxHeaderPairs ∧
      p.onMessageComplete.delivered.length = p.delivered.length := by
  unfold Parser.onMessageComplete Parser.messageComplete
  split_ifs
  · exact ⟨rfl, finishLast_length _ _⟩
  · exact ⟨rfl, rfl⟩
  · exact ⟨rfl, finishLast_length _ _⟩
  · exact ⟨rfl, rfl⟩

lemma progress_frame (p : Parser) (m : Message) :
    (p.progress m).maxHeaderPairs = p.maxHeaderPairs ∧
      (p.progress m).delivered.length = p.delivered.length + 1 := by
  obtain ⟨h1, x, h2⟩ :=
    onHeadersComplete_frame (m.head.foldl Parser.event p.onMessageBegin) m.info
  have h3 : p.onMessageBegin.delivered = p.delivered := rfl
  constructor
  · exact (foldl_maxHeaderPairs _ _).trans (h1.trans (foldl_maxHeaderPairs _ _))
  · rw [Parser.progress, foldl_delivered, h2, foldl_delivered, h3, List.length_append]
    rfl

/-- A message is delivered once, and the limit stays. -/
lemma message_frame (p : Parser) (m : Message) :
    (p.message m).maxHeaderPairs = p.maxHeaderPairs ∧
      (p.message m).delivered.length = p.delivered.length + 1 := by
  obtain ⟨h1, h2⟩ := onMessageComplete_frame (p.progress m)
  obtain ⟨h3, h4⟩ := progress_frame p m
  exact ⟨h1.trans h3, h2.trans h4⟩

lemma map_some_singleton {l : List IncomingMessage} (h : l.length = 1) :
    l.map some = [l.getLast?] := by
  obtain ⟨x, rfl⟩ := List.length_eq_one_iff.mp h
  rfl

/-- **Messages are isolated**: on one connection, as long as no message with trailers is
interrupted by a dump before its end, every message is delivered as a new parser delivers it
alone, whatever came before and however it was cut; and so is a message still in progress. -/
theorem messages_isolated (maxHeaderPairs : ℤ) {ms whole : List Message}
    (hcut : List.Forall₂ SameMessage ms whole) (hms : ∀ m ∈ ms, Undisturbed m) :
    (ms.foldl Parser.message (Parser.init maxHeaderPairs)).delivered.map some =
        whole.map (alone maxHeaderPairs) ∧
      ∀ m m', SameMessage m m' →
        ((ms.foldl Parser.message (Parser.init maxHeaderPairs)).progress m).delivered.map some =
          whole.map (alone maxHeaderPairs) ++
            [((Parser.init maxHeaderPairs).progress m').delivered.getLast?] := by
  have hrun : ∀ {p : Parser}, Clean p →
      Clean (ms.foldl Parser.message p) ∧
        (ms.foldl Parser.message p).maxHeaderPairs = p.maxHeaderPairs ∧
        (ms.foldl Parser.message p).delivered.map some =
          p.delivered.map some ++ whole.map (alone p.maxHeaderPairs) := by
    induction hcut with
    | nil => exact fun hp => ⟨hp, rfl, by simp⟩
    | @cons m whole ms wholes h hcut ih =>
      intro p hp
      have hm := hms m (by simp)
      obtain ⟨h1, h2, h3⟩ := ih (fun m hm => hms m (by simp [hm])) (clean_message hp hm)
      have hmax := (message_frame p m).1
      refine ⟨h1, h2.trans hmax, ?_⟩
      have hdel := (progress_sameRest hp m).onMessageComplete
      have hone : ((Parser.init p.maxHeaderPairs).message m).delivered.map some =
          [alone p.maxHeaderPairs whole] := by
        rw [map_some_singleton (message_frame _ m).2, alone, Parser.message, Parser.message,
          h.progress]
      rw [List.foldl_cons, h3, hmax, Parser.message, hdel, List.map_append, ← Parser.message, hone]
      simp
  have hinit : (Parser.init maxHeaderPairs).maxHeaderPairs = maxHeaderPairs := rfl
  obtain ⟨hclean, hmax, hdel⟩ := hrun (p := Parser.init maxHeaderPairs) ⟨rfl, rfl⟩
  rw [hinit] at hmax hdel
  refine ⟨hdel, fun m m' hm => ?_⟩
  obtain ⟨⟨u, f, w, hp⟩, -⟩ := progress_sameRest hclean m
  have hl := (progress_frame (Parser.init maxHeaderPairs) m).2
  rw [hp, List.map_append, hdel, hmax, map_some_singleton hl, hm.progress]
  rfl

/-- A request with the given URL, and events after its headers. -/
def request (url : Bytes) (rest : List Event) : Message :=
  ⟨[.url url], ⟨some (js "POST"), 0, 1, 1, false⟩, rest, fun h => by cases h⟩

/-- A trailer `t: 1`. -/
def trailer : List Event := [.field [116], .value [49]]

lemma Cut.refl (s : List Event) : Cut s s := by
  induction s with
  | nil => exact .nil
  | cons e s ih => exact .cons e ih

theorem messages_isolated_trailer :
    ([request [47] trailer, request [42] []].foldl Parser.message
        (Parser.init 2000)).delivered.map some =
      [request [47] trailer, request [42] []].map (alone 2000) := by
  have hrefl : ∀ m : Message, SameMessage m m := fun m => ⟨.refl _, rfl, .refl _⟩
  refine (messages_isolated 2000 (.cons (hrefl _) (.cons (hrefl _) .nil)) ?_).1
  simp [Undisturbed, request, trailer]

/-- A dumped request leaves its URL and its trailers to the next one. -/
theorem dumped_trailer_leaks :
    ¬ ∀ ms : List Message, (ms.foldl Parser.message (Parser.init 2000)).delivered.map some =
      ms.map (alone 2000) := by
  intro h
  have := h [request [47] (.dump :: trailer), request [42] []]
  exact absurd this (by decide)

end NodeCore.HttpIsolation
