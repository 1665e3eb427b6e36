import NodeCore.HttpResponse
import NodeCore.HttpHeaderBlock

/-!
The lines of what is sent: a header has one line, whatever is in its value.

`storeHeader` takes CR and LF out of a value. `addTrailers` does not.
-/

namespace NodeCore.HttpInjection

open NodeCore.Encoding NodeCore.HttpOutgoing NodeCore.HttpOutput NodeCore.HttpHeaderBlock

/-! ### Lines -/

def consHead (c : UInt16) : List Str → List Str
  | [] => [[c]]
  | l :: ls => (c :: l) :: ls

/-- A text split at its line ends: CR, LF or both. The flag says that a CR is just behind. -/
def splitFrom : Bool → Str → List Str
  | _, [] => [[]]
  | afterCr, c :: s =>
    if c = 13 then [] :: splitFrom true s
    else if c = 10 then
      if afterCr then splitFrom false s else [] :: splitFrom false s
    else consHead c (splitFrom false s)

def lines (s : Str) : List Str := splitFrom false s

def NoBreak (s : Str) : Prop := ∀ c ∈ s, isBreak c = false

instance : DecidablePred NoBreak := fun s =>
  List.decidableBAll (fun c => isBreak c = false) s

lemma splitFrom_ne_nil (b : Bool) (s : Str) : splitFrom b s ≠ [] := by
  induction s generalizing b with
  | nil => exact List.cons_ne_nil _ _
  | cons c s ih =>
    unfold splitFrom
    split_ifs
    · exact List.cons_ne_nil _ _
    · exact ih false
    · exact List.cons_ne_nil _ _
    · cases splitFrom false s <;> exact List.cons_ne_nil _ _

lemma consHead_append {ls : List Str} (h : ls ≠ []) (c : UInt16) (ms : List Str) :
    consHead c (ls ++ ms) = consHead c ls ++ ms := by
  obtain ⟨l, ls, rfl⟩ := List.exists_cons_of_ne_nil h
  rfl

/-- A line end ends a line, whatever is around it. -/
lemma splitFrom_crlf (b : Bool) (s t : Str) :
    splitFrom b (s ++ crlf ++ t) = splitFrom b s ++ lines t := by
  induction s generalizing b with
  | nil => rfl
  | cons c s ih =>
    rw [List.cons_append, List.cons_append, splitFrom, splitFrom, ih, ih]
    split_ifs
    · rfl
    · rfl
    · rfl
    · exact consHead_append (splitFrom_ne_nil _ _) c _

lemma lines_crlf (s t : Str) : lines (s ++ crlf ++ t) = lines s ++ lines t :=
  splitFrom_crlf false s t

lemma isBreak_false {c : UInt16} : isBreak c = false ↔ c ≠ 13 ∧ c ≠ 10 := by
  simp [isBreak]

lemma lines_noBreak {s : Str} (h : NoBreak s) : lines s = [s] := by
  induction s with
  | nil => rfl
  | cons c s ih =>
    obtain ⟨h13, h10⟩ := isBreak_false.mp (h c List.mem_cons_self)
    have hs := ih fun d hd => h d (List.mem_cons_of_mem _ hd)
    rw [lines] at hs
    rw [lines, splitFrom, if_neg h13, if_neg h10, hs]
    rfl

/-- A break makes another line, if something other than a line end is before it. -/
lemma lines_length {p : Str} (hp : NoBreak p) (s : Str) :
    (lines (p ++ s)).length = 1 ↔ NoBreak s := by
  have hsplit : ∀ s, (splitFrom false s).length = 1 ↔ NoBreak s := by
    intro s
    induction s with
    | nil => exact iff_of_true rfl fun c hc => absurd hc List.not_mem_nil
    | cons c s ih =>
      have hpos := List.length_pos_iff.mpr (splitFrom_ne_nil true s)
      have hpos' := List.length_pos_iff.mpr (splitFrom_ne_nil false s)
      by_cases h13 : c = 13
      · rw [splitFrom, if_pos h13, List.length_cons]
        refine iff_of_false (by omega) fun h => ?_
        exact (isBreak_false.mp (h c List.mem_cons_self)).1 h13
      · by_cases h10 : c = 10
        · rw [splitFrom, if_neg h13, if_pos h10, if_neg Bool.false_ne_true, List.length_cons]
          refine iff_of_false (by omega) fun h => ?_
          exact (isBreak_false.mp (h c List.mem_cons_self)).2 h10
        · have hlen : (consHead c (splitFrom false s)).length = (splitFrom false s).length := by
            obtain ⟨l, ls, hl⟩ := List.exists_cons_of_ne_nil (splitFrom_ne_nil false s)
            rw [hl]
            rfl
          rw [splitFrom, if_neg h13, if_neg h10, hlen, ih]
          refine ⟨fun h d hd => ?_, fun h d hd => h d (List.mem_cons_of_mem _ hd)⟩
          rcases List.mem_cons.mp hd with rfl | hd
          · exact isBreak_false.mpr ⟨h13, h10⟩
          · exact h d hd
  rw [lines, hsplit]
  refine ⟨fun h c hc => h c (List.mem_append_right _ hc), fun h c hc => ?_⟩
  exact (List.mem_append.mp hc).elim (hp c) (h c)

lemma NoBreak.append {s t : Str} (hs : NoBreak s) (ht : NoBreak t) : NoBreak (s ++ t) :=
  fun c hc => (List.mem_append.mp hc).elim (hs c) (ht c)

/-! ### `storeHeader` -/

lemma removeBreaks_noBreak (b : Bool) (s : Str) : NoBreak (removeBreaks b s) := by
  induction s generalizing b with
  | nil => exact fun c hc => absurd hc List.not_mem_nil
  | cons c s ih =>
    unfold removeBreaks
    split_ifs with h1 h2
    · exact ih true
    · exact ih true
    · intro d hd
      rcases List.mem_cons.mp hd with rfl | hd
      · exact Bool.eq_false_iff.mpr h1
      · exact ih false d hd

/-- **No line end is left in a value.** -/
lemma sanitize_noBreak (value : Str) : NoBreak (sanitize value) := by
  unfold sanitize
  split_ifs with h
  · exact removeBreaks_noBreak false value
  · intro c hc
    rw [Bool.not_eq_true, List.any_eq_false] at h
    exact Bool.eq_false_iff.mpr (h c hc)

/-- The text of a line. -/
def lineText (f : Str × Str) : Str := f.1 ++ js ": " ++ f.2

lemma colon_noBreak {name : Str} (h : NoBreak name) : NoBreak (name ++ js ": ") :=
  h.append (by decide)

/-- The lines of rendered fields, and of what comes after them. -/
lemma lines_render (fields : List (Str × Str)) (t : Str) :
    lines (render fields ++ t) = fields.flatMap (fun f => lines (lineText f)) ++ lines t := by
  induction fields with
  | nil => rfl
  | cons f fields ih =>
    have hrender : render (f :: fields) ++ t = lineText f ++ crlf ++ (render fields ++ t) := by
      simp [render, line, lineText]
    rw [hrender, lines_crlf, ih, List.flatMap_cons, List.append_assoc]

lemma lines_fields {fields : List (Str × Str)}
    (h : ∀ f ∈ fields, NoBreak f.1 ∧ NoBreak f.2) :
    fields.flatMap (fun f => lines (lineText f)) = fields.map lineText := by
  induction fields with
  | nil => rfl
  | cons f fields ih =>
    obtain ⟨h1, h2⟩ := h f List.mem_cons_self
    have hline : lines (lineText f) = [lineText f] := lines_noBreak ((colon_noBreak h1).append h2)
    rw [List.flatMap_cons, List.map_cons, ih fun g hg => h g (List.mem_cons_of_mem _ hg), hline]
    rfl

/-- The lines that the library may add. -/
def framingFields (date : Str) : List (Str × Str) :=
  [(js "Date", date), (js "Connection", js "keep-alive"), (js "Connection", js "close"),
    (js "Transfer-Encoding", js "chunked")]

lemma framing_noBreak {date : Str} (hdate : NoBreak date) :
    ∀ f ∈ framingFields date, NoBreak f.1 ∧ NoBreak f.2 := by
  have hfix : ∀ f ∈ [(js "Connection", js "keep-alive"), (js "Connection", js "close"),
      (js "Transfer-Encoding", js "chunked")], NoBreak f.1 ∧ NoBreak f.2 := by decide
  intro f hf
  rcases List.mem_cons.mp hf with rfl | hf
  · exact ⟨(by decide : NoBreak (js "Date")), hdate⟩
  · exact hfix f hf

lemma storeDate_fields (m : Message) (date : Str) (state : HeaderState) :
    ∃ l, l.Sublist [(js "Date", date)] ∧
      (m.storeDate date state).fields = state.fields ++ l := by
  unfold Message.storeDate
  split_ifs
  · exact ⟨_, List.Sublist.refl _, rfl⟩
  · exact ⟨[], List.nil_sublist _, (List.append_nil _).symm⟩

lemma storeConnection_fields (m : Message) (state : HeaderState) :
    ∃ l, l.Sublist [(js "Connection", js "keep-alive"), (js "Connection", js "close")] ∧
      (m.storeConnection state).2.fields = state.fields ++ l := by
  unfold Message.storeConnection
  split_ifs
  · exact ⟨[], List.nil_sublist _, (List.append_nil _).symm⟩
  · exact ⟨_, List.Sublist.cons_cons _ (List.nil_sublist _), rfl⟩
  · exact ⟨_, List.Sublist.cons _ (List.Sublist.refl _), rfl⟩

lemma storeFraming_fields (m : Message) (state : HeaderState) :
    ∃ l, l.Sublist [(js "Transfer-Encoding", js "chunked")] ∧
      (m.storeFraming state).2.fields = state.fields ++ l := by
  unfold Message.storeFraming
  split_ifs
  · exact ⟨[], List.nil_sublist _, (List.append_nil _).symm⟩
  · exact ⟨_, List.Sublist.refl _, rfl⟩
  · exact ⟨[], List.nil_sublist _, (List.append_nil _).symm⟩
  · exact ⟨[], List.nil_sublist _, (List.append_nil _).symm⟩

/-- The fields of a header block: those given, and those of the library. -/
lemma composeHeader_fields (m : Message) (firstLine : Str) (headers : Headers) (date : Str) :
    ∃ l, l.Sublist (framingFields date) ∧
      (m.composeHeader firstLine headers date).2.fields = stored headers.fields ++ l := by
  unfold Message.composeHeader
  rw [storeFields_eq]
  dsimp only
  obtain ⟨l₁, h₁, e₁⟩ := storeDate_fields _ date _
  obtain ⟨l₂, h₂, e₂⟩ := storeConnection_fields _ _
  obtain ⟨l₃, h₃, e₃⟩ := storeFraming_fields _ _
  refine ⟨l₁ ++ (l₂ ++ l₃), h₁.append (h₂.append h₃), ?_⟩
  rw [e₃, e₂, e₁]
  simp

/-- The text of the header block. -/
lemma header_storeHeader (m : Message) (firstLine : Str) (headers : Headers) (date : Str) :
    ∃ framing, framing.Sublist (framingFields date) ∧
      (m.storeHeader firstLine headers date).header =
        firstLine ++ (render (stored headers.fields ++ framing) ++ crlf) := by
  obtain ⟨framing, hsub, hfields⟩ := composeHeader_fields m firstLine headers date
  refine ⟨framing, hsub, ?_⟩
  have htext := m.composeHeader_text firstLine headers date
  rw [hfields] at htext
  unfold Message.storeHeader
  dsimp only
  split_ifs
  · obtain ⟨q, c, hsend⟩ := send_frame _ _ _
    rw [hsend, htext, List.append_assoc]
  · rw [htext, List.append_assoc]

/-- The block is the start line, one line for each value, and lines of the library. -/
def BlockLines (start : Str) (headers : Headers) (date block : Str) : Prop :=
  ∃ framing, framing.Sublist (framingFields date) ∧
    lines block = lines start ++ (stored headers.fields ++ framing).map lineText ++ [[], []]

/-- The status line, without its end. -/
def statusText (statusCode : ℕ) (reasonPhrase : Option Str) : Str :=
  js "HTTP/1.1 " ++ toString10 statusCode ++ js " " ++ reasonPhrase.getD (reasonOf statusCode)

/-- **The header block has a line for each value given**, after the start line and before those
that the library adds and the end of the block. -/
theorem lines_storeHeader {headers : Headers} (hnames : ∀ h ∈ headers, NoBreak h.1)
    (m : Message) (start date : Str) (hdate : NoBreak date) :
    BlockLines start headers date (m.storeHeader (start ++ crlf) headers date).header := by
  obtain ⟨framing, hsub, hheader⟩ := header_storeHeader m (start ++ crlf) headers date
  have hall : ∀ f ∈ stored headers.fields ++ framing, NoBreak f.1 ∧ NoBreak f.2 := by
    intro f hf
    rcases List.mem_append.mp hf with hf | hf
    · obtain ⟨g, hg, rfl⟩ := List.mem_map.mp hf
      obtain ⟨h, hh, hg⟩ := List.mem_flatMap.mp hg
      obtain ⟨v, -, rfl⟩ := List.mem_map.mp hg
      exact ⟨hnames h hh, sanitize_noBreak v⟩
    · exact framing_noBreak hdate f (hsub.subset hf)
  refine ⟨framing, hsub, ?_⟩
  rw [hheader, lines_crlf, lines_render, lines_fields hall, List.append_assoc]
  rfl

lemma lines_writeHead {headers : Headers} (hnames : ∀ h ∈ headers, NoBreak h.1)
    (r : ServerResponse) (date : Str) (statusCode : ℕ) (reasonPhrase : Option Str)
    (obj : Option HeadersArg) (hdate : NoBreak date) (hobj : r.allHeaders obj = some headers) :
    ∃ r', r.writeHead date statusCode reasonPhrase obj = some r' ∧
      BlockLines (statusText statusCode reasonPhrase) headers date r'.header := by
  rw [ServerResponse.writeHead, hobj]
  exact ⟨_, rfl, lines_storeHeader hnames _ _ date hdate⟩

/-! ### What `end` sends -/

/-- The text that ends a chunked body. -/
def lastChunk (m : OutgoingMessage) : Str := js "0\r\n" ++ m.trailer ++ js "\r\n"

/-- A message whose trailers are still to be sent. -/
structure Ending (m : OutgoingMessage) : Prop where
  header : m.header ≠ []
  chunked : m.chunkedEncoding = true
  open_ : m.finished = false
  linked : Linked m

/-- What was sent or queued last ends with the text. -/
def EndsWith (m : OutgoingMessage) (t : Str) : Prop :=
  ∃ s e, (traffic m).getLast? = some (.str (s ++ t), e)

lemma linked_send {m : OutgoingMessage} (h : Linked m) (d : Data) (e : EncArg) :
    Linked (m.send d e).1 := by
  unfold OutgoingMessage.send
  split_ifs
  · exact h.writeRaw _ _
  · cases d with
    | str s => exact Linked.writeRaw (m := { m with headerSent := true }) h _ _
    | buf b =>
      exact Linked.writeRaw (m := { m with
        headerSent := true
        output := (.str m.header, some (js "ascii")) :: m.output }) h _ _

lemma endsWith_writeRaw {m : OutgoingMessage} (h : Linked m) (s t : Str) (ht : t ≠ []) :
    EndsWith (m.writeRaw (.str (s ++ t)) none).1 t := by
  have h0 : (Data.str (s ++ t)).length ≠ 0 := fun hlen =>
    ht (List.append_eq_nil_iff.mp (List.length_eq_zero_iff.mp hlen)).2
  rcases h with ⟨c, hc, hw⟩ | h
  · refine ⟨s, none, ?_⟩
    rw [writeRaw_attached hc hw _ _ h0, traffic, List.append_nil]
    simp [OutgoingMessage.sent]
  · rw [writeRaw_detached h, OutgoingMessage.buffer, if_neg h0]
    unfold EndsWith traffic enqueue
    cases hl : m.output.getLast? with
    | none => exact ⟨s, none, by simp⟩
    | some last =>
      dsimp only
      split_ifs
      · exact ⟨text last.1 ++ s, last.2, by simp⟩
      · exact ⟨s, none, by simp⟩

lemma endsWith_send {m : OutgoingMessage} (h : Linked m) {t : Str} (ht : t ≠ []) :
    EndsWith (m.send (.str t) none).1 t := by
  unfold OutgoingMessage.send
  split_ifs
  · exact endsWith_writeRaw h [] t ht
  · exact endsWith_writeRaw (m := { m with headerSent := true }) h m.header t ht

lemma linked_cork {m : OutgoingMessage} (h : Linked m) : Linked m.cork :=
  h.map fun _ => ⟨rfl, rfl, rfl⟩

lemma linked_uncork {m : OutgoingMessage} (h : Linked m) : Linked m.uncork :=
  h.map fun _ => ⟨rfl, rfl, rfl⟩

/-- The ways of `write`, once a header is stored. -/
lemma write_ways {m : OutgoingMessage} (hh : m.header ≠ []) (d : Data) (e : EncArg) :
    (OutgoingMessage.write id m d e).1 = m ∨
      (OutgoingMessage.write id m d e).1 = (m.sendParts d).1 ∨
      ∃ d', (OutgoingMessage.write id m d e).1 = (m.send d' e).1 := by
  unfold OutgoingMessage.write
  rw [if_neg hh]
  cases d with
  | str s =>
    dsimp only
    split_ifs
    · exact .inl rfl
    · exact .inl rfl
    · exact .inr (.inl rfl)
    · exact .inr (.inr ⟨_, rfl⟩)
    · exact .inr (.inr ⟨_, rfl⟩)
  | buf b =>
    dsimp only
    split_ifs
    · exact .inl rfl
    · exact .inl rfl
    · exact .inr (.inl rfl)
    · exact .inr (.inr ⟨_, rfl⟩)

lemma linked_write {m : OutgoingMessage} (h : Linked m) (hh : m.header ≠ []) (d : Data)
    (e : EncArg) : Linked (OutgoingMessage.write id m d e).1 := by
  rcases write_ways hh d e with hw | hw | ⟨d', hw⟩
  · rwa [hw]
  · rw [hw]
    exact linked_uncork (linked_send (linked_send (linked_send (linked_send (linked_cork h) _ _)
      _ _) _ _) _ _)
  · rw [hw]
    exact linked_send h d' e

/-- What `write` leaves as it is. -/
structure SameText (m m' : OutgoingMessage) : Prop where
  trailer : m'.trailer = m.trailer
  chunked : m'.chunkedEncoding = m.chunkedEncoding

lemma SameText.trans {a b c : OutgoingMessage} (h : SameText a b) (h' : SameText b c) :
    SameText a c := ⟨h'.1.trans h.1, h'.2.trans h.2⟩

lemma sameText_send (m : OutgoingMessage) (d : Data) (e : EncArg) : SameText m (m.send d e).1 := by
  obtain ⟨q, c, h⟩ := send_frame m d e
  rw [h]
  exact ⟨rfl, rfl⟩

lemma sameText_write {m : OutgoingMessage} (hh : m.header ≠ []) (d : Data) (e : EncArg) :
    SameText m (OutgoingMessage.write id m d e).1 := by
  rcases write_ways hh d e with hw | hw | ⟨d', hw⟩
  · rw [hw]
    exact ⟨rfl, rfl⟩
  · have hcork : SameText m m.cork := ⟨rfl, rfl⟩
    rw [hw]
    exact (((hcork.trans (sameText_send _ _ _)).trans (sameText_send _ _ _)).trans
      (sameText_send _ _ _)).trans ((sameText_send _ _ _).trans ⟨rfl, rfl⟩)
  · rw [hw]
    exact sameText_send m d' e

lemma endsWith_finish {m : OutgoingMessage} {t : Str} (h : EndsWith m t) :
    EndsWith { m with finished := true }.finishIfOut t := by
  unfold OutgoingMessage.finishIfOut
  split_ifs
  · exact h
  · dsimp only
    cases hc : m.connection with
    | none =>
      rw [EndsWith, traffic, OutgoingMessage.sent, hc] at h
      exact h
    | some c =>
      rw [EndsWith, traffic, OutgoingMessage.sent, hc] at h
      dsimp only
      split_ifs
      · rwa [EndsWith, traffic, OutgoingMessage.sent, OutgoingMessage.finish]
      · rwa [EndsWith, traffic, OutgoingMessage.sent]

/-- **`end` sends the trailers last**, after the data it is given. -/
theorem end_sends {m : OutgoingMessage} (h : Ending m) (data : Option Data) (e : EncArg) :
    EndsWith (OutgoingMessage.end id m data e).1 (lastChunk m) := by
  have hne : lastChunk m ≠ [] := by
    unfold lastChunk
    exact List.append_ne_nil_of_left_ne_nil (List.append_ne_nil_of_left_ne_nil (by decide) _) _
  unfold OutgoingMessage.end
  rw [if_neg (by rw [h.open_]; exact Bool.false_ne_true), if_neg h.header]
  dsimp only
  cases hd : (if m.hasBody then OutgoingMessage.given data else none) with
  | none =>
    simp only [Option.isSome_none, Bool.false_eq_true, if_false, h.chunked, if_true]
    exact endsWith_finish (endsWith_send h.linked hne)
  | some d =>
    obtain ⟨htrailer, hchunked⟩ := sameText_write (m := m.cork) h.header d e
    have hchunk : (OutgoingMessage.write id m.cork d e).1.chunkedEncoding = true :=
      hchunked.trans h.chunked
    have hsend := endsWith_send (linked_write (linked_cork h.linked) h.header d e) hne
    simp only [Option.isSome_some, if_true, hchunk]
    refine endsWith_finish ?_
    rw [EndsWith, traffic_uncork, htrailer]
    exact hsend

/-! ### Trailers -/

lemma lines_lastChunk (m : OutgoingMessage) (trailers : List (Str × Str))
    (hm : m.trailer = render trailers) : lines (lastChunk m) =
      js "0" :: (trailers.flatMap fun t => lines (lineText t)) ++ [[], []] := by
  have htext : lastChunk m = js "0" ++ crlf ++ (render trailers ++ crlf) := by
    rw [← hm]
    simp [lastChunk, show js "0\r\n" = js "0" ++ crlf by decide, crlf]
  rw [htext, lines_crlf, lines_render]
  rfl

/-- One line for each is said of all of them at once. -/
lemma flatMap_lines_iff {trailers : List (Str × Str)} (hnames : ∀ t ∈ trailers, NoBreak t.1) :
    trailers.flatMap (fun t => lines (lineText t)) = trailers.map lineText ↔
      ∀ t ∈ trailers, NoBreak t.2 := by
  constructor
  · intro h
    have hlen := congrArg List.length h
    clear h
    rw [List.length_map] at hlen
    have hge : ∀ ts : List (Str × Str),
        ts.length ≤ (ts.flatMap fun t => lines (lineText t)).length := by
      intro ts
      induction ts with
      | nil => exact Nat.le_refl 0
      | cons t ts ih =>
        have := List.length_pos_iff.mpr (splitFrom_ne_nil false (lineText t))
        rw [List.flatMap_cons, List.length_append, List.length_cons, lines]
        omega
    induction trailers with
    | nil => exact fun t ht => absurd ht List.not_mem_nil
    | cons t ts ih =>
      have hpos := List.length_pos_iff.mpr (splitFrom_ne_nil false (lineText t))
      have hrest := hge ts
      rw [List.flatMap_cons, List.length_append, List.length_cons, lines] at hlen
      have hone : (lines (lineText t)).length = 1 := by
        rw [lines]
        omega
      intro u hu
      rcases List.mem_cons.mp hu with rfl | hu
      · exact (lines_length (colon_noBreak (hnames _ List.mem_cons_self)) _).mp hone
      · exact ih (fun v hv => hnames v (List.mem_cons_of_mem _ hv)) (by omega) u hu
  · exact fun h => lines_fields fun t ht => ⟨hnames t ht, h t ht⟩

/-- What is to be seen of the headers of a message, and of those of a response that come from
`setHeader` and `writeHead`. -/
def HeaderLines (headers : Headers) : Prop :=
  (∀ (m : Message) (start date : Str), NoBreak date →
    BlockLines start headers date (m.storeHeader (start ++ crlf) headers date).header) ∧
  ∀ (r : ServerResponse) (date : Str) (statusCode : ℕ) (reasonPhrase : Option Str)
    (obj : Option HeadersArg), NoBreak date → r.allHeaders obj = some headers →
    ∃ r', r.writeHead date statusCode reasonPhrase obj = some r' ∧
      BlockLines (statusText statusCode reasonPhrase) headers date r'.header

def TrailerLines (trailers : List (Str × Str)) : Prop :=
  ∀ r : ServerResponse, Ending r.toOutgoingMessage → ∀ date data e,
    EndsWith ((r.addTrailers trailers).end date data e).toOutgoingMessage
        (lastChunk (r.addTrailers trailers).toOutgoingMessage) ∧
      lines (lastChunk (r.addTrailers trailers).toOutgoingMessage) =
        js "0" :: trailers.map lineText ++ [[], []]

lemma end_addTrailers {r : ServerResponse} (h : Ending r.toOutgoingMessage)
    (trailers : List (Str × Str)) (date : Str) (data : Option Data) (e : EncArg) :
    EndsWith ((r.addTrailers trailers).end date data e).toOutgoingMessage
      (lastChunk (r.addTrailers trailers).toOutgoingMessage) := by
  have h' : Ending (r.addTrailers trailers).toOutgoingMessage :=
    ⟨h.header, h.chunked, h.open_, h.linked⟩
  have hhead : (r.addTrailers trailers).implicitHeader date = r.addTrailers trailers :=
    if_neg h.header
  unfold ServerResponse.end
  rw [if_neg (by rw [h'.open_]; exact Bool.false_ne_true), hhead]
  exact end_sends h' data e

/-- A response on which a chunked body has been begun. -/
def begun : ServerResponse :=
  { ServerResponse.new ⟨js "GET", 1, 1, none⟩ with
    header := js "HTTP/1.1 200 OK\r\nTransfer-Encoding: chunked\r\n\r\n"
    headerSent := true
    chunkedEncoding := true }

lemma begun_ending : Ending begun.toOutgoingMessage where
  header := by decide
  chunked := rfl
  open_ := rfl
  linked := .inr fun c hc => by cases hc

/-- **A value adds no line exactly if no trailer has a line end in its value**: the header block
always has the lines it should have, the trailers have one line each only if their values have
no CR and no LF. -/
theorem no_injection_iff {headers : Headers} {trailers : List (Str × Str)}
    (hheaders : ∀ h ∈ headers, NoBreak h.1) (htrailers : ∀ t ∈ trailers, NoBreak t.1) :
    HeaderLines headers ∧ TrailerLines trailers ↔ ∀ t ∈ trailers, NoBreak t.2 := by
  constructor
  · rintro ⟨-, h⟩
    obtain ⟨-, hlines⟩ := h begun begun_ending [] none none
    rw [lines_lastChunk _ trailers rfl, List.cons_append, List.cons_append,
      List.cons.injEq] at hlines
    exact (flatMap_lines_iff htrailers).mp (List.append_cancel_right hlines.2)
  · intro h
    refine ⟨⟨lines_storeHeader hheaders, lines_writeHead hheaders⟩, fun r hr date data e =>
      ⟨end_addTrailers hr trailers date data e, ?_⟩⟩
    rw [lines_lastChunk _ trailers rfl, (flatMap_lines_iff htrailers).mpr h]

theorem no_injection_header :
    HeaderLines [(js "X-A", .many [js "1\r\nSet-Cookie: a=b", js "2"])] ∧
      TrailerLines [(js "X-B", js "3")] :=
  (no_injection_iff (by decide) (by decide)).mpr (by decide)

/-- A trailer whose value has a line end is two lines. -/
theorem trailer_injection :
    ¬ ∀ trailers : List (Str × Str), (∀ t ∈ trailers, NoBreak t.1) → TrailerLines trailers := by
  intro h
  obtain ⟨-, hlines⟩ := h [(js "X-B", js "1\r\nSet-Cookie: a=b")] (by decide) begun begun_ending
    [] none none
  exact absurd hlines (by decide)

end NodeCore.HttpInjection
