import NodeCore.Ipc

/-!
What is written at one end is what the lines of the other end are.

However the bytes are cut, the decoder and `jsonBuffer` give back one message after the other.
-/

namespace NodeCore.IpcTransport

open NodeCore.Encoding NodeCore.StringDecoder NodeCore.Ipc

/-! ### Lines -/

lemma takeLine_none {s : Str} : takeLine s = none ↔ 10 ∉ s := by
  induction s with
  | nil => simp [takeLine]
  | cons c s ih =>
    unfold takeLine
    split_ifs with h
    · simp [h]
    · rw [Option.map_eq_none_iff, ih, List.mem_cons, not_or]
      exact ⟨fun hs => ⟨fun h10 => h h10.symm, hs⟩, fun hs => hs.2⟩

lemma takeLine_append {text : Str} (h : 10 ∉ text) (rest : Str) :
    takeLine (text ++ 10 :: rest) = some (text, rest) := by
  induction text with
  | nil => rfl
  | cons c text ih =>
    rw [List.mem_cons, not_or] at h
    rw [List.cons_append, takeLine, if_neg fun hc => h.1 hc.symm, ih h.2]
    rfl

lemma takeLine_some {s text rest : Str} (h : takeLine s = some (text, rest)) :
    s = text ++ 10 :: rest ∧ 10 ∉ text := by
  induction s generalizing text with
  | nil => cases h
  | cons c s ih =>
    unfold takeLine at h
    split_ifs at h with hc
    · cases h
      exact ⟨by rw [hc]; rfl, List.not_mem_nil⟩
    · obtain ⟨r, hr, he⟩ := Option.map_eq_some_iff.mp h
      obtain ⟨rfl, rfl⟩ := Prod.mk.inj he
      obtain ⟨h1, h2⟩ := ih hr
      refine ⟨by rw [h1]; rfl, ?_⟩
      rw [List.mem_cons, not_or]
      exact ⟨fun h10 => hc h10.symm, h2⟩

variable {M : Type} (json : Json M)

/-- A line of the text is the first message. -/
lemma first_line {text rest more : Str} {ws : List (Wire M)} (htext : 10 ∉ text)
    (h : text ++ 10 :: rest ++ more = ws.flatMap json.line) :
    ∃ w ws', ws = w :: ws' ∧ text = json.stringify w ∧ rest ++ more = ws'.flatMap json.line := by
  cases ws with
  | nil => simp at h
  | cons w ws =>
    -- both sides give their first line to `takeLine`
    rw [List.flatMap_cons, Json.line, List.append_assoc, List.append_assoc, List.cons_append,
      List.singleton_append] at h
    have htake := congrArg takeLine h
    rw [takeLine_append htext, takeLine_append (json.oneLine w), Option.some.injEq,
      Prod.mk.injEq] at htake
    exact ⟨w, ws, rfl, htake.1, htake.2⟩

/-! ### What is ahead -/

/-- The messages `ws` are still to be handled at the end `t`, of their bytes `more` to be read. -/
structure Ahead (t : Target M) (more : Bytes) (ws : List (Wire M)) : Prop where
  text : ∃ held chars, HoldsUtf8 t.decoder held chars ∧ held ++ more = chars.flatMap utf8Code ∧
    t.jsonBuffer ++ chars.flatMap charUnits = ws.flatMap json.line
  whole : t.looping = false → 10 ∉ t.jsonBuffer

/-- What has been read is the same. -/
structure SameInput (t t' : Target M) : Prop where
  decoder : t'.decoder = t.decoder
  jsonBuffer : t'.jsonBuffer = t.jsonBuffer
  looping : t'.looping = t.looping

variable {json}

lemma Ahead.same {t t' : Target M} {more : Bytes} {ws : List (Wire M)} (ha : Ahead json t more ws)
    (h : SameInput t t') : Ahead json t' more ws := by
  obtain ⟨hd, hb, hl⟩ := h
  exact ⟨by rw [hd, hb]; exact ha.text, by rw [hl, hb]; exact ha.whole⟩

lemma ahead_new (worker : Bool) : Ahead json (.new M worker) [] [] :=
  ⟨⟨[], [], .whole Decoder.keeps_new rfl, rfl, rfl⟩, fun _ => List.not_mem_nil⟩

lemma holds_append {d : Decoder} {held : Bytes} {chars : List Char} (h : HoldsUtf8 d held chars)
    (chars' : List Char) : HoldsUtf8 d held (chars ++ chars') := by
  rcases h with ⟨hk, hlen⟩ | ⟨hk, hheld, hmore, hc, hlen⟩
  · exact .whole hk hlen
  · exact .part hk hheld hmore hc hlen

/-- The other end writes. -/
lemma Ahead.write {t : Target M} {more : Bytes} {ws : List (Wire M)} (h : Ahead json t more ws)
    {w : Wire M} (hw : WellFormed (json.stringify w)) :
    Ahead json t (more ++ json.bytes w) (ws ++ [w]) := by
  obtain ⟨⟨held, chars, hd, hmore, htext⟩, hwhole⟩ := h
  obtain ⟨cs, hcs⟩ := hw
  have hline : json.line w = (cs ++ ['\n']).flatMap charUnits := by
    rw [Json.line, hcs, List.flatMap_append]
    rfl
  refine ⟨⟨held, chars ++ (cs ++ ['\n']), holds_append hd _, ?_, ?_⟩, hwhole⟩
  · rw [← List.append_assoc, hmore, Json.bytes, hline, writeUtf8_text, ← List.flatMap_append]
  · rw [List.flatMap_append, ← List.append_assoc, htext, ← hline, List.flatMap_append,
      List.flatMap_singleton]

lemma Ahead.writeAll {t : Target M} {more : Bytes} {ws new : List (Wire M)}
    (h : Ahead json t more ws) (hnew : ∀ w ∈ new, WellFormed (json.stringify w)) :
    Ahead json t (more ++ new.flatMap json.bytes) (ws ++ new) := by
  induction new generalizing more ws with
  | nil => simpa using h
  | cons w new ih =>
    rw [List.forall_mem_cons] at hnew
    simpa using ih (h.write hnew.1) hnew.2

/-- A chunk is read. -/
lemma Ahead.read {t : Target M} {chunk more : Bytes} {ws : List (Wire M)}
    (h : Ahead json t (chunk ++ more) ws) :
    ∃ text d, t.read chunk =
      { t with decoder := d, jsonBuffer := t.jsonBuffer ++ text, looping := true } ∧
      Ahead json (t.read chunk) more ws := by
  obtain ⟨⟨held, chars, hd, hmore, htext⟩, -⟩ := h
  rw [← List.append_assoc] at hmore
  have hf := follows_utf8 chars
  obtain ⟨passed, rest, held', d', rfl, hheld, hd', hwrite⟩ :=
    hf [] chars held t.decoder chunk more rfl hd (by rw [← hmore, List.append_assoc]) trivial
  have hread : t.read chunk = { t with
      decoder := d', jsonBuffer := t.jsonBuffer ++ passed.flatMap charUnits, looping := true } := by
    rw [Target.read, hwrite]
  refine ⟨_, d', hread, ⟨held', rest, ?_, ?_, ?_⟩, ?_⟩
  · rw [hread]
    exact hd'
  · rw [hheld, List.flatMap_append, List.append_assoc] at hmore
    exact List.append_cancel_left hmore
  · rw [hread, ← htext, List.flatMap_append, List.append_assoc]
  · rw [hread]
    nofun

/-- A line is the first of the messages ahead. -/
lemma Ahead.line {t : Target M} {more : Bytes} {ws : List (Wire M)} {text rest : Str}
    (h : Ahead json t more ws) (hl : takeLine t.jsonBuffer = some (text, rest)) :
    ∃ w ws', ws = w :: ws' ∧ json.parse text = some w ∧
      Ahead json { t with jsonBuffer := rest } more ws' := by
  obtain ⟨⟨held, chars, hd, hmore, htext⟩, hwhole⟩ := h
  obtain ⟨hbuffer, hnot⟩ := takeLine_some hl
  rw [hbuffer] at htext
  obtain ⟨w, ws', rfl, rfl, hrest⟩ := first_line json hnot htext
  refine ⟨w, ws', rfl, json.parse_stringify w, ⟨held, chars, hd, hmore, hrest⟩, fun hf => ?_⟩
  have : (10 : UInt16) ∈ t.jsonBuffer := by
    rw [hbuffer]
    exact List.mem_append_right _ List.mem_cons_self
  exact absurd this (hwhole hf)

/-- When nothing is ahead, nothing has been read of it. -/
lemma Ahead.nil {t : Target M} {more : Bytes} (h : Ahead json t more []) : t.jsonBuffer = [] := by
  obtain ⟨⟨held, chars, -, -, htext⟩, -⟩ := h
  exact (List.append_eq_nil_iff.mp htext).1

/-- When all has been read and the loop has ended, nothing is ahead. -/
lemma Ahead.rest {t : Target M} {ws : List (Wire M)} (h : Ahead json t [] ws)
    (hf : t.looping = false) : ws = [] := by
  obtain ⟨⟨held, chars, hd, hmore, htext⟩, hwhole⟩ := h
  have hchars : chars = [] := by
    rw [List.append_nil] at hmore
    rcases hd with ⟨-, -⟩ | @⟨c, tail, held, left, -, -, hleft, hc, -⟩
    · cases chars with
      | nil => rfl
      | cons c tail => exact absurd (List.append_eq_nil_iff.mp hmore.symm).1 (utf8Code_ne_nil c)
    · rw [List.flatMap_cons, hc, List.append_assoc] at hmore
      have hnil := List.self_eq_append_right.mp hmore
      exact absurd (List.append_eq_nil_iff.mp hnil).1 hleft
  subst hchars
  rw [List.flatMap_nil, List.append_nil] at htext
  cases ws with
  | nil => rfl
  | cons w ws =>
    refine absurd ?_ (hwhole hf)
    rw [htext, List.flatMap_cons, Json.line]
    simp

end NodeCore.IpcTransport
