import NodeCore.HttpFraming
import NodeCore.HttpPipeline

/-!
What the functions of a response do to its connection: they write to it while it is writable, and
the last thing they do is to emit an event.
-/

namespace NodeCore.HttpPipeline

open NodeCore.Encoding NodeCore.HttpOutgoing NodeCore.HttpFraming

/-! ### Messages -/

/-- The message writes to its connection, if it is writable. -/
structure Writes (m m' : OutgoingMessage) : Prop where
  off : m.connection = none → m'.connection = none
  on : ∀ c, m.connection = some c → ∃ n ws,
    m'.connection = some { c with corked := n, written := c.written ++ ws } ∧
      (ws ≠ [] → c.writable = true)
  emitted : m'.emitted = m.emitted

lemma writes_of_eq {m m' : OutgoingMessage} (hc : m'.connection = m.connection)
    (he : m'.emitted = m.emitted) : Writes m m' where
  off h := hc.trans h
  on c h := ⟨c.corked, [], by rw [hc, h, List.append_nil], fun hne => absurd rfl hne⟩
  emitted := he

lemma Writes.refl (m : OutgoingMessage) : Writes m m := writes_of_eq rfl rfl

lemma Writes.trans {m m' m'' : OutgoingMessage} (h : Writes m m') (h' : Writes m' m'') :
    Writes m m'' where
  off hm := h'.off (h.off hm)
  on c hm := by
    obtain ⟨n, ws, hc, hws⟩ := h.on c hm
    obtain ⟨n', ws', hc', hws'⟩ := h'.on _ hc
    refine ⟨n', ws ++ ws', by rw [hc', List.append_assoc], fun hne => ?_⟩
    by_cases hnil : ws = []
    · exact hws' fun hnil' => hne (by rw [hnil, hnil']; rfl)
    · exact hws hnil
  emitted := h'.emitted.trans h.emitted

lemma shiftOut_writes (c : Connection) (q : List Entry) :
    ∃ ws, (shiftOut c q).1 = { c with written := c.written ++ ws } ∧
      (ws ≠ [] → c.writable = true) := by
  induction q generalizing c with
  | nil => exact ⟨[], by rw [shiftOut, List.append_nil], fun hne => absurd rfl hne⟩
  | cons x q ih =>
    rw [shiftOut]
    by_cases hw : c.writable = true
    · rw [if_pos hw]
      obtain ⟨ws, hc, -⟩ := ih (c.write x.1 x.2)
      refine ⟨x :: ws, ?_, fun _ => hw⟩
      rw [hc]
      simp [Connection.write]
    · rw [if_neg hw]
      exact ⟨[], by rw [List.append_nil], fun hne => absurd rfl hne⟩

lemma writes_buffer (m : OutgoingMessage) (d : Data) (e : EncArg) : Writes m (m.buffer d e) := by
  unfold OutgoingMessage.buffer
  split_ifs
  · exact .refl m
  · exact writes_of_eq rfl rfl

lemma writes_writeRaw (m : OutgoingMessage) (d : Data) (e : EncArg) :
    Writes m (m.writeRaw d e).1 := by
  unfold OutgoingMessage.writeRaw
  split_ifs
  · exact .refl m
  cases hc : m.connection with
  | none => exact writes_buffer m d e
  | some c =>
    dsimp only
    by_cases hmine : (c.mine && c.writable && !c.destroyed) = true
    · rw [if_pos hmine]
      simp only [Bool.and_eq_true] at hmine
      obtain ⟨ws, hshift, -⟩ := shiftOut_writes c m.output
      have hout : Writes m { m with
          connection := some (shiftOut c m.output).1, output := (shiftOut c m.output).2 } := by
        refine ⟨fun h => ?_, fun c' h => ?_, rfl⟩
        · rw [hc] at h
          cases h
        · obtain rfl : c = c' := Option.some.inj (hc.symm.trans h)
          exact ⟨c.corked, ws, congrArg some hshift, fun _ => hmine.1.2⟩
      by_cases hleft : (shiftOut c m.output).2 = []
      · rw [if_neg (not_not.mpr hleft)]
        refine ⟨fun h => ?_, fun c' h => ?_, rfl⟩
        · rw [hc] at h
          cases h
        · obtain rfl : c = c' := Option.some.inj (hc.symm.trans h)
          refine ⟨c.corked, ws ++ [(d, e)], ?_, fun _ => hmine.1.2⟩
          rw [hshift, Connection.write, List.append_assoc]
      · rw [if_pos hleft]
        exact hout.trans (writes_buffer _ d e)
    · rw [if_neg hmine]
      split_ifs
      · exact .refl m
      · exact writes_buffer m d e

lemma writes_send (m : OutgoingMessage) (d : Data) (e : EncArg) : Writes m (m.send d e).1 := by
  unfold OutgoingMessage.send
  split_ifs
  · exact writes_writeRaw m d e
  · have hsent (q : List Entry) : Writes m { m with headerSent := true, output := q } :=
      writes_of_eq rfl rfl
    cases d with
    | str s => exact (hsent m.output).trans (writes_writeRaw _ _ e)
    | buf b => exact (hsent _).trans (writes_writeRaw _ _ e)

/-- The connection is corked, or uncorked. -/
lemma writes_corked (m : OutgoingMessage) (f : ℕ → ℕ) :
    Writes m { m with
      connection := m.connection.map fun c => { c with corked := f c.corked } } := by
  refine ⟨fun h => ?_, fun c h => ⟨f c.corked, [], ?_, fun hne => absurd rfl hne⟩, rfl⟩
  · rw [h]
    rfl
  · rw [h, List.append_nil]
    rfl

lemma writes_sendParts (m : OutgoingMessage) (chunk : Data) :
    Writes m (m.sendParts chunk).1 := by
  have hcork : Writes m m.cork := writes_corked m (· + 1)
  have hsend := (((hcork.trans (writes_send _ (.str (toString16 chunk.length)) none)).trans
    (writes_send _ crlfBuf none)).trans (writes_send _ chunk none)).trans
      (writes_send _ crlfBuf none)
  exact hsend.trans (writes_corked _ (· - 1))

lemma writes_write (m : OutgoingMessage) (chunk : Data) (e : EncArg) :
    Writes m (OutgoingMessage.write id m chunk e).1 := by
  unfold OutgoingMessage.write
  rw [id, ite_self]
  dsimp only
  split_ifs
  · exact .refl m
  · exact .refl m
  · cases chunk with
    | str s => exact writes_sendParts m _
    | buf b => exact writes_sendParts m _
  · cases chunk with
    | str s => exact writes_send m _ e
    | buf b => exact writes_sendParts m _
  · exact writes_send m chunk e

/-- How a function of the message may end, with the event it emits. -/
inductive Ends (m' : OutgoingMessage) : Prop
  | quietly (h : m'.emitted = [] ∨ m'.emitted = [.threw] ∨ m'.emitted = [.drain])
  | finishing (h : m'.emitted = [.finish]) (finished : m'.finished = true) (output : m'.output = [])
      (connection : m'.connection.isSome = true)

/-- A function that writes, and then emits an event. -/
structure Runs (m m' : OutgoingMessage) : Prop where
  before : ∃ m₁ : OutgoingMessage, Writes m m₁ ∧ m'.connection = m₁.connection
  ends : m.emitted = [] → Ends m'

lemma Writes.runs {m m' : OutgoingMessage} (h : Writes m m') : Runs m m' where
  before := ⟨m', h, rfl⟩
  ends he := .quietly (.inl (h.emitted.trans he))

lemma runs_finishIfOut {m m' : OutgoingMessage} (h : Writes m m') :
    Runs m { m' with finished := true }.finishIfOut := by
  have hquiet (he : m.emitted = []) : m'.emitted = [] := h.emitted.trans he
  unfold OutgoingMessage.finishIfOut
  by_cases hout : m'.output = []
  · rw [if_neg (not_not.mpr hout)]
    cases hc : m'.connection with
    | none =>
      refine ⟨⟨m', h, hc.symm⟩, fun he => .quietly (.inr (.inl ?_))⟩
      show m'.emitted ++ [_] = [_]
      rw [hquiet he, List.nil_append]
    | some c =>
      dsimp only
      split_ifs
      · refine ⟨⟨m', h, hc.symm⟩, fun he => .finishing ?_ rfl hout ?_⟩
        · show m'.emitted ++ [_] = [_]
          rw [hquiet he, List.nil_append]
        · rfl
      · exact ⟨⟨m', h, hc.symm⟩, fun he => .quietly (.inl (hquiet he))⟩
  · rw [if_pos hout]
    exact ⟨⟨m', h, rfl⟩, fun he => .quietly (.inl (hquiet he))⟩

lemma runs_end (m : OutgoingMessage) (data : Option Data) (e : EncArg) :
    Runs m (OutgoingMessage.end id m data e).1 := by
  unfold OutgoingMessage.end
  by_cases hfinished : m.finished = true
  · rw [if_pos hfinished]
    exact (Writes.refl m).runs
  rw [if_neg hfinished, id, ite_self]
  dsimp only
  refine runs_finishIfOut ?_
  have hcork : Writes m m.cork := writes_corked m (· + 1)
  have hlast (m : OutgoingMessage) : Writes m (if m.chunkedEncoding then
      m.send (.str (js "0\r\n" ++ m.trailer ++ js "\r\n")) none else m.send (.str []) none).1 := by
    split_ifs
    · exact writes_send m _ none
    · exact writes_send m _ none
  cases if m.hasBody then OutgoingMessage.given data else none with
  | none => exact hlast m
  | some d =>
    exact ((hcork.trans (writes_write m.cork d e)).trans (hlast _)).trans (writes_corked _ (· - 1))

lemma runs_flush (m : OutgoingMessage) : Runs m m.flush := by
  unfold OutgoingMessage.flush
  cases hc : m.connection with
  | none => exact (Writes.refl m).runs
  | some c =>
    obtain ⟨ws, hshift, hws⟩ := shiftOut_writes c m.output
    have hwrites : Writes m { m with
        connection := some (shiftOut c m.output).1, output := (shiftOut c m.output).2 } := by
      refine ⟨fun h => ?_, fun c' h => ?_, rfl⟩
      · rw [hc] at h
        cases h
      · obtain rfl : c = c' := Option.some.inj (hc.symm.trans h)
        exact ⟨c.corked, ws, congrArg some hshift, hws⟩
    dsimp only
    by_cases hout : (shiftOut c m.output).2 = []
    · rw [if_neg (not_not.mpr hout)]
      split_ifs with hfinished
      · refine ⟨⟨_, hwrites, rfl⟩, fun he => .finishing ?_ hfinished hout rfl⟩
        show m.emitted ++ [_] = [_]
        rw [he, List.nil_append]
      · refine ⟨⟨_, hwrites, rfl⟩, fun he => .quietly (.inr (.inr ?_))⟩
        show m.emitted ++ [_] = [_]
        rw [he, List.nil_append]
      · exact hwrites.runs
    · rw [if_pos hout]
      exact hwrites.runs

/-! ### Responses -/

lemma writes_storeHeader (m : Message) (firstLine : Str) (headers : Headers) (date : Str) :
    Writes m.toOutgoingMessage (m.storeHeader firstLine headers date).toOutgoingMessage := by
  obtain ⟨c, hc⟩ := composeHeader_frame m firstLine headers date
  have hstored (text : Str) : Writes m.toOutgoingMessage
      { (m.composeHeader firstLine headers date).1.toOutgoingMessage with
        header := text, headerSent := false } := by
    rw [hc]
    exact writes_of_eq rfl rfl
  unfold Message.storeHeader
  dsimp only
  split_ifs
  · exact (hstored _).trans (writes_send _ _ none)
  · exact hstored _

lemma writes_writeHead (r : ServerResponse) (date : Str) (code : ℕ) (reason : Option Str)
    (obj : Option HeadersArg) :
    Writes r.toOutgoingMessage ((r.writeHead date code reason obj).getD r).toOutgoingMessage := by
  have hstore (m : Message) (headers : Headers) (hc : m.connection = r.connection)
      (he : m.emitted = r.emitted) : Writes r.toOutgoingMessage
        (m.storeHeader (ServerResponse.statusLine code reason) headers date).toOutgoingMessage :=
    (writes_of_eq hc he).trans (writes_storeHeader m _ headers date)
  unfold ServerResponse.writeHead
  cases r.allHeaders obj with
  | none => exact .refl _
  | some headers => exact hstore _ headers rfl rfl

lemma writes_implicitHeader (r : ServerResponse) (date : Str) :
    Writes r.toOutgoingMessage (r.implicitHeader date).toOutgoingMessage := by
  unfold ServerResponse.implicitHeader
  split_ifs
  · exact writes_writeHead r date _ none none
  · exact .refl _

lemma writes_writeContinue (r : ServerResponse) :
    Writes r.toOutgoingMessage r.writeContinue.toOutgoingMessage := writes_writeRaw _ _ _

/-- All calls but `end` only write. -/
lemma writes_call (date : Str) (r : ServerResponse) (c : Call)
    (hc : ∀ data e, c ≠ .end data e) :
    Writes r.toOutgoingMessage (c.run date r).toOutgoingMessage := by
  cases c with
  | setHeader name value =>
    unfold Call.run ServerResponse.setHeader
    dsimp only
    split_ifs
    · exact .refl _
    · exact writes_of_eq rfl rfl
    · exact writes_of_eq rfl rfl
  | removeHeader name =>
    unfold Call.run ServerResponse.removeHeader
    dsimp only
    split_ifs
    · exact .refl _
    · exact writes_of_eq rfl rfl
  | statusCode code => exact writes_of_eq rfl rfl
  | addTrailers headers => exact writes_of_eq rfl rfl
  | writeContinue => exact writes_writeContinue r
  | writeHead code reason obj => exact writes_writeHead r date code reason obj
  | write chunk e => exact (writes_implicitHeader r date).trans (writes_write _ chunk e)
  | «end» data e => exact absurd rfl (hc data e)

lemma Writes.andRuns {m m' m'' : OutgoingMessage} (h : Writes m m') (h' : Runs m' m'') :
    Runs m m'' where
  before := by
    obtain ⟨m₁, h₁, hc⟩ := h'.before
    exact ⟨m₁, h.trans h₁, hc⟩
  ends he := h'.ends (h.emitted.trans he)

lemma runs_call (date : Str) (r : ServerResponse) (c : Call) :
    Runs r.toOutgoingMessage (c.run date r).toOutgoingMessage := by
  cases c with
  | «end» data e =>
    unfold Call.run ServerResponse.end
    dsimp only
    split_ifs
    · exact (Writes.refl _).runs
    · exact (writes_implicitHeader r date).andRuns (runs_end _ data e)
  | _ => exact (writes_call date r _ fun data e h => by cases h).runs


end NodeCore.HttpPipeline
