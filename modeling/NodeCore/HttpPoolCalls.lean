import NodeCore.HttpAgent
import NodeCore.HttpFraming

/-!
What a call of a request does to its connection, and where that leaves the log of the socket.
-/

namespace NodeCore.HttpAgent

open NodeCore.Encoding NodeCore.HttpOutgoing NodeCore.HttpOutput NodeCore.HttpFraming

/-! ### Blocks -/

section Blocks

variable {κ α : Type*} [DecidableEq κ]

/-- The entries of each key stand together, in the order of the keys. -/
def Blocks (ks : List κ) (l : List (κ × α)) : Prop :=
  l = ks.flatMap fun k => l.filter fun e => e.1 = k

lemma Blocks.mem {ks : List κ} {l : List (κ × α)} (h : Blocks ks l) {e : κ × α} (he : e ∈ l) :
    e.1 ∈ ks := by
  rw [h] at he
  obtain ⟨k, hk, he⟩ := List.mem_flatMap.mp he
  have hkey : e.1 = k := by simpa using (List.mem_filter.mp he).2
  exact hkey ▸ hk

/-- A key without entries. -/
lemma Blocks.concat {ks : List κ} {l : List (κ × α)} (h : Blocks ks l) {k : κ} (hk : k ∉ ks) :
    Blocks (ks ++ [k]) l := by
  have hnone : (l.filter fun e => e.1 = k) = [] := by
    rw [List.filter_eq_nil_iff]
    intro e he hkey
    have hkey : e.1 = k := by simpa using hkey
    exact hk (hkey ▸ h.mem he)
  unfold Blocks
  rw [List.flatMap_append, List.flatMap_singleton, hnone, List.append_nil]
  exact h

/-- More entries of the last key. -/
lemma Blocks.append {ks : List κ} {k : κ} {l : List (κ × α)} (h : Blocks (ks ++ [k]) l)
    (hk : k ∉ ks) (es : List α) : Blocks (ks ++ [k]) (l ++ es.map fun e => (k, e)) := by
  have hother : ∀ k' ∈ ks, (l ++ es.map fun e => (k, e)).filter (fun e => e.1 = k') =
      l.filter fun e => e.1 = k' := by
    intro k' hk'
    have hne : k ≠ k' := fun heq => hk (heq ▸ hk')
    rw [List.filter_append, List.append_right_eq_self, List.filter_eq_nil_iff]
    intro e he hkey
    obtain ⟨a, -, rfl⟩ := List.mem_map.mp he
    exact hne (by simpa using hkey)
  have hown : (es.map fun e => (k, e)).filter (fun e => e.1 = k) = es.map fun e => (k, e) := by
    rw [List.filter_eq_self]
    intro e he
    obtain ⟨a, -, rfl⟩ := List.mem_map.mp he
    simp
  unfold Blocks at h ⊢
  rw [List.flatMap_append, List.flatMap_singleton] at h ⊢
  rw [List.flatMap_congr hother, List.filter_append, hown, ← List.append_assoc, ← h]

end Blocks

/-! ### Requests that have given their socket away -/

/-- The connection belongs to another message, and has nothing of this one. -/
def Away (m : OutgoingMessage) : Prop :=
  ∀ c, m.connection = some c → c.mine = false ∧ c.written = []

namespace Away

variable {m : OutgoingMessage}

lemma of_eq (h : Away m) {m' : OutgoingMessage} (hc : m'.connection = m.connection) : Away m' := by
  intro c hc'
  exact h c (hc ▸ hc')

lemma map (h : Away m) {f : Connection → Connection}
    (hf : ∀ c, (f c).mine = c.mine ∧ (f c).written = c.written) :
    Away { m with connection := m.connection.map f } := by
  intro c' hc'
  obtain ⟨c, hc, rfl⟩ := Option.map_eq_some_iff.mp hc'
  obtain ⟨hmine, hwritten⟩ := hf c
  rw [hmine, hwritten]
  exact h c hc

lemma writeRaw (h : Away m) (d : Data) (e : EncArg) : Away (m.writeRaw d e).1 := by
  refine h.of_eq ?_
  unfold OutgoingMessage.writeRaw
  split_ifs
  · rfl
  · cases hc : m.connection with
    | none => exact (buffer_connection m d e).trans hc
    | some c =>
      simp only [(h c hc).1, Bool.false_and, Bool.false_eq_true, if_false]
      split_ifs
      · exact hc
      · exact (buffer_connection m d e).trans hc

lemma send (h : Away m) (d : Data) (e : EncArg) : Away (m.send d e).1 := by
  unfold OutgoingMessage.send
  split_ifs
  · exact h.writeRaw d e
  · cases d with
    | str s => exact writeRaw (m := { m with headerSent := true }) h _ _
    | buf b =>
      exact writeRaw (m := { m with
        headerSent := true
        output := (.str m.header, some (js "ascii")) :: m.output }) h _ _

lemma cork (h : Away m) : Away m.cork := h.map fun _ => ⟨rfl, rfl⟩

lemma uncork (h : Away m) : Away m.uncork := h.map fun _ => ⟨rfl, rfl⟩

lemma sendParts (h : Away m) (chunk : Data) : Away (m.sendParts chunk).1 :=
  ((((h.cork.send _ _).send _ _).send _ _).send _ _).uncork

lemma write (h : Away m) (chunk : Data) (encoding : EncArg) :
    Away (OutgoingMessage.write id m chunk encoding).1 := by
  unfold OutgoingMessage.write
  rw [id_eq, ite_self]
  dsimp only
  split_ifs
  · exact h
  · exact h
  · split
    · exact h.sendParts _
    · exact h.sendParts _
  · split
    · exact h.send _ _
    · exact h.sendParts _
  · exact h.send _ _

lemma finishIfOut (h : Away m) : Away m.finishIfOut := by
  refine h.of_eq ?_
  unfold OutgoingMessage.finishIfOut
  split_ifs
  · rfl
  · split
    · rfl
    · split_ifs <;> rfl

lemma «end» (h : Away m) (data : Option Data) (encoding : EncArg) :
    Away (OutgoingMessage.end id m data encoding).1 := by
  unfold OutgoingMessage.end
  rw [id_eq, ite_self]
  split_ifs with hfinished
  · exact h
  · dsimp only
    have hlast (m' : OutgoingMessage) (h' : Away m') : Away (if m'.chunkedEncoding then
        m'.send (.str (js "0\r\n" ++ m'.trailer ++ js "\r\n")) none
        else m'.send (.str []) none).1 := by
      split_ifs
      · exact h'.send _ _
      · exact h'.send _ _
    generalize (if m.hasBody then OutgoingMessage.given data else none) = body
    cases body with
    | none => exact finishIfOut (of_eq (hlast m h) rfl)
    | some d => exact finishIfOut (of_eq (hlast _ (h.cork.write d encoding)).uncork rfl)

lemma storeHeader {m : Message} (h : Away m.toOutgoingMessage) (firstLine : Str)
    (headers : Headers) (date : Str) :
    Away (m.storeHeader firstLine headers date).toOutgoingMessage := by
  obtain ⟨c, hc⟩ := composeHeader_frame m firstLine headers date
  have hstored : Away { (m.composeHeader firstLine headers date).1.toOutgoingMessage with
      header := (m.composeHeader firstLine headers date).2.messageHeader ++ crlf
      headerSent := false } := by
    rw [hc]
    exact h
  unfold Message.storeHeader
  dsimp only
  split_ifs
  · exact hstored.send _ _
  · exact hstored

end Away

/-! ### Methods -/

/-- What the agent reads is left alone. -/
structure Frame (f : ClientRequest → ClientRequest) : Prop where
  name : ∀ r, (f r).name = r.name
  socket : ∀ r, (f r).socket = r.socket
  res : ∀ r, (f r).res = r.res
  responding : ∀ r, (f r).responding = r.responding
  complete : ∀ r, (f r).complete = r.complete

/-- A method that writes to no connection that is not the request's own. -/
structure Method (f : ClientRequest → ClientRequest) : Prop extends Frame f where
  away : ∀ r : ClientRequest, Away r.toOutgoingMessage → Away (f r).toOutgoingMessage

namespace Method

lemma implicitHeader : Method ClientRequest.implicitHeader := by
  have heq (r : ClientRequest) : ∃ m : Message, r.implicitHeader = { r with toMessage := m } ∧
      (Away r.toOutgoingMessage → Away m.toOutgoingMessage) := by
    unfold ClientRequest.implicitHeader
    split_ifs
    · exact ⟨_, rfl, fun h => h.storeHeader _ _ _⟩
    · exact ⟨_, rfl, id⟩
  refine ⟨⟨fun r => ?_, fun r => ?_, fun r => ?_, fun r => ?_, fun r => ?_⟩, fun r => ?_⟩
  all_goals
    obtain ⟨m, hm, haway⟩ := heq r
    rw [hm]
  exact haway

lemma setHeaders (headers : Headers) : Method (·.setHeaders headers) := by
  have heq (r : ClientRequest) : ∃ hs, r.setHeaders headers = { r with headers := hs } := by
    unfold ClientRequest.setHeaders
    split_ifs
    · exact ⟨_, rfl⟩
    · exact ⟨_, rfl⟩
  refine ⟨⟨fun r => ?_, fun r => ?_, fun r => ?_, fun r => ?_, fun r => ?_⟩, fun r => ?_⟩
  all_goals
    obtain ⟨hs, h⟩ := heq r
    rw [h]
  exact id

lemma addTrailers (headers : List (Str × Str)) : Method (·.addTrailers headers) where
  name _ := rfl
  socket _ := rfl
  res _ := rfl
  responding _ := rfl
  complete _ := rfl
  away _ h := h

lemma write (chunk : Data) (encoding : EncArg) : Method (·.write chunk encoding) where
  name r := implicitHeader.name r
  socket r := implicitHeader.socket r
  res r := implicitHeader.res r
  responding r := implicitHeader.responding r
  complete r := implicitHeader.complete r
  away r h := (implicitHeader.away r h).write chunk encoding

lemma «end» (data : Option Data) (encoding : EncArg) : Method (·.end data encoding) := by
  refine ⟨⟨fun r => ?_, fun r => ?_, fun r => ?_, fun r => ?_, fun r => ?_⟩, fun r h => ?_⟩
  all_goals
    unfold ClientRequest.end
    split_ifs
  exacts [rfl, implicitHeader.name r, rfl, implicitHeader.socket r, rfl, implicitHeader.res r, rfl,
    implicitHeader.responding r, rfl, implicitHeader.complete r, h,
    (implicitHeader.away r h).end data encoding]

end Method

lemma frame_deferToConnect : Frame ClientRequest.deferToConnect := by
  have heq (r : ClientRequest) : ∃ m : OutgoingMessage,
      r.deferToConnect = { r with toOutgoingMessage := m } := by
    unfold ClientRequest.deferToConnect
    split
    · exact ⟨_, rfl⟩
    · split_ifs
      · exact ⟨_, rfl⟩
      · exact ⟨_, rfl⟩
  refine ⟨fun r => ?_, fun r => ?_, fun r => ?_, fun r => ?_, fun r => ?_⟩
  all_goals
    obtain ⟨m, hm⟩ := heq r
    rw [hm]

end NodeCore.HttpAgent
