import Mathlib.Data.List.TakeDrop
import Mathlib.Data.List.GetD
import Mathlib.Data.Nat.Notation
import Mathlib.Tactic.SplitIfs

/-!
The parser that looks for the session id of a client before OpenSSL sees its first message.
`Write` collects the bytes in `data_` and reads the lengths it needs out of them.
-/

namespace NodeCore.ClientHello

/-! ### The parser -/

/-- `sizeof(data_)`. -/
def capacity : ℕ := 18432

def kChangeCipherSpec : UInt8 := 20
def kAlert : UInt8 := 21
def kHandshake : UInt8 := 22
def kApplicationData : UInt8 := 23
def kClientHello : UInt8 := 1

inductive ParseState
  | kWaiting | kTLSHeader | kSSLHeader | kPaused | kEnded
  deriving DecidableEq

open ParseState

structure Parser where
  state_ : ParseState
  frame_len_ : ℕ
  data_ : ℕ → UInt8
  offset_ : ℕ
  body_offset_ : ℕ

/-- The constructor leaves `frame_len_` and `data_` as they lie in memory. -/
def clientHelloParser (frame_len : ℕ) (data : ℕ → UInt8) : Parser :=
  { state_ := kWaiting, frame_len_ := frame_len, data_ := data, offset_ := 0, body_offset_ := 0 }

inductive Output
  /-- `Write` returns. `hello` is where the id of the callback begins and the bytes of it, `bio`
  what has been passed on to OpenSSL. -/
  | write (copied : ℕ) (hello : Option (ℕ × List UInt8)) (bio : Option (List UInt8))
  | finish (bio : List UInt8)
  /-- The assertion of `Finish`. -/
  | abort
  deriving DecidableEq

namespace Parser

/-- The bytes of `data_` from `i`. -/
def slice (p : Parser) (i n : ℕ) : List UInt8 := (List.range n).map fun j => p.data_ (i + j)

/-- Two bytes as a number. -/
def pair (p : Parser) (i : ℕ) : ℕ := ((p.data_ i).toNat <<< 8) + (p.data_ (i + 1)).toNat

/-- What is passed on when all is left to OpenSSL, and the parser then. -/
def ending (p : Parser) : List UInt8 × Parser := (p.slice 0 p.offset_, { p with state_ := kEnded })

def finish (p : Parser) : Option (Output × Parser) :=
  if p.state_ = kEnded then none else some (.finish p.ending.1, p.ending.2)

/-- The bytes that still fit. -/
def fitting (p : Parser) (data : List UInt8) : List UInt8 := data.take (capacity - p.offset_)

def memcpy (p : Parser) (data : List UInt8) : Parser :=
  { p with
    data_ := fun i =>
      if p.offset_ ≤ i ∧ i < p.offset_ + (p.fitting data).length
      then (p.fitting data).getD (i - p.offset_) 0 else p.data_ i
    offset_ := p.offset_ + (p.fitting data).length }

def readHeader (p : Parser) : Parser :=
  if p.data_ 0 = kChangeCipherSpec ∨ p.data_ 0 = kAlert ∨ p.data_ 0 = kHandshake ∨
      p.data_ 0 = kApplicationData then
    { p with frame_len_ := p.pair 3, state_ := kTLSHeader, body_offset_ := 5 }
  else
    { p with
      frame_len_ := p.pair 0
      state_ := kSSLHeader
      body_offset_ := if p.data_ 0 &&& 0x40 ≠ 0 then 3 else 2 }

/-- `session_id` as its distance from `data_`, and `session_size`; nothing for `NULL`. -/
def session (p : Parser) : Option (ℕ × UInt8) :=
  if p.state_ = kTLSHeader then
    let session_offset := p.body_offset_ + 4 + 2 + 32
    if session_offset + 1 < p.offset_ then some (session_offset + 1, p.data_ session_offset)
    else none
  else
    let session_offset := p.body_offset_ + 3
    if session_offset + 4 < p.offset_ then
      let ciphers_size := p.pair session_offset
      if session_offset + 4 + ciphers_size < p.offset_ then
        -- The assignment keeps the low byte of the two.
        some (session_offset + 4 + ciphers_size, UInt8.ofNat (p.pair (session_offset + 2)))
      else none
    else none

/-- The cases `kTLSHeader` and `kSSLHeader`. -/
def readFrame (p : Parser) (copied : ℕ) : Output × Parser :=
  if p.offset_ < p.body_offset_ + p.frame_len_ then (.write copied none none, p)
  else if p.data_ p.body_offset_ = kClientHello then
    match p.session with
    | none => (.write copied none (some p.ending.1), p.ending.2)
    | some (session_id, session_size) =>
      if 32 < session_size.toNat ∨ p.offset_ < session_id + session_size.toNat then
        (.write copied none (some p.ending.1), p.ending.2)
      else
        (.write copied (some (session_id, p.slice session_id session_size.toNat)) none,
          { p with state_ := kPaused })
  else (.write copied none (some p.ending.1), p.ending.2)

def write (p : Parser) (data : List UInt8) : Output × Parser :=
  if p.state_ = kPaused then (.write 0 none none, p)
  else
    let copied := (p.fitting data).length
    let p := p.memcpy data
    match p.state_ with
    | kWaiting =>
      if p.offset_ < 5 then (.write copied none none, p)
      else
        let p := p.readHeader
        if capacity ≤ p.frame_len_ then (.write copied none (some p.ending.1), p.ending.2)
        else p.readFrame copied
    | kTLSHeader | kSSLHeader => p.readFrame copied
    | kPaused | kEnded => (.write copied none none, p)

end Parser

/-- Bytes come in, or the callback has been answered with `loadSession`. -/
inductive Call
  | write (data : List UInt8)
  | finish

def Parser.step (p : Parser) : Call → Option (Output × Parser)
  | .write data => some (p.write data)
  | .finish => p.finish

def Parser.run (p : Parser) : List Call → List Output
  | [] => []
  | c :: cs =>
    match p.step c with
    | none => [.abort]
    | some (o, p) => o :: p.run cs

/-! ### The claim -/

/-- The bytes of a call that the parser has taken. -/
def taken : Call → Output → List UInt8
  | .write data, .write copied _ _ => data.take copied
  | _, _ => []

/-- `data_[0 .. offset_)` after the first `n` calls. -/
def received (cs : List Call) (outs : List Output) (n : ℕ) : List UInt8 :=
  (List.zipWith taken (cs.take n) (outs.take n)).flatten

/-- The byte at `i` of what has been received. -/
def byte (r : List UInt8) (i : ℕ) : UInt8 := r.getD i 0

def number (r : List UInt8) (i : ℕ) : ℕ := (byte r i).toNat * 256 + (byte r (i + 1)).toNat

/-- The message has the header of TLS. -/
def tls (r : List UInt8) : Prop :=
  byte r 0 = kChangeCipherSpec ∨ byte r 0 = kAlert ∨ byte r 0 = kHandshake ∨
    byte r 0 = kApplicationData

instance (r : List UInt8) : Decidable (tls r) := by unfold tls; infer_instance

def bodyOffset (r : List UInt8) : ℕ :=
  if tls r then 5 else if byte r 0 &&& 0x40 ≠ 0 then 3 else 2

def frameLength (r : List UInt8) : ℕ := if tls r then number r 3 else number r 0

/-- The field of the message that says how long the session id is. -/
def sessionIdLength (r : List UInt8) : ℕ :=
  if tls r then (byte r 43).toNat else number r (bodyOffset r + 5)

/-- An id that begins at `start` has been handed to the callback when `r` was received. -/
structure HelloOk (r : List UInt8) (start : ℕ) (sessionId : List UInt8) : Prop where
  inside : start + sessionId.length ≤ r.length
  bytes : sessionId = (r.drop start).take sessionId.length
  size : sessionId.length = sessionIdLength r

/-- **What is claimed.** What lies in memory before makes no difference, and every id that is
handed over is one of the message, whole. -/
structure Sound (cs : List Call) : Prop where
  blind : ∀ frame_len data frame_len' data',
    (clientHelloParser frame_len data).run cs = (clientHelloParser frame_len' data').run cs
  hello : ∀ frame_len data outs n copied start sessionId bio,
    (clientHelloParser frame_len data).run cs = outs →
    outs[n]? = some (.write copied (some (start, sessionId)) bio) →
    HelloOk (received cs outs (n + 1)) start sessionId

/-- All that the header announces is there. -/
def Framed (r : List UInt8) : Prop :=
  5 ≤ r.length ∧ frameLength r < capacity ∧ bodyOffset r + frameLength r ≤ r.length

/-- Where the session id lies: in TLS behind its length, else behind the ciphers. -/
def idStart (r : List UInt8) : ℕ :=
  if tls r then 44 else bodyOffset r + 7 + number r (bodyOffset r + 3)

/-- A hello without the header of TLS, whose length field says more than a byte can hold; what the
low byte says is at most 32 and is there. -/
structure Overlong (r : List UInt8) : Prop where
  header : ¬ tls r
  kind : byte r (bodyOffset r) = kClientHello
  high : 256 ≤ sessionIdLength r
  low : sessionIdLength r % 256 ≤ 32
  start : idStart r < r.length
  there : idStart r + sessionIdLength r % 256 ≤ r.length

/-- The bytes that a parser has room for. -/
def sent (writes : List (List UInt8)) : List UInt8 := writes.flatten.take capacity

/-- One of the writes completes the first frame, and with it an overlong hello. -/
def Narrowed (cs : List Call) : Prop :=
  ∃ writes data post, cs = writes.map Call.write ++ Call.write data :: post ∧
    ¬ Framed (sent writes) ∧ Framed (sent (writes ++ [data])) ∧ Overlong (sent (writes ++ [data]))

/-! ### The parser as a reader of lists -/

inductive Verdict
  | wait
  | pass
  | hello (start : ℕ) (sessionId : List UInt8)

/-- What is decided once `r` is there and nothing has been decided before. -/
def verdict (r : List UInt8) : Verdict :=
  if r.length < 5 then .wait
  else if capacity ≤ frameLength r then .pass
  else if r.length < bodyOffset r + frameLength r then .wait
  else if byte r (bodyOffset r) = kClientHello ∧ idStart r < r.length ∧
      sessionIdLength r % 256 ≤ 32 ∧ idStart r + sessionIdLength r % 256 ≤ r.length then
    .hello (idStart r) ((r.drop (idStart r)).take (sessionIdLength r % 256))
  else .pass

inductive Reader
  | listening (r : List UInt8)
  | paused (r : List UInt8)
  | ended (r : List UInt8)

/-- The bytes of `data` for which there is room behind `r`. -/
def room (r data : List UInt8) : List UInt8 := data.take (capacity - r.length)

namespace Reader

def step : Reader → Call → Option (Output × Reader)
  | .listening r, .write data =>
    match verdict (r ++ room r data) with
    | .wait => some (.write (room r data).length none none, .listening (r ++ room r data))
    | .pass =>
      some (.write (room r data).length none (some (r ++ room r data)), .ended (r ++ room r data))
    | .hello start sessionId =>
      some (.write (room r data).length (some (start, sessionId)) none, .paused (r ++ room r data))
  | .paused r, .write _ => some (.write 0 none none, .paused r)
  | .ended r, .write data =>
    some (.write (room r data).length none none, .ended (r ++ room r data))
  | .listening r, .finish => some (.finish r, .ended r)
  | .paused r, .finish => some (.finish r, .ended r)
  | .ended _, .finish => none

def run (s : Reader) : List Call → List Output
  | [] => []
  | c :: cs =>
    match s.step c with
    | none => [.abort]
    | some (o, s) => o :: s.run cs

end Reader

/-- The buffer holds `r`. -/
structure Holds (p : Parser) (r : List UInt8) : Prop where
  offset : p.offset_ = r.length
  data : ∀ i < r.length, p.data_ i = byte r i

/-- The header of `r` has been read. -/
structure Header (p : Parser) (r : List UInt8) : Prop where
  state : p.state_ = if tls r then kTLSHeader else kSSLHeader
  frame : p.frame_len_ = frameLength r
  body : p.body_offset_ = bodyOffset r

/-- The parser does as the reader does. -/
inductive Shows (p : Parser) : Reader → Prop
  | early {r} (holds : Holds p r) (short : r.length < 5) (state : p.state_ = kWaiting) :
      Shows p (.listening r)
  | header {r} (holds : Holds p r) (long : 5 ≤ r.length) (read : Header p r)
      (fits : frameLength r < capacity) : Shows p (.listening r)
  | paused {r} (holds : Holds p r) (state : p.state_ = kPaused) : Shows p (.paused r)
  | ended {r} (holds : Holds p r) (state : p.state_ = kEnded) : Shows p (.ended r)

/-! ### What is read is there -/

lemma byte_append {r x : List UInt8} {i : ℕ} (h : i < r.length) : byte (r ++ x) i = byte r i :=
  List.getD_append r x 0 i h

lemma Holds.pair {p : Parser} {r : List UInt8} (h : Holds p r) {i : ℕ} (hi : i + 1 < r.length) :
    p.pair i = number r i := by
  rw [Parser.pair, number, h.data i (by omega), h.data (i + 1) hi, Nat.shiftLeft_eq]

lemma Holds.slice {p : Parser} {r : List UInt8} (h : Holds p r) {i n : ℕ}
    (hi : i + n ≤ r.length) : p.slice i n = (r.drop i).take n := by
  apply List.ext_getElem
  · simp only [Parser.slice, List.length_map, List.length_range, List.length_take,
      List.length_drop]
    omega
  · intro j hj hj'
    have hjn : j < n := by simpa [Parser.slice] using hj
    have hlt : i + j < r.length := by omega
    simp only [Parser.slice, List.getElem_map, List.getElem_range, List.getElem_take,
      List.getElem_drop]
    rw [h.data _ hlt, byte, List.getD_eq_getElem r 0 hlt]

lemma Holds.all {p : Parser} {r : List UInt8} (h : Holds p r) : p.slice 0 p.offset_ = r := by
  rw [h.slice (by rw [h.offset]; omega), h.offset, List.drop_zero, List.take_length]

lemma Holds.fitting {p : Parser} {r : List UInt8} (h : Holds p r) (data : List UInt8) :
    p.fitting data = room r data := by rw [Parser.fitting, room, h.offset]

/-- Holding does not depend on the state, the header or the frame. -/
lemma Holds.of_eq {p q : Parser} {r : List UInt8} (h : Holds p r) (ho : q.offset_ = p.offset_)
    (hd : q.data_ = p.data_) : Holds q r :=
  ⟨ho.trans h.offset, fun i hi => by rw [hd]; exact h.data i hi⟩

lemma Holds.memcpy {p : Parser} {r : List UInt8} (h : Holds p r) (data : List UInt8) :
    Holds (p.memcpy data) (r ++ room r data) := by
  constructor
  · rw [Parser.memcpy, h.fitting, h.offset, List.length_append]
  · intro i hi
    rw [List.length_append] at hi
    simp only [Parser.memcpy, h.fitting, h.offset, byte]
    by_cases hir : i < r.length
    · rw [if_neg (by omega), List.getD_append _ _ _ _ hir]
      exact h.data i hir
    · rw [if_pos ⟨by omega, by omega⟩, List.getD_append_right _ _ _ _ (by omega)]

/-! ### The header -/

section
variable {r x : List UInt8} (h : 5 ≤ r.length)
include h

lemma tls_append : tls (r ++ x) ↔ tls r := by
  rw [tls, tls, byte_append (by omega)]

lemma number_append {i : ℕ} (hi : i < 4) : number (r ++ x) i = number r i := by
  rw [number, number, byte_append (by omega), byte_append (by omega)]

lemma bodyOffset_append : bodyOffset (r ++ x) = bodyOffset r := by
  simp only [bodyOffset, tls_append h, byte_append (show 0 < r.length by omega)]

lemma frameLength_append : frameLength (r ++ x) = frameLength r := by
  simp only [frameLength, tls_append h, number_append h (show 3 < 4 by omega),
    number_append h (show 0 < 4 by omega)]

end

lemma Header.append {p q : Parser} {r x : List UInt8} (h : Header p r) (hr : 5 ≤ r.length)
    (hs : q.state_ = p.state_) (hf : q.frame_len_ = p.frame_len_)
    (hb : q.body_offset_ = p.body_offset_) : Header q (r ++ x) := by
  refine ⟨?_, ?_, ?_⟩
  · simp only [hs, h.state, tls_append hr]
  · rw [hf, h.frame, frameLength_append hr]
  · rw [hb, h.body, bodyOffset_append hr]

lemma Holds.readHeader {p : Parser} {r : List UInt8} (h : Holds p r) (hr : 5 ≤ r.length) :
    Holds p.readHeader r ∧ Header p.readHeader r := by
  have h0 : p.data_ 0 = byte r 0 := h.data 0 (by omega)
  by_cases ht : tls r
  · have hcond := ht
    rw [tls, ← h0] at hcond
    rw [Parser.readHeader, if_pos hcond]
    refine ⟨h.of_eq rfl rfl, ?_, ?_, ?_⟩
    · rw [if_pos ht]
    · rw [frameLength, if_pos ht]
      exact h.pair (by omega)
    · rw [bodyOffset, if_pos ht]
  · have hcond := ht
    rw [tls, ← h0] at hcond
    rw [Parser.readHeader, if_neg hcond]
    refine ⟨h.of_eq rfl rfl, ?_, ?_, ?_⟩
    · rw [if_neg ht]
    · rw [frameLength, if_neg ht]
      exact h.pair (by omega)
    · rw [bodyOffset, if_neg ht, ← h0]

lemma bodyOffset_le (r : List UInt8) : bodyOffset r ≤ 5 := by
  unfold bodyOffset
  split_ifs <;> omega

/-! ### The session id -/

lemma Holds.session {p : Parser} {r : List UInt8} (h : Holds p r) (hd : Header p r) :
    p.session = if idStart r < r.length
      then some (idStart r, UInt8.ofNat (sessionIdLength r)) else none := by
  by_cases ht : tls r
  · have hs : p.state_ = kTLSHeader := by rw [hd.state, if_pos ht]
    have hb : p.body_offset_ = 5 := by rw [hd.body, bodyOffset, if_pos ht]
    have hi : idStart r = 44 := by rw [idStart, if_pos ht]
    rw [Parser.session, if_pos hs, hi]
    simp only [hb, h.offset]
    by_cases hlen : 44 < r.length
    · rw [if_pos hlen, if_pos hlen, h.data 43 (by omega), sessionIdLength, if_pos ht,
        UInt8.ofNat_toNat]
    · rw [if_neg hlen, if_neg hlen]
  · have hs : p.state_ ≠ kTLSHeader := by rw [hd.state, if_neg ht]; nofun
    have hi : idStart r = bodyOffset r + 7 + number r (bodyOffset r + 3) := by
      rw [idStart, if_neg ht]
    rw [Parser.session, if_neg hs]
    simp only [hd.body, h.offset]
    by_cases hlen : bodyOffset r + 3 + 4 < r.length
    · have hstart : bodyOffset r + 3 + 4 + p.pair (bodyOffset r + 3) = idStart r := by
        rw [h.pair (by omega), hi]
      rw [if_pos hlen, hstart, h.pair (by omega), sessionIdLength, if_neg ht]
    · rw [if_neg hlen, if_neg (by omega)]

/-! ### One call -/

lemma Holds.ending {p : Parser} {r : List UInt8} (h : Holds p r) :
    p.ending.1 = r ∧ Shows p.ending.2 (.ended r) :=
  ⟨h.all, .ended (h.of_eq rfl rfl) rfl⟩

/-- With what `verdict` says, the output and the reader. -/
def settle (r : List UInt8) (copied : ℕ) : Output × Reader :=
  match verdict r with
  | .wait => (.write copied none none, .listening r)
  | .pass => (.write copied none (some r), .ended r)
  | .hello start sessionId => (.write copied (some (start, sessionId)) none, .paused r)

lemma settle_early {r : List UInt8} (h : r.length < 5) (n : ℕ) :
    settle r n = (.write n none none, .listening r) := by
  rw [settle, verdict, if_pos h]

lemma settle_large {r : List UInt8} (h : 5 ≤ r.length) (hf : capacity ≤ frameLength r) (n : ℕ) :
    settle r n = (.write n none (some r), .ended r) := by
  rw [settle, verdict, if_neg (by omega), if_pos hf]

/-- The length as a byte, and its low byte. -/
lemma narrow_toNat (n : ℕ) : (UInt8.ofNat n).toNat = n % 256 := by
  rw [UInt8.toNat_ofNat']

lemma Holds.readFrame {p : Parser} {r : List UInt8} (h : Holds p r) (hd : Header p r)
    (hr : 5 ≤ r.length) (hf : frameLength r < capacity) (n : ℕ) :
    (p.readFrame n).1 = (settle r n).1 ∧ Shows (p.readFrame n).2 (settle r n).2 := by
  rw [settle, verdict, if_neg (by omega), if_neg (by omega), Parser.readFrame, h.offset, hd.body,
    hd.frame]
  by_cases hwait : r.length < bodyOffset r + frameLength r
  · rw [if_pos hwait, if_pos hwait]
    exact ⟨rfl, .header h hr hd hf⟩
  rw [if_neg hwait, if_neg hwait, h.session hd]
  have hpass : (Output.write n none (some p.ending.1) = Output.write n none (some r)) ∧
      Shows p.ending.2 (.ended r) := ⟨by rw [h.ending.1], h.ending.2⟩
  by_cases hstart : idStart r < r.length
  · -- There is an id, so the byte that says what the message is has been received.
    have hkind : p.data_ (bodyOffset r) = byte r (bodyOffset r) := by
      apply h.data
      have := bodyOffset_le r
      unfold idStart at hstart
      split_ifs at hstart <;> omega
    rw [if_pos hstart, hkind]
    by_cases hhello : byte r (bodyOffset r) = kClientHello
    · rw [if_pos hhello]
      simp only [narrow_toNat]
      by_cases hfits : sessionIdLength r % 256 ≤ 32 ∧
          idStart r + sessionIdLength r % 256 ≤ r.length
      · rw [if_neg (by omega), if_pos ⟨hhello, hstart, hfits⟩, h.slice hfits.2]
        exact ⟨rfl, .paused ⟨rfl, h.data⟩ rfl⟩
      · rw [if_pos (by omega), if_neg fun hc => hfits hc.2.2]
        exact hpass
    · rw [if_neg hhello, if_neg fun hc => hhello hc.1]
      exact hpass
  · -- Without an id nothing hangs on that byte.
    have hno : ¬ (byte r (bodyOffset r) = kClientHello ∧ idStart r < r.length ∧
        sessionIdLength r % 256 ≤ 32 ∧ idStart r + sessionIdLength r % 256 ≤ r.length) :=
      fun hc => hstart hc.2.1
    rw [if_neg hstart, if_neg hno]
    by_cases hhello : p.data_ (bodyOffset r) = kClientHello
    · rw [if_pos hhello]
      exact hpass
    · rw [if_neg hhello]
      exact hpass

lemma Reader.step_listening (r data : List UInt8) :
    (Reader.listening r).step (.write data) =
      some (settle (r ++ room r data) (room r data).length) := by
  rw [Reader.step, settle]
  cases verdict (r ++ room r data) <;> rfl

/-- Bytes for a parser that has decided nothing. -/
lemma Shows.write {p : Parser} {r : List UInt8} (h : Shows p (.listening r)) (data : List UInt8) :
    (p.write data).1 = (settle (r ++ room r data) (room r data).length).1 ∧
      Shows (p.write data).2 (settle (r ++ room r data) (room r data).length).2 := by
  cases h with
  | early holds short state =>
    have hm := holds.memcpy data
    set x := room r data with hx
    have hstate : (p.memcpy data).state_ = kWaiting := state
    rw [Parser.write, if_neg (by rw [state]; nofun)]
    simp only [hstate, holds.fitting, hm.offset, ← hx]
    by_cases hfive : (r ++ x).length < 5
    · rw [if_pos hfive, settle_early hfive]
      exact ⟨rfl, .early hm hfive hstate⟩
    · rw [if_neg hfive]
      obtain ⟨hh, hd⟩ := hm.readHeader (by omega)
      rw [hd.frame]
      by_cases hbig : capacity ≤ frameLength (r ++ x)
      · rw [if_pos hbig, settle_large (by omega) hbig, hh.ending.1]
        exact ⟨rfl, hh.ending.2⟩
      · rw [if_neg hbig]
        exact hh.readFrame hd (by omega) (by omega) _
  | header holds long read fits =>
    have hm := holds.memcpy data
    set x := room r data with hx
    have hlong : 5 ≤ (r ++ x).length := by rw [List.length_append]; omega
    have hfits : frameLength (r ++ x) < capacity := by rwa [frameLength_append long]
    have hstate : (p.memcpy data).state_ = if tls r then kTLSHeader else kSSLHeader := read.state
    have hwrite : p.write data = (p.memcpy data).readFrame x.length := by
      rw [Parser.write, if_neg (by rw [read.state]; split_ifs <;> simp)]
      simp only [hstate, holds.fitting, ← hx]
      by_cases ht : tls r
      · simp only [if_pos ht]
      · simp only [if_neg ht]
    rw [hwrite]
    exact hm.readFrame (read.append long rfl rfl rfl) hlong hfits _

lemma Shows.finish {p : Parser} {r : List UInt8} (h : Holds p r) (hne : p.state_ ≠ kEnded) :
    p.finish = some (.finish r, p.ending.2) := by
  rw [Parser.finish, if_neg hne, h.ending.1]

/-- **One call.** -/
theorem Shows.step {p : Parser} {s : Reader} (h : Shows p s) (c : Call) :
    (p.step c = none ∧ s.step c = none) ∨
      ∃ o q t, p.step c = some (o, q) ∧ s.step c = some (o, t) ∧ Shows q t := by
  cases c with
  | finish =>
    cases h with
    | early holds short state =>
      exact .inr ⟨_, _, _, Shows.finish holds (by simp [state]), rfl, holds.ending.2⟩
    | header holds long read fits =>
      have hne : p.state_ ≠ kEnded := by rw [read.state]; split_ifs <;> simp
      exact .inr ⟨_, _, _, Shows.finish holds hne, rfl, holds.ending.2⟩
    | paused holds state =>
      exact .inr ⟨_, _, _, Shows.finish holds (by simp [state]), rfl, holds.ending.2⟩
    | ended holds state => exact .inl ⟨by rw [Parser.step, Parser.finish, if_pos state], rfl⟩
  | write data =>
    right
    cases s with
    | listening r =>
      obtain ⟨hout, hshows⟩ := h.write data
      exact ⟨(p.write data).1, (p.write data).2, _, rfl, by rw [Reader.step_listening, hout],
        hshows⟩
    | paused r =>
      cases h with
      | paused holds state =>
        exact ⟨_, _, _, by rw [Parser.step, Parser.write, if_pos state], rfl, .paused holds state⟩
    | ended r =>
      cases h with
      | ended holds state =>
        have hstate : (p.memcpy data).state_ = kEnded := state
        have hwrite : p.write data = (.write (room r data).length none none, p.memcpy data) := by
          rw [Parser.write, if_neg (by simp [state])]
          simp only [hstate, holds.fitting]
        exact ⟨_, _, _, by rw [Parser.step, hwrite], rfl, .ended (holds.memcpy data) hstate⟩

/-- **A run.** The parser gives what the reader gives. -/
theorem Shows.run {p : Parser} {s : Reader} (h : Shows p s) (cs : List Call) :
    p.run cs = s.run cs := by
  induction cs generalizing p s with
  | nil => rfl
  | cons c cs ih =>
    obtain ⟨hp, hs⟩ | ⟨o, q, t, hp, hs, hq⟩ := h.step c
    · simp only [Parser.run, Reader.run, hp, hs]
    · simp only [Parser.run, Reader.run, hp, hs, ih hq]

lemma shows_new (frame_len : ℕ) (data : ℕ → UInt8) :
    Shows (clientHelloParser frame_len data) (.listening []) :=
  .early ⟨rfl, nofun⟩ (by decide) rfl

/-! ### Where a session id comes from -/

lemma verdict_hello {r : List UInt8} {start : ℕ} {sessionId : List UInt8}
    (h : verdict r = .hello start sessionId) :
    Framed r ∧ byte r (bodyOffset r) = kClientHello ∧ idStart r < r.length ∧
      sessionIdLength r % 256 ≤ 32 ∧ idStart r + sessionIdLength r % 256 ≤ r.length ∧
      start = idStart r ∧ sessionId = (r.drop (idStart r)).take (sessionIdLength r % 256) := by
  unfold verdict at h
  split_ifs at h with h1 h2 h3 h4
  obtain ⟨rfl, rfl⟩ : start = _ ∧ sessionId = _ := by
    injection h with hs hi
    exact ⟨hs.symm, hi.symm⟩
  exact ⟨⟨by omega, by omega, by omega⟩, h4.1, h4.2.1, h4.2.2.1, h4.2.2.2, rfl, rfl⟩

lemma verdict_wait {r : List UInt8} (h : verdict r = .wait) : ¬ Framed r := by
  rintro ⟨hlen, hsmall, hall⟩
  unfold verdict at h
  rw [if_neg (by omega), if_neg (by omega), if_neg (by omega)] at h
  split_ifs at h

lemma verdict_overlong {r : List UInt8} (hf : Framed r) (h : Overlong r) :
    verdict r = .hello (idStart r) ((r.drop (idStart r)).take (sessionIdLength r % 256)) := by
  obtain ⟨hlen, hsmall, hall⟩ := hf
  rw [verdict, if_neg (by omega), if_neg (by omega), if_neg (by omega),
    if_pos ⟨h.kind, h.start, h.low, h.there⟩]

lemma Framed.append {r x : List UInt8} (h : Framed r) : Framed (r ++ x) := by
  obtain ⟨hlen, hsmall, hall⟩ := h
  refine ⟨?_, ?_, ?_⟩
  · rw [List.length_append]; omega
  · rwa [frameLength_append hlen]
  · rw [frameLength_append hlen, bodyOffset_append hlen, List.length_append]; omega

/-- Nothing is decided about the beginning of a frame that is to be completed. -/
lemma verdict_of_framed {r x : List UInt8} (h : Framed (r ++ x)) (hr : ¬ Framed r) :
    verdict r = .wait := by
  rw [verdict]
  by_cases hlen : r.length < 5
  · rw [if_pos hlen]
  have hfive : 5 ≤ r.length := by omega
  have hsmall : frameLength r < capacity := by
    have := h.2.1
    rwa [frameLength_append hfive] at this
  rw [if_neg hlen, if_neg (by omega), if_pos]
  by_contra hall
  exact hr ⟨hfive, hsmall, by omega⟩

/-- One byte says how long the id of TLS is. -/
lemma sessionIdLength_lt {r : List UInt8} (h : tls r) : sessionIdLength r < 256 := by
  rw [sessionIdLength, if_pos h]
  exact UInt8.toNat_lt _

lemma helloOk_iff {r : List UInt8} {start : ℕ} {sessionId : List UInt8}
    (h : verdict r = .hello start sessionId) :
    HelloOk r start sessionId ↔ ¬ Overlong r := by
  obtain ⟨-, hkind, hstart, hlow, hthere, rfl, rfl⟩ := verdict_hello h
  have hsize : ((r.drop (idStart r)).take (sessionIdLength r % 256)).length =
      sessionIdLength r % 256 := by
    rw [List.length_take, List.length_drop]
    omega
  constructor
  · intro hok hover
    have := hok.size
    have := hover.high
    omega
  · intro hover
    refine ⟨by rw [hsize]; exact hthere, by rw [hsize], ?_⟩
    rw [hsize]
    by_contra hne
    have hhigh : 256 ≤ sessionIdLength r := by
      by_contra hlt
      exact hne (Nat.mod_eq_of_lt (by omega))
    exact hover ⟨fun ht => by have := sessionIdLength_lt ht; omega, hkind, hhigh, hlow, hstart,
      hthere⟩

/-! ### Runs of the reader -/

/-- What there is room for, of several writes. -/
def rooms (r : List UInt8) : List (List UInt8) → List UInt8
  | [] => r
  | data :: writes => rooms (r ++ room r data) writes

lemma room_append {r : List UInt8} (h : r.length ≤ capacity) (data : List UInt8) :
    r ++ room r data = (r ++ data).take capacity := by
  rw [room, List.take_append, List.take_of_length_le h]

lemma rooms_eq {r : List UInt8} (h : r.length ≤ capacity) (writes : List (List UInt8)) :
    rooms r writes = (r ++ writes.flatten).take capacity := by
  induction writes generalizing r with
  | nil => rw [rooms, List.flatten_nil, List.append_nil, List.take_of_length_le h]
  | cons data writes ih =>
    have htake : ∀ l m : List UInt8,
        (l.take capacity ++ m).take capacity = (l ++ m).take capacity := by
      intro l m
      rw [List.take_append, List.take_append, List.take_take, Nat.min_self, List.length_take]
      congr 2
      omega
    rw [rooms, room_append h, ih (List.length_take_le ..), List.flatten_cons, ← List.append_assoc,
      htake]

lemma rooms_nil (writes : List (List UInt8)) : rooms [] writes = sent writes :=
  rooms_eq (by decide) writes

lemma rooms_prefix (r : List UInt8) (writes : List (List UInt8)) :
    ∃ x, rooms r writes = r ++ x := by
  induction writes generalizing r with
  | nil => exact ⟨[], (List.append_nil r).symm⟩
  | cons data writes ih =>
    obtain ⟨x, hx⟩ := ih (r ++ room r data)
    exact ⟨room r data ++ x, by rw [rooms, hx, List.append_assoc]⟩

/-- Neither a paused nor an ended reader hands over an id. -/
lemma Reader.quiet (cs : List Call) (s : Reader) (hs : ∀ r, s ≠ .listening r) :
    ∀ copied hello bio, Output.write copied (some hello) bio ∉ s.run cs := by
  induction cs generalizing s with
  | nil => simp [Reader.run]
  | cons c cs ih =>
    intro copied hello bio
    cases s with
    | listening r => exact absurd rfl (hs r)
    | paused r =>
      cases c with
      | write data => simpa [Reader.run, Reader.step] using ih (.paused r) nofun copied hello bio
      | finish => simpa [Reader.run, Reader.step] using ih (.ended r) nofun copied hello bio
    | ended r =>
      cases c with
      | write data =>
        simpa [Reader.run, Reader.step] using ih (.ended (r ++ room r data)) nofun copied hello bio
      | finish => simp [Reader.run, Reader.step]

lemma Reader.run_write (r data : List UInt8) (cs : List Call) :
    (Reader.listening r).run (.write data :: cs) =
      (settle (r ++ room r data) (room r data).length).1 ::
        (settle (r ++ room r data) (room r data).length).2.run cs := by
  rw [Reader.run, Reader.step_listening]

lemma take_room (r data : List UInt8) : data.take (room r data).length = room r data := by
  rw [room, List.length_take, List.take_eq_take_min, Nat.min_assoc, Nat.min_self]
  exact (List.take_eq_take_min ..).symm

lemma received_succ (c : Call) (cs : List Call) (o : Output) (outs : List Output) (n : ℕ) :
    received (c :: cs) (o :: outs) (n + 1) = taken c o ++ received cs outs n := by
  simp [received]

/-- An id is handed over by the write with which the frame is there, of what has been received. -/
lemma Reader.hello_at {r : List UInt8} (hr : ¬ Framed r) {cs : List Call} {n copied start : ℕ}
    {sessionId : List UInt8} {bio : Option (List UInt8)}
    (h : ((Reader.listening r).run cs)[n]? = some (.write copied (some (start, sessionId)) bio)) :
    ∃ writes data post, cs = writes.map Call.write ++ .write data :: post ∧ n = writes.length ∧
      ¬ Framed (rooms r writes) ∧ verdict (rooms r (writes ++ [data])) = .hello start sessionId ∧
      r ++ received cs ((Reader.listening r).run cs) (n + 1) = rooms r (writes ++ [data]) := by
  induction cs generalizing r n with
  | nil => simp [Reader.run] at h
  | cons c cs ih =>
    cases c with
    | finish =>
      rw [Reader.run, Reader.step] at h
      exact absurd (List.mem_of_getElem? h) (by simpa using Reader.quiet cs (.ended r) nofun _ _ _)
    | write data =>
      rw [Reader.run_write] at h ⊢
      cases hv : verdict (r ++ room r data) with
      | wait =>
        rw [settle, hv] at h ⊢
        cases n with
        | zero => simp at h
        | succ n =>
          obtain ⟨writes, last, post, hcs, hn, hnot, hhello, hrec⟩ := ih (verdict_wait hv) h
          refine ⟨data :: writes, last, post, by rw [hcs]; rfl, by rw [hn, List.length_cons], hnot,
            hhello, ?_⟩
          rw [received_succ, taken, take_room, ← List.append_assoc]
          exact hrec
      | pass =>
        rw [settle, hv] at h
        exact absurd (List.mem_of_getElem? h)
          (by simpa using Reader.quiet cs (.ended _) nofun _ _ _)
      | hello =>
        rw [settle, hv] at h ⊢
        cases n with
        | zero =>
          simp only [List.getElem?_cons_zero, Option.some.injEq, Output.write.injEq,
            Prod.mk.injEq] at h
          obtain ⟨-, ⟨rfl, rfl⟩, -⟩ := h
          refine ⟨[], data, cs, rfl, rfl, hr, hv, ?_⟩
          rw [received_succ, taken, take_room, received]
          simp [rooms]
        | succ n =>
          rw [List.getElem?_cons_succ] at h
          exact absurd (List.mem_of_getElem? h) (Reader.quiet cs (.paused _) nofun _ _ _)

/-- The writes before the frame is there give nothing, and the one with which it is there gives
what `verdict` says. -/
lemma Reader.run_framed {r data : List UInt8} {writes : List (List UInt8)}
    (hf : Framed (rooms r (writes ++ [data]))) (hno : ¬ Framed (rooms r writes))
    (post : List Call) :
    ∃ copied,
      ((Reader.listening r).run (writes.map Call.write ++ .write data :: post))[writes.length]? =
        some (settle (rooms r (writes ++ [data])) copied).1 := by
  induction writes generalizing r with
  | nil =>
    refine ⟨(room r data).length, ?_⟩
    rw [List.map_nil, List.nil_append, Reader.run_write]
    rfl
  | cons first writes ih =>
    have hwait : verdict (r ++ room r first) = .wait := by
      obtain ⟨x, hx⟩ := rooms_prefix (r ++ room r first) (writes ++ [data])
      obtain ⟨y, hy⟩ := rooms_prefix (r ++ room r first) writes
      rw [List.cons_append, rooms, hx] at hf
      rw [rooms, hy] at hno
      exact verdict_of_framed hf fun hc => hno hc.append
    obtain ⟨copied, hat⟩ := ih hf hno
    refine ⟨copied, ?_⟩
    rw [List.map_cons, List.cons_append, Reader.run_write, settle, hwait]
    exact hat

/-! ### The claim is settled -/

/-- **The session id is one of the message unless its length is narrowed.** -/
theorem sound_iff_not_narrowed (cs : List Call) : Sound cs ↔ ¬ Narrowed cs := by
  have hrun : ∀ frame_len data,
      (clientHelloParser frame_len data).run cs = (Reader.listening []).run cs :=
    fun frame_len data => (shows_new frame_len data).run cs
  have hnil : ¬ Framed [] := fun h => absurd h.1 (by decide)
  constructor
  · rintro hsound ⟨writes, data, post, rfl, hno, hf, hover⟩
    rw [← rooms_nil] at hno hf hover
    obtain ⟨copied, hat⟩ := Reader.run_framed hf hno post
    have hv := verdict_overlong hf hover
    rw [settle, hv, ← hrun 0 fun _ => 0] at hat
    have hok := hsound.hello 0 (fun _ => 0) _ _ _ _ _ _ rfl hat
    rw [hrun] at hat
    obtain ⟨writes', data', post', hcs, hn, -, hv', hrec⟩ := Reader.hello_at hnil hat
    rw [hrun, ← List.nil_append (received _ _ _), hrec, helloOk_iff hv'] at hok
    -- The writes before the id are the same, so what has been received is.
    obtain ⟨hw, hd⟩ := List.append_inj hcs (by rw [List.length_map, List.length_map, hn])
    rw [(List.map_inj_right fun _ _ h => Call.write.inj h).mp hw,
      Call.write.inj (List.cons.inj hd).1] at hover
    exact hok hover
  · intro hnarrow
    refine ⟨fun f d f' d' => by rw [hrun, hrun], ?_⟩
    rintro f d outs n copied start sessionId bio rfl hat
    rw [hrun] at hat ⊢
    obtain ⟨writes, data, post, hcs, -, hno, hv, hrec⟩ := Reader.hello_at hnil hat
    rw [List.nil_append] at hrec
    rw [hrec, helloOk_iff hv]
    intro hover
    rw [rooms_nil] at hno hv hover
    exact hnarrow ⟨writes, data, post, hcs, hno, (verdict_hello hv).1, hover⟩

/-- A frame of 14 bytes without the header of TLS: a hello with no ciphers, and 0x0105 for the
length of the id. -/
def longHello : List UInt8 := [0, 14, 1, 0, 2, 0, 0, 1, 5, 7, 7, 7, 7, 7, 7, 7]

theorem not_sound_longHello : ¬ Sound [.write longHello] := by
  intro h
  have hat : ((clientHelloParser 0 fun _ => 0).run [.write longHello])[0]? =
      some (.write 16 (some (9, [7, 7, 7, 7, 7])) none) := by decide
  have hsize := (h.hello 0 (fun _ => 0) _ _ _ _ _ _ rfl hat).size
  revert hsize
  decide

end NodeCore.ClientHello
