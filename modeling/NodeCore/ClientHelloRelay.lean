import Mathlib.Data.List.Induction
import NodeCore.ClientHello

/-!
How a connection takes encrypted bytes in. A server shows them to the parser until that has ended,
and the parser passes on to the BIO what it has collected.
-/

namespace NodeCore.ClientHello

open ParseState

/-- The part of a connection that takes encrypted bytes in. -/
structure Connection where
  is_server_ : Bool
  hello_parser_ : Parser
  /-- What has been written to the BIO, which takes all it is given. -/
  bio_read_ : List UInt8

/-- What `Write` returns. -/
def Output.copied : Output → ℕ
  | .write copied _ _ => copied
  | _ => 0

/-- What is written to the BIO. -/
def Output.pushed : Output → List UInt8
  | .write _ _ bio => bio.getD []
  | .finish bio => bio
  | .abort => []

def connection (is_server : Bool) (frame_len : ℕ) (data : ℕ → UInt8) : Connection :=
  { is_server_ := is_server, hello_parser_ := clientHelloParser frame_len data, bio_read_ := [] }

namespace Connection

def bioWrite (c : Connection) (data : List UInt8) : Connection :=
  { c with bio_read_ := c.bio_read_ ++ data }

/-- `data` is what lies from `off` to `off + len` in the buffer. -/
def encIn (c : Connection) (data : List UInt8) : ℕ × Connection :=
  if c.is_server_ ∧ c.hello_parser_.state_ ≠ kEnded then
    let w := c.hello_parser_.write data
    (w.1.copied, { c.bioWrite w.1.pushed with hello_parser_ := w.2 })
  else (data.length, c.bioWrite data)

/-- None when the assertion of `Finish` fails. -/
def loadSession (c : Connection) : Option Connection :=
  c.hello_parser_.finish.map fun w => { c.bioWrite w.1.pushed with hello_parser_ := w.2 }

/-- The bytes that a call has taken, and the connection after it. The callback of the parser runs
when `Write` has nothing left to do, so what it calls comes next. -/
def step (c : Connection) : Call → Option (List UInt8 × Connection)
  | .write data => some (data.take (c.encIn data).1, (c.encIn data).2)
  | .finish => c.loadSession.map fun c => ([], c)

def run (c : Connection) : List Call → Option (List UInt8 × Connection)
  | [] => some ([], c)
  | call :: cs =>
    (c.step call).bind fun x => (x.2.run cs).map fun y => (x.1 ++ y.1, y.2)

/-- Nothing stands between what comes in and the BIO. -/
def ended (c : Connection) : Prop := c.is_server_ = true → c.hello_parser_.state_ = kEnded

end Connection

/-- **What is claimed.** Of bytes that come in some are taken unless the parser is paused, and once
the parser has ended the BIO has what has been taken. -/
structure Relays (c₀ : Connection) (cs : List Call) : Prop where
  progress : ∀ pre data post taken c, cs = pre ++ Call.write data :: post →
    c₀.run pre = some (taken, c) → data ≠ [] → c.hello_parser_.state_ ≠ kPaused →
    0 < (c.encIn data).1
  complete : ∀ pre post taken c, cs = pre ++ post → c₀.run pre = some (taken, c) → c.ended →
    c.bio_read_ = taken

/-- The frame alone would fit, and does not with its header. -/
def Oversized (r : List UInt8) : Prop :=
  frameLength r < capacity ∧ capacity < bodyOffset r + frameLength r

/-- More bytes come when the buffer is full with the beginning of an oversized frame. -/
def Stuck (cs : List Call) : Prop :=
  ∃ writes data post, cs = writes.map Call.write ++ .write data :: post ∧ data ≠ [] ∧
    capacity ≤ writes.flatten.length ∧ Oversized (sent writes)

/-! ### Runs -/

namespace Connection

variable {c c' : Connection}

lemma run_concat (pre : List Call) (call : Call) :
    c.run (pre ++ [call]) =
      (c.run pre).bind fun x => (x.2.step call).map fun y => (x.1 ++ y.1, y.2) := by
  induction pre generalizing c with
  | nil => cases h : c.step call <;> simp [run, h]
  | cons first pre ih =>
    rw [List.cons_append, run, run]
    cases c.step first with
    | none => rfl
    | some x =>
      rw [Option.bind_some, Option.bind_some, ih]
      cases x.2.run pre with
      | none => rfl
      | some y =>
        rw [Option.bind_some, Option.map_some, Option.bind_some]
        cases y.2.step call with
        | none => rfl
        | some z => simp only [Option.map_some, List.append_assoc]

lemma encIn_is_server (data : List UInt8) : (c.encIn data).2.is_server_ = c.is_server_ := by
  unfold encIn
  split_ifs <;> rfl

lemma step_is_server {call : Call} {more : List UInt8} (h : c.step call = some (more, c')) :
    c'.is_server_ = c.is_server_ := by
  cases call with
  | write data =>
    obtain ⟨-, rfl⟩ := Prod.mk.inj (Option.some.inj h)
    exact encIn_is_server data
  | finish =>
    obtain ⟨c₁, hc, heq⟩ := Option.map_eq_some_iff.mp h
    obtain ⟨-, rfl⟩ := Prod.mk.inj heq
    obtain ⟨w, -, rfl⟩ := Option.map_eq_some_iff.mp hc
    rfl

lemma run_is_server {cs : List Call} {taken : List UInt8} (h : c.run cs = some (taken, c')) :
    c'.is_server_ = c.is_server_ := by
  induction cs generalizing c taken with
  | nil =>
    obtain ⟨-, rfl⟩ := Prod.mk.inj (Option.some.inj h)
    rfl
  | cons call cs ih =>
    obtain ⟨⟨more, c₁⟩, h₁, h⟩ := Option.bind_eq_some_iff.mp h
    obtain ⟨⟨rest, c₂⟩, h₂, heq⟩ := Option.map_eq_some_iff.mp h
    obtain ⟨-, rfl⟩ := Prod.mk.inj heq
    exact (ih h₂).trans (step_is_server h₁)

lemma encIn_server (hs : c.is_server_ = true) (he : c.hello_parser_.state_ ≠ kEnded)
    (data : List UInt8) : c.encIn data =
      ((c.hello_parser_.write data).1.copied,
        { c.bioWrite (c.hello_parser_.write data).1.pushed with
          hello_parser_ := (c.hello_parser_.write data).2 }) := if_pos ⟨hs, he⟩

lemma encIn_ended (he : c.ended) (data : List UInt8) :
    c.encIn data = (data.length, c.bioWrite data) :=
  if_neg fun h => h.2 (he h.1)

end Connection

/-- The bytes that the connection has taken, and where they are. -/
inductive Taken (calls : List Call) (c : Connection) (taken : List UInt8) : Prop
  | client (client : c.is_server_ = false) (empty : c.hello_parser_.offset_ = 0)
    (bio : c.bio_read_ = taken)
  | listening (server : c.is_server_ = true) (shows : Shows c.hello_parser_ (.listening taken))
    (wait : verdict taken = .wait) (bio : c.bio_read_ = []) (writes : List (List UInt8))
    (calls_eq : calls = writes.map Call.write) (taken_eq : taken = sent writes)
  | paused (server : c.is_server_ = true) (shows : Shows c.hello_parser_ (.paused taken))
    (bio : c.bio_read_ = [])
  | ended (server : c.is_server_ = true) (state : c.hello_parser_.state_ = kEnded)
    (bio : c.bio_read_ = taken)

lemma Shows.state_ne {p : Parser} {r : List UInt8} (h : Shows p (.listening r)) :
    p.state_ ≠ kEnded ∧ p.state_ ≠ kPaused := by
  cases h with
  | early holds short state => simp [state]
  | header holds long read fits =>
    rw [read.state]
    split_ifs <;> simp

lemma Shows.holds {p : Parser} {r : List UInt8} (h : Shows p (.listening r)) : Holds p r := by
  cases h with
  | early holds short state => exact holds
  | header holds long read fits => exact holds

lemma sent_length (writes : List (List UInt8)) : (sent writes).length ≤ capacity :=
  List.length_take_le ..

lemma sent_concat (writes : List (List UInt8)) (data : List UInt8) :
    sent (writes ++ [data]) = sent writes ++ room (sent writes) data := by
  rw [room_append (sent_length writes), sent, sent, List.flatten_append, List.flatten_singleton,
    List.take_append, List.take_append, List.take_take, Nat.min_self, List.length_take]
  congr 2
  omega

lemma room_length (r data : List UInt8) :
    (room r data).length = min (capacity - r.length) data.length := List.length_take ..

lemma taken_connection (is_server : Bool) (frame_len : ℕ) (data : ℕ → UInt8) :
    Taken [] (connection is_server frame_len data) [] := by
  cases is_server with
  | false => exact .client rfl rfl rfl
  | true => exact .listening rfl (shows_new frame_len data) rfl rfl [] rfl rfl

namespace Taken

variable {calls : List Call} {c c' : Connection} {taken more : List UInt8}

/-- Bytes for a parser that has decided nothing. -/
lemma write (server : c.is_server_ = true) (shows : Shows c.hello_parser_ (.listening taken))
    (bio : c.bio_read_ = []) {writes : List (List UInt8)} (heq : taken = sent writes)
    (data : List UInt8) :
    (c.encIn data).1 = (room taken data).length ∧
      Taken (writes.map Call.write ++ [.write data]) (c.encIn data).2
        (taken ++ room taken data) := by
  obtain ⟨hout, hshows⟩ := shows.write data
  rw [Connection.encIn_server server shows.state_ne.1, hout]
  have hbio (x : List UInt8) : (c.bioWrite x).bio_read_ = x := by
    rw [Connection.bioWrite, bio, List.nil_append]
  cases hv : verdict (taken ++ room taken data) with
  | wait =>
    rw [settle, hv] at hshows ⊢
    refine ⟨rfl, .listening server hshows hv (hbio []) (writes ++ [data]) (by simp) ?_⟩
    rw [heq, sent_concat]
  | pass =>
    rw [settle, hv] at hshows ⊢
    cases hshows with
    | ended holds state => exact ⟨rfl, .ended server state (hbio _)⟩
  | hello start sessionId =>
    rw [settle, hv] at hshows ⊢
    exact ⟨rfl, .paused server hshows (hbio [])⟩

/-- The callback has been answered. -/
lemma finish {r : List UInt8} (server : c.is_server_ = true) (holds : Holds c.hello_parser_ r)
    (hne : c.hello_parser_.state_ ≠ kEnded) (bio : c.bio_read_ = [])
    (h : c.loadSession = some c') : Taken (calls ++ [.finish]) c' r := by
  rw [Connection.loadSession, Shows.finish holds hne, Option.map_some] at h
  obtain rfl := Option.some.inj h
  refine .ended server rfl ?_
  show c.bio_read_ ++ r = r
  rw [bio, List.nil_append]

/-- **One call.** -/
lemma step (h : Taken calls c taken) {call : Call} (hs : c.step call = some (more, c')) :
    Taken (calls ++ [call]) c' (taken ++ more) := by
  cases call with
  | write data =>
    obtain ⟨rfl, rfl⟩ := Prod.mk.inj (Option.some.inj hs)
    have hended (he : c.ended) (bio : c.bio_read_ = taken) :
        (c.encIn data).2 = c.bioWrite data ∧
          (c.bioWrite data).bio_read_ = taken ++ data.take (c.encIn data).1 := by
      rw [Connection.encIn_ended he, List.take_length, Connection.bioWrite, bio]
      exact ⟨rfl, rfl⟩
    cases h with
    | client client empty bio =>
      obtain ⟨hc, hbio⟩ := hended (fun hs => absurd hs (by simp [client])) bio
      rw [hc]
      exact .client client empty hbio
    | listening server shows wait bio writes calls_eq taken_eq =>
      obtain ⟨hlen, hnext⟩ := write server shows bio taken_eq data
      rw [hlen, take_room, calls_eq]
      exact hnext
    | paused server shows bio =>
      cases shows with
      | paused holds state =>
        have hzero : c.hello_parser_.write data = (.write 0 none none, c.hello_parser_) := by
          rw [Parser.write, if_pos state]
        rw [Connection.encIn_server server (by simp [state]), hzero]
        simp only [Output.copied, List.take_zero, List.append_nil]
        refine .paused server (.paused holds state) ?_
        show c.bio_read_ ++ [] = []
        rw [bio, List.append_nil]
    | ended server state bio =>
      obtain ⟨hc, hbio⟩ := hended (fun _ => state) bio
      rw [hc]
      exact .ended server state hbio
  | finish =>
    obtain ⟨c₁, hc, heq⟩ := Option.map_eq_some_iff.mp hs
    obtain ⟨rfl, rfl⟩ := Prod.mk.inj heq
    rw [List.append_nil]
    cases h with
    | client client empty bio =>
      obtain ⟨w, hw, rfl⟩ := Option.map_eq_some_iff.mp hc
      unfold Parser.finish at hw
      split_ifs at hw with he
      obtain rfl := Option.some.inj hw
      refine .client client empty ?_
      show c.bio_read_ ++ c.hello_parser_.slice 0 c.hello_parser_.offset_ = taken
      rw [empty, bio]
      exact List.append_nil taken
    | listening server shows wait bio writes calls_eq taken_eq =>
      exact finish server shows.holds shows.state_ne.1 bio hc
    | paused server shows bio =>
      cases shows with
      | paused holds state => exact finish server holds (by simp [state]) bio hc
    | ended server state bio =>
      rw [Connection.loadSession, Parser.finish, if_pos state] at hc
      cases hc

/-- **A run.** -/
lemma run {c₀ : Connection} (h₀ : Taken [] c₀ []) (h : c₀.run calls = some (taken, c)) :
    Taken calls c taken := by
  induction calls using List.reverseRecOn generalizing taken c with
  | nil =>
    obtain ⟨rfl, rfl⟩ := Prod.mk.inj (Option.some.inj h)
    exact h₀
  | append_singleton pre call ih =>
    rw [Connection.run_concat] at h
    obtain ⟨⟨t, c₁⟩, h₁, h⟩ := Option.bind_eq_some_iff.mp h
    obtain ⟨⟨more, c₂⟩, h₂, heq⟩ := Option.map_eq_some_iff.mp h
    obtain ⟨rfl, rfl⟩ := Prod.mk.inj heq
    exact (ih h₁).step h₂

lemma bio_eq (h : Taken calls c taken) (he : c.ended) : c.bio_read_ = taken := by
  cases h with
  | client client empty bio => exact bio
  | listening server shows => exact absurd (he server) shows.state_ne.1
  | paused server shows =>
    cases shows with
    | paused holds state => exact absurd (he server) (by simp [state])
  | ended server state bio => exact bio

/-- Nothing is taken only with the buffer full. -/
lemma full (h : Taken calls c taken) {data : List UInt8} (hdata : data ≠ [])
    (hp : c.hello_parser_.state_ ≠ kPaused) (hz : (c.encIn data).1 = 0) :
    c.is_server_ = true ∧ ∃ writes, calls = writes.map Call.write ∧
      (sent writes).length = capacity ∧ verdict (sent writes) = .wait := by
  have hpos : data.length ≠ 0 := fun h => hdata (List.length_eq_zero_iff.mp h)
  have hended : ¬ c.ended := fun he => hpos (by rwa [Connection.encIn_ended he] at hz)
  cases h with
  | client client => exact absurd (fun hs => absurd hs (by simp [client])) hended
  | listening server shows wait bio writes calls_eq taken_eq =>
    rw [(write server shows bio taken_eq data).1, room_length, taken_eq] at hz
    have hle := sent_length writes
    exact ⟨server, writes, calls_eq, by omega, taken_eq ▸ wait⟩
  | paused server shows =>
    cases shows with
    | paused holds state => exact absurd state hp
  | ended server state bio => exact absurd (fun _ => state) hended

end Taken

/-! ### The frame that never fits -/

/-- With the buffer full, what waits is oversized. -/
lemma oversized_of_wait {r : List UInt8} (hfull : r.length = capacity) (h : verdict r = .wait) :
    Oversized r := by
  have hcap : capacity = 18432 := rfl
  unfold verdict at h
  rw [if_neg (by omega)] at h
  split_ifs at h with hlarge hshort
  exact ⟨by omega, by omega⟩

/-- Nothing is decided about an oversized frame. -/
lemma Oversized.wait {r x : List UInt8} (h : Oversized (r ++ x)) (hr : r.length ≤ capacity) :
    verdict r = .wait := by
  rw [verdict]
  by_cases hfive : r.length < 5
  · rw [if_pos hfive]
  · obtain ⟨hsmall, hlarge⟩ := h
    rw [frameLength_append (by omega)] at hsmall hlarge
    rw [bodyOffset_append (by omega)] at hlarge
    rw [if_neg hfive, if_neg (by omega), if_pos (by omega)]

/-- The writes up to a full buffer. -/
lemma run_oversized {c₀ : Connection} (hs : c₀.is_server_ = true)
    (h₀ : Shows c₀.hello_parser_ (.listening [])) (hb : c₀.bio_read_ = [])
    (writes : List (List UInt8)) (x : List UInt8) (h : Oversized (sent writes ++ x)) :
    ∃ c, c₀.run (writes.map Call.write) = some (sent writes, c) ∧ c.is_server_ = true ∧
      Shows c.hello_parser_ (.listening (sent writes)) ∧ c.bio_read_ = [] := by
  induction writes using List.reverseRecOn generalizing x with
  | nil => exact ⟨c₀, rfl, hs, h₀, hb⟩
  | append_singleton writes data ih =>
    rw [sent_concat] at h ⊢
    obtain ⟨c, hrun, hserver, hshows, hbio⟩ := ih (room (sent writes) data ++ x)
      (by rwa [← List.append_assoc])
    have hwait := h.wait (by rw [← sent_concat]; exact sent_length _)
    obtain ⟨hout, hnext⟩ := hshows.write data
    rw [settle, hwait] at hout hnext
    refine ⟨(c.encIn data).2, ?_, ?_⟩
    · rw [List.map_append, List.map_singleton, Connection.run_concat, hrun, Option.bind_some,
        Connection.step, Option.map_some,
        (Taken.write hserver hshows hbio rfl data).1, take_room]
    · rw [Connection.encIn_server hserver hshows.state_ne.1, hout]
      exact ⟨hserver, hnext, by show c.bio_read_ ++ [] = []; rw [hbio, List.append_nil]⟩

lemma not_relays {cs : List Call} (h : Stuck cs) (frame_len : ℕ) (data : ℕ → UInt8) :
    ¬ Relays (connection true frame_len data) cs := by
  obtain ⟨writes, last, post, hcs, hlast, hlen, hover⟩ := h
  obtain ⟨c, hrun, hserver, hshows, hbio⟩ := @run_oversized (connection true frame_len data)
    rfl (shows_new frame_len data) rfl writes [] (by rwa [List.append_nil])
  intro hrelays
  have hpos := hrelays.progress _ last post _ c hcs hrun hlast hshows.state_ne.2
  have hfull : (sent writes).length = capacity := by
    rw [sent, List.length_take]
    omega
  rw [(Taken.write hserver hshows hbio rfl last).1, room_length] at hpos
  omega

/-- **All is relayed unless the buffer fills with the beginning of a frame that never fits.** -/
theorem relays_iff_not_stuck (is_server : Bool) (frame_len : ℕ) (data : ℕ → UInt8)
    (cs : List Call) :
    Relays (connection is_server frame_len data) cs ↔ ¬ (is_server = true ∧ Stuck cs) := by
  have h₀ := taken_connection is_server frame_len data
  constructor
  · rintro hrelays ⟨rfl, hstuck⟩
    exact not_relays hstuck frame_len data hrelays
  · intro hstuck
    refine ⟨fun pre last post taken c hcs hrun hlast hp => ?_, fun pre post taken c hcs hrun he =>
      (h₀.run hrun).bio_eq he⟩
    by_contra hpos
    obtain ⟨hserver, writes, rfl, hfull, hwait⟩ := (h₀.run hrun).full hlast hp (by omega)
    refine hstuck ⟨(Connection.run_is_server hrun).symm.trans hserver, writes, last, post, hcs,
      hlast, ?_, oversized_of_wait hfull hwait⟩
    rw [sent, List.length_take] at hfull
    omega

/-- The first five bytes announce a frame of 18431 bytes. -/
def longFrame : List UInt8 := [22, 3, 1, 71, 255] ++ List.replicate 18427 0

lemma longFrame_length : longFrame.length = capacity := by
  rw [longFrame, List.length_append, List.length_replicate]
  rfl

theorem not_relays_longFrame :
    ¬ Relays (connection true 0 fun _ => 0) [.write longFrame, .write [0]] := by
  have hflat : [longFrame].flatten = longFrame := List.flatten_singleton
  refine not_relays ⟨[longFrame], [0], [], rfl, List.cons_ne_nil _ _, ?_, ?_⟩ 0 _
  · exact Nat.le_of_eq (by rw [hflat, longFrame_length])
  · have hfive : 5 ≤ ([22, 3, 1, 71, 255] : List UInt8).length := by decide
    rw [sent, hflat, List.take_of_length_le (Nat.le_of_eq longFrame_length), longFrame, Oversized,
      frameLength_append hfive, bodyOffset_append hfive]
    decide

end NodeCore.ClientHello
