import Mathlib.Data.ENat.Basic
import Mathlib.Logic.Function.Basic
import NodeCore.Ledger

/-!
The pool of an `Agent`: the sockets it has made for each name, and the requests that wait for one.

A socket is known by its place among the sockets made, a request by its number. What a request does
with its socket is left out; the events of a socket may come in any order.
-/

namespace NodeCore.AgentPool

/-- The arguments that say where a request goes. -/
structure Target where
  host : String
  port : String
  /-- Empty if there is none. -/
  localAddress : String
  deriving DecidableEq

def Target.name (t : Target) : String :=
  let name := t.host ++ ":" ++ t.port
  if t.localAddress ≠ "" then name ++ ":" ++ t.localAddress else name

structure Request where
  number : ℕ
  target : Target
  deriving DecidableEq

structure Socket where
  target : Target
  name : String
  destroyed : Bool
  /-- `onFree`, `onClose` and `onRemove` are listeners. -/
  listening : Bool
  deriving DecidableEq

/-! ### The agent -/

structure Agent where
  requests : String → Option (List Request)
  sockets : String → Option (List ℕ)
  /-- What `createConnection` has returned. -/
  made : List Socket
  /-- The requests that were added. -/
  arrived : List Request
  /-- The calls of `onSocket`. -/
  assigned : List (Request × ℕ)

namespace Agent

def new : Agent :=
  { requests := fun _ => none, sockets := fun _ => none, made := [], arrived := [], assigned := [] }

/-- `this.sockets[name]`, empty if there is none. -/
def pool (a : Agent) (name : String) : List ℕ := (a.sockets name).getD []

/-- `this.requests[name]`, empty if there is none. -/
def waiting (a : Agent) (name : String) : List Request := (a.requests name).getD []

def onSocket (a : Agent) (req : Request) (s : ℕ) : Agent :=
  { a with assigned := a.assigned ++ [(req, s)] }

def destroy (a : Agent) (s : ℕ) : Agent :=
  { a with made := a.made.modify s fun sock => { sock with destroyed := true } }

/-- The listener of the agent for `free`. -/
def free (a : Agent) (s : ℕ) (sock : Socket) : Agent :=
  let name := sock.target.name
  match a.requests name with
  | some (req :: rest) =>
    if sock.destroyed then a.destroy s
    else
      { a with
        requests := Function.update a.requests name (if rest = [] then none else some rest)
      }.onSocket req s
  | _ => a.destroy s

/-- `s.emit('free')`. -/
def emitFree (a : Agent) (s : ℕ) : Agent :=
  match a.made[s]? with
  | some sock => if sock.listening then a.free s sock else a
  | none => a

/-- The socket may have been destroyed before `createConnection` returns it. -/
def createSocket (a : Agent) (name : String) (target : Target) (destroyed : Bool) : Agent :=
  { a with
    made := a.made ++ [⟨target, name, destroyed, true⟩]
    sockets := Function.update a.sockets name (some (a.pool name ++ [a.made.length])) }

/-- The first half of `removeSocket`. -/
def splice (a : Agent) (s : ℕ) (name : String) : Agent :=
  match a.sockets name with
  | some l =>
    if s ∈ l then
      { a with
        sockets := Function.update a.sockets name
          (if l.erase s = [] then none else some (l.erase s)) }
    else a
  | none => a

def removeSocket (a : Agent) (s : ℕ) (name : String) (target : Target) (destroyed : Bool) :
    Agent :=
  let a := a.splice s name
  match a.requests name with
  | some (_ :: _) => (a.createSocket name target destroyed).emitFree a.made.length
  | _ => a

/-- `s.emit('close')`. -/
def emitClose (a : Agent) (s : ℕ) (destroyed : Bool) : Agent :=
  match a.made[s]? with
  | some sock => if sock.listening then a.removeSocket s sock.name sock.target destroyed else a
  | none => a

/-- The three listeners are removed. -/
def unlisten (a : Agent) (s : ℕ) : Agent :=
  { a with made := a.made.modify s fun sock => { sock with listening := false } }

/-- `s.emit('agentRemove')`. -/
def emitAgentRemove (a : Agent) (s : ℕ) (destroyed : Bool) : Agent :=
  match a.made[s]? with
  | some sock =>
    if sock.listening then (a.removeSocket s sock.name sock.target destroyed).unlisten s else a
  | none => a

/-- `addRequest` has a list of sockets for the name, if there was none. -/
def arrive (a : Agent) (req : Request) (name : String) : Agent :=
  { a with
    arrived := a.arrived ++ [req]
    sockets := Function.update a.sockets name (some (a.pool name)) }

def enqueue (a : Agent) (req : Request) (name : String) : Agent :=
  { a with requests := Function.update a.requests name (some (a.waiting name ++ [req])) }

def addRequest (maxSockets : ℕ∞) (a : Agent) (target : Target) (destroyed : Bool) : Agent :=
  let name := target.name
  let req : Request := ⟨a.arrived.length, target⟩
  let a := a.arrive req name
  if ((a.pool name).length : ℕ∞) < maxSockets then
    (a.createSocket name target destroyed).onSocket req a.made.length
  else a.enqueue req name

end Agent

/-- What happens to an agent. Each kind says, where a socket may be made, whether it is destroyed
already. -/
inductive Act
  | addRequest (target : Target) (destroyed : Bool)
  | free (s : ℕ)
  | close (s : ℕ) (destroyed : Bool)
  | agentRemove (s : ℕ) (destroyed : Bool)
  /-- Somebody destroys a socket. -/
  | destroy (s : ℕ)
  deriving DecidableEq

def step (maxSockets : ℕ∞) (a : Agent) : Act → Agent
  | .addRequest target destroyed => a.addRequest maxSockets target destroyed
  | .free s => a.emitFree s
  | .close s destroyed => a.emitClose s destroyed
  | .agentRemove s destroyed => a.emitAgentRemove s destroyed
  | .destroy s => a.destroy s

/-! ### What is kept -/

namespace Agent

/-- The requests for a name that have been given a socket, in the order of that. -/
def handed (a : Agent) (name : String) : List Request :=
  (a.assigned.map Prod.fst).filter fun req => req.target.name = name

/-- The requests that were added for a name. -/
def added (a : Agent) (name : String) : List Request :=
  a.arrived.filter fun req => req.target.name = name

end Agent

structure Sound (maxSockets : ℕ∞) (a : Agent) : Prop where
  bounded : ∀ name, ((a.pool name).length : ℕ∞) ≤ maxSockets
  full : ∀ name, a.waiting name ≠ [] → ((a.pool name).length : ℕ∞) = maxSockets
  order : ∀ name, a.handed name ++ a.waiting name = a.added name
  once : ∀ req ∈ a.arrived,
    a.assigned.countP (fun p => p.1 = req) + (a.waiting req.target.name).count req = 1

/-- The agent is about to hear that a socket has gone that it has no more, and a request waits. -/
def Act.Again (a : Agent) : Act → Prop
  | .close s _ | .agentRemove s _ => ∃ sock, a.made[s]? = some sock ∧ sock.listening = true ∧
    s ∉ a.pool sock.name ∧ a.waiting sock.name ≠ []
  | _ => False

/-- The books of an agent: whom it has given sockets, and who waits. -/
structure Kept (a : Agent) : Prop where
  order : ∀ name, a.handed name ++ a.waiting name = a.added name
  numbered : ∀ req ∈ a.arrived, req.number < a.arrived.length
  nodup : a.arrived.Nodup
  named : ∀ sock ∈ a.made, sock.name = sock.target.name

namespace Agent

variable (a : Agent) (s : ℕ) (req : Request) (name n : String) (target : Target) (d : Bool)

@[simp] lemma pool_onSocket : (a.onSocket req s).pool n = a.pool n := rfl
@[simp] lemma waiting_onSocket : (a.onSocket req s).waiting n = a.waiting n := rfl
@[simp] lemma made_onSocket : (a.onSocket req s).made = a.made := rfl
@[simp] lemma arrived_onSocket : (a.onSocket req s).arrived = a.arrived := rfl
@[simp] lemma pool_destroy : (a.destroy s).pool n = a.pool n := rfl
@[simp] lemma waiting_destroy : (a.destroy s).waiting n = a.waiting n := rfl
@[simp] lemma pool_unlisten : (a.unlisten s).pool n = a.pool n := rfl
@[simp] lemma waiting_unlisten : (a.unlisten s).waiting n = a.waiting n := rfl
@[simp] lemma waiting_createSocket : (a.createSocket name target d).waiting n = a.waiting n := rfl

@[simp] lemma waiting_arrive : (a.arrive req name).waiting n = a.waiting n := rfl
@[simp] lemma handed_arrive : (a.arrive req name).handed n = a.handed n := rfl
@[simp] lemma handed_createSocket : (a.createSocket name target d).handed n = a.handed n := rfl
@[simp] lemma handed_enqueue : (a.enqueue req name).handed n = a.handed n := rfl
@[simp] lemma pool_enqueue : (a.enqueue req name).pool n = a.pool n := rfl

@[simp] lemma pool_arrive : (a.arrive req name).pool n = a.pool n := by
  by_cases h : n = name
  · subst h
    simp [pool, arrive]
  · simp [pool, arrive, h]

lemma waiting_enqueue : (a.enqueue req name).waiting n =
    if n = name then a.waiting name ++ [req] else a.waiting n := by
  simp only [waiting, enqueue, Function.update_apply]
  split_ifs <;> rfl

lemma handed_onSocket : (a.onSocket req s).handed n =
    a.handed n ++ if req.target.name = n then [req] else [] := by
  simp only [handed, onSocket, List.map_append, List.filter_append, List.map_cons, List.map_nil,
    List.filter_cons, List.filter_nil, decide_eq_true_eq]

lemma pool_createSocket : (a.createSocket name target d).pool n =
    if n = name then a.pool name ++ [a.made.length] else a.pool n := by
  simp only [pool, createSocket, Function.update_apply]
  split_ifs <;> rfl

lemma pool_splice : (a.splice s name).pool n =
    if n = name then (a.pool name).erase s else a.pool n := by
  unfold splice pool
  cases hl : a.sockets name with
  | none =>
    by_cases hn : n = name
    · subst hn
      simp [hl]
    · simp [hn]
  | some l =>
    by_cases hs : s ∈ l
    · by_cases hn : n = name
      · by_cases he : l.erase s = [] <;> simp [hs, hn, he]
      · simp [hs, hn]
    · by_cases hn : n = name
      · simp [hs, hn, hl, List.erase_of_not_mem]
      · simp [hs, hn]

/-- `splice` changes nothing but the pool. -/
lemma splice_eq : a.splice s name = { a with sockets := (a.splice s name).sockets } := by
  unfold splice
  split
  · split <;> rfl
  · rfl

@[simp] lemma waiting_splice : (a.splice s name).waiting n = a.waiting n := by
  rw [splice_eq]; rfl

@[simp] lemma made_splice : (a.splice s name).made = a.made := by rw [splice_eq]

/-- A socket is free for nobody, or for the first that waits for its name. -/
inductive FreeCase (a : Agent) : Agent → Prop
  | same (made : List Socket) (h : ∀ sock ∈ made, sock.name = sock.target.name) :
      FreeCase a { a with made := made }
  | given (s : ℕ) (name : String) (req : Request) (rest : List Request)
      (h : a.waiting name = req :: rest) :
      FreeCase a ({ a with
        requests := Function.update a.requests name (if rest = [] then none else some rest)
      }.onSocket req s)

variable {a}

lemma named_modify {f : Socket → Socket} (hf : ∀ sock : Socket, sock.name = sock.target.name →
    (f sock).name = (f sock).target.name) (h : ∀ sock ∈ a.made, sock.name = sock.target.name) :
    ∀ sock ∈ a.made.modify s f, sock.name = sock.target.name := by
  intro sock hsock
  obtain ⟨i, hi⟩ := List.getElem?_of_mem hsock
  rw [List.getElem?_modify, Option.map_eq_map, Option.map_eq_some_iff] at hi
  obtain ⟨x, hx, rfl⟩ := hi
  have hnamed := h x (List.mem_of_getElem? hx)
  split_ifs
  · exact hf x hnamed
  · exact hnamed

lemma free_cases (h : ∀ sock ∈ a.made, sock.name = sock.target.name) (sock : Socket) :
    FreeCase a (a.free s sock) := by
  have hdestroy : FreeCase a (a.destroy s) := .same _ (named_modify s (fun _ h => h) h)
  simp only [free]
  cases hreq : a.requests sock.target.name with
  | none => exact hdestroy
  | some l =>
    cases l with
    | nil => exact hdestroy
    | cons req rest =>
      dsimp only
      by_cases hd : sock.destroyed = true
      · rw [if_pos hd]
        exact hdestroy
      · rw [if_neg hd]
        exact .given s _ req rest (by rw [waiting, hreq]; rfl)

lemma emitFree_cases (h : ∀ sock ∈ a.made, sock.name = sock.target.name) :
    FreeCase a (a.emitFree s) := by
  unfold emitFree
  cases a.made[s]? with
  | none => exact .same a.made h
  | some sock =>
    dsimp only
    split_ifs
    · exact free_cases s h sock
    · exact .same a.made h

lemma FreeCase.pool {b : Agent} (h : FreeCase a b) : b.pool n = a.pool n := by
  cases h <;> rfl

lemma FreeCase.waiting {b : Agent} (h : FreeCase a b) (hw : b.waiting n ≠ []) :
    a.waiting n ≠ [] := by
  cases h with
  | same => exact hw
  | given s name req rest hreq =>
    by_cases hn : n = name
    · rw [hn, hreq]
      exact List.cons_ne_nil _ _
    · have heq : Agent.waiting (Agent.onSocket { a with
          requests := Function.update a.requests name (if rest = [] then none else some rest) }
          req s) n = a.waiting n := by
        simp [Agent.waiting, onSocket, hn]
      rwa [heq] at hw

lemma removeSocket_idle (h : a.waiting name = []) :
    a.removeSocket s name target d = a.splice s name := by
  have hreq : (a.splice s name).waiting name = [] := by rw [waiting_splice, h]
  unfold removeSocket
  dsimp only
  split
  next hl =>
    rw [waiting, hl] at hreq
    exact absurd hreq (List.cons_ne_nil _ _)
  next => rfl

lemma removeSocket_busy (h : a.waiting name ≠ []) : a.removeSocket s name target d =
    ((a.splice s name).createSocket name target d).emitFree a.made.length := by
  have hreq : (a.splice s name).waiting name ≠ [] := by rwa [waiting_splice]
  unfold removeSocket
  dsimp only
  split
  next => rw [made_splice]
  next hl =>
    rw [waiting] at hreq
    cases hr : (a.splice s name).requests name with
    | none => exact absurd (by rw [hr]; rfl) hreq
    | some l =>
      cases l with
      | nil => exact absurd (by rw [hr]; rfl) hreq
      | cons req rest => exact absurd hr (hl req rest)

end Agent

namespace Kept

variable {a : Agent} (hk : Kept a)

include hk

lemma once : ∀ req ∈ a.arrived,
    a.assigned.countP (fun p => p.1 = req) + (a.waiting req.target.name).count req = 1 := by
  intro req hreq
  have hadded : (a.added req.target.name).count req = 1 := by
    refine List.count_eq_one_of_mem (hk.nodup.filter _) ?_
    exact List.mem_filter.mpr ⟨hreq, by simp⟩
  have hhanded : a.assigned.countP (fun p => p.1 = req) =
      (a.handed req.target.name).count req := by
    rw [Agent.handed, List.count_filter (by simp), List.count, List.countP_map]
    exact List.countP_congr fun p _ => by simp [Function.comp]
  rw [hhanded, ← List.count_append, hk.order, hadded]

lemma freeCase {b : Agent} (h : Agent.FreeCase a b) : Kept b := by
  cases h with
  | same made h => exact { hk with named := h }
  | given s name req rest hreq =>
    refine { hk with order := ?_ }
    intro n
    have hname : req.target.name = name := by
      have hmem : req ∈ a.added name := by
        rw [← hk.order, hreq]
        exact List.mem_append_right _ List.mem_cons_self
      simpa using (List.mem_filter.mp hmem).2
    rw [Agent.handed_onSocket, Agent.waiting_onSocket]
    by_cases hn : name = n
    · subst hn
      have hrest : Agent.waiting { a with
          requests := Function.update a.requests name (if rest = [] then none else some rest) }
          name = rest := by
        by_cases hr : rest = [] <;> simp [Agent.waiting, hr]
      rw [if_pos hname, hrest, List.append_assoc, List.singleton_append, ← hreq]
      exact hk.order name
    · have hrest : Agent.waiting { a with
          requests := Function.update a.requests name (if rest = [] then none else some rest) }
          n = a.waiting n := by
        simp [Agent.waiting, Ne.symm hn]
      rw [if_neg (fun h => hn (hname.symm.trans h)), hrest, List.append_nil]
      exact hk.order n

lemma splice (s : ℕ) (name : String) : Kept (a.splice s name) := by
  rw [Agent.splice_eq]
  exact { hk with }

lemma createSocket {name : String} {target : Target} (h : name = target.name) (d : Bool) :
    Kept (a.createSocket name target d) := by
  refine { hk with named := ?_ }
  intro sock hsock
  rcases List.mem_append.mp hsock with hsock | hsock
  · exact hk.named sock hsock
  · rw [List.mem_singleton.mp hsock]
    exact h

lemma unlisten (s : ℕ) : Kept (a.unlisten s) :=
  { hk with named := Agent.named_modify s (fun _ h => h) hk.named }

/-- The next request is a new one, and the last of its name. -/
lemma arrive {target : Target} {req : Request} (hreq : req = ⟨a.arrived.length, target⟩)
    {b : Agent} (harrived : b.arrived = a.arrived ++ [req])
    (horder : ∀ n, b.handed n ++ b.waiting n =
      a.handed n ++ a.waiting n ++ if target.name = n then [req] else [])
    (hnamed : ∀ sock ∈ b.made, sock.name = sock.target.name) : Kept b where
  order n := by
    rw [horder, hk.order, Agent.added, Agent.added, harrived, List.filter_append,
      List.filter_singleton, hreq]
    simp [cond_eq_ite]
  numbered r hr := by
    rw [harrived, List.length_append, List.length_singleton]
    rcases List.mem_append.mp (harrived ▸ hr) with hr | hr
    · exact Nat.lt_succ_of_lt (hk.numbered r hr)
    · rw [List.mem_singleton.mp hr, hreq]
      exact Nat.lt_succ_self _
  nodup := by
    rw [harrived]
    refine List.nodup_append.mpr ⟨hk.nodup, List.nodup_singleton _, ?_⟩
    intro r hr r' hr' heq
    have := hk.numbered r hr
    rw [heq, List.mem_singleton.mp hr', hreq] at this
    exact lt_irrefl _ this
  named := hnamed

end Kept

/-- What holds of an agent after any event: a request waits only where no more sockets may be
made. -/
structure Inv (maxSockets : ℕ∞) (a : Agent) : Prop extends Kept a where
  bounded : ∀ name, ((a.pool name).length : ℕ∞) ≤ maxSockets
  full : ∀ name, a.waiting name ≠ [] → ((a.pool name).length : ℕ∞) = maxSockets

lemma inv_new (maxSockets : ℕ∞) : Inv maxSockets .new where
  order _ := rfl
  numbered _ h := absurd h List.not_mem_nil
  nodup := List.nodup_nil
  named _ h := absurd h List.not_mem_nil
  bounded _ := by simp [Agent.pool, Agent.new]
  full _ h := absurd rfl h

namespace Inv

variable {maxSockets : ℕ∞} {a : Agent} (hi : Inv maxSockets a)

include hi

lemma sound : Sound maxSockets a := ⟨hi.bounded, hi.full, hi.order, hi.toKept.once⟩

lemma freeCase {b : Agent} (h : Agent.FreeCase a b) : Inv maxSockets b where
  toKept := hi.toKept.freeCase h
  bounded n := by
    rw [h.pool]
    exact hi.bounded n
  full n hn := by
    rw [h.pool]
    exact hi.full n (h.waiting n hn)

lemma removeSocket {s : ℕ} {name : String} {target : Target} {d : Bool}
    (hname : name = target.name) (h : s ∈ a.pool name ∨ a.waiting name = []) :
    Inv maxSockets (a.removeSocket s name target d) := by
  by_cases hw : a.waiting name = []
  · rw [Agent.removeSocket_idle s name target d hw]
    refine ⟨hi.toKept.splice s name, ?_, ?_⟩
    · intro n
      rw [Agent.pool_splice]
      split_ifs with hn
      · exact le_trans (Nat.cast_le.mpr List.length_erase_le) (hi.bounded name)
      · exact hi.bounded n
    · intro n hn
      rw [Agent.waiting_splice] at hn
      have hne : n ≠ name := fun h => hn (h ▸ hw)
      rw [Agent.pool_splice, if_neg hne]
      exact hi.full n hn
  · have hs : s ∈ a.pool name := h.resolve_right hw
    rw [Agent.removeSocket_busy s name target d hw]
    have hlength : ∀ n, (((a.splice s name).createSocket name target d).pool n).length =
        (a.pool n).length := by
      intro n
      rw [Agent.pool_createSocket]
      split_ifs with hn
      · have := List.length_pos_of_mem hs
        rw [List.length_append, Agent.pool_splice, if_pos rfl, List.length_erase_of_mem hs, hn,
          List.length_singleton]
        omega
      · rw [Agent.pool_splice, if_neg hn]
    have hnew : Inv maxSockets ((a.splice s name).createSocket name target d) := by
      refine ⟨(hi.toKept.splice s name).createSocket hname d, ?_, ?_⟩
      · intro n
        rw [hlength]
        exact hi.bounded n
      · intro n hn
        rw [hlength]
        exact hi.full n (by simpa using hn)
    exact hnew.freeCase (Agent.emitFree_cases _ hnew.named)

lemma addRequest (target : Target) (d : Bool) :
    Inv maxSockets (a.addRequest maxSockets target d) := by
  obtain ⟨req, hreq⟩ : ∃ req : Request, req = ⟨a.arrived.length, target⟩ := ⟨_, rfl⟩
  have hname : req.target.name = target.name := by rw [hreq]
  simp only [Agent.addRequest, Agent.pool_arrive, ← hreq]
  by_cases hroom : ((a.pool target.name).length : ℕ∞) < maxSockets
  · rw [if_pos hroom]
    have hidle : a.waiting target.name = [] := by
      by_contra hw
      exact hroom.ne (hi.full target.name hw)
    refine ⟨hi.toKept.arrive hreq rfl ?_ ?_, ?_, ?_⟩
    · intro n
      rw [Agent.handed_onSocket, hname]
      by_cases hn : target.name = n
      · simp [hn, hn ▸ hidle]
      · simp [hn]
    · intro sock hsock
      rcases List.mem_append.mp hsock with hsock | hsock
      · exact hi.named sock hsock
      · rw [List.mem_singleton.mp hsock]
    · intro n
      rw [Agent.pool_onSocket, Agent.pool_createSocket]
      split_ifs with hn
      · rw [Agent.pool_arrive, List.length_append, List.length_singleton]
        exact_mod_cast Order.add_one_le_of_lt hroom
      · rw [Agent.pool_arrive]
        exact hi.bounded n
    · intro n hw
      have hn : n ≠ target.name := fun h => hw (by simpa [h] using hidle)
      rw [Agent.pool_onSocket, Agent.pool_createSocket, if_neg hn, Agent.pool_arrive]
      exact hi.full n (by simpa using hw)
  · rw [if_neg hroom]
    refine ⟨hi.toKept.arrive hreq rfl ?_ hi.named, ?_, ?_⟩
    · intro n
      rw [Agent.waiting_enqueue]
      by_cases hn : target.name = n
      · simp [hn]
      · simp [hn, Ne.symm hn]
    · intro n
      simpa using hi.bounded n
    · intro n hw
      rw [Agent.pool_enqueue, Agent.pool_arrive]
      by_cases hn : n = target.name
      · rw [hn]
        exact le_antisymm (hi.bounded _) (not_lt.mp hroom)
      · refine hi.full n ?_
        simpa [Agent.waiting_enqueue, hn] using hw

lemma unlisten (s : ℕ) : Inv maxSockets (a.unlisten s) :=
  { hi with toKept := hi.toKept.unlisten s }

lemma step {act : Act} (h : ¬act.Again a) : Inv maxSockets (step maxSockets a act) := by
  have hremove : ∀ {s sock d}, a.made[s]? = some sock → sock.listening = true →
      ¬(s ∉ a.pool sock.name ∧ a.waiting sock.name ≠ []) →
      Inv maxSockets (a.removeSocket s sock.name sock.target d) := by
    intro s sock d hsock _ hagain
    refine hi.removeSocket (hi.named sock (List.mem_of_getElem? hsock)) ?_
    by_contra hne
    exact hagain (not_or.mp hne)
  cases act with
  | addRequest target d => exact hi.addRequest target d
  | free s => exact hi.freeCase (Agent.emitFree_cases s hi.named)
  | close s d =>
    simp only [AgentPool.step, Agent.emitClose]
    cases hsock : a.made[s]? with
    | none => exact hi
    | some sock =>
      dsimp only
      split_ifs with hl
      · exact hremove hsock hl fun hagain => h ⟨sock, hsock, hl, hagain⟩
      · exact hi
  | agentRemove s d =>
    simp only [AgentPool.step, Agent.emitAgentRemove]
    cases hsock : a.made[s]? with
    | none => exact hi
    | some sock =>
      dsimp only
      split_ifs with hl
      · exact (hremove hsock hl fun hagain => h ⟨sock, hsock, hl, hagain⟩).unlisten s
      · exact hi
  | destroy s => exact hi.freeCase (.same _ (Agent.named_modify s (fun _ h => h) hi.named))

/-- Where a socket that has gone goes again, the pool gets one too many. -/
lemma again {act : Act} (h : act.Again a) :
    ¬Sound maxSockets (AgentPool.step maxSockets a act) := by
  have hremove : ∀ {s sock d}, a.made[s]? = some sock → s ∉ a.pool sock.name →
      a.waiting sock.name ≠ [] → ∀ {b : Agent},
      (b.pool sock.name = (a.removeSocket s sock.name sock.target d).pool sock.name) →
      ¬Sound maxSockets b := by
    intro s sock d hsock hs hw b hb hsound
    have hnew : Kept ((a.splice s sock.name).createSocket sock.name sock.target d) :=
      (hi.toKept.splice s sock.name).createSocket (hi.named sock (List.mem_of_getElem? hsock)) d
    have hpool : b.pool sock.name = a.pool sock.name ++ [a.made.length] := by
      rw [hb, Agent.removeSocket_busy s sock.name sock.target d hw,
        (Agent.emitFree_cases _ hnew.named).pool, Agent.pool_createSocket, if_pos rfl,
        Agent.pool_splice, if_pos rfl, List.erase_of_not_mem hs, Agent.made_splice]
    have hle := hsound.bounded sock.name
    rw [hpool, List.length_append, List.length_singleton, ← hi.full sock.name hw] at hle
    exact Nat.not_succ_le_self _ (by exact_mod_cast hle)
  cases act with
  | close s d =>
    obtain ⟨sock, hsock, hl, hs, hw⟩ := h
    refine hremove (d := d) hsock hs hw ?_
    simp only [AgentPool.step, Agent.emitClose, hsock, hl, if_true]
  | agentRemove s d =>
    obtain ⟨sock, hsock, hl, hs, hw⟩ := h
    refine hremove (d := d) hsock hs hw ?_
    simp only [AgentPool.step, Agent.emitAgentRemove, hsock, hl, if_true, Agent.pool_unlisten]
  | addRequest | free | destroy => exact h.elim

end Inv

/-- **The pool of an agent.** After every event the pools are within bounds, a request waits only
where the pool is full, and the requests of a name get their sockets in order, one each, as long
as no socket goes a second time while a request waits for its name. -/
theorem pool_sound_iff (maxSockets : ℕ∞) (acts : List Act) :
    (∀ n, Sound maxSockets (Ledger.run (step maxSockets) .new (acts.take n))) ↔
      Ledger.Along (step maxSockets) (fun a act => ¬act.Again a) .new acts :=
  Ledger.always_iff (I := Inv maxSockets) (fun _ => Inv.sound) (fun _ _ hi => hi.step)
    (fun _ _ hi hsound hagain => hi.again hagain hsound) (inv_new maxSockets) acts

/-! ### A socket that goes twice -/

def origin : Target := ⟨"localhost", "80", ""⟩

/-- Three requests for one socket. It closes, and then somebody takes it out of the pool. -/
def twice : List Act :=
  [.addRequest origin false, .addRequest origin false, .addRequest origin false,
    .close 0 false, .agentRemove 0 false]

theorem not_sound_twice : ¬Sound 1 (Ledger.run (step 1) .new twice) := by
  intro h
  have hlength : ((Ledger.run (step 1) .new twice).pool origin.name).length = 2 := by decide +kernel
  have := h.bounded origin.name
  rw [hlength] at this
  exact absurd this (by decide)

end NodeCore.AgentPool
