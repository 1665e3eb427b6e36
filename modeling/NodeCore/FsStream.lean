import NodeCore.Ledger

/-!
`fs.ReadStream` and `fs.WriteStream`: who closes the descriptor, and how often.

The streams are opened by path and close by themselves. What matters of a listener on `'open'`
is which of `destroy` and `close` it calls; everything else that calls them is a step of its
own.
-/

namespace NodeCore.FsStream

open NodeCore.Ledger

inductive Call
  | destroy | close
  deriving DecidableEq

/-- A listener on `'open'`. -/
inductive Listener
  /-- The inner function of `close`. -/
  | closing
  | user (calls : List Call)
  deriving DecidableEq

inductive Kind
  | read | write
  deriving DecidableEq

structure Stream where
  kind : Kind
  fd : Option ℕ
  destroyed : Bool
  closed : Bool
  /-- Those on `'open'`, in order. -/
  listeners : List Listener
  /-- `WriteStream` still listens on `'finish'`. -/
  onFinish : Bool
  /-- The callback of `fs.open` is still to come. -/
  opening : Bool
  /-- What `fs.open` has obtained. -/
  obtained : Option ℕ
  /-- What has been passed to `fs.close`. -/
  closes : List ℕ
  /-- `destroy` or `close` has been called, by anyone. -/
  asked : Bool
  /-- `fs.close(null)` throws. -/
  threw : Bool
  deriving DecidableEq

def Stream.new (kind : Kind) : Stream where
  kind := kind
  fd := none
  destroyed := false
  closed := false
  listeners := []
  onFinish := kind = .write
  opening := true
  obtained := none
  closes := []
  asked := false
  threw := false

namespace Stream

variable (s : Stream)

/-- `close`. -/
def close : Stream :=
  let s := { s with asked := true }
  match s.fd with
  | none => { s with listeners := s.listeners ++ [.closing] }
  | some fd =>
    if s.closed then s else { s with closed := true, closes := s.closes ++ [fd], fd := none }

/-- `destroy`. -/
def destroy : Stream :=
  let s := { s with asked := true }
  if s.destroyed then s
  else
    let s := { s with destroyed := true }
    if s.fd.isSome then s.close else s

def call : Call → Stream
  | .destroy => s.destroy
  | .close => s.close

/-- A listener is told of the descriptor. In `fd || self.fd` the descriptor 0 does not count. -/
def tell (fd : ℕ) : Listener → Stream
  | .closing =>
    match if fd ≠ 0 then some fd else s.fd with
    | some fd => { s with closes := s.closes ++ [fd], fd := none }
    | none => { s with threw := true }
  | .user calls => calls.foldl call s

/-- The listeners there are when `'open'` is emitted. -/
def emitOpen (fd : ℕ) (s : Stream) : List Listener → Stream
  | [] => s
  | l :: ls => if (s.tell fd l).threw then s.tell fd l else emitOpen fd (s.tell fd l) ls

end Stream

/-- What happens. -/
inductive Act
  /-- The callback of `fs.open`, with what it has obtained. -/
  | opened (fd : Option ℕ)
  | call (c : Call)
  /-- A listener on `'open'` is added. -/
  | listen (calls : List Call)
  /-- A read or a write fails. -/
  | failed
  /-- `'end'`, or `'finish'`. -/
  | ended

def step (s : Stream) : Act → Stream
  | .opened fd =>
    if !s.opening then s
    else
      let s := { s with opening := false }
      match fd, s.kind with
      | some fd, _ =>
        Stream.emitOpen fd { s with fd := some fd, obtained := some fd, listeners := [] }
          s.listeners
      -- in the callback of `ReadStream` the test of `autoClose` is made on another `this`
      | none, .read => s
      | none, .write => s.destroy
  | .call c => s.call c
  | .listen calls => { s with listeners := s.listeners ++ [.user calls] }
  | .failed => s.destroy
  | .ended =>
    match s.kind with
    | .read => s.destroy
    | .write => if s.onFinish then { s with onFinish := false }.close else s

/-- **What is claimed**: the descriptor is passed to `fs.close` at most once, and once if the
stream has been asked to let go of it. -/
def Sound (s : Stream) : Prop :=
  ∀ fd, s.obtained = some fd → s.closes.count fd ≤ 1 ∧ (s.asked = true → s.closes.count fd = 1)

/-! ### Calls -/

section Calls

variable {s : Stream} {n : ℕ}

lemma close_none (h : s.fd = none) :
    s.close = { s with asked := true, listeners := s.listeners ++ [.closing] } := by
  simp [Stream.close, h]

lemma close_some (h : s.fd = some n) (hc : s.closed = false) :
    s.close = { s with asked := true, closed := true, closes := s.closes ++ [n], fd := none } := by
  simp [Stream.close, h, hc]

lemma destroy_again (h : s.destroyed = true) : s.destroy = { s with asked := true } := by
  simp [Stream.destroy, h]

lemma destroy_none (h : s.destroyed = false) (hfd : s.fd = none) :
    s.destroy = { s with asked := true, destroyed := true } := by
  simp [Stream.destroy, h, hfd]

lemma destroy_some (h : s.destroyed = false) (hfd : s.fd = some n) (hc : s.closed = false) :
    s.destroy = { s with
      asked := true, destroyed := true, closed := true, closes := s.closes ++ [n],
      fd := none } := by
  simp [Stream.destroy, Stream.close, h, hfd, hc]

/-- A call only adds to what has been closed. -/
lemma call_frame (s : Stream) (c : Call) :
    s.closes <+: (s.call c).closes ∧ (s.call c).obtained = s.obtained ∧
      (s.call c).threw = s.threw := by
  have hclose : ∀ s : Stream, s.closes <+: s.close.closes ∧ s.close.obtained = s.obtained ∧
      s.close.threw = s.threw := by
    intro s
    unfold Stream.close
    cases s.fd with
    | none => exact ⟨List.prefix_rfl, rfl, rfl⟩
    | some n =>
      dsimp only
      split_ifs
      · exact ⟨List.prefix_rfl, rfl, rfl⟩
      · exact ⟨List.prefix_append _ _, rfl, rfl⟩
  cases c with
  | close => exact hclose s
  | destroy =>
    unfold Stream.call Stream.destroy
    dsimp only
    split_ifs
    · exact ⟨List.prefix_rfl, rfl, rfl⟩
    · exact hclose { s with asked := true, destroyed := true }
    · exact ⟨List.prefix_rfl, rfl, rfl⟩

lemma calls_frame (s : Stream) (calls : List Call) :
    s.closes <+: (calls.foldl Stream.call s).closes ∧
      (calls.foldl Stream.call s).obtained = s.obtained ∧
      (calls.foldl Stream.call s).threw = s.threw := by
  induction calls generalizing s with
  | nil => exact ⟨List.prefix_rfl, rfl, rfl⟩
  | cons c cs ih =>
    obtain ⟨h1, h2, h3⟩ := call_frame s c
    obtain ⟨i1, i2, i3⟩ := ih (s.call c)
    exact ⟨h1.trans i1, i2.trans h2, i3.trans h3⟩

end Calls

/-! ### Before and after -/

/-- `fs.open` has not called back, or has failed. Only `destroy` has no trace in the listeners. -/
structure Before (s : Stream) : Prop where
  fd : s.fd = none
  obtained : s.obtained = none
  closes : s.closes = []
  closed : s.closed = false
  threw : s.threw = false
  asked : s.asked = true ↔ .closing ∈ s.listeners ∨ s.destroyed = true

/-- The descriptor is open. -/
structure Held (n : ℕ) (s : Stream) : Prop where
  fd : s.fd = some n
  obtained : s.obtained = some n
  closes : s.closes = []
  closed : s.closed = false
  threw : s.threw = false
  opening : s.opening = false

/-- The descriptor has been closed, once. -/
structure Gone (n : ℕ) (s : Stream) : Prop where
  fd : s.fd = none
  obtained : s.obtained = some n
  closes : s.closes = [n]
  opening : s.opening = false

lemma Before.call {s : Stream} (h : Before s) (c : Call) : Before (s.call c) := by
  cases c with
  | close =>
    rw [Stream.call, close_none h.fd]
    exact ⟨h.fd, h.obtained, h.closes, h.closed, h.threw,
      iff_of_true rfl (.inl (List.mem_append_right _ List.mem_cons_self))⟩
  | destroy =>
    rw [Stream.call]
    cases hd : s.destroyed with
    | true =>
      rw [destroy_again hd]
      exact ⟨h.fd, h.obtained, h.closes, h.closed, h.threw, iff_of_true rfl (.inr hd)⟩
    | false =>
      rw [destroy_none hd h.fd]
      exact ⟨h.fd, h.obtained, h.closes, h.closed, h.threw, iff_of_true rfl (.inr rfl)⟩

lemma Gone.call {n : ℕ} {s : Stream} (h : Gone n s) (c : Call) : Gone n (s.call c) := by
  cases c with
  | close =>
    rw [Stream.call, close_none h.fd]
    exact ⟨h.fd, h.obtained, h.closes, h.opening⟩
  | destroy =>
    rw [Stream.call]
    cases hd : s.destroyed with
    | true =>
      rw [destroy_again hd]
      exact ⟨h.fd, h.obtained, h.closes, h.opening⟩
    | false =>
      rw [destroy_none hd h.fd]
      exact ⟨h.fd, h.obtained, h.closes, h.opening⟩

lemma Gone.calls {n : ℕ} {s : Stream} (h : Gone n s) (calls : List Call) :
    Gone n (calls.foldl Stream.call s) := by
  induction calls generalizing s with
  | nil => exact h
  | cons c cs ih => exact ih (h.call c)

/-- The call closes an open descriptor. -/
def Closes (destroyed : Bool) (c : Call) : Prop := c = .close ∨ destroyed = false

lemma Held.call {n : ℕ} {s : Stream} (h : Held n s) {c : Call} (hc : Closes s.destroyed c) :
    Gone n (s.call c) := by
  have hgone : s.closes ++ [n] = [n] := by rw [h.closes, List.nil_append]
  cases c with
  | close =>
    rw [Stream.call, close_some h.fd h.closed]
    exact ⟨rfl, h.obtained, hgone, h.opening⟩
  | destroy =>
    rw [Stream.call, destroy_some (hc.resolve_left Call.noConfusion) h.fd h.closed]
    exact ⟨rfl, h.obtained, hgone, h.opening⟩

/-- Another `destroy` does nothing. -/
lemma Held.call_not {n : ℕ} {s : Stream} (h : Held n s) {c : Call} (hc : ¬ Closes s.destroyed c) :
    Held n (s.call c) ∧ (s.call c).destroyed = true ∧ s.destroyed = true ∧
      (s.call c).asked = true := by
  obtain ⟨h1, h2⟩ := not_or.mp hc
  have hd : s.destroyed = true := Bool.eq_true_of_not_eq_false h2
  cases c with
  | close => exact absurd rfl h1
  | destroy =>
    rw [Stream.call, destroy_again hd]
    exact ⟨⟨h.fd, h.obtained, h.closes, h.closed, h.threw, h.opening⟩, hd, hd, rfl⟩

lemma Held.calls {n : ℕ} {s : Stream} (h : Held n s) {calls : List Call}
    (hc : ∃ c ∈ calls, Closes s.destroyed c) : Gone n (calls.foldl Stream.call s) := by
  induction calls generalizing s with
  | nil => exact absurd hc (by simp)
  | cons c cs ih =>
    by_cases h1 : Closes s.destroyed c
    · exact (h.call h1).calls cs
    · obtain ⟨hheld, hd, hd', -⟩ := h.call_not h1
      refine ih hheld ?_
      obtain ⟨d, hmem, hclose⟩ := hc
      rcases List.mem_cons.mp hmem with rfl | hmem
      · exact absurd hclose h1
      · exact ⟨d, hmem, by rwa [hd, ← hd']⟩

lemma Held.calls_not {n : ℕ} {s : Stream} (h : Held n s)
    (hasked : s.destroyed = true → s.asked = true) {calls : List Call}
    (hc : ∀ c ∈ calls, ¬ Closes s.destroyed c) :
    Held n (calls.foldl Stream.call s) ∧ (calls.foldl Stream.call s).destroyed = s.destroyed ∧
      (calls.foldl Stream.call s).asked = s.asked := by
  induction calls generalizing s with
  | nil => exact ⟨h, rfl, rfl⟩
  | cons c cs ih =>
    obtain ⟨hheld, hd, hd', ha⟩ := h.call_not (hc c List.mem_cons_self)
    obtain ⟨h1, h2, h3⟩ := ih hheld (fun _ => ha) fun d hmem => by
      rw [hd, ← hd']
      exact hc d (List.mem_cons_of_mem _ hmem)
    exact ⟨h1, h2.trans (hd.trans hd'.symm), h3.trans (ha.trans (hasked hd').symm)⟩

/-! ### `'open'` -/

section Open

variable {s : Stream} {n : ℕ}

/-- Some listener of the user closes an open descriptor. -/
def SomeCloses (destroyed : Bool) (ls : List Listener) : Prop :=
  ∃ calls, .user calls ∈ ls ∧ ∃ c ∈ calls, Closes destroyed c

lemma emitOpen_user (hthrew : s.threw = false) (calls : List Call) (ls : List Listener) :
    Stream.emitOpen n s (.user calls :: ls) =
      Stream.emitOpen n (calls.foldl Stream.call s) ls := by
  have h : (s.tell n (.user calls)).threw = false := (calls_frame s calls).2.2.trans hthrew
  rw [Stream.emitOpen, if_neg (by rw [h]; exact Bool.false_ne_true)]
  rfl

/-- Listeners of the user, and then the rest. -/
lemma emitOpen_append (hthrew : s.threw = false) {ls : List Listener} (hls : .closing ∉ ls)
    (rest : List Listener) :
    Stream.emitOpen n s (ls ++ rest) = Stream.emitOpen n (Stream.emitOpen n s ls) rest ∧
      (Stream.emitOpen n s ls).threw = false := by
  induction ls generalizing s with
  | nil => exact ⟨rfl, hthrew⟩
  | cons l ls ih =>
    rw [List.mem_cons, not_or] at hls
    cases l with
    | closing => exact absurd rfl hls.1
    | user calls =>
      rw [List.cons_append, emitOpen_user hthrew, emitOpen_user hthrew]
      exact ih ((calls_frame s calls).2.2.trans hthrew) hls.2

lemma emitOpen_gone (h : Gone n s) {ls : List Listener} (hls : .closing ∉ ls ∨ n = 0) :
    Gone n (Stream.emitOpen n s ls) := by
  induction ls generalizing s with
  | nil => exact h
  | cons l ls ih =>
    have htell : Gone n (s.tell n l) ∧ (l = .closing → (s.tell n l).threw = true) := by
      cases l with
      | user calls => exact ⟨h.calls calls, fun he => by cases he⟩
      | closing =>
        obtain rfl : n = 0 := hls.resolve_left fun hn => hn List.mem_cons_self
        simp only [Stream.tell, ne_eq, not_true, if_false, h.fd]
        exact ⟨⟨rfl, h.obtained, h.closes, h.opening⟩, fun _ => trivial⟩
    unfold Stream.emitOpen
    split_ifs
    · exact htell.1
    · exact ih htell.1 (hls.imp_left fun hn hmem => hn (List.mem_cons_of_mem _ hmem))

lemma emitOpen_mono (ls : List Listener) (s : Stream) :
    s.closes <+: (Stream.emitOpen n s ls).closes ∧
      (Stream.emitOpen n s ls).obtained = s.obtained := by
  induction ls generalizing s with
  | nil => exact ⟨List.prefix_rfl, rfl⟩
  | cons l ls ih =>
    have htell : s.closes <+: (s.tell n l).closes ∧ (s.tell n l).obtained = s.obtained := by
      cases l with
      | user calls => exact ⟨(calls_frame s calls).1, (calls_frame s calls).2.1⟩
      | closing =>
        unfold Stream.tell
        dsimp only
        cases (if n ≠ 0 then some n else s.fd) with
        | none => exact ⟨List.prefix_rfl, rfl⟩
        | some m => exact ⟨List.prefix_append _ _, rfl⟩
    unfold Stream.emitOpen
    split_ifs
    · exact htell
    · obtain ⟨h1, h2⟩ := ih (s.tell n l)
      exact ⟨htell.1.trans h1, h2.trans htell.2⟩

/-- A `close` that has waited for the descriptor closes it again. -/
lemma emitOpen_twice (h : Gone n s) (hthrew : s.threw = false) (hn : n ≠ 0)
    {ls : List Listener} (hls : .closing ∈ ls) :
    2 ≤ (Stream.emitOpen n s ls).closes.count n ∧
      (Stream.emitOpen n s ls).obtained = some n := by
  induction ls generalizing s with
  | nil => exact absurd hls List.not_mem_nil
  | cons l ls ih =>
    cases l with
    | user calls =>
      rw [emitOpen_user hthrew]
      refine ih (h.calls calls) ((calls_frame s calls).2.2.trans hthrew) ?_
      exact (List.mem_cons.mp hls).resolve_left Listener.noConfusion
    | closing =>
      have htell : s.tell n .closing = { s with closes := [n, n], fd := none } := by
        simp [Stream.tell, hn, h.closes]
      have hnot : ¬ (s.tell n .closing).threw = true := by
        rw [htell, hthrew]
        exact Bool.false_ne_true
      obtain ⟨h1, h2⟩ := emitOpen_mono (n := n) ls (s.tell n .closing)
      rw [Stream.emitOpen, if_neg hnot, h2]
      rw [htell] at h1 ⊢
      refine ⟨?_, h.obtained⟩
      have hcount := h1.sublist.count_le n
      rwa [List.count_cons_self, List.count_cons_self, List.count_nil] at hcount

/-- Without a `close` that waits. -/
lemma emitOpen_held (h : Held n s) (hasked : s.destroyed = true → s.asked = true)
    {ls : List Listener} (hls : .closing ∉ ls) :
    (SomeCloses s.destroyed ls → Gone n (Stream.emitOpen n s ls)) ∧
      (¬ SomeCloses s.destroyed ls → Held n (Stream.emitOpen n s ls) ∧
        (Stream.emitOpen n s ls).destroyed = s.destroyed ∧
        (Stream.emitOpen n s ls).asked = s.asked) := by
  induction ls generalizing s with
  | nil => exact ⟨fun ⟨_, hmem, _⟩ => absurd hmem List.not_mem_nil, fun _ => ⟨h, rfl, rfl⟩⟩
  | cons l ls ih =>
    rw [List.mem_cons, not_or] at hls
    cases l with
    | closing => exact absurd rfl hls.1
    | user calls =>
      rw [emitOpen_user h.threw]
      by_cases hc : ∃ c ∈ calls, Closes s.destroyed c
      · have hsome : SomeCloses s.destroyed (.user calls :: ls) :=
          ⟨calls, List.mem_cons_self, hc⟩
        exact ⟨fun _ => emitOpen_gone (h.calls hc) (.inl hls.2), fun hn => absurd hsome hn⟩
      · have hnone : ∀ c ∈ calls, ¬ Closes s.destroyed c := fun c hmem hclose =>
          hc ⟨c, hmem, hclose⟩
        obtain ⟨h1, h2, h3⟩ := h.calls_not hasked hnone
        have hiff : SomeCloses s.destroyed (.user calls :: ls) ↔ SomeCloses s.destroyed ls := by
          constructor
          · rintro ⟨cs, hmem, hclose⟩
            rcases List.mem_cons.mp hmem with he | hmem
            · obtain rfl := Listener.user.inj he
              exact absurd hclose hc
            · exact ⟨cs, hmem, hclose⟩
          · rintro ⟨cs, hmem, hclose⟩
            exact ⟨cs, List.mem_cons_of_mem _ hmem, hclose⟩
        obtain ⟨i1, i2⟩ := ih h1 (fun hd => h3.trans (hasked (h2 ▸ hd))) hls.2
        rw [h2] at i1 i2
        rw [hiff]
        refine ⟨i1, fun hn => ?_⟩
        obtain ⟨j1, j2, j3⟩ := i2 hn
        exact ⟨j1, j2, j3.trans h3⟩

end Open

/-! ### Runs -/

/-- What the descriptor `n` must find when it comes: one `close` that waits, and before it no
listener that closes the stream; or none, and then, if the stream has been destroyed, a listener
that calls `close`. -/
def OpenOk (n : ℕ) (s : Stream) : Prop :=
  if .closing ∈ s.listeners then
    n = 0 ∨ ∃ pre post, s.listeners = pre ++ .closing :: post ∧ .closing ∉ pre ∧ .closing ∉ post ∧
      ¬ SomeCloses s.destroyed pre
  else s.destroyed = true → SomeCloses true s.listeners

/-- The step is not one that goes wrong. -/
def StepOk (s : Stream) : Act → Prop
  | .opened (some n) => s.opening = true → OpenOk n s
  | _ => True

/-- A state that is sound, and can only go wrong when the descriptor comes. -/
def Good (s : Stream) : Prop :=
  Before s ∨ ∃ n, (Held n s ∧ s.asked = false ∧ s.destroyed = false) ∨ Gone n s

lemma Gone.sound {n : ℕ} {s : Stream} (h : Gone n s) : Sound s := by
  intro m hm
  rw [h.obtained] at hm
  obtain rfl := Option.some.inj hm
  rw [h.closes, List.count_singleton_self]
  exact ⟨Nat.le_refl 1, fun _ => rfl⟩

lemma Good.sound {s : Stream} (h : Good s) : Sound s := by
  rcases h with h | ⟨n, ⟨h, ha, -⟩ | h⟩
  · intro m hm
    rw [h.obtained] at hm
    cases hm
  · intro m hm
    rw [h.closes, List.count_nil, ha]
    exact ⟨Nat.zero_le 1, fun hf => absurd hf Bool.false_ne_true⟩
  · exact h.sound

lemma Good.call {s : Stream} (h : Good s) (c : Call) : Good (s.call c) := by
  rcases h with h | ⟨n, ⟨h, -, hd⟩ | h⟩
  · exact .inl (h.call c)
  · exact .inr ⟨n, .inr (h.call (.inr hd))⟩
  · exact .inr ⟨n, .inr (h.call c)⟩

/-- The descriptor comes to a `close` that waits. -/
lemma emitOpen_closing {s : Stream} {n : ℕ} (h : Held n s) (post : List Listener) :
    (.closing ∉ post ∨ n = 0 → Gone n (Stream.emitOpen n s (.closing :: post))) ∧
      (n ≠ 0 → .closing ∈ post →
        2 ≤ (Stream.emitOpen n s (.closing :: post)).closes.count n ∧
          (Stream.emitOpen n s (.closing :: post)).obtained = some n) := by
  have htell : s.tell n .closing = { s with closes := [n], fd := none } := by
    have hfd : (if n ≠ 0 then some n else s.fd) = some n := by
      split_ifs
      · rfl
      · exact h.fd
    simp only [Stream.tell, hfd, h.closes, List.nil_append]
  have hgone : Gone n (s.tell n .closing) := by
    rw [htell]
    exact ⟨rfl, h.obtained, rfl, h.opening⟩
  have hthrew : (s.tell n .closing).threw = false := by
    rw [htell]
    exact h.threw
  rw [Stream.emitOpen, if_neg (by rw [hthrew]; exact Bool.false_ne_true)]
  exact ⟨emitOpen_gone hgone, fun hn hmem => emitOpen_twice hgone hthrew hn hmem⟩

lemma not_sound {s : Stream} {n : ℕ} (h : 2 ≤ s.closes.count n ∧ s.obtained = some n) :
    ¬ Sound s := by
  intro hs
  have := (hs n h.2).1
  omega

/-- The descriptor comes. -/
lemma opened_some {s : Stream} (h : Before s) (ho : s.opening = true) (n : ℕ) :
    (OpenOk n s → Good (step s (.opened (some n)))) ∧
      (Sound (step s (.opened (some n))) → OpenOk n s) := by
  set s₁ : Stream :=
    { s with opening := false, fd := some n, obtained := some n, listeners := [] } with hs₁
  have hheld : Held n s₁ := ⟨rfl, rfl, h.closes, h.closed, h.threw, rfl⟩
  have hasked : s₁.destroyed = true → s₁.asked = true := fun hd => h.asked.mpr (.inr hd)
  have hstep : step s (.opened (some n)) = Stream.emitOpen n s₁ s.listeners := by
    simp only [step, ho]
    rfl
  rw [hstep]
  by_cases hmem : .closing ∈ s.listeners
  · rw [OpenOk, if_pos hmem]
    obtain ⟨pre, post, hls, hpre⟩ := List.eq_append_cons_of_mem hmem
    obtain ⟨happ, hthrew⟩ := emitOpen_append (n := n) hheld.threw hpre (.closing :: post)
    obtain ⟨hyes, hno⟩ := emitOpen_held hheld hasked hpre
    rw [hls, happ]
    by_cases hn : n = 0
    · refine ⟨fun _ => ?_, fun _ => .inl hn⟩
      by_cases hc : SomeCloses s.destroyed pre
      · exact .inr ⟨n, .inr (emitOpen_gone (hyes hc) (.inr hn))⟩
      · exact .inr ⟨n, .inr ((emitOpen_closing (hno hc).1 post).1 (.inr hn))⟩
    · -- the first `close` that waits is the only one, and nothing is closed before it
      have hok : (n = 0 ∨ ∃ pre' post', pre ++ .closing :: post = pre' ++ .closing :: post' ∧
          .closing ∉ pre' ∧ .closing ∉ post' ∧ ¬ SomeCloses s.destroyed pre') ↔
            .closing ∉ post ∧ ¬ SomeCloses s.destroyed pre := by
        constructor
        · rintro (h0 | ⟨pre', post', he, hpre', hpost', hc⟩)
          · exact absurd h0 hn
          · have hcount : (pre ++ Listener.closing :: post).count .closing = 1 := by
              rw [he, List.count_append, List.count_cons_self,
                List.count_eq_zero_of_not_mem hpre', List.count_eq_zero_of_not_mem hpost']
            rw [List.count_append, List.count_cons_self,
              List.count_eq_zero_of_not_mem hpre] at hcount
            have hpost : Listener.closing ∉ post := List.count_eq_zero.mp (by omega)
            obtain ⟨rfl, -⟩ := (List.append_cons_inj_of_notMem hpre hpost).mp he
            exact ⟨hpost, hc⟩
        · exact fun ⟨hpost, hc⟩ => .inr ⟨pre, post, rfl, hpre, hpost, hc⟩
      rw [hok]
      constructor
      · rintro ⟨hpost, hc⟩
        exact .inr ⟨n, .inr ((emitOpen_closing (hno hc).1 post).1 (.inl hpost))⟩
      · intro hsound
        by_cases hc : SomeCloses s.destroyed pre
        · exact absurd hsound
            (not_sound (emitOpen_twice (hyes hc) hthrew hn List.mem_cons_self))
        · exact ⟨fun hpost => absurd hsound
            (not_sound ((emitOpen_closing (hno hc).1 post).2 hn hpost)), hc⟩
  · rw [OpenOk, if_neg hmem]
    obtain ⟨hyes, hno⟩ := emitOpen_held hheld hasked hmem
    have hiff : s.asked = true ↔ s.destroyed = true :=
      h.asked.trans ⟨fun hor => hor.resolve_left hmem, .inr⟩
    by_cases hc : SomeCloses s.destroyed s.listeners
    · exact ⟨fun _ => .inr ⟨n, .inr (hyes hc)⟩, fun _ hd => hd ▸ hc⟩
    · obtain ⟨hend, hd, ha⟩ := hno hc
      constructor
      · intro hok
        have hfalse : s.destroyed = false := by
          by_contra hne
          have htrue : s.destroyed = true := Bool.eq_true_of_not_eq_false hne
          exact hc (htrue ▸ hok htrue)
        have hasked' : s.asked = false := by
          by_contra hne
          rw [hiff.mp (Bool.eq_true_of_not_eq_false hne)] at hfalse
          cases hfalse
        exact .inr ⟨n, .inl ⟨hend, ha.trans hasked', hd.trans hfalse⟩⟩
      · intro hsound htrue
        have hone := (hsound n hend.obtained).2 (ha.trans (hiff.mpr htrue))
        rw [hend.closes] at hone
        exact absurd hone Nat.zero_ne_one

lemma good_new (kind : Kind) : Good (.new kind) :=
  .inl ⟨rfl, rfl, rfl, rfl, rfl, iff_of_false Bool.false_ne_true (by simp [Stream.new])⟩

/-- A stream whose descriptor has come. -/
lemma opening_of_good {s : Stream} (h : Good s) (ho : s.opening = true) : Before s := by
  rcases h with h | ⟨n, ⟨h, -⟩ | h⟩
  · exact h
  · exact absurd (h.opening.symm.trans ho) Bool.false_ne_true
  · exact absurd (h.opening.symm.trans ho) Bool.false_ne_true

lemma Before.listen {s : Stream} (h : Before s) (calls : List Call) :
    Before { s with listeners := s.listeners ++ [.user calls] } :=
  ⟨h.fd, h.obtained, h.closes, h.closed, h.threw, by simp [h.asked]⟩

lemma good_step {s : Stream} (h : Good s) (a : Act) (ha : StepOk s a) : Good (step s a) := by
  cases a with
  | call c => exact h.call c
  | failed => exact h.call .destroy
  | listen calls =>
    rcases h with h | ⟨n, ⟨h, h'⟩ | h⟩
    · exact .inl (h.listen calls)
    · exact .inr ⟨n, .inl ⟨⟨h.fd, h.obtained, h.closes, h.closed, h.threw, h.opening⟩, h'⟩⟩
    · exact .inr ⟨n, .inr ⟨h.fd, h.obtained, h.closes, h.opening⟩⟩
  | ended =>
    unfold step
    dsimp only
    split
    · exact h.call .destroy
    · split_ifs
      · have hgood : Good { s with onFinish := false } := by
          rcases h with h | ⟨n, ⟨h, h'⟩ | h⟩
          · exact .inl ⟨h.fd, h.obtained, h.closes, h.closed, h.threw, h.asked⟩
          · exact .inr ⟨n, .inl ⟨⟨h.fd, h.obtained, h.closes, h.closed, h.threw, h.opening⟩, h'⟩⟩
          · exact .inr ⟨n, .inr ⟨h.fd, h.obtained, h.closes, h.opening⟩⟩
        exact hgood.call .close
      · exact h
  | opened fd =>
    cases ho : s.opening with
    | false =>
      have hstep : step s (.opened fd) = s := by simp [step, ho]
      rwa [hstep]
    | true =>
      have hb := opening_of_good h ho
      cases fd with
      | some n => exact (opened_some hb ho n).1 (ha ho)
      | none =>
        have hb' : Before { s with opening := false } :=
          ⟨hb.fd, hb.obtained, hb.closes, hb.closed, hb.threw, hb.asked⟩
        simp only [step, ho, Bool.not_true, Bool.false_eq_true, if_false]
        split
        · rename_i hnone
          cases hnone
        · exact .inl hb'
        · exact .inl (hb'.call .destroy)

lemma stepOk_of_sound {s : Stream} (h : Good s) (a : Act) (hs : Sound (step s a)) :
    StepOk s a := by
  cases a with
  | opened fd =>
    cases fd with
    | none => trivial
    | some n => exact fun ho => (opened_some (opening_of_good h ho) ho n).2 hs
  | _ => trivial

/-- **The descriptor is closed exactly once exactly if it comes at the right time**: in every
run of calls, failures and ends, around and during `'open'`, the stream is sound in every state
if and only if the descriptor finds one `close` that waits and nothing that closes before it, or
none and a stream that has not been destroyed in vain. -/
theorem closes_once_iff (kind : Kind) (acts : List Act) :
    (∀ k, Sound (run step (.new kind) (acts.take k))) ↔ Along step StepOk (.new kind) acts :=
  always_iff (I := Good) (fun _ => Good.sound) (fun _ a h ha => good_step h a ha)
    (fun _ a h hs => stepOk_of_sound h a hs) (good_new kind) acts

/-- Two calls of `close` before `'open'`: the descriptor is closed twice. -/
theorem closed_twice :
    ¬ ∀ (kind : Kind) (acts : List Act), Sound (run step (.new kind) acts) := by
  intro h
  have := h .read [.call .close, .call .close, .opened (some 7)] 7 rfl
  exact absurd this.1 (by decide)

/-- A call of `destroy` before `'open'`: the descriptor is never closed. -/
example : (run step (.new .read) [.call .destroy, .opened (some 7)]).closes = [] := rfl

end NodeCore.FsStream
