import NodeCore.ReadableConserve
import NodeCore.StringDecoder

/-!
A readable stream with a decoder: no data is left behind in its buffer.

The decoder makes an empty string of a Buffer that only begins a character, and an empty string
takes a place in the buffer. Once a stream flows, `read` takes the first string; as long as nothing
stands behind an empty one, it gets something whenever there is something.
-/

namespace NodeCore.ReadableDecoded

open NodeCore.Encoding NodeCore.Reentrant NodeCore.Readable NodeCore.ReadableConserve

variable {α σ : Type}

/-! ### The order of the buffer -/

/-- Nothing stands behind an empty chunk. -/
def Ordered (buffer : List (List α)) : Prop := buffer.Pairwise fun x y => x = [] → y = []

lemma Ordered.append {buffer : List (List α)} (h : Ordered buffer) {chunk : List α}
    (hc : chunk ≠ [] → [] ∉ buffer) : Ordered (buffer ++ [chunk]) := by
  refine List.pairwise_append.mpr ⟨h, List.pairwise_singleton _ _, fun x hx y hy hnil => ?_⟩
  rw [List.mem_singleton.mp hy]
  by_contra hne
  exact hc hne (hnil ▸ hx)

/-- The rest of a first chunk, if it is not empty. -/
lemma Ordered.cons {chunk : List α} {rest : List (List α)} (h : Ordered rest) (hc : chunk ≠ []) :
    Ordered (chunk :: rest) := List.pairwise_cons.mpr ⟨fun _ _ hnil => absurd hnil hc, h⟩

lemma Ordered.front {chunk : List α} {rest : List (List α)} (h : Ordered (chunk :: rest))
    (hne : (chunk :: rest).flatten ≠ []) : chunk ≠ [] := by
  rintro rfl
  refine hne (List.flatten_eq_nil_iff.mpr fun x hx => ?_)
  rcases List.mem_cons.mp hx with rfl | hx
  · rfl
  · exact (List.pairwise_cons.mp h).1 x hx rfl

lemma drop_ne_nil {chunk : List α} {n : ℕ} (h : n < chunk.length) : chunk.drop n ≠ [] := by
  intro hnil
  rw [List.drop_eq_nil_iff] at hnil
  omega

lemma Ordered.pluck {list : List (List α)} (h : Ordered list) (n : ℕ) :
    Ordered (pluck n list).2 := by
  induction list generalizing n with
  | nil => exact h
  | cons chunk rest ih =>
    have hrest : Ordered rest := (List.pairwise_cons.mp h).2
    rw [Readable.pluck]
    split_ifs with h0 hlt
    · exact h
    · exact hrest.cons (drop_ne_nil hlt)
    · exact ih hrest _

lemma Ordered.fromList {list : List (List α)} (h : Ordered list) {n : ℤ} (hn : 0 < n)
    (length : ℤ) : Ordered (fromList n length list).2 := by
  unfold Readable.fromList
  split
  · exact h
  · next chunk rest =>
    have hrest : Ordered rest := (List.pairwise_cons.mp h).2
    split_ifs
    · exact h
    · exact List.Pairwise.nil
    · exact hrest.cons (drop_ne_nil (by omega))
    · exact hrest
    · exact h.pluck _

/-! ### What `read` gets -/

/-- Something is left behind nothing, no `read` has gone away empty from a stream that has data, and
those that are going on will not. -/
structure Lively (s : State α σ) (k : List Frame) : Prop where
  order : Ordered s.buffer
  fed : s.starved = false
  counts : ∀ n nOrig, .read n nOrig true ∈ k → 0 < n ∧ nOrig = none

section Lively

variable {s t : State α σ} {k : List Frame}

lemma Lively.congr (h : Lively s k) (hb : t.buffer = s.buffer) (hs : t.starved = s.starved) :
    Lively t k := ⟨hb ▸ h.order, hs ▸ h.fed, h.counts⟩

lemma Lively.pop {f : Frame} (h : Lively s (f :: k)) : Lively s k :=
  ⟨h.order, h.fed, fun n nOrig hmem => h.counts n nOrig (List.mem_cons_of_mem _ hmem)⟩

lemma Lively.push {f : Frame} (h : Lively s k) (hf : ∀ n nOrig, f ≠ .read n nOrig true) :
    Lively s (f :: k) := by
  refine ⟨h.order, h.fed, fun n nOrig hmem => ?_⟩
  rcases List.mem_cons.mp hmem with heq | hmem
  · exact absurd heq.symm (hf n nOrig)
  · exact h.counts n nOrig hmem

lemma Lively.user (h : Lively s k) : Lively s (.user :: k) := h.push nofun

/-- There is data in front. -/
lemma Lively.first (h : Lively s k) (hc : Conserved s) (hpos : 0 < s.length) :
    ∃ chunk rest, s.buffer = chunk :: rest ∧ chunk ≠ [] := by
  have hlength := hc.length_eq
  cases hbuffer : s.buffer with
  | nil =>
    rw [hbuffer] at hlength
    simp only [List.flatten_nil, List.length_nil, Nat.cast_zero] at hlength
    omega
  | cons chunk rest =>
    have horder := h.order
    rw [hbuffer] at hlength horder
    refine ⟨chunk, rest, rfl, horder.front fun hnil => ?_⟩
    rw [hnil] at hlength
    simp only [List.length_nil, Nat.cast_zero] at hlength
    omega

/-- A `read()` that finds data asks for some. -/
lemma Lively.howMuchToRead (h : Lively s k) (hc : Conserved s) (hpos : 0 < s.length) :
    0 < (howMuchToRead none s).1 := by
  obtain ⟨chunk, rest, hbuffer, hchunk⟩ := h.first hc hpos
  unfold Readable.howMuchToRead
  rw [if_neg (by omega)]
  dsimp only
  split
  · next chunk' rest' _ hbuffer' =>
    obtain ⟨rfl, rfl⟩ : chunk = chunk' ∧ rest = rest' := by
      rw [hbuffer] at hbuffer'
      exact List.cons.inj hbuffer'
    have hlen : 0 < chunk.length := List.length_pos_iff.mpr hchunk
    show (0 : ℤ) < chunk.length
    omega
  · exact hpos

lemma howMuchToRead_quiet (n : Option ℤ) (s : State α σ) :
    (howMuchToRead n s).2.starved = s.starved := by
  unfold howMuchToRead
  split_ifs
  · rfl
  · split
    · split <;> rfl
    · dsimp only
      split_ifs <;> rfl

lemma endReadable_quiet (s : State α σ) : (endReadable s).starved = s.starved := by
  unfold endReadable
  split_ifs <;> rfl

lemma readEnd_starved (n : ℤ) (found : Bool) (s : State α σ) : (readEnd n found s).starved =
    (s.starved || found && (cut n s).1.getD [] = []) := by
  have hcut : (if 0 < n then fromList n s.length s.buffer else (none, s.buffer)) = cut n s := rfl
  unfold readEnd endReadable State.give
  rw [hcut]
  rcases cut n s with ⟨ret, list⟩
  dsimp only
  split_ifs <;> rfl

/-- The end of a `read`, which asks for some of what is there if it has found data. -/
lemma Lively.readEnd (h : Lively s k) (hc : Conserved s) {n : ℤ} {found : Bool}
    (hle : s.length ≠ 0 → n ≤ s.length) (hfound : found = true → 0 < n ∧ 0 < s.length) :
    Lively (readEnd n found s) k := by
  refine ⟨?_, ?_, h.counts⟩
  · rw [(readEnd_same n found s).buffer]
    dsimp only
    unfold cut
    split_ifs with hn
    · exact h.order.fromList hn _
    · exact h.order
  · rw [readEnd_starved, h.fed, Bool.false_or]
    cases found with
    | false => rfl
    | true =>
      obtain ⟨hn, hpos⟩ := hfound rfl
      have hlength := hc.length_eq
      rcases cut_spec hc hle with hcut | ⟨rest, hcut, -, -, hbound⟩
      · obtain ⟨chunk, rest, hbuffer, -⟩ := h.first hc hpos
        have hsome : (cut n s).1 ≠ none := by
          unfold cut Readable.fromList
          rw [if_pos hn, hbuffer]
          dsimp only
          rw [if_neg (by omega)]
          split_ifs <;> nofun
        rw [hcut] at hsome
        exact absurd rfl hsome
      · rw [hcut, Option.getD_some, Bool.true_and, decide_eq_false_iff_not, List.take_eq_nil_iff]
        rintro (h0 | hnil)
        · omega
        · rw [hnil] at hlength
          simp only [List.length_nil, Nat.cast_zero] at hlength
          omega

/-! ### Functions -/

lemma Lively.emitReadable (h : Lively s k) : (emitReadable s).Keeps Lively k := by
  unfold Readable.emitReadable
  split_ifs
  · exact h.congr rfl rfl
  · exact h.congr rfl rfl
  · exact h.congr rfl rfl

lemma Lively.endReadable (h : Lively s k) : Lively (endReadable s) k :=
  h.congr (endReadable_same s).buffer (endReadable_quiet s)

lemma Lively.addChunkDone (h : Lively s (.addChunk :: k)) : (addChunkDone s).Keeps Lively k := by
  have hk := h.pop
  show Lively (maybeReadMore s) k
  unfold maybeReadMore
  split_ifs
  · exact hk.congr rfl rfl
  · exact hk

lemma Lively.chunkAdded (h : Lively s k) : (chunkAdded s).Keeps Lively k := by
  have hframe : Lively s (.addChunk :: k) := h.push nofun
  unfold Readable.chunkAdded
  refine Res.Keeps.andThen ?_ fun t ht => ht.addChunkDone
  split_ifs
  · exact hframe.emitReadable
  · exact hframe

lemma Lively.append (h : Lively s k) {chunk : List α} (hc : chunk ≠ [] → [] ∉ s.buffer) :
    Lively (s.append chunk) k := ⟨h.order.append hc, h.fed, h.counts⟩

lemma Lively.onEofChunk (codec : Codec α σ) (h : Lively s k)
    (hc : codec.finish s.decoder ≠ [] → [] ∉ s.buffer) : (onEofChunk codec s).Keeps Lively k := by
  unfold Readable.onEofChunk
  dsimp only
  set u : State α σ :=
    if codec.finish s.decoder ≠ [] then s.append (codec.finish s.decoder) else s with hu
  have hlively : Lively u k := by
    rw [hu]
    split_ifs
    · exact h.append hc
    · exact h
  have hend : Lively { u with ended := true } k := hlively.congr rfl rfl
  split_ifs
  · exact hend.emitReadable
  · exact hend.endReadable

/-- What the decoder makes of a chunk. -/
def output (codec : Codec α σ) (s : State α σ) : Item α → List α
  | .null => codec.finish s.decoder
  | item => (item.decode codec s.decoder).1.getD []

lemma Lively.readableAddChunk (codec : Codec α σ) (h : Lively s k) {item : Item α}
    (hc : s.ended = false → output codec s item ≠ [] → [] ∉ s.buffer) :
    (readableAddChunk codec s item).Keeps Lively k := by
  have hidle : Lively { s with reading := false } k := h.congr rfl rfl
  cases item with
  | invalid => exact h
  | null =>
    unfold Readable.readableAddChunk
    dsimp only
    split_ifs with hended
    · exact hidle
    · exact hidle.onEofChunk codec (hc (by simpa using hended))
  | buf | units =>
    simp only [output] at hc
    unfold Readable.readableAddChunk
    dsimp only
    split_ifs with h0 hended
    · exact hidle
    · exact h
    · split
      · next chunk decoder hdecode =>
        rw [hdecode] at hc
        have happend : Lively (s.append chunk) k := h.append (hc (by simpa using hended))
        exact Lively.chunkAdded (happend.congr rfl rfl)
      · exact h.congr rfl rfl

/-- What `push` gives to `readableAddChunk`, if the `Buffer` constructor does not throw. -/
def pushed (codec : Codec α σ) (defaultEncoding : Str) (chunk : Chunk) (encoding : EncArg) :
    Option (Item α) :=
  match chunk with
  | .invalid => some .invalid
  | .null => some .null
  | .buf b => some (.buf b)
  | .str text =>
    let encoding := match encoding with
      | none | some [] => defaultEncoding
      | some e => e
    if some encoding ≠ codec.encoding then (newBuffer text (some encoding)).map .buf
    else some (.units (codec.units text))

lemma push_eq (codec : Codec α σ) (defaultEncoding : Str) (s : State α σ) (chunk : Chunk)
    (encoding : EncArg) : push codec defaultEncoding s chunk encoding =
      match pushed codec defaultEncoding chunk encoding with
      | none => .ret s
      | some item => readableAddChunk codec s item := by
  cases chunk with
  | str text =>
    rcases encoding with _ | _ | ⟨c, e⟩
    all_goals
      unfold Readable.push pushed
      dsimp only
      split_ifs
      · split
        · next hb =>
          rw [hb]
          rfl
        · next hb =>
          rw [hb]
          rfl
      · rfl
  | _ => rfl

lemma Lively.unshift (h : Lively s k) (chunk : List α) : (unshift s chunk).Keeps Lively k := by
  unfold Readable.unshift
  split_ifs with hnil
  · exact h
  · exact h
  · exact Lively.chunkAdded ⟨h.order.cons hnil, h.fed, h.counts⟩

lemma Lively.readFrom (h : Lively s k) (hc : Conserved s) {n : ℤ} {nOrig : Option ℤ} {found : Bool}
    (hle : n ≤ s.length) (hfound : found = true → 0 < n ∧ nOrig = none ∧ 0 < s.length) :
    (readFrom n nOrig found s).Keeps Lively k := by
  unfold Readable.readFrom
  split_ifs with h0
  · -- a `read()` that has found data does not come here
    have hnot : found = false := by
      cases found with
      | false => rfl
      | true =>
        have := (hfound rfl).1
        omega
    rw [hnot]
    exact h.endReadable.congr rfl (by simp [State.give])
  · have hnot : found = false := by
      cases found with
      | false => rfl
      | true =>
        have := (hfound rfl).1
        omega
    rw [hnot]
    exact h.congr rfl (by simp [State.give])
  · refine ⟨h.order, h.fed, fun n' nOrig' hmem => ?_⟩
    rcases List.mem_cons.mp hmem with heq | hmem
    · cases heq
      exact ⟨(hfound rfl).1, (hfound rfl).2.1⟩
    · exact h.counts n' nOrig' hmem
  · exact h.readEnd hc (fun _ => hle) fun hf => ⟨(hfound hf).1, (hfound hf).2.2⟩

lemma Lively.read (h : Lively s k) (hc : Conserved s) (n : Option ℤ) :
    (read n s).Keeps Lively k := by
  unfold Readable.read
  dsimp only
  set u : State α σ := { s with
    calledRead := true
    emittedReadable := s.emittedReadable && !(n.all fun n => 0 < n) } with hu
  have hlively : Lively u k := h.congr rfl rfl
  have hconserved : Conserved u := hc.congr ⟨rfl, rfl, rfl, rfl⟩
  have hsame := howMuchToRead_same n u
  split_ifs
  · exact hlively.emitReadable
  · refine (hlively.congr hsame.buffer (howMuchToRead_quiet n u)).readFrom (hconserved.congr hsame)
      ?_ fun hfound => ?_
    · rw [hsame.length]
      exact howMuchToRead_le hconserved n
    · obtain ⟨rfl, hpos⟩ : n = none ∧ 0 < u.length := by simpa using hfound
      rw [hsame.length]
      exact ⟨hlively.howMuchToRead hconserved hpos, rfl, hpos⟩

lemma Lively.readDone (h : Lively s k) (hc : Conserved s) {n : ℤ} {nOrig : Option ℤ} {found : Bool}
    (hle : s.reading = true → s.length ≠ 0 → n ≤ s.length)
    (hfound : found = true → 0 < n ∧ nOrig = none ∧ 0 < s.length) :
    (readDone n nOrig found s).Keeps Lively k := by
  unfold Readable.readDone
  dsimp only
  set u : State α σ := { s with sync := false } with hu
  have hlively : Lively u k := h.congr rfl rfl
  have hconserved : Conserved u := hc.congr ⟨rfl, rfl, rfl, rfl⟩
  have hsame := howMuchToRead_same nOrig u
  split_ifs with hr
  · refine (hlively.congr hsame.buffer (howMuchToRead_quiet nOrig u)).readEnd
      (hconserved.congr hsame) (fun _ => ?_) fun hf => ?_
    · rw [hsame.length]
      exact howMuchToRead_le hconserved nOrig
    · obtain ⟨-, rfl, hpos⟩ := hfound hf
      rw [hsame.length]
      exact ⟨hlively.howMuchToRead hconserved hpos, hpos⟩
  · exact hlively.readEnd hconserved (hle (by simpa using hr))
      fun hf => ⟨(hfound hf).1, (hfound hf).2.2⟩

lemma Lively.readMoreLoop (h : Lively s k) (hc : Conserved s) :
    (readMoreLoop s).Keeps Lively k := by
  have hframe : Lively s (.readMore s.length :: k) := h.push nofun
  unfold Readable.readMoreLoop
  split_ifs
  · exact Res.Keeps.andThen (hframe.read hc (some 0)) fun t ht => ht.pop.congr rfl rfl
  · exact h.congr rfl rfl

lemma Lively.onReadable (h : Lively s k) (hc : Conserved s) : (onReadable s).Keeps Lively k := by
  unfold Readable.onReadable
  dsimp only
  have ht : Lively { s with
      readableListening := true
      emittedReadable := false
      needReadable := true } k := h.congr rfl rfl
  have htc : Conserved { s with
      readableListening := true
      emittedReadable := false
      needReadable := true } := hc.congr ⟨rfl, rfl, rfl, rfl⟩
  split_ifs
  · exact h
  · exact ht.read htc (some 0)
  · exact ht.emitReadable
  · exact ht

lemma Lively.runTick (h : Lively s k) (hc : Conserved s) (t : Tick) :
    (runTick s t).Keeps Lively k := by
  cases t with
  | emitReadable => exact h
  | readMore => exact h.readMoreLoop hc
  | «end» =>
    unfold Readable.runTick
    dsimp only
    split_ifs
    · exact h.congr rfl rfl
    · exact h

/-- The frames that are reached before foreign code is. -/
lemma Lively.exec {f : Frame} (h : Lively s (f :: k)) (hrun : Running s (f :: k))
    (hf : f ≠ .user) : (exec s f).Keeps Lively k := by
  cases f with
  | user => exact absurd rfl hf
  | read => cases hrun.calm
  | addChunk => exact h.addChunkDone
  | readMore len =>
    unfold Readable.exec readMoreAfter
    dsimp only
    split_ifs
    · exact h.pop.congr rfl rfl
    · exact h.pop.readMoreLoop hrun.conserved

lemma Lively.resume (h : Lively s k) (hrun : Running s k) :
    Lively (resume Readable.exec boundary s k).st (resume Readable.exec boundary s k).stack := by
  have hne : ∀ {f : Frame}, boundary f = false → f ≠ .user := by
    rintro f hb rfl
    cases hb
  refine resume_rule (C := fun s k => Running s k ∧ Lively s k)
    (fun s f k s' hb hk hr => ?_) (fun s f k s' fs hb hk hr => ?_)
    (fun s f k hb hk => hk.2.pop) (fun s hs => hs.2) ⟨hrun, h⟩
  · have hexec := hk.1.exec (hne hb)
    have hlively := hk.2.exec hk.1 (hne hb)
    rw [hr] at hexec hlively
    exact ⟨hexec, hlively⟩
  · have hlively := hk.2.exec hk.1 (hne hb)
    rwa [hr] at hlively

lemma lively_enter {m : System α σ} {r : Res (State α σ) Frame}
    (h : r.Keeps Lively (.user :: m.stack)) :
    Lively (enter .user m r).st (enter .user m r).stack :=
  enter_keeps (fun _ _ hk => hk.pop) h

end Lively

/-! ### Runs -/

variable (codec : Codec α σ) (defaultEncoding : Str)

/-- Nothing is put behind an empty string, and code that runs in `_read` leaves to the `read` that
has called it something of what that one has found. -/
def Unbroken (m : System α σ) : Act α → Prop
  | .push chunk encoding => m.st.ended = false →
      ∀ item, pushed codec defaultEncoding chunk encoding = some item →
        output codec m.st item ≠ [] → [] ∉ m.st.buffer
  | .ret => Fresh m (.ret : Act α) ∧
      ∀ n nOrig k, m.stack = .read n nOrig true :: k → 0 < m.st.length
  | _ => True

variable {codec defaultEncoding}

lemma Unbroken.fresh {m : System α σ} {a : Act α} (h : Unbroken codec defaultEncoding m a) :
    Fresh m a := by
  cases a with
  | ret => exact h.1
  | _ => trivial

/-- Foreign code returns. -/
lemma lively_ret {m : System α σ} (h : Lively m.st m.stack) (hgood : Good m.st m.stack)
    (hunbroken : Unbroken codec defaultEncoding m .ret) :
    Lively (resume exec boundary m.st m.stack).st (resume exec boundary m.st m.stack).stack := by
  obtain ⟨s, k⟩ := m
  obtain ⟨hfresh, hleft⟩ := hunbroken
  obtain ⟨hc, hshaped⟩ := hgood
  cases k with
  | nil => exact h
  | cons f k =>
    cases f with
    | user => exact h.pop
    | read n nOrig found =>
      simp only [shaped, Bool.and_eq_true] at hshaped
      have hrun : Running s k := ⟨hc, hshaped.1, hshaped.2⟩
      have hle := hfresh n nOrig found k rfl
      have hfound : found = true → 0 < n ∧ nOrig = none ∧ 0 < s.length := by
        rintro rfl
        obtain ⟨hn, horig⟩ := h.counts n nOrig (List.mem_cons_self ..)
        exact ⟨hn, horig, hleft n nOrig k rfl⟩
      have hdone := hrun.readDone nOrig found hle
      have hlively := h.pop.readDone hc hle hfound
      have hexec : exec s (.read n nOrig found) = readDone n nOrig found s := rfl
      rw [resume, if_neg (by simp [boundary]), hexec]
      cases hr : readDone n nOrig found s with
      | ret s' =>
        rw [hr] at hdone hlively
        exact Lively.resume hlively hdone
      | call s' fs =>
        rw [hr] at hlively
        exact hlively
    | addChunk => exact h.resume ⟨hc, by simp_all [shaped, calm], hshaped⟩
    | readMore len => exact h.resume ⟨hc, by simp_all [shaped, calm], hshaped⟩

variable [DecidableEq α]

/-- **A step leaves nothing behind**, if it breaks nothing. -/
theorem step_lively {m m' : System α σ} {a : Act α} (h : Lively m.st m.stack)
    (hgood : Good m.st m.stack) (hs : step codec defaultEncoding m a = some m')
    (hunbroken : Unbroken codec defaultEncoding m a) : Lively m'.st m'.stack := by
  have hu := h.user
  have hc := hgood.conserved
  cases a with
  | push chunk encoding =>
    obtain rfl := Option.some.inj hs
    refine lively_enter ?_
    rw [push_eq]
    split
    · exact hu
    · next item hitem =>
      exact hu.readableAddChunk codec fun hended => hunbroken hended item hitem
  | unshift chunk =>
    simp only [step] at hs
    split_ifs at hs
    obtain rfl := Option.some.inj hs
    exact lively_enter (hu.unshift chunk)
  | read n =>
    obtain rfl := Option.some.inj hs
    exact lively_enter (hu.read hc n)
  | onReadable =>
    obtain rfl := Option.some.inj hs
    exact lively_enter (hu.onReadable hc)
  | flow flowing =>
    obtain rfl := Option.some.inj hs
    exact h.congr rfl rfl
  | ret =>
    simp only [step] at hs
    split_ifs at hs
    obtain rfl := Option.some.inj hs
    exact lively_ret h hgood hunbroken
  | tick =>
    simp only [step] at hs
    split at hs
    · next t ts hstack hticks =>
      obtain rfl := Option.some.inj hs
      rw [hstack] at h
      have hlively : Lively { m.st with ticks := ts } [] := h.congr rfl rfl
      have hr := hlively.runTick (hc.congr ⟨rfl, rfl, rfl, rfl⟩) t
      unfold Res.Keeps at hr
      rwa [List.append_nil] at hr
    · cases hs

/-! ### The end -/

omit [DecidableEq α] in
/-- A `read()` of a stream that has ended gives some of what is left. -/
lemma read_ended {s : State α σ} {k : List Frame} (h : Lively s k) (hc : Conserved s)
    (hended : s.ended = true) (hne : s.buffer.flatten ≠ []) :
    ∃ t, read none s = .ret t ∧ Lively t k ∧ Conserved t ∧ t.ended = true ∧
      t.accepted = s.accepted ∧ t.buffer.flatten.length < s.buffer.flatten.length := by
  have hlength := hc.length_eq
  have hpos : 0 < s.length := by
    have := List.length_pos_iff.mpr hne
    omega
  set u : State α σ := { s with
    calledRead := true
    emittedReadable := s.emittedReadable && !((none : Option ℤ).all fun n => 0 < n) } with hu
  have hlively : Lively u k := h.congr rfl rfl
  have hconserved : Conserved u := hc.congr ⟨rfl, rfl, rfl, rfl⟩
  have hn := hlively.howMuchToRead hconserved hpos
  have hle := howMuchToRead_le hconserved none
  have hsame : (howMuchToRead none u).2 = u := by
    unfold howMuchToRead
    split_ifs
    · rfl
    · dsimp only
      split <;> rfl
  set n := (howMuchToRead none u).1 with hn'
  have hread : read none s = .ret (readEnd n true u) := by
    have hfound : decide ((none : Option ℤ) = none ∧ 0 < u.length) = true :=
      decide_eq_true ⟨rfl, hpos⟩
    have hended : u.ended = true := hended
    have hfrom : read none s = readFrom n none (decide ((none : Option ℤ) = none ∧ 0 < u.length))
        (howMuchToRead none u).2 := by
      have hzero : ¬ ((none : Option ℤ) = some 0 ∧ u.needReadable = true ∧
          (u.highWaterMark ≤ u.length ∨ u.ended = true)) := fun h0 => nomatch h0.1
      unfold Readable.read
      exact if_neg hzero
    rw [hfrom, hsame, hfound]
    unfold Readable.readFrom
    rw [if_neg (by omega), if_neg fun hdo => hdo.2 (.inl hended)]
  have hlive := h.read hc none
  rw [hread] at hlive
  have hlt : (readEnd n true u).buffer.flatten.length < s.buffer.flatten.length := by
    rw [(readEnd_same n true u).buffer]
    rcases cut_spec hconserved (n := n) fun _ => hle with hcut | ⟨rest, hcut, hrest, -, hbound⟩
    · obtain ⟨chunk, rest, hbuffer, -⟩ := hlively.first hconserved hpos
      have hsome : (cut n u).1 ≠ none := by
        unfold cut Readable.fromList
        rw [if_pos hn, hbuffer]
        dsimp only
        rw [if_neg (by omega)]
        split_ifs <;> nofun
      rw [hcut] at hsome
      exact absurd rfl hsome
    · rw [hcut]
      dsimp only
      rw [hrest, List.length_drop]
      have hbuffer : u.buffer = s.buffer := rfl
      rw [hbuffer] at hbound ⊢
      omega
  have hstill : (readEnd n true u).ended = true := by
    unfold readEnd endReadable State.give
    dsimp only
    split_ifs <;> first | rfl | exact hended
  exact ⟨_, hread, hlive, conserved_readEnd hconserved true fun _ => hle, hstill,
    (readEnd_same n true u).accepted, hlt⟩

/-- Reading on gives everything. -/
lemma read_all {m : System α σ} (h : Lively m.st m.stack) (hc : Conserved m.st)
    (hended : m.st.ended = true) : ∃ n m', Path (step codec defaultEncoding) (fun _ _ _ => True) m
      (List.replicate n (.read none)) m' ∧ m'.st.taken = m.st.accepted := by
  obtain ⟨N, hN⟩ : ∃ N, m.st.buffer.flatten.length ≤ N := ⟨_, le_rfl⟩
  induction N generalizing m with
  | zero =>
    have hnil : m.st.buffer.flatten = [] := List.length_eq_zero_iff.mp (Nat.le_zero.mp hN)
    have hdata := hc.data
    rw [hnil, List.append_nil] at hdata
    exact ⟨0, m, rfl, hdata⟩
  | succ N ih =>
    by_cases hnil : m.st.buffer.flatten = []
    · have hdata := hc.data
      rw [hnil, List.append_nil] at hdata
      exact ⟨0, m, rfl, hdata⟩
    · obtain ⟨t, hread, hlively, hconserved, hended', haccepted, hlt⟩ :=
        read_ended h hc hended hnil
      obtain ⟨n, m', hpath, htaken⟩ := ih (m := ⟨t, m.stack⟩) hlively hconserved hended' (by
        show t.buffer.flatten.length ≤ N
        omega)
      have hstep : step codec defaultEncoding m (.read none) = some ⟨t, m.stack⟩ := by
        show some (enter .user m (read none m.st)) = _
        rw [hread]
        rfl
      exact ⟨n + 1, m', ⟨⟨t, m.stack⟩, hstep, trivial, hpath⟩, htaken.trans haccepted⟩

/-- **No data is stranded** in a run that breaks nothing: no `read()` has gone away empty from a
stream that had data, and once the stream has ended, reading on returns everything that the decoder
has made. -/
theorem decoded_delivered {highWaterMark : ℤ} {m : System α σ}
    (h : Run (step codec defaultEncoding) (fun m a _ => Unbroken codec defaultEncoding m a)
      (init codec highWaterMark) m) :
    m.st.starved = false ∧ (m.st.ended = true →
      ∃ n m', Path (step codec defaultEncoding) (fun _ _ _ => True) m
        (List.replicate n (.read none)) m' ∧ m'.st.taken = m.st.accepted) := by
  have hinit : Good (init codec highWaterMark).st (init codec highWaterMark).stack ∧
      Lively (init codec highWaterMark).st (init codec highWaterMark).stack :=
    ⟨⟨⟨rfl, rfl⟩, rfl⟩, List.Pairwise.nil, rfl, nofun⟩
  obtain ⟨hgood, hlively⟩ := h.invariant (I := fun m => Good m.st m.stack ∧ Lively m.st m.stack)
    hinit fun n a n' hn hs hunbroken =>
      ⟨step_good codec defaultEncoding hn.1 hs hunbroken.fresh, step_lively hn.2 hn.1 hs hunbroken⟩
  exact ⟨hlively.fed, read_all hlively hgood.conserved⟩

/-! ### Streams of strings -/

/-- What `setEncoding` makes. -/
def stringCodec (scheme : StringDecoder.Scheme) (encoding : Str) :
    Codec UInt16 StringDecoder.Decoder where
  start := .new
  write := StringDecoder.write scheme
  finish := StringDecoder.end scheme
  units := id
  encoding := some encoding

def utf8Codec : Codec UInt16 StringDecoder.Decoder := stringCodec StringDecoder.utf8 (js "utf8")

/-- A character that is cut behind another one. -/
def cutBehind : List (Act UInt16) :=
  [.flow true, .push (.buf [97, 0xE2]) none, .push (.buf [0x82, 0xAC]) none, .read none, .ret,
    .push .null none]

set_option maxRecDepth 10000 in
theorem decoded_delivered_cutBehind :
    ∃ m, Run (step utf8Codec (js "utf8")) (fun m a _ => Unbroken utf8Codec (js "utf8") m a)
        (init utf8Codec 16) m ∧ m.st.taken = [97] ∧ m.st.starved = false ∧
      ∃ n m', Path (step utf8Codec (js "utf8")) (fun _ _ _ => True) m
        (List.replicate n (.read none)) m' ∧ m'.st.taken = [97, 0x20AC] := by
  have hrun : ∃ m, Run (step utf8Codec (js "utf8"))
      (fun m a _ => Unbroken utf8Codec (js "utf8") m a) (init utf8Codec 16) m ∧
        m.st.taken = [97] ∧ m.st.ended = true ∧ m.st.accepted = [97, 0x20AC] :=
    ⟨_, Run.of_path .refl (w := cutBehind)
      ⟨_, rfl, trivial, _, rfl, fun _ _ _ _ => (by decide), _, rfl, fun _ _ _ _ => (by decide),
        _, rfl, trivial,
        _, rfl, ⟨fun _ _ _ _ hstack _ _ => (by cases hstack; decide), fun _ _ _ _ => (by decide)⟩,
        _, rfl, fun _ _ _ _ => (by decide), rfl⟩, rfl, rfl, rfl⟩
  obtain ⟨m, hm, htaken, hended, haccepted⟩ := hrun
  have hdelivered := decoded_delivered hm
  rw [haccepted] at hdelivered
  exact ⟨m, hm, htaken, hdelivered.1, hdelivered.2 hended⟩

/-- A character that is cut at the start. -/
def cutFront : List (Act UInt16) :=
  [.flow true, .push (.buf [0xE2]) none, .push (.buf [0x82, 0xAC]) none, .read none, .ret,
    .push .null none, .read none]

set_option maxRecDepth 10000 in
theorem decoded_stranded :
    ∃ m, Run (step utf8Codec (js "utf8")) (fun _ _ _ => True) (init utf8Codec 16) m ∧
      m.st.starved = true ∧ m.st.ended = true ∧ m.st.accepted = [0x20AC] ∧
      ∀ n m', Path (step utf8Codec (js "utf8")) (fun _ _ _ => True) m
        (List.replicate n (.read none)) m' → m'.st.taken = [] := by
  have hrun : ∃ m, Run (step utf8Codec (js "utf8")) (fun _ _ _ => True) (init utf8Codec 16) m ∧
      m.st.starved = true ∧ m.st.ended = true ∧ m.st.accepted = [0x20AC] ∧ m.st.taken = [] ∧
        step utf8Codec (js "utf8") m (.read none) = some m :=
    ⟨_, Run.of_path .refl (w := cutFront)
      ⟨_, rfl, trivial, _, rfl, trivial, _, rfl, trivial, _, rfl, trivial, _, rfl, trivial,
        _, rfl, trivial, _, rfl, trivial, rfl⟩, rfl, rfl, rfl, rfl, rfl⟩
  obtain ⟨m, hm, hstarved, hended, haccepted, htaken, hagain⟩ := hrun
  refine ⟨m, hm, hstarved, hended, haccepted, fun n m' hpath => ?_⟩
  induction n with
  | zero =>
    have hsame : m = m' := hpath
    rw [← hsame, htaken]
  | succ n ih =>
    obtain ⟨l, hl, -, hpath⟩ := hpath
    obtain rfl : m = l := Option.some.inj (hagain.symm.trans hl)
    exact ih hpath

end NodeCore.ReadableDecoded
