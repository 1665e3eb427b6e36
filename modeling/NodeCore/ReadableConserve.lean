import NodeCore.Readable

/-!
A readable stream loses no data: what has been read and what is buffered is everything pushed.

`read` computes how much it will return before it calls `_read`, and again afterwards only if
`reading` is unset by then. Foreign code that reads while `_read` runs can leave it set and
take away what the first `read` has counted on.
-/

namespace NodeCore.ReadableConserve

open NodeCore.Encoding NodeCore.Reentrant NodeCore.Readable

variable {α σ : Type}

/-! ### Cutting a list of chunks -/

lemma pluck_fst (n : ℕ) (list : List (List α)) : (pluck n list).1 = list.flatten.take n := by
  induction list generalizing n with
  | nil => simp [pluck]
  | cons chunk rest ih =>
    rw [pluck]
    split_ifs with h0 hlt
    · simp [h0]
    · rw [List.flatten_cons, List.take_append_of_le_length hlt.le]
    · have hle : chunk.length ≤ n := not_lt.mp hlt
      simp only [List.flatten_cons, List.take_append, List.take_of_length_le hle, ih]

lemma pluck_snd (n : ℕ) (list : List (List α)) :
    (pluck n list).2.flatten = list.flatten.drop n := by
  induction list generalizing n with
  | nil => simp [pluck]
  | cons chunk rest ih =>
    rw [pluck]
    split_ifs with h0 hlt
    · simp [h0]
    · rw [List.flatten_cons, List.flatten_cons, List.drop_append_of_le_length hlt.le]
    · have hle : chunk.length ≤ n := not_lt.mp hlt
      simp only [List.flatten_cons, List.drop_append, List.drop_of_length_le hle, ih,
        List.nil_append]

/-- `fromList` returns the first `n` elements, and leaves the others. -/
lemma fromList_spec {n : ℕ} {list : List (List α)}
    (hle : list.flatten ≠ [] → n ≤ list.flatten.length) :
    (list.flatten = [] ∧ fromList n list.flatten.length list = (none, list)) ∨
      ∃ rest, fromList n list.flatten.length list = (some (list.flatten.take n), rest) ∧
        rest.flatten = list.flatten.drop n ∧ n ≤ list.flatten.length := by
  cases list with
  | nil => exact .inl ⟨rfl, rfl⟩
  | cons chunk rest =>
    by_cases hnil : (chunk :: rest).flatten = []
    · refine .inl ⟨hnil, ?_⟩
      rw [fromList, if_pos (by simp [hnil])]
    · have hle := hle hnil
      refine .inr ?_
      unfold fromList
      dsimp only
      have hpos : 0 < (chunk :: rest).flatten.length := List.length_pos_iff.mpr hnil
      rw [if_neg (by omega)]
      split_ifs with hall hpart hexact
      · have heq : n = (chunk :: rest).flatten.length := by omega
        exact ⟨[], by rw [heq, List.take_length], by rw [heq, List.drop_length]; rfl, hle⟩
      · have hlt : n < chunk.length := by omega
        refine ⟨chunk.drop n :: rest, ?_, ?_, hle⟩
        · rw [Int.toNat_natCast, List.flatten_cons, List.take_append_of_le_length hlt.le]
        · rw [List.flatten_cons, List.flatten_cons, List.drop_append_of_le_length hlt.le]
      · have heq : n = chunk.length := by omega
        refine ⟨rest, ?_, ?_, hle⟩
        · simp [heq]
        · simp [heq]
      · exact ⟨_, by rw [Int.toNat_natCast, pluck_fst], by rw [pluck_snd], hle⟩

/-! ### Conservation -/

/-- Nothing is lost, and the length is right. -/
structure Conserved (s : State α σ) : Prop where
  data : s.taken ++ s.buffer.flatten = s.accepted
  length : s.length = (s.buffer.map List.length).sum

lemma Conserved.length_eq {s : State α σ} (h : Conserved s) :
    s.length = s.buffer.flatten.length := by
  rw [h.length, List.length_flatten]

/-- The states hold the same data. -/
structure SameData (s t : State α σ) : Prop where
  taken : t.taken = s.taken
  buffer : t.buffer = s.buffer
  accepted : t.accepted = s.accepted
  length : t.length = s.length

lemma SameData.rfl' (s : State α σ) : SameData s s := ⟨rfl, rfl, rfl, rfl⟩

lemma Conserved.congr {s t : State α σ} (h : Conserved s) (hs : SameData s t) :
    Conserved t := by
  refine ⟨?_, ?_⟩
  · rw [hs.taken, hs.buffer, hs.accepted, h.data]
  · rw [hs.buffer, hs.length, h.length]

lemma conserved_append {s : State α σ} (h : Conserved s) (chunk : List α) :
    Conserved (s.append chunk) := by
  refine ⟨?_, ?_⟩
  · simp [State.append, ← h.data]
  · have hl := h.length
    simp only [State.append, List.map_append, List.map_cons, List.map_nil, List.sum_append,
      List.sum_cons, List.sum_nil]
    omega

lemma conserved_prepend {s : State α σ} (h : Conserved s) {chunk : List α}
    (hc : chunk <:+ s.taken) : Conserved (s.prepend chunk) := by
  obtain ⟨pre, hpre⟩ := hc
  have htake : s.taken.take (s.taken.length - chunk.length) = pre := by simp [← hpre]
  refine ⟨?_, ?_⟩
  · have hdata := h.data
    rw [← hpre, List.append_assoc] at hdata
    simpa [State.prepend, htake] using hdata
  · have hl := h.length
    simp only [State.prepend, List.map_cons, List.sum_cons]
    omega

lemma howMuchToRead_same (n : Option ℤ) (s : State α σ) :
    SameData s (howMuchToRead n s).2 := by
  unfold howMuchToRead
  split_ifs
  · exact .rfl' s
  · split
    · split <;> exact .rfl' s
    · dsimp only
      split_ifs <;> exact ⟨rfl, rfl, rfl, rfl⟩

lemma howMuchToRead_le {s : State α σ} (h : Conserved s) (n : Option ℤ) :
    (howMuchToRead n s).1 ≤ s.length := by
  have hl := h.length_eq
  unfold howMuchToRead
  split_ifs with h0
  · simp only
    omega
  · split
    · split
      · next chunk rest hbuf =>
        rw [hl, hbuf, List.flatten_cons, List.length_append]
        omega
      · exact le_rfl
    · dsimp only
      split_ifs <;> simp only at * <;> omega

lemma endReadable_same (s : State α σ) : SameData s (endReadable s) := by
  unfold endReadable
  split_ifs <;> exact ⟨rfl, rfl, rfl, rfl⟩

/-- What `read` returns and the list it leaves. -/
def cut (n : ℤ) (s : State α σ) : Option (List α) × List (List α) :=
  if 0 < n then fromList n s.length s.buffer else (none, s.buffer)

lemma readEnd_same (n : ℤ) (found : Bool) (s : State α σ) :
    SameData { s with
      buffer := (cut n s).2
      taken := s.taken ++ (cut n s).1.getD []
      length := if (cut n s).1 = none then s.length else s.length - n } (readEnd n found s) := by
  have hcut : (if 0 < n then fromList n s.length s.buffer else (none, s.buffer)) = cut n s := rfl
  unfold readEnd endReadable
  rw [hcut]
  rcases cut n s with ⟨ret, list⟩
  dsimp only
  split_ifs <;> exact ⟨rfl, rfl, rfl, rfl⟩

lemma cut_spec {s : State α σ} (h : Conserved s) {n : ℤ} (hn : s.length ≠ 0 → n ≤ s.length) :
    (cut n s = (none, s.buffer)) ∨
      ∃ rest, cut n s = (some (s.buffer.flatten.take n.toNat), rest) ∧
        rest.flatten = s.buffer.flatten.drop n.toNat ∧ 0 < n ∧ n ≤ s.buffer.flatten.length := by
  have hl := h.length_eq
  unfold cut
  split_ifs with hpos
  · lift n to ℕ using hpos.le
    have hle : s.buffer.flatten ≠ [] → n ≤ s.buffer.flatten.length := by
      intro hne
      have := List.length_pos_iff.mpr hne
      have := hn (by omega)
      omega
    rw [hl]
    rcases fromList_spec hle with ⟨-, hf⟩ | ⟨rest, hf, hrest, hbound⟩
    · exact .inl hf
    · exact .inr ⟨rest, by simpa using hf, by simpa using hrest, hpos, by exact_mod_cast hbound⟩
  · exact .inl rfl

/-- `read` takes what it returns out of the buffer. -/
lemma conserved_readEnd {s : State α σ} (h : Conserved s) {n : ℤ} (found : Bool)
    (hn : s.length ≠ 0 → n ≤ s.length) : Conserved (readEnd n found s) := by
  refine Conserved.congr ?_ (readEnd_same n found s)
  rcases cut_spec h hn with hcut | ⟨rest, hcut, hrest, hpos, hle⟩
  · rw [hcut]
    exact ⟨by simpa using h.data, h.length⟩
  · rw [hcut]
    refine ⟨?_, ?_⟩
    · have hdata := h.data
      simp only [Option.getD_some, List.append_assoc, hrest, List.take_append_drop]
      exact hdata
    · have hl := h.length_eq
      have hlen : rest.flatten.length = s.buffer.flatten.length - n.toNat := by
        rw [hrest, List.length_drop]
      rw [if_neg (by simp)]
      simp only [← List.length_flatten, hlen]
      omega

/-- No `read` goes on before foreign code does. -/
def calm : List Frame → Bool
  | [] | .user :: _ => true
  | .read .. :: _ => false
  | _ :: k => calm k

/-- Below a frame of the stream itself it is calm. -/
def shaped : List Frame → Bool
  | [] => true
  | .user :: k => shaped k
  | _ :: k => calm k && shaped k

/-- What holds when foreign code runs. -/
structure Good (s : State α σ) (k : List Frame) : Prop where
  conserved : Conserved s
  shaped : shaped k = true

/-- What holds when the stream itself runs, over these frames. -/
structure Running (s : State α σ) (k : List Frame) : Prop where
  conserved : Conserved s
  calm : calm k = true
  shaped : ReadableConserve.shaped k = true

section Running

variable {s t : State α σ} {k : List Frame}

lemma Running.good (h : Running s k) : Good s k := ⟨h.conserved, h.shaped⟩

lemma Good.user (h : Good s k) : Running s (.user :: k) := ⟨h.conserved, rfl, h.shaped⟩

lemma Running.congr (h : Running s k) (hs : SameData s t) : Running t k :=
  ⟨h.conserved.congr hs, h.calm, h.shaped⟩

lemma Running.addChunk (h : Running s k) : Running s (.addChunk :: k) :=
  ⟨h.conserved, h.calm, by simp [ReadableConserve.shaped, h.calm, h.shaped]⟩

lemma Running.readMore (h : Running s k) (len : ℤ) : Running s (.readMore len :: k) :=
  ⟨h.conserved, h.calm, by simp [ReadableConserve.shaped, h.calm, h.shaped]⟩

/-- A function that returns does so with the frames below it as they are; one that calls
foreign code leaves frames. -/
def Runs (r : Res (State α σ) Frame) (k : List Frame) : Prop :=
  match r with
  | .ret s => Running s k
  | .call s fs => Good s (fs ++ k)

lemma Runs.andThen {r : Res (State α σ) Frame} {f : Frame}
    {g : State α σ → Res (State α σ) Frame} (hr : Runs r (f :: k))
    (hg : ∀ t, Running t (f :: k) → Runs (g t) k) : Runs (r.andThen f g) k := by
  cases r with
  | ret t => exact hg t hr
  | call t fs =>
    have hr : Good t (fs ++ f :: k) := hr
    simpa [Runs, Res.andThen] using hr

lemma Running.emitReadable (h : Running s k) : Runs (emitReadable s) k := by
  have ht : Running { s with needReadable := false, emittedReadable := true } k :=
    h.congr ⟨rfl, rfl, rfl, rfl⟩
  unfold Readable.emitReadable
  split_ifs
  · exact h.congr ⟨rfl, rfl, rfl, rfl⟩
  · exact h.congr ⟨rfl, rfl, rfl, rfl⟩
  · exact ht.good

lemma Running.endReadable (h : Running s k) : Running (endReadable s) k :=
  h.congr (endReadable_same s)

lemma Running.addChunkDone (h : Running s (.addChunk :: k)) : Runs (addChunkDone s) k := by
  have hk : Running s k := by
    obtain ⟨hc, hcalm, hshaped⟩ := h
    simp only [ReadableConserve.shaped, Bool.and_eq_true] at hshaped
    exact ⟨hc, hshaped.1, hshaped.2⟩
  unfold Readable.addChunkDone maybeReadMore
  split_ifs
  · exact hk.congr ⟨rfl, rfl, rfl, rfl⟩
  · exact hk

lemma Running.chunkAdded (h : Running s k) : Runs (chunkAdded s) k := by
  unfold Readable.chunkAdded
  refine Runs.andThen ?_ fun t ht => ht.addChunkDone
  split_ifs
  · exact h.addChunk.emitReadable
  · exact h.addChunk

/-! ### Functions -/

lemma Running.onEofChunk (codec : Codec α σ) (h : Running s k) : Runs (onEofChunk codec s) k := by
  unfold Readable.onEofChunk
  dsimp only
  set u : State α σ :=
    if codec.finish s.decoder ≠ [] then s.append (codec.finish s.decoder) else s with hu
  have hrun : Running u k := by
    rw [hu]
    split_ifs
    · exact ⟨conserved_append h.conserved _, h.calm, h.shaped⟩
    · exact h
  have hend : Running { u with ended := true } k := hrun.congr ⟨rfl, rfl, rfl, rfl⟩
  split_ifs
  · exact hend.emitReadable
  · exact hend.endReadable

lemma Running.readableAddChunk (codec : Codec α σ) (h : Running s k) (item : Item α) :
    Runs (readableAddChunk codec s item) k := by
  have hidle : Running { s with reading := false } k := h.congr ⟨rfl, rfl, rfl, rfl⟩
  cases item with
  | invalid => exact h.good
  | null =>
    unfold Readable.readableAddChunk
    dsimp only
    split_ifs
    · exact hidle
    · exact hidle.onEofChunk codec
  | buf | units =>
    unfold Readable.readableAddChunk
    dsimp only
    split_ifs
    · exact hidle
    · exact h.good
    · split
      · next chunk decoder _ =>
        have hc := conserved_append h.conserved chunk
        exact Running.chunkAdded ⟨hc.congr ⟨rfl, rfl, rfl, rfl⟩, h.calm, h.shaped⟩
      · exact h.congr ⟨rfl, rfl, rfl, rfl⟩

lemma Running.push (codec : Codec α σ) (defaultEncoding : Str) (h : Running s k) (chunk : Chunk)
    (encoding : EncArg) : Runs (push codec defaultEncoding s chunk encoding) k := by
  cases chunk with
  | invalid => exact h.readableAddChunk codec .invalid
  | null => exact h.readableAddChunk codec .null
  | buf b => exact h.readableAddChunk codec (.buf b)
  | str text =>
    unfold Readable.push
    dsimp only
    split_ifs
    · split
      · exact h.readableAddChunk codec _
      · exact h
    · exact h.readableAddChunk codec _

lemma Running.unshift (h : Running s k) {chunk : List α} (hc : chunk <:+ s.taken) :
    Runs (unshift s chunk) k := by
  unfold Readable.unshift
  split_ifs
  · exact h
  · exact h.good
  · exact Running.chunkAdded ⟨conserved_prepend h.conserved hc, h.calm, h.shaped⟩

lemma Running.give_none (h : Running s k) (found : Bool) : Running (s.give found none) k :=
  h.congr ⟨by simp [State.give], rfl, rfl, rfl⟩

lemma Running.readFrom (h : Running s k) {n : ℤ} (hn : n ≤ s.length) (nOrig : Option ℤ)
    (found : Bool) : Runs (readFrom n nOrig found s) k := by
  unfold Readable.readFrom
  split_ifs
  · exact h.endReadable.give_none found
  · exact h.give_none found
  · have ht : Conserved { s with
        reading := true
        sync := true
        needReadable := s.needReadable || s.length = 0 } :=
      h.conserved.congr ⟨rfl, rfl, rfl, rfl⟩
    exact ⟨ht, by simp [ReadableConserve.shaped, h.calm, h.shaped]⟩
  · exact ⟨conserved_readEnd h.conserved found fun _ => hn, h.calm, h.shaped⟩

lemma Running.read (h : Running s k) (n : Option ℤ) : Runs (read n s) k := by
  unfold Readable.read
  dsimp only
  set u : State α σ := { s with
    calledRead := true
    emittedReadable := s.emittedReadable && !(n.all fun n => 0 < n) } with hu
  have hrun : Running u k := h.congr ⟨rfl, rfl, rfl, rfl⟩
  split_ifs
  · exact hrun.emitReadable
  · have hmuch := hrun.congr (howMuchToRead_same n u)
    refine hmuch.readFrom ?_ n _
    rw [(howMuchToRead_same n u).length]
    exact howMuchToRead_le hrun.conserved n

/-! ### Frames that go on -/

/-- `read` goes on after `_read`. What it counts on must still be there, unless it counts
again. -/
lemma Running.readDone (h : Running s k) {n : ℤ} (nOrig : Option ℤ) (found : Bool)
    (hn : s.reading = true → s.length ≠ 0 → n ≤ s.length) :
    Runs (readDone n nOrig found s) k := by
  unfold Readable.readDone
  dsimp only
  set u : State α σ := { s with sync := false } with hu
  have hrun : Running u k := h.congr ⟨rfl, rfl, rfl, rfl⟩
  split_ifs with hr
  · have hmuch := hrun.congr (howMuchToRead_same nOrig u)
    refine ⟨conserved_readEnd hmuch.conserved found fun _ => ?_, h.calm, h.shaped⟩
    rw [(howMuchToRead_same nOrig u).length]
    exact howMuchToRead_le hrun.conserved nOrig
  · exact ⟨conserved_readEnd hrun.conserved found (hn (by simpa using hr)), h.calm, h.shaped⟩

lemma Running.readMoreDone (h : Running s k) : Runs (readMoreDone s) k :=
  h.congr ⟨rfl, rfl, rfl, rfl⟩

lemma Running.pop {f : Frame} (h : Running s (f :: k)) (hf : f ≠ .user) : Running s k := by
  obtain ⟨hc, hcalm, hshaped⟩ := h
  cases f with
  | user => exact absurd rfl hf
  | read => cases hcalm
  | addChunk =>
    simp only [ReadableConserve.shaped, Bool.and_eq_true] at hshaped
    exact ⟨hc, hshaped.1, hshaped.2⟩
  | readMore len =>
    simp only [ReadableConserve.shaped, Bool.and_eq_true] at hshaped
    exact ⟨hc, hshaped.1, hshaped.2⟩

lemma Running.readMoreLoop (h : Running s k) : Runs (readMoreLoop s) k := by
  unfold Readable.readMoreLoop
  split_ifs
  · exact Runs.andThen ((h.readMore s.length).read (some 0)) fun t ht =>
      (ht.pop (by rintro ⟨⟩)).readMoreDone
  · exact h.readMoreDone

/-- The frames below, which are not those of `read`. -/
lemma Running.exec {f : Frame} (h : Running s (f :: k)) (hf : f ≠ .user) :
    Runs (exec s f) k := by
  have hk := h.pop hf
  cases f with
  | user => exact absurd rfl hf
  | read => cases h.calm
  | addChunk => exact h.addChunkDone
  | readMore len =>
    unfold Readable.exec readMoreAfter
    dsimp only
    split_ifs
    · exact hk.readMoreDone
    · exact hk.readMoreLoop

lemma Running.onReadable (h : Running s k) : Runs (onReadable s) k := by
  unfold Readable.onReadable
  dsimp only
  have ht : Running { s with
      readableListening := true
      emittedReadable := false
      needReadable := true } k := h.congr ⟨rfl, rfl, rfl, rfl⟩
  split_ifs
  · exact h
  · exact ht.read (some 0)
  · exact ht.emitReadable
  · exact ht

lemma Running.runTick (h : Running s k) (t : Tick) : Runs (runTick s t) k := by
  have he : Running { s with endEmitted := true } k := h.congr ⟨rfl, rfl, rfl, rfl⟩
  cases t with
  | emitReadable => exact h.good
  | readMore => exact h.readMoreLoop
  | «end» =>
    unfold Readable.runTick
    dsimp only
    split_ifs
    · exact he.good
    · exact h

end Running

/-! ### Steps -/

section Step

variable {s : State α σ} {k : List Frame}

lemma Running.resume (h : Running s k) :
    Good (resume Readable.exec boundary s k).st (resume Readable.exec boundary s k).stack := by
  have hne : ∀ {f : Frame}, boundary f = false → f ≠ .user := by
    rintro f hb rfl
    cases hb
  refine resume_rule (C := Running) (fun s f k s' hb hk hr => ?_) (fun s f k s' fs hb hk hr => ?_)
    (fun s f k hb hk => ?_) (fun s hs => hs.good) h
  · have hexec := hk.exec (hne hb)
    rwa [hr] at hexec
  · have hexec := hk.exec (hne hb)
    rwa [hr] at hexec
  · cases f with
    | user => exact ⟨hk.conserved, hk.shaped⟩
    | _ => cases hb

lemma Runs.enter {m : System α σ} {r : Res (State α σ) Frame}
    (h : Runs r (.user :: m.stack)) : Good (enter .user m r).st (enter .user m r).stack := by
  cases r with
  | ret t =>
    have ht : Running t (.user :: m.stack) := h
    exact ⟨ht.conserved, ht.shaped⟩
  | call t fs => exact h

/-- When `_read` returns with `reading` still set, what `read` counted on is still there. -/
def Fresh (m : System α σ) : Act α → Prop
  | .ret => ∀ n nOrig found k, m.stack = .read n nOrig found :: k → m.st.reading = true →
      m.st.length ≠ 0 → n ≤ m.st.length
  | _ => True

/-- Foreign code returns. Only the first frame can be one of `read`. -/
lemma Good.ret {m : System α σ} (h : Good m.st m.stack)
    (hfresh : Fresh m (.ret : Act α)) : Good (resume exec boundary m.st m.stack).st
      (resume exec boundary m.st m.stack).stack := by
  obtain ⟨s, k⟩ := m
  obtain ⟨hc, hshaped⟩ := h
  cases k with
  | nil => exact ⟨hc, rfl⟩
  | cons f k =>
    cases f with
    | user => exact ⟨hc, hshaped⟩
    | read n nOrig found =>
      simp only [ReadableConserve.shaped, Bool.and_eq_true] at hshaped
      have hrun : Running s k := ⟨hc, hshaped.1, hshaped.2⟩
      have hdone := hrun.readDone nOrig found (hfresh n nOrig found k rfl)
      have hexec : exec s (.read n nOrig found) = readDone n nOrig found s := rfl
      rw [resume, if_neg (by simp [boundary]), hexec]
      cases hr : readDone n nOrig found s with
      | ret s' =>
        rw [hr] at hdone
        exact Running.resume hdone
      | call s' fs =>
        rw [hr] at hdone
        exact hdone
    | addChunk => exact Running.resume ⟨hc, by simp_all [ReadableConserve.shaped, calm], hshaped⟩
    | readMore len =>
      exact Running.resume ⟨hc, by simp_all [ReadableConserve.shaped, calm], hshaped⟩

/-! What breaks the length for good: `reading` is still set, so that no frame reads again. -/

variable (codec : Codec α σ) (defaultEncoding : Str) [DecidableEq α]

/-- **A step conserves the data**, if it is fresh. -/
theorem step_good {m m' : System α σ} {a : Act α} (h : Good m.st m.stack)
    (hs : step codec defaultEncoding m a = some m') (hfresh : Fresh m a) :
    Good m'.st m'.stack := by
  have hu := h.user
  cases a with
  | push chunk encoding =>
    obtain rfl := Option.some.inj hs
    exact (hu.push codec defaultEncoding chunk encoding).enter
  | unshift chunk =>
    simp only [step] at hs
    split_ifs at hs with hc
    obtain rfl := Option.some.inj hs
    exact (hu.unshift hc).enter
  | read n =>
    obtain rfl := Option.some.inj hs
    exact (hu.read n).enter
  | onReadable =>
    obtain rfl := Option.some.inj hs
    exact hu.onReadable.enter
  | flow flowing =>
    obtain rfl := Option.some.inj hs
    exact ⟨h.conserved.congr ⟨rfl, rfl, rfl, rfl⟩, h.shaped⟩
  | ret =>
    simp only [step] at hs
    split_ifs at hs
    obtain rfl := Option.some.inj hs
    exact h.ret hfresh
  | tick =>
    simp only [step] at hs
    split at hs
    · next t ts hstack hticks =>
      obtain rfl := Option.some.inj hs
      have hrun : Running { m.st with ticks := ts } [] :=
        ⟨h.conserved.congr ⟨rfl, rfl, rfl, rfl⟩, rfl, rfl⟩
      have hr := hrun.runTick t
      cases hres : Readable.runTick { m.st with ticks := ts } t with
      | ret u =>
        rw [hres] at hr
        exact Running.good hr
      | call u fs =>
        rw [hres] at hr
        simpa [Runs] using hr
    · cases hs

/-- **Every fresh run is good.** -/
theorem run_good {highWaterMark : ℤ} {m : System α σ}
    (h : Run (step codec defaultEncoding) (fun m a _ => Fresh m a) (init codec highWaterMark) m) :
    Good m.st m.stack := by
  have h0 : Good (init codec highWaterMark).st (init codec highWaterMark).stack :=
    ⟨⟨rfl, rfl⟩, rfl⟩
  exact h.invariant h0 fun n a n' hn hs hfresh => step_good codec defaultEncoding hn hs hfresh

end Step

end NodeCore.ReadableConserve
