import NodeCore.StringDecoder

/-!
Decoding a text whose bytes come in chunks.

`code` gives the bytes of a character and `units` its code units. Between two chunks a decoder
has passed on whole characters and holds a proper part of the next one back; `Follows` says
that of one `write`, and `decode_of_follows` carries it through all chunks.
-/

namespace NodeCore.StringDecoder

open NodeCore.Encoding

/-! ### Cuts of a coded text -/

section Cut

variable {α β : Type} (code : α → List β)

/-- `held` is a proper part of the first character of `rest`, or empty. -/
def Cut (rest : List α) (held : List β) : Prop :=
  held = [] ∨ ∃ c tail more, rest = c :: tail ∧ held ≠ [] ∧ more ≠ [] ∧ code c = held ++ more

variable {code}

lemma exists_cut (text : List α) (x y : List β) (h : x ++ y = text.flatMap code) :
    ∃ done rest held, text = done ++ rest ∧ x = done.flatMap code ++ held ∧
      held ++ y = rest.flatMap code ∧ Cut code rest held := by
  induction text generalizing x with
  | nil =>
    have hx : x = [] ∧ y = [] := by simpa using h
    obtain ⟨rfl, rfl⟩ := hx
    exact ⟨[], [], [], rfl, rfl, rfl, .inl rfl⟩
  | cons c tail ih =>
    rw [List.flatMap_cons] at h
    rcases List.append_eq_append_iff.mp h with ⟨more, hc, hy⟩ | ⟨x', rfl, hx'⟩
    · -- the cut is within the first character, or right after it
      rcases List.eq_nil_or_concat more with rfl | hmore
      · have hx : x = code c := by simpa using hc.symm
        refine ⟨[c], tail, [], rfl, by simp [hx], by simpa using hy, .inl rfl⟩
      · have hne : more ≠ [] := by
          obtain ⟨l, b, rfl⟩ := hmore
          simp
        refine ⟨[], c :: tail, x, rfl, rfl, by simp [hc, hy], ?_⟩
        rcases eq_or_ne x [] with hx | hx
        · exact .inl hx
        · exact .inr ⟨c, tail, more, rfl, hx, hne, hc⟩
    · obtain ⟨done, rest, held, rfl, rfl, hy, hcut⟩ := ih x' hx'.symm
      exact ⟨c :: done, rest, held, rfl, by simp, hy, hcut⟩

/-- At the end of the text nothing is held back. -/
lemma Cut.whole {rest : List α} {held : List β} (h : Cut code rest held)
    (hcode : ∀ c, code c ≠ []) (hall : held = rest.flatMap code) : held = [] ∧ rest = [] := by
  rcases h with rfl | ⟨c, tail, more, rfl, -, hmore, hc⟩
  · rcases rest with _ | ⟨c, tail⟩
    · exact ⟨rfl, rfl⟩
    · have := hcode c
      simp_all
  · exfalso
    rw [List.flatMap_cons, hc, List.append_assoc] at hall
    have hlen := congrArg List.length hall
    simp only [List.length_append] at hlen
    have := List.length_pos_iff.mpr hmore
    omega

end Cut

/-! ### Characters -/

def charUnits (c : Char) : Str := unitsOf c.toNat

lemma toNat_ofNat16 {n : ℕ} (h : n < 65536) : (UInt16.ofNat n).toNat = n := by
  simp only [UInt16.toNat_ofNat']
  omega

lemma isLead_iff (c : UInt16) : isLead c = true ↔ 0xD800 ≤ c.toNat ∧ c.toNat ≤ 0xDBFF := by
  simp [isLead, UInt16.le_iff_toNat_le]

/-- A unit that is no surrogate, or a surrogate pair. -/
lemma charUnits_cases (c : Char) :
    (∃ u, charUnits c = [u] ∧ isLead u = false) ∨
    ∃ u v, charUnits c = [u, v] ∧ isLead u = true ∧ isLead v = false := by
  have hvalid : c.toNat < 0xD800 ∨ 0xDFFF < c.toNat := by
    rcases c.valid with h | ⟨h, -⟩
    · exact .inl h
    · exact .inr h
  unfold charUnits unitsOf
  split_ifs with h
  · refine .inl ⟨_, rfl, ?_⟩
    rw [Bool.eq_false_iff, ne_eq, isLead_iff, toNat_ofNat16 (by omega)]
    omega
  · refine .inr ⟨_, _, rfl, ?_, ?_⟩
    · rw [isLead_iff, toNat_ofNat16 (by omega)]
      omega
    · rw [Bool.eq_false_iff, ne_eq, isLead_iff, toNat_ofNat16 (by omega)]
      omega

@[simp] lemma endsLead_nil : endsLead [] = false := rfl

lemma endsLead_concat (s : Str) (u : UInt16) : endsLead (s ++ [u]) = isLead u := by
  simp [endsLead]

/-- No character ends in a lead surrogate. -/
lemma endsLead_append_char (s : Str) (c : Char) : endsLead (s ++ charUnits c) = false := by
  rcases charUnits_cases c with ⟨u, hc, hu⟩ | ⟨u, v, hc, -, hv⟩
  · rw [hc, endsLead_concat, hu]
  · rw [hc, ← List.singleton_append, ← List.append_assoc, endsLead_concat, hv]

lemma endsLead_append_text {s : Str} (hs : endsLead s = false) (text : List Char) :
    endsLead (s ++ text.flatMap charUnits) = false := by
  rcases List.eq_nil_or_concat text with rfl | ⟨init, c, rfl⟩
  · simpa using hs
  · rw [List.concat_eq_append, List.flatMap_append, ← List.append_assoc, List.flatMap_singleton]
    exact endsLead_append_char _ c

/-! ### The buffer of the decoder -/

lemma copyTo_fits {target source : Bytes} {start : ℕ} (h : start + source.length ≤ target.length) :
    copyTo target start source =
      some (target.take start ++ source ++ target.drop (start + source.length)) := by
  unfold copyTo
  rcases eq_or_ne source [] with rfl | hne
  · simp
  · have hpos := List.length_pos_iff.mpr hne
    rw [if_neg hne, if_neg (by omega), List.take_of_length_le (by omega)]

/-- The bytes `held` are the ones received. -/
structure Decoder.Keeps (d : Decoder) (held : Bytes) : Prop where
  size : d.charBuffer.length = 6
  received : d.charReceived = held.length
  kept : d.charBuffer.take held.length = held

lemma Decoder.keeps_new : Decoder.new.Keeps [] := ⟨rfl, rfl, rfl⟩

/-- More bytes are appended to those held back. -/
lemma Decoder.Keeps.copyTo {d : Decoder} {held : Bytes} (h : d.Keeps held) (more : Bytes)
    (hfit : held.length + more.length ≤ 6) :
    ∃ charBuffer, copyTo d.charBuffer d.charReceived more = some charBuffer ∧
      charBuffer.length = 6 ∧ charBuffer.take (held.length + more.length) = held ++ more := by
  obtain ⟨hsize, hrecv, hkept⟩ := h
  have hfits : held.length + more.length ≤ d.charBuffer.length := by omega
  refine ⟨_, by rw [hrecv]; exact copyTo_fits hfits, ?_, ?_⟩
  · simp only [List.length_append, List.length_take, List.length_drop]
    omega
  · rw [hkept, ← List.length_append, List.take_left']
    rfl

lemma copyTo_start {target source : Bytes} (h : source.length ≤ target.length) :
    copyTo target 0 source = some (source ++ target.drop source.length) := by
  rw [copyTo_fits (by omega)]
  simp

/-- One round of the loop of `write`. -/
lemma fill_round {scheme : Scheme} {d : Decoder} {buffer charBuffer : Bytes} {offset i : ℕ}
    (hi : min (d.charLength - d.charReceived) buffer.length = i)
    (hcopy : copyTo d.charBuffer d.charReceived ((buffer.take i).drop offset) = some charBuffer)
    (fuel : ℕ) :
    fill scheme (fuel + 1) d buffer offset =
      (let received := d.charReceived + (i - offset)
       let char := scheme.toString (charBuffer.take d.charLength)
       if received < d.charLength then .wait ⟨charBuffer, received, d.charLength⟩
       else if endsLead char then
         fill scheme fuel ⟨charBuffer, received, d.charLength + scheme.surrogateSize⟩ buffer i
       else .full char ⟨charBuffer, 0, 0⟩ i) := by
  have hmin : (if d.charLength - d.charReceived ≤ buffer.length then
      d.charLength - d.charReceived else buffer.length) = i := by
    rw [← hi, Nat.min_def]
  simp only [fill, hmin, hcopy]

/-! ### The rounds of the loop -/

section Rounds

variable {scheme : Scheme} {d : Decoder} {buffer : Bytes} {offset : ℕ}

/-- Without a byte left the loop stops. -/
lemma fill_stuck (hi : min (d.charLength - d.charReceived) buffer.length ≤ offset)
    (hlt : d.charReceived < d.charLength) (fuel : ℕ) :
    fill scheme (fuel + 1) d buffer offset = .wait d := by
  have hnone :
      (buffer.take (min (d.charLength - d.charReceived) buffer.length)).drop offset = [] := by
    rw [List.drop_eq_nil_iff, List.length_take]
    omega
  have hcopy : copyTo d.charBuffer d.charReceived [] = some d.charBuffer := rfl
  rw [fill_round rfl (by rw [hnone]; exact hcopy), Nat.sub_eq_zero_of_le hi]
  simp only [Nat.add_zero, if_pos hlt]

/-- The fuel matters only where another round is made. -/
lemma fill_congr {fuel fuel' : ℕ}
    (h : ∀ charBuffer received i, i = min (d.charLength - d.charReceived) buffer.length →
      received = d.charReceived + (i - offset) → d.charLength ≤ received →
      fill scheme fuel ⟨charBuffer, received, d.charLength + scheme.surrogateSize⟩ buffer i =
        fill scheme fuel' ⟨charBuffer, received, d.charLength + scheme.surrogateSize⟩ buffer i) :
    fill scheme (fuel + 1) d buffer offset = fill scheme (fuel' + 1) d buffer offset := by
  have hmin : (if d.charLength - d.charReceived ≤ buffer.length then
      d.charLength - d.charReceived else buffer.length) =
      min (d.charLength - d.charReceived) buffer.length := by rw [Nat.min_def]
  simp only [fill, hmin]
  rcases copyTo d.charBuffer d.charReceived
    ((buffer.take (min (d.charLength - d.charReceived) buffer.length)).drop offset)
    with _ | charBuffer
  · rfl
  · simp only
    split_ifs with hlt hends
    · rfl
    · exact h charBuffer _ _ rfl rfl (not_lt.mp hlt)
    · rfl

/-- The loop never makes a fourth round. -/
theorem fill_rounds (hsize : 0 < scheme.surrogateSize) (hd : d.charReceived ≤ d.charLength)
    (fuel : ℕ) : fill scheme (rounds + fuel) d buffer 0 = fill scheme rounds d buffer 0 := by
  rw [rounds, Nat.add_comm]
  refine fill_congr fun charBuffer received i hi hreceived hge => ?_
  refine fill_congr fun charBuffer' received' i' hi' hreceived' hge' => ?_
  simp only at hi' hreceived' hge' ⊢
  -- a third round needs the second to have used all that was asked for, from the start on
  have hround : i = 0 ∧ i' = scheme.surrogateSize := by omega
  rw [fill_stuck (by simp only; omega) (by simp only; omega) fuel,
    fill_stuck (by simp only; omega) (by simp only; omega) 0]

theorem fill_rounds_pair :
    fill utf16le (rounds + 4) ⟨[0x3D, 0, 0, 0, 0, 0], 1, 2⟩ [0xD8, 0] 0 =
      fill utf16le rounds ⟨[0x3D, 0, 0, 0, 0, 0], 1, 2⟩ [0xD8, 0] 0 :=
  fill_rounds (by decide) (by decide) 4

end Rounds

/-! ### The last round -/

section LastRound

variable (scheme : Scheme) {d : Decoder} {held : Bytes}

/-- The Buffer is shorter than what is needed. -/
lemma fill_short (hk : d.Keeps held) (buffer : Bytes)
    (hlt : held.length + buffer.length < d.charLength)
    (hfit : d.charLength ≤ 6) (fuel : ℕ) :
    ∃ charBuffer,
      Decoder.Keeps ⟨charBuffer, (held ++ buffer).length, d.charLength⟩ (held ++ buffer) ∧
      fill scheme (fuel + 1) d buffer 0 =
        .wait ⟨charBuffer, (held ++ buffer).length, d.charLength⟩ := by
  have hrecv := hk.received
  obtain ⟨charBuffer, hcopy, hsize, htake⟩ := hk.copyTo buffer (by omega)
  have hi : min (d.charLength - d.charReceived) buffer.length = buffer.length := by omega
  refine ⟨charBuffer, ⟨hsize, rfl, by rw [List.length_append]; exact htake⟩, ?_⟩
  rw [fill_round hi (by rwa [List.take_length, List.drop_zero])]
  simp only [Nat.sub_zero, hrecv, if_pos hlt, List.length_append]

/-- The Buffer has what is needed. -/
lemma fill_reach (hk : d.Keeps held) (left tail : Bytes)
    (hlen : d.charLength = held.length + left.length) (hfit : d.charLength ≤ 6) (fuel : ℕ) :
    ∃ charBuffer, charBuffer.length = 6 ∧ charBuffer.take d.charLength = held ++ left ∧
      fill scheme (fuel + 1) d (left ++ tail) 0 =
        if endsLead (scheme.toString (held ++ left)) then
          fill scheme fuel ⟨charBuffer, d.charLength, d.charLength + scheme.surrogateSize⟩
            (left ++ tail) left.length
        else .full (scheme.toString (held ++ left)) ⟨charBuffer, 0, 0⟩ left.length := by
  have hrecv := hk.received
  obtain ⟨charBuffer, hcopy, hsize, htake⟩ := hk.copyTo left (by omega)
  have hi : min (d.charLength - d.charReceived) (left ++ tail).length = left.length := by
    rw [List.length_append]
    omega
  have hge : ¬ held.length + left.length < held.length + left.length := lt_irrefl _
  refine ⟨charBuffer, hsize, by rw [hlen, htake], ?_⟩
  rw [fill_round hi (by rwa [List.take_left', List.drop_zero]; rfl)]
  simp only [Nat.sub_zero, hrecv, hlen, if_neg hge, htake]

end LastRound

/-! ### `write` without a character held back -/

lemma emit_of_not_lead {scheme : Scheme} {d : Decoder} {s : Str} (h : endsLead s = false) :
    emit scheme d s = (some s, d) := by
  rw [emit, h]
  rfl

section WriteRest

variable (scheme : Scheme) {d d' : Decoder} {s : Str} {whole held : Bytes}

lemma writeRest_whole (hdetect : scheme.detectIncompleteChar d whole = (0, d'))
    (hlen : d'.charLength = 0) :
    writeRest scheme d s whole = emit scheme d' (s ++ scheme.toString whole) := by
  have hne : ¬ d'.charLength ≠ 0 := not_not.mpr hlen
  simp only [writeRest, hdetect, if_neg hne, List.take_length]

lemma writeRest_part (hdetect : scheme.detectIncompleteChar d (whole ++ held) = (held.length, d'))
    (hlen : d'.charLength ≠ 0) (hfit : held.length ≤ d'.charBuffer.length) :
    writeRest scheme d s (whole ++ held) =
      emit scheme { d' with
        charBuffer := held ++ d'.charBuffer.drop held.length
        charReceived := held.length } (s ++ scheme.toString whole) := by
  simp only [writeRest, hdetect, if_pos hlen, List.length_append, Nat.add_sub_cancel,
    List.drop_left', List.take_left', copyTo_start hfit, Option.getD_some]

end WriteRest

/-! ### One `write` after the other -/

section Follows

variable {α : Type} (scheme : Scheme) (code : α → Bytes) (units : α → Str)
  (Holds : Decoder → Bytes → List α → Prop)

/-- The chunks are as `ok` wants them, given the bytes before each. -/
def Along (ok : Bytes → Bytes → Prop) : Bytes → List Bytes → Prop
  | _, [] => True
  | before, buffer :: rest => ok before buffer ∧ Along ok (before ++ buffer) rest

lemma along_iff (ok : Bytes → Bytes → Prop) (before : Bytes) (chunks : List Bytes) :
    Along ok before chunks ↔
      ∀ pre buffer post, chunks = pre ++ buffer :: post → ok (before ++ pre.flatten) buffer := by
  induction chunks generalizing before with
  | nil => simp [Along]
  | cons b rest ih =>
    rw [Along, ih]
    constructor
    · rintro ⟨hb, hrest⟩ pre buffer post heq
      rcases pre with _ | ⟨b', pre⟩
      · obtain ⟨rfl, rfl⟩ : b = buffer ∧ rest = post := by simpa using heq
        simpa using hb
      · obtain ⟨rfl, rfl⟩ : b = b' ∧ rest = pre ++ buffer :: post := by simpa using heq
        simpa using hrest pre buffer post rfl
    · intro h
      refine ⟨by simpa using h [] b rest rfl, fun pre buffer post heq => ?_⟩
      simpa using h (b :: pre) buffer post (by simp [heq])

/-- The first chunk that is not. -/
lemma exists_first_not {ok : Bytes → Bytes → Prop} {before : Bytes} {chunks : List Bytes}
    (h : ¬ Along ok before chunks) :
    ∃ pre buffer post, chunks = pre ++ buffer :: post ∧ Along ok before pre ∧
      ¬ ok (before ++ pre.flatten) buffer := by
  induction chunks generalizing before with
  | nil => exact absurd trivial h
  | cons b rest ih =>
    by_cases hb : ok before b
    · obtain ⟨pre, buffer, post, rfl, hpre, hbad⟩ := ih fun hrest => h ⟨hb, hrest⟩
      exact ⟨b :: pre, buffer, post, rfl, ⟨hb, hpre⟩, by simpa using hbad⟩
    · exact ⟨[], b, rest, rfl, trivial, by simpa using hb⟩

/-- `write` passes on the characters that a Buffer completes, and holds the bytes of the next
one back. -/
def Passes (d : Decoder) (held : Bytes) (rest : List α) (buffer : Bytes) : Prop :=
  ∃ passed rest' held' d', rest = passed ++ rest' ∧ held ++ buffer = passed.flatMap code ++ held' ∧
    Holds d' held' rest' ∧ write scheme d buffer = (some (passed.flatMap units), d')

/-- So does its second part, with `s` passed on before. -/
def RestPasses : Prop :=
  ∀ {d : Decoder} (s : Str) (done : List α) {rest : List α} {held : Bytes},
    d.Keeps [] → d.charLength = 0 → endsLead s = false → Cut code rest held →
    ∃ d', Holds d' held rest ∧
      writeRest scheme d s (done.flatMap code ++ held) = (some (s ++ done.flatMap units), d')

/-- Every `write` of a chunk of `text` passes on what it should. -/
def Follows (text : List α) (ok : Bytes → Bytes → Prop) : Prop :=
  ∀ done rest held d buffer more, done ++ rest = text → Holds d held rest →
    held ++ buffer ++ more = rest.flatMap code → ok (done.flatMap code ++ held) buffer →
    Passes scheme code units Holds d held rest buffer

variable {scheme code units Holds} {text : List α} {ok : Bytes → Bytes → Prop}

/-- Nothing is held back. -/
lemma RestPasses.passes_whole (hr : RestPasses scheme code units Holds) {d : Decoder}
    {rest : List α} {buffer more : Bytes} (hd : d.Keeps []) (hlen : d.charLength = 0)
    (hall : buffer ++ more = rest.flatMap code) :
    Passes scheme code units Holds d [] rest buffer := by
  obtain ⟨passed, rest', held', rfl, hsplit, hmore, hcut⟩ := exists_cut rest buffer more hall
  obtain ⟨d', hd', hwrite⟩ := hr [] passed hd hlen rfl hcut
  refine ⟨passed, rest', held', d', rfl, by simpa using hsplit, hd', ?_⟩
  rw [write, if_pos hlen, hsplit, hwrite, List.nil_append]

/-- The Buffer does not complete the character that is held back. -/
lemma passes_of_wait {d d' : Decoder} {rest : List α} {held buffer : Bytes}
    (hlen : d.charLength ≠ 0) (hfill : fill scheme rounds d buffer 0 = .wait d')
    (hd' : Holds d' (held ++ buffer) rest) : Passes scheme code units Holds d held rest buffer := by
  refine ⟨[], rest, held ++ buffer, d', rfl, rfl, hd', ?_⟩
  rw [write, if_neg hlen, hfill]
  rfl

/-- The Buffer completes it with the bytes `left`. -/
lemma RestPasses.passes_of_full (hr : RestPasses scheme code units Holds) {d : Decoder} {c : α}
    {tail : List α} {held buffer more charBuffer : Bytes} (left : Bytes) (hlen : d.charLength ≠ 0)
    (hc : code c = held ++ left) (hsize : charBuffer.length = 6)
    (hends : endsLead (units c) = false)
    (hfill : fill scheme rounds d (left ++ buffer) 0 =
      .full (units c) ⟨charBuffer, 0, 0⟩ left.length)
    (hall : buffer ++ more = tail.flatMap code) (hwhole : Holds ⟨charBuffer, 0, 0⟩ [] tail) :
    Passes scheme code units Holds d held (c :: tail) (left ++ buffer) := by
  have hwrite : write scheme d (left ++ buffer) =
      if left.length = (left ++ buffer).length then (some (units c), ⟨charBuffer, 0, 0⟩)
      else writeRest scheme ⟨charBuffer, 0, 0⟩ (units c) buffer := by
    rw [write, if_neg hlen, hfill]
    simp only [List.drop_left']
  rcases eq_or_ne buffer [] with rfl | hne
  · refine ⟨[c], tail, [], _, rfl, by simp [hc], hwhole, ?_⟩
    rw [hwrite, if_pos (by simp)]
    simp
  · obtain ⟨passed, rest', held', rfl, hsplit, hmore, hcut⟩ := exists_cut tail buffer more hall
    obtain ⟨d', hd', hrest⟩ := hr (d := ⟨charBuffer, 0, 0⟩) (units c) passed
      ⟨hsize, rfl, rfl⟩ rfl hends hcut
    refine ⟨c :: passed, rest', held', d', rfl, ?_, hd', ?_⟩
    · rw [hsplit, List.flatMap_cons, hc, List.append_assoc, List.append_assoc]
    · rw [hwrite, if_neg (by simp [hne]), hsplit]
      simpa using hrest

lemma writeAll_of_follows (hf : Follows scheme code units Holds text ok) (chunks : List Bytes)
    (more : Bytes) {done rest : List α} {held : Bytes} {d : Decoder} (htext : done ++ rest = text)
    (hd : Holds d held rest) (hall : held ++ chunks.flatten ++ more = rest.flatMap code)
    (hok : Along ok (done.flatMap code ++ held) chunks) :
    ∃ passed rest' held' d', rest = passed ++ rest' ∧
      held ++ chunks.flatten = passed.flatMap code ++ held' ∧ Holds d' held' rest' ∧
      writeAll scheme d chunks = some (passed.flatMap units, d') := by
  induction chunks generalizing done rest held d with
  | nil => exact ⟨[], rest, held, d, rfl, by simp, hd, rfl⟩
  | cons buffer chunks ih =>
    obtain ⟨hbuf, hrest⟩ := hok
    have hall' : held ++ buffer ++ (chunks.flatten ++ more) = rest.flatMap code := by
      simpa using hall
    obtain ⟨passed, rest', held', d', rfl, hsplit, hd', hwrite⟩ :=
      hf done rest held d buffer _ htext hd hall' hbuf
    have hall'' : held' ++ chunks.flatten ++ more = rest'.flatMap code := by
      have h := hall'
      rw [hsplit, List.flatMap_append, List.append_assoc] at h
      simpa using List.append_cancel_left h
    have hbefore :
        done.flatMap code ++ held ++ buffer = (done ++ passed).flatMap code ++ held' := by
      rw [List.append_assoc, hsplit, List.flatMap_append, List.append_assoc]
    obtain ⟨passed', rest'', held'', d'', rfl, hend, hd'', hall⟩ :=
      ih (by simpa using htext : (done ++ passed) ++ rest' = text) hd' hall'' (by rwa [← hbefore])
    refine ⟨passed ++ passed', rest'', held'', d'', by simp, ?_, hd'', ?_⟩
    · rw [List.flatten_cons, ← List.append_assoc, hsplit, List.append_assoc, hend,
        List.flatMap_append, List.append_assoc]
    · simp [writeAll, hwrite, hall]

/-- Chunk by chunk, the whole text is decoded. -/
theorem decode_of_follows (hf : Follows scheme code units Holds text ok)
    (hcut : ∀ {d held rest}, Holds d held rest → d.Keeps held ∧ Cut code rest held)
    (hcode : ∀ c, code c ≠ []) (hnew : Holds .new [] text) {chunks : List Bytes}
    (hall : chunks.flatten = text.flatMap code) (hok : Along ok [] chunks) :
    decode scheme chunks = some (text.flatMap units) := by
  obtain ⟨passed, rest, held, d, rfl, hend, hd, hwrite⟩ :=
    writeAll_of_follows hf chunks [] (List.nil_append text) hnew (by simpa using hall) hok
  obtain ⟨hkeeps, hcut⟩ := hcut hd
  have hleft : held = rest.flatMap code := by
    rw [List.nil_append, hall, List.flatMap_append] at hend
    exact (List.append_cancel_left hend).symm
  obtain ⟨rfl, rfl⟩ := hcut.whole hcode hleft
  have hnone : d.charReceived = 0 := hkeeps.received
  simp [decode, hwrite, «end», hnone]

end Follows

end NodeCore.StringDecoder
