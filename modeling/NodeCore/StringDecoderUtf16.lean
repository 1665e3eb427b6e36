import NodeCore.StringDecoderUtf8

/-!
UTF-16LE in chunks.

A lead surrogate is held back until its trail has come. When it was itself cut between its two
bytes, the loop of `write` looks at two bytes of the Buffer only and gives the others up.
-/

namespace NodeCore.StringDecoder

open NodeCore.Encoding

/-! ### Code units -/

def unitBytes (u : UInt16) : Bytes := [u.toUInt8, (u >>> 8).toUInt8]

def utf16Code (c : Char) : Bytes := writeUcs2 (charUnits c)

lemma writeUcs2_cons (u : UInt16) (s : Str) : writeUcs2 (u :: s) = unitBytes u ++ writeUcs2 s := rfl

lemma writeUcs2_flatMap (text : List Char) :
    writeUcs2 (text.flatMap charUnits) = text.flatMap utf16Code := by
  unfold writeUcs2 utf16Code
  rw [List.flatMap_assoc]
  rfl

lemma length_writeUcs2 (s : Str) : (writeUcs2 s).length = 2 * s.length := by
  induction s with
  | nil => rfl
  | cons u s ih =>
    rw [writeUcs2_cons, List.length_append, ih, List.length_cons]
    simp [unitBytes]
    omega

lemma unit_ofBytes (u : UInt16) :
    u.toUInt8.toUInt16 ||| ((u >>> 8).toUInt8.toUInt16 <<< 8) = u := by
  have hu := u.toNat_lt
  have hor : 2 ^ 8 * (u.toNat / 256) + u.toNat % 256 =
      2 ^ 8 * (u.toNat / 256) ||| u.toNat % 256 :=
    Nat.two_pow_add_eq_or_of_lt (Nat.mod_lt _ (by norm_num)) _
  rw [← UInt16.toNat_inj]
  simp only [UInt16.toNat_or, UInt8.toNat_toUInt16, UInt16.toNat_toUInt8, UInt16.toNat_shiftLeft,
    UInt16.toNat_shiftRight, Nat.shiftRight_eq_div_pow, Nat.shiftLeft_eq]
  have h8 : UInt16.toNat 8 % 16 = 8 := rfl
  have hhigh : u.toNat / 2 ^ 8 % 2 ^ 8 * 2 ^ 8 % 2 ^ 16 = 2 ^ 8 * (u.toNat / 256) := by omega
  have hlow : u.toNat % 2 ^ 8 = u.toNat % 256 := rfl
  rw [h8, hhigh, hlow, Nat.or_comm, ← hor]
  omega

lemma ucs2Slice_unit (u : UInt16) (b : Bytes) :
    ucs2Slice (unitBytes u ++ b) = u :: ucs2Slice b := by
  simp only [unitBytes, List.cons_append, List.nil_append, ucs2Slice, unit_ofBytes]

lemma ucs2Slice_units (s : Str) (b : Bytes) : ucs2Slice (writeUcs2 s ++ b) = s ++ ucs2Slice b := by
  induction s with
  | nil => rfl
  | cons u s ih => rw [writeUcs2_cons, List.append_assoc, ucs2Slice_unit, ih, List.cons_append]

lemma ucs2Slice_text (text : List Char) :
    ucs2Slice (text.flatMap utf16Code) = text.flatMap charUnits := by
  rw [← writeUcs2_flatMap]
  simpa [ucs2Slice] using ucs2Slice_units (text.flatMap charUnits) []

lemma length_ucs2Slice (b : Bytes) : (ucs2Slice b).length = b.length / 2 := by
  induction b using ucs2Slice.induct with
  | case1 x y r ih =>
    rw [ucs2Slice, List.length_cons, ih, List.length_cons, List.length_cons]
    omega
  | case2 b h =>
    rcases b with _ | ⟨x, _ | ⟨y, r⟩⟩
    · rfl
    · simp [ucs2Slice]
    · exact absurd rfl (h x y r)

/-! ### One `write` -/

/-- Nothing is held back; or the first byte of a unit; or a lead surrogate, without its trail or
with one byte of it. -/
inductive HoldsUtf16 (d : Decoder) : Bytes → List Char → Prop
  | whole {rest : List Char} (keeps : d.Keeps []) (length : d.charLength = 0) : HoldsUtf16 d [] rest
  | byte {c : Char} {tail : List Char} {u : UInt16} {us : Str} (units : charUnits c = u :: us)
    (keeps : d.Keeps [u.toUInt8]) (length : d.charLength = 2) :
    HoldsUtf16 d [u.toUInt8] (c :: tail)
  | lead {c : Char} {tail : List Char} {u v : UInt16} (units : charUnits c = [u, v])
    (isLead : isLead u = true) (keeps : d.Keeps (unitBytes u))
    (length : d.charLength = 2 ∨ d.charLength = 4) : HoldsUtf16 d (unitBytes u) (c :: tail)
  | three {c : Char} {tail : List Char} {u v : UInt16} (units : charUnits c = [u, v])
    (isLead : isLead u = true) (keeps : d.Keeps (unitBytes u ++ [v.toUInt8]))
    (length : d.charLength = 4) : HoldsUtf16 d (unitBytes u ++ [v.toUInt8]) (c :: tail)

lemma utf16Code_one {c : Char} {u : UInt16} (h : charUnits c = [u]) :
    utf16Code c = [u.toUInt8, (u >>> 8).toUInt8] := by
  rw [utf16Code, h]
  rfl

lemma utf16Code_two {c : Char} {u v : UInt16} (h : charUnits c = [u, v]) :
    utf16Code c = [u.toUInt8, (u >>> 8).toUInt8, v.toUInt8, (v >>> 8).toUInt8] := by
  rw [utf16Code, h]
  rfl

lemma utf16Code_ne_nil (c : Char) : utf16Code c ≠ [] := by
  rcases charUnits_cases c with ⟨u, h, -⟩ | ⟨u, v, h, -⟩
  · simp [utf16Code_one h]
  · simp [utf16Code_two h]

/-- The proper parts of a character. -/
lemma cut_utf16 {rest : List Char} {held : Bytes} (h : Cut utf16Code rest held) :
    held = [] ∨ ∃ c tail, rest = c :: tail ∧
      ((∃ u us, charUnits c = u :: us ∧ held = [u.toUInt8]) ∨
       ∃ u v, charUnits c = [u, v] ∧ isLead u = true ∧
         (held = unitBytes u ∨ held = unitBytes u ++ [v.toUInt8])) := by
  rcases h with rfl | ⟨c, tail, more, rfl, hheld, hmore, hc⟩
  · exact .inl rfl
  · refine .inr ⟨c, tail, rfl, ?_⟩
    rcases charUnits_cases c with ⟨u, hu, -⟩ | ⟨u, v, huv, hlead, -⟩
    · rw [utf16Code_one hu] at hc
      refine .inl ⟨u, [], hu, ?_⟩
      rcases held with _ | ⟨a, _ | ⟨b, held⟩⟩ <;> simp_all
    · rw [utf16Code_two huv] at hc
      rcases held with _ | ⟨a, _ | ⟨b, _ | ⟨e, _ | ⟨f, held⟩⟩⟩⟩
      · exact absurd rfl hheld
      · exact .inl ⟨u, [v], huv, by simp_all⟩
      · exact .inr ⟨u, v, huv, hlead, .inl (by simp_all [unitBytes])⟩
      · exact .inr ⟨u, v, huv, hlead, .inr (by simp_all [unitBytes])⟩
      · simp_all

lemma HoldsUtf16.keeps_cut {d : Decoder} {held : Bytes} {rest : List Char}
    (h : HoldsUtf16 d held rest) : d.Keeps held ∧ Cut utf16Code rest held := by
  rcases h with ⟨keeps, -⟩ | @⟨c, tail, u, us, units, keeps, -⟩ | ⟨units, -, keeps, -⟩ |
    ⟨units, -, keeps, -⟩
  · exact ⟨keeps, .inl rfl⟩
  · refine ⟨keeps, .inr ⟨_, _, (u >>> 8).toUInt8 :: writeUcs2 us, rfl, by simp, by simp, ?_⟩⟩
    rw [utf16Code, units]
    rfl
  · exact ⟨keeps, .inr ⟨_, _, _, rfl, by simp [unitBytes], by simp, utf16Code_two units⟩⟩
  · exact ⟨keeps, .inr ⟨_, _, _, rfl, by simp [unitBytes], by simp, utf16Code_two units⟩⟩

/-- The state before the end of `write`. -/
lemma writeRest_utf16 {d : Decoder} {s : Str} {whole held : Bytes} (hsize : d.charBuffer.length = 6)
    (hwhole : whole.length % 2 = 0) (hheld : held.length ≤ 1) :
    writeRest utf16le d s (whole ++ held) =
      emit utf16le ⟨held ++ d.charBuffer.drop held.length, held.length, 2 * held.length⟩
        (s ++ ucs2Slice whole) := by
  have hodd : (whole ++ held).length % 2 = held.length := by
    rw [List.length_append]
    omega
  have hdetect : utf16le.detectIncompleteChar d (whole ++ held) =
      (held.length, ⟨d.charBuffer, held.length, 2 * held.length⟩) := by
    simp only [utf16le, utf16DetectIncompleteChar, hodd]
    split_ifs with h
    · have h1 : held.length = 1 := by omega
      rw [h1]
    · have h0 : held.length = 0 := by omega
      rw [h0]
  rcases held with _ | ⟨b, held⟩
  · rw [List.append_nil] at hdetect ⊢
    exact writeRest_whole utf16le hdetect rfl
  · refine writeRest_part utf16le hdetect (by simp) ?_
    simp only
    omega

/-- A lead surrogate at the end of the text is moved before the byte that is held back. -/
lemma emit_lead {d : Decoder} {held : Bytes} {s : Str} {u : UInt16} (hk : d.Keeps held)
    (hheld : held.length ≤ 1) (hu : isLead u = true) :
    ∃ d', emit utf16le d (s ++ [u]) = (some s, d') ∧ d'.Keeps (unitBytes u ++ held) ∧
      d'.charLength = d.charLength + 2 := by
  obtain ⟨hsize, hrecv, hkept⟩ := hk
  have hends : endsLead (s ++ [u]) = true := by rw [endsLead_concat, hu]
  have htake : (d.charBuffer.take 2).length = 2 := by
    rw [List.length_take]
    omega
  have hmoved : copyTo d.charBuffer 2 (d.charBuffer.take 2) =
      some (d.charBuffer.take 2 ++ d.charBuffer.take 2 ++ d.charBuffer.drop 4) := by
    rw [copyTo_fits (by omega), htake]
  have hlead : copyTo (d.charBuffer.take 2 ++ d.charBuffer.take 2 ++ d.charBuffer.drop 4) 0
      (unitBytes u) = some (unitBytes u ++ (d.charBuffer.take 2 ++ d.charBuffer.drop 4)) := by
    rw [copyTo_start (by simp [unitBytes, htake]), List.append_assoc, List.drop_left']
    rw [htake]
    rfl
  refine ⟨⟨unitBytes u ++ (d.charBuffer.take 2 ++ d.charBuffer.drop 4), d.charReceived + 2,
    d.charLength + 2⟩, ?_, ⟨?_, ?_, ?_⟩, rfl⟩
  · have hwrite : writeUcs2 [u] = unitBytes u := rfl
    simp only [emit, hends, if_true, utf16le, hmoved, Option.getD_some, List.getLast?_append,
      List.getLast?_singleton, Option.some_or, hwrite, hlead, List.dropLast_concat]
  · simp only [List.length_append, List.length_drop, htake, unitBytes, List.length_cons,
      List.length_nil]
    omega
  · rw [List.length_append, hrecv]
    simp [unitBytes]
    omega
  · rw [List.length_append, List.take_length_add_append, List.take_append_of_le_length (by omega),
      List.take_take, min_eq_left (by omega), hkept]

lemma restPasses_utf16 : RestPasses utf16le utf16Code charUnits HoldsUtf16 := by
  intro d s done rest held hd hlen hstr hcut
  have hsize := hd.size
  have hends := endsLead_append_text hstr done
  have heven : (done.flatMap utf16Code).length % 2 = 0 := by
    rw [← writeUcs2_flatMap, length_writeUcs2]
    omega
  have hkeeps : ∀ held : Bytes, held.length ≤ 1 →
      Decoder.Keeps ⟨held ++ d.charBuffer.drop held.length, held.length, 2 * held.length⟩ held := by
    intro held hle
    refine ⟨?_, rfl, by simp⟩
    simp only [List.length_append, List.length_drop]
    omega
  -- what follows when the Buffer ends in a lead surrogate, and `b` bytes of its trail
  have hlast : ∀ (u : UInt16) (b : Bytes), isLead u = true → b.length ≤ 1 →
      ∃ d', writeRest utf16le d s (done.flatMap utf16Code ++ (unitBytes u ++ b)) =
        (some (s ++ done.flatMap charUnits), d') ∧ d'.Keeps (unitBytes u ++ b) ∧
        d'.charLength = 2 * b.length + 2 := by
    intro u b hu hb
    have hslice : s ++ ucs2Slice (done.flatMap utf16Code ++ unitBytes u) =
        s ++ done.flatMap charUnits ++ [u] := by
      have h := ucs2Slice_unit u []
      rw [List.append_nil] at h
      rw [← writeUcs2_flatMap, ucs2Slice_units, h, List.append_assoc]
      rfl
    have heven' : (done.flatMap utf16Code ++ unitBytes u).length % 2 = 0 := by
      have h2 : (unitBytes u).length = 2 := rfl
      rw [List.length_append, h2]
      omega
    obtain ⟨d', hemit, hk, hl⟩ := emit_lead (s := s ++ done.flatMap charUnits) (hkeeps b hb) hb hu
    refine ⟨d', ?_, hk, hl⟩
    rw [← List.append_assoc, writeRest_utf16 hsize heven' hb, hslice, hemit]
  rcases cut_utf16 hcut with rfl | ⟨c, tail, rfl, ⟨u, us, hu, rfl⟩ | ⟨u, v, huv, hlead, rfl | rfl⟩⟩
  · rw [writeRest_utf16 hsize heven (by simp), ucs2Slice_text]
    exact ⟨_, .whole (hkeeps [] (by simp)) rfl, emit_of_not_lead hends⟩
  · rw [writeRest_utf16 hsize heven (by simp), ucs2Slice_text]
    exact ⟨_, .byte hu (hkeeps _ (by simp)) rfl, emit_of_not_lead hends⟩
  · obtain ⟨d', hwrite, hk, hl⟩ := hlast u [] hlead (by simp)
    rw [List.append_nil] at hwrite hk
    exact ⟨d', .lead huv hlead hk (.inl hl), hwrite⟩
  · obtain ⟨d', hwrite, hk, hl⟩ := hlast u [v.toUInt8] hlead (by simp)
    exact ⟨d', .three huv hlead hk hl, hwrite⟩

/-! ### Every cut but one -/

/-- A Buffer of three bytes or more starts with the second byte of a lead surrogate. -/
def SplitsLead (s : Str) (pos : ℕ) (buffer : Bytes) : Prop :=
  pos % 2 = 1 ∧ 3 ≤ buffer.length ∧ isLead (s.getD (pos / 2) 0) = true

/-- The loop of `write` when two bytes of a pair are held back. -/
lemma fill_lead {d : Decoder} {c : Char} {u v : UInt16} (huv : charUnits c = [u, v])
    (hv : isLead v = false) (hk : d.Keeps (unitBytes u)) (hlen : d.charLength = 4) (fuel : ℕ)
    (tail : Bytes) :
    ∃ charBuffer, charBuffer.length = 6 ∧
      fill utf16le (fuel + 1) d ([v.toUInt8, (v >>> 8).toUInt8] ++ tail) 0 =
        .full (charUnits c) ⟨charBuffer, 0, 0⟩ 2 := by
  obtain ⟨charBuffer, hsize, -, hfill⟩ := fill_reach utf16le hk
    [v.toUInt8, (v >>> 8).toUInt8] tail (by rw [hlen]; rfl) (by omega) fuel
  have hchar : utf16le.toString (unitBytes u ++ [v.toUInt8, (v >>> 8).toUInt8]) = [u] ++ [v] := by
    show ucs2Slice _ = _
    rw [ucs2Slice_unit]
    exact congrArg _ (ucs2Slice_unit v [])
  refine ⟨charBuffer, hsize, ?_⟩
  rw [hfill, hchar, endsLead_concat, hv, huv]
  rfl

/-- A lead surrogate is found again by the first round when the last `write` ended in it. -/
lemma fill_lead_enter {d : Decoder} {u : UInt16} (hu : isLead u = true) (hk : d.Keeps (unitBytes u))
    (hlen : d.charLength = 2 ∨ d.charLength = 4) (buffer : Bytes) :
    ∃ d' fuel, d'.Keeps (unitBytes u) ∧ d'.charLength = 4 ∧
      fill utf16le rounds d buffer 0 = fill utf16le (fuel + 1) d' buffer 0 := by
  rcases hlen with hlen | hlen
  · obtain ⟨charBuffer, hsize, htake, hfill⟩ :=
      fill_reach utf16le hk [] buffer (by rw [hlen]; rfl) (by omega) 2
    have hchar : utf16le.toString (unitBytes u ++ []) = [] ++ [u] := ucs2Slice_unit u []
    rw [hchar, endsLead_concat, hu, if_pos rfl, hlen] at hfill
    rw [hlen, List.append_nil] at htake
    exact ⟨⟨charBuffer, 2, 4⟩, 1, ⟨hsize, rfl, htake⟩, rfl, hfill⟩
  · exact ⟨d, 2, hk, hlen, rfl⟩

/-- A lead surrogate completed by the first byte of the Buffer: one more byte is looked at. -/
lemma fill_byte_lead {d : Decoder} {u : UInt16} (hu : isLead u = true) (hk : d.Keeps [u.toUInt8])
    (hlen : d.charLength = 2) (buffer : Bytes) :
    ∃ d', d'.Keeps (unitBytes u ++ buffer.take 1) ∧ d'.charLength = 4 ∧
      fill utf16le rounds d ((u >>> 8).toUInt8 :: buffer) 0 = .wait d' := by
  obtain ⟨charBuffer, hsize, htake, hfill⟩ := fill_reach utf16le hk [(u >>> 8).toUInt8] buffer
    (by rw [hlen]; rfl) (by omega) 2
  have hchar : utf16le.toString ([u.toUInt8] ++ [(u >>> 8).toUInt8]) = [] ++ [u] :=
    ucs2Slice_unit u []
  rw [hchar, endsLead_concat, hu, if_pos rfl, hlen] at hfill
  rw [hlen] at htake
  have hk' : Decoder.Keeps ⟨charBuffer, 2, 4⟩ (unitBytes u) := ⟨hsize, rfl, htake⟩
  have hlen1 : (buffer.take 1).length ≤ 1 := by
    rw [List.length_take]
    omega
  have htwo : (unitBytes u).length = 2 := rfl
  obtain ⟨charBuffer', hcopy, hsize', htake'⟩ := hk'.copyTo (buffer.take 1) (by omega)
  refine ⟨⟨charBuffer', 2 + (buffer.take 1).length, 4⟩, ⟨hsize', ?_, ?_⟩, rfl, ?_⟩
  · rw [List.length_append, htwo]
  · rw [List.length_append, htake']
  · have hi : min (4 - 2) ((u >>> 8).toUInt8 :: buffer).length = 1 + (buffer.take 1).length := by
      rw [List.length_cons, List.length_take]
      omega
    have hpart : (((u >>> 8).toUInt8 :: buffer).take (1 + (buffer.take 1).length)).drop 1 =
        buffer.take 1 := by
      rw [Nat.add_comm, List.take_succ_cons, List.drop_succ_cons, List.drop_zero, List.length_take]
      rcases buffer with _ | ⟨b, buffer⟩ <;> simp
    have hround := @fill_round utf16le ⟨charBuffer, 2, 4⟩ ((u >>> 8).toUInt8 :: buffer) _ 1 _ hi
      (by rw [hpart]; exact hcopy) 1
    refine hfill.trans (hround.trans ?_)
    simp only [Nat.add_sub_cancel_left]
    rw [if_pos (by omega)]

section held

variable {d : Decoder} {c : Char} {tail : List Char} {u v : UInt16} {buffer more : Bytes}

lemma endsLead_charUnits (c : Char) : endsLead (charUnits c) = false := endsLead_append_char [] c

/-- The first byte of a unit is held back. -/
lemma byte_passes {us : Str} (hu : charUnits c = u :: us) (hk : d.Keeps [u.toUInt8])
    (hlen : d.charLength = 2)
    (hall : [u.toUInt8] ++ buffer ++ more = (c :: tail).flatMap utf16Code)
    (hshort : isLead u = true → buffer.length ≤ 2) :
    Passes utf16le utf16Code charUnits HoldsUtf16 d [u.toUInt8] (c :: tail) buffer := by
  have hne : d.charLength ≠ 0 := by omega
  rcases buffer with _ | ⟨b, buffer⟩
  · obtain ⟨charBuffer, hk', hfill⟩ := fill_short utf16le hk [] (by simp [hlen])
      (by omega) 2
    exact passes_of_wait hne hfill (.byte hu hk' hlen)
  rcases charUnits_cases c with ⟨u', hu', hnot⟩ | ⟨u', v, huv, hlead, -⟩
  · -- a unit on its own
    obtain ⟨rfl, rfl⟩ : u = u' ∧ us = [] := by simpa [hu] using hu'
    have hcode := utf16Code_one hu
    obtain ⟨rfl, hall'⟩ : b = (u >>> 8).toUInt8 ∧ buffer ++ more = tail.flatMap utf16Code := by
      simpa [hcode] using hall
    obtain ⟨charBuffer, hsize, -, hfill⟩ := fill_reach utf16le hk [(u >>> 8).toUInt8]
      buffer (by rw [hlen]; rfl) (by omega) 2
    have hchar : utf16le.toString ([u.toUInt8] ++ [(u >>> 8).toUInt8]) = charUnits c := by
      rw [hu]
      exact ucs2Slice_unit u []
    rw [hchar, endsLead_charUnits] at hfill
    exact restPasses_utf16.passes_of_full _ hne hcode hsize (endsLead_charUnits c) hfill hall'
      (.whole ⟨hsize, rfl, rfl⟩ rfl)
  · -- a lead surrogate
    obtain ⟨rfl, rfl⟩ : u = u' ∧ us = [v] := by simpa [hu] using huv
    have hcode := utf16Code_two huv
    obtain ⟨rfl, hall'⟩ : b = (u >>> 8).toUInt8 ∧
        buffer ++ more = v.toUInt8 :: (v >>> 8).toUInt8 :: tail.flatMap utf16Code := by
      simpa [hcode] using hall
    obtain ⟨d', hk', hlen', hfill⟩ := fill_byte_lead hlead hk hlen buffer
    refine passes_of_wait hne hfill ?_
    rcases buffer with _ | ⟨b, buffer⟩
    · exact .lead huv hlead hk' (.inr hlen')
    · obtain rfl : buffer = [] := by simpa using hshort hlead
      obtain ⟨rfl, -⟩ : b = v.toUInt8 ∧ more = (v >>> 8).toUInt8 :: tail.flatMap utf16Code := by
        simpa using hall'
      exact .three huv hlead hk' hlen'

/-- A lead surrogate is held back. -/
lemma lead_passes (huv : charUnits c = [u, v]) (hlead : isLead u = true)
    (hk : d.Keeps (unitBytes u)) (hlen : d.charLength = 2 ∨ d.charLength = 4)
    (hall : unitBytes u ++ buffer ++ more = (c :: tail).flatMap utf16Code) :
    Passes utf16le utf16Code charUnits HoldsUtf16 d (unitBytes u) (c :: tail) buffer := by
  have hne : d.charLength ≠ 0 := by omega
  obtain ⟨d', fuel, hk', hlen', henter⟩ := fill_lead_enter hlead hk hlen buffer
  have hcode := utf16Code_two huv
  have htwo : (unitBytes u).length = 2 := rfl
  have hall' : buffer ++ more = v.toUInt8 :: (v >>> 8).toUInt8 :: tail.flatMap utf16Code := by
    simpa [hcode, unitBytes] using hall
  rcases buffer with _ | ⟨b, _ | ⟨b', buffer⟩⟩
  · obtain ⟨charBuffer, hk'', hfill⟩ := fill_short utf16le hk' []
      (by rw [hlen', htwo]; simp) (by omega) fuel
    exact passes_of_wait hne (henter.trans hfill) (.lead huv hlead hk'' (.inr hlen'))
  · obtain ⟨rfl, -⟩ : b = v.toUInt8 ∧ more = (v >>> 8).toUInt8 :: tail.flatMap utf16Code := by
      simpa using hall'
    obtain ⟨charBuffer, hk'', hfill⟩ := fill_short utf16le hk' [v.toUInt8]
      (by rw [hlen', htwo]; simp) (by omega) fuel
    exact passes_of_wait hne (henter.trans hfill) (.three huv hlead hk'' hlen')
  · obtain ⟨rfl, rfl, hrest⟩ : b = v.toUInt8 ∧ b' = (v >>> 8).toUInt8 ∧
        buffer ++ more = tail.flatMap utf16Code := by simpa using hall'
    have hv : isLead v = false := by
      have h := endsLead_charUnits c
      rwa [huv, ← List.singleton_append, endsLead_concat] at h
    obtain ⟨charBuffer, hsize, hfill⟩ := fill_lead huv hv hk' hlen' fuel buffer
    exact restPasses_utf16.passes_of_full [v.toUInt8, (v >>> 8).toUInt8] hne hcode hsize
      (endsLead_charUnits c) (henter.trans hfill) hrest (.whole ⟨hsize, rfl, rfl⟩ rfl)

/-- All but the last byte of a character is held back. -/
lemma three_passes (huv : charUnits c = [u, v]) (hlead : isLead u = true)
    (hk : d.Keeps (unitBytes u ++ [v.toUInt8])) (hlen : d.charLength = 4)
    (hall : unitBytes u ++ [v.toUInt8] ++ buffer ++ more = (c :: tail).flatMap utf16Code) :
    Passes utf16le utf16Code charUnits HoldsUtf16 d (unitBytes u ++ [v.toUInt8]) (c :: tail)
      buffer := by
  have hne : d.charLength ≠ 0 := by omega
  have hcode := utf16Code_two huv
  have htwo : (unitBytes u ++ [v.toUInt8]).length = 3 := rfl
  rcases buffer with _ | ⟨b, buffer⟩
  · obtain ⟨charBuffer, hk', hfill⟩ := fill_short utf16le hk []
      (by rw [hlen, htwo]; simp) (by omega) 2
    exact passes_of_wait hne hfill (.three huv hlead hk' hlen)
  · obtain ⟨rfl, hrest⟩ : b = (v >>> 8).toUInt8 ∧ buffer ++ more = tail.flatMap utf16Code := by
      simpa [hcode, unitBytes] using hall
    obtain ⟨charBuffer, hsize, -, hfill⟩ := fill_reach utf16le hk [(v >>> 8).toUInt8]
      buffer (by rw [hlen, htwo]; rfl) (by omega) 2
    have hchar : utf16le.toString (unitBytes u ++ [v.toUInt8] ++ [(v >>> 8).toUInt8]) =
        charUnits c := by
      rw [List.append_assoc, huv]
      show ucs2Slice _ = _
      rw [ucs2Slice_unit]
      exact congrArg _ (ucs2Slice_unit v [])
    rw [hchar, endsLead_charUnits] at hfill
    exact restPasses_utf16.passes_of_full _ hne (by rw [hcode]; rfl) hsize (endsLead_charUnits c)
      hfill hrest (.whole ⟨hsize, rfl, rfl⟩ rfl)

/-- More bytes than these would split the lead surrogate. -/
lemma length_of_not_splits {text done : List Char} {us : Str} (htext : done ++ c :: tail = text)
    (hu : charUnits c = u :: us) (hlead : isLead u = true)
    (hok : ¬ SplitsLead (text.flatMap charUnits) (done.flatMap utf16Code ++ [u.toUInt8]).length
      buffer) : buffer.length ≤ 2 := by
  by_contra hlong
  refine hok ⟨?_, by omega, ?_⟩
  · rw [List.length_append, ← writeUcs2_flatMap, length_writeUcs2, List.length_singleton]
    omega
  · rw [List.length_append, ← writeUcs2_flatMap, length_writeUcs2, List.length_singleton,
      ← htext, List.flatMap_append, List.flatMap_cons, hu,
      List.getD_append_right _ _ _ _ (by omega)]
    have h0 : (2 * (done.flatMap charUnits).length + 1) / 2 -
        (done.flatMap charUnits).length = 0 := by
      omega
    rw [h0]
    exact hlead

end held

/-- Every Buffer is decoded as it should be that does not split a lead surrogate. -/
lemma follows_utf16 (text : List Char) :
    Follows utf16le utf16Code charUnits HoldsUtf16 text fun before buffer =>
      ¬ SplitsLead (text.flatMap charUnits) before.length buffer := by
  intro done rest held d buffer more htext hd hall hok
  cases hd with
  | whole hk hlen => exact restPasses_utf16.passes_whole hk hlen (by simpa using hall)
  | byte hu hk hlen =>
    exact byte_passes hu hk hlen hall fun hlead => length_of_not_splits htext hu hlead hok
  | lead huv hlead hk hlen => exact lead_passes huv hlead hk hlen hall
  | three huv hlead hk hlen => exact three_passes huv hlead hk hlen hall

/-! ### What a decoder can give -/

/-- As much is asked for as a unit has bytes, at most. -/
def Decoder.Sound (d : Decoder) : Prop :=
  d.charReceived ≤ d.charLength ∧ d.charLength ≤ d.charReceived + 2

lemma fill_count (fuel : ℕ) {d : Decoder} (buffer : Bytes) (offset : ℕ) (hd : d.Sound)
    (hoffset : offset ≤ min (d.charLength - d.charReceived) buffer.length) :
    match fill utf16le fuel d buffer offset with
    | .throws _ => True
    | .wait d' => d'.Sound ∧ d'.charReceived + offset ≤ d.charReceived + buffer.length
    | .full char d' used => d'.charLength = 0 ∧ d'.charReceived = 0 ∧ used ≤ buffer.length ∧
        2 * char.length + offset ≤ d.charReceived + used := by
  obtain ⟨hle, hneed⟩ := hd
  induction fuel generalizing d offset with
  | zero => exact ⟨⟨hle, hneed⟩, by omega⟩
  | succ fuel ih =>
    set i := min (d.charLength - d.charReceived) buffer.length with hi
    rcases hcopy : copyTo d.charBuffer d.charReceived ((buffer.take i).drop offset) with
      _ | charBuffer
    · have hmin : (if d.charLength - d.charReceived ≤ buffer.length then
          d.charLength - d.charReceived else buffer.length) = i := by rw [hi, Nat.min_def]
      simp only [fill, hmin, hcopy]
    · rw [fill_round hi.symm hcopy]
      have hchar : 2 * (ucs2Slice (charBuffer.take d.charLength)).length ≤ d.charLength := by
        rw [length_ucs2Slice, List.length_take]
        omega
      simp only
      split_ifs with hlt hends
      · refine ⟨⟨?_, ?_⟩, ?_⟩ <;> simp only <;> omega
      · -- another round: the last one began at the start of the Buffer
        have hzero : offset = 0 ∧ d.charReceived + i = d.charLength := by omega
        obtain ⟨rfl, hreach⟩ := hzero
        have htwo : utf16le.surrogateSize = 2 := rfl
        have h := ih
          (d := ⟨charBuffer, d.charReceived + (i - 0), d.charLength + utf16le.surrogateSize⟩)
          i (by simp only; omega) (by simp only; omega) (by simp only; omega)
        revert h
        rcases fill utf16le fuel _ buffer i with d' | d' | ⟨char, d', used⟩
        · exact id
        · rintro ⟨hs, hr⟩
          simp only at hr
          exact ⟨hs, by omega⟩
        · rintro ⟨hl, hr, hu, hc⟩
          simp only at hc
          exact ⟨hl, hr, hu, by omega⟩
      · exact ⟨rfl, rfl, by omega, by simp only [utf16le] at hchar ⊢; omega⟩

lemma emit_count {d d' : Decoder} {s out : Str} (hd : d.Sound)
    (h : emit utf16le d s = (some out, d')) :
    d'.Sound ∧ 2 * out.length + d'.charReceived ≤ 2 * s.length + d.charReceived := by
  obtain ⟨hle, hneed⟩ := hd
  unfold emit at h
  split_ifs at h with hends
  · obtain ⟨rfl, rfl⟩ : s.dropLast = out ∧ _ = d' := by simpa using h
    have hne : s ≠ [] := by
      rintro rfl
      simp at hends
    have hpos := List.length_pos_iff.mpr hne
    have htwo : utf16le.surrogateSize = 2 := rfl
    refine ⟨⟨by simp only; omega, by simp only; omega⟩, ?_⟩
    simp only [List.length_dropLast]
    omega
  · obtain ⟨rfl, rfl⟩ : s = out ∧ d = d' := by simpa using h
    exact ⟨⟨hle, hneed⟩, le_rfl⟩

lemma writeRest_count {d d' : Decoder} {s out : Str} {buffer : Bytes}
    (h : writeRest utf16le d s buffer = (some out, d')) :
    d'.Sound ∧ 2 * out.length + d'.charReceived ≤ 2 * s.length + buffer.length := by
  unfold writeRest at h
  simp only [utf16le, utf16DetectIncompleteChar] at h
  split_ifs at h with h1 h2 h2
  · have hc := emit_count ⟨by simp only; omega, by simp only; omega⟩ h
    rw [List.length_append, length_ucs2Slice, List.length_take] at hc
    refine ⟨hc.1, ?_⟩
    simp only at hc
    omega
  · exact absurd two_ne_zero h2
  · exact absurd rfl h2
  · have hc := emit_count ⟨by simp only; omega, by simp only; omega⟩ h
    rw [List.length_append, length_ucs2Slice, List.length_take] at hc
    refine ⟨hc.1, ?_⟩
    simp only at hc
    omega

lemma write_count {d d' : Decoder} {out : Str} {buffer : Bytes} (hd : d.Sound)
    (h : write utf16le d buffer = (some out, d')) :
    d'.Sound ∧ 2 * out.length + d'.charReceived ≤ d.charReceived + buffer.length := by
  unfold write at h
  split_ifs at h with hlen
  · have hc := writeRest_count h
    rw [List.length_nil] at hc
    exact ⟨hc.1, by omega⟩
  · have hfill := fill_count rounds buffer 0 hd (Nat.zero_le _)
    rcases hf : fill utf16le rounds d buffer 0 with d₁ | d₁ | ⟨char, d₁, used⟩ <;>
      rw [hf] at h hfill
    · simp at h
    · obtain ⟨rfl, rfl⟩ : [] = out ∧ d₁ = d' := by simpa using h
      refine ⟨hfill.1, ?_⟩
      have := hfill.2
      simp only [List.length_nil]
      omega
    · obtain ⟨hzero, hrecv, hused, hcount⟩ := hfill
      simp only at h
      split_ifs at h with hall
      · obtain ⟨rfl, rfl⟩ : char = out ∧ d₁ = d' := by simpa using h
        exact ⟨⟨by omega, by omega⟩, by omega⟩
      · have hc := writeRest_count h
        rw [List.length_drop] at hc
        exact ⟨hc.1, by omega⟩

lemma writeAll_count {d d' : Decoder} {out : Str} {chunks : List Bytes} (hd : d.Sound)
    (h : writeAll utf16le d chunks = some (out, d')) :
    2 * out.length + d'.charReceived ≤ d.charReceived + chunks.flatten.length := by
  induction chunks generalizing d out with
  | nil =>
    obtain ⟨rfl, rfl⟩ : [] = out ∧ d = d' := by simpa [writeAll] using h
    simp
  | cons buffer chunks ih =>
    rcases hw : write utf16le d buffer with ⟨_ | s, d₁⟩ <;> simp only [writeAll, hw] at h
    · simp at h
    · obtain ⟨⟨t, d₂⟩, hrest, heq⟩ := Option.map_eq_some_iff.mp h
      obtain ⟨rfl, rfl⟩ : s ++ t = out ∧ d₂ = d' := by simpa using heq
      obtain ⟨hd₁, hcount⟩ := write_count hd hw
      have hcount' := ih hd₁ hrest
      rw [List.flatten_cons, List.length_append, List.length_append]
      omega

lemma end_count (d : Decoder) : 2 * («end» utf16le d).length ≤ d.charReceived := by
  unfold «end»
  split_ifs with h
  · show 2 * (ucs2Slice _).length ≤ _
    rw [length_ucs2Slice, List.length_take]
    omega
  · simp

/-! ### The result -/

lemma getD_units {done rest : List Char} {pos i : ℕ}
    (h : pos / 2 = (done.flatMap charUnits).length + i) :
    ((done ++ rest).flatMap charUnits).getD (pos / 2) 0 = (rest.flatMap charUnits).getD i 0 := by
  rw [List.flatMap_append, List.getD_append_right _ _ _ _ (by omega), h, Nat.add_sub_cancel_left]

/-- Where a Buffer splits a lead surrogate, its first byte is held back and one byte is used of the
others. -/
lemma write_splits {d : Decoder} {held buffer more : Bytes} {done rest : List Char}
    (hd : HoldsUtf16 d held rest) (hall : held ++ buffer ++ more = rest.flatMap utf16Code)
    (hbad : SplitsLead ((done ++ rest).flatMap charUnits)
      (done.flatMap utf16Code ++ held).length buffer) :
    ∃ d', write utf16le d buffer = (some [], d') ∧ d'.Sound ∧
      d'.charReceived < held.length + buffer.length := by
  obtain ⟨hodd, hlong, hlead⟩ := hbad
  have hpos : (done.flatMap utf16Code ++ held).length =
      2 * (done.flatMap charUnits).length + held.length := by
    rw [List.length_append, ← writeUcs2_flatMap, length_writeUcs2]
  rw [hpos] at hodd hlead
  rcases hd with ⟨hk, hlen⟩ | @⟨c, tail, u, us, hu, hk, hlen⟩ | @⟨c, tail, u, v, huv, -, hk, hlen⟩ |
    @⟨c, tail, u, v, huv, -, hk, hlen⟩
  · rw [List.length_nil] at hodd
    omega
  · rw [List.length_singleton, getD_units (i := 0) (by omega), List.flatMap_cons, hu] at hlead
    have hu' : isLead u = true := hlead
    obtain ⟨b, buffer, rfl⟩ : ∃ b buffer', buffer = b :: buffer' :=
      List.exists_cons_of_ne_nil (by rintro rfl; simp at hlong)
    have hb : b = (u >>> 8).toUInt8 := by
      rw [List.flatMap_cons, utf16Code, hu, writeUcs2_cons] at hall
      have h : u.toUInt8 :: b :: (buffer ++ more) =
          u.toUInt8 :: (u >>> 8).toUInt8 :: (writeUcs2 us ++ tail.flatMap utf16Code) := hall
      simp only [List.cons.injEq] at h
      exact h.2.1
    subst hb
    obtain ⟨d', hk', hlen', hfill⟩ := fill_byte_lead hu' hk hlen buffer
    have hrecv : d'.charReceived = 3 := by
      rw [hk'.received, List.length_append, List.length_take]
      rw [List.length_cons] at hlong
      have htwo : (unitBytes u).length = 2 := rfl
      omega
    refine ⟨d', ?_, ⟨by omega, by omega⟩, ?_⟩
    · rw [write, if_neg (by omega), hfill]
    · rw [hrecv, List.length_singleton]
      omega
  · have htwo : (unitBytes u).length = 2 := rfl
    rw [htwo] at hodd
    omega
  · have hthree : (unitBytes u ++ [v.toUInt8]).length = 3 := rfl
    rw [hthree, getD_units (i := 1) (by omega), List.flatMap_cons, huv] at hlead
    have hv : isLead v = false := by
      have h := endsLead_append_char [] c
      rwa [huv, List.nil_append, ← List.singleton_append, endsLead_concat] at h
    have hv' : isLead v = true := hlead
    rw [hv] at hv'
    cases hv'

lemma writeAll_append (d : Decoder) (pre post : List Bytes) :
    writeAll utf16le d (pre ++ post) =
      (writeAll utf16le d pre).bind fun (s, d) =>
        (writeAll utf16le d post).map fun (t, d) => (s ++ t, d) := by
  induction pre generalizing d with
  | nil => simp [writeAll]
  | cons buffer pre ih =>
    rcases hw : write utf16le d buffer with ⟨_ | s, d₁⟩
    · simp [writeAll, hw]
    · simp only [List.cons_append, writeAll, hw, ih]
      rcases writeAll utf16le d₁ pre with _ | ⟨s', d₂⟩
      · rfl
      · simp [Function.comp_def]

/-- Bytes are lost where a lead surrogate is split. -/
lemma decode_splits {text : List Char} {chunks : List Bytes}
    (hall : chunks.flatten = text.flatMap utf16Code)
    (hbad : ¬ Along (fun before buffer =>
      ¬ SplitsLead (text.flatMap charUnits) before.length buffer)
      [] chunks) : decode utf16le chunks ≠ some (text.flatMap charUnits) := by
  obtain ⟨pre, buffer, post, rfl, hpre, hbad⟩ := exists_first_not hbad
  rw [List.flatten_append, List.flatten_cons] at hall
  obtain ⟨passed, rest, held, d, rfl, hheld, hd, hwrite⟩ :=
    writeAll_of_follows (follows_utf16 text) pre (buffer ++ post.flatten) (List.nil_append text)
      (.whole Decoder.keeps_new rfl) (by simpa using hall) hpre
  rw [List.nil_append] at hheld
  rw [List.nil_append, not_not, hheld] at hbad
  have hrest : held ++ buffer ++ post.flatten = rest.flatMap utf16Code := by
    rw [hheld, List.flatMap_append, List.append_assoc] at hall
    simpa using List.append_cancel_left hall
  obtain ⟨d', hw, hs, hlt⟩ := write_splits hd hrest hbad
  intro hdec
  rw [decode, writeAll_append, hwrite] at hdec
  simp only [Option.bind_some, writeAll, hw, List.nil_append] at hdec
  rcases hpost : writeAll utf16le d' post with _ | ⟨t, d''⟩
  · simp [hpost] at hdec
  · have hcount := writeAll_count hs hpost
    have hend := end_count d''
    have hlen := congrArg List.length hrest
    rw [hpost] at hdec
    have hout : (passed.flatMap charUnits ++ t) ++ «end» utf16le d'' =
        (passed ++ rest).flatMap charUnits := by simpa using hdec
    have hout' := congrArg List.length hout
    rw [List.flatMap_append] at hout'
    rw [← writeUcs2_flatMap, length_writeUcs2] at hlen
    simp only [List.length_append] at hout' hlen
    omega

/-- **UTF-16LE in chunks.** What `write` gives for the chunks and `end` gives at the end is the
decoding of the whole if and only if no chunk of three bytes or more starts with the second byte
of a lead surrogate. -/
theorem utf16_chunks_iff (text : List Char) (chunks : List Bytes)
    (h : chunks.flatten = writeUcs2 (text.flatMap charUnits)) :
    utf16le.toString chunks.flatten = text.flatMap charUnits ∧
    (decode utf16le chunks = some (utf16le.toString chunks.flatten) ↔
      ∀ pre buffer post, chunks = pre ++ buffer :: post →
        ¬ SplitsLead (text.flatMap charUnits) pre.flatten.length buffer) := by
  rw [writeUcs2_flatMap] at h
  have hslice : utf16le.toString chunks.flatten = text.flatMap charUnits := by
    rw [h]
    exact ucs2Slice_text text
  refine ⟨hslice, ?_⟩
  rw [hslice]
  have halong := along_iff (fun before buffer =>
    ¬ SplitsLead (text.flatMap charUnits) before.length buffer) [] chunks
  simp only [List.nil_append] at halong
  rw [← halong]
  constructor
  · intro hdec
    by_contra hbad
    exact decode_splits h hbad hdec
  · exact decode_of_follows (follows_utf16 text) HoldsUtf16.keeps_cut utf16Code_ne_nil
      (.whole Decoder.keeps_new rfl) h

/-- A pair cut after its first byte, with one Buffer for the rest. -/
theorem utf16_pair_lost :
    [[0x3D], [0xD8, 0x4D, 0xDC]].flatten = writeUcs2 (['👍'].flatMap charUnits) ∧
      utf16le.toString [[0x3D], [0xD8, 0x4D, 0xDC]].flatten = [0xD83D, 0xDC4D] ∧
      decode utf16le [[0x3D], [0xD8, 0x4D, 0xDC]] = some [0xD83D] := by
  decide

/-- The same pair, cut once more. -/
theorem utf16_chunks_pair :
    decode utf16le [[0x3D], [0xD8, 0x4D], [0xDC]] = some [0xD83D, 0xDC4D] := by
  have h := utf16_chunks_iff ['👍'] [[0x3D], [0xD8, 0x4D], [0xDC]] (by decide)
  have hcuts : ∀ pre buffer post, [[0x3D], [0xD8, 0x4D], [0xDC]] = pre ++ buffer :: post →
      ¬ SplitsLead (['👍'].flatMap charUnits) pre.flatten.length buffer := by
    intro pre buffer post heq hsplit
    have hmem : buffer ∈ [[0x3D], [0xD8, 0x4D], [(0xDC : UInt8)]] := by
      rw [heq]
      simp
    have hlong := hsplit.2.1
    simp only [List.mem_cons, List.not_mem_nil, or_false] at hmem
    rcases hmem with rfl | rfl | rfl <;> simp at hlong
  exact h.2.mpr hcuts

end NodeCore.StringDecoder
