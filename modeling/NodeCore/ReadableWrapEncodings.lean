import NodeCore.ReadableWrap
import NodeCore.StringBytes
import NodeCore.StringDecoderUtf8
import NodeCore.StringSlices

/-!
`Readable.wrap` in every encoding: which streams come through as one decoder gives them.

Unless the name of the encoding is the default one, what the handlers have decoded is turned into a
Buffer again, and `readableAddChunk` decodes that with the same decoder.
-/

namespace NodeCore.ReadableWrap

open NodeCore.Encoding NodeCore.Reentrant NodeCore.Readable NodeCore.ReadableDecoded
open NodeCore.StringDecoder NodeCore.EncodeConcat NodeCore.StringBytes

/-! ### One decoder -/

section Once

variable {α σ : Type} (codec : Codec α σ)

/-- The chunks through one decoder, `none` where it throws. -/
def once : σ → List Bytes → Option (List α)
  | d, [] => some (codec.finish d)
  | d, b :: rest =>
    match codec.write d b with
    | (none, _) => none
    | (some text, d) => (once d rest).map fun more => text ++ more

/-- What the decoder is after the chunks. -/
def after : σ → List Bytes → σ
  | d, [] => d
  | d, b :: rest => after (codec.write d b).2 rest

variable (data : List α → Data)

/-- Whoever reads the wrapper to its end gets the chunks through one decoder, if that can decode
them. -/
def Transparent [DecidableEq α] (chunks : List Bytes) : Prop :=
  ∀ text, once codec codec.start chunks = some text → ∀ highWaterMark w,
    Reachable codec data (js "utf8") highWaterMark chunks w → w.Complete →
      w.system.st.taken = text

variable {codec data}

lemma transparent_iff [DecidableEq α] {chunks : List Bytes} : Transparent codec data chunks ↔
    ∀ text, once codec codec.start chunks = some text →
      wrapText codec data (js "utf8") codec.start chunks = text := by
  constructor
  · intro h text htext
    obtain ⟨w, hw, hcomplete⟩ := exists_complete codec data (js "utf8") 16 chunks
    rw [← taken_of_complete hw hcomplete]
    exact h text htext 16 w hw hcomplete
  · intro h text htext highWaterMark w hw hcomplete
    rw [taken_of_complete hw hcomplete]
    exact h text htext

/-- What is pushed goes into the buffer as it is. -/
def Direct (codec : Codec α σ) (data : List α → Data) : Prop :=
  ∀ d text, text ≠ [] → pushedText codec data (js "utf8") d text = (text, d)

/-- Only at the end something is told twice. -/
lemma wrapText_direct (hdirect : Direct codec data) {d : σ} {chunks : List Bytes} {text : List α}
    (h : once codec d chunks = some text) :
    wrapText codec data (js "utf8") d chunks = text ++ codec.finish (after codec d chunks) := by
  induction chunks generalizing d text with
  | nil =>
    obtain rfl := Option.some.inj h
    unfold wrapText endText after
    split_ifs with hnil
    · rw [hnil]
    · rw [hdirect d _ hnil]
  | cons b rest ih =>
    unfold once at h
    unfold wrapText dataText after
    rcases hw : codec.write d b with ⟨_ | part, d'⟩ <;> rw [hw] at h
    · cases h
    · obtain ⟨more, hmore, rfl⟩ := Option.map_eq_some_iff.mp h
      dsimp only
      split_ifs with hnil
      · rw [hnil, ih hmore]
        rfl
      · rw [hdirect d' part hnil, ih hmore, List.append_assoc]

end Once

/-- Without an encoding the bytes come through. -/
lemma transparent_bytes (chunks : List Bytes) : Transparent Codec.bytes Data.buf chunks := by
  have hdirect : Direct Codec.bytes Data.buf := by
    intro d text hne
    have hlength : ¬ (Item.buf text : Item UInt8).length = 0 := fun h0 =>
      hne (List.length_eq_zero_iff.mp h0)
    have hpushed : pushed Codec.bytes (js "utf8") (given (.buf text)) none = some (.buf text) := rfl
    rw [pushedText_eq Codec.bytes Data.buf (js "utf8") hpushed]
    unfold added
    rw [if_neg hlength]
    rfl
  refine transparent_iff.mpr fun text htext => ?_
  rw [wrapText_direct hdirect htext]
  exact List.append_nil text

/-! ### The decoders -/

/-- `passThroughWrite`; `end` has nothing to give. -/
def passThrough (slice : Bytes → Str) : Codec UInt16 Decoder where
  start := .new
  write := fun d b => (some (slice b), d)
  finish := fun _ => []
  units := id
  encoding := none

/-- The decoder of an encoding. -/
def decoderOf : Enc → Codec UInt16 Decoder
  | .utf8 => stringCodec utf8 []
  | .ucs2 => stringCodec utf16le []
  | .base64 => stringCodec base64 []
  | .ascii => passThrough asciiSlice
  | .binary => passThrough binarySlice
  | .hex => passThrough hexSlice

/-- `setEncoding(name)` -/
def setEncoding (name : EncArg) (e : Enc) : Codec UInt16 Decoder :=
  { decoderOf e with encoding := name }

section SetEncoding

variable {name : EncArg} {e : Enc}

lemma direct_of_default : Direct (setEncoding (some (js "utf8")) e) Data.str := by
  intro d text hne
  have hlength : ¬ (Item.units text : Item UInt16).length = 0 := fun h0 =>
    hne (List.length_eq_zero_iff.mp h0)
  have hpushed : pushed (setEncoding (some (js "utf8")) e) (js "utf8") (given (.str text)) none =
      some (.units text) := by
    unfold pushed given
    dsimp only
    have hname : ¬ some (js "utf8") ≠ (setEncoding (some (js "utf8")) e).encoding :=
      not_not.mpr rfl
    rw [if_neg hname]
    cases e <;> rfl
  rw [pushedText_eq _ Data.str (js "utf8") hpushed]
  unfold added
  rw [if_neg hlength]
  rfl

/-- Any other name: what has been decoded is encoded and decoded again. -/
lemma pushedText_of_ne (hname : name ≠ some (js "utf8")) (d : Decoder) {text : Str}
    (hne : text ≠ []) : pushedText (setEncoding name e) Data.str (js "utf8") d text =
      (((decoderOf e).write d (writeUtf8 text)).1.getD [],
        ((decoderOf e).write d (writeUtf8 text)).2) := by
  have hbuffer : newBuffer text (some (js "utf8")) = some (writeUtf8 text) := by
    have hutf8 : ofName (orUtf8 (some (js "utf8"))) = some .utf8 := by decide
    unfold newBuffer
    rw [hutf8]
    rfl
  have hlength : ¬ (Item.buf (writeUtf8 text) : Item UInt16).length = 0 := by
    have hge := writeUtf8_length_ge text
    have hpos := List.length_pos_iff.mpr hne
    show (writeUtf8 text).length ≠ 0
    omega
  have hpushed : pushed (setEncoding name e) (js "utf8") (given (.str text)) none =
      some (.buf (writeUtf8 text)) := by
    unfold pushed given
    dsimp only
    have hother : some (js "utf8") ≠ (setEncoding name e).encoding := hname.symm
    rw [if_pos hother, hbuffer]
    rfl
  rw [pushedText_eq _ Data.str (js "utf8") hpushed]
  unfold added
  rw [if_neg hlength]
  rfl

/-! ### Encodings that keep nothing back -/

section PassThrough

variable {slice : Bytes → Str} (he : decoderOf e = passThrough slice)

include he

lemma once_passThrough (d : Decoder) (chunks : List Bytes) :
    once (setEncoding name e) d chunks = some (chunks.flatMap slice) := by
  have hwrite (d : Decoder) (b : Bytes) : (setEncoding name e).write d b = (some (slice b), d) := by
    unfold setEncoding
    rw [he]
    rfl
  have hfinish (d : Decoder) : (setEncoding name e).finish d = [] := by
    unfold setEncoding
    rw [he]
    rfl
  induction chunks with
  | nil =>
    unfold once
    rw [hfinish]
    rfl
  | cons b rest ih =>
    unfold once
    rw [hwrite]
    dsimp only
    rw [ih]
    rfl

lemma wrapText_passThrough (hname : name ≠ some (js "utf8")) (hnil : slice [] = []) (d : Decoder)
    (chunks : List Bytes) : wrapText (setEncoding name e) Data.str (js "utf8") d chunks =
      chunks.flatMap fun b => slice (writeUtf8 (slice b)) := by
  have hwrite (d : Decoder) (b : Bytes) : (decoderOf e).write d b = (some (slice b), d) := by
    rw [he]
    rfl
  have hfinish (d : Decoder) : (setEncoding name e).finish d = [] := by
    unfold setEncoding
    rw [he]
    rfl
  induction chunks with
  | nil =>
    unfold wrapText endText
    rw [hfinish, if_pos rfl, hfinish]
    rfl
  | cons b rest ih =>
    have hdata : dataText (setEncoding name e) Data.str (js "utf8") d b =
        (slice (writeUtf8 (slice b)), d) := by
      have hw : (setEncoding name e).write d b = (some (slice b), d) := hwrite d b
      unfold dataText
      rw [hw]
      dsimp only
      split_ifs with hempty
      · rw [hempty]
        show _ = (slice [], d)
        rw [hnil]
      · rw [pushedText_of_ne hname d hempty, hwrite]
        rfl
    unfold wrapText
    rw [hdata, ih]
    rfl

/-- What comes through is what is the same when it is encoded and decoded again. -/
lemma transparent_passThrough (hname : name ≠ some (js "utf8")) (hnil : slice [] = [])
    (chunks : List Bytes) : Transparent (setEncoding name e) Data.str chunks ↔
      (chunks.flatMap fun b => slice (writeUtf8 (slice b))) = chunks.flatMap slice := by
  rw [transparent_iff]
  constructor
  · intro h
    rw [← wrapText_passThrough he hname hnil (setEncoding name e).start]
    exact h _ (once_passThrough he _ chunks)
  · intro h text htext
    rw [once_passThrough he] at htext
    rw [wrapText_passThrough he hname hnil, h]
    exact Option.some.inj htext

end PassThrough

/-- Parts that are at least as long, and together the same. -/
lemma length_le_of_flatMap_eq {β : Type} {f g : Bytes → List β}
    (hle : ∀ b, (f b).length ≤ (g b).length) {chunks : List Bytes}
    (h : chunks.flatMap g = chunks.flatMap f) : ∀ b ∈ chunks, (g b).length ≤ (f b).length := by
  have hall (chunks : List Bytes) : (chunks.flatMap f).length ≤ (chunks.flatMap g).length := by
    induction chunks with
    | nil => exact le_rfl
    | cons b rest ih =>
      have := hle b
      simp only [List.flatMap_cons, List.length_append]
      omega
  intro b hb
  obtain ⟨pre, post, rfl⟩ := List.append_of_mem hb
  have hlength := congrArg List.length h
  simp only [List.flatMap_append, List.flatMap_cons, List.length_append] at hlength
  have hpre := hall pre
  have hpost := hall post
  omega

lemma asciiSlice_again (b : Bytes) : asciiSlice (writeUtf8 (asciiSlice b)) = asciiSlice b := by
  have hascii : Ascii (asciiSlice b) := by
    intro u hu
    obtain ⟨c, -, rfl⟩ := List.mem_map.mp hu
    rw [UInt16.lt_iff_toNat_lt, UInt8.toNat_toUInt16, UInt8.toNat_and]
    exact Nat.lt_succ_of_le Nat.and_le_right
  rw [writeUtf8_ascii hascii]
  unfold asciiSlice writeOneByte
  rw [List.map_map, List.map_map]
  exact List.map_congr_left fun c _ => by simp [UInt16.and_assoc]

lemma binarySlice_again {b : Bytes} (h : Ascii (binarySlice b)) :
    binarySlice (writeUtf8 (binarySlice b)) = binarySlice b := by
  rw [writeUtf8_ascii h]
  unfold binarySlice writeOneByte
  rw [List.map_map, List.map_map]
  exact List.map_congr_left fun c _ => by simp

lemma ascii_binarySlice (b : Bytes) : Ascii (binarySlice b) ↔ ∀ c ∈ b, c < 0x80 := by
  unfold Ascii binarySlice
  simp only [List.forall_mem_map]
  refine forall₂_congr fun c _ => ?_
  rw [UInt16.lt_iff_toNat_lt, UInt8.lt_iff_toNat_lt, UInt8.toNat_toUInt16]
  rfl

lemma ascii_hexSlice (b : Bytes) : Ascii (hexSlice b) := by
  have htable : hexTable.all (fun u => decide (u < 0x80)) = true := by decide
  have hunit (i : ℕ) : hexTable.getD i 0 < 0x80 := by
    rw [List.getD_eq_getElem?_getD]
    cases hi : hexTable[i]? with
    | none => decide
    | some u => exact of_decide_eq_true (List.all_eq_true.mp htable u (List.mem_of_getElem? hi))
  intro u hu
  obtain ⟨c, -, hu⟩ := List.mem_flatMap.mp hu
  simp only [List.mem_cons, List.not_mem_nil, or_false] at hu
  rcases hu with rfl | rfl
  · exact hunit _
  · exact hunit _

lemma transparent_ascii (hname : name ≠ some (js "utf8")) (chunks : List Bytes) :
    Transparent (setEncoding name .ascii) Data.str chunks := by
  refine (transparent_passThrough rfl hname rfl chunks).mpr ?_
  exact List.flatMap_congr fun b _ => asciiSlice_again b

lemma transparent_binary (hname : name ≠ some (js "utf8")) (chunks : List Bytes) :
    Transparent (setEncoding name .binary) Data.str chunks ↔ ∀ c ∈ chunks.flatten, c < 0x80 := by
  rw [transparent_passThrough rfl hname rfl]
  have hlength (b : Bytes) : (binarySlice b).length ≤
      (binarySlice (writeUtf8 (binarySlice b))).length := by
    have hge := writeUtf8_length_ge (binarySlice b)
    rwa [show (binarySlice (writeUtf8 (binarySlice b))).length =
      (writeUtf8 (binarySlice b)).length from List.length_map ..]
  constructor
  · intro h c hc
    obtain ⟨b, hb, hc⟩ := List.mem_flatten.mp hc
    have hle := length_le_of_flatMap_eq hlength h b hb
    rw [show (binarySlice (writeUtf8 (binarySlice b))).length =
      (writeUtf8 (binarySlice b)).length from List.length_map ..] at hle
    exact (ascii_binarySlice b).mp (ascii_of_length hle) c hc
  · intro h
    refine List.flatMap_congr fun b hb => binarySlice_again ?_
    exact (ascii_binarySlice b).mpr fun c hc => h c (List.mem_flatten.mpr ⟨b, hb, hc⟩)

lemma transparent_hex (hname : name ≠ some (js "utf8")) {chunks : List Bytes}
    (hne : ∀ b ∈ chunks, b ≠ []) :
    Transparent (setEncoding name .hex) Data.str chunks ↔ chunks = [] := by
  rw [transparent_passThrough rfl hname rfl]
  have hlength (b : Bytes) : (hexSlice (writeUtf8 (hexSlice b))).length = 4 * b.length := by
    rw [length_hexSlice, writeUtf8_ascii (ascii_hexSlice b)]
    unfold writeOneByte
    rw [List.length_map, length_hexSlice]
    omega
  constructor
  · intro h
    have hle := length_le_of_flatMap_eq (fun b => by rw [hlength, length_hexSlice]; omega) h
    refine List.eq_nil_iff_forall_not_mem.mpr fun b hb => ?_
    have hb' := hle b hb
    rw [hlength, length_hexSlice] at hb'
    have hpos := List.length_pos_iff.mpr (hne b hb)
    omega
  · rintro rfl
    rfl

/-! ### Base64

Of `n` bytes, and `k` groups that are encoded again, `j` groups come out. -/

/-- What is decoded once. -/
lemma once_base64 {d : Decoder} {held : Bytes} (hd : d.Grouped held) (chunks : List Bytes) :
    ∃ text, once (setEncoding name .base64) d chunks = some text ∧
      text.length = 4 * ((held.length + chunks.flatten.length + 2) / 3) ∧
      ((held.length + chunks.flatten.length) % 3 ≠ 0 → pad ∈ text) := by
  induction chunks generalizing d held with
  | nil =>
    refine ⟨_, rfl, ?_, fun hmod => ?_⟩
    · show («end» base64 d).length = _
      rw [end_base64 hd, length_base64Slice]
      rfl
    · show pad ∈ «end» base64 d
      have hlt := hd.lt
      rw [end_base64 hd]
      refine pad_mem_base64Slice ?_ hlt
      rintro rfl
      exact hmod rfl
  | cons b rest ih =>
    obtain ⟨d', whole, held', hwrite, hd', hwhole, hsplit⟩ := write_base64 hd b
    have hsum := congrArg List.length hsplit
    simp only [List.length_append] at hsum
    obtain ⟨more, hmore, hlength, hpad⟩ := ih hd'
    have hw : (setEncoding name .base64).write d b = (some (base64Slice whole), d') := hwrite
    refine ⟨base64Slice whole ++ more, ?_, ?_, fun hmod => ?_⟩
    · unfold once
      rw [hw]
      dsimp only
      rw [hmore]
      rfl
    · rw [List.length_append, length_base64Slice, hlength, List.flatten_cons, List.length_append]
      omega
    · refine List.mem_append_right _ (hpad ?_)
      rw [List.flatten_cons, List.length_append] at hmod
      omega

/-- Text of base64 that is encoded and decoded again. -/
lemma pushedText_base64 (hname : name ≠ some (js "utf8")) {d : Decoder} {held : Bytes}
    (hd : d.Grouped held) {b : Bytes} (hb : b ≠ []) :
    ∃ text d' held' j,
      pushedText (setEncoding name .base64) Data.str (js "utf8") d (base64Slice b) =
        (text, d') ∧ d'.Grouped held' ∧ pad ∉ text ∧ text.length = 4 * j ∧
      held.length + 4 * ((b.length + 2) / 3) = 3 * j + held'.length := by
  have hpos := List.length_pos_iff.mpr hb
  have hne : base64Slice b ≠ [] := by
    rw [← List.length_pos_iff, length_base64Slice]
    omega
  have hutf8 : (writeUtf8 (base64Slice b)).length = 4 * ((b.length + 2) / 3) := by
    rw [writeUtf8_ascii (base64Slice_lt b)]
    unfold writeOneByte
    rw [List.length_map, length_base64Slice]
  obtain ⟨d', whole, held', hwrite, hd', hwhole, hsplit⟩ :=
    write_base64 hd (writeUtf8 (base64Slice b))
  have hsum := congrArg List.length hsplit
  simp only [List.length_append] at hsum
  have hw : (decoderOf .base64).write d (writeUtf8 (base64Slice b)) =
    (some (base64Slice whole), d') := hwrite
  refine ⟨base64Slice whole, d', held', whole.length / 3, ?_, hd',
    pad_notMem_base64Slice hwhole, ?_, ?_⟩
  · rw [pushedText_of_ne hname d hne, hw]
    rfl
  · rw [length_base64Slice]
    omega
  · omega

/-- What is decoded twice. -/
lemma wrapText_base64 (hname : name ≠ some (js "utf8")) {d : Decoder} {held : Bytes}
    (hd : d.Grouped held) (chunks : List Bytes) :
    ∃ k j g, g < 3 ∧ held.length + chunks.flatten.length + k = 3 * j + g ∧ (k = 0 → j = 0) ∧
      (wrapText (setEncoding name .base64) Data.str (js "utf8") d chunks).length =
        4 * j + (if g = 0 then 0 else 8) ∧
      (g = 0 → pad ∉ wrapText (setEncoding name .base64) Data.str (js "utf8") d chunks) := by
  induction chunks generalizing d held with
  | nil =>
    have hlt := hd.lt
    have hfinish {d : Decoder} {held : Bytes} (hd : d.Grouped held) :
        (setEncoding name .base64).finish d = base64Slice held := end_base64 hd
    refine ⟨0, 0, held.length, hlt, by simp, fun _ => rfl, ?_⟩
    unfold wrapText endText
    rcases eq_or_ne held [] with rfl | hne
    · have hnil : (setEncoding name .base64).finish d = [] := hfinish hd
      rw [hnil, if_pos rfl, hnil]
      exact ⟨rfl, fun _ => List.not_mem_nil⟩
    · have hpos := List.length_pos_iff.mpr hne
      have hslice : base64Slice held ≠ [] := by
        rw [← List.length_pos_iff, length_base64Slice]
        omega
      obtain ⟨text, d', held', j, hpushed, hd', -, hlength, hsum⟩ := pushedText_base64 hname hd hne
      rw [hfinish hd, if_neg hslice, hpushed, hfinish hd', if_neg (by omega), List.length_append,
        length_base64Slice, hlength]
      have hlt' := hd'.lt
      exact ⟨by omega, fun h0 => absurd h0 (by omega)⟩
  | cons b rest ih =>
    obtain ⟨d', whole, held', hwrite, hd', hwhole, hsplit⟩ := write_base64 hd b
    have hsum := congrArg List.length hsplit
    simp only [List.length_append] at hsum
    have hw : (setEncoding name .base64).write d b = (some (base64Slice whole), d') := hwrite
    unfold wrapText dataText
    rw [hw]
    dsimp only
    rcases eq_or_ne whole [] with rfl | hne
    · -- nothing has come of the chunk yet
      obtain ⟨k, j, g, hg, hall, hzero, hlength, hpad⟩ := ih hd'
      have hnil : base64Slice [] = [] := by simp [base64Slice]
      rw [if_pos hnil]
      refine ⟨k, j, g, hg, ?_, hzero, hlength, hpad⟩
      rw [List.flatten_cons, List.length_append]
      rw [List.length_nil] at hsum
      omega
    · have hpos := List.length_pos_iff.mpr hne
      have hslice : base64Slice whole ≠ [] := by
        rw [← List.length_pos_iff, length_base64Slice]
        omega
      obtain ⟨text, d'', held'', i, hpushed, hd'', hplain, hlen, hsum'⟩ :=
        pushedText_base64 hname hd' hne
      obtain ⟨k, j, g, hg, hall, hzero, hlength, hpad⟩ := ih hd''
      rw [if_neg hslice, hpushed]
      refine ⟨k + whole.length / 3, j + i, g, hg, ?_, by omega, ?_, fun h0 => ?_⟩
      · rw [List.flatten_cons, List.length_append]
        omega
      · rw [List.length_append, hlen, hlength]
        omega
      · exact fun hmem => (List.mem_append.mp hmem).elim hplain (hpad h0)

lemma transparent_base64 (hname : name ≠ some (js "utf8")) {chunks : List Bytes}
    (hne : ∀ b ∈ chunks, b ≠ []) :
    Transparent (setEncoding name .base64) Data.str chunks ↔ chunks = [] := by
  have hnew : Decoder.new.Grouped [] := Decoder.grouped_new
  rw [transparent_iff]
  constructor
  · intro h
    obtain ⟨text, htext, hlength, hpad⟩ := @once_base64 name _ _ hnew chunks
    obtain ⟨k, j, g, hg, hall, hzero, hlength', hpad'⟩ := wrapText_base64 hname hnew chunks
    have heq : wrapText (setEncoding name .base64) Data.str (js "utf8") .new chunks = text :=
      h text htext
    rw [heq] at hlength' hpad'
    rw [List.length_nil, Nat.zero_add] at hlength hpad hall
    have hempty : chunks.flatten.length = 0 := by
      by_cases h0 : g = 0
      · have hmod : chunks.flatten.length % 3 = 0 := by
          by_contra hmod
          exact hpad' h0 (hpad hmod)
        rw [if_pos h0] at hlength'
        omega
      · rw [if_neg h0] at hlength'
        omega
    refine List.eq_nil_iff_forall_not_mem.mpr fun b hb => ?_
    have hb' := List.flatten_eq_nil_iff.mp (List.length_eq_zero_iff.mp hempty) b hb
    exact hne b hb hb'
  · rintro rfl text htext
    obtain rfl := Option.some.inj htext
    rfl

/-! ### UTF-8 -/

/-- `once` is what `StringDecoder` decodes. -/
lemma once_utf8 (d : Decoder) (chunks : List Bytes) : once (setEncoding name .utf8) d chunks =
    (writeAll utf8 d chunks).map fun (s, d) => s ++ «end» utf8 d := by
  induction chunks generalizing d with
  | nil => rfl
  | cons b rest ih =>
    have hw : (setEncoding name .utf8).write d b = write utf8 d b := rfl
    unfold once writeAll
    rw [hw]
    rcases write utf8 d b with ⟨_ | s, d'⟩
    · rfl
    · dsimp only
      rw [ih]
      cases writeAll utf8 d' rest with
      | none => rfl
      | some r => exact congrArg some (List.append_assoc ..).symm

lemma after_utf8 {d d' : Decoder} {s : Str} {chunks : List Bytes}
    (h : writeAll utf8 d chunks = some (s, d')) : after (setEncoding name .utf8) d chunks = d' := by
  induction chunks generalizing d s with
  | nil =>
    cases h
    rfl
  | cons b rest ih =>
    have hw : (setEncoding name .utf8).write d b = write utf8 d b := rfl
    unfold writeAll at h
    unfold after
    rw [hw]
    rcases hwrite : write utf8 d b with ⟨_ | part, d₁⟩ <;> rw [hwrite] at h
    · cases h
    · obtain ⟨⟨more, d₂⟩, hmore, heq⟩ := Option.map_eq_some_iff.mp h
      cases heq
      exact ih hmore

/-- Under the default name everything is pushed as it is, but what is left at the end twice. -/
lemma transparent_default (chunks : List Bytes) :
    Transparent (setEncoding (some (js "utf8")) .utf8) Data.str chunks ↔
      ∀ s d, writeAll utf8 .new chunks = some (s, d) → «end» utf8 d = [] := by
  rw [transparent_iff]
  have hstart : (setEncoding (some (js "utf8")) .utf8).start = .new := rfl
  rw [hstart]
  constructor
  · intro h s d hall
    have honce : once (setEncoding (some (js "utf8")) .utf8) .new chunks =
        some (s ++ «end» utf8 d) := by
      rw [once_utf8, hall]
      rfl
    have htwice := wrapText_direct direct_of_default honce
    rw [h _ honce, after_utf8 hall] at htwice
    exact List.append_right_eq_self.mp htwice.symm
  · intro h text htext
    rw [wrapText_direct direct_of_default htext]
    rw [once_utf8] at htext
    obtain ⟨⟨s, d⟩, hall, -⟩ := Option.map_eq_some_iff.mp htext
    rw [after_utf8 hall]
    show text ++ «end» utf8 d = text
    rw [h s d hall, List.append_nil]

/-- Whole characters, with none held back. -/
lemma write_whole {d : Decoder} (hlen : d.charLength = 0) (text : List Char) :
    StringDecoder.write utf8 d (text.flatMap utf8Code) = (some (text.flatMap charUnits), d) := by
  have hends : endsLead ([] ++ text.flatMap charUnits) = false := endsLead_append_text rfl text
  have hcut : Cut utf8Code ([] : List Char) [] := .inl rfl
  unfold StringDecoder.write
  rw [if_pos hlen]
  rcases @detectIncompleteChar_cut d text [] [] hcut with ⟨-, hdetect⟩ | ⟨c, tail, _, hnil, _⟩
  · rw [List.append_nil] at hdetect
    rw [writeRest_whole utf8 hdetect hlen]
    show emit utf8 d ([] ++ utf8Slice (text.flatMap utf8Code)) = _
    rw [utf8Slice_text, emit_of_not_lead hends, List.nil_append]
  · cases hnil

/-- Whole characters are the same when they are encoded and decoded again. -/
lemma transparent_whole (hname : name ≠ some (js "utf8")) {chunks : List Bytes}
    (hwhole : ∀ b ∈ chunks, ∃ text : List Char, b = text.flatMap utf8Code) :
    Transparent (setEncoding name .utf8) Data.str chunks := by
  have hwrite (chars : List Char) :
      (decoderOf .utf8).write .new (chars.flatMap utf8Code) =
        (some (chars.flatMap charUnits), .new) := @write_whole .new rfl chars
  have hdata (chars : List Char) :
      dataText (setEncoding name .utf8) Data.str (js "utf8") .new (chars.flatMap utf8Code) =
        (chars.flatMap charUnits, .new) := by
    have hw : (setEncoding name .utf8).write .new (chars.flatMap utf8Code) =
      (some (chars.flatMap charUnits), .new) := hwrite chars
    unfold dataText
    rw [hw]
    dsimp only
    split_ifs with hnil
    · rw [hnil]
    · rw [pushedText_of_ne hname _ hnil, writeUtf8_text, hwrite]
      rfl
  refine transparent_iff.mpr fun text htext => ?_
  have hstart : (setEncoding name .utf8).start = .new := rfl
  rw [hstart] at htext ⊢
  induction chunks generalizing text with
  | nil =>
    obtain rfl := Option.some.inj htext
    rfl
  | cons b rest ih =>
    obtain ⟨chars, rfl⟩ := hwhole b List.mem_cons_self
    have hw : (setEncoding name .utf8).write .new (chars.flatMap utf8Code) =
      (some (chars.flatMap charUnits), .new) := hwrite chars
    unfold once at htext
    rw [hw] at htext
    obtain ⟨more, hmore, rfl⟩ := Option.map_eq_some_iff.mp htext
    unfold wrapText
    rw [hdata, ih (fun b hb => hwhole b (List.mem_cons_of_mem _ hb)) more hmore]

/-! ### Where it goes wrong -/

/-- The streams that come through. -/
def Meets (name : EncArg) (e : Enc) (chunks : List Bytes) : Prop :=
  match e with
  | .ascii => True
  | .binary => ∀ c ∈ chunks.flatten, c < 0x80
  | .utf8 =>
    if name = some (js "utf8") then
      ∀ s d, writeAll utf8 .new chunks = some (s, d) → «end» utf8 d = []
    else ∀ b ∈ chunks, ∃ text : List Char, b = text.flatMap utf8Code
  | .ucs2 | .base64 | .hex => chunks = []

/-- The name does not matter beyond whether it is the default one. -/
lemma wrapText_name (hname : name ≠ some (js "utf8")) (d : Decoder) (chunks : List Bytes) :
    wrapText (setEncoding name e) Data.str (js "utf8") d chunks =
      wrapText (setEncoding none e) Data.str (js "utf8") d chunks := by
  have hnone : (none : EncArg) ≠ some (js "utf8") := Option.some_ne_none _ |>.symm
  have hwrite : (setEncoding name e).write = (setEncoding none e).write := rfl
  have hfinish : (setEncoding name e).finish = (setEncoding none e).finish := rfl
  have hpushed (d : Decoder) {text : Str} (hne : text ≠ []) :
      pushedText (setEncoding name e) Data.str (js "utf8") d text =
        pushedText (setEncoding none e) Data.str (js "utf8") d text := by
    rw [pushedText_of_ne hname d hne, pushedText_of_ne hnone d hne]
  induction chunks generalizing d with
  | nil =>
    unfold wrapText endText
    rw [hfinish]
    split_ifs with hnil
    · rfl
    · rw [hpushed d hnil]
  | cons b rest ih =>
    have hdata : dataText (setEncoding name e) Data.str (js "utf8") d b =
        dataText (setEncoding none e) Data.str (js "utf8") d b := by
      unfold dataText
      rw [hwrite]
      rcases (setEncoding none e).write d b with ⟨_ | text, d'⟩
      · rfl
      · dsimp only
        split_ifs with hnil
        · rfl
        · exact hpushed d' hnil
    unfold wrapText
    rw [hdata, ih]

/-- A character behind which another is cut. -/
def cutAfter : List Bytes := [[0x61, 0xE2], [0x82, 0xAC]]

set_option maxRecDepth 10000 in
lemma not_transparent_utf8 (hname : name ≠ some (js "utf8")) :
    ¬ Transparent (setEncoding name .utf8) Data.str cutAfter := by
  rw [transparent_iff]
  intro h
  have htext : once (setEncoding name .utf8) .new cutAfter = some [0x61, 0x20AC] := by
    rw [once_utf8]
    decide
  have hwrong : wrapText (setEncoding name .utf8) Data.str (js "utf8") .new cutAfter =
    [0x61, 0x20AC] := h _ htext
  rw [wrapText_name hname] at hwrong
  revert hwrong
  decide

set_option maxRecDepth 10000 in
lemma not_transparent_ucs2 (hname : name ≠ some (js "utf8")) :
    ¬ Transparent (setEncoding name .ucs2) Data.str [[0x61, 0]] := by
  rw [transparent_iff]
  intro h
  have htext : once (setEncoding name .ucs2) .new [[0x61, 0]] = some [0x61] := by
    have hsame : once (setEncoding name .ucs2) .new [[0x61, 0]] =
      once (setEncoding none .ucs2) .new [[0x61, 0]] := rfl
    rw [hsame]
    decide
  have hwrong : wrapText (setEncoding name .ucs2) Data.str (js "utf8") .new [[0x61, 0]] = [0x61] :=
    h _ htext
  rw [wrapText_name hname] at hwrong
  revert hwrong
  decide

set_option maxRecDepth 10000 in
lemma not_transparent_default :
    ¬ Transparent (setEncoding (some (js "utf8")) .utf8) Data.str [[0xE2]] := by
  rw [transparent_default]
  intro h
  have hall : writeAll utf8 .new [[0xE2]] = some ([], ⟨[0xE2, 0, 0, 0, 0, 0], 1, 3⟩) := by decide
  have hend := h _ _ hall
  revert hend
  decide

/-! ### Every encoding -/

/-- The encodings of which it is known exactly what comes through. -/
def Exact (name : EncArg) (e : Enc) : Prop :=
  name = some (js "utf8") ∨ (e ≠ .utf8 ∧ e ≠ .ucs2)

lemma name_ne (he : ofName (orUtf8 name) = some e) (hne : e ≠ .utf8) :
    name ≠ some (js "utf8") := by
  rintro rfl
  have hutf8 : ofName (orUtf8 (some (js "utf8"))) = some .utf8 := by decide
  exact hne (Option.some.inj (he.symm.trans hutf8))

/-- Nothing comes of nothing. -/
lemma transparent_nil (e : Enc) : Transparent (setEncoding name e) Data.str [] := by
  have hfinish : (setEncoding name e).finish (setEncoding name e).start = [] := by cases e <;> rfl
  refine transparent_iff.mpr fun text htext => ?_
  obtain rfl := Option.some.inj htext
  unfold wrapText endText
  rw [if_pos hfinish, hfinish]
  rfl

lemma transparent_of_meets (he : ofName (orUtf8 name) = some e) {chunks : List Bytes}
    (h : Meets name e chunks) : Transparent (setEncoding name e) Data.str chunks := by
  cases e with
  | ascii => exact transparent_ascii (name_ne he (by decide)) chunks
  | binary => exact (transparent_binary (name_ne he (by decide)) chunks).mpr h
  | utf8 =>
    unfold Meets at h
    split_ifs at h with hname
    · rw [hname]
      exact (transparent_default chunks).mpr h
    · exact transparent_whole hname h
  | ucs2 =>
    obtain rfl : chunks = [] := h
    exact transparent_nil .ucs2
  | base64 =>
    obtain rfl : chunks = [] := h
    exact transparent_nil .base64
  | hex =>
    obtain rfl : chunks = [] := h
    exact transparent_nil .hex

lemma meets_of_transparent (he : ofName (orUtf8 name) = some e) (hexact : Exact name e)
    {chunks : List Bytes} (hne : ∀ b ∈ chunks, b ≠ [])
    (h : Transparent (setEncoding name e) Data.str chunks) : Meets name e chunks := by
  cases e with
  | ascii => trivial
  | binary => exact (transparent_binary (name_ne he (by decide)) chunks).mp h
  | utf8 =>
    obtain rfl : name = some (js "utf8") := hexact.resolve_right fun hc => hc.1 rfl
    unfold Meets
    rw [if_pos rfl]
    exact (transparent_default chunks).mp h
  | ucs2 => exact absurd rfl (hexact.resolve_left (name_ne he (by decide))).2
  | base64 => exact (transparent_base64 (name_ne he (by decide)) hne).mp h
  | hex => exact (transparent_hex (name_ne he (by decide)) hne).mp h

/-- No other encoding lets everything through. -/
lemma ascii_of_transparent (he : ofName (orUtf8 name) = some e)
    (h : ∀ chunks : List Bytes, (∀ b ∈ chunks, b ≠ []) →
      Transparent (setEncoding name e) Data.str chunks) : e = .ascii := by
  have hbyte : ∀ b ∈ ([[0xFF]] : List Bytes), b ≠ [] := by simp
  cases e with
  | ascii => rfl
  | binary =>
    have hlow := (transparent_binary (name_ne he (by decide)) _).mp (h [[0xFF]] hbyte)
    exact absurd (hlow 0xFF (by simp)) (by decide)
  | utf8 =>
    by_cases hname : name = some (js "utf8")
    · rw [hname] at h
      exact absurd (h [[0xE2]] (by simp)) not_transparent_default
    · exact absurd (h cutAfter (by simp [cutAfter])) (not_transparent_utf8 hname)
  | ucs2 => exact absurd (h [[0x61, 0]] (by simp)) (not_transparent_ucs2 (name_ne he (by decide)))
  | base64 =>
    cases (transparent_base64 (name_ne he (by decide)) hbyte).mp (h [[0xFF]] hbyte)
  | hex => cases (transparent_hex (name_ne he (by decide)) hbyte).mp (h [[0xFF]] hbyte)

end SetEncoding

/-- **What comes through `wrap`**: without an encoding everything; with one, what meets the
condition, and in the encodings that are known exactly nothing else. Only ASCII lets every stream
through. -/
theorem wrap_transparent {name : EncArg} {e : Enc} (he : ofName (orUtf8 name) = some e) :
    (∀ chunks, Transparent Codec.bytes Data.buf chunks) ∧
    (∀ chunks, Meets name e chunks → Transparent (setEncoding name e) Data.str chunks) ∧
    (Exact name e → ∀ chunks, (∀ b ∈ chunks, b ≠ []) →
      (Transparent (setEncoding name e) Data.str chunks ↔ Meets name e chunks)) ∧
    ((∀ chunks : List Bytes, (∀ b ∈ chunks, b ≠ []) →
      Transparent (setEncoding name e) Data.str chunks) ↔ e = .ascii) := by
  refine ⟨transparent_bytes, fun chunks => transparent_of_meets he, fun hexact chunks hne =>
    ⟨meets_of_transparent he hexact hne, transparent_of_meets he⟩, ascii_of_transparent he, ?_⟩
  rintro rfl chunks -
  exact transparent_ascii (name_ne he (by decide)) chunks

set_option maxRecDepth 10000 in
/-- The default name, and a character that comes in two chunks. -/
theorem wrap_transparent_default :
    Transparent (setEncoding (some (js "utf8")) .utf8) Data.str cutAfter := by
  have hname : ofName (orUtf8 (some (js "utf8"))) = some .utf8 := by decide
  refine (wrap_transparent hname).2.1 cutAfter ?_
  unfold Meets
  rw [if_pos rfl]
  have hall : writeAll utf8 .new cutAfter =
      some ([0x61, 0x20AC], ⟨[0xE2, 0x82, 0xAC, 0, 0, 0], 0, 0⟩) := by
    decide
  intro s d h
  rw [hall] at h
  cases h
  rfl

/-- `setEncoding('hex')`: one byte comes out as the hex of its hex. -/
theorem hex_twice : ∃ w, Reachable (setEncoding (some (js "hex")) .hex) Data.str (js "utf8") 16
      [[0xFF]] w ∧ w.Complete ∧
    once (setEncoding (some (js "hex")) .hex) .new [[0xFF]] = some (js "ff") ∧
    w.system.st.taken = js "6666" := by
  obtain ⟨w, hw, hcomplete⟩ :=
    exists_complete (setEncoding (some (js "hex")) .hex) Data.str (js "utf8") 16 [[0xFF]]
  refine ⟨w, hw, hcomplete, by decide, (taken_of_complete hw hcomplete).trans ?_⟩
  decide

end NodeCore.ReadableWrap
