import NodeCore.Separator
import NodeCore.StringDecoderUtf8

/-!
The lines of `readline`, where the input is no terminal.

`Scan` takes the text one code unit after the other: a line feed right behind a carriage return
ends nothing. A call of `_normalWrite` makes the steps of its chunk, so the cuts do not matter.
-/

namespace NodeCore.Readline

open NodeCore.Encoding NodeCore.StringDecoder

/-! ### `_normalWrite` -/

/-- `'\r'`. -/
def cr : UInt16 := 13

/-- `'\n'`. -/
def lf : UInt16 := 10

/-- How much `/\r?\n|\r(?!\n)/` matches in front; 0 where it does not. -/
def lineEnding : Str → ℕ
  | [] => 0
  | c :: s =>
    if c = cr ∧ s.head? = some lf then 2
    else if c = lf ∨ c = cr then 1
    else 0

/-- `lineEnding.test`. -/
def test : Str → Bool
  | [] => false
  | c :: s => lineEnding (c :: s) ≠ 0 || test s

/-- `split(lineEnding)`. -/
def split (s : Str) : List Str := Separator.splitMatches lineEnding 0 s

/-- `_line_buffer` is `none` before the first line and where it has been taken. -/
structure Interface where
  decoder : Decoder
  sawReturn : Bool
  lineBuffer : Option Str

def Interface.new : Interface := ⟨.new, false, none⟩

/-- `_normalWrite` on what the decoder returns, with the lines for `_onLine`. -/
def Interface.take (rl : Interface) (string : Str) : Interface × List Str :=
  let string := if rl.sawReturn ∧ string.head? = some lf then string.drop 1 else string
  let (string, lineBuffer) : Str × Option Str := match rl.lineBuffer with
    | some (c :: s) => (c :: s ++ string, none)
    | lineBuffer => (string, lineBuffer)
  if test string then
    let lines := split string
    (⟨rl.decoder, string.getLast? = some cr, lines.getLast?⟩, lines.dropLast)
  else
    (⟨rl.decoder, false, if string ≠ [] then some string else lineBuffer⟩, [])

/-- `_normalWrite`; `none` where the decoder throws. -/
def Interface.normalWrite (rl : Interface) (b : Bytes) : Option (Interface × List Str) :=
  match write utf8 rl.decoder b with
  | (none, _) => none
  | (some string, decoder) => some ({ rl with decoder := decoder }.take string)

/-- The lines of one chunk after the other. -/
def Interface.lines (rl : Interface) : List Bytes → Option (List Str)
  | [] => some []
  | b :: chunks =>
    match rl.normalWrite b with
    | none => none
    | some (rl, new) => (rl.lines chunks).map (new ++ ·)

/-! ### One unit after the other -/

/-- Whether the last unit was a carriage return, and what there is of a line. -/
structure Scan where
  sawReturn : Bool
  line : Str

def Scan.step (sc : Scan) (c : UInt16) : Scan × List Str :=
  if c = cr then (⟨true, []⟩, [sc.line])
  else if c = lf then
    if sc.sawReturn then (⟨false, sc.line⟩, []) else (⟨false, []⟩, [sc.line])
  else (⟨false, sc.line ++ [c]⟩, [])

def Scan.run (sc : Scan) : Str → Scan × List Str
  | [] => (sc, [])
  | c :: s =>
    let (sc, new) := sc.step c
    let (sc, later) := sc.run s
    (sc, new ++ later)

lemma Scan.run_append (sc : Scan) (s t : Str) : sc.run (s ++ t) =
    (((sc.run s).1.run t).1, (sc.run s).2 ++ ((sc.run s).1.run t).2) := by
  induction s generalizing sc with
  | nil => rfl
  | cons c s ih => simp only [List.cons_append, Scan.run, ih, List.append_assoc]

/-- A line feed that belongs to the return before it. -/
lemma Scan.run_lf (line s : Str) : Scan.run ⟨true, line⟩ (lf :: s) = Scan.run ⟨false, line⟩ s := by
  simp [Scan.run, Scan.step, lf, cr]

/-- Before anything else it does not matter that there was a return. -/
lemma Scan.run_other {s : Str} (h : s.head? ≠ some lf) (hne : s ≠ []) (sawReturn : Bool)
    (line : Str) : Scan.run ⟨sawReturn, line⟩ s = Scan.run ⟨false, line⟩ s := by
  cases s with
  | nil => exact absurd rfl hne
  | cons c s =>
    have hc : c ≠ lf := fun heq => h (by rw [heq]; rfl)
    simp [Scan.run, Scan.step, hc]

/-- There is no line ending. -/
lemma test_eq_false {s : Str} : test s = false ↔ cr ∉ s ∧ lf ∉ s := by
  induction s with
  | nil => simp [test]
  | cons c s ih =>
    have hending : lineEnding (c :: s) = 0 ↔ c ≠ cr ∧ c ≠ lf := by
      rw [lineEnding]
      split_ifs with h h'
      · simp [h.1]
      · rcases h' with rfl | rfl <;> simp
      · rw [not_or] at h'
        simp [h'.1, h'.2]
    rw [test, Bool.or_eq_false_iff, ih, decide_eq_false_iff_not, not_ne_iff, hending, List.mem_cons,
      List.mem_cons, not_or, not_or]
    rw [ne_comm, @ne_comm _ c lf]
    tauto

/-- What has no line ending is all of one line. -/
lemma Scan.run_plain {s : Str} (h : test s = false) (line : Str) (hne : s ≠ []) (sawReturn : Bool) :
    Scan.run ⟨sawReturn, line⟩ s = (⟨false, line ++ s⟩, []) := by
  induction s generalizing line sawReturn with
  | nil => exact absurd rfl hne
  | cons c s ih =>
    obtain ⟨hcr, hlf⟩ := test_eq_false.mp h
    rw [List.mem_cons, not_or] at hcr hlf
    have hstep : Scan.step ⟨sawReturn, line⟩ c = (⟨false, line ++ [c]⟩, []) := by
      simp [Scan.step, Ne.symm hcr.1, Ne.symm hlf.1]
    rw [Scan.run, hstep]
    dsimp only
    rcases eq_or_ne s [] with rfl | hs
    · rfl
    · rw [ih (test_eq_false.mpr ⟨hcr.2, hlf.2⟩) _ hs]
      simp

lemma split_ne_nil (s : Str) : split s ≠ [] := Separator.splitMatches_ne_nil _ _ _

lemma lf_ne_cr : lf ≠ cr := by decide

lemma split_crlf (s : Str) : split (cr :: lf :: s) = [] :: split s := by
  simp [split, Separator.splitMatches, lineEnding]

lemma split_cr {s : Str} (h : s.head? ≠ some lf) : split (cr :: s) = [] :: split s := by
  simp [split, Separator.splitMatches, lineEnding, h]

lemma split_lf (s : Str) : split (lf :: s) = [] :: split s := by
  simp [split, Separator.splitMatches, lineEnding, lf_ne_cr]

lemma split_other {c : UInt16} (hcr : c ≠ cr) (hlf : c ≠ lf) (s : Str) :
    split (c :: s) = (split s).modifyHead (c :: ·) := by
  simp [split, Separator.splitMatches, lineEnding, hcr, hlf]

/-- The pieces of `s`, the first behind what there is of a line: all but the last are lines. -/
def Scan.ofSplit (line s : Str) : Scan × List Str :=
  let pieces := (split s).modifyHead (line ++ ·)
  (⟨s.getLast? = some cr, pieces.getLast?.getD []⟩, pieces.dropLast)

/-- A line ends in front. -/
lemma Scan.ofSplit_ended {s t : Str} (hsplit : split t = [] :: split s)
    (hends : t.getLast? = some cr ↔ s.getLast? = some cr) (line : Str) :
    Scan.ofSplit line t = ((Scan.ofSplit [] s).1, line :: (Scan.ofSplit [] s).2) := by
  have hdecide : decide (t.getLast? = some cr) = decide (s.getLast? = some cr) :=
    decide_eq_decide.mpr hends
  unfold Scan.ofSplit
  dsimp only
  rw [hsplit, hdecide]
  cases hs : split s with
  | nil => exact absurd hs (split_ne_nil s)
  | cons y ys => simp

lemma ends_cons {c : UInt16} (hc : c ≠ cr) (s : Str) :
    (c :: s).getLast? = some cr ↔ s.getLast? = some cr := by
  cases s with
  | nil => simp [hc]
  | cons d s => rw [List.getLast?_cons_cons]

/-- The scan makes the pieces that `split` makes. -/
lemma Scan.run_split (line s : Str) : Scan.run ⟨false, line⟩ s = Scan.ofSplit line s := by
  induction hn : s.length using Nat.strong_induction_on generalizing line s with
  | _ n ih =>
    subst hn
    cases s with
    | nil => simp [Scan.run, Scan.ofSplit, split, Separator.splitMatches]
    | cons c s =>
      have hs (line : Str) := ih s.length (Nat.lt_succ_self _) line s rfl
      by_cases hcr : c = cr
      · subst hcr
        have hstep : Scan.step ⟨false, line⟩ cr = (⟨true, []⟩, [line]) := rfl
        rw [Scan.run, hstep]
        dsimp only
        by_cases hlf : s.head? = some lf
        · -- the line feed belongs to the return
          obtain ⟨s, rfl⟩ : ∃ t, s = lf :: t := by
            cases s with
            | nil => cases hlf
            | cons d s => exact ⟨s, by rw [Option.some.inj hlf]⟩
          have hends : (cr :: lf :: s).getLast? = some cr ↔ s.getLast? = some cr := by
            rw [List.getLast?_cons_cons, ends_cons lf_ne_cr]
          rw [Scan.run_lf, ih s.length (by simp) [] s rfl,
            Scan.ofSplit_ended (split_crlf s) hends line]
          rfl
        · rcases eq_or_ne s [] with rfl | hne
          · simp [Scan.run, Scan.ofSplit, split, Separator.splitMatches, lineEnding]
          · have hends : (cr :: s).getLast? = some cr ↔ s.getLast? = some cr := by
              obtain ⟨d, s, rfl⟩ := List.exists_cons_of_ne_nil hne
              rw [List.getLast?_cons_cons]
            rw [Scan.run_other hlf hne, hs [], Scan.ofSplit_ended (split_cr hlf) hends line]
            rfl
      · by_cases hlf : c = lf
        · subst hlf
          have hstep : Scan.step ⟨false, line⟩ lf = (⟨false, []⟩, [line]) := rfl
          rw [Scan.run, hstep]
          dsimp only
          rw [hs [], Scan.ofSplit_ended (split_lf s) (ends_cons lf_ne_cr s) line]
          rfl
        · have hstep : Scan.step ⟨false, line⟩ c = (⟨false, line ++ [c]⟩, []) := by
            simp [Scan.step, hcr, hlf]
          have hhead : ((split s).modifyHead (c :: ·)).modifyHead (line ++ ·) =
              (split s).modifyHead ((line ++ [c]) ++ ·) := by
            cases split s <;> simp
          have hdecide : decide ((c :: s).getLast? = some cr) = decide (s.getLast? = some cr) :=
            decide_eq_decide.mpr (ends_cons hcr s)
          rw [Scan.run, hstep]
          dsimp only
          rw [hs (line ++ [c]), List.nil_append]
          unfold Scan.ofSplit
          rw [split_other hcr hlf, hhead, hdecide]

/-! ### What holds between two units -/

/-- A line has no line ending, and nothing of it is there right behind a return. -/
structure Scan.Good (sc : Scan) : Prop where
  plain : test sc.line = false
  fresh : sc.sawReturn = true → sc.line = []

lemma Scan.Good.step {sc : Scan} (h : sc.Good) (c : UInt16) : (sc.step c).1.Good := by
  have hnone : test ([] : Str) = false := rfl
  unfold Scan.step
  split_ifs with hcr hlf hsaw
  · exact ⟨hnone, fun _ => rfl⟩
  · exact ⟨h.plain, fun hfalse => absurd hfalse Bool.false_ne_true⟩
  · exact ⟨hnone, fun _ => rfl⟩
  · obtain ⟨hcr', hlf'⟩ := test_eq_false.mp h.plain
    refine ⟨test_eq_false.mpr ⟨?_, ?_⟩, fun hfalse => absurd hfalse Bool.false_ne_true⟩
    · simpa [hcr'] using Ne.symm hcr
    · simpa [hlf'] using Ne.symm hlf

lemma Scan.Good.run {sc : Scan} (h : sc.Good) (s : Str) : (sc.run s).1.Good := by
  induction s generalizing sc with
  | nil => exact h
  | cons c s ih => exact ih (h.step c)

lemma Scan.run_line {line : Str} (h : test line = false) (s : Str) :
    Scan.run ⟨false, []⟩ (line ++ s) = Scan.run ⟨false, line⟩ s := by
  rcases eq_or_ne line [] with rfl | hne
  · rfl
  · rw [Scan.run_append, Scan.run_plain h [] hne]
    rfl

/-- Where the scan stands. -/
def Interface.scan (rl : Interface) : Scan := ⟨rl.sawReturn, rl.lineBuffer.getD []⟩

/-! ### One chunk -/

/-- The text of a chunk with what there is of a line, less a line feed that has been counted. -/
def Interface.joined (rl : Interface) (string : Str) : Str :=
  rl.lineBuffer.getD [] ++
    if rl.sawReturn ∧ string.head? = some lf then string.drop 1 else string

lemma Interface.take_eq (rl : Interface) (string : Str) : rl.take string =
    if test (rl.joined string) then
      (⟨rl.decoder, (rl.joined string).getLast? = some cr, (split (rl.joined string)).getLast?⟩,
        (split (rl.joined string)).dropLast)
    else
      (⟨rl.decoder, false, if rl.joined string ≠ [] then some (rl.joined string)
        else rl.lineBuffer⟩, []) := by
  unfold Interface.take Interface.joined
  cases hbuffer : rl.lineBuffer with
  | none => simp
  | some line =>
    cases line with
    | nil => simp
    | cons c line => simp

/-- A chunk that brings text makes the steps of that text. -/
lemma Interface.take_scan {rl : Interface} (h : rl.scan.Good) {string : Str} (hne : string ≠ []) :
    (rl.take string).1.decoder = rl.decoder ∧
      ((rl.take string).1.scan, (rl.take string).2) = rl.scan.run string := by
  have hrun : rl.scan.run string = Scan.run ⟨false, []⟩ (rl.joined string) := by
    have hplain : test (rl.lineBuffer.getD []) = false := h.plain
    rw [joined, Scan.run_line hplain]
    split_ifs with hlf
    · -- the line feed belongs to a return at the end of the last chunk
      obtain ⟨hsaw, hhead⟩ := hlf
      cases string with
      | nil => exact absurd rfl hne
      | cons c string =>
        rw [Option.some.inj hhead, Interface.scan, hsaw, Scan.run_lf]
        rfl
    · by_cases hsaw : rl.sawReturn = true
      · have hhead : string.head? ≠ some lf := fun hhead => hlf ⟨hsaw, hhead⟩
        exact Scan.run_other hhead hne _ _
      · rw [Interface.scan, Bool.eq_false_iff.mpr hsaw]
  rw [hrun, Interface.take_eq]
  split_ifs with htest hjoined
  · refine ⟨rfl, ?_⟩
    rw [Scan.run_split, Scan.ofSplit]
    have hhead : (split (rl.joined string)).modifyHead ([] ++ ·) = split (rl.joined string) := by
      cases split (rl.joined string) <;> rfl
    dsimp only
    rw [hhead]
    rfl
  · rw [Bool.not_eq_true] at htest
    rw [Scan.run_plain htest [] hjoined]
    exact ⟨rfl, rfl⟩
  · -- nothing but the line feed
    rw [not_ne_iff] at hjoined
    have hbuffer : rl.lineBuffer.getD [] = [] := (List.append_eq_nil_iff.mp hjoined).1
    rw [hjoined]
    refine ⟨rfl, ?_⟩
    dsimp only [Interface.scan, Scan.run]
    rw [hbuffer]

/-- One that brings none leaves the line as it is. -/
lemma Interface.take_nil {rl : Interface} (h : rl.scan.Good) :
    (rl.take []).1.decoder = rl.decoder ∧ (rl.take []).2 = [] ∧
      (rl.take []).1.scan = ⟨false, rl.scan.line⟩ := by
  have hjoined : rl.joined [] = rl.scan.line := by simp [joined, scan]
  rw [Interface.take_eq, hjoined, h.plain, if_neg Bool.false_ne_true]
  refine ⟨rfl, rfl, ?_⟩
  split_ifs with hline
  · rfl
  · rfl

/-! ### All chunks -/

/-- Only a line feed begins with the unit of one, and it has one byte. -/
lemma head_of_long {c : Char} (h : 1 < (utf8Code c).length) (tail : List Char) :
    ((c :: tail).flatMap charUnits).head? ≠ some lf := by
  intro hhead
  rw [List.flatMap_cons] at hhead
  rcases charUnits_cases c with ⟨u, hu, -⟩ | ⟨u, v, huv, hlead, -⟩
  · rw [hu] at hhead
    have hlf : u = lf := Option.some.inj hhead
    unfold charUnits unitsOf at hu
    split_ifs at hu with hsmall
    · have hcode := utf8Unit_char (Nat.lt_succ_of_le hsmall)
      rw [List.singleton_inj.mp hu, hlf] at hcode
      rw [← hcode] at h
      exact absurd h (by decide)
    · cases hu
  · rw [huv] at hhead
    rw [show u = lf from Option.some.inj hhead] at hlead
    exact absurd hlead (by decide)

/-- The lines are those of the scan over all of the text. -/
lemma lines_scan (chunks : List Bytes) (hne : ∀ b ∈ chunks, b ≠ []) {rl : Interface} {held : Bytes}
    {chars : List Char} (hd : HoldsUtf8 rl.decoder held chars)
    (hall : held ++ chunks.flatten = chars.flatMap utf8Code) (hgood : rl.scan.Good) :
    rl.lines chunks = some (rl.scan.run (chars.flatMap charUnits)).2 := by
  induction chunks generalizing rl held chars with
  | nil =>
    obtain ⟨-, rfl⟩ := hd.keeps_cut.2.whole utf8Code_ne_nil (by simpa using hall)
    rfl
  | cons b chunks ih =>
    rw [List.forall_mem_cons] at hne
    rw [List.flatten_cons, ← List.append_assoc] at hall
    obtain ⟨passed, rest, held', d', rfl, hheld, hd', hwrite⟩ :=
      follows_utf8 chars [] chars held rl.decoder b _ rfl hd hall trivial
    have hall' : held' ++ chunks.flatten = rest.flatMap utf8Code := by
      rw [hheld, List.flatMap_append, List.append_assoc] at hall
      exact List.append_cancel_left hall
    obtain ⟨rl', hrl'⟩ : ∃ rl', rl' = ({ rl with decoder := d' } : Interface) := ⟨_, rfl⟩
    have hscan : rl.scan = rl'.scan := by rw [hrl']; rfl
    have hdecoder : d' = rl'.decoder := by rw [hrl']
    rw [Interface.lines, Interface.normalWrite, hwrite]
    dsimp only
    rw [← hrl', hscan]
    rw [hscan] at hgood
    rw [hdecoder] at hd'
    rcases eq_or_ne passed [] with rfl | hpassed
    · -- the chunk ends within a character of more than one byte
      obtain ⟨hsame, hnone, htake⟩ := Interface.take_nil hgood
      rw [← hsame] at hd'
      have hrest := ih hne.2 hd' hall' (by
        rw [htake]
        exact ⟨hgood.plain, fun h => absurd h Bool.false_ne_true⟩)
      have hother : rl'.scan.run (rest.flatMap charUnits) =
          Scan.run ⟨false, rl'.scan.line⟩ (rest.flatMap charUnits) := by
        rcases hd' with ⟨-, -⟩ | @⟨c, tail, held', more, -, hheld', hmore, hcode, -⟩
        · exact absurd (List.append_eq_nil_iff.mp hheld).2 hne.1
        · have hlong : 1 < (utf8Code c).length := by
            rw [hcode, List.length_append]
            have hpos := List.length_pos_iff.mpr hheld'
            have hpos' := List.length_pos_iff.mpr hmore
            omega
          have hunits : (c :: tail).flatMap charUnits ≠ [] := by
            rw [List.flatMap_cons]
            rcases charUnits_cases c with ⟨u, hu, -⟩ | ⟨u, v, hu, -⟩ <;> simp [hu]
          exact Scan.run_other (head_of_long hlong tail) hunits _ _
      rw [List.flatMap_nil, hrest, hnone, htake, List.nil_append, hother]
      rfl
    · have hunits : passed.flatMap charUnits ≠ [] := by
        obtain ⟨c, passed, rfl⟩ := List.exists_cons_of_ne_nil hpassed
        rw [List.flatMap_cons]
        rcases charUnits_cases c with ⟨u, hu, -⟩ | ⟨u, v, hu, -⟩ <;> simp [hu]
      obtain ⟨hsame, htake⟩ := Interface.take_scan hgood hunits
      obtain ⟨hscan', hnew⟩ := Prod.mk.inj htake
      rw [← hsame] at hd'
      have hrest := ih hne.2 hd' hall' (by
        rw [hscan']
        exact hgood.run _)
      rw [hrest, hscan', hnew, List.flatMap_append, Scan.run_append]
      rfl

/-- **Any cut.** However a well-formed text is cut into chunks, the lines are its pieces between the
line endings, but for the last. -/
theorem lines_split (text : List Char) (chunks : List Bytes) (hne : ∀ b ∈ chunks, b ≠ [])
    (hall : chunks.flatten = text.flatMap utf8Code) :
    Interface.new.lines chunks = some (split (text.flatMap charUnits)).dropLast := by
  have hnew : HoldsUtf8 Interface.new.decoder [] text := .whole Decoder.keeps_new rfl
  have hlines := lines_scan chunks hne hnew (by simpa using hall) ⟨rfl, fun _ => rfl⟩
  have hhead : (split (text.flatMap charUnits)).modifyHead ([] ++ ·) =
      split (text.flatMap charUnits) := by
    cases split (text.flatMap charUnits) <;> rfl
  have hscan : Interface.new.scan = ⟨false, []⟩ := rfl
  rw [hlines, hscan, Scan.run_split, Scan.ofSplit, hhead]

/-- A return and its line feed in two chunks, and a character of two bytes cut. -/
theorem lines_split_cut : Interface.new.lines [[97, 13], [10, 0xC3], [0xA9, 13], [98, 10, 10, 99]] =
    some [js "a", [0xE9], js "b", []] := by
  have hlines := lines_split ['a', '\r', '\n', 'é', '\r', 'b', '\n', '\n', 'c']
    [[97, 13], [10, 0xC3], [0xA9, 13], [98, 10, 10, 99]] (by decide) (by decide)
  rw [hlines]
  decide

end NodeCore.Readline
