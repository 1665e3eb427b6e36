import NodeCore.Backtrack
import NodeCore.Readline
import NodeCore.Reentrant
import NodeCore.Url

/-!
The line editor of `readline`, where the input is a terminal.

What a key does is read off the tables of `_ttyWrite`. Nothing is said of what is written to the
output.
-/

namespace NodeCore.ReadlineEdit

open NodeCore.Encoding NodeCore.Reentrant NodeCore.Backtrack

def kHistorySize : ℕ := 30

structure Interface where
  line : Str
  cursor : ℤ
  history : List Str
  historyIndex : ℤ
  sawReturn : Bool
  /-- Proof-only: a match that has not been found, or a line of the history that is not there,
  has been used. -/
  threw : Bool
  deriving DecidableEq

/-- A terminal interface, fresh. -/
def Interface.new : Interface where
  line := []
  cursor := 0
  history := []
  historyIndex := -1
  sawReturn := false
  threw := false

/-- `String.prototype.slice`. -/
def slice (s : Str) (start stop : ℤ) : Str :=
  let index (i : ℤ) : ℕ := if i < 0 then (s.length + i).toNat else min i.toNat s.length
  (s.drop (index start)).take (index stop - index start)

/-! ### Words -/

/-- `\w` -/
def isWord (c : UInt16) : Bool :=
  (48 ≤ c ∧ c ≤ 57) ∨ (65 ≤ c ∧ c ≤ 90) ∨ c = 95 ∨ (97 ≤ c ∧ c ≤ 122)

/-- `\s` -/
def isSpace (c : UInt16) : Bool := UrlParse.isSpace c

/-- `/([^\w\s]+|\w+|)\s*$/` -/
def wordBefore : Pattern UInt16 :=
  andThen (either (either (plus fun c => !isWord c && !isSpace c) (plus isWord)) nothing)
    (andThen (many isSpace) atEnd)

/-- `/^(\s+|\W+|\w+)\s*/` -/
def wordBehind : Pattern UInt16 :=
  andThen (either (either (plus isSpace) (plus fun c => !isWord c)) (plus isWord)) (many isSpace)

/-- How far the cursor is moved. -/
inductive Distance
  | chars (dx : ℤ)
  | minusInfinity
  | plusInfinity
  deriving DecidableEq

namespace Interface

variable (rl : Interface)

def throw : Interface := { rl with threw := true }

/-! ### Commands -/

def _moveCursor (dx : Distance) : Interface :=
  { rl with cursor := match dx with
    | .chars dx =>
      if rl.cursor + dx < 0 then 0
      else if rl.line.length < rl.cursor + dx then rl.line.length
      else rl.cursor + dx
    | .minusInfinity => 0
    | .plusInfinity => rl.line.length }

def _insertString (c : Str) : Interface :=
  if rl.cursor < rl.line.length then
    let beg := slice rl.line 0 rl.cursor
    let rest := slice rl.line rl.cursor rl.line.length
    { rl with line := beg ++ c ++ rest, cursor := rl.cursor + c.length }
  else
    { rl with line := rl.line ++ c, cursor := rl.cursor + c.length }._moveCursor (.chars 0)

def _wordLeft : Interface :=
  if 0 < rl.cursor then
    match search wordBefore (slice rl.line 0 rl.cursor) with
    | none => rl.throw
    | some m => rl._moveCursor (.chars (-m.length))
  else rl

def _wordRight : Interface :=
  if rl.cursor < rl.line.length then
    match first wordBehind (slice rl.line rl.cursor rl.line.length) with
    | none => rl.throw
    | some m => rl._moveCursor (.chars m.length)
  else rl

def _deleteLeft : Interface :=
  if 0 < rl.cursor ∧ 0 < rl.line.length then
    { rl with
      line := slice rl.line 0 (rl.cursor - 1) ++ slice rl.line rl.cursor rl.line.length
      cursor := rl.cursor - 1 }
  else rl

def _deleteRight : Interface :=
  { rl with line := slice rl.line 0 rl.cursor ++ slice rl.line (rl.cursor + 1) rl.line.length }

def _deleteWordLeft : Interface :=
  if 0 < rl.cursor then
    let leading := slice rl.line 0 rl.cursor
    match search wordBefore leading with
    | none => rl.throw
    | some m =>
      let leading := slice leading 0 (leading.length - m.length)
      { rl with
        line := leading ++ slice rl.line rl.cursor rl.line.length
        cursor := leading.length }
  else rl

def _deleteWordRight : Interface :=
  if rl.cursor < rl.line.length then
    let trailing := slice rl.line rl.cursor rl.line.length
    match first wordBehind trailing with
    | none => rl.throw
    | some m =>
      { rl with line := slice rl.line 0 rl.cursor ++ slice trailing m.length trailing.length }
  else rl

def _deleteLineLeft : Interface :=
  { rl with line := slice rl.line rl.cursor rl.line.length, cursor := 0 }

def _deleteLineRight : Interface := { rl with line := slice rl.line 0 rl.cursor }

def clearLine : Interface := { rl._moveCursor .plusInfinity with line := [], cursor := 0 }

def _addHistory : Interface :=
  if rl.line = [] then rl
  else
    let history :=
      if rl.history.head? = some rl.line then rl.history
      else
        let history := rl.line :: rl.history
        if kHistorySize < history.length then history.dropLast else history
    { rl with history := history, historyIndex := -1 }

/-- `history[i]`, with the cursor behind it. -/
def atHistory (i : ℤ) : Interface :=
  match if 0 ≤ i then rl.history[i.toNat]? else none with
  | none => { rl with historyIndex := i }.throw
  | some line => { rl with historyIndex := i, line := line, cursor := line.length }

def _historyNext : Interface :=
  if 0 < rl.historyIndex then rl.atHistory (rl.historyIndex - 1)
  else if rl.historyIndex = 0 then { rl with historyIndex := -1, cursor := 0, line := [] }
  else rl

def _historyPrev : Interface :=
  if rl.historyIndex + 1 < rl.history.length then rl.atHistory (rl.historyIndex + 1) else rl

end Interface

/-! ### Keys -/

structure Key where
  name : Option String
  ctrl : Bool
  meta_ : Bool
  shift : Bool
  deriving DecidableEq

inductive Command
  | nothing
  | deleteLeft | deleteRight | deleteWordLeft | deleteWordRight
  | deleteLineLeft | deleteLineRight | deleteLine
  /-- `ctrl-d` -/
  | deleteOrEnd
  | wordLeft | wordRight
  | move (dx : Distance)
  | historyNext | historyPrev
  /-- Events and signals, after which the line is as it was. -/
  | interrupt | suspend
  | «return» | enter
  | tabComplete
  | insert
  deriving DecidableEq

def ctrlShiftKey : Option String → Command
  | some "backspace" => .deleteLineLeft
  | some "delete" => .deleteLineRight
  | _ => .nothing

/-- The second `case 'backspace'` is never reached. -/
def ctrlKey : Option String → Command
  | some "c" => .interrupt
  | some "h" => .deleteLeft
  | some "d" => .deleteOrEnd
  | some "u" => .deleteLine
  | some "k" => .deleteLineRight
  | some "a" => .move .minusInfinity
  | some "e" => .move .plusInfinity
  | some "b" => .move (.chars (-1))
  | some "f" => .move (.chars 1)
  | some "n" => .historyNext
  | some "p" => .historyPrev
  | some "z" => .suspend
  | some "w" | some "backspace" => .deleteWordLeft
  | some "delete" => .deleteWordRight
  | some "left" => .wordLeft
  | some "right" => .wordRight
  | _ => .nothing

def metaKey : Option String → Command
  | some "b" => .wordLeft
  | some "f" => .wordRight
  | some "d" | some "delete" => .deleteWordRight
  | some "backspace" => .deleteWordLeft
  | _ => .nothing

def plainKey : Option String → Command
  | some "return" => .return
  | some "enter" => .enter
  | some "backspace" => .deleteLeft
  | some "delete" => .deleteRight
  | some "tab" => .tabComplete
  | some "left" => .move (.chars (-1))
  | some "right" => .move (.chars 1)
  | some "home" => .move .minusInfinity
  | some "end" => .move .plusInfinity
  | some "up" => .historyPrev
  | some "down" => .historyNext
  | _ => .insert

def Key.command (key : Key) : Command :=
  if key.name = some "escape" then .nothing
  else if key.ctrl && key.shift then ctrlShiftKey key.name
  else if key.ctrl then ctrlKey key.name
  else if key.meta_ then metaKey key.name
  else plainKey key.name

/-! ### The system -/

/-- The rest of a function, after foreign code it called. -/
inductive Frame
  /-- Foreign code called here. -/
  | user
  /-- In the loop of `_ttyWrite`, after `_line`. -/
  | lines (line : Str) (rest : List Str)
  /-- In the callback of `_tabComplete`, after `resume`. -/
  | completed (completions : List Str) (completeOn : Str)
  deriving DecidableEq

abbrev Outcome := Res Interface Frame

/-- `_line`, up to `_onLine`. -/
def _line (rl : Interface) : Interface := rl._addHistory.clearLine

/-- The loop of `_ttyWrite` behind an insertion. -/
def insertLines (rl : Interface) : List Str → Outcome
  | [] => .ret rl
  | line :: rest => .call (_line rl) [.lines line rest]

/-- The characters that two strings begin with. -/
def common : Str → Str → Str
  | a :: s, b :: t => if a = b then a :: common s t else []
  | _, _ => []

/-- The order of `sort`. -/
def upTo : Str → Str → Bool
  | [], _ => true
  | _ :: _, [] => false
  | a :: s, b :: t => a < b || (a = b && upTo s t)

/-- `commonPrefix`: what the first and the last of the sorted strings begin with. -/
def commonPrefix (strings : List Str) : Str :=
  let sorted := strings.mergeSort upTo
  match sorted.head?, sorted.getLast? with
  | some first, some last => common first last
  | _, _ => []

/-- The callback of `_tabComplete`. -/
def complete (rl : Interface) (completions : List Str) (completeOn : Str) : Interface :=
  match completions with
  | [] => rl
  | [c] => rl._insertString (slice c completeOn.length c.length)
  | _ =>
    let p := commonPrefix (completions.filter fun c => c ≠ [])
    if completeOn.length < p.length then rl._insertString (slice p completeOn.length p.length)
    else rl

def exec (rl : Interface) : Frame → Outcome
  | .user => .ret rl
  | .lines line rest => insertLines (rl._insertString line) rest
  | .completed completions completeOn => .ret (complete rl completions completeOn)

def boundary : Frame → Bool
  | .user => true
  | _ => false

/-- `\r` bookkeeping. -/
def Interface.keepReturn (rl : Interface) (key : Key) : Interface :=
  if !key.ctrl && !key.meta_ && key.name ≠ some "escape" && rl.sawReturn &&
      key.name ≠ some "enter" then
    { rl with sawReturn := false }
  else rl

/-- `_ttyWrite`; `s` is a string, also where it came as a Buffer. -/
def ttyWrite (rl : Interface) (s : Option Str) (key : Key) : Outcome :=
  let rl := rl.keepReturn key
  match key.command with
  | .nothing => .ret rl
  | .deleteLeft => .ret rl._deleteLeft
  | .deleteRight => .ret rl._deleteRight
  | .deleteWordLeft => .ret rl._deleteWordLeft
  | .deleteWordRight => .ret rl._deleteWordRight
  | .deleteLineLeft => .ret rl._deleteLineLeft
  | .deleteLineRight => .ret rl._deleteLineRight
  | .deleteLine => .ret { rl with cursor := 0, line := [] }
  | .deleteOrEnd =>
    if rl.cursor = 0 ∧ rl.line.length = 0 then .call rl []
    else if rl.cursor < rl.line.length then .ret rl._deleteRight
    else .ret rl
  | .wordLeft => .ret rl._wordLeft
  | .wordRight => .ret rl._wordRight
  | .move dx => .ret (rl._moveCursor dx)
  | .historyNext => .ret rl._historyNext
  | .historyPrev => .ret rl._historyPrev
  | .interrupt | .suspend => .call rl []
  | .return => .call (_line { rl with sawReturn := true }) []
  | .enter => if rl.sawReturn then .ret { rl with sawReturn := false } else .call (_line rl) []
  | .tabComplete => .call rl []
  | .insert =>
    match s with
    | none | some [] => .ret rl
    | some (c :: s) =>
      match Readline.split (c :: s) with
      | [] => .ret rl
      | line :: rest => insertLines (rl._insertString line) rest

/-- What happens, also while foreign code runs. -/
inductive Act
  /-- A key of the terminal, or a call of `write`. -/
  | key (s : Option Str) (key : Key)
  /-- `prompt`, with what it calls. -/
  | prompt (preserveCursor : Bool)
  /-- The callback of `_tabComplete`, as often as the completer calls it. -/
  | complete (completions : List Str) (completeOn : Str)
  /-- Foreign code returns. -/
  | ret
  deriving DecidableEq

abbrev System := Machine Interface Frame

def step (m : System) : Act → Option System
  | .key s key => some (enter .user m (ttyWrite m.st s key))
  | .prompt preserveCursor =>
    some { m with st := if preserveCursor then m.st else { m.st with cursor := 0 } }
  | .complete completions completeOn =>
    some (enter .user m (.call m.st [.completed completions completeOn]))
  | .ret => if m.stack = [] then none else some (resume exec boundary m.st m.stack)

/-- **What is claimed.** -/
structure Good (rl : Interface) : Prop where
  cursor : 0 ≤ rl.cursor ∧ rl.cursor ≤ rl.line.length
  historyIndex : rl.historyIndex = -1 ∨ (0 ≤ rl.historyIndex ∧ rl.historyIndex < rl.history.length)
  history : rl.history.length ≤ kHistorySize
  threw : rl.threw = false

/-! ### Matches -/

/-- At the end there is nothing to match. -/
lemma search_wordBefore (s : Str) : ∃ m, search wordBefore s = some m ∧ m.length ≤ s.length := by
  have htakes : Takes wordBefore fun _ => True :=
    .andThen (.either (.either (takes_plus fun _ _ => trivial) (takes_plus fun _ _ => trivial))
      takes_nothing) (.andThen (takes_many fun _ _ => trivial) takes_atEnd)
  have hend : ([], []) ∈ wordBefore [] := by decide
  obtain ⟨m, hm⟩ := search_of_nil hend s
  exact ⟨m, hm, length_search htakes hm⟩

/-- A character is one of a word or not. -/
lemma first_wordBehind {s : Str} (hs : s ≠ []) :
    ∃ m, first wordBehind s = some m ∧ m.length ≤ s.length := by
  have htakes : Takes wordBehind fun _ => True :=
    .andThen (.either (.either (takes_plus fun _ _ => trivial) (takes_plus fun _ _ => trivial))
      (takes_plus fun _ _ => trivial)) (takes_many fun _ _ => trivial)
  obtain ⟨c, s, rfl⟩ := List.exists_cons_of_ne_nil hs
  obtain ⟨w, hway⟩ : ∃ w, w ∈ wordBehind (c :: s) := by
    cases hc : isWord c with
    | true =>
      exact ⟨_, mem_andThen (List.mem_append_right _ (mem_plus s hc)) (mem_many [] s (by simp))⟩
    | false =>
      refine ⟨_, mem_andThen (List.mem_append_left _ (List.mem_append_right _ (mem_plus s ?_)))
        (mem_many [] s (by simp))⟩
      rw [hc]
      rfl
  obtain ⟨m, hm⟩ := first_of_mem hway
  exact ⟨m, hm, length_first htakes hm⟩

/-! ### Commands -/

lemma length_slice (s : Str) {a b : ℤ} (ha : 0 ≤ a) (hb : 0 ≤ b) :
    (slice s a b).length = min b.toNat s.length - min a.toNat s.length := by
  unfold slice
  dsimp only
  rw [if_neg (not_lt.mpr ha), if_neg (not_lt.mpr hb), List.length_take, List.length_drop]
  omega

namespace Good

variable {rl : Interface}

/-- There is text behind the cursor. -/
lemma behind_ne_nil (h : Good rl) (hlt : rl.cursor < rl.line.length) :
    slice rl.line rl.cursor rl.line.length ≠ [] := by
  have hlen := length_slice rl.line h.cursor.1 (Int.natCast_nonneg rl.line.length)
  have h0 := h.cursor.1
  intro hnil
  rw [hnil] at hlen
  simp only [List.length_nil, Int.toNat_natCast] at hlen
  omega

/-- Another line and cursor. -/
lemma edit (h : Good rl) {line : Str} {cursor : ℤ} (h0 : 0 ≤ cursor)
    (hle : cursor ≤ line.length) : Good { rl with line := line, cursor := cursor } :=
  ⟨⟨h0, hle⟩, h.historyIndex, h.history, h.threw⟩

lemma moveCursor (h : Good rl) (dx : Distance) : Good (rl._moveCursor dx) := by
  cases dx with
  | chars dx =>
    unfold Interface._moveCursor
    dsimp only
    refine h.edit ?_ ?_
    all_goals split_ifs <;> omega
  | minusInfinity => exact h.edit le_rfl (Int.natCast_nonneg _)
  | plusInfinity => exact h.edit (Int.natCast_nonneg _) le_rfl

lemma insertString (h : Good rl) (c : Str) : Good (rl._insertString c) := by
  obtain ⟨h0, hle⟩ := h.cursor
  unfold Interface._insertString
  split_ifs with hlt
  · have hbeg := length_slice rl.line le_rfl h0
    have hrest := length_slice rl.line h0 (Int.natCast_nonneg rl.line.length)
    refine h.edit (by omega) ?_
    rw [List.length_append, List.length_append, hbeg, hrest]
    push_cast
    omega
  · refine (h.edit ?_ ?_).moveCursor _
    · omega
    · rw [List.length_append]
      push_cast
      omega

lemma wordLeft (h : Good rl) : Good rl._wordLeft := by
  unfold Interface._wordLeft
  split_ifs
  · obtain ⟨m, hm, -⟩ := search_wordBefore (slice rl.line 0 rl.cursor)
    rw [hm]
    exact h.moveCursor _
  · exact h

lemma wordRight (h : Good rl) : Good rl._wordRight := by
  unfold Interface._wordRight
  split_ifs with hlt
  · obtain ⟨m, hm, -⟩ := first_wordBehind (behind_ne_nil h hlt)
    rw [hm]
    exact h.moveCursor _
  · exact h

lemma deleteLeft (h : Good rl) : Good rl._deleteLeft := by
  obtain ⟨h0, hle⟩ := h.cursor
  unfold Interface._deleteLeft
  split_ifs with hpos
  · refine h.edit (by omega) ?_
    rw [List.length_append, length_slice _ le_rfl (by omega), length_slice _ h0 (by omega)]
    omega
  · exact h

lemma deleteRight (h : Good rl) : Good rl._deleteRight := by
  obtain ⟨h0, hle⟩ := h.cursor
  refine h.edit h0 ?_
  rw [List.length_append, length_slice _ le_rfl h0]
  omega

lemma deleteWordLeft (h : Good rl) : Good rl._deleteWordLeft := by
  unfold Interface._deleteWordLeft
  split_ifs
  · obtain ⟨m, hm, -⟩ := search_wordBefore (slice rl.line 0 rl.cursor)
    dsimp only
    rw [hm]
    refine h.edit (by omega) ?_
    rw [List.length_append]
    omega
  · exact h

lemma deleteWordRight (h : Good rl) : Good rl._deleteWordRight := by
  obtain ⟨h0, hle⟩ := h.cursor
  unfold Interface._deleteWordRight
  split_ifs with hlt
  · obtain ⟨m, hm, -⟩ := first_wordBehind (behind_ne_nil h hlt)
    dsimp only
    rw [hm]
    refine h.edit h0 ?_
    rw [List.length_append, length_slice _ le_rfl h0]
    omega
  · exact h

lemma deleteLineLeft (h : Good rl) : Good rl._deleteLineLeft := h.edit le_rfl (Int.natCast_nonneg _)

lemma deleteLineRight (h : Good rl) : Good rl._deleteLineRight := by
  obtain ⟨h0, hle⟩ := h.cursor
  refine h.edit h0 ?_
  rw [length_slice _ le_rfl h0]
  omega

lemma clear (h : Good rl) : Good { rl with line := [], cursor := 0 } :=
  h.edit le_rfl (Int.natCast_nonneg _)

/-- A line goes in front, and the oldest goes out. -/
lemma addHistory (h : Good rl) : Good rl._addHistory := by
  have hlen := h.history
  unfold Interface._addHistory
  split_ifs with hline hhead
  · exact h
  · exact ⟨h.cursor, .inl rfl, hlen, h.threw⟩
  · refine ⟨h.cursor, .inl rfl, ?_, h.threw⟩
    dsimp only
    split_ifs with hfull
    · rw [List.length_dropLast, List.length_cons]
      omega
    · exact not_lt.mp hfull

lemma line (h : Good rl) : Good (_line rl) := (h.addHistory.moveCursor .plusInfinity).clear

/-- An index of the history. -/
lemma atHistory (h : Good rl) {i : ℤ} (h0 : 0 ≤ i) (hlt : i < rl.history.length) :
    Good (rl.atHistory i) := by
  obtain ⟨line, hget⟩ : ∃ line, rl.history[i.toNat]? = some line :=
    ⟨_, List.getElem?_eq_getElem (by omega)⟩
  unfold Interface.atHistory
  rw [if_pos h0, hget]
  exact ⟨⟨Int.natCast_nonneg _, le_rfl⟩, .inr ⟨h0, hlt⟩, h.history, h.threw⟩

lemma historyNext (h : Good rl) : Good rl._historyNext := by
  have hindex := h.historyIndex
  unfold Interface._historyNext
  split_ifs with hpos hzero
  · exact h.atHistory (by omega) (by omega)
  · exact ⟨⟨le_rfl, Int.natCast_nonneg _⟩, .inl rfl, h.history, h.threw⟩
  · exact h

lemma historyPrev (h : Good rl) : Good rl._historyPrev := by
  have hindex := h.historyIndex
  unfold Interface._historyPrev
  split_ifs with hlt
  · exact h.atHistory (by omega) hlt
  · exact h

lemma sawReturn (h : Good rl) (sawReturn : Bool) : Good { rl with sawReturn := sawReturn } :=
  ⟨h.cursor, h.historyIndex, h.history, h.threw⟩

lemma keepReturn (h : Good rl) (key : Key) : Good (rl.keepReturn key) := by
  unfold Interface.keepReturn
  split_ifs
  · exact h.sawReturn false
  · exact h

lemma complete (h : Good rl) (completions : List Str) (completeOn : Str) :
    Good (complete rl completions completeOn) := by
  unfold ReadlineEdit.complete
  split
  · exact h
  · exact h.insertString _
  · dsimp only
    split_ifs
    · exact h.insertString _
    · exact h

/-! ### What a key keeps -/

lemma insertLines (h : Good rl) (rest : List Str) : Good (insertLines rl rest).state := by
  cases rest with
  | nil => exact h
  | cons line rest => exact h.line

lemma exec (h : Good rl) (f : Frame) : Good (exec rl f).state := by
  cases f with
  | user => exact h
  | lines line rest => exact (h.insertString line).insertLines rest
  | completed completions completeOn => exact h.complete completions completeOn

lemma ttyWrite (h : Good rl) (s : Option Str) (key : Key) : Good (ttyWrite rl s key).state := by
  have h := h.keepReturn key
  unfold ReadlineEdit.ttyWrite
  dsimp only
  cases key.command with
  | nothing | interrupt | suspend | tabComplete => exact h
  | deleteLeft => exact h.deleteLeft
  | deleteRight => exact h.deleteRight
  | deleteWordLeft => exact h.deleteWordLeft
  | deleteWordRight => exact h.deleteWordRight
  | deleteLineLeft => exact h.deleteLineLeft
  | deleteLineRight => exact h.deleteLineRight
  | deleteLine => exact h.clear
  | deleteOrEnd =>
    dsimp only
    split_ifs
    · exact h
    · exact h.deleteRight
    · exact h
  | wordLeft => exact h.wordLeft
  | wordRight => exact h.wordRight
  | move dx => exact h.moveCursor dx
  | historyNext => exact h.historyNext
  | historyPrev => exact h.historyPrev
  | «return» => exact (h.sawReturn true).line
  | enter =>
    dsimp only
    split_ifs
    · exact h.sawReturn false
    · exact h.line
  | insert =>
    dsimp only
    split
    · exact h
    · exact h
    · split
      · exact h
      · exact (h.insertString _).insertLines _

end Good

/-! ### Runs -/

lemma good_new : Good .new := ⟨⟨le_rfl, le_rfl⟩, .inl rfl, Nat.zero_le _, rfl⟩

lemma good_step {m m' : System} {a : Act} (h : Good m.st) (hs : step m a = some m') :
    Good m'.st := by
  have henter (r : Outcome) (hr : Good r.state) : Good (enter .user m r).st :=
    enter_keeps (I := fun rl _ => Good rl) (fun _ _ h => h) hr
  cases a with
  | key s key =>
    rw [← Option.some.inj hs]
    exact henter _ (h.ttyWrite s key)
  | prompt preserveCursor =>
    rw [← Option.some.inj hs]
    cases preserveCursor with
    | true => exact h
    | false => exact h.edit le_rfl (Int.natCast_nonneg _)
  | complete completions completeOn =>
    rw [← Option.some.inj hs]
    exact henter _ h
  | ret =>
    rw [step] at hs
    split_ifs at hs
    rw [← Option.some.inj hs]
    exact resume_keeps (I := fun rl _ => Good rl) (fun rl f _ _ h => h.exec f)
      (fun _ _ _ _ h => h) h

/-- **The line editor.** Whatever keys come, also while a listener runs: the cursor lies in the
line, the index in the history, which never grows too long, and each match there is. -/
theorem editing_good {m : System} (h : Run step (fun _ _ _ => True) ⟨.new, []⟩ m) : Good m.st :=
  h.invariant (I := fun m => Good m.st) good_new fun _ _ _ h hs _ => good_step h hs

/-- A line in two words, the word before the cursor deleted, the line entered and called back while
its listener runs, and a key behind it. -/
theorem editing_good_keys : Good ⟨js "c ", 0, [js "c "], 0, false, false⟩ := by
  have hrun : Run step (fun _ _ _ => True) ⟨.new, []⟩
      ⟨⟨js "c ", 0, [js "c "], 0, false, false⟩, []⟩ := .of_foldlM
    (w := [.key (some (js "c ab")) ⟨none, false, false, false⟩,
      .key none ⟨some "w", true, false, false⟩,
      .key (some [13]) ⟨some "return", false, false, false⟩,
      .key none ⟨some "up", false, false, false⟩, .ret,
      .key none ⟨some "b", false, true, false⟩]) rfl
  exact editing_good hrun

end NodeCore.ReadlineEdit
