import Mathlib.Algebra.Ring.Nat
import NodeCore.OpenFile

/-!
`fs.writeFile` and `fs.writeFileSync`: the data goes to the file in as many writes as it takes.
-/

namespace NodeCore.FsWriteFile

variable {E : Type}

/-! ### The program -/

inductive Error (E : Type)
  /-- `'Unknown file open flag: '` and the flag. -/
  | unknownFlag (flag : String)
  | system (e : E)
  deriving DecidableEq

/-- What an open does to the file, of what the flags say. -/
structure Flags where
  O_TRUNC : Bool
  O_APPEND : Bool
  deriving DecidableEq

def stringToFlags : String → Option Flags
  | "r" | "rs" | "r+" | "rs+" => some ⟨false, false⟩
  | "w" | "wx" | "xw" | "w+" | "wx+" | "xw+" => some ⟨true, false⟩
  | "a" | "ax" | "xa" | "a+" | "ax+" | "xa+" => some ⟨false, true⟩
  | _ => none

/-- What the calls of the system do. -/
structure System (E : Type) where
  openError : Option E
  closeError : Option E
  /-- The `k`-th write of a file, when `n` bytes are to be written. -/
  write (k n : ℕ) : Except E ℕ
  write_pos {k n m : ℕ} : 0 < n → write k n = .ok m → 0 < m
  write_le {k n m : ℕ} : write k n = .ok m → m ≤ n

/-- A call of write(2). -/
structure Write (E : Type) where
  bytes : List UInt8
  position : Option ℕ
  result : Except E ℕ

/-- What has been written. -/
def Write.written (w : Write E) : ℕ :=
  match w.result with
  | .ok m => m
  | .error _ => 0

/-- `position += written`, where `null` counts as 0. -/
def plus (position : Option ℕ) (written : ℕ) : Option ℕ := some (position.getD 0 + written)

/-- `/a/.test(flag) ? null : 0`. -/
def firstPosition (flag : String) : Option ℕ := if 'a' ∈ flag.toList then none else some 0

section

variable (sys : System E) (data : List UInt8)

/-- The writes from the `k`-th on, and the error that ends them. `fs.write` does not write when
`length` is 0, and says that 0 bytes have been written. -/
def writeAll (k offset length : ℕ) (position : Option ℕ) : List (Write E) × Option E :=
  if length = 0 then ([], none)
  else
    let bytes := (data.drop offset).take length
    match _h : sys.write k length with
    | .error e => ([⟨bytes, position, .error e⟩], some e)
    | .ok written =>
      if written = length then ([⟨bytes, position, .ok written⟩], none)
      else
        let r := writeAll (k + 1) (offset + written) (length - written) (plus position written)
        (⟨bytes, position, .ok written⟩ :: r.1, r.2)
  termination_by length
  decreasing_by
    have := sys.write_pos (by omega) _h
    omega

/-- The loop of `writeFileSync`. -/
def writeLoop (k written : ℕ) (position : Option ℕ) : List (Write E) × Option E :=
  if _hlt : written < data.length then
    let length := data.length - written
    let bytes := (data.drop written).take length
    match _h : sys.write k length with
    | .error e => ([⟨bytes, position, .error e⟩], some e)
    | .ok m =>
      let r := writeLoop (k + 1) (written + m) (plus position (written + m))
      (⟨bytes, position, .ok m⟩ :: r.1, r.2)
  else ([], none)
  termination_by data.length - written
  decreasing_by
    have := sys.write_pos (by omega) _h
    omega

end

/-- How it ends: what is passed to the callback, or thrown. -/
structure Outcome (E : Type) where
  writes : List (Write E)
  closes : ℕ
  error : Option (Error E)

/-- `options.flag || 'w'`. -/
def flagOf (flag : Option String) : String := (flag.filter (· ≠ "")).getD "w"

/-- What `writeFile` and `writeFileSync` share. `body` gives the writes; `combine` says what is
told of an error of a write and one of `fs.close`. -/
def withFile (sys : System E) (flag : Option String) (combine : Option E → Option E → Option E)
    (body : Option ℕ → List (Write E) × Option E) : Outcome E :=
  match stringToFlags (flagOf flag), sys.openError with
  | none, _ => ⟨[], 0, some (.unknownFlag (flagOf flag))⟩
  | some _, some e => ⟨[], 0, some (.system e)⟩
  | some _, none =>
    let r := body (firstPosition (flagOf flag))
    ⟨r.1, 1, (combine r.2 sys.closeError).map .system⟩

/-- After a failed write the callback gets the error of the write, whatever `fs.close` says. -/
def writeFile (sys : System E) (data : List UInt8) (flag : Option String) : Outcome E :=
  withFile sys flag (fun write close => write.or close) fun position =>
    writeAll sys data 0 0 data.length position

/-- What `fs.closeSync` throws in the `finally` is thrown in place of the error of the write. -/
def writeFileSync (sys : System E) (data : List UInt8) (flag : Option String) : Outcome E :=
  withFile sys flag (fun write close => close.or write) fun position =>
    writeLoop sys data 0 0 position

/-! ### The file -/

def opened (flags : Flags) (old : List UInt8) : OpenFile UInt8 :=
  { bytes := if flags.O_TRUNC then [] else old, offset := 0, append := flags.O_APPEND }

def Write.apply (f : OpenFile UInt8) (w : Write E) : OpenFile UInt8 :=
  match w.result with
  | .ok m => f.write 0 w.position (w.bytes.take m)
  | .error _ => f

def written (ws : List (Write E)) : ℕ := (ws.map Write.written).sum

/-- The position of a write when `n` bytes have been written. -/
def due (append : Bool) (n : ℕ) : Option ℕ := if append then none else some n

/-- The bytes of the file when `n` bytes have been written. -/
def holding (append : Bool) (old data : List UInt8) (n : ℕ) : List UInt8 :=
  if append then old ++ data.take n else data.take n ++ old.drop n

/-- **What is claimed.** Each write passes the bytes that are not yet written, and the position is
the number of those that are; without an error the file holds the data. -/
structure Exact (flag : Option String) (data old : List UInt8) (o : Outcome E) : Prop where
  passes : ∀ flags, stringToFlags (flagOf flag) = some flags → ∀ pre w post,
    o.writes = pre ++ w :: post →
    w.bytes = data.drop (written pre) ∧ w.position = due flags.O_APPEND (written pre)
  file : ∀ flags, stringToFlags (flagOf flag) = some flags → o.error = none →
    (o.writes.foldl Write.apply (opened flags old)).bytes =
      holding flags.O_APPEND (opened flags old).bytes data data.length

/-- The file is opened, for appending or not. -/
structure Opens (sys : System E) (flag : Option String) (append : Bool) : Prop where
  ok : sys.openError = none
  flags : ∃ flags, stringToFlags (flagOf flag) = some flags ∧ flags.O_APPEND = append

/-- The first write is not short. -/
def One (sys : System E) (data : List UInt8) : Prop :=
  ∀ m, sys.write 0 data.length = .ok m → m = data.length

/-- What the first write leaves, the second writes. -/
def Two (sys : System E) (data : List UInt8) : Prop :=
  ∀ m m', sys.write 0 data.length = .ok m → sys.write 1 (data.length - m) = .ok m' →
    m + m' = data.length

/-! ### Writes as they should be -/

section

variable (sys : System E) (data : List UInt8) (append : Bool)

/-- The writes from the `k`-th on, when `n` bytes have been written, and the error at the end. -/
inductive Good : ℕ → ℕ → List (Write E) → Option E → Prop
  | done {k : ℕ} : Good k data.length [] none
  | failed {k n : ℕ} {e : E} (lt : n < data.length)
    (write : sys.write k (data.length - n) = .error e) :
    Good k n [⟨data.drop n, due append n, .error e⟩] (some e)
  | more {k n m : ℕ} {ws : List (Write E)} {e : Option E} (lt : n < data.length)
    (write : sys.write k (data.length - n) = .ok m) (rest : Good (k + 1) (n + m) ws e) :
    Good k n (⟨data.drop n, due append n, .ok m⟩ :: ws) e

end

variable {sys : System E} {data : List UInt8} {append : Bool}

lemma Good.passes {k n : ℕ} {ws : List (Write E)} {e : Option E}
    (h : Good sys data append k n ws e) {pre post : List (Write E)} {w : Write E}
    (hw : ws = pre ++ w :: post) :
    w.bytes = data.drop (n + written pre) ∧ w.position = due append (n + written pre) := by
  induction h generalizing pre with
  | done => exact absurd hw (by simp)
  | failed lt write =>
    cases pre with
    | nil =>
      obtain ⟨rfl, -⟩ := List.cons.inj hw
      exact ⟨rfl, rfl⟩
    | cons v pre => exact absurd (List.cons.inj hw).2 (by simp)
  | @more k n m ws e lt write rest ih =>
    cases pre with
    | nil =>
      obtain ⟨rfl, -⟩ := List.cons.inj hw
      exact ⟨rfl, rfl⟩
    | cons v pre =>
      obtain ⟨rfl, hws⟩ := List.cons.inj hw
      have hsum : n + written (⟨data.drop n, due append n, .ok m⟩ :: pre : List (Write E)) =
          n + m + written pre := by
        simp only [written, List.map_cons, List.sum_cons, Write.written]
        omega
      rw [hsum]
      exact ih hws

/-- One write more. -/
lemma holding_write {f : OpenFile UInt8} {old : List UInt8} {n m : ℕ} (hf : f.append = append)
    (hb : f.bytes = holding append old data n) (hn : n ≤ data.length)
    (hm : m ≤ data.length - n) :
    (f.write 0 (due append n) ((data.drop n).take m)).bytes =
      holding append old data (n + m) := by
  have htake : data.take n ++ (data.drop n).take m = data.take (n + m) := List.take_add.symm
  cases append with
  | true =>
    have hold : f.bytes = old ++ data.take n := hb
    rw [f.write_of_append 0 hf, hold, List.append_assoc, htake]
    rfl
  | false =>
    have hold : f.bytes = data.take n ++ old.drop n := hb
    have hlen : (data.take n).length = n := List.length_take_of_le hn
    have hmid : ((data.drop n).take m).length = m :=
      List.length_take_of_le (by rwa [List.length_drop])
    have hdue : due false n = some (data.take n).length := by
      rw [hlen]
      rfl
    rw [hdue, f.write_prefix 0 hf hold, hmid, List.drop_drop, htake]
    rfl

lemma Good.file {k n : ℕ} {ws : List (Write E)} {e : Option E}
    (h : Good sys data append k n ws e) {f : OpenFile UInt8} {old : List UInt8}
    (hf : f.append = append) (hb : f.bytes = holding append old data n) (he : e = none) :
    (ws.foldl Write.apply f).bytes = holding append old data data.length := by
  induction h generalizing f with
  | done => exact hb
  | failed lt write => cases he
  | more lt write rest ih =>
    exact ih ((f.write_append 0 _ _).trans hf)
      (holding_write hf hb (by omega) (sys.write_le write)) he

/-! ### `writeAll` -/

lemma writeAll_zero (k offset : ℕ) (position : Option ℕ) :
    writeAll sys data k offset 0 position = ([], none) := by
  rw [writeAll, if_pos rfl]

lemma writeAll_error {k offset length : ℕ} {position : Option ℕ} {e : E} (hl : length ≠ 0)
    (h : sys.write k length = .error e) : writeAll sys data k offset length position =
      ([⟨(data.drop offset).take length, position, .error e⟩], some e) := by
  rw [writeAll, if_neg hl]
  dsimp only
  split
  · simp_all
  · simp_all

/-- A full write is the last, as none is left to be made. -/
lemma writeAll_ok {k offset length m : ℕ} {position : Option ℕ} (hl : length ≠ 0)
    (h : sys.write k length = .ok m) :
    writeAll sys data k offset length position =
      (⟨(data.drop offset).take length, position, .ok m⟩ ::
        (writeAll sys data (k + 1) (offset + m) (length - m) (plus position m)).1,
        (writeAll sys data (k + 1) (offset + m) (length - m) (plus position m)).2) := by
  rw [writeAll, if_neg hl]
  dsimp only
  split
  · simp_all
  · rename_i m' h'
    obtain rfl : m = m' := Except.ok.inj (h.symm.trans h')
    split_ifs with hm
    · rw [hm, Nat.sub_self, writeAll_zero]
    · rfl

lemma drop_take_rest (n : ℕ) : (data.drop n).take (data.length - n) = data.drop n :=
  List.take_of_length_le (by simp)

lemma writeAll_good (k n : ℕ) (hn : n ≤ data.length) :
    Good sys data false k n (writeAll sys data k n (data.length - n) (some n)).1
      (writeAll sys data k n (data.length - n) (some n)).2 := by
  induction hlen : data.length - n using Nat.strongRecOn generalizing k n with
  | _ length ih =>
    subst hlen
    rcases Nat.eq_or_lt_of_le hn with rfl | hlt
    · rw [Nat.sub_self, writeAll_zero]
      exact .done
    · cases h : sys.write k (data.length - n) with
      | error e =>
        rw [writeAll_error (by omega) h, drop_take_rest]
        exact .failed hlt h
      | ok m =>
        have hpos := sys.write_pos (by omega) h
        have hle := sys.write_le h
        have hrest := ih (data.length - (n + m)) (by omega) (k + 1) (n + m) (by omega) rfl
        rw [writeAll_ok (by omega) h, drop_take_rest, Nat.sub_sub]
        exact .more hlt h hrest

/-- Without a position there is to be one write. -/
lemma writeAll_append (h : One sys data) :
    Good sys data true 0 0 (writeAll sys data 0 0 data.length none).1
      (writeAll sys data 0 0 data.length none).2 := by
  rcases Nat.eq_zero_or_pos data.length with hz | hpos
  · rw [hz, writeAll_zero]
    have hdone : Good sys data true 0 data.length [] none := .done
    rwa [hz] at hdone
  · have hall : (data.drop 0).take data.length = data.drop 0 := drop_take_rest 0
    cases hw : sys.write 0 data.length with
    | error e =>
      rw [writeAll_error (by omega) hw, hall]
      exact .failed hpos hw
    | ok m =>
      obtain rfl := h m hw
      have hrest : Good sys data true 1 (0 + data.length) [] none := by
        rw [Nat.zero_add]
        exact .done
      rw [writeAll_ok (by omega) hw, Nat.sub_self, writeAll_zero, hall]
      exact .more hpos hw hrest

/-! ### The loop of `writeFileSync` -/

lemma writeLoop_done {k n : ℕ} {position : Option ℕ} (hn : data.length ≤ n) :
    writeLoop sys data k n position = ([], none) := by
  rw [writeLoop, dif_neg (by omega)]

lemma writeLoop_error {k n : ℕ} {position : Option ℕ} {e : E} (hn : n < data.length)
    (h : sys.write k (data.length - n) = .error e) :
    writeLoop sys data k n position = ([⟨data.drop n, position, .error e⟩], some e) := by
  rw [writeLoop, dif_pos hn]
  dsimp only
  rw [drop_take_rest]
  split
  · simp_all
  · simp_all

lemma writeLoop_ok {k n m : ℕ} {position : Option ℕ} (hn : n < data.length)
    (h : sys.write k (data.length - n) = .ok m) :
    writeLoop sys data k n position =
      (⟨data.drop n, position, .ok m⟩ ::
        (writeLoop sys data (k + 1) (n + m) (plus position (n + m))).1,
        (writeLoop sys data (k + 1) (n + m) (plus position (n + m))).2) := by
  rw [writeLoop, dif_pos hn]
  dsimp only
  rw [drop_take_rest]
  split
  · simp_all
  · rename_i m' h'
    obtain rfl : m = m' := Except.ok.inj (h.symm.trans h')
    rfl

/-- With nothing left when it comes back, the loop makes one write. -/
lemma writeLoop_last {k n : ℕ} (hn : n ≤ data.length)
    (h : ∀ m, sys.write k (data.length - n) = .ok m → n + m = data.length) :
    Good sys data append k n (writeLoop sys data k n (due append n)).1
      (writeLoop sys data k n (due append n)).2 := by
  rcases Nat.eq_or_lt_of_le hn with rfl | hlt
  · rw [writeLoop_done (Nat.le_refl _)]
    exact .done
  · cases hw : sys.write k (data.length - n) with
    | error e =>
      rw [writeLoop_error hlt hw]
      exact .failed hlt hw
    | ok m =>
      have hm := h m hw
      rw [writeLoop_ok hlt hw, writeLoop_done (Nat.le_of_eq hm.symm)]
      exact .more hlt hw (hm ▸ .done)

/-- With a position there may be two. -/
lemma writeLoop_two (h : Two sys data) :
    Good sys data false 0 0 (writeLoop sys data 0 0 (some 0)).1
      (writeLoop sys data 0 0 (some 0)).2 := by
  rcases Nat.eq_zero_or_pos data.length with hz | hpos
  · rw [writeLoop_done (by omega)]
    have hdone : Good sys data false 0 data.length [] none := .done
    rwa [hz] at hdone
  · cases hw : sys.write 0 data.length with
    | error e =>
      rw [writeLoop_error hpos hw]
      exact .failed hpos hw
    | ok m =>
      have hrest := @writeLoop_last E sys data false 1 m (sys.write_le hw) fun m' => h m m' hw
      have hsum : plus (some 0) (0 + m) = due false m := by simp [plus, due]
      rw [writeLoop_ok hpos hw, hsum, Nat.zero_add m]
      exact .more hpos hw (by rwa [Nat.zero_add m])

/-! ### The claim is settled -/

lemma firstPosition_eq {flag : String} {flags : Flags} (h : stringToFlags flag = some flags) :
    firstPosition flag = due flags.O_APPEND 0 := by
  unfold stringToFlags at h
  split at h <;> cases h <;> decide

variable {flag : Option String} {old : List UInt8}
  {combine : Option E → Option E → Option E} {body : Option ℕ → List (Write E) × Option E}

/-- Nothing is written without an open file. -/
lemma exact_of_closed (h : ∀ append, ¬ Opens sys flag append) :
    Exact flag data old (withFile sys flag combine body) := by
  have hwrites : (withFile sys flag combine body).writes = [] ∧
      (withFile sys flag combine body).error ≠ none := by
    unfold withFile
    split
    · exact ⟨rfl, by simp⟩
    · exact ⟨rfl, by simp⟩
    · rename_i flags hflags hok
      exact absurd ⟨hok, flags, hflags, rfl⟩ (h flags.O_APPEND)
  refine ⟨fun flags _ pre w post hw => ?_, fun flags _ he => absurd he hwrites.2⟩
  rw [hwrites.1] at hw
  exact absurd hw (by simp)

lemma withFile_opens (h : Opens sys flag append) :
    withFile sys flag combine body = ⟨(body (due append 0)).1, 1,
      (combine (body (due append 0)).2 sys.closeError).map .system⟩ := by
  obtain ⟨hok, flags, hflags, rfl⟩ := h
  unfold withFile
  rw [hflags, hok]
  dsimp only
  rw [firstPosition_eq hflags]

lemma Opens.append_eq (h : Opens sys flag append) {flags : Flags}
    (hf : stringToFlags (flagOf flag) = some flags) : flags.O_APPEND = append := by
  obtain ⟨-, flags', hflags', rfl⟩ := h
  rw [Option.some.inj (hf.symm.trans hflags')]

lemma exact_of_good (h : Opens sys flag append)
    (hcombine : ∀ e e', combine e e' = none → e = none)
    (hgood : Good sys data append 0 0 (body (due append 0)).1 (body (due append 0)).2) :
    Exact flag data old (withFile sys flag combine body) := by
  rw [withFile_opens h]
  refine ⟨fun flags hf pre w post hw => ?_, fun flags hf he => ?_⟩
  · rw [h.append_eq hf]
    have hpass := hgood.passes hw
    rwa [Nat.zero_add] at hpass
  · rw [h.append_eq hf]
    refine hgood.file (h.append_eq hf) ?_ (hcombine _ _ (Option.map_eq_none_iff.mp he))
    unfold holding
    split_ifs <;> simp

/-- One write at another position is enough. -/
lemma not_exact (h : Opens sys flag append) (pre : List (Write E)) (w : Write E)
    (post : List (Write E))
    (hbody : (body (due append 0)).1 = pre ++ w :: post)
    (hpos : w.position ≠ due append (written pre)) :
    ¬ Exact flag data old (withFile sys flag combine body) := by
  intro hexact
  obtain ⟨-, flags, hflags, rfl⟩ := id h
  refine hpos (hexact.passes flags hflags pre w post ?_).2
  rw [withFile_opens h]
  exact hbody

lemma writeAll_head (k offset : ℕ) {length : ℕ} (position : Option ℕ) (hl : length ≠ 0) :
    ∃ w ws, (writeAll sys data k offset length position).1 = w :: ws ∧ w.position = position := by
  cases hw : sys.write k length with
  | error e => exact ⟨_, _, by rw [writeAll_error hl hw], rfl⟩
  | ok m => exact ⟨_, _, by rw [writeAll_ok hl hw], rfl⟩

lemma writeLoop_head (k : ℕ) {n : ℕ} (position : Option ℕ) (hn : n < data.length) :
    ∃ w ws, (writeLoop sys data k n position).1 = w :: ws ∧ w.position = position := by
  cases hw : sys.write k (data.length - n) with
  | error e => exact ⟨_, _, by rw [writeLoop_error hn hw], rfl⟩
  | ok m => exact ⟨_, _, by rw [writeLoop_ok hn hw], rfl⟩

/-- After a short write, `null` has become a number. -/
lemma writeFile_append (h : Opens sys flag true) :
    Exact flag data old (writeFile sys data flag) ↔ One sys data := by
  constructor
  · intro hexact m hw
    by_contra hm
    have hle := sys.write_le hw
    obtain ⟨w, ws, hws, hpos⟩ := @writeAll_head E sys data 1 (0 + m) (data.length - m)
      (plus none m) (by omega)
    refine not_exact h [⟨data, none, .ok m⟩] w ws ?_ ?_ hexact
    · have hall : (data.drop 0).take data.length = data := drop_take_rest 0
      show (writeAll sys data 0 0 data.length none).1 = _
      rw [writeAll_ok (by omega) hw, hws, hall]
      rfl
    · rw [hpos]
      nofun
  · intro hone
    exact exact_of_good h (fun _ _ he => (Option.or_eq_none_iff.mp he).1) (writeAll_append hone)

lemma writeFile_position (h : Opens sys flag false) :
    Exact flag data old (writeFile sys data flag) :=
  exact_of_good h (fun _ _ he => (Option.or_eq_none_iff.mp he).1)
    (writeAll_good 0 0 (Nat.zero_le _))

lemma writeFileSync_append (h : Opens sys flag true) :
    Exact flag data old (writeFileSync sys data flag) ↔ One sys data := by
  constructor
  · intro hexact m hw
    by_contra hm
    have hle := sys.write_le hw
    obtain ⟨w, ws, hws, hpos⟩ := @writeLoop_head E sys data 1 (0 + m) (plus none (0 + m)) (by omega)
    refine not_exact h [⟨data, none, .ok m⟩] w ws ?_ ?_ hexact
    · show (writeLoop sys data 0 0 none).1 = _
      rw [writeLoop_ok (by omega) hw, hws]
      rfl
    · rw [hpos]
      nofun
  · intro hone
    refine exact_of_good h (fun _ _ he => (Option.or_eq_none_iff.mp he).2)
      (@writeLoop_last E sys data true 0 0 (Nat.zero_le _) fun m hw => ?_)
    rw [Nat.zero_add]
    exact hone m hw

/-- The third write is at the position where it would be if the first had been made twice. -/
lemma writeFileSync_position (h : Opens sys flag false) :
    Exact flag data old (writeFileSync sys data flag) ↔ Two sys data := by
  constructor
  · intro hexact m m' hw hw'
    by_contra hm
    have hle := sys.write_le hw
    have hle' := sys.write_le hw'
    have hpos := sys.write_pos (show 0 < data.length by omega) hw
    have hpos' := sys.write_pos (show 0 < data.length - m by omega) hw'
    obtain ⟨w, ws, hws, hp⟩ := @writeLoop_head E sys data 2 (m + m') (plus (some m) (m + m'))
      (by omega)
    refine not_exact h [⟨data, some 0, .ok m⟩, ⟨data.drop m, some m, .ok m'⟩] w ws ?_ ?_ hexact
    · have hsum : plus (some 0) (0 + m) = some m := by simp [plus]
      show (writeLoop sys data 0 0 (some 0)).1 = _
      rw [writeLoop_ok (by omega) hw, hsum, Nat.zero_add m, writeLoop_ok (by omega) hw', hws]
      rfl
    · rw [hp]
      simp only [plus, due, written, Write.written, List.map_cons, List.map_nil, List.sum_cons,
        List.sum_nil, Option.getD_some]
      simp
      omega
  · intro htwo
    exact exact_of_good h (fun _ _ he => (Option.or_eq_none_iff.mp he).2) (writeLoop_two htwo)

/-- **The writes are as they should be** unless a file is appended to and the first write is short,
or, of `writeFileSync`, a third write is made. -/
theorem exact_iff (sys : System E) (data old : List UInt8) (flag : Option String) :
    (Exact flag data old (writeFile sys data flag) ↔ (Opens sys flag true → One sys data)) ∧
    (Exact flag data old (writeFileSync sys data flag) ↔
      (Opens sys flag true → One sys data) ∧ (Opens sys flag false → Two sys data)) := by
  by_cases htrue : Opens sys flag true
  · have hfalse : ¬ Opens sys flag false := fun hc => by
      obtain ⟨-, flags, hflags, happ⟩ := hc
      exact absurd ((htrue.append_eq hflags).symm.trans happ) (by simp)
    refine ⟨(writeFile_append htrue).trans ⟨fun h _ => h, fun h => h htrue⟩,
      (writeFileSync_append htrue).trans ⟨fun h => ⟨fun _ => h, fun hc => absurd hc hfalse⟩,
        fun h => h.1 htrue⟩⟩
  · by_cases hfalse : Opens sys flag false
    · refine ⟨⟨fun _ hc => absurd hc htrue, fun _ => writeFile_position hfalse⟩,
        (writeFileSync_position hfalse).trans ⟨fun h => ⟨fun hc => absurd hc htrue, fun _ => h⟩,
          fun h => h.2 hfalse⟩⟩
    · have hclosed : ∀ append, ¬ Opens sys flag append := fun append => by
        cases append with
        | true => exact htrue
        | false => exact hfalse
      exact ⟨⟨fun _ hc => absurd hc htrue, fun _ => exact_of_closed hclosed⟩,
        ⟨fun _ => ⟨fun hc => absurd hc htrue, fun hc => absurd hc hfalse⟩,
          fun _ => exact_of_closed hclosed⟩⟩

/-- A file that takes one byte at a time. -/
def byteByByte : System Unit where
  openError := none
  closeError := none
  write _ n := .ok (min n 1)
  write_pos hn h := by
    have := Except.ok.inj h
    omega
  write_le h := by
    have := Except.ok.inj h
    omega

/-- Three bytes with `writeFileSync`, and two that `writeFile` appends. -/
theorem not_exact_byteByByte :
    ¬ Exact (some "w") [1, 2, 3] [] (writeFileSync byteByByte [1, 2, 3] (some "w")) ∧
    ¬ Exact (some "a") [1, 2] [] (writeFile byteByByte [1, 2] (some "a")) := by
  have hw : Opens byteByByte (some "w") false := ⟨rfl, ⟨true, false⟩, by decide, rfl⟩
  have ha : Opens byteByByte (some "a") true := ⟨rfl, ⟨false, true⟩, by decide, rfl⟩
  constructor
  · intro h
    exact absurd ((writeFileSync_position hw).mp h 1 1 rfl rfl) (by decide)
  · intro h
    exact absurd ((writeFile_append ha).mp h 1 rfl) (by decide)

end NodeCore.FsWriteFile
