import NodeCore.Encoding
import NodeCore.Word

/-!
`contains_non_ascii`: bytes looked at a word at a time.

The mask is as wide as a macro says, and a word is as wide as a pointer. Where the words are wider
than the mask, one half of each is never looked at. A read outside the range that was given is
`none`.
-/

namespace NodeCore.AsciiWords

open NodeCore.Encoding NodeCore.Word

/-! ### The target -/

/-- `sizeof(void*)`, `sizeof(long)`, whether `__x86_64__` is defined, and the order of bytes. -/
structure Target where
  bytesPerWord : ℕ
  bytesPerLong : ℕ
  x86_64 : Bool
  bigEndian : Bool
  pointer : bytesPerWord = 4 ∨ bytesPerWord = 8
  long : bytesPerLong = 4 ∨ bytesPerLong = 8

namespace Target

variable (p : Target)

def bitsPerLong : ℕ := if p.x86_64 then 64 else 32

/-- Bytes as they stand in memory, the lowest first; and the other way. -/
def ordered (bs : List UInt8) : List UInt8 := if p.bigEndian then bs.reverse else bs

/-- The mask of `contains_non_ascii`, as a `uintptr_t`. -/
def mask : ℕ :=
  (if p.bitsPerLong = 64 then 0x8080808080808080 else 0x80808080) % 256 ^ p.bytesPerWord

end Target

/-! ### `contains_non_ascii` -/

abbrev Mem := ℕ → Option UInt8

def containsNonAsciiSlow (m : Mem) (buf : ℕ) : ℕ → Option Bool
  | 0 => some false
  | len + 1 => do
    if (← m buf) &&& 0x80 ≠ 0 then return true
    containsNonAsciiSlow m (buf + 1) len

def loadBytes (m : Mem) (a : ℕ) : ℕ → Option Bytes
  | 0 => some []
  | n + 1 => do return (← m a) :: (← loadBytes m (a + 1) n)

/-- `*srcw` -/
def loadWord (p : Target) (m : Mem) (srcw : ℕ) : Option ℕ := do
  return unsigned (p.ordered (← loadBytes m srcw p.bytesPerWord))

/-- The loop over `n` words. -/
def containsWords (p : Target) (m : Mem) (srcw : ℕ) : ℕ → Option Bool
  | 0 => some false
  | n + 1 => do
    if (← loadWord p m srcw) &&& p.mask ≠ 0 then return true
    containsWords p m (srcw + p.bytesPerWord) n

/-- `src` is aligned. -/
def containsAligned (p : Target) (m : Mem) (src len : ℕ) : Option Bool := do
  if ← containsWords p m src (len / p.bytesPerWord) then return true
  let remainder := len % p.bytesPerWord
  if 0 < remainder then
    let offset := len - remainder
    if ← containsNonAsciiSlow m (src + offset) remainder then return true
  return false

/-- `& align_mask` is the remainder. -/
def containsNonAscii (p : Target) (m : Mem) (src len : ℕ) : Option Bool := do
  if len < 16 then
    return ← containsNonAsciiSlow m src len
  let unaligned := src % p.bytesPerWord
  if 0 < unaligned then
    let n := p.bytesPerWord - unaligned
    if ← containsNonAsciiSlow m src n then return true
    containsAligned p m (src + n) (len - n)
  else containsAligned p m src len

/-! ### What is looked at -/

def top (b : UInt8) : Bool := b &&& 0x80 ≠ 0

/-- The mask has nothing at the byte `j` of a word in memory. -/
def Target.skips (p : Target) (j : ℕ) : Bool :=
  p.bytesPerWord = 8 && !p.x86_64 && (if p.bigEndian then j < 4 else 4 ≤ j)

lemma Target.bytesOf_mask (p : Target) : bytesOf p.bytesPerWord p.mask =
    p.ordered ((List.range p.bytesPerWord).map fun j => if p.skips j then 0 else 0x80) := by
  obtain ⟨word, long, x86_64, bigEndian, hword, hlong⟩ := p
  rcases hword with rfl | rfl <;> rcases hlong with rfl | rfl <;> cases x86_64 <;>
    cases bigEndian <;> decide

lemma Target.zipWith_ordered (p : Target) (f : UInt8 → UInt8 → UInt8) {bs cs : List UInt8}
    (h : bs.length = cs.length) :
    List.zipWith f (p.ordered bs) (p.ordered cs) = p.ordered (List.zipWith f bs cs) := by
  unfold Target.ordered
  split_ifs
  · exact (List.reverse_zipWith h).symm
  · rfl

lemma Target.length_ordered (p : Target) (bs : List UInt8) :
    (p.ordered bs).length = bs.length := by
  unfold Target.ordered
  split_ifs
  · exact List.length_reverse
  · rfl

lemma Target.mem_ordered (p : Target) {bs : List UInt8} {b : UInt8} :
    b ∈ p.ordered bs ↔ b ∈ bs := by
  unfold Target.ordered
  split_ifs
  · exact List.mem_reverse
  · rfl

/-- `&` of a word in memory with some number, byte by byte. -/
lemma Target.and_bytes (p : Target) {bs ks : List UInt8} {k : ℕ} (hbs : bs.length = p.bytesPerWord)
    (hk : bytesOf p.bytesPerWord k = p.ordered ks) (hks : ks.length = p.bytesPerWord) :
    bytesOf p.bytesPerWord (unsigned (p.ordered bs) &&& k) =
      p.ordered (List.zipWith (· &&& ·) bs ks) := by
  have hlength : (p.ordered bs).length = p.bytesPerWord := by rw [p.length_ordered, hbs]
  rw [← hlength, bytesOf_and, hlength, hk, p.zipWith_ordered _ (hbs.trans hks.symm)]

lemma Target.and_mask (p : Target) {bs : List UInt8} (hbs : bs.length = p.bytesPerWord) :
    unsigned (p.ordered bs) &&& p.mask ≠ 0 ↔
      ∃ i b, bs[i]? = some b ∧ top b = true ∧ p.skips i = false := by
  have hlt : unsigned (p.ordered bs) &&& p.mask < 256 ^ p.bytesPerWord := by
    have hword := unsigned_lt (p.ordered bs)
    rw [p.length_ordered, hbs] at hword
    exact lt_of_le_of_lt Nat.and_le_left hword
  have hbytes := p.and_bytes hbs p.bytesOf_mask (by simp)
  have hzero := unsigned_bytesOf p.bytesPerWord (unsigned (p.ordered bs) &&& p.mask)
  rw [Nat.mod_eq_of_lt hlt, hbytes] at hzero
  rw [← hzero, ne_eq, unsigned_eq_zero]
  simp only [p.mem_ordered]
  have hand (b : UInt8) (i : ℕ) :
      (b &&& if p.skips i = true then 0 else 0x80) ≠ 0 ↔ top b = true ∧ p.skips i = false := by
    cases p.skips i <;> simp [top]
  push Not
  constructor
  · rintro ⟨x, hx, hne⟩
    obtain ⟨i, hi, rfl⟩ := List.mem_iff_getElem.mp hx
    rw [List.length_zipWith] at hi
    rw [List.getElem_zipWith, List.getElem_map, List.getElem_range] at hne
    obtain ⟨htop, hskips⟩ := (hand _ _).mp hne
    exact ⟨i, bs[i], List.getElem?_eq_getElem (by omega), htop, hskips⟩
  · rintro ⟨i, b, hi, htop, hskips⟩
    obtain ⟨hlt, rfl⟩ := List.getElem?_eq_some_iff.mp hi
    have hlen : i < (List.zipWith (· &&& ·) bs ((List.range p.bytesPerWord).map
        fun j => if p.skips j then (0 : UInt8) else 0x80)).length := by
      simp only [List.length_zipWith, List.length_map, List.length_range]
      omega
    refine ⟨_, List.getElem_mem hlen, ?_⟩
    rw [List.getElem_zipWith, List.getElem_map, List.getElem_range]
    exact (hand _ _).mpr ⟨htop, hskips⟩

/-! ### Bytes in memory -/

/-- `bs` can be read from `a` on. -/
def Holds (m : Mem) (a : ℕ) (bs : Bytes) : Prop := ∀ i b, bs[i]? = some b → m (a + i) = some b

lemma Holds.append {m : Mem} {a : ℕ} {bs cs : Bytes} (h : Holds m a (bs ++ cs)) :
    Holds m a bs ∧ Holds m (a + bs.length) cs := by
  refine ⟨fun i b hi => h i b ?_, fun i b hi => ?_⟩
  · obtain ⟨hlt, -⟩ := List.getElem?_eq_some_iff.mp hi
    rw [List.getElem?_append_left hlt, hi]
  · rw [Nat.add_assoc]
    refine h _ b ?_
    rw [List.getElem?_append_right (Nat.le_add_right _ _), Nat.add_sub_cancel_left, hi]

/-- An entry of one list or of the one behind it. -/
lemma exists_append {bs cs : Bytes} (P : ℕ → UInt8 → Prop) :
    (∃ i b, (bs ++ cs)[i]? = some b ∧ P i b) ↔
      (∃ i b, bs[i]? = some b ∧ P i b) ∨ ∃ i b, cs[i]? = some b ∧ P (bs.length + i) b := by
  constructor
  · rintro ⟨i, b, hi, hP⟩
    rcases Nat.lt_or_ge i bs.length with hlt | hge
    · rw [List.getElem?_append_left hlt] at hi
      exact .inl ⟨i, b, hi, hP⟩
    · rw [List.getElem?_append_right hge] at hi
      exact .inr ⟨i - bs.length, b, hi, by rwa [Nat.add_sub_cancel' hge]⟩
  · rintro (⟨i, b, hi, hP⟩ | ⟨i, b, hi, hP⟩)
    · obtain ⟨hlt, -⟩ := List.getElem?_eq_some_iff.mp hi
      exact ⟨i, b, by rw [List.getElem?_append_left hlt, hi], hP⟩
    · refine ⟨bs.length + i, b, ?_, hP⟩
      rw [List.getElem?_append_right (Nat.le_add_right _ _), Nat.add_sub_cancel_left, hi]

lemma exists_take_drop (bs : Bytes) {n : ℕ} (h : n ≤ bs.length) :
    ∃ front back, bs = front ++ back ∧ front.length = n :=
  ⟨bs.take n, bs.drop n, (List.take_append_drop _ _).symm, by rw [List.length_take, min_eq_left h]⟩

lemma any_top {bs : Bytes} :
    bs.any top = true ↔ ∃ (i : ℕ) (b : UInt8), bs[i]? = some b ∧ top b = true := by
  rw [List.any_eq_true]
  constructor
  · rintro ⟨b, hb, htop⟩
    obtain ⟨i, hi⟩ := List.mem_iff_getElem?.mp hb
    exact ⟨i, b, hi, htop⟩
  · rintro ⟨i, b, hi, htop⟩
    exact ⟨b, List.mem_of_getElem? hi, htop⟩

lemma Holds.slow {m : Mem} {a : ℕ} {bs : Bytes} (h : Holds m a bs) :
    containsNonAsciiSlow m a bs.length = some (bs.any top) := by
  induction bs generalizing a with
  | nil => rfl
  | cons b bs ih =>
    obtain ⟨hb, hbs⟩ := (show Holds m a ([b] ++ bs) from h).append
    have hread : m a = some b := hb 0 b rfl
    rw [List.length_cons, containsNonAsciiSlow, hread, List.any_cons]
    by_cases htop : b &&& 0x80 = 0
    · simpa [htop, top] using ih hbs
    · simp [htop, top]

lemma Holds.loadBytes {m : Mem} {a : ℕ} {bs : Bytes} (h : Holds m a bs) :
    loadBytes m a bs.length = some bs := by
  induction bs generalizing a with
  | nil => rfl
  | cons b bs ih =>
    obtain ⟨hb, hbs⟩ := (show Holds m a ([b] ++ bs) from h).append
    have hread : m a = some b := hb 0 b rfl
    have hrest : AsciiWords.loadBytes m (a + 1) bs.length = some bs := ih hbs
    rw [List.length_cons, AsciiWords.loadBytes, hread, hrest]
    rfl

lemma Holds.loadWord {p : Target} {m : Mem} {a : ℕ} {bs : Bytes} (h : Holds m a bs)
    (hbs : bs.length = p.bytesPerWord) : loadWord p m a = some (unsigned (p.ordered bs)) := by
  rw [AsciiWords.loadWord, ← hbs, h.loadBytes]
  rfl

/-- The words are looked at but for what the mask skips. -/
lemma Holds.words {p : Target} {m : Mem} {n a : ℕ} {bs : Bytes} (h : Holds m a bs)
    (hbs : bs.length = p.bytesPerWord * n) : ∃ r, containsWords p m a n = some r ∧
      (r = true ↔ ∃ i b, bs[i]? = some b ∧ top b = true ∧
        p.skips (i % p.bytesPerWord) = false) := by
  induction n generalizing a bs with
  | zero =>
    refine ⟨false, rfl, ?_⟩
    obtain rfl := List.length_eq_zero_iff.mp hbs
    simp
  | succ n ih =>
    obtain ⟨word, rest, rfl, hword⟩ := exists_take_drop bs (n := p.bytesPerWord) (by
      rw [hbs]
      exact Nat.le_mul_of_pos_right _ n.succ_pos)
    have hrest : rest.length = p.bytesPerWord * n := by
      rw [List.length_append, hword, Nat.mul_succ] at hbs
      omega
    obtain ⟨hfirst, hothers⟩ := h.append
    rw [hword] at hothers
    obtain ⟨r, hr, hiff⟩ := ih hothers hrest
    have hmask : unsigned (p.ordered word) &&& p.mask ≠ 0 ↔
        ∃ i b, word[i]? = some b ∧ top b = true ∧ p.skips (i % p.bytesPerWord) = false := by
      rw [p.and_mask hword]
      refine exists_congr fun i => exists_congr fun b => and_congr_right fun hi => ?_
      obtain ⟨hlt, -⟩ := List.getElem?_eq_some_iff.mp hi
      rw [Nat.mod_eq_of_lt (hword ▸ hlt)]
    rw [exists_append fun i b => top b = true ∧ p.skips (i % p.bytesPerWord) = false, hword,
      containsWords, hfirst.loadWord hword]
    simp only [Nat.add_mod_left]
    rw [← hmask, ← hiff]
    by_cases hzero : unsigned (p.ordered word) &&& p.mask = 0
    · exact ⟨r, by simpa [hzero] using hr, by simp [hzero]⟩
    · exact ⟨true, by simp [hzero], by simp [hzero]⟩

/-- From an aligned address on: whole words, and less than a word. -/
lemma Holds.aligned {p : Target} {m : Mem} {a n : ℕ} {words tail : Bytes}
    (h : Holds m a (words ++ tail)) (hwords : words.length = p.bytesPerWord * n)
    (htail : tail.length < p.bytesPerWord) :
    ∃ r, containsAligned p m a (words ++ tail).length = some r ∧
      (r = true ↔ ∃ i b, (words ++ tail)[i]? = some b ∧ top b = true ∧
        ¬ (i < p.bytesPerWord * n ∧ p.skips (i % p.bytesPerWord) = true)) := by
  have hpos : 0 < p.bytesPerWord := by omega
  have hlength : (words ++ tail).length = p.bytesPerWord * n + tail.length := by
    rw [List.length_append, hwords]
  have hdiv : (words ++ tail).length / p.bytesPerWord = n := by
    rw [hlength, Nat.mul_add_div hpos, Nat.div_eq_of_lt htail, Nat.add_zero]
  have hmod : (words ++ tail).length % p.bytesPerWord = tail.length := by
    rw [hlength, Nat.mul_add_mod, Nat.mod_eq_of_lt htail]
  obtain ⟨hfirst, hlast⟩ := h.append
  obtain ⟨r, hr, hiff⟩ := hfirst.words hwords
  have hslow := hlast.slow
  have hoffset : (words ++ tail).length - tail.length = words.length := by
    rw [hlength, hwords, Nat.add_sub_cancel]
  refine ⟨r || tail.any top, ?_, ?_⟩
  · rw [containsAligned, hdiv, hmod, hr]
    dsimp only
    rw [hoffset]
    rcases tail.eq_nil_or_concat with rfl | ⟨init, b, htail'⟩
    · cases r <;> rfl
    · have hsome : 0 < tail.length := by simp [htail']
      rw [if_pos hsome, hslow]
      cases r <;> cases tail.any top <;> rfl
  · rw [Bool.or_eq_true, hiff, any_top, exists_append fun i b => top b = true ∧
      ¬ (i < p.bytesPerWord * n ∧ p.skips (i % p.bytesPerWord) = true)]
    refine or_congr (exists_congr fun i => exists_congr fun b => and_congr_right fun hi =>
      and_congr_right fun _ => ?_) (exists_congr fun i => exists_congr fun b =>
        and_congr_right fun _ => ?_)
    · obtain ⟨hlt, -⟩ := List.getElem?_eq_some_iff.mp hi
      rw [hwords] at hlt
      simp [hlt]
    · rw [hwords]
      exact (and_iff_left fun hlt => absurd hlt.1 (by omega)).symm

/-! ### The whole function -/

/-- The byte `i` is in a whole word, in the half that the mask leaves out. -/
def Target.Hidden (p : Target) (src len i : ℕ) : Prop :=
  16 ≤ len ∧ (src + 7) / 8 * 8 ≤ src + i ∧ src + i < (src + len) / 8 * 8 ∧
    p.skips ((src + i) % 8) = true

lemma Target.word_of_skips {p : Target} {j : ℕ} (h : p.skips j = true) : p.bytesPerWord = 8 := by
  unfold Target.skips at h
  simp only [Bool.and_eq_true, decide_eq_true_eq] at h
  exact h.1.1

/-- Behind `a` bytes up to the first word, that is one of the words that there are. -/
lemma Target.hidden_iff (p : Target) {src a l i : ℕ} (ha : a = if 0 < src % p.bytesPerWord then
      p.bytesPerWord - src % p.bytesPerWord else 0) (hlong : 16 ≤ a + l) :
    p.Hidden src (a + l) (a + i) ↔
      i < p.bytesPerWord * (l / p.bytesPerWord) ∧ p.skips (i % p.bytesPerWord) = true := by
  by_cases hword : p.bytesPerWord = 8
  · rw [hword] at ha ⊢
    have hstart : (src + 7) / 8 * 8 = src + a := by split_ifs at ha <;> omega
    have hstop : (src + (a + l)) / 8 * 8 = src + a + 8 * (l / 8) := by omega
    have hin : (src + (a + i)) % 8 = i % 8 := by omega
    rw [Target.Hidden, hstart, hstop, hin]
    constructor
    · rintro ⟨-, -, hbefore, hskips⟩
      exact ⟨by omega, hskips⟩
    · rintro ⟨hbefore, hskips⟩
      exact ⟨hlong, by omega, by omega, hskips⟩
  · exact iff_of_false (fun h => hword (p.word_of_skips h.2.2.2))
      fun h => hword (p.word_of_skips h.2)

lemma Holds.contains {p : Target} {m : Mem} {src : ℕ} {bytes : Bytes} (h : Holds m src bytes) :
    ∃ r, containsNonAscii p m src bytes.length = some r ∧
      (r = true ↔ ∃ i b, bytes[i]? = some b ∧ top b = true ∧
        ¬ p.Hidden src bytes.length i) := by
  by_cases hshort : bytes.length < 16
  · refine ⟨bytes.any top, ?_, ?_⟩
    · rw [containsNonAscii, h.slow]
      simp [hshort]
    · rw [any_top]
      refine exists_congr fun i => exists_congr fun b => and_congr_right fun _ =>
        (and_iff_left fun hhidden => ?_).symm
      exact absurd hhidden.1 (by omega)
  · have hpos : 0 < p.bytesPerWord := by rcases p.pointer with h | h <;> omega
    have hle : p.bytesPerWord ≤ 8 := by rcases p.pointer with h | h <;> omega
    have hmod := Nat.mod_lt src hpos
    -- the bytes up to the first word, the words, and what is left
    obtain ⟨n₀, hn₀⟩ : ∃ n₀, n₀ = if 0 < src % p.bytesPerWord then
      p.bytesPerWord - src % p.bytesPerWord else 0 := ⟨_, rfl⟩
    have hn₀_lt : n₀ < p.bytesPerWord := by split_ifs at hn₀ <;> omega
    obtain ⟨head, rest, rfl, hhead⟩ := exists_take_drop bytes (n := n₀) (by omega)
    obtain ⟨hfirst, hrest⟩ := h.append
    obtain ⟨words, tail, rfl, hwords⟩ := exists_take_drop rest
      (n := p.bytesPerWord * (rest.length / p.bytesPerWord)) (Nat.mul_div_le _ _)
    have hlength : (words ++ tail).length = words.length + tail.length := List.length_append
    have htail : tail.length < p.bytesPerWord := by
      have hdiv := Nat.div_add_mod (words ++ tail).length p.bytesPerWord
      have hlt := Nat.mod_lt (words ++ tail).length hpos
      omega
    have hwhole : (head ++ (words ++ tail)).length = n₀ + (words ++ tail).length :=
      List.length_append.trans (by rw [hhead])
    obtain ⟨r, hr, hiff⟩ := hrest.aligned hwords htail
    rw [hhead] at hr
    refine ⟨head.any top || r, ?_, ?_⟩
    · have hslow := hfirst.slow
      rw [hhead] at hslow
      have hless : (head ++ (words ++ tail)).length - n₀ = (words ++ tail).length := by
        rw [hwhole, Nat.add_sub_cancel_left]
      rw [containsNonAscii, if_neg hshort]
      dsimp only
      split_ifs at hn₀ with hunaligned
      · rw [if_pos hunaligned, ← hn₀, hless, hslow]
        cases head.any top
        · exact hr
        · rfl
      · obtain rfl := List.length_eq_zero_iff.mp (hhead.trans hn₀)
        rw [hn₀] at hr
        rw [if_neg hunaligned]
        exact hr
    · rw [Bool.or_eq_true, hiff, any_top, exists_append fun i b => top b = true ∧
        ¬ p.Hidden src (head ++ (words ++ tail)).length i]
      refine or_congr (exists_congr fun i => exists_congr fun b => and_congr_right fun hi =>
        (and_iff_left fun hhidden => ?_).symm) (exists_congr fun i => exists_congr fun b =>
          and_congr_right fun hi => and_congr_right fun _ => not_congr ?_)
      · obtain ⟨hlt, -⟩ := List.getElem?_eq_some_iff.mp hi
        obtain ⟨-, hge, -, hskips⟩ := hhidden
        have hword := p.word_of_skips hskips
        rw [hword] at hn₀
        split_ifs at hn₀ <;> omega
      · rw [hwhole] at hshort ⊢
        rw [hhead]
        exact (p.hidden_iff hn₀ (Nat.le_of_not_lt hshort)).symm

/-- A memory of `bytes` from `src` on, and nothing else. -/
def region (src : ℕ) (bytes : Bytes) : Mem := fun a => if a < src then none else bytes[a - src]?

lemma holds_region (src : ℕ) (bytes : Bytes) : Holds (region src bytes) src bytes := by
  intro i b hi
  rw [region, if_neg (by omega), Nat.add_sub_cancel_left, hi]

/-- There are bytes that are no ASCII, and all of them are hidden. -/
def Target.Missed (p : Target) (src : ℕ) (bytes : Bytes) : Prop :=
  (∃ (i : ℕ) (b : UInt8), bytes[i]? = some b ∧ top b = true) ∧
    ∀ (i : ℕ) (b : UInt8), bytes[i]? = some b → top b = true → p.Hidden src bytes.length i

/-- **A word at a time.** Only the bytes that are given are read. The answer is the one of the slow
loop, unless everything that is no ASCII is where the mask has nothing. -/
theorem containsNonAscii_iff (p : Target) (src : ℕ) (bytes : Bytes) :
    containsNonAsciiSlow (region src bytes) src bytes.length = some (bytes.any top) ∧
      (containsNonAscii p (region src bytes) src bytes.length = some (bytes.any top) ↔
        ¬ p.Missed src bytes) ∧
      (p.Missed src bytes →
        containsNonAscii p (region src bytes) src bytes.length = some false) := by
  have hholds := holds_region src bytes
  obtain ⟨r, hr, hiff⟩ := hholds.contains (p := p)
  have hmissed : p.Missed src bytes → r = false := by
    rintro ⟨-, hall⟩
    rw [Bool.eq_false_iff, ne_eq, hiff]
    rintro ⟨i, b, hi, htop, hseen⟩
    exact hseen (hall i b hi htop)
  refine ⟨hholds.slow, ⟨fun h hall => ?_, fun h => ?_⟩, fun h => by rw [hr, hmissed h]⟩
  · rw [hr, hmissed hall] at h
    rw [any_top.mpr hall.1] at h
    cases h
  · rw [hr, Option.some_inj, Bool.eq_iff_iff, hiff, any_top]
    refine ⟨fun ⟨i, b, hi, htop, _⟩ => ⟨i, b, hi, htop⟩, fun hsome => ?_⟩
    by_contra hnone
    refine h ⟨hsome, fun i b hi htop => ?_⟩
    by_contra hseen
    exact hnone ⟨i, b, hi, htop, hseen⟩

/-- The x64 target of the BSDs and of Linux. -/
def linux64 : Target := ⟨8, 8, true, false, .inr rfl, .inr rfl⟩

/-- A 64-bit target whose compiler does not define `__x86_64__`. -/
def win64 : Target := ⟨8, 4, false, false, .inr rfl, .inl rfl⟩

/-- The fifth of sixteen bytes is no ASCII. -/
theorem containsNonAscii_misses : containsNonAsciiSlow
      (region 0 [0, 0, 0, 0, 0x80, 0, 0, 0, 0, 0, 0, 0, 0, 0, 0, 0]) 0 16 = some true ∧
    containsNonAscii win64
      (region 0 [0, 0, 0, 0, 0x80, 0, 0, 0, 0, 0, 0, 0, 0, 0, 0, 0]) 0 16 = some false := by
  decide

end NodeCore.AsciiWords
