import NodeCore.AsciiWords
import NodeCore.Memory

/-!
`force_ascii`: the top bit cleared a word at a time.

Where source and destination are aligned alike, the bytes up to the first word go first. Then the
length is reduced by how many bytes the source is behind a word, and not by how many went first.
-/

namespace NodeCore.AsciiWords

open NodeCore.Encoding NodeCore.Memory NodeCore.Word

/-! ### `force_ascii` -/

/-- The mask of `force_ascii`, as a `uintptr_t`. `0x80808080l` is unsigned where a `long` has four
bytes, and `~` of a longer one is negative. -/
def Target.clearMask (p : Target) : ℕ :=
  (if p.bitsPerLong = 64 then 2 ^ 64 - 1 - 0x8080808080808080
    else 256 ^ p.bytesPerLong - 1 - 0x80808080) % 256 ^ p.bytesPerWord

def forceAsciiSlow (m : ℕ → UInt8) (src dst : ℕ) : ℕ → ℕ → UInt8
  | 0 => m
  | len + 1 => forceAsciiSlow (store m dst [m src &&& 0x7f]) (src + 1) (dst + 1) len

/-- `*dstw = *srcw & mask` -/
def forceWord (p : Target) (m : ℕ → UInt8) (srcw dstw : ℕ) : ℕ → UInt8 :=
  let word := unsigned (p.ordered (load m srcw p.bytesPerWord))
  store m dstw (p.ordered (bytesOf p.bytesPerWord (word &&& p.clearMask)))

/-- The loop over `n` words. -/
def forceWords (p : Target) (m : ℕ → UInt8) (srcw dstw : ℕ) : ℕ → ℕ → UInt8
  | 0 => m
  | n + 1 =>
    forceWords p (forceWord p m srcw dstw) (srcw + p.bytesPerWord) (dstw + p.bytesPerWord) n

/-- What follows when the first bytes are done. -/
def forceAligned (p : Target) (m : ℕ → UInt8) (src dst len : ℕ) : ℕ → UInt8 :=
  let m := forceWords p m src dst (len / p.bytesPerWord)
  let remainder := len % p.bytesPerWord
  if 0 < remainder then
    let offset := len - remainder
    forceAsciiSlow m (src + offset) (dst + offset) remainder
  else m

def forceAscii (p : Target) (m : ℕ → UInt8) (src dst len : ℕ) : ℕ → UInt8 :=
  if len < 16 then forceAsciiSlow m src dst len
  else
    let src_unalign := src % p.bytesPerWord
    let dst_unalign := dst % p.bytesPerWord
    if 0 < src_unalign then
      if src_unalign = dst_unalign then
        let unalign := p.bytesPerWord - src_unalign
        let m := forceAsciiSlow m src dst unalign
        forceAligned p m (src + unalign) (dst + unalign) (len - src_unalign)
      else forceAsciiSlow m src dst len
    else forceAligned p m src dst len

/-! ### One block -/

/-- No byte is written before it is read. -/
def Forward (src dst len : ℕ) : Prop := dst ≤ src ∨ src + len ≤ dst

def cleared (m : ℕ → UInt8) (src len : ℕ) : Bytes := (load m src len).map (· &&& 0x7f)

@[simp] lemma length_cleared (m : ℕ → UInt8) (src len : ℕ) : (cleared m src len).length = len := by
  simp [cleared]

lemma cleared_add (m : ℕ → UInt8) (src n k : ℕ) :
    cleared m src (n + k) = cleared m src n ++ cleared m (src + n) k := by
  rw [cleared, load_add, List.map_append]
  rfl

/-- What is written behind what is read changes nothing. -/
lemma cleared_store {m : ℕ → UInt8} {dst pos n : ℕ} {b : Bytes}
    (h : pos + n ≤ dst ∨ dst + b.length ≤ pos) :
    cleared (store m dst b) pos n = cleared m pos n := by
  rw [cleared, load_store_apart h]
  rfl

lemma forceAsciiSlow_eq {m : ℕ → UInt8} {src dst len : ℕ} (h : Forward src dst len) :
    forceAsciiSlow m src dst len = store m dst (cleared m src len) := by
  induction len generalizing m src dst with
  | zero => simp [forceAsciiSlow, cleared, load]
  | succ len ih =>
    have hstep : Forward (src + 1) (dst + 1) len := by
      unfold Forward at h ⊢
      omega
    have hone : cleared m src 1 = [m src &&& 0x7f] := by simp [cleared, load]
    rw [forceAsciiSlow, ih hstep, cleared_store, Nat.add_comm len 1, cleared_add, hone,
      store_append]
    · rfl
    · unfold Forward at h
      rw [List.length_singleton]
      omega

/-- The mask has all bits but the top ones. -/
def Target.Wide (p : Target) : Prop := p.bytesPerWord = 4 ∨ p.x86_64 = true

lemma Target.bytesOf_clearMask {p : Target} (h : p.Wide) : bytesOf p.bytesPerWord p.clearMask =
    p.ordered (List.replicate p.bytesPerWord 0x7f) := by
  obtain ⟨word, long, x86_64, bigEndian, hword, hlong⟩ := p
  rcases hword with rfl | rfl <;> rcases hlong with rfl | rfl <;> cases x86_64 <;>
    cases bigEndian <;> first | decide | (rcases h with h | h <;> cases h)

lemma Target.ordered_ordered (p : Target) (bs : Bytes) : p.ordered (p.ordered bs) = bs := by
  unfold Target.ordered
  split_ifs
  · exact List.reverse_reverse bs
  · rfl

lemma forceWord_wide {p : Target} (h : p.Wide) (m : ℕ → UInt8) (srcw dstw : ℕ) :
    forceWord p m srcw dstw = store m dstw (cleared m srcw p.bytesPerWord) := by
  have hload : (load m srcw p.bytesPerWord).length = p.bytesPerWord := by simp
  have hzip : List.zipWith (· &&& ·) (load m srcw p.bytesPerWord)
      (List.replicate p.bytesPerWord 0x7f) = cleared m srcw p.bytesPerWord := by
    refine List.ext_getElem (by simp) fun i h₁ h₂ => ?_
    simp [cleared]
  rw [forceWord, p.and_bytes hload (Target.bytesOf_clearMask h) List.length_replicate, hzip,
    p.ordered_ordered]

lemma forceWords_wide {p : Target} (h : p.Wide) {n : ℕ} {m : ℕ → UInt8} {srcw dstw : ℕ}
    (hforward : Forward srcw dstw (p.bytesPerWord * n)) :
    forceWords p m srcw dstw n = store m dstw (cleared m srcw (p.bytesPerWord * n)) := by
  induction n generalizing m srcw dstw with
  | zero => simp [forceWords, cleared, load]
  | succ n ih =>
    rw [Nat.mul_succ, Nat.add_comm (p.bytesPerWord * n)] at hforward ⊢
    have hstep : Forward (srcw + p.bytesPerWord) (dstw + p.bytesPerWord) (p.bytesPerWord * n) := by
      unfold Forward at hforward ⊢
      omega
    rw [forceWords, ih hstep, forceWord_wide h, cleared_store, cleared_add, store_append,
      length_cleared]
    unfold Forward at hforward
    rw [length_cleared]
    omega

lemma forceAligned_wide {p : Target} (h : p.Wide) {m : ℕ → UInt8} {src dst len : ℕ}
    (hforward : Forward src dst len) :
    forceAligned p m src dst len = store m dst (cleared m src len) := by
  have hdiv := Nat.div_add_mod len p.bytesPerWord
  have hwords : Forward src dst (p.bytesPerWord * (len / p.bytesPerWord)) := by
    unfold Forward at hforward ⊢
    omega
  have hoffset : len - len % p.bytesPerWord = p.bytesPerWord * (len / p.bytesPerWord) := by omega
  have htail : Forward (src + p.bytesPerWord * (len / p.bytesPerWord))
      (dst + p.bytesPerWord * (len / p.bytesPerWord)) (len % p.bytesPerWord) := by
    unfold Forward at hforward ⊢
    omega
  have hall : store m dst (cleared m src len) =
      store (store m dst (cleared m src (p.bytesPerWord * (len / p.bytesPerWord))))
        (dst + p.bytesPerWord * (len / p.bytesPerWord))
        (cleared m (src + p.bytesPerWord * (len / p.bytesPerWord)) (len % p.bytesPerWord)) := by
    conv_lhs => rw [← hdiv, cleared_add, store_append, length_cleared]
  rw [forceAligned, forceWords_wide h hwords]
  dsimp only
  rw [hoffset, hall]
  split_ifs with hpos
  · rw [forceAsciiSlow_eq htail, cleared_store]
    rw [length_cleared]
    unfold Forward at hforward
    omega
  · rw [show len % p.bytesPerWord = 0 by omega]
    simp [cleared, load]

/-! ### The length -/

lemma forceAsciiSlow_outside {m : ℕ → UInt8} {src dst len a : ℕ} (h : a < dst ∨ dst + len ≤ a) :
    forceAsciiSlow m src dst len a = m a := by
  induction len generalizing m src dst with
  | zero => rfl
  | succ len ih =>
    rw [forceAsciiSlow, ih (by omega)]
    exact store_outside (by rw [List.length_singleton]; omega)

lemma forceWord_outside (p : Target) {m : ℕ → UInt8} {srcw dstw a : ℕ}
    (h : a < dstw ∨ dstw + p.bytesPerWord ≤ a) : forceWord p m srcw dstw a = m a := by
  refine store_outside ?_
  rwa [p.length_ordered, length_bytesOf]

lemma forceWords_outside (p : Target) {m : ℕ → UInt8} {srcw dstw n a : ℕ}
    (h : a < dstw ∨ dstw + p.bytesPerWord * n ≤ a) : forceWords p m srcw dstw n a = m a := by
  induction n generalizing m srcw dstw with
  | zero => rfl
  | succ n ih =>
    rw [Nat.mul_succ] at h
    rw [forceWords, ih (by omega), forceWord_outside p (by omega)]

lemma forceAligned_outside (p : Target) {m : ℕ → UInt8} {src dst len a : ℕ}
    (h : a < dst ∨ dst + len ≤ a) : forceAligned p m src dst len a = m a := by
  have hdiv := Nat.div_add_mod len p.bytesPerWord
  rw [forceAligned]
  dsimp only
  split_ifs with hpos
  · rw [forceAsciiSlow_outside (by omega), forceWords_outside p (by omega)]
  · exact forceWords_outside p (by omega)

lemma top_cleared {m : ℕ → UInt8} {src len : ℕ} {b : UInt8} (h : b ∈ cleared m src len) :
    top b = false := by
  have hall : ∀ n < 256, top (UInt8.ofNat n &&& 0x7f) = false := by decide +kernel
  obtain ⟨x, -, rfl⟩ := List.mem_map.mp h
  have hx := hall x.toNat x.toNat_lt
  rwa [UInt8.ofNat_toNat] at hx

/-- What is written has its top bit cleared. -/
lemma top_store {m m' : ℕ → UInt8} {src dst len a : ℕ} (h : dst ≤ a) (h' : a < dst + len) :
    top (store m dst (cleared m' src len) a) = false := by
  obtain ⟨i, rfl⟩ := Nat.exists_eq_add_of_le h
  have hi : i < (cleared m' src len).length := by
    rw [length_cleared]
    omega
  rw [store_inside hi]
  exact top_cleared (List.getElem_mem hi)

lemma forceAsciiSlow_top {m : ℕ → UInt8} {src dst len a : ℕ} (h : dst ≤ a) (h' : a < dst + len) :
    top (forceAsciiSlow m src dst len a) = false := by
  induction len generalizing m src dst with
  | zero => omega
  | succ len ih =>
    rw [forceAsciiSlow]
    rcases h.eq_or_lt with rfl | hlt
    · rw [forceAsciiSlow_outside (.inl (Nat.lt_succ_self _))]
      have hone : [m src &&& 0x7f] = cleared m src 1 := by simp [cleared, load]
      rw [hone]
      exact top_store le_rfl (Nat.lt_succ_self _)
    · exact ih hlt (by omega)

lemma forceWords_top {p : Target} (hp : p.Wide) {m : ℕ → UInt8} {srcw dstw n a : ℕ} (h : dstw ≤ a)
    (h' : a < dstw + p.bytesPerWord * n) : top (forceWords p m srcw dstw n a) = false := by
  induction n generalizing m srcw dstw with
  | zero => omega
  | succ n ih =>
    rw [Nat.mul_succ] at h'
    rw [forceWords]
    rcases Nat.lt_or_ge a (dstw + p.bytesPerWord) with hlt | hge
    · rw [forceWords_outside p (.inl hlt), forceWord_wide hp]
      exact top_store h hlt
    · exact ih hge (by omega)

lemma forceAligned_top {p : Target} (hp : p.Wide) {m : ℕ → UInt8} {src dst len a : ℕ}
    (h : dst ≤ a) (h' : a < dst + len) : top (forceAligned p m src dst len a) = false := by
  have hdiv := Nat.div_add_mod len p.bytesPerWord
  rw [forceAligned]
  dsimp only
  rcases Nat.lt_or_ge a (dst + p.bytesPerWord * (len / p.bytesPerWord)) with hlt | hge
  · split_ifs with hpos
    · rw [forceAsciiSlow_outside (by omega)]
      exact forceWords_top hp h hlt
    · exact forceWords_top hp h hlt
  · rw [if_pos (by omega)]
    exact forceAsciiSlow_top (by omega) (by omega)

/-! ### The mask -/

/-- Half a word is left as it is, or becomes zero. -/
lemma forceWord_narrow {p : Target} (h : ¬ p.Wide) {m : ℕ → UInt8} {srcw : ℕ} (dstw : ℕ)
    (hload : load m srcw p.bytesPerWord = List.replicate p.bytesPerWord 0xff) :
    ∃ j < p.bytesPerWord, forceWord p m srcw dstw (dstw + j) ≠ 0x7f := by
  obtain ⟨hword, hmacro⟩ := not_or.mp h
  have hbytes : ∃ j < p.bytesPerWord, ∀ b ∈ (p.ordered (bytesOf p.bytesPerWord
      (unsigned (p.ordered (List.replicate p.bytesPerWord 0xff)) &&& p.clearMask)))[j]?,
      b ≠ 0x7f := by
    obtain ⟨word, long, x86_64, bigEndian, hpointer, hlong⟩ := p
    obtain rfl : x86_64 = false := Bool.eq_false_iff.mpr hmacro
    rcases hpointer with rfl | rfl
    · exact absurd rfl hword
    · rcases hlong with rfl | rfl <;> cases bigEndian <;> first
        | exact ⟨0, by decide, by decide +kernel⟩
        | exact ⟨4, by decide, by decide +kernel⟩
  obtain ⟨j, hj, hne⟩ := hbytes
  refine ⟨j, hj, ?_⟩
  have hlength : j < (p.ordered (bytesOf p.bytesPerWord
      (unsigned (p.ordered (List.replicate p.bytesPerWord 0xff)) &&& p.clearMask))).length := by
    rw [p.length_ordered, length_bytesOf]
    exact hj
  rw [forceWord, hload, store_inside hlength]
  exact hne _ (List.getElem?_eq_getElem hlength)

/-- The first word stays as it is written. -/
lemma forceAligned_first (p : Target) {m : ℕ → UInt8} {src dst len j : ℕ}
    (hlen : p.bytesPerWord ≤ len) (hj : j < p.bytesPerWord) :
    forceAligned p m src dst len (dst + j) = forceWord p m src dst (dst + j) := by
  have hdiv := Nat.div_add_mod len p.bytesPerWord
  obtain ⟨n, hn⟩ : ∃ n, len / p.bytesPerWord = n + 1 :=
    Nat.exists_eq_succ_of_ne_zero (Nat.div_pos hlen (by omega)).ne'
  have hwords : forceWords p m src dst (n + 1) (dst + j) = forceWord p m src dst (dst + j) := by
    rw [forceWords]
    exact forceWords_outside p (.inl (by omega))
  rw [hn, Nat.mul_succ] at hdiv
  rw [forceAligned, hn]
  dsimp only
  split_ifs with hpos
  · rw [forceAsciiSlow_outside (by omega), hwords]
  · exact hwords

/-! ### The whole function -/

/-- `r` has the bytes of the source with their top bits cleared, and is `m` elsewhere. -/
def Cleared (m : ℕ → UInt8) (src dst len : ℕ) (r : ℕ → UInt8) : Prop :=
  (∀ i < len, r (dst + i) = m (src + i) &&& 0x7f) ∧
    ∀ a, a < dst ∨ dst + len ≤ a → r a = m a

lemma cleared_spec (m : ℕ → UInt8) (src dst len : ℕ) :
    Cleared m src dst len (store m dst (cleared m src len)) := by
  refine ⟨fun i hi => ?_, fun a ha => store_outside (by rwa [length_cleared])⟩
  have hi' : i < (cleared m src len).length := by rwa [length_cleared]
  rw [store_inside hi']
  simp [cleared, load]

/-- The bytes are taken one by one, or the mask is wide and what goes first is nothing, or as much
as is left out. -/
def Target.Fits (p : Target) (src dst len : ℕ) : Prop :=
  len < 16 ∨ 0 < src % p.bytesPerWord ∧ src % p.bytesPerWord ≠ dst % p.bytesPerWord ∨
    p.Wide ∧ (src % p.bytesPerWord = 0 ∨ 2 * (src % p.bytesPerWord) = p.bytesPerWord)

/-- All bytes are `0xff`. -/
def ones : ℕ → UInt8 := fun _ => 0xff

lemma load_ones (a n : ℕ) : load ones a n = List.replicate n 0xff := by
  simp [load, ones]

lemma forceAscii_fits {p : Target} {src dst len : ℕ} (hforward : Forward src dst len)
    (h : p.Fits src dst len) (m : ℕ → UInt8) :
    forceAscii p m src dst len = store m dst (cleared m src len) := by
  have hword : 4 ≤ p.bytesPerWord ∧ p.bytesPerWord ≤ 8 := by
    rcases p.pointer with h | h <;> omega
  rw [forceAscii]
  dsimp only
  split_ifs with hshort hpos hsame
  · exact forceAsciiSlow_eq hforward
  · -- as many bytes go first as the length is reduced by
    rcases h with h | ⟨-, h⟩ | ⟨hwide, h⟩
    · exact absurd h hshort
    · exact absurd hsame h
    · obtain ⟨n, hn, hrest⟩ : ∃ n, p.bytesPerWord - src % p.bytesPerWord = n ∧
          len - src % p.bytesPerWord = len - n := ⟨_, rfl, by omega⟩
      have hn' : n ≤ len := by omega
      have hfirst : Forward src dst n := by
        unfold Forward at hforward ⊢
        omega
      have hlast : Forward (src + n) (dst + n) (len - n) := by
        unfold Forward at hforward ⊢
        omega
      have hall : store m dst (cleared m src len) = store (store m dst (cleared m src n)) (dst + n)
          (cleared m (src + n) (len - n)) := by
        conv_lhs => rw [← Nat.add_sub_cancel' hn', cleared_add, store_append, length_cleared]
      rw [hrest, hn, forceAligned_wide hwide hlast, forceAsciiSlow_eq hfirst, cleared_store, hall]
      rw [length_cleared]
      unfold Forward at hforward
      omega
  · exact forceAsciiSlow_eq hforward
  · rcases h with h | ⟨h, -⟩ | ⟨hwide, -⟩
    · exact absurd h hshort
    · exact absurd h hpos
    · exact forceAligned_wide hwide hforward

lemma not_cleared {p : Target} {src dst len : ℕ} (hforward : Forward src dst len)
    (h : ¬ p.Fits src dst len) :
    ¬ Cleared ones src dst len (forceAscii p ones src dst len) := by
  have hword : 4 ≤ p.bytesPerWord ∧ p.bytesPerWord ≤ 8 := by
    rcases p.pointer with h | h <;> omega
  obtain ⟨hshort, hbytes, hwords⟩ : 16 ≤ len ∧
      (src % p.bytesPerWord = 0 ∨ src % p.bytesPerWord = dst % p.bytesPerWord) ∧
      (p.Wide → src % p.bytesPerWord ≠ 0 ∧ 2 * (src % p.bytesPerWord) ≠ p.bytesPerWord) := by
    obtain ⟨hshort, h⟩ := not_or.mp h
    obtain ⟨hbytes, hwords⟩ := not_or.mp h
    exact ⟨by omega, by omega, fun hwide => not_or.mp (not_and.mp hwords hwide)⟩
  have hmod := Nat.mod_lt src (show 0 < p.bytesPerWord by omega)
  rintro ⟨hinside, houtside⟩
  have hones (a : ℕ) : ones a = 0xff := rfl
  have hbyte : (0xff : UInt8) &&& 0x7f = 0x7f := by decide
  obtain ⟨n, hn⟩ : ∃ n, p.bytesPerWord - src % p.bytesPerWord = n := ⟨_, rfl⟩
  have hpeeled (hpos : 0 < src % p.bytesPerWord) : forceAscii p ones src dst len =
      forceAligned p (forceAsciiSlow ones src dst n) (src + n) (dst + n)
        (len - src % p.bytesPerWord) := by
    rw [forceAscii, if_neg (by omega)]
    dsimp only
    rw [if_pos hpos, if_pos (hbytes.resolve_left hpos.ne'), hn]
  by_cases hwide : p.Wide
  · obtain ⟨hpos, hhalf⟩ := hwords hwide
    have hpeeled := hpeeled (Nat.pos_of_ne_zero hpos)
    rcases Nat.lt_or_gt_of_ne hhalf with hlt | hgt
    · -- the length is too long
      have htop : top (forceAligned p (forceAsciiSlow ones src dst n) (src + n) (dst + n)
          (len - src % p.bytesPerWord) (dst + len)) = false :=
        forceAligned_top hwide (by omega) (by omega)
      rw [← hpeeled, houtside _ (.inr le_rfl), hones] at htop
      exact absurd htop (by decide)
    · -- it is too short
      have hlast := hinside (len - 1) (by omega)
      rw [hpeeled, forceAligned_outside p (by omega), forceAsciiSlow_outside (by omega), hones,
        hones] at hlast
      exact absurd hlast (by decide)
  · rcases Nat.eq_zero_or_pos (src % p.bytesPerWord) with hzero | hpos
    · have halign : forceAscii p ones src dst len = forceAligned p ones src dst len := by
        rw [forceAscii, if_neg (by omega)]
        dsimp only
        rw [if_neg (by omega)]
      obtain ⟨j, hj, hne⟩ := forceWord_narrow hwide dst (load_ones src _)
      have hfirst := hinside j (by omega)
      rw [halign, forceAligned_first p (by omega) hj, hones, hbyte] at hfirst
      exact hne hfirst
    · have hstart : Forward src dst n := by
        unfold Forward at hforward ⊢
        omega
      have hload : load (forceAsciiSlow ones src dst n) (src + n) p.bytesPerWord =
          List.replicate p.bytesPerWord 0xff := by
        rw [forceAsciiSlow_eq hstart, load_store_apart, load_ones]
        rw [length_cleared]
        unfold Forward at hforward
        omega
      obtain ⟨j, hj, hne⟩ := forceWord_narrow hwide (dst + n) hload
      have hfirst := hinside (n + j) (by omega)
      rw [hpeeled hpos, ← Nat.add_assoc, forceAligned_first p (by omega) hj, hones,
        hbyte] at hfirst
      exact hne hfirst

/-- **A word at a time.** What `force_ascii` does to a memory. -/
theorem forceAscii_iff (p : Target) (src dst len : ℕ) (hforward : Forward src dst len) :
    (∀ m, Cleared m src dst len (forceAsciiSlow m src dst len)) ∧
      ((∀ m, Cleared m src dst len (forceAscii p m src dst len)) ↔ p.Fits src dst len) := by
  refine ⟨fun m => ?_, fun h => ?_, fun h m => ?_⟩
  · rw [forceAsciiSlow_eq hforward]
    exact cleared_spec m src dst len
  · by_contra hfits
    exact not_cleared hforward hfits (h ones)
  · rw [forceAscii_fits hforward h]
    exact cleared_spec m src dst len

/-- Half a word goes first. -/
theorem forceAscii_half : (∀ m, Cleared m 4 100 20 (forceAsciiSlow m 4 100 20)) ∧
    ((∀ m, Cleared m 4 100 20 (forceAscii linux64 m 4 100 20)) ↔ linux64.Fits 4 100 20) ∧
    linux64.Fits 4 100 20 := by
  obtain ⟨hslow, hiff⟩ := forceAscii_iff linux64 4 100 20 (.inr (by decide))
  exact ⟨hslow, hiff, .inr (.inr ⟨.inr rfl, .inr rfl⟩)⟩

/-- Source and destination one byte behind a word: six bytes too many are written. And with a narrow
mask, aligned bytes become zero. -/
theorem forceAscii_fails :
    ¬ Cleared (fun _ => 0x80) 1 105 16 (forceAscii linux64 (fun _ => 0x80) 1 105 16) ∧
    ¬ Cleared (fun _ => 0x41) 8 104 16 (forceAscii win64 (fun _ => 0x41) 8 104 16) := by
  constructor
  · rintro ⟨-, houtside⟩
    exact absurd (houtside 121 (.inr (by decide))) (by decide)
  · rintro ⟨hinside, -⟩
    exact absurd (hinside 4 (by decide)) (by decide)

end NodeCore.AsciiWords
