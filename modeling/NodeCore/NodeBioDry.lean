import NodeCore.NodeBioFifo

/-!
`IndexOf` and `Reset` of a `NodeBIO`.

A read that ends with the last byte of a buffer leaves the read head at that buffer, now empty,
though the next one may have bytes. `Read` then goes on to the next; `IndexOf` waits at the
empty buffer for ever, and `Reset` takes it for the end of the bytes.
-/

namespace NodeCore.NodeBio

open NodeCore.Encoding NodeCore.Loop

/-- The buffer at the read head is drained, and bytes are unread. -/
def Bio.Dry (s : Bio) : Prop :=
  (s.heap s.readHead).readPos = (s.heap s.readHead).writePos ∧ 0 < s.length

variable {s : Bio} {q : Bytes}

/-! ### `IndexOf` -/

section IndexOf

variable {max : ℕ}

/-- One round at the buffer `c`. -/
lemma index_round (delim : UInt8) (left : ℕ) {c br : ℕ} (hb : (s.heap c).Valid) (hmore : br < max) :
    indexRound s delim max ⟨c, br, left⟩ =
      (let part := (s.heap c).unread.take left
       let off := part.findIdx (· == delim)
       if off ≠ part.length then .exit (br + off)
       else .next ⟨if (s.heap c).readPos + part.length = kBufferLength then (s.heap c).next else c,
         br + off, left - off⟩) := by
  have hlen : ((s.heap c).unread.take left).length =
      min ((s.heap c).writePos - (s.heap c).readPos) left := by
    rw [List.length_take, hb.length_unread, min_comm]
  have htake : ((s.heap c).data.drop (s.heap c).readPos).take
      (min ((s.heap c).writePos - (s.heap c).readPos) left) = (s.heap c).unread.take left := by
    rw [Buffer.take_unread _ (min_le_left _ _), ← hb.length_unread, min_comm,
      ← List.take_eq_take_min]
  simp only [indexRound, if_pos hmore, if_pos hb.read_le, htake, hlen]

lemma index_exit {delim : UInt8} {c left : ℕ} :
    indexRound s delim max ⟨c, max, left⟩ = .exit max := by
  rw [indexRound, if_neg (lt_irrefl _), if_pos rfl]

/-- The loop ends at the buffer `c`, or finds nothing in it and goes on. -/
lemma index_buffer (delim : UInt8) {c br left : ℕ} (hb : (s.heap c).Valid) (rest : Bytes)
    (hmax : max = br + min left ((s.heap c).unread ++ rest).length) :
    Exits (indexRound s delim max) ⟨c, br, left⟩
      (br + (((s.heap c).unread ++ rest).take left).findIdx (· == delim)) ∨
    (s.heap c).unread.length < left ∧ rest ≠ [] ∧
      (s.heap c).unread.findIdx (· == delim) = (s.heap c).unread.length ∧
      indexRound s delim max ⟨c, br, left⟩ =
        .next ⟨if (s.heap c).writePos = kBufferLength then (s.heap c).next else c,
          br + (s.heap c).unread.length, left - (s.heap c).unread.length⟩ := by
  have hu := hb.length_unread
  have hread := hb.read_le
  set u := (s.heap c).unread with hudef
  rw [List.length_append] at hmax
  rcases Nat.lt_or_ge br max with hmore | hdone
  · have hround := index_round delim left hb hmore
    rw [← hudef] at hround
    simp only at hround
    rcases Nat.lt_or_ge u.length left with hlong | hshort
    · -- all of the buffer is looked at
      rw [List.take_of_length_le hlong.le] at hround
      have hsplit : (u ++ rest).take left = u ++ rest.take (left - u.length) := by
        rw [List.take_append, List.take_of_length_le hlong.le]
      rcases Nat.lt_or_ge (u.findIdx (· == delim)) u.length with hfound | hall
      · refine .inl (.exit ?_)
        rw [hround, if_pos hfound.ne, hsplit, List.findIdx_append, if_pos hfound]
      · have hall := le_antisymm List.findIdx_le_length hall
        rw [hall, if_neg (not_not.mpr rfl)] at hround
        have hwrite : (s.heap c).readPos + u.length = (s.heap c).writePos := by omega
        rw [hwrite] at hround
        rcases eq_or_ne rest [] with rfl | hrest
        · have hend : br + u.length = max := by
            rw [List.length_nil] at hmax
            omega
          refine .inl (.next hround ?_)
          rw [List.append_nil, List.take_of_length_le hlong.le, hall, hend]
          exact .exit index_exit
        · exact .inr ⟨hlong, hrest, hall, hround⟩
    · -- the limit is within it
      have hend : br + left = max := by omega
      have htake : (u ++ rest).take left = u.take left := List.take_append_of_le_length hshort
      have hlen : (u.take left).length = left := by
        rw [List.length_take, min_eq_left hshort]
      rw [hlen] at hround
      refine .inl ?_
      rw [htake]
      rcases eq_or_ne ((u.take left).findIdx (· == delim)) left with hall | hfound
      · rw [hall, if_neg (not_not.mpr rfl), hend] at hround
        rw [hall, hend]
        exact .next hround (.exit index_exit)
      · rw [if_pos hfound] at hround
        exact .exit hround
  · have hnone : (u ++ rest).take left = [] := by
      rw [List.take_eq_nil_iff]
      rcases eq_or_ne left 0 with h0 | hpos
      · exact .inl h0
      · refine .inr (List.eq_nil_of_length_eq_zero ?_)
        rw [List.length_append]
        omega
    obtain rfl : br = max := by omega
    rw [hnone]
    exact .inl (.exit index_exit)

/-- The loop over the buffers from `c` on. -/
lemma index_ring (delim : UInt8) {c : ℕ} {post : List ℕ}
    (hchain : (c :: post).IsChain fun a b => (s.heap a).next = b)
    (hvalid : ∀ a ∈ c :: post, (s.heap a).Valid)
    (hfull : ∀ a ∈ (c :: post).dropLast, (s.heap a).writePos = kBufferLength) (br left : ℕ)
    (hmax : max = br + min left (s.unread (c :: post)).length) :
    Exits (indexRound s delim max) ⟨c, br, left⟩
      (br + ((s.unread (c :: post)).take left).findIdx (· == delim)) := by
  induction post generalizing c br left with
  | nil =>
    rcases index_buffer delim (hvalid c (by simp)) (s.unread []) hmax with h | ⟨-, h, -⟩
    · exact h
    · exact absurd rfl h
  | cons c' post ih =>
    rcases index_buffer delim (hvalid c (by simp)) (s.unread (c' :: post)) hmax with
      h | ⟨hlong, -, hall, hround⟩
    · exact h
    · rw [List.isChain_cons_cons] at hchain
      rw [List.dropLast_cons_of_ne_nil (by simp)] at hfull
      rw [if_pos (hfull c (by simp)), hchain.1] at hround
      rw [Bio.unread_cons, List.length_append] at hmax
      have hrest := ih hchain.2 (fun a ha => hvalid a (List.mem_cons_of_mem _ ha))
        (fun a ha => hfull a (List.mem_cons_of_mem _ ha)) (br + (s.heap c).unread.length)
        (left - (s.heap c).unread.length) (by omega)
      have hsum : br + ((s.unread (c :: c' :: post)).take left).findIdx (· == delim) =
          br + (s.heap c).unread.length +
            ((s.unread (c' :: post)).take (left - (s.heap c).unread.length)).findIdx
              (· == delim) := by
        rw [Bio.unread_cons s c, List.take_append, List.take_of_length_le hlong.le,
          List.findIdx_append,
          if_neg (by omega)]
        omega
      rw [hsum]
      exact .next hround hrest

/-- In a ring that is not dry the buffers before the last are full. -/
lemma Ring.full_of_not_dry {h : ℕ} {t free : List ℕ} (hr : Ring s h t free) (hs : s.Settled t)
    (hlength : s.length = (s.unread (h :: t)).length) (hdry : ¬ s.Dry) :
    ∀ a ∈ (h :: t).dropLast, (s.heap a).writePos = kBufferLength := by
  intro a ha
  rcases hr.full a ha with hfull | ⟨rfl, hzero⟩
  · exact hfull
  · exfalso
    rcases t with _ | ⟨h', t⟩
    · simp at ha
    · have hb := hr.valid a (by simp)
      have hb' := hr.valid h' (by simp)
      have hpos := hs h' (by simp)
      have hstart := hr.unread_start h' (by simp)
      have hu := hb'.length_unread
      have hread := hb.read_le
      refine hdry ⟨?_, ?_⟩
      · rw [hr.head]
        omega
      · rw [hlength, Bio.unread_cons, Bio.unread_cons, List.length_append, List.length_append]
        omega

/-- `IndexOf` finds the first delimiter, unless the buffer at the read head is drained. -/
lemma Holds.indexOf (hs : Holds s q) (delim : UInt8) {limit : ℕ} (h : ¬ (s.Dry ∧ 0 < limit)) :
    IndexOf s delim limit ((q.take limit).findIdx (· == delim)) := by
  obtain ⟨hlength, c, t, free, ring, settled, hunread⟩ := hs
  have hmax : (if s.length > limit then limit else s.length) = 0 + min limit q.length := by
    rw [hlength]
    split_ifs <;> omega
  unfold IndexOf
  rw [ring.head]
  rcases Nat.eq_zero_or_pos limit with rfl | hpos
  · rw [hmax, List.take_zero, Nat.zero_min]
    exact .exit index_exit
  · have hdry : ¬ s.Dry := fun hdry => h ⟨hdry, hpos⟩
    have hchain : (c :: t).IsChain fun a b => (s.heap a).next = b := by
      have hlinked := ring.linked
      rw [List.append_assoc, List.isChain_append] at hlinked
      exact hlinked.1
    have hexits := index_ring delim hchain
      (fun a ha => ring.valid a (List.mem_append_left _ ha))
      (ring.full_of_not_dry settled (by rw [hunread, hlength]) hdry) 0 limit
      (by rw [hunread])
    rw [Nat.zero_add, Nat.zero_add, hunread] at hexits
    rw [hmax, Nat.zero_add]
    exact hexits

/-- At a drained buffer it runs for ever. -/
lemma Holds.not_indexOf (hs : Holds s q) (delim : UInt8) {limit : ℕ} (hdry : s.Dry)
    (hpos : 0 < limit) (i : ℕ) :
    ¬ IndexOf s delim limit i := by
  obtain ⟨hlength, c, t, free, ring, settled, hunread⟩ := hs
  obtain ⟨hdrained, hsome⟩ := hdry
  have hb := ring.valid c (by simp)
  rw [ring.head] at hdrained
  have hzero := hb.drained hdrained
  have hnil : (s.heap c).unread = [] := by
    refine List.eq_nil_of_length_eq_zero ?_
    rw [hb.length_unread]
    omega
  have hmax : 0 < if s.length > limit then limit else s.length := by
    split_ifs <;> omega
  refine not_exits_of_next (fun t => t = ⟨c, 0, limit⟩) ?_ (by rw [ring.head]) i
  rintro _ rfl
  refine ⟨_, ?_, rfl⟩
  have hne : (s.heap c).readPos ≠ kBufferLength := by
    have := kBufferLength_pos
    omega
  rw [index_round delim limit hb hmax, hnil]
  simp [hne]

end IndexOf

/-! ### `Reset` -/

section Reset

/-- All buffers are empty: the next one can be the one that is read and written. -/
lemma Ring.rotate {h : ℕ} {free : List ℕ} (hr : Ring s h [] free)
    (hempty : (s.heap h).writePos = 0) :
    ∃ free', Ring { s with readHead := (s.heap h).next, writeHead := (s.heap h).next }
      (s.heap h).next [] free' := by
  rcases free with _ | ⟨f, free⟩
  · have hnext : (s.heap h).next = h := by simpa using hr.linked
    rw [hnext]
    obtain ⟨h1, h2, h3, h4, h5, h6, h7, h8, h9⟩ := hr
    exact ⟨[], rfl, rfl, h3, h4, h5, h6, h7, h8, h9⟩
  · have hperm : ([f] ++ (free ++ [h])).Perm (h :: f :: free) := by
      rw [← List.append_assoc]
      exact List.perm_append_singleton _ _
    have hlinked := hr.linked
    simp only [List.cons_append, List.nil_append, List.isChain_cons_cons] at hlinked
    rw [hlinked.1]
    refine ⟨free ++ [h], rfl, rfl, hperm.nodup_iff.mpr hr.nodup,
      fun a ha => hr.alloc a (hperm.mem_iff.mp ha), ?_,
      fun a ha => hr.valid a (hperm.mem_iff.mp ha), ?_, by simp, by simp⟩
    · have hchain : (f :: free ++ [h]).IsChain fun a b => (s.heap a).next = b := hlinked.2
      have hsplit : [f] ++ (free ++ [h]) ++ [f] = (f :: free ++ [h]) ++ [f] := by simp
      rw [hsplit, List.isChain_append]
      refine ⟨hchain, .singleton _, fun x hx y hy => ?_⟩
      rw [Option.mem_def, List.getLast?_concat] at hx
      obtain rfl := Option.some.inj hx
      obtain rfl : f = y := by simpa using hy
      exact hlinked.1
    · intro a ha
      rcases List.mem_append.mp ha with ha | ha
      · exact hr.free_empty a (List.mem_cons_of_mem _ ha)
      · obtain rfl : a = h := by simpa using ha
        exact hempty

lemma reset_exit (hdrained : (s.heap s.readHead).readPos = (s.heap s.readHead).writePos)
    (hlength : s.length = 0) : Resets s { s with writeHead := s.readHead } := by
  refine .exit ?_
  simp only [resetRound, if_neg (not_not.mpr hdrained), if_pos hlength]

/-- One round, at a buffer that is not drained. -/
lemma reset_round {h : ℕ} {t free : List ℕ} (hr : Ring s h t free)
    (hsome : (s.heap h).readPos ≠ (s.heap h).writePos) :
    resetRound s = .next { s.store h { s.heap h with readPos := 0, writePos := 0 } with
      length := s.length - (s.heap h).unread.length
      readHead := (s.heap h).next } := by
  have hb := hr.valid h (by simp)
  have hlt : (s.heap h).writePos > (s.heap h).readPos := lt_of_le_of_ne hb.read_le hsome
  simp only [resetRound, hr.head, ne_eq, hsome, not_false_eq_true, if_true, if_pos hlt,
    hb.length_unread]

/-- Buffer by buffer, as long as none is drained. -/
lemma reset_ring {h : ℕ} {t free : List ℕ} (hr : Ring s h t free)
    (hsome : ∀ a ∈ h :: t, (s.heap a).readPos ≠ (s.heap a).writePos)
    (hlength : s.length = (s.unread (h :: t)).length) : ∃ s', Resets s s' ∧ Holds s' [] := by
  induction t generalizing s h free with
  | nil =>
    have hround := reset_round hr (hsome h (by simp))
    set b : Buffer := { s.heap h with readPos := 0, writePos := 0 } with hbdef
    have hb := hr.valid h (by simp)
    have hring : Ring (s.store h b) h [] free :=
      hr.store_head rfl ⟨le_rfl, Nat.zero_le _, hb.size, fun _ => rfl⟩ fun _ => .inr rfl
    obtain ⟨free', hrotate⟩ := hring.rotate (by rw [Bio.store_heap_same])
    have hnext : ((s.store h b).heap h).next = (s.heap h).next := by rw [Bio.store_heap_same]
    rw [hnext] at hrotate
    have hzero : s.length - (s.heap h).unread.length = 0 := by
      rw [hlength, Bio.unread_cons, Bio.unread_nil, List.append_nil, Nat.sub_self]
    rw [hzero] at hround
    -- every buffer is empty now, the next one too
    have hempty : ((s.store h b).heap (s.heap h).next).writePos = 0 := by
      have hmem : (s.heap h).next ∈ h :: free := by
        have hlinked := hr.linked
        rcases free with _ | ⟨f, free⟩
        · simpa using hlinked
        · simp only [List.cons_append, List.nil_append, List.isChain_cons_cons] at hlinked
          simp [hlinked.1]
      rcases List.mem_cons.mp hmem with heq | hmem
      · rw [heq, Bio.store_heap_same]
      · exact hring.free_empty _ hmem
    have hread := (hrotate.valid (s.heap h).next (by simp)).read_le
    refine ⟨_, .next hround (reset_exit ?_ rfl), rfl, _, _, _, hrotate.with_length 0, ?_, ?_⟩
    · have hread' : ((s.store h b).heap (s.heap h).next).readPos ≤ _ := hread
      show ((s.store h b).heap (s.heap h).next).readPos = _
      rw [hempty] at hread'
      exact (Nat.le_zero.mp hread').trans hempty.symm
    · intro a ha
      cases ha
    · show (s.store h b).unread [(s.heap h).next] = []
      rw [Bio.unread_cons, Buffer.unread, hempty]
      simp
  | cons h' t ih =>
    have hround := reset_round hr (hsome h (by simp))
    set b : Buffer := { s.heap h with readPos := 0, writePos := 0 } with hbdef
    have hb := hr.valid h (by simp)
    have hring : Ring (s.store h b) h (h' :: t) free :=
      hr.store_head rfl ⟨le_rfl, Nat.zero_le _, hb.size, fun _ => rfl⟩ fun _ => .inr rfl
    have hadvance := hring.advance (by rw [Bio.store_heap_same])
    have hnext : ((s.store h b).heap h).next = (s.heap h).next := by rw [Bio.store_heap_same]
    rw [hnext] at hadvance
    have hold : ∀ a ∈ h' :: t, (s.store h b).heap a = s.heap a := fun a ha =>
      s.store_heap_ne b (hr.ne_of_tail (List.mem_append_left _ ha))
    have hunread : (s.store h b).unread (h' :: t) = s.unread (h' :: t) := Bio.unread_congr hold
    have hrest : ∃ s', Resets { s.store h b with
        length := s.length - (s.heap h).unread.length
        readHead := (s.heap h).next } s' ∧ Holds s' [] := by
      refine ih (hadvance.with_length (s.length - (s.heap h).unread.length)) (fun a ha => ?_) ?_
      · show ((s.store h b).heap a).readPos ≠ ((s.store h b).heap a).writePos
        rw [hold a ha]
        exact hsome a (List.mem_cons_of_mem _ ha)
      · show s.length - (s.heap h).unread.length = ((s.store h b).unread (h' :: t)).length
        rw [hunread, hlength, Bio.unread_cons s h, List.length_append, Nat.add_sub_cancel_left]
    obtain ⟨s', hresets, hholds⟩ := hrest
    exact ⟨s', .next hround hresets, hholds⟩

/-- `Reset` completes, and empties the queue, unless the buffer at the read head is drained. -/
lemma Holds.resets (hs : Holds s q) (hdry : ¬ s.Dry) : ∃ s', Resets s s' ∧ Holds s' [] := by
  obtain ⟨hlength, h, t, free, ring, settled, hunread⟩ := hs
  have htail : ∀ a ∈ t, (s.heap a).readPos ≠ (s.heap a).writePos := by
    intro a ha
    have hstart := ring.unread_start a ha
    have hpos := settled a ha
    omega
  rcases eq_or_ne (s.heap h).readPos (s.heap h).writePos with hdrained | hsome
  · -- nothing is unread
    have hzero : s.length = 0 := by
      by_contra hne
      exact hdry ⟨by rw [ring.head]; exact hdrained, Nat.pos_of_ne_zero hne⟩
    have hq : q = [] := List.eq_nil_of_length_eq_zero (by omega)
    have ht : t = [] := by
      rcases t with _ | ⟨h', t⟩
      · rfl
      · exfalso
        have hb' := (ring.valid h' (by simp)).length_unread
        have hread := (ring.valid h' (by simp)).read_le
        have hne := htail h' (by simp)
        have hlen := congrArg List.length hunread
        rw [hq, Bio.unread_cons, Bio.unread_cons, List.length_append, List.length_append,
          List.length_nil] at hlen
        omega
    subst ht hq
    have hhead := ring.head
    refine ⟨_, reset_exit (by rw [hhead]; exact hdrained) hzero, hzero, h, [], free, ?_, settled,
      hunread⟩
    obtain ⟨h1, h2, h3, h4, h5, h6, h7, h8, h9⟩ := ring
    exact ⟨h1, by simp [hhead], h3, h4, h5, h6, h7, h8, h9⟩
  · refine reset_ring ring (fun a ha => ?_) (by rw [hunread, hlength])
    rcases List.mem_cons.mp ha with rfl | ha
    · exact hsome
    · exact htail a ha

lemma not_resets (hdry : s.Dry) (s' : Bio) : ¬ Resets s s' := by
  obtain ⟨hdrained, hpos⟩ := hdry
  have habort : resetRound s = .abort := by
    simp only [resetRound, if_neg (not_not.mpr hdrained), if_neg hpos.ne']
  intro h
  rcases h with h | ⟨h, -⟩ <;> rw [habort] at h <;> cases h

end Reset

end NodeCore.NodeBio
