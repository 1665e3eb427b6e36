import NodeCore.NodeBioRing

/-!
A `NodeBIO` is a queue of bytes.

`Op.spec` is what an operation does to a queue. Every `Write` and every `Read` completes on a ring
and does that; `Gets` and `Reset` do it where they complete.
-/

namespace NodeCore.NodeBio

open NodeCore.Encoding NodeCore.Loop

/-- An operation on a queue. -/
def Op.spec (q : Bytes) : Op → Res × Bytes
  | .write data => (.done, q ++ data)
  | .read copy size => (.bytes (min size q.length) (if copy then q.take size else []), q.drop size)
  | .gets size =>
    if q.length = 0 then (.line 0 [], q)
    else
      let n := getsCount size ((q.take (toSize size)).findIdx (· == 10))
      (.line n (q.take (toSize n)), q.drop (toSize n))
  | .reset => (.done, [])

/-- All operations, from the queue `q` on. -/
def specRun : Bytes → List Op → List Res × Bytes
  | q, [] => ([], q)
  | q, op :: ops =>
    let (res, q') := op.spec q
    let (ress, q'') := specRun q' ops
    (res :: ress, q'')

/-! ### `Read` -/

section Read

variable {copy : Bool} {expected size : ℕ} {q : Bytes}

lemma Buffer.take_unread (b : Buffer) {n : ℕ} (h : n ≤ b.writePos - b.readPos) :
    (b.data.drop b.readPos).take n = b.unread.take n := by
  rw [Buffer.unread, List.drop_take, List.take_take, min_eq_left h]

/-- The loop has `expected` bytes to go at the ring. -/
structure ReadAt (copy : Bool) (expected size : ℕ) (q : Bytes) (h : ℕ) (t free : List ℕ)
    (r : Reading) : Prop where
  ring : Ring r.bio h t free
  settled : r.bio.Settled t
  length : r.bio.length = q.length
  goal : expected = min size q.length
  bytesRead : r.bytesRead ≤ expected
  left : r.left = size - r.bytesRead
  unread : r.bio.unread (h :: t) = q.drop r.bytesRead
  out : r.out = if copy then q.take r.bytesRead else []

/-- What `Read` leaves. -/
def ReadEnd (copy : Bool) (size : ℕ) (q : Bytes) (r : Reading) : Prop :=
  r.bytesRead = min size q.length ∧ r.out = (if copy then q.take size else []) ∧
    Holds { r.bio with length := r.bio.length - r.bytesRead } (q.drop size)

lemma ReadAt.exit {h : ℕ} {t free : List ℕ} {r : Reading}
    (hr : ReadAt copy expected size q h t free r)
    (hdone : r.bytesRead = expected) :
    Exits (readRound copy expected) r r ∧ ReadEnd copy size q r := by
  have hexp := hr.goal
  have htake : q.take r.bytesRead = q.take size := by
    rw [hdone, hexp]
    exact List.take_eq_take_min.symm
  have hdrop : q.drop r.bytesRead = q.drop size := by
    have h1 := List.take_append_drop r.bytesRead q
    have h2 := List.take_append_drop size q
    rw [htake] at h1
    exact List.append_cancel_left (h1.trans h2.symm)
  refine ⟨.exit ?_, by omega, ?_, ?_, h, t, free, ?_, hr.settled, ?_⟩
  · rw [readRound, if_neg (by omega), if_pos hdone.symm]
  · rw [hr.out, htake]
  · show r.bio.length - r.bytesRead = _
    rw [hr.length, List.length_drop]
    omega
  · exact hr.ring.with_length _
  · show r.bio.unread (h :: t) = _
    rw [hr.unread, hdrop]

lemma Ring.head_full {s : Bio} {h : ℕ} {t free : List ℕ} (hr : Ring s h t free) (ht : t ≠ []) :
    (s.heap h).writePos = kBufferLength ∨ (s.heap h).writePos = 0 := by
  refine (hr.full h ?_).imp_right And.right
  rw [List.dropLast_cons_of_ne_nil ht]
  exact List.mem_cons_self

/-- What is left of the head buffer and of the others when `n` bytes of it are read. -/
lemma drop_head {s : Bio} {h n k : ℕ} {t : List ℕ} (hq : s.unread (h :: t) = q.drop k)
    (hn : n ≤ (s.heap h).unread.length) :
    (s.heap h).unread.drop n ++ s.unread t = q.drop (k + n) := by
  rw [← List.drop_drop, ← hq, Bio.unread_cons, List.drop_append_of_le_length hn]

lemma take_head {s : Bio} {h n k : ℕ} {t : List ℕ} (hq : s.unread (h :: t) = q.drop k)
    (hn : n ≤ (s.heap h).unread.length) :
    q.take k ++ (s.heap h).unread.take n = q.take (k + n) := by
  have htake : (s.heap h).unread.take n = (q.drop k).take n := by
    rw [← hq, Bio.unread_cons, List.take_append_of_le_length hn]
  rw [htake, List.take_add]

/-- A round either reads all that is wanted, or drains the buffer and goes on to the next. -/
lemma ReadAt.round {h : ℕ} {t free : List ℕ} {r : Reading}
    (hr : ReadAt copy expected size q h t free r) (hmore : r.bytesRead < expected) :
    ∃ r', readRound copy expected r = .next r' ∧
      ((r'.bytesRead = expected ∧ ReadAt copy expected size q h t free r') ∨
        ∃ h' t', t = h' :: t' ∧ ReadAt copy expected size q h' t' (free ++ [h]) r') := by
  obtain ⟨ring, settled, hlength, hgoal, hle, hleft, hunread, hout⟩ := hr
  have hhead := ring.head
  have hb := ring.valid h (by simp)
  have hlen := hb.length_unread
  set b := r.bio.heap h with hbdef
  set avail := min (b.writePos - b.readPos) r.left with havail
  have hroom : b.unread.length ≤ q.length - r.bytesRead := by
    have := congrArg List.length hunread
    rw [Bio.unread_cons, List.length_append, List.length_drop, ← hbdef] at this
    omega
  have hn : avail ≤ b.unread.length := by omega
  have hread_le := hb.read_le
  have hdrop := drop_head hunread hn
  have htake := take_head hunread hn
  have hout' : (if copy then r.out ++ (b.data.drop b.readPos).take avail else r.out) =
      if copy then q.take (r.bytesRead + avail) else [] := by
    rw [b.take_unread (by omega), hout]
    split_ifs
    · exact htake
    · rfl
  have htail : ∀ b' : Buffer, (r.bio.store h b').unread t = r.bio.unread t := fun b' =>
    Bio.unread_congr fun a ha =>
      r.bio.store_heap_ne b' (ring.ne_of_tail (List.mem_append_left _ ha))
  have hsettled : ∀ b' : Buffer, (r.bio.store h b').Settled t := fun b' a ha => by
    rw [r.bio.store_heap_ne b' (ring.ne_of_tail (List.mem_append_left _ ha))]
    exact settled a ha
  rcases eq_or_ne (b.readPos + avail) b.writePos with hdrained | hpart
  · -- the buffer is drained
    set bio := r.bio.store h { b with readPos := 0, writePos := 0 } with hbio
    have hring : Ring bio h t free :=
      ring.store_head rfl ⟨le_rfl, Nat.zero_le _, hb.size, fun _ => rfl⟩ fun _ => .inr rfl
    have hempty : (bio.heap h).unread = [] := by
      rw [hbio, Bio.store_heap_same]
      simp [Buffer.unread]
    have hall : b.unread.drop avail = [] := List.drop_eq_nil_of_le (by omega)
    rw [← hbdef, hall, List.nil_append] at hdrop
    have hround : readRound copy expected r =
        .next ⟨if r.bytesRead + avail ≠ expected then { bio with readHead := b.next } else bio,
          r.bytesRead + avail, r.left - avail,
          if copy then q.take (r.bytesRead + avail) else []⟩ := by
      rw [readRound, if_pos hmore]
      simp only [hhead, ← hbdef, if_pos hread_le, ← havail, if_pos hdrained, hout', hbio]
    rw [hround]
    refine ⟨_, rfl, ?_⟩
    rcases eq_or_ne (r.bytesRead + avail) expected with hdone | hgo
    · rw [if_neg (not_not.mpr hdone)]
      refine .inl ⟨hdone, hring, hsettled _, hlength, hgoal, hdone.le, ?_, ?_, rfl⟩
      · simp only
        omega
      · rw [Bio.unread_cons, hempty, htail]
        exact hdrop
    · -- bytes are left, so the ring goes on
      rw [if_pos hgo]
      rcases t with _ | ⟨h', t⟩
      · have hnil := congrArg List.length hdrop
        rw [Bio.unread_nil, List.length_drop, List.length_nil] at hnil
        omega
      · have hnext : (bio.heap h).next = b.next := by
          rw [hbio, Bio.store_heap_same]
        have hadvance := hring.advance (by rw [hbio, Bio.store_heap_same])
        rw [hnext] at hadvance
        refine .inr ⟨h', t, rfl, hadvance, fun a ha => hsettled _ a (List.mem_cons_of_mem _ ha),
          hlength, hgoal, by simp only; omega, by simp only; omega, ?_, rfl⟩
        exact (htail _).trans hdrop
  · -- less is wanted than the buffer has
    set b' : Buffer := { b with readPos := b.readPos + avail } with hb'
    have hring : Ring (r.bio.store h b') h t free :=
      ring.store_head rfl ⟨by simp only [hb']; omega, hb.write_le, hb.size,
        fun h => absurd h hpart⟩ fun ht => ring.head_full ht
    have hunread' : b'.unread = b.unread.drop avail := by
      rw [hb', Buffer.unread, Buffer.unread, List.drop_drop]
    have hround : readRound copy expected r =
        .next ⟨r.bio.store h b', r.bytesRead + avail, r.left - avail,
          if copy then q.take (r.bytesRead + avail) else []⟩ := by
      rw [readRound, if_pos hmore]
      simp only [hhead, ← hbdef, if_pos hread_le, ← havail, if_neg hpart, hout', hb']
    rw [hround]
    refine ⟨_, rfl, .inl ⟨by simp only; omega, hring, hsettled _, hlength, hgoal,
      by simp only; omega, by simp only; omega, ?_, rfl⟩⟩
    rw [Bio.unread_cons, Bio.store_heap_same, htail, hunread']
    exact hdrop

/-- The loop of `Read` on a ring, buffer by buffer. -/
lemma read_ring {h : ℕ} {t free : List ℕ} {r : Reading}
    (hr : ReadAt copy expected size q h t free r) :
    ∃ r', Exits (readRound copy expected) r r' ∧ ReadEnd copy size q r' := by
  induction t generalizing h free r with
  | nil =>
    rcases hr.bytesRead.eq_or_lt with hdone | hmore
    · exact ⟨r, hr.exit hdone⟩
    · obtain ⟨r', hround, ⟨hdone, hr'⟩ | ⟨h', t', ht, -⟩⟩ := hr.round hmore
      · exact ⟨r', .next hround (hr'.exit hdone).1, (hr'.exit hdone).2⟩
      · cases ht
  | cons h₁ t ih =>
    rcases hr.bytesRead.eq_or_lt with hdone | hmore
    · exact ⟨r, hr.exit hdone⟩
    · obtain ⟨r', hround, ⟨hdone, hr'⟩ | ⟨h', t', ht, hr'⟩⟩ := hr.round hmore
      · exact ⟨r', .next hround (hr'.exit hdone).1, (hr'.exit hdone).2⟩
      · obtain ⟨rfl, rfl⟩ : h₁ = h' ∧ t = t' := by simpa using ht
        obtain ⟨r'', hexits, hend⟩ := ih hr'
        exact ⟨r'', .next hround hexits, hend⟩

/-- `Read` completes, and takes the first bytes of the queue. -/
lemma Holds.reads {s : Bio} (hs : Holds s q) (copy : Bool) (size : ℕ) :
    ∃ s', Reads s copy size (min size q.length) (if copy then q.take size else []) s' ∧
      Holds s' (q.drop size) := by
  obtain ⟨hlength, h, t, free, ring, settled, hunread⟩ := hs
  have hexpected : (if s.length > size then size else s.length) = min size q.length := by
    rw [hlength]
    split_ifs <;> omega
  obtain ⟨r, hexits, hn, hout, hholds⟩ := read_ring (r := ⟨s, 0, size, []⟩)
    (⟨ring, settled, hlength, hexpected, Nat.zero_le _, rfl, hunread, by simp⟩ :
      ReadAt copy _ size q h t free _)
  exact ⟨_, ⟨r, hexits, hn.symm, hout.symm, rfl⟩, hholds⟩

end Read

/-! ### `Write` -/

section Write

variable {q : Bytes}

/-- The buffer takes the bytes. -/
def Buffer.put (b : Buffer) (data : Bytes) : Buffer :=
  { b with
    data := b.data.take b.writePos ++ data ++ b.data.drop (b.writePos + data.length)
    writePos := b.writePos + data.length }

lemma Buffer.Valid.put {b : Buffer} (hb : b.Valid) {data : Bytes}
    (hfit : b.writePos + data.length ≤ kBufferLength) :
    (b.put data).Valid ∧ (b.put data).unread = b.unread ++ data := by
  obtain ⟨hread, hwrite, hsize, hdrained⟩ := hb
  have hpre : (b.data.take b.writePos ++ data).length = b.writePos + data.length := by
    rw [List.length_append, List.length_take]
    omega
  refine ⟨⟨by simp only [Buffer.put]; omega, hfit, ?_, fun h => ?_⟩, ?_⟩
  · simp only [Buffer.put, List.length_append, List.length_take, List.length_drop]
    omega
  · simp only [Buffer.put] at h ⊢
    omega
  · simp only [Buffer.put, Buffer.unread]
    rw [List.take_left' hpre, List.drop_append_of_le_length (by rw [List.length_take]; omega)]

/-- The buffer at the write head takes them. -/
def Bio.put (s : Bio) (data : Bytes) : Bio :=
  { s.store s.writeHead ((s.heap s.writeHead).put data) with length := s.length + data.length }

lemma Bio.put_heap_last (s : Bio) (data : Bytes) :
    (s.put data).heap s.writeHead = (s.heap s.writeHead).put data := Function.update_self _ _ _

lemma Bio.put_heap_ne (s : Bio) (data : Bytes) {a : ℕ} (h : a ≠ s.writeHead) :
    (s.put data).heap a = s.heap a := Function.update_of_ne h _ _

lemma Ring.put {s : Bio} {h : ℕ} {t free : List ℕ} (hr : Ring s h t free) (data : Bytes)
    (hfit : (s.heap s.writeHead).writePos + data.length ≤ kBufferLength) :
    Ring (s.put data) h t free ∧ (s.put data).unread (h :: t) = s.unread (h :: t) ++ data := by
  have hb := hr.valid s.writeHead (List.mem_append_left _ hr.writeHead_mem)
  obtain ⟨hvalid, hunread⟩ := hb.put hfit
  refine ⟨(hr.store_last (b := (s.heap s.writeHead).put data) rfl rfl hvalid).with_length _, ?_⟩
  obtain ⟨pre, hpre⟩ := hr.exists_last
  have hsame : (s.put data).unread pre = s.unread pre := Bio.unread_congr fun a ha =>
    s.put_heap_ne data (hr.ne_writeHead hpre (List.mem_append_left _ ha))
  rw [hpre, Bio.unread_append, Bio.unread_append, hsame]
  simp only [Bio.unread_cons, Bio.unread_nil, List.append_nil, s.put_heap_last, hunread,
    List.append_assoc]

lemma writeRound_nil {s : Bio} : writeRound ⟨s, []⟩ = .exit s := by
  simp [writeRound]

lemma writeRound_last {s : Bio} {data : Bytes} (hne : data ≠ [])
    (hfit : (s.heap s.writeHead).writePos + data.length ≤ kBufferLength) :
    writeRound ⟨s, data⟩ = .next ⟨s.put data, []⟩ := by
  have hle : (s.heap s.writeHead).writePos ≤ kBufferLength := by omega
  have hall : ¬ data.length > kBufferLength - (s.heap s.writeHead).writePos := by omega
  simp only [writeRound, if_pos hne, if_pos hle, if_neg hall, if_pos hfit, List.take_length,
    List.drop_length, ne_eq, not_true_eq_false, if_false]
  rfl

lemma writeRound_more {s : Bio} {data : Bytes} {n : ℕ}
    (hn : (s.heap s.writeHead).writePos + n = kBufferLength) (hlong : n < data.length) :
    writeRound ⟨s, data⟩ = .next ⟨(s.put (data.take n)).extend, data.drop n⟩ := by
  have hle : (s.heap s.writeHead).writePos ≤ kBufferLength := by omega
  have havail : kBufferLength - (s.heap s.writeHead).writePos = n := by omega
  have hne : data ≠ [] := by
    rintro rfl
    simp at hlong
  have hrest : data.drop n ≠ [] := by
    rw [ne_eq, List.drop_eq_nil_iff]
    omega
  have hlen : (data.take n).length = n := by
    rw [List.length_take]
    omega
  simp only [writeRound, if_pos hne, if_pos hle, havail, if_pos hlong, if_pos hn.le, if_pos hn,
    if_pos hrest, Bio.put, Bio.extend, Buffer.put, hlen, Bio.store, Function.update_self]

/-- What a round of `Write` does. -/
lemma writeRound_cases (w : Writing) : writeRound w = .abort ∨
    (w.data = [] ∧ writeRound w = .exit w.bio) ∨
    ((w.bio.heap w.bio.writeHead).writePos + w.data.length ≤ kBufferLength ∧
      writeRound w = .next ⟨w.bio.put w.data, []⟩) ∨
    ∃ n, (w.bio.heap w.bio.writeHead).writePos + n = kBufferLength ∧ n < w.data.length ∧
      writeRound w = .next ⟨(w.bio.put (w.data.take n)).extend, w.data.drop n⟩ := by
  obtain ⟨s, data⟩ := w
  rcases eq_or_ne data [] with rfl | hne
  · exact .inr (.inl ⟨rfl, writeRound_nil⟩)
  · by_cases hle : (s.heap s.writeHead).writePos ≤ kBufferLength
    · obtain ⟨n, hn⟩ := Nat.exists_eq_add_of_le hle
      by_cases hfit : data.length ≤ n
      · have hfit' : (s.heap s.writeHead).writePos + data.length ≤ kBufferLength := by omega
        exact .inr (.inr (.inl ⟨hfit', writeRound_last hne hfit'⟩))
      · have hlong : n < data.length := by omega
        exact .inr (.inr (.inr ⟨n, hn.symm, hlong, writeRound_more hn.symm hlong⟩))
    · left
      simp only [writeRound, if_pos hne, if_neg hle]

/-- The loop has the bytes `w.data` to go; the last buffer may be new. -/
def WriteAt (all : Bytes) (w : Writing) : Prop :=
  w.bio.length + w.data.length = all.length ∧ ∃ h t free, Ring w.bio h t free ∧
    (w.data = [] → w.bio.Settled t) ∧ w.bio.unread (h :: t) ++ w.data = all

/-- A full buffer takes a round that writes nothing. -/
def writeLeft (w : Writing) : ℕ :=
  2 * w.data.length + if (w.bio.heap w.bio.writeHead).writePos = kBufferLength then 1 else 0

/-- The buffers behind the read head are full, but for the last. -/
lemma Ring.settled_of_last {s : Bio} {h : ℕ} {t free : List ℕ} (hr : Ring s h t free)
    (hlast : 0 < (s.heap s.writeHead).writePos) : s.Settled t := by
  intro a ha
  obtain ⟨pre, hpre⟩ := hr.exists_last
  have hmem : a ∈ pre ++ [s.writeHead] := by
    rw [← hpre]
    exact List.mem_cons_of_mem _ ha
  rcases List.mem_append.mp hmem with hmem | hmem
  · rcases hr.full a (by rwa [hpre, List.dropLast_concat]) with hfull | ⟨rfl, -⟩
    · rw [hfull]
      exact kBufferLength_pos
    · exact absurd rfl (hr.ne_of_tail (List.mem_append_left _ ha))
  · obtain rfl : a = s.writeHead := by simpa using hmem
    exact hlast

lemma write_round (all : Bytes) (w : Writing) (hw : WriteAt all w) :
    (∃ w', writeRound w = .next w' ∧ WriteAt all w' ∧ writeLeft w' < writeLeft w) ∨
      ∃ s, writeRound w = .exit s ∧ Holds s all := by
  obtain ⟨s, data⟩ := w
  obtain ⟨hlength, h, t, free, ring, hsettled, hall⟩ := hw
  simp only at hlength ring hsettled hall
  rcases eq_or_ne data [] with rfl | hne
  · refine .inr ⟨s, writeRound_nil, by simpa using hlength, h, t, free, ring, hsettled rfl, ?_⟩
    simpa using hall
  · have hpos := List.length_pos_iff.mpr hne
    have hle := (ring.valid s.writeHead (List.mem_append_left _ ring.writeHead_mem)).write_le
    refine .inl ?_
    rcases Nat.lt_or_ge kBufferLength ((s.heap s.writeHead).writePos + data.length) with
      hlong | hfit
    · -- the buffer is filled, and another one is put behind it
      set n := kBufferLength - (s.heap s.writeHead).writePos with hn
      have hlen : (data.take n).length = n := by
        rw [List.length_take]
        omega
      have hn' : (s.heap s.writeHead).writePos + n = kBufferLength := by omega
      obtain ⟨hring, hunread⟩ := ring.put (data.take n) (by omega)
      have hlast : (s.put (data.take n)).heap (s.put (data.take n)).writeHead =
          (s.heap s.writeHead).put (data.take n) := s.put_heap_last _
      have hfull : ((s.put (data.take n)).heap (s.put (data.take n)).writeHead).writePos =
          kBufferLength := by
        rw [hlast]
        simp only [Buffer.put, hlen]
        exact hn'
      have hnew := Bio.extend_heap_new hring.writeHead_lt
      refine ⟨_, writeRound_more hn' (by omega), ⟨?_, h, _, free, hring.extend hfull, ?_, ?_⟩, ?_⟩
      · show s.length + (data.take n).length + (data.drop n).length = _
        rw [List.length_drop]
        omega
      · intro hnil
        have := congrArg List.length hnil
        rw [List.length_drop, List.length_nil] at this
        omega
      · have hold : (s.put (data.take n)).extend.unread (h :: t) =
            (s.put (data.take n)).unread (h :: t) := by
          refine List.flatMap_congr fun a ha => ?_
          obtain ⟨h1, h2, h3⟩ := hring.extend_heap_old (List.mem_append_left _ ha)
          rw [Buffer.unread, h1, h2, h3, Buffer.unread]
        have hnil : (s.put (data.take n)).extend.unread [(s.put (data.take n)).brk] = [] := by
          rw [Bio.unread_cons, hnew]
          simp [Buffer.new, Buffer.unread]
        show (s.put (data.take n)).extend.unread (h :: (t ++ [(s.put (data.take n)).brk])) ++ _ = _
        rw [← List.cons_append, Bio.unread_append, hold, hunread, hnil, List.append_nil,
          List.append_assoc, List.take_append_drop, hall]
      · have hempty : ((s.put (data.take n)).extend.heap
            (s.put (data.take n)).extend.writeHead).writePos ≠ kBufferLength := by
          have hhead : (s.put (data.take n)).extend.writeHead = (s.put (data.take n)).brk := rfl
          rw [hhead, hnew]
          exact kBufferLength_pos.ne
        simp only [writeLeft, if_neg hempty, List.length_drop]
        split_ifs <;> omega
    · -- the bytes fit
      obtain ⟨hring, hunread⟩ := ring.put data hfit
      refine ⟨_, writeRound_last hne hfit, ⟨?_, h, t, free, hring, fun _ => ?_, ?_⟩, ?_⟩
      · show s.length + data.length + 0 = _
        omega
      · refine hring.settled_of_last ?_
        have hlast : (s.put data).heap (s.put data).writeHead = (s.heap s.writeHead).put data :=
          s.put_heap_last data
        rw [hlast]
        simp only [Buffer.put]
        omega
      · rw [hunread, List.append_nil, hall]
      · simp only [writeLeft, List.length_nil]
        split_ifs <;> omega

/-- `Write` completes, and adds its bytes to the queue. -/
lemma Holds.writes {s : Bio} (hs : Holds s q) (data : Bytes) :
    ∃ s', Writes s data s' ∧ Holds s' (q ++ data) := by
  obtain ⟨hlength, h, t, free, ring, settled, hunread⟩ := hs
  refine exits_of_variant (WriteAt (q ++ data)) writeLeft (fun s' => Holds s' (q ++ data))
    (write_round _) ⟨?_, h, t, free, ring, fun _ => settled, ?_⟩
  · rw [List.length_append, hlength]
  · rw [hunread]

end Write

end NodeCore.NodeBio
