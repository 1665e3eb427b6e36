import Mathlib.Data.List.Nodup
import Mathlib.Data.Set.Insert
import Mathlib.Logic.Function.Basic
import Mathlib.Tactic

/-!
Rings of objects that are linked through two properties of their own (`_linklist.js`). A list is a
ring of a head and the items, and `_idlePrev` leads from the head to the item that has been there
the longest, and on to the one that came last.

`Rings` says what the links of all objects mean: which items are on the ring of which head.
-/

namespace NodeCore.Linklist

open Function

variable {α : Type*}

/-! ### Paths -/

/-- `f` leads from `a` over `l` to `b`. -/
def Path (f : α → Option α) : α → List α → α → Prop
  | a, [], b => f a = some b
  | a, x :: l, b => f a = some x ∧ Path f x l b

section Path

variable {f g : α → Option α} {a b x : α} {l r : List α}

lemma path_append : Path f a (l ++ x :: r) b ↔ Path f a l x ∧ Path f x r b := by
  induction l generalizing a with
  | nil => exact Iff.rfl
  | cons y l ih => simp only [List.cons_append, Path, ih, and_assoc]

lemma Path.congr (h : Path f a l b) (hg : ∀ y ∈ a :: l, g y = f y) : Path g a l b := by
  induction l generalizing a with
  | nil => exact (hg a (List.mem_singleton_self a)).trans h
  | cons y l ih =>
    exact ⟨(hg a List.mem_cons_self).trans h.1, ih h.2 fun z hz => hg z (List.mem_cons_of_mem _ hz)⟩

/-- What follows something on a path is on the path, or its end. -/
lemma Path.succ (h : Path f a l b) {y z : α} (hy : y ∈ a :: l) (hz : f y = some z) :
    z ∈ l ∨ z = b := by
  induction l generalizing a with
  | nil =>
    obtain rfl := List.mem_singleton.mp hy
    exact .inr (Option.some.inj (hz.symm.trans h))
  | cons w l ih =>
    rcases List.mem_cons.mp hy with rfl | hy
    · obtain rfl := Option.some.inj (hz.symm.trans h.1)
      exact .inl List.mem_cons_self
    · exact (ih h.2 hy).imp_left (List.mem_cons_of_mem _)

/-- A path to an end that is not on it is the only one. -/
lemma Path.unique (h : Path f a l b) (hr : Path f a r b) (hb : b ∉ l) (hb' : b ∉ r) : l = r := by
  induction l generalizing a r with
  | nil =>
    cases r with
    | nil => rfl
    | cons y r =>
      obtain rfl := Option.some.inj (h.symm.trans hr.1)
      exact absurd List.mem_cons_self hb'
  | cons x l ih =>
    cases r with
    | nil =>
      obtain rfl := Option.some.inj (hr.symm.trans h.1)
      exact absurd List.mem_cons_self hb
    | cons y r =>
      obtain rfl := Option.some.inj (h.1.symm.trans hr.1)
      rw [ih h.2 hr.2 (fun hc => hb (List.mem_cons_of_mem _ hc)) fun hc =>
        hb' (List.mem_cons_of_mem _ hc)]

variable [DecidableEq α]

instance (f : α → Option α) : ∀ (a : α) (l : List α) (b : α), Decidable (Path f a l b)
  | a, [], b => inferInstanceAs (Decidable (f a = some b))
  | a, x :: l, b =>
    have := instDecidablePath f x l b
    inferInstanceAs (Decidable (f a = some x ∧ Path f x l b))

/-- A path on which nothing leads to `t` stays, whatever is done to what leads there. -/
lemma Path.kept {t : α} {c : Option α} (h : Path f a l b)
    (hg : ∀ y, y ≠ x → g y = if f y = some t then c else f y) (hx : x ∉ a :: l) (ht : t ∉ l)
    (htb : t ≠ b) : Path g a l b := by
  refine h.congr fun y hy => ?_
  have hyx : y ≠ x := fun hc => hx (hc ▸ hy)
  rw [hg y hyx, if_neg]
  intro hc
  rcases h.succ hy hc with hmem | hend
  · exact ht hmem
  · exact htb hend

/-- What led to `x` leads to what follows `x`. -/
lemma Path.skip (hg : ∀ y, y ≠ x → g y = if f y = some x then f x else f y)
    (h : Path f a l x) (hr : Path f x r b) (hl : x ∉ a :: l) (hx : x ∉ r) (hxb : x ≠ b) :
    Path g a (l ++ r) b := by
  induction l generalizing a with
  | nil =>
    have hne : a ≠ x := fun hc => hl (hc ▸ List.mem_cons_self)
    have ha : f a = some x := h
    have hga : g a = f x := by rw [hg a hne, if_pos ha]
    cases r with
    | nil => exact hga.trans hr
    | cons y r =>
      exact ⟨hga.trans hr.1, hr.2.kept hg hx (fun hc => hx (List.mem_cons_of_mem _ hc)) hxb⟩
  | cons y l ih =>
    have hne : a ≠ x := fun hc => hl (hc ▸ List.mem_cons_self)
    have hyx : y ≠ x := fun hc => hl (hc ▸ List.mem_cons_of_mem _ List.mem_cons_self)
    refine ⟨?_, ih h.2 fun hc => hl (List.mem_cons_of_mem _ hc)⟩
    rw [hg a hne, if_neg, h.1]
    rw [h.1]
    exact fun hc => hyx (Option.some.inj hc)

/-- What led to `b` leads to `x`, and `x` to `b`. -/
lemma Path.insert (hx : g x = some b) (hg : ∀ y, y ≠ x → g y = if f y = some b then some x else f y)
    (h : Path f a l b) (hxl : x ∉ a :: l) (hb : b ∉ l) : Path g a (l ++ [x]) b := by
  induction l generalizing a with
  | nil =>
    have hne : a ≠ x := fun hc => hxl (hc ▸ List.mem_cons_self)
    have ha : f a = some b := h
    exact ⟨by rw [hg a hne, if_pos ha], hx⟩
  | cons y l ih =>
    have hne : a ≠ x := fun hc => hxl (hc ▸ List.mem_cons_self)
    refine ⟨?_, ih h.2 (fun hc => hxl (List.mem_cons_of_mem _ hc)) fun hc =>
      hb (List.mem_cons_of_mem _ hc)⟩
    rw [hg a hne, if_neg, h.1]
    rw [h.1]
    exact fun hc => hb (Option.some.inj hc ▸ List.mem_cons_self)

end Path

/-! ### The functions -/

variable [DecidableEq α]

/-- `_idleNext` and `_idlePrev` of every object. Nothing stands for `null` and `undefined`. -/
structure Links (α : Type*) where
  next : α → Option α
  prev : α → Option α

namespace Links

def init (L : Links α) (list : α) : Links α :=
  { next := update L.next list (some list), prev := update L.prev list (some list) }

def peek (L : Links α) (list : α) : Option α :=
  if L.prev list = some list then none else L.prev list

def setPrev (L : Links α) (a : Option α) (b : Option α) : Links α :=
  match a with
  | none => L
  | some a => { L with prev := update L.prev a b }

def setNext (L : Links α) (a : Option α) (b : Option α) : Links α :=
  match a with
  | none => L
  | some a => { L with next := update L.next a b }

def remove (L : Links α) (item : α) : Links α :=
  let L := L.setPrev (L.next item) (L.prev item)
  let L := L.setNext (L.prev item) (L.next item)
  (L.setNext (some item) none).setPrev (some item) none

/-- `first` and what is left; nothing where `list` has no links, and `remove` throws. -/
def shift (L : Links α) (list : α) : Option (α × Links α) :=
  (L.prev list).map fun first => (first, L.remove first)

/-- `list._idleNext._idlePrev = item` throws where `list` has no links; no such list is used. -/
def append (L : Links α) (list item : α) : Links α :=
  let L := L.remove item
  let L := L.setNext (some item) (L.next list)
  let L := L.setPrev (L.next list) (some item)
  let L := L.setPrev (some item) (some list)
  L.setNext (some list) (some item)

def isEmpty (L : Links α) (list : α) : Prop := L.next list = some list

instance (L : Links α) (list : α) : Decidable (L.isEmpty list) := by
  unfold isEmpty; infer_instance

end Links

/-- Nothing is linked. -/
def unlinked : Links α := { next := fun _ => none, prev := fun _ => none }

/-! ### What the functions do to the links -/

/-- The two links of an object are those of its neighbours. -/
structure Mutual (L : Links α) : Prop where
  next_iff : ∀ a b, L.next a = some b ↔ L.prev b = some a
  both : ∀ a, L.next a = none ↔ L.prev a = none

namespace Links

variable (L : Links α) (x y : α)

@[simp] lemma setPrev_next (a b : Option α) : (L.setPrev a b).next = L.next := by
  cases a <;> rfl

@[simp] lemma setNext_prev (a b : Option α) : (L.setNext a b).prev = L.prev := by
  cases a <;> rfl

lemma setPrev_prev (a b : Option α) (y : α) :
    (L.setPrev a b).prev y = if a = some y then b else L.prev y := by
  cases a with
  | none => rfl
  | some a =>
    simp only [setPrev, update_apply, Option.some.injEq, eq_comm (a := a)]

lemma setNext_next (a b : Option α) (y : α) :
    (L.setNext a b).next y = if a = some y then b else L.next y := by
  cases a with
  | none => rfl
  | some a =>
    simp only [setNext, update_apply, Option.some.injEq, eq_comm (a := a)]

lemma remove_next : (L.remove x).next y =
    if y = x then none else if L.prev x = some y then L.next x else L.next y := by
  have hprev : (L.setPrev (L.next x) (L.prev x)).prev x = L.prev x := by
    rw [setPrev_prev, ite_self]
  simp only [remove, setPrev_next, setNext_next, Option.some.injEq, hprev, eq_comm (a := x)]

lemma remove_prev : (L.remove x).prev y =
    if y = x then none else if L.next x = some y then L.prev x else L.prev y := by
  simp only [remove, setNext_prev, setPrev_prev, Option.some.injEq, eq_comm (a := x)]

end Links

lemma Mutual.remove {L : Links α} (h : Mutual L) (x : α) : Mutual (L.remove x) := by
  have hself : L.next x = some x ↔ L.prev x = some x := h.next_iff x x
  refine ⟨fun a b => ?_, fun a => ?_⟩
  · rw [Links.remove_next, Links.remove_prev]
    have ha := h.next_iff a b
    have hax := h.next_iff a x
    have hxb := h.next_iff x b
    by_cases hxa : a = x
    · subst hxa
      grind
    · by_cases hbx : b = x
      · subst hbx
        grind
      · grind
  · rw [Links.remove_next, Links.remove_prev]
    have ha := h.both a
    have hx := h.both x
    have hnx := h.next_iff x a
    have hax := h.next_iff a x
    grind

/-- `M` has the links of `L` but for `item`, which now leads to `list`. -/
structure Inserted (L M : Links α) (list item : α) : Prop where
  itself : M.prev item = some list
  rest : ∀ y, y ≠ item → M.prev y = if L.prev y = some list then some item else L.prev y
  links : Mutual M

lemma Mutual.append {L : Links α} (h : Mutual L) {list item : α} (hne : item ≠ list)
    (hlist : (L.remove item).next list ≠ none) :
    Inserted (L.remove item) (L.append list item) list item := by
  have hm := h.remove item
  have hn : (L.remove item).next item = none := by rw [Links.remove_next, if_pos rfl]
  have hp : (L.remove item).prev item = none := by rw [Links.remove_prev, if_pos rfl]
  obtain ⟨n, hnext⟩ := Option.ne_none_iff_exists'.mp hlist
  set K := L.remove item with hK
  have hni : n ≠ item := by
    rintro rfl
    rw [hm.next_iff, hp] at hnext
    cases hnext
  have hnext' (y : α) : (L.append list item).next y =
      if y = list then some item else if y = item then some n else K.next y := by
    simp only [Links.append, ← hK, Links.setNext_next, Links.setPrev_next, Option.some.injEq,
      hnext, eq_comm (b := y)]
  have hprev' (y : α) : (L.append list item).prev y =
      if y = item then some list else if y = n then some item else K.prev y := by
    simp only [Links.append, ← hK, Links.setPrev_prev, Links.setNext_prev, Links.setNext_next,
      Option.some.injEq, hnext, if_neg hne, eq_comm (b := y)]
  refine ⟨by rw [hprev', if_pos rfl], fun y hy => ?_, fun a b => ?_, fun a => ?_⟩
  · have hy' : K.prev y = some list ↔ y = n := by
      rw [← hm.next_iff, hnext, Option.some.injEq, eq_comm]
    rw [hprev', if_neg hy]
    simp only [hy']
  · rw [hnext', hprev']
    have hab := hm.next_iff a b
    have hln := hm.next_iff list b
    have ha := hm.next_iff a item
    have hb := hm.next_iff item b
    have hann := hm.next_iff a n
    grind
  · rw [hnext', hprev']
    have ha := hm.both a
    have hl := hm.both list
    have hnl := (hm.next_iff list n).mp hnext
    grind

lemma Mutual.init {L : Links α} (h : Mutual L) {a : α} (ha : L.next a = none) :
    Mutual (L.init a) := by
  have hp := (h.both a).mp ha
  refine ⟨fun b c => ?_, fun b => ?_⟩
  · simp only [Links.init, update_apply]
    have hbc := h.next_iff b c
    have hba := h.next_iff b a
    have hac := h.next_iff a c
    grind
  · simp only [Links.init, update_apply]
    have hb := h.both b
    grind

/-! #### Objects without links -/

lemma Mutual.next_remove {L : Links α} (h : Mutual L) {x y : α} (hy : L.next y = none) :
    (L.remove x).next y = none := by
  rw [Links.remove_next]
  by_cases hyx : y = x
  · rw [if_pos hyx]
  · rw [if_neg hyx, if_neg, hy]
    intro hc
    have := (h.both y).mp hy
    rw [← h.next_iff] at hc
    rw [hc] at hy
    cases hy

lemma Links.next_init {L : Links α} {x y : α} (hyx : y ≠ x) (hy : L.next y = none) :
    (L.init x).next y = none := (update_of_ne hyx _ _).trans hy

lemma Mutual.next_append {L : Links α} (h : Mutual L) {x y z : α} (hyx : y ≠ x) (hyz : y ≠ z)
    (hy : L.next y = none) : (L.append z x).next y = none := by
  have hrem := h.next_remove (x := x) hy
  simp only [Links.append, Links.setNext_next, Links.setPrev_next, Option.some.injEq]
  rw [if_neg (Ne.symm hyz), if_neg (Ne.symm hyx), hrem]

/-! ### Rings -/

/-- Each of the `heads` has the ring of items that `ring` says, the one that has been there the
longest first, and no item is on two. -/
structure Rings (L : Links α) (heads : Set α) (ring : α → List α) : Prop where
  links : Mutual L
  path : ∀ h ∈ heads, Path L.prev h (ring h) h
  nodup : ∀ h ∈ heads, (ring h).Nodup
  item : ∀ h ∈ heads, ∀ x ∈ ring h, x ∉ heads
  apart : ∀ h ∈ heads, ∀ h' ∈ heads, ∀ x ∈ ring h, x ∈ ring h' → h = h'

/-- The ring of `h` is `xs`, whatever else there is. -/
def Ring (L : Links α) (h : α) (xs : List α) : Prop := h ∉ xs ∧ Path L.prev h xs h

instance (L : Links α) (h : α) (xs : List α) : Decidable (Ring L h xs) := by
  unfold Ring; infer_instance

namespace Rings

variable {L : Links α} {heads : Set α} {ring : α → List α} {h x : α}

omit [DecidableEq α] in
lemma head_notMem (r : Rings L heads ring) (hh : h ∈ heads) {h' : α} (hh' : h' ∈ heads) :
    h ∉ ring h' := fun hc => r.item h' hh' h hc hh

omit [DecidableEq α] in
lemma ring_iff (r : Rings L heads ring) (hh : h ∈ heads) {xs : List α} :
    Ring L h xs ↔ xs = ring h := by
  constructor
  · rintro ⟨hn, hp⟩
    exact hp.unique (r.path h hh) hn (r.head_notMem hh hh)
  · rintro rfl
    exact ⟨r.head_notMem hh hh, r.path h hh⟩

omit [DecidableEq α] in
lemma congr (r : Rings L heads ring) {ring' : α → List α} (h : ∀ h ∈ heads, ring h = ring' h) :
    Rings L heads ring' := by
  refine ⟨r.links, fun a ha => ?_, fun a ha => ?_, fun a ha => ?_, fun a ha b hb => ?_⟩
  · exact h a ha ▸ r.path a ha
  · exact h a ha ▸ r.nodup a ha
  · exact h a ha ▸ r.item a ha
  · rw [← h a ha, ← h b hb]
    exact r.apart a ha b hb

lemma peek (r : Rings L heads ring) (hh : h ∈ heads) : L.peek h = (ring h).head? := by
  have hp := r.path h hh
  have hn := r.head_notMem hh hh
  rw [Links.peek]
  cases hr : ring h with
  | nil =>
    rw [hr] at hp
    exact if_pos hp
  | cons y l =>
    rw [hr] at hp hn
    rw [if_neg, hp.1]
    · rfl
    · rw [hp.1]
      exact fun hc => hn (Option.some.inj hc ▸ List.mem_cons_self)

/-- The item that has been there the longest is taken out. -/
lemma shift (r : Rings L heads ring) (hh : h ∈ heads) {y : α} {l : List α} (hr : ring h = y :: l) :
    L.shift h = some (y, L.remove y) := by
  have hp := r.path h hh
  rw [hr] at hp
  rw [Links.shift, hp.1]
  rfl

omit [DecidableEq α] in
lemma isEmpty_iff (r : Rings L heads ring) (hh : h ∈ heads) : L.isEmpty h ↔ ring h = [] := by
  rw [Links.isEmpty, r.links.next_iff]
  have hp := r.path h hh
  have hn := r.head_notMem hh hh
  cases hr : ring h with
  | nil =>
    rw [hr] at hp
    exact iff_of_true hp rfl
  | cons y l =>
    rw [hr] at hp hn
    refine iff_of_false (fun hc => ?_) (List.cons_ne_nil y l)
    rw [hp.1] at hc
    exact hn (Option.some.inj hc ▸ List.mem_cons_self)

lemma remove (r : Rings L heads ring) (hx : x ∉ heads) :
    Rings (L.remove x) heads fun h => (ring h).erase x := by
  have hg (y : α) (hy : y ≠ x) : (L.remove x).prev y =
      if L.prev y = some x then L.prev x else L.prev y := by
    rw [Links.remove_prev, if_neg hy]
    simp only [r.links.next_iff]
  refine ⟨r.links.remove x, fun h hh => ?_, fun h hh => (r.nodup h hh).erase x,
    fun h hh y hy => r.item h hh y (List.mem_of_mem_erase hy),
    fun h hh h' hh' y hy hy' => r.apart h hh h' hh' y (List.mem_of_mem_erase hy)
      (List.mem_of_mem_erase hy')⟩
  have hp := r.path h hh
  have hxh : x ≠ h := fun hc => hx (hc ▸ hh)
  by_cases hmem : x ∈ ring h
  · -- Neighbours of `x` are linked with each other.
    obtain ⟨a, b, hab, hna⟩ : ∃ a b, ring h = a ++ x :: b ∧ x ∉ a :=
      List.append_of_mem hmem |>.elim fun a ⟨b, hab⟩ => ⟨a, b, hab, fun hc => by
        have hnd := r.nodup h hh
        rw [hab, List.nodup_append] at hnd
        exact hnd.2.2 x hc x List.mem_cons_self rfl⟩
    have hnd := r.nodup h hh
    have hherase : (ring h).erase x = a ++ b := by
      rw [hab, List.erase_append_right _ hna, List.erase_cons_head]
    rw [hherase]
    rw [hab] at hp hnd
    rw [path_append] at hp
    refine hp.1.skip hg hp.2 ?_ (List.nodup_cons.mp (List.nodup_append.mp hnd).2.1).1 hxh
    rw [List.mem_cons, not_or]
    exact ⟨hxh, hna⟩
  · rw [List.erase_of_not_mem hmem]
    refine hp.kept hg ?_ hmem hxh
    rw [List.mem_cons, not_or]
    exact ⟨hxh, hmem⟩

lemma notMem_remove (r : Rings L heads ring) (hh : h ∈ heads) (x : α) : x ∉ (ring h).erase x :=
  fun hc => ((r.nodup h hh).mem_erase_iff.mp hc).1 rfl

omit [DecidableEq α] in
lemma notMem_path (hx : x ∉ heads) (hnew : ∀ h ∈ heads, x ∉ ring h) (hh : h ∈ heads) :
    x ∉ h :: ring h := by
  rw [List.mem_cons, not_or]
  exact ⟨fun hc => hx (hc ▸ hh), hnew h hh⟩

/-- The path of the ring on which the item is put. -/
lemma path_inserted {M : Links α} {list : α} (r : Rings L heads ring)
    (hi : Inserted L M list x) (hx : x ∉ heads) (hnew : ∀ h ∈ heads, x ∉ ring h) (hh : h ∈ heads)
    {a b : List α} (hab : ring h = a ++ b) (hlist : (b ++ [h]).head? = some list) :
    Path M.prev h (a ++ x :: b) h := by
  have hp := r.path h hh
  have hxh := notMem_path hx hnew hh
  rw [hab] at hp hxh
  rw [← List.cons_append, List.mem_append, not_or] at hxh
  cases b with
  | nil =>
    obtain rfl : h = list := Option.some.inj hlist
    rw [List.append_nil] at hp hab
    exact hp.insert hi.itself hi.rest hxh.1 (hab ▸ r.head_notMem hh hh)
  | cons t b =>
    obtain rfl : t = list := Option.some.inj hlist
    have hnd := r.nodup h hh
    rw [hab, List.nodup_append] at hnd
    rw [path_append] at hp
    have hta : t ∉ a := fun hc => hnd.2.2 t hc t List.mem_cons_self rfl
    have hth : t ≠ h := by
      rintro rfl
      exact r.head_notMem hh hh (hab ▸ List.mem_append_right a List.mem_cons_self)
    rw [List.append_cons, path_append]
    exact ⟨hp.1.insert hi.itself hi.rest hxh.1 hta,
      hp.2.kept hi.rest hxh.2 (List.nodup_cons.mp hnd.2.1).1 hth⟩

/-- The paths of the other rings. -/
lemma path_apart {M : Links α} {list : α} (r : Rings L heads ring) (hi : Inserted L M list x)
    (hx : x ∉ heads) (hnew : ∀ h ∈ heads, x ∉ ring h) (hh : h ∈ heads)
    (hlist : list ∈ ring h ∨ list = h) {h' : α} (hh' : h' ∈ heads) (hne : h' ≠ h) :
    Path M.prev h' (ring h') h' := by
  refine (r.path h' hh').kept hi.rest (notMem_path hx hnew hh') ?_ ?_
  · intro hc
    rcases hlist with hl | hl
    · exact hne (r.apart h' hh' h hh list hc hl)
    · exact r.head_notMem hh hh' (hl ▸ hc)
  · rintro rfl
    rcases hlist with hl | hl
    · exact r.head_notMem hh' hh hl
    · exact hne hl

/-- An item that is on no ring is put on the ring of `h`, before `b`. -/
lemma inserted {M : Links α} {list : α} (r : Rings L heads ring) (hi : Inserted L M list x)
    (hx : x ∉ heads) (hnew : ∀ h ∈ heads, x ∉ ring h) (hh : h ∈ heads) {a b : List α}
    (hab : ring h = a ++ b) (hlist : (b ++ [h]).head? = some list) :
    Rings M heads (update ring h (a ++ x :: b)) := by
  have hlist' : list ∈ ring h ∨ list = h := by
    cases b with
    | nil => exact .inr (Option.some.inj hlist).symm
    | cons t b =>
      obtain rfl : t = list := Option.some.inj hlist
      exact .inl (hab ▸ List.mem_append_right a List.mem_cons_self)
  have hring : ∀ h' ∈ heads, ∀ y ∈ update ring h (a ++ x :: b) h',
      y = x ∧ h' = h ∨ y ∈ ring h' := by
    intro h' _ y hy
    by_cases hne : h' = h
    · subst hne
      rw [update_self, List.mem_append, List.mem_cons] at hy
      rw [hab, List.mem_append]
      tauto
    · rw [update_of_ne hne] at hy
      exact .inr hy
  refine ⟨hi.links, fun h' hh' => ?_, fun h' hh' => ?_, fun h' hh' y hy => ?_,
    fun h₁ hh₁ h₂ hh₂ y hy₁ hy₂ => ?_⟩
  · by_cases hne : h' = h
    · subst hne
      rw [update_self]
      exact r.path_inserted hi hx hnew hh hab hlist
    · rw [update_of_ne hne]
      exact r.path_apart hi hx hnew hh hlist' hh' hne
  · by_cases hne : h' = h
    · subst hne
      rw [update_self, List.nodup_middle, List.nodup_cons, ← hab]
      exact ⟨hnew h' hh, r.nodup h' hh⟩
    · rw [update_of_ne hne]
      exact r.nodup h' hh'
  · rcases hring h' hh' y hy with ⟨rfl, -⟩ | hmem
    · exact hx
    · exact r.item h' hh' y hmem
  · rcases hring h₁ hh₁ y hy₁ with ⟨rfl, rfl⟩ | hm₁ <;>
      rcases hring h₂ hh₂ y hy₂ with ⟨hc, rfl⟩ | hm₂
    · rfl
    · exact absurd hm₂ (hnew h₂ hh₂)
    · exact absurd hm₁ (hc ▸ hnew h₁ hh₁)
    · exact r.apart h₁ hh₁ h₂ hh₂ y hm₁ hm₂

omit [DecidableEq α] in
/-- Everything that is on a ring has both links. -/
lemma next_ne_none (r : Rings L heads ring) (hh : h ∈ heads) {y : α} (hy : y ∈ h :: ring h) :
    L.next y ≠ none := by
  rw [Ne, r.links.both]
  have hp := r.path h hh
  rcases List.mem_cons.mp hy with rfl | hy
  · cases hr : ring y with
    | nil => rw [hr] at hp; rw [show L.prev y = some y from hp]; nofun
    | cons z l => rw [hr] at hp; rw [hp.1]; nofun
  · obtain ⟨a, b, hab⟩ := List.append_of_mem hy
    rw [hab, path_append] at hp
    cases b with
    | nil => rw [show L.prev y = some h from hp.2]; nofun
    | cons z l => rw [hp.2.1]; nofun

/-- An item comes last on the ring of `h`. -/
lemma append (r : Rings L heads ring) (hx : x ∉ heads) (hh : h ∈ heads) :
    Rings (L.append h x) heads
      (update (fun h => (ring h).erase x) h ((ring h).erase x ++ [x])) := by
  have hr := r.remove hx
  refine hr.inserted (r.links.append (fun hc => hx (hc ▸ hh))
    (hr.next_ne_none hh List.mem_cons_self)) hx (fun h' hh' => r.notMem_remove hh' x) hh
    (List.append_nil _).symm rfl

/-- An item comes before another one on the ring of `h`. -/
lemma append_before (r : Rings L heads ring) (hx : x ∉ heads) (hh : h ∈ heads) {y : α}
    {a b : List α} (hab : (ring h).erase x = a ++ y :: b) :
    Rings (L.append y x) heads (update (fun h => (ring h).erase x) h (a ++ x :: y :: b)) := by
  have hr := r.remove hx
  have hy : y ∈ (ring h).erase x := hab ▸ List.mem_append_right a List.mem_cons_self
  have hxy : x ≠ y := by
    rintro rfl
    exact r.notMem_remove hh x hy
  exact hr.inserted (r.links.append hxy (hr.next_ne_none hh (List.mem_cons_of_mem _ hy))) hx
    (fun h' hh' => r.notMem_remove hh' x) hh hab rfl

omit [DecidableEq α] in
lemma notMem_of_next (r : Rings L heads ring) (hnone : L.next x = none) (hh : h ∈ heads) :
    x ∉ ring h := fun hc => r.next_ne_none hh (List.mem_cons_of_mem _ hc) hnone

/-- The rings do not change when an object without links is linked with itself. -/
lemma path_init (r : Rings L heads ring) (hnone : L.next x = none) (hx : x ∉ heads)
    (hh : h ∈ heads) : Path (L.init x).prev h (ring h) h := by
  refine (r.path h hh).congr fun y hy => ?_
  refine update_of_ne ?_ _ _
  rintro rfl
  rcases List.mem_cons.mp hy with rfl | hy
  · exact hx hh
  · exact r.notMem_of_next hnone hh hy

/-- An object without links gets a ring of its own, as a head. -/
lemma init_head (r : Rings L heads ring) (hx : x ∉ heads) (hnone : L.next x = none) :
    Rings (L.init x) (insert x heads) (update ring x []) := by
  have hring : ∀ h ∈ insert x heads, ∀ y ∈ update ring x [] h, h ∈ heads ∧ y ∈ ring h := by
    intro h hh y hy
    by_cases hne : h = x
    · subst hne
      rw [update_self] at hy
      exact absurd hy List.not_mem_nil
    · rw [update_of_ne hne] at hy
      exact ⟨hh.resolve_left hne, hy⟩
  refine ⟨r.links.init hnone, fun h hh => ?_, fun h hh => ?_, fun h hh y hy => ?_,
    fun h hh h' hh' y hy hy' => ?_⟩
  · by_cases hne : h = x
    · subst hne
      rw [update_self]
      exact update_self ..
    · rw [update_of_ne hne]
      exact r.path_init hnone hx (hh.resolve_left hne)
  · by_cases hne : h = x
    · subst hne
      rw [update_self]
      exact List.nodup_nil
    · rw [update_of_ne hne]
      exact r.nodup h (hh.resolve_left hne)
  · obtain ⟨hmem, hon⟩ := hring h hh y hy
    rintro (rfl | hc)
    · exact r.notMem_of_next hnone hmem hon
    · exact r.item h hmem y hon hc
  · obtain ⟨hh, hy⟩ := hring h hh y hy
    obtain ⟨hh', hy'⟩ := hring h' hh' y hy'
    exact r.apart h hh h' hh' y hy hy'

/-- An item without links is linked with itself, which puts it on no ring. -/
lemma init_item (r : Rings L heads ring) (hx : x ∉ heads) (hnone : L.next x = none) :
    Rings (L.init x) heads ring :=
  ⟨r.links.init hnone, fun _ hh => r.path_init hnone hx hh, r.nodup, r.item, r.apart⟩

end Rings

omit [DecidableEq α] in
lemma rings_unlinked : Rings (unlinked : Links α) ∅ fun _ => [] :=
  ⟨⟨fun _ _ => iff_of_false nofun nofun, fun _ => Iff.rfl⟩, nofun, nofun, nofun, nofun⟩

end NodeCore.Linklist
