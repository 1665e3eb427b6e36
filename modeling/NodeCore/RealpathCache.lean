import NodeCore.LinkWalk
import NodeCore.Realpath

/-!
The cache of `realpathSync`: what its entries say about the file system, and when a call with it
has the result of a call without.
-/

namespace NodeCore.Realpath

open NodeCore.Encoding NodeCore.Path NodeCore.Loop NodeCore.LinkWalk

/-! ### Parts of names -/

/-- The parts with a slash behind each. -/
def lead (l : List Str) : Str := slash :: l.flatMap (· ++ [slash])

lemma join_concat (l : List Str) (x : Str) : join (l ++ [x]) = l.flatMap (· ++ [slash]) ++ x := by
  induction l with
  | nil => rfl
  | cons y l ih =>
    obtain ⟨z, zs, hz⟩ := List.exists_cons_of_ne_nil (List.append_ne_nil_of_right_ne_nil l
      (List.cons_ne_nil x []))
    rw [hz] at ih
    rw [List.cons_append, hz, join, ih]
    · simp
    · exact fun h => List.cons_ne_nil _ _ h

lemma render_concat (l : List Str) (x : Str) : render (l ++ [x]) = lead l ++ x := by
  rw [render, join_concat]
  rfl

lemma lead_concat (l : List Str) (x : Str) : lead (l ++ [x]) = lead l ++ x ++ [slash] := by
  simp [lead]

lemma part_sublist (x : Str) : part x <:+ x := List.rtakeWhile_suffix _ _

lemma slash_notMem_part {x : Str} (h : slash ∉ x) : slash ∉ part x :=
  fun hmem => h ((part_sublist x).subset hmem)

lemma part_part (x : Str) : part (part x) = part x := List.rtakeWhile_idempotent _ x

/-- What the walk looks up. -/
def key (d : List Str) : Str := render (d.map part)

lemma key_concat (d : List Str) (c : Str) : key (d ++ [c]) = lead (d.map part) ++ part c := by
  rw [key, List.map_append, List.map_singleton, render_concat]

lemma key_map (d : List Str) : key (d.map part) = key d := by
  rw [key, key, List.map_map]
  congr 1
  exact List.map_congr_left fun x _ => part_part x

/-- A key that is a path of names: they are the parts, or it is the root. -/
lemma key_eq_render {d x : List Str} (hd : Names d) (hne : d ≠ []) (hx : Names x)
    (h : key d = render x) : d.map part = x ∨ x = [] ∧ key d = [slash] := by
  by_cases hxnil : x = []
  · exact .inr ⟨hxnil, by rw [h, hxnil]; rfl⟩
  · left
    have hjoin : join (d.map part) = join x := List.tail_eq_of_cons_eq h
    have hslash : ∀ y ∈ d.map part, slash ∉ y := by
      intro y hy
      obtain ⟨z, hz, rfl⟩ := List.mem_map.mp hy
      exact slash_notMem_part (hd z hz).slash
    have hmap : d.map part ≠ [] := fun h => hne (List.map_eq_nil_iff.mp h)
    rw [← split_join hmap hslash, hjoin, split_join hxnil fun y hy => (hx y hy).slash]

/-! ### What the system has at a key -/

variable {E : Type} (sys : System E)

/-- The path up to its last slash. -/
def dir (base : Str) : Str := base.rdropWhile (· ≠ slash)

lemma dir_eq {l : List Str} {x : Str} (h : slash ∉ x) : dir (lead l ++ x) = lead l := by
  have hlead : ∃ s, lead l = s ++ [slash] := by
    rcases List.eq_nil_or_concat l with rfl | ⟨m, y, rfl⟩
    · exact ⟨[], rfl⟩
    · exact ⟨lead m ++ y, by rw [List.concat_eq_append, lead_concat]⟩
  obtain ⟨s, hs⟩ := hlead
  rw [hs]
  induction x using List.reverseRecOn with
  | nil => simp [dir]
  | append_singleton x c ih =>
    have hc : c ≠ slash := fun hc => h (by simp [hc])
    have hx : slash ∉ x := fun hx => h (by simp [hx])
    rw [dir, ← List.append_assoc, List.rdropWhile_concat_pos _ _ _ (by simpa using hc)]
    exact ih hx

/-- What a walk does at a key. -/
def kind (base : Str) : Kind Str E :=
  match sys.lstat base with
  | .error e => .error e
  | .ok st =>
    if st.symbolicLink = false then .hard
    else match sys.stat base with
      | .error e => .error e
      | .ok _ =>
        match sys.readlink base with
        | .error e => .error e
        | .ok linkTarget => .link (resolved sys.cwd [dir base, linkTarget])

/-- No prefix of the path is a symbolic link, and each is there. -/
def Plain (path : Str) : Prop :=
  ∀ e, e <+: pieces path → e ≠ [] →
    ∃ st, sys.lstat (key e) = .ok st ∧ st.symbolicLink = false

/-- Links with one inode can both be followed, to the same target; and no link is resolved to
itself. -/
structure Regular : Prop where
  coherent : ∀ a b st st', sys.lstat a = .ok st → sys.lstat b = .ok st' → st.symbolicLink = true →
    st'.symbolicLink = true → st.dev = st'.dev → st.ino = st'.ino → sys.stat a = .ok () →
      ∀ linkTarget, sys.readlink a = .ok linkTarget →
        sys.stat b = .ok () ∧ sys.readlink b = .ok linkTarget
  noSelf : ∀ base l, kind sys base = .link l → render l ≠ base

variable {sys}

lemma kind_eq_hard {base : Str} :
    kind sys base = .hard ↔ ∃ st, sys.lstat base = .ok st ∧ st.symbolicLink = false := by
  unfold kind
  cases hlstat : sys.lstat base with
  | error e => simp
  | ok st =>
    cases hst : st.symbolicLink with
    | false => simp [hst]
    | true =>
      dsimp only
      rw [if_neg (by rw [hst]; exact Bool.noConfusion)]
      cases sys.stat base with
      | error e => simp [hst]
      | ok _ => cases sys.readlink base <;> simp [hst]

lemma kind_root : kind sys [slash] = .hard := kind_eq_hard.mpr sys.root

lemma kind_link {base : Str} {st : Stat} (hlstat : sys.lstat base = .ok st)
    (hst : st.symbolicLink = true) (hstat : sys.stat base = .ok ()) {linkTarget : Str}
    (hread : sys.readlink base = .ok linkTarget) :
    kind sys base = .link (resolved sys.cwd [dir base, linkTarget]) := by
  simp [kind, hlstat, hst, hstat, hread]

variable (sys) in
/-- What an entry of a cache says: a path that is no link, a link and what it is resolved to, or
the result of a call. -/
inductive Entry : Str → Str → Prop
  | hard {d : List Str} (hd : Names d) (hne : d ≠ []) (h : Hard key (kind sys) d) :
      Entry (key d) (key d)
  | link {d : List Str} {c : Str} {l : List Str} (hd : Names (d ++ [c]))
      (h : Hard key (kind sys) d) (hl : Names l) (hlink : kind sys (key (d ++ [c])) = .link l) :
      Entry (key (d ++ [c])) (render l)
  | final {x y : List Str} {n : ℕ} (hx : Names x) (hy : Names y)
      (h : Resolves key (kind sys) n [] x (.ok y)) : Entry (render x) (render y)

variable (sys) in
def Sound (cache : Cache) : Prop := ∀ k v, cache k = some v → Entry sys k v

lemma hard_congr {d x : List Str} (h : d.map part = x.map part) (hd : Hard key (kind sys) d) :
    Hard key (kind sys) x := by
  intro e he hne
  have hkey : key e = key (d.take e.length) := by
    rw [key, key, List.map_take, h, ← List.map_take, ← List.prefix_iff_eq_take.mp he]
  rw [hkey]
  refine hd _ (List.take_prefix _ _) fun hnil => hne ?_
  have hlength : d.length = x.length := by
    rw [← List.length_map (f := part), h, List.length_map]
  have hle := he.length_le
  have := congrArg List.length hnil
  rw [List.length_take, List.length_nil] at this
  exact List.length_eq_zero_iff.mp (by omega)

/-- The list of names `y` can stand for a link. -/
structure Stands (sys : System E) (d : List Str) (c : Str) (y : List Str) : Prop where
  sound : ∀ {n t r}, Resolves key (kind sys) n [] (y ++ t) r →
    ∃ m, Resolves key (kind sys) m d (c :: t) r
  complete : ∀ {n t r}, Resolves key (kind sys) n d (c :: t) r →
    ∃ m < n, Resolves key (kind sys) m [] (y ++ t) r

lemma stands_link {d : List Str} {c : Str} {l : List Str}
    (h : kind sys (key (d ++ [c])) = .link l) : Stands sys d c l where
  sound hr := ⟨_, .link h hr⟩
  complete hr := by
    cases hr with
    | hard hh _ => cases h.symm.trans hh
    | link hl rest =>
      cases h.symm.trans hl
      exact ⟨_, Nat.lt_succ_self _, rest⟩
    | error he => cases h.symm.trans he

/-- So can the result of a call for the link. -/
lemma stands_final {d : List Str} {c : Str} {l x : List Str} {n : ℕ}
    (h : kind sys (key (d ++ [c])) = .link l) (hl : Resolves key (kind sys) n [] l (.ok x)) :
    Stands sys d c x where
  sound hr := by
    have hx := hl.hard_of_ok hard_nil
    exact ⟨_, .link h (hl.append (hx.resolves_iff.mp hr))⟩
  complete hr := by
    have hx := hl.hard_of_ok hard_nil
    obtain ⟨m, hlt, hrest⟩ := (stands_link h).complete hr
    obtain ⟨k, rfl, hk⟩ := hl.of_append hrest
    exact ⟨k, by omega, hx.resolves_iff.mpr hk⟩

/-- What a call for the path of a visited name has done at its end. -/
lemma resolves_last {d x y : List Str} {c : Str} {n : ℕ} (hd : Hard key (kind sys) d)
    (hmap : (d ++ [c]).map part = x) (h : Resolves key (kind sys) n [] x (.ok y)) :
    y = x ∧ kind sys (key (d ++ [c])) = .hard ∨
      ∃ l m, kind sys (key (d ++ [c])) = .link l ∧ Resolves key (kind sys) m [] l (.ok y) := by
  rw [List.map_append, List.map_singleton] at hmap
  have hkey : key (d.map part ++ [part c]) = key (d ++ [c]) := by
    rw [← key_map (d ++ [c]), List.map_append, List.map_singleton]
  have hpart : (d.map part).map part = d.map part := by
    rw [List.map_map]
    exact List.map_congr_left fun z _ => part_part z
  have hhard : Hard key (kind sys) (d.map part) := hard_congr hpart.symm hd
  rw [← hmap] at h
  obtain ⟨k, -, hk⟩ := (resolves_hard (d := []) hhard).of_append h
  rw [List.nil_append] at hk
  cases hk with
  | hard hh rest =>
    cases rest
    rw [hkey] at hh
    exact .inl ⟨hmap, hh⟩
  | link hl rest =>
    rw [hkey] at hl
    rw [List.append_nil] at rest
    exact .inr ⟨_, _, hl, rest⟩

/-- An entry that is met on the way. -/
lemma Entry.visit (hreg : Regular sys) {d : List Str} {c v : Str} (hd : Names (d ++ [c]))
    (hhard : Hard key (kind sys) d) (h : Entry sys (key (d ++ [c])) v) :
    v = key (d ++ [c]) ∧ kind sys (key (d ++ [c])) = .hard ∨
      v ≠ key (d ++ [c]) ∧ ∃ y, Names y ∧ v = render y ∧ Stands sys d c y := by
  generalize hk : key (d ++ [c]) = k at h
  cases h with
  | hard hd' hne h => exact .inl ⟨rfl, h _ List.prefix_rfl hne⟩
  | link hd' h hl hlink =>
    rw [← hk] at hlink ⊢
    exact .inr ⟨hreg.noSelf _ _ hlink, _, hl, rfl, stands_link hlink⟩
  | @final x y n hx hy h =>
    rcases key_eq_render hd (by simp) hx hk with hmap | ⟨rfl, hroot⟩
    · rcases resolves_last hhard hmap h with ⟨rfl, hkind⟩ | ⟨l, m, hkind, hl⟩
      · rw [← hk]
        exact .inl ⟨rfl, hkind⟩
      · refine .inr ⟨fun hv => ?_, y, hy, rfl, stands_final hkind hl⟩
        have hyx : y = x := render_inj hy hx hv
        have hhard' : Hard key (kind sys) x := hyx ▸ h.hard_of_ok hard_nil
        have hxnil : x ≠ [] := by
          rw [← hmap]
          simp
        have := hhard' x List.prefix_rfl hxnil
        rw [← hmap, key_map, hkind] at this
        cases this
    · cases h
      rw [← hk, hroot]
      exact .inl ⟨rfl, kind_root⟩

lemma map_part (d : List Str) : (d.map part).map part = d.map part := by
  rw [List.map_map]
  exact List.map_congr_left fun x _ => part_part x

/-- An entry for the path of a call: what it has is the result of the call if there is no link in
it. -/
lemma Entry.whole {x : List Str} {v : Str} (hx : Names x) (h : Entry sys (render x) v) :
    ∃ y, Names y ∧ v = render y ∧
      ((∃ n, Resolves key (kind sys) n [] x (.ok y)) ↔ Hard key (kind sys) y) := by
  have hself : Hard key (kind sys) x →
      ((∃ n, Resolves key (kind sys) n [] x (.ok x)) ↔ Hard key (kind sys) x) :=
    fun hhard => ⟨fun _ => hhard, fun _ => ⟨0, resolves_hard hhard⟩⟩
  generalize hk : render x = k at h
  cases h with
  | @hard d hd hne h =>
    refine ⟨x, hx, hk.symm, hself ?_⟩
    rcases key_eq_render hd hne hx hk.symm with hmap | ⟨rfl, -⟩
    · rw [← hmap]
      exact hard_congr (map_part d).symm h
    · exact hard_nil
  | @link d c l hd h hl hlink =>
    refine ⟨l, hl, rfl, fun ⟨n, hn⟩ => hn.hard_of_ok hard_nil, fun hhard => ⟨1, ?_⟩⟩
    rcases key_eq_render hd (by simp) hx hk.symm with hmap | ⟨-, hroot⟩
    · rw [List.map_append, List.map_singleton] at hmap
      have hkey : key (d.map part ++ [part c]) = key (d ++ [c]) := by
        rw [← key_map (d ++ [c]), List.map_append, List.map_singleton]
      have hd' : Hard key (kind sys) (d.map part) := hard_congr (map_part d).symm h
      rw [← hmap, hd'.resolves_iff]
      refine .link (by rw [hkey]; exact hlink) ?_
      rw [List.append_nil]
      exact resolves_hard (d := []) hhard
    · rw [hroot, kind_root] at hlink
      cases hlink
  | @final x' y n hx' hy h =>
    obtain rfl := render_inj hx hx' hk
    exact ⟨y, hy, rfl, fun _ => h.hard_of_ok hard_nil, fun _ => ⟨n, h⟩⟩

/-! ### A walk of names -/

/-- The walk has gone along `d`, and `t` is still to come. -/
structure At (w : Walk) (d t : List Str) : Prop where
  names : Names (d ++ t)
  p : w.p = render (d ++ t)
  rest : w.p.drop w.pos = join t
  current : t ≠ [] → w.current = lead (d.map part)

lemma join_ne_nil {t : List Str} (ht : Names t) (hne : t ≠ []) : join t ≠ [] := by
  intro h
  have := pieces_join ht
  rw [h, pieces_nil] at this
  exact hne this.symm

namespace At

variable {w : Walk} {d t : List Str} {c : Str}

lemma finished (h : At w d t) : w.p.length ≤ w.pos ↔ t = [] := by
  rw [← List.drop_eq_nil_iff, h.rest]
  refine ⟨fun hjoin => ?_, fun ht => by rw [ht]; rfl⟩
  by_contra hne
  exact join_ne_nil (fun x hx => h.names x (List.mem_append_right _ hx)) hne hjoin

/-- A path of names does not begin with a slash. -/
lemma takeWhile_join {t : List Str} (ht : Names t) :
    (join t).takeWhile (· = slash) = [] := by
  cases t with
  | nil => rfl
  | cons x t =>
    have hx := ht x List.mem_cons_self
    cases x with
    | nil => exact absurd rfl hx.ne_nil
    | cons a x =>
      have ha : a ≠ slash := fun h => hx.slash (h ▸ List.mem_cons_self)
      cases t <;> simp [join, ha]

/-- The slash behind a name. -/
def slashes (t : List Str) : Str := if t = [] then [] else [slash]

lemma join_cons (c : Str) (t : List Str) : join (c :: t) = c ++ slashes t ++ join t := by
  cases t with
  | nil => simp [join, slashes]
  | cons x t => simp [join, slashes]

lemma takeWhile_name {c : Str} (hc : slash ∉ c) (t : List Str) :
    (join (c :: t)).takeWhile (· ≠ slash) = c := by
  have hall : ∀ a ∈ c, decide (a ≠ slash) = true := by
    intro a ha
    simpa using fun h : a = slash => hc (h ▸ ha)
  rw [join_cons, List.append_assoc, List.takeWhile_append_of_pos hall]
  cases t with
  | nil => simp [slashes, join]
  | cons x t => simp [slashes]

lemma takeWhile_slashes {c : Str} {t : List Str} (ht : Names t) :
    ((join (c :: t)).drop c.length).takeWhile (· = slash) = slashes t := by
  rw [join_cons, List.append_assoc, List.drop_left]
  by_cases h : t = []
  · subst h
    rfl
  · simp [slashes, h, takeWhile_join ht]

lemma next (h : At w d (c :: t)) :
    At w.next (d ++ [c]) t ∧ w.next.base = key (d ++ [c]) ∧
      w.next.previous = lead (d.map part) := by
  have hc : slash ∉ c := (h.names c (by simp)).slash
  have ht : Names t := fun x hx => h.names x (by simp [hx])
  have hcurrent := h.current (List.cons_ne_nil c t)
  have hname : (w.p.drop w.pos).takeWhile (· ≠ slash) = c := by rw [h.rest, takeWhile_name hc]
  have hslashes : ((w.p.drop w.pos).drop c.length).takeWhile (· = slash) = slashes t := by
    rw [h.rest, takeWhile_slashes ht]
  have hnext : w.next = { w with
      previous := w.current
      current := w.current ++ part c ++ slashes t
      base := w.current ++ part c
      pos := w.pos + c.length + (slashes t).length } := by
    simp only [Walk.next, hname, hslashes]
  rw [hnext]
  refine ⟨⟨?_, ?_, ?_, ?_⟩, ?_, hcurrent⟩
  · simpa using h.names
  · simpa using h.p
  · rw [← List.drop_drop, ← List.drop_drop, h.rest, join_cons, List.append_assoc, List.drop_left,
      List.drop_left]
  · intro hne
    rw [hcurrent, List.map_append, List.map_singleton, lead_concat, slashes, if_neg hne]
  · rw [key_concat, hcurrent]

lemma start {l : List Str} (hl : Names l) (hp : w.p = render l) : At w.start [] l := by
  have hroot : w.p.takeWhile (· = slash) = [slash] := by
    rw [hp, render]
    simp [takeWhile_join hl]
  have hstart : w.start =
      { w with pos := 1, current := [slash], base := [slash], previous := [] } := by
    simp only [Walk.start, hroot, List.length_singleton]
  rw [hstart]
  refine ⟨by simpa using hl, by simpa using hp, ?_, fun _ => rfl⟩
  rw [hp]
  rfl

lemma jump (h : At w d t) {y : List Str} (hy : Names y) :
    At (w.jump sys (render y)) [] (y ++ t) := by
  have ht : Names t := fun x hx => h.names x (List.mem_append_right _ hx)
  refine start (fun x hx => (List.mem_append.mp hx).elim (hy x) (ht x)) ?_
  exact (congrArg (fun rest => resolve sys.cwd [render y, rest]) h.rest).trans
    (resolve_behind hy ht)

end At

/-- What is known on a walk from `x` is right. -/
structure Good (sys : System E) (x : List Str) (w : Walk) (d t : List Str) : Prop where
  place : At w d t
  hard : Hard key (kind sys) d
  knownHard : ∀ base, w.knownHard base = true → kind sys base = .hard
  seenLinks : ∀ id linkTarget, w.seenLinks id = some linkTarget →
    ∃ a st, sys.lstat a = .ok st ∧ st.symbolicLink = true ∧ (st.dev, st.ino) = id ∧
      sys.stat a = .ok () ∧ sys.readlink a = .ok linkTarget
  cache : ∀ c, w.cache = some c → Sound sys c
  leads : ∀ {n r}, Resolves key (kind sys) n d t r → ∃ m, Resolves key (kind sys) m [] x r

lemma sound_record {w : Walk} (h : ∀ c, w.cache = some c → Sound sys c) {k v : Str}
    (he : Entry sys k v) : ∀ c, (w.record k v).cache = some c → Sound sys c := by
  intro c hc k' v' hk'
  obtain ⟨c₀, hc₀, rfl⟩ := Option.map_eq_some_iff.mp hc
  rw [Function.update_apply] at hk'
  split_ifs at hk' with hkk
  · obtain rfl := Option.some.inj hk'
    rw [hkk]
    exact he
  · exact h c₀ hc₀ k' v' hk'

/-- A round that goes on, and how far the walk is from its end before and after. -/
def Goes (sys : System E) (x : List Str) (d t : List Str) (w' : Walk) : Prop :=
  ∃ d' t', Good sys x w' d' t' ∧ ∀ {n r}, Resolves key (kind sys) n d t r →
    ∃ n', Resolves key (kind sys) n' d' t' r ∧ (n' < n ∨ n' = n ∧ t'.length < t.length)

namespace Good

variable {x d t : List Str} {c : Str} {w : Walk}

/-- Past a name that is no link. -/
lemma pass (h : Good sys x w d (c :: t)) (hkind : kind sys (key (d ++ [c])) = .hard) :
    Good sys x w.next (d ++ [c]) t where
  place := h.place.next.1
  hard := hard_concat.mpr ⟨h.hard, hkind⟩
  knownHard := h.knownHard
  seenLinks := h.seenLinks
  cache := h.cache
  leads hr := h.leads (.hard hkind hr)

lemma goes_pass {w' : Walk} (hkind : kind sys (key (d ++ [c])) = .hard)
    (hg : Good sys x w' (d ++ [c]) t) : Goes sys x d (c :: t) w' := by
  refine ⟨d ++ [c], t, hg, fun hr => ?_⟩
  cases hr with
  | hard _ rest => exact ⟨_, rest, .inr ⟨rfl, Nat.lt_succ_self _⟩⟩
  | link hl _ => cases hkind.symm.trans hl
  | error he => cases hkind.symm.trans he

/-- Over to what stands for a link. -/
lemma goes_jump (h : Good sys x w d (c :: t)) {w₁ : Walk} {y : List Str} (hy : Names y)
    (hstands : Stands sys d c y) (hp : w₁.p = w.next.p) (hpos : w₁.pos = w.next.pos)
    (hknown : w₁.knownHard = w.knownHard)
    (hseen : ∀ id linkTarget, w₁.seenLinks id = some linkTarget →
      ∃ a st, sys.lstat a = .ok st ∧ st.symbolicLink = true ∧ (st.dev, st.ino) = id ∧
        sys.stat a = .ok () ∧ sys.readlink a = .ok linkTarget)
    (hcache : ∀ c, w₁.cache = some c → Sound sys c) :
    Goes sys x d (c :: t) (w₁.jump sys (render y)) := by
  have hjump : w₁.jump sys (render y) =
      { w.next.jump sys (render y) with
        knownHard := w₁.knownHard, seenLinks := w₁.seenLinks, cache := w₁.cache } := by
    simp only [Walk.jump, Walk.start, hp, hpos]
  have hplace : At (w.next.jump sys (render y)) [] (y ++ t) := h.place.next.1.jump hy
  rw [hjump]
  refine ⟨[], y ++ t, ⟨⟨hplace.names, hplace.p, hplace.rest, hplace.current⟩, hard_nil, ?_, hseen,
    hcache, ?_⟩, fun hr => ?_⟩
  · rw [hknown]
    exact h.knownHard
  · intro n r hr
    obtain ⟨m, hm⟩ := hstands.sound hr
    exact h.leads hm
  · obtain ⟨m, hlt, hm⟩ := hstands.complete hr
    exact ⟨m, hm, .inl hlt⟩

/-- Over to the target of a link, which is kept. -/
lemma goes_follow (h : Good sys x w d (c :: t)) {st : Stat} {linkTarget : Str}
    (hlstat : sys.lstat w.next.base = .ok st) (hst : st.symbolicLink = true)
    (hstat : sys.stat w.next.base = .ok ()) (hread : sys.readlink w.next.base = .ok linkTarget) :
    Goes sys x d (c :: t) (follow sys w.next (st.dev, st.ino) linkTarget) := by
  obtain ⟨-, hbase, hprevious⟩ := h.place.next
  have hnames : Names (d ++ [c]) := fun y hy => h.place.names y (by
    rw [List.append_cons]
    exact List.mem_append_left _ hy)
  have hdir : dir w.next.base = w.next.previous := by
    have hc : slash ∉ part c := slash_notMem_part (hnames c (by simp)).slash
    rw [hbase, hprevious, key_concat, dir_eq hc]
  obtain ⟨l, hl⟩ : ∃ l, l = resolved sys.cwd [w.next.previous, linkTarget] := ⟨_, rfl⟩
  have hlnames : Names l := hl ▸ names_resolved _ _
  have hlink : kind sys (key (d ++ [c])) = .link l := by
    rw [← hbase, kind_link hlstat hst hstat hread, hdir, hl]
  have hresolve : w.next.resolveLink sys linkTarget = render l := by
    rw [hl]
    exact resolve_eq sys.absolute_cwd _
  have hentry : Entry sys w.next.base (render l) := by
    rw [hbase]
    exact .link hnames h.hard hlnames hlink
  rw [follow, hresolve]
  refine h.goes_jump hlnames (stands_link hlink) rfl rfl rfl ?_ (sound_record h.cache hentry)
  intro id target hseen
  have hupdate : Function.update w.seenLinks (st.dev, st.ino) (some linkTarget) id =
      some target := hseen
  rw [Function.update_apply] at hupdate
  split_ifs at hupdate with hid
  · obtain rfl := Option.some.inj hupdate
    exact ⟨_, st, hlstat, hst, hid.symm, hstat, hread⟩
  · exact h.seenLinks id target hupdate

/-- What the cache has for the next part. -/
lemma entry_of_cached (h : Good sys x w d (c :: t)) {v : Str} (hc : w.next.cached = some v) :
    Entry sys (key (d ++ [c])) v := by
  obtain ⟨cache, hcache, hv⟩ := Option.bind_eq_some_iff.mp hc
  rw [← h.place.next.2.1]
  exact h.cache cache hcache _ _ hv

lemma names_next (h : Good sys x w d (c :: t)) : Names (d ++ [c]) :=
  fun y hy => h.place.names y (by rw [List.append_cons]; exact List.mem_append_left _ hy)

lemma kind_of_known (hreg : Regular sys) (h : Good sys x w d (c :: t))
    (hk : w.next.known = true) : kind sys (key (d ++ [c])) = .hard := by
  have hbase := h.place.next.2.1
  rcases Bool.or_eq_true _ _ ▸ hk with hhard | hself
  · rw [← hbase]
    exact h.knownHard _ hhard
  · obtain ⟨cache, hcache, hv⟩ := Option.any_eq_true _ _ |>.mp hself
    have hentry : Entry sys (key (d ++ [c])) (key (d ++ [c])) := by
      refine h.entry_of_cached ?_
      rw [Walk.cached, hcache, Option.bind_some, of_decide_eq_true hv, hbase]
    rcases hentry.visit hreg h.names_next h.hard with ⟨-, hkind⟩ | ⟨hne, -⟩
    · exact hkind
    · exact absurd rfl hne

lemma goes_body (hreg : Regular sys) (h : Good sys x w d t) {original : Str} {w' : Walk}
    (hbody : body sys original w = .next w') : Goes sys x d t w' := by
  have hcases := body_cases sys original w
  rw [hbody] at hcases
  have hcons : w.pos < w.p.length → ∃ c t', t = c :: t' := fun hpos =>
    List.exists_cons_of_ne_nil fun ht => absurd (h.place.finished.mpr ht) (not_le.mpr hpos)
  cases hcases with
  | known hpos hk =>
    obtain ⟨c, t, rfl⟩ := hcons hpos
    have hkind := h.kind_of_known hreg hk
    exact goes_pass hkind (h.pass hkind)
  | cached hpos hk v hc =>
    obtain ⟨c, t, rfl⟩ := hcons hpos
    have hentry := h.entry_of_cached hc
    rcases hentry.visit hreg h.names_next h.hard with ⟨hv, -⟩ | ⟨-, y, hy, rfl, hstands⟩
    · obtain ⟨cache, hcache, hcv⟩ := Option.bind_eq_some_iff.mp hc
      have hself : w.next.known = true := by
        rw [Walk.known, hcache, Option.any_some, hcv, hv, h.place.next.2.1]
        simp
      exact absurd (hself.symm.trans hk) Bool.noConfusion
    · exact h.goes_jump hy hstands rfl rfl rfl h.seenLinks h.cache
  | hard hpos hk hc st hlstat hst =>
    obtain ⟨c, t, rfl⟩ := hcons hpos
    have hbase := h.place.next.2.1
    have hkind : kind sys (key (d ++ [c])) = .hard := by
      rw [← hbase]
      exact kind_eq_hard.mpr ⟨st, hlstat, hst⟩
    have hpass := h.pass hkind
    have hentry : Entry sys w.next.base w.next.base := by
      rw [hbase]
      exact .hard h.names_next (by simp) hpass.hard
    obtain ⟨hnames, hp, hrest, hcurrent⟩ := hpass.place
    refine goes_pass hkind ⟨⟨hnames, hp, hrest, hcurrent⟩, hpass.hard, ?_, h.seenLinks,
      sound_record h.cache hentry, hpass.leads⟩
    intro base hknown
    have hupdate : Function.update w.knownHard w.next.base true base = true := hknown
    rw [Function.update_apply] at hupdate
    split_ifs at hupdate with heq
    · rw [heq, hbase]
      exact hkind
    · exact h.knownHard base hupdate
  | seen hpos hk hc st hlstat hst linkTarget hseen =>
    obtain ⟨c, t, rfl⟩ := hcons hpos
    obtain ⟨a, st', hlstat', hst', hid, hstat, hread⟩ := h.seenLinks _ _ hseen
    obtain ⟨hdev, hino⟩ := Prod.mk.inj hid
    obtain ⟨hstat', hread'⟩ := hreg.coherent _ _ _ _ hlstat' hlstat hst' hst hdev hino hstat _ hread
    exact h.goes_follow hlstat hst hstat' hread'
  | read hpos hk hc st hlstat hst hseen hstat linkTarget hread =>
    obtain ⟨c, t, rfl⟩ := hcons hpos
    exact h.goes_follow hlstat hst hstat hread

lemma ends_body (h : Good sys x w d t) (hx : Names x) {r : Except E Str} {cache : Option Cache}
    (hbody : body sys (render x) w = .exit (r, cache)) :
    ∃ r', Resolves key (kind sys) 0 d t r' ∧ r = r'.map render ∧ (∀ y, r' = .ok y → Names y) ∧
      ∀ c, cache = some c → Sound sys c := by
  have herror : w.pos < w.p.length → ∀ e, kind sys w.next.base = .error e →
      ∃ r', Resolves key (kind sys) 0 d t r' ∧ (.error e : Except E Str) = r'.map render ∧
        (∀ y, r' = .ok y → Names y) ∧ ∀ c, w.next.cache = some c → Sound sys c := by
    intro hpos e hkind
    obtain ⟨c, t, rfl⟩ := List.exists_cons_of_ne_nil fun ht =>
      absurd (h.place.finished.mpr ht) (not_le.mpr hpos)
    rw [h.place.next.2.1] at hkind
    refine ⟨.error e, .error hkind, rfl, ?_, h.cache⟩
    intro y hy
    cases hy
  have hcases := body_cases sys (render x) w
  rw [hbody] at hcases
  cases hcases with
  | finished hfinished =>
    obtain rfl := h.place.finished.mp hfinished
    have hp := h.place.p
    have hnames := h.place.names
    rw [List.append_nil] at hp hnames
    have hdone : Resolves key (kind sys) 0 d [] (.ok d) := .done d
    obtain ⟨m, hm⟩ := h.leads hdone
    refine ⟨.ok d, hdone, by rw [hp]; rfl, fun y hy => by cases hy; exact hnames, ?_⟩
    rw [hp]
    exact sound_record h.cache (.final hx hnames hm)
  | lstat hpos hk hc e hlstat =>
    exact herror hpos e (by simp [kind, hlstat])
  | stat hpos hk hc st hlstat hst hseen e hstat =>
    exact herror hpos e (by simp [kind, hlstat, hst, hstat])
  | unread hpos hk hc st hlstat hst hseen hstat e hread =>
    exact herror hpos e (by simp [kind, hlstat, hst, hstat, hread])

lemma new {x : List Str} (hx : Names x) {cache : Option Cache}
    (h : ∀ c, cache = some c → Sound sys c) : Good sys x (.new (render x) cache) [] x where
  place := At.start hx rfl
  hard := hard_nil
  knownHard _ hknown := absurd hknown Bool.false_ne_true
  seenLinks _ _ hseen := absurd hseen (Option.some_ne_none _).symm
  cache := h
  leads hr := ⟨_, hr⟩

/-- What the loop ends with is what the links lead to. -/
lemma resolves_of_exits (hreg : Regular sys) (hx : Names x) {r : Result E}
    (hexits : Exits (body sys (render x)) w r) (h : Good sys x w d t) :
    ∃ n r', Resolves key (kind sys) n [] x r' ∧ r.1 = r'.map render ∧ (∀ y, r' = .ok y → Names y) ∧
      ∀ c, r.2 = some c → Sound sys c := by
  induction hexits generalizing d t with
  | exit hbody =>
    obtain ⟨r', hr, hmap, hnames, hcache⟩ := h.ends_body hx hbody
    obtain ⟨m, hm⟩ := h.leads hr
    exact ⟨m, r', hm, hmap, hnames, hcache⟩
  | next hbody _ ih =>
    obtain ⟨d', t', hgood, -⟩ := h.goes_body hreg hbody
    exact ih hgood

end Good

/-! ### Calls -/

/-- Caches that earlier calls have filled. -/
inductive Filled (sys : System E) : Cache → Prop
  | empty : Filled sys fun _ => none
  | call {cache cache' : Cache} {p : Str} {r : Except E Str} (h : Filled sys cache)
      (hr : Returns sys p (some cache) (r, some cache')) : Filled sys cache'

lemma Filled.sound (hreg : Regular sys) {cache : Cache} (h : Filled sys cache) :
    Sound sys cache := by
  induction h with
  | empty => exact fun k v h => absurd h (Option.some_ne_none v).symm
  | @call cache cache' p r _ hr ih =>
    obtain ⟨x, hx, hp⟩ : ∃ x, Names x ∧ resolve sys.cwd [p] = render x :=
      ⟨_, names_resolved _ _, resolve_eq sys.absolute_cwd _⟩
    simp only [Returns, hp] at hr
    split at hr
    · obtain ⟨-, hcache⟩ := Prod.mk.inj hr
      rw [Option.some.inj hcache]
      exact ih
    · have hgood : Good sys x (.new (render x) (some cache)) [] x :=
        Good.new hx fun c hc => Option.some.inj hc ▸ ih
      obtain ⟨-, -, -, -, -, hsound⟩ := hgood.resolves_of_exits hreg hx hr
      exact hsound cache' rfl

end NodeCore.Realpath
