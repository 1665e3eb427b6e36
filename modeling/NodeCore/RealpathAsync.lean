import NodeCore.Realpath

/-!
`realpath` and `realpathSync`: the callbacks of the one follow the rounds of the other, up to the
first link that is read while there is a cache.
-/

namespace NodeCore.Realpath

open NodeCore.Encoding NodeCore.Path NodeCore.Loop

variable {E : Type} {sys : System E} {original : Str} {w : Walk}

/-- The next round reads the target of a link with `readlink`, with a cache to keep it. -/
def Reads (sys : System E) (w : Walk) : Prop :=
  w.cache ≠ none ∧ w.pos < w.p.length ∧ w.next.known = false ∧ w.next.cached = none ∧
    ∃ st linkTarget, sys.lstat w.next.base = .ok st ∧ st.symbolicLink = true ∧
      w.next.seenLinks (st.dev, st.ino) = none ∧ sys.stat w.next.base = .ok () ∧
        sys.readlink w.next.base = .ok linkTarget

/-! ### Rounds and callbacks -/

/-- Between two rounds. -/
def Async.at (w : Walk) (calls : List (Except E Str)) : Async E := ⟨w, .loop, calls⟩

lemma turn_loop (calls : List (Except E Str)) :
    turn sys original (.at w calls) = .next ((Async.at w calls).loop sys original) := rfl

/-- `LOOP`, for a part that is not known. -/
lemma loop_lstat (h : w.pos < w.p.length) (hk : w.next.known = false)
    (hc : w.next.cached = none) (calls : List (Except E Str)) :
    (Async.at w calls).loop sys original = ⟨w.next, .lstat, calls⟩ := by
  simp [Async.loop, Async.at, not_le.mpr h, hk, hc]

/-- After `cb` has been called there is nothing more. -/
lemma exits_call {a : Async E} {r : Except E Str} {x : List (Except E Str) × Option Cache} :
    Exits (turn sys original) (a.call r) x ↔ x = (a.calls ++ [r], a.walk.cache) :=
  exits_iff_exit rfl

variable {calls : List (Except E Str)} {x : List (Except E Str) × Option Cache}

/-- Up to the answer of `lstat`. -/
lemma exits_lstat (h : w.pos < w.p.length) (hk : w.next.known = false)
    (hc : w.next.cached = none) : Exits (turn sys original) (.at w calls) x ↔
      Exits (turn sys original)
        (Async.gotStat ⟨w.next, .lstat, calls⟩ sys (sys.lstat w.next.base)) x := by
  rw [exits_iff_next (turn_loop calls), loop_lstat h hk hc]
  exact exits_iff_next rfl

/-- Up to the answer of `stat`, for a link that has not been seen. -/
lemma exits_stat (h : w.pos < w.p.length) (hk : w.next.known = false)
    (hc : w.next.cached = none) {st : Stat} (hlstat : sys.lstat w.next.base = .ok st)
    (hst : st.symbolicLink = true) (hseen : w.next.seenLinks (st.dev, st.ino) = none) :
    Exits (turn sys original) (.at w calls) x ↔
      Exits (turn sys original) ⟨w.next, .stat (st.dev, st.ino), calls⟩ x := by
  rw [exits_lstat h hk hc, hlstat]
  simp only [Async.gotStat, hst, hseen, Bool.true_eq_false, if_false]

/-- Up to the answer of `readlink`. -/
lemma exits_readlink (h : w.pos < w.p.length) (hk : w.next.known = false)
    (hc : w.next.cached = none) {st : Stat} (hlstat : sys.lstat w.next.base = .ok st)
    (hst : st.symbolicLink = true) (hseen : w.next.seenLinks (st.dev, st.ino) = none)
    (hstat : sys.stat w.next.base = .ok ()) :
    Exits (turn sys original) (.at w calls) x ↔ Exits (turn sys original)
      (Async.gotLink ⟨w.next, .readlink (st.dev, st.ino), calls⟩ sys (st.dev, st.ino)
        (sys.readlink w.next.base)) x := by
  rw [exits_stat h hk hc hlstat hst hseen]
  have hturn : turn sys original ⟨w.next, .stat (st.dev, st.ino), calls⟩ =
      .next ⟨w.next, .readlink (st.dev, st.ino), calls⟩ := by
    simp only [turn, hstat]
  rw [exits_iff_next hturn]
  exact exits_iff_next rfl

lemma see_of_seen {id : ℕ × ℕ} {linkTarget : Str} (h : w.seenLinks id = some linkTarget) :
    w.see id linkTarget = w := by
  have hseen : Function.update w.seenLinks id (some linkTarget) = w.seenLinks := by
    rw [← h, Function.update_eq_self]
  rw [Walk.see, hseen]

lemma record_of_none (h : w.cache = none) (key value : Str) : w.record key value = w := by
  have hcache : w.cache.map (fun cache => Function.update cache key (some value)) = w.cache := by
    rw [h, Option.map_none]
  rw [Walk.record, hcache]

/-- A round that goes on is followed, unless it reads a link. -/
lemma exits_round {w' : Walk} (hbody : body sys original w = .next w') (hreads : ¬Reads sys w) :
    Exits (turn sys original) (.at w calls) x ↔ Exits (turn sys original) (.at w' calls) x := by
  have hcases := body_cases sys original w
  rw [hbody] at hcases
  cases hcases with
  | known h hk =>
    rw [exits_iff_next (turn_loop calls)]
    simp only [Async.loop, Async.at, not_le.mpr h, hk, if_false, if_true]
  | cached h hk resolvedLink hc =>
    rw [exits_iff_next (turn_loop calls)]
    simp only [Async.loop, Async.at, not_le.mpr h, hk, hc, if_false, Bool.false_eq_true]
    rfl
  | hard h hk hc st hlstat hst =>
    rw [exits_lstat h hk hc, hlstat]
    simp only [Async.gotStat, hst, if_true]
    rfl
  | seen h hk hc st hlstat hst linkTarget hseen =>
    rw [exits_lstat h hk hc, hlstat]
    simp only [Async.gotStat, hst, hseen, Bool.true_eq_false, if_false]
    have hsee : ∀ value, (w.next.record w.next.base value).see (st.dev, st.ino) linkTarget =
        w.next.record w.next.base value := fun _ => see_of_seen hseen
    rw [follow, hsee]
    rfl
  | read h hk hc st hlstat hst hseen hstat linkTarget hread =>
    have hcache : w.next.cache = none := by
      by_contra hne
      exact hreads ⟨hne, h, hk, hc, st, linkTarget, hlstat, hst, hseen, hstat, hread⟩
    have hsee : (w.next.see (st.dev, st.ino) linkTarget).cache = none := hcache
    rw [exits_readlink h hk hc hlstat hst hseen hstat, hread, follow, record_of_none hcache]
    simp only [Async.gotLink, Async.gotTarget, record_of_none hsee]
    rfl

/-- So is one that ends. -/
lemma exits_end {r : Except E Str} {c : Option Cache} (hbody : body sys original w = .exit (r, c)) :
    Exits (turn sys original) (.at w calls) x ↔ x = (calls ++ [r], c) := by
  have hcases := body_cases sys original w
  generalize hres : Round.exit (r, c) = res at hbody
  rw [hbody] at hcases
  cases hcases with
  | finished h =>
    cases hres
    have hloop : (Async.at w calls).loop sys original =
        Async.call ⟨w.record original w.p, .loop, calls⟩ (.ok w.p) := if_pos h
    rw [exits_iff_next (turn_loop calls), hloop]
    exact exits_call
  | lstat h hk hc e hlstat =>
    cases hres
    rw [exits_lstat h hk hc, hlstat]
    exact exits_call
  | stat h hk hc st hlstat hst hseen e hstat =>
    cases hres
    have hturn : turn sys original ⟨w.next, .stat (st.dev, st.ino), calls⟩ =
        .next (Async.call ⟨w.next, .stat (st.dev, st.ino), calls⟩ (.error e)) := by
      simp only [turn, hstat]
    rw [exits_stat h hk hc hlstat hst hseen, exits_iff_next hturn]
    exact exits_call
  | unread h hk hc st hlstat hst hseen hstat e hread =>
    cases hres
    rw [exits_readlink h hk hc hlstat hst hseen hstat, hread]
    exact exits_call
  | _ => cases hres

/-- Where no round reads a link, `cb` is called with what the loop ends with, and the cache is the
same. -/
lemma exits_of_quiet {r : Except E Str} {c : Option Cache}
    (h : Exits (body sys original) w (r, c))
    (hquiet : ∀ w', Rounds (body sys original) w w' → ¬Reads sys w') :
    Exits (turn sys original) (.at w calls) x ↔ x = (calls ++ [r], c) := by
  generalize hres : (r, c) = res at h
  induction h with
  | exit hbody =>
    subst hres
    exact exits_end hbody
  | next hbody _ ih =>
    rw [exits_round hbody (hquiet _ .refl)]
    exact ih (fun w' hw' => hquiet w' (hw'.head hbody)) hres

/-! ### The parameter that is left out -/

def undefined : Str := js "undefined"

/-- The cache has something for `undefined`. -/
def Marked (cache : Option Cache) : Prop := ∃ c, cache = some c ∧ c undefined ≠ none

lemma marked_record {key value : Str} (h : Marked w.cache) : Marked (w.record key value).cache := by
  obtain ⟨c, hc, hne⟩ := h
  refine ⟨Function.update c key (some value), by rw [Walk.record, hc]; rfl, ?_⟩
  rw [Function.update_apply]
  split_ifs
  · exact Option.some_ne_none _
  · exact hne

lemma marked_gotTarget {a : Async E} (h : Marked a.walk.cache) (target : Str)
    (base : Option Str) : Marked (a.gotTarget sys target base).walk.cache :=
  marked_record h

/-- An entry for `undefined` stays. -/
lemma marked_turn {a a' : Async E} (h : Marked a.walk.cache)
    (hturn : turn sys original a = .next a') : Marked a'.walk.cache := by
  unfold turn at hturn
  split at hturn
  · cases hturn
    rw [Async.loop]
    dsimp only
    split_ifs
    · exact marked_record h
    · exact h
    · split <;> exact h
  · cases hturn
    unfold Async.gotStat
    split
    · exact h
    · split_ifs
      · exact marked_record h
      · split
        · exact marked_gotTarget h _ _
        · exact h
  · split at hturn
    · cases hturn
      exact h
    · cases hturn
      exact h
  · cases hturn
    unfold Async.gotLink
    split
    · exact h
    · exact marked_gotTarget (a := { a with walk := a.walk.see _ _ }) h _ _
  · cases hturn
    exact h
  · cases hturn

lemma marked_end {a : Async E} (h : Marked a.walk.cache)
    (hexits : Exits (turn sys original) a x) : Marked x.2 := by
  have hexit : ∀ (a : Async E) (x : List (Except E Str) × Option Cache), Marked a.walk.cache →
      turn sys original a = .exit x → Marked x.2 := by
    intro a x ha hturn
    unfold turn at hturn
    split at hturn
    iterate 2 cases hturn
    · split at hturn <;> cases hturn
    iterate 2 cases hturn
    · cases hturn
      exact ha
  exact hexits.invariant (fun _ _ => marked_turn) hexit h

/-- The round that reads a link leaves an entry for `undefined`. -/
lemma exits_reads (h : Reads sys w) (hexits : Exits (turn sys original) (.at w calls) x) :
    Marked x.2 := by
  obtain ⟨hcache, hpos, hk, hc, st, linkTarget, hlstat, hst, hseen, hstat, hread⟩ := h
  rw [exits_readlink hpos hk hc hlstat hst hseen hstat, hread] at hexits
  obtain ⟨c, hc⟩ := Option.ne_none_iff_exists'.mp hcache
  refine marked_end ⟨Function.update c undefined (some (w.next.resolveLink sys linkTarget)), ?_, ?_⟩
    hexits
  · have hrecord : ((w.next.see (st.dev, st.ino) linkTarget).record undefined
        (w.next.resolveLink sys linkTarget)).cache =
          w.cache.map fun c => Function.update c undefined
            (some (w.next.resolveLink sys linkTarget)) := rfl
    rw [hc] at hrecord
    exact hrecord
  · rw [Function.update_self]
    exact Option.some_ne_none _

/-- A walk whose keys are absolute, with a cache that has nothing for `undefined`. -/
structure Fresh (w : Walk) : Prop where
  current : absolute w.current = true
  cache : ¬Marked w.cache

lemma absolute_append {a : Str} (h : absolute a = true) (b : Str) : absolute (a ++ b) = true := by
  cases a with
  | nil => exact absurd h (by decide)
  | cons c a => simpa [absolute] using h

lemma not_marked_record {key : Str} (hkey : absolute key = true) (h : ¬Marked w.cache)
    (value : Str) : ¬Marked (w.record key value).cache := by
  rintro ⟨c, hc, hne⟩
  obtain ⟨c₀, hc₀, rfl⟩ := Option.map_eq_some_iff.mp hc
  have hkey' : undefined ≠ key := by
    rintro rfl
    exact absurd hkey (by decide)
  rw [Function.update_of_ne hkey'] at hne
  exact h ⟨c₀, hc₀, hne⟩

lemma fresh_start (hp : absolute w.p = true) (h : ¬Marked w.cache) : Fresh w.start := by
  refine ⟨?_, h⟩
  cases hw : w.p with
  | nil =>
    rw [hw] at hp
    exact absurd hp (by decide)
  | cons c s =>
    rw [hw] at hp
    have hc : c = slash := by simpa [absolute] using hp
    simp [Walk.start, hw, hc, absolute]

lemma absolute_resolve (sys : System E) (paths : List Str) :
    absolute (resolve sys.cwd paths) = true := by
  rw [resolve_eq sys.absolute_cwd]
  simp [absolute, render]

lemma fresh_jump (h : ¬Marked w.cache) (resolvedLink : Str) :
    Fresh (w.jump sys resolvedLink) := by
  refine fresh_start ?_ h
  exact absolute_resolve sys [resolvedLink, w.p.drop w.pos]

namespace Fresh

variable (h : Fresh w)

include h

lemma base : absolute w.next.base = true := absolute_append h.current _

lemma next : Fresh w.next := ⟨absolute_append (absolute_append h.current _) _, h.cache⟩

lemma follow (id : ℕ × ℕ) (linkTarget : Str) : Fresh (follow sys w.next id linkTarget) := by
  refine fresh_jump ?_ _
  exact not_marked_record h.base h.cache _

lemma body {w' : Walk} (hbody : body sys original w = .next w') : Fresh w' := by
  have hcases := body_cases sys original w
  rw [hbody] at hcases
  cases hcases with
  | known => exact h.next
  | cached _ _ resolvedLink => exact fresh_jump (w := w.next) h.cache resolvedLink
  | hard => exact ⟨h.next.current, not_marked_record h.base h.cache _⟩
  | seen => exact h.follow _ _
  | read => exact h.follow _ _

lemma exit {r : Result E} (horiginal : absolute original = true)
    (hbody : Realpath.body sys original w = .exit r) : ¬Marked r.2 := by
  have hcases := body_cases sys original w
  rw [hbody] at hcases
  cases hcases with
  | finished => exact not_marked_record horiginal h.cache _
  | lstat | stat | unread => exact h.cache

end Fresh

lemma not_marked_end {r : Result E} (horiginal : absolute original = true) (h : Fresh w)
    (hexits : Exits (body sys original) w r) : ¬Marked r.2 :=
  hexits.invariant (fun _ _ hf => hf.body) (fun _ _ hf => hf.exit horiginal) h

/-- The first round that reads a link leaves an entry for `undefined`, and the entry stays. -/
lemma marked_of_reads {w' : Walk} (hrounds : Rounds (body sys original) w w')
    (hreads : Reads sys w') (hexits : Exits (turn sys original) (.at w calls) x) :
    Marked x.2 := by
  induction hrounds using Relation.ReflTransGen.head_induction_on with
  | refl => exact exits_reads hreads hexits
  | @head w w₁ hbody _ ih =>
    by_cases hfirst : Reads sys w
    · exact exits_reads hfirst hexits
    · exact ih ((exits_round hbody hfirst).mp hexits)

/-- The two agree: `cb` is called once, with what `realpathSync` has, and the cache is the same. -/
def Agrees (sys : System E) (p : Str) (cache : Option Cache) (r : Result E) : Prop :=
  ∀ x, Calls sys p cache x ↔ x = ([r.1], r.2)

/-- `realpathSync` reads the target of a link with `readlink`, with a cache to keep it. -/
def ReadsLink (sys : System E) (p : Str) (cache : Option Cache) : Prop :=
  let p := resolve sys.cwd [p]
  (cache.bind fun cache => cache p) = none ∧
    ∃ w, Rounds (body sys p) (.new p cache) w ∧ Reads sys w

lemma cache_none_body {w' : Walk} (h : w.cache = none) (hbody : body sys original w = .next w') :
    w'.cache = none := by
  have hrecord : ∀ key value, (w.next.record key value).cache = none := by
    intro key value
    rw [record_of_none (w := w.next) h]
    exact h
  have hcases := body_cases sys original w
  rw [hbody] at hcases
  cases hcases with
  | known | cached => exact h
  | hard | seen | read => exact hrecord _ _

/-- Without a cache nothing is read into it. -/
lemma not_readsLink_none (sys : System E) (p : Str) : ¬ReadsLink sys p none := by
  have hnone : ∀ w, Rounds (body sys (resolve sys.cwd [p])) (.new (resolve sys.cwd [p]) none) w →
      w.cache = none := by
    intro w hw
    induction hw with
    | refl => rfl
    | tail _ hbody ih => exact cache_none_body ih hbody
  rintro ⟨-, w, hw, hreads⟩
  exact hreads.1 (hnone w hw)

/-- What has been cached for the path itself is called back. -/
lemma agrees_cached {p path : Str} {cache : Option Cache} {r : Result E}
    (hpath : (cache.bind fun cache => cache (resolve sys.cwd [p])) = some path)
    (h : Returns sys p cache r) : Agrees sys p cache r := by
  intro x
  simp only [Returns, hpath] at h
  simp only [Calls, hpath, h]
  obtain ⟨a, ha⟩ : ∃ a : Async E,
    a = ⟨.new (resolve sys.cwd [p]) cache, .cb (.ok path), []⟩ := ⟨_, rfl⟩
  have hturn : turn sys (resolve sys.cwd [p]) a = .next (a.call (.ok path)) := by rw [ha]; rfl
  rw [← ha, exits_iff_next hturn, exits_call, ha]
  rfl

/-- **`realpath` agrees with `realpathSync`** where no link is read into a cache; and only there, if
the cache has nothing for `undefined`. -/
theorem realpath_agrees (sys : System E) {p : Str} {cache : Option Cache} {r : Result E}
    (h : Returns sys p cache r) :
    (¬ReadsLink sys p cache → Agrees sys p cache r) ∧
    (¬Marked cache → Agrees sys p cache r → ¬ReadsLink sys p cache) := by
  cases hpath : cache.bind fun cache => cache (resolve sys.cwd [p]) with
  | some path =>
    refine ⟨fun _ => agrees_cached hpath h, fun _ _ hreads => ?_⟩
    cases hpath.symm.trans hreads.1
  | none =>
    simp only [Returns, hpath] at h
    obtain ⟨r, c⟩ := r
    constructor
    · intro hquiet x
      simp only [Calls, hpath]
      exact exits_of_quiet h fun w hw hreads => hquiet ⟨hpath, w, hw, hreads⟩
    · rintro hmarked hagrees ⟨-, w, hw, hreads⟩
      have hfresh : Fresh (Walk.new (resolve sys.cwd [p]) cache) :=
        fresh_start (absolute_resolve sys [p]) hmarked
      have hexits := (hagrees ([r], c)).mpr rfl
      simp only [Calls, hpath] at hexits
      exact not_marked_end (absolute_resolve sys [p]) hfresh h (marked_of_reads hw hreads hexits)

/-- Without a cache. -/
theorem realpath_agrees_chain : ∃ r, Returns chain (js "/a") none r ∧
    Agrees chain (js "/a") none r := by
  have hrun : (run (body chain (js "/a")) 9 (.new (js "/a") none)).isSome = true := by
    decide +kernel
  obtain ⟨r, hr⟩ := Option.isSome_iff_exists.mp hrun
  have h : Returns chain (js "/a") none r := (exits_iff_run _ _).mpr ⟨9, hr⟩
  exact ⟨r, h, (realpath_agrees chain h).1 (not_readsLink_none chain _)⟩

/-- With an empty cache, which `realpath` leaves with something for `undefined`. -/
theorem not_agrees_chain : ¬∀ r, Returns chain (js "/a") (some fun _ => none) r →
    Agrees chain (js "/a") (some fun _ => none) r := by
  intro hall
  obtain ⟨w, hw⟩ : ∃ w, w = Walk.new (js "/a") (some fun _ => none) := ⟨_, rfl⟩
  have hrun : (run (body chain (js "/a")) 9 w).any
      (fun r => r.2.any fun c => c undefined = none) = true := by
    rw [hw]
    decide +kernel
  have hrun' : (run (turn chain (js "/a")) 30 (.at w [])).any
      (fun r => r.2.any fun c => c undefined ≠ none) = true := by
    rw [hw]
    decide +kernel
  obtain ⟨r, hr, hnone⟩ := Option.any_eq_true _ _ |>.mp hrun
  obtain ⟨x, hx, hsome⟩ := Option.any_eq_true _ _ |>.mp hrun'
  subst hw
  have h : Returns chain (js "/a") (some fun _ => none) r := (exits_iff_run _ _).mpr ⟨9, hr⟩
  have hx' := (hall r h x).mp ((exits_iff_run _ _).mpr ⟨30, hx⟩)
  rw [hx'] at hsome
  obtain ⟨c, hc, hne⟩ := Option.any_eq_true _ _ |>.mp hsome
  rw [hc] at hnone
  simp only [Option.any_some, decide_eq_true_eq] at hnone
  simp [hnone] at hne

end NodeCore.Realpath
