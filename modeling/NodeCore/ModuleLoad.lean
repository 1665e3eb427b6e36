import NodeCore.Encoding
import NodeCore.Reentrant

/-!
The loading of modules.

A module is put into the cache and into the children of the module that requires it, and then it
runs. If it throws, it is taken out of the cache.
-/

namespace NodeCore.ModuleLoad

open NodeCore.Encoding NodeCore.Reentrant

structure Module where
  id : Str
  parent : Option ℕ
  filename : Option Str
  loaded : Bool
  children : List ℕ
  deriving DecidableEq

structure State where
  modules : ℕ → Module
  /-- How many modules there are. -/
  count : ℕ
  cache : Str → Option ℕ
  mainModule : Option ℕ

def State.new : State where
  modules _ := ⟨[], none, none, false, []⟩
  count := 0
  cache _ := none
  mainModule := none

/-- A `Module._load` whose module runs. -/
structure Frame where
  module : ℕ
  filename : Str
  parent : Option ℕ
  /-- Proof-only: the state when it was called. -/
  before : State

abbrev System := Machine State Frame

def System.new : System := ⟨.new, []⟩

namespace State

variable (t : State)

def set (n : ℕ) (m : Module) : State := { t with modules := Function.update t.modules n m }

/-- `new Module`; a parent without `children` is no parent. -/
def construct (id : Str) (parent : Option ℕ) : State :=
  let t := match parent with
    | none => t
    | some p => t.set p { t.modules p with children := (t.modules p).children ++ [t.count] }
  { t.set t.count ⟨id, parent, none, false, []⟩ with count := t.count + 1 }

/-- The module `n` is the main one. -/
def main (n : ℕ) : State := { t.set n { t.modules n with id := js "." } with mainModule := some n }

end State

section Model

variable (native : Str → Bool)

/-- `Module._load` up to where the module runs; `native` is `NativeModule.exists`, and `resolved` is
what `_resolveFilename` has found, which throws if there is nothing. -/
def load (m : System) (resolved : Option Str) (parent : Option ℕ) (isMain : Bool) : System :=
  match resolved with
  | none => m
  | some filename =>
    if (m.st.cache filename).isSome then m
    else if native filename then
      if filename = js "repl" then { m with st := m.st.construct (js "repl") none } else m
    else
      let n := m.st.count
      let t := m.st.construct filename parent
      let t := if isMain then t.main n else t
      let t := { t with cache := Function.update t.cache filename (some n) }
      -- `Module.prototype.load`
      let t := t.set n { t.modules n with filename := some filename }
      ⟨t, ⟨n, filename, parent, m.st⟩ :: m.stack⟩

/-- The code that runs is the code of the module on top of the stack, or none of a module that is
being loaded. It may make any module require, and catches what it wants to catch. -/
inductive Act
  | require (parent : Option ℕ) (resolved : Option Str) (isMain : Bool)
  | returns
  /-- Also where the module has no code that could run. -/
  | throws
  deriving DecidableEq

def step (m : System) : Act → Option System
  | .require parent resolved isMain =>
    if ∀ p ∈ parent, p < m.st.count then some (load native m resolved parent isMain) else none
  | .returns => match m.stack with
    | [] => none
    | f :: k => some ⟨m.st.set f.module { m.st.modules f.module with loaded := true }, k⟩
  | .throws => match m.stack with
    | [] => none
    | f :: k => some ⟨{ m.st with cache := Function.update m.st.cache f.filename none }, k⟩

end Model

/-! ### The claim -/

/-- The module has been made and has finished loading in between. -/
def Finished (before after : State) (n : ℕ) : Prop :=
  before.count ≤ n ∧ n < after.count ∧ (after.modules n).loaded = true

/-- **What is claimed** of a load that fails. -/
structure NoTrace (before after : State) (parent : Option ℕ) : Prop where
  cache : ∀ name, after.cache name = before.cache name ∨
    before.cache name = none ∧ ∃ n, after.cache name = some n ∧ Finished before after n
  children : ∀ p ∈ parent, ∃ more,
    (after.modules p).children = (before.modules p).children ++ more ∧
      ∀ n ∈ more, Finished before after n

/-! ### Loads that are going on -/

/-- What is true of a load with those `above` it. -/
structure Frame.Good (t : State) (above : List Frame) (f : Frame) : Prop where
  new : f.before.count ≤ f.module
  lt : f.module < t.count
  running : (t.modules f.module).loaded = false
  parent : ∀ p ∈ f.parent, p < t.count
  child : ∀ p ∈ f.parent, f.module ∈ (t.modules p).children
  older : ∀ p, ∀ n ∈ (f.before.modules p).children, n < f.before.count
  cache : ∀ name, t.cache name = f.before.cache name ∨ f.before.cache name = none ∧
    ∃ n, t.cache name = some n ∧ f.before.count ≤ n ∧ n < t.count ∧
      ((t.modules n).loaded = true ∨ ∃ g ∈ f :: above, g.module = n ∧ g.filename = name)
  absent : ∀ g ∈ f :: above, f.before.cache g.filename = none
  apart : ∀ g ∈ above, g.module ≠ f.module

/-- A module is a child, or in the cache, only if it exists. -/
structure Good (m : System) : Prop where
  children : ∀ p, ∀ n ∈ (m.st.modules p).children, n < m.st.count
  frames : ∀ above f below, m.stack = above ++ f :: below → f.Good m.st above

section Steps

variable {native : Str → Bool} {m m' : System} {f g : Frame} {above k : List Frame} {t : State}

/-- Nothing is left of the module in the cache. -/
lemma Frame.Good.throws (h : f.Good t (g :: above)) :
    f.Good { t with cache := Function.update t.cache g.filename none } above := by
  have hkeep : ∀ x ∈ f :: above, x ∈ f :: g :: above := fun x hx => by
    rcases List.mem_cons.mp hx with rfl | hx
    · exact List.mem_cons_self
    · exact List.mem_cons_of_mem _ (List.mem_cons_of_mem _ hx)
  refine ⟨h.new, h.lt, h.running, h.parent, h.child, h.older, fun name => ?_,
    fun x hx => h.absent x (hkeep x hx), fun x hx => h.apart x (List.mem_cons_of_mem _ hx)⟩
  by_cases hname : name = g.filename
  · refine .inl ?_
    rw [hname, h.absent g (List.mem_cons_of_mem _ List.mem_cons_self)]
    exact Function.update_self _ _ _
  · dsimp only
    rw [Function.update_of_ne hname]
    rcases h.cache name with heq | ⟨hnone, n, hn, hle, hlt, hload⟩
    · exact .inl heq
    · refine .inr ⟨hnone, n, hn, hle, hlt, hload.imp_right ?_⟩
      rintro ⟨x, hx, rfl, hfile⟩
      refine ⟨x, ?_, rfl, hfile⟩
      rcases List.mem_cons.mp hx with rfl | hx
      · exact List.mem_cons_self
      rcases List.mem_cons.mp hx with rfl | hx
      · exact absurd hfile.symm hname
      · exact List.mem_cons_of_mem _ hx

lemma set_loaded (p : ℕ) :
    ((t.set g.module { t.modules g.module with loaded := true }).modules p).children =
      (t.modules p).children ∧
    ((t.set g.module { t.modules g.module with loaded := true }).modules p).loaded =
      (decide (p = g.module) || (t.modules p).loaded) := by
  unfold State.set
  dsimp only
  by_cases hp : p = g.module
  · rw [hp, Function.update_self]
    exact ⟨rfl, by simp⟩
  · rw [Function.update_of_ne hp]
    exact ⟨rfl, by simp [hp]⟩

lemma Frame.Good.returns (h : f.Good t (g :: above)) :
    f.Good (t.set g.module { t.modules g.module with loaded := true }) above := by
  have hkeep : ∀ x ∈ f :: above, x ∈ f :: g :: above := fun x hx => by
    rcases List.mem_cons.mp hx with rfl | hx
    · exact List.mem_cons_self
    · exact List.mem_cons_of_mem _ (List.mem_cons_of_mem _ hx)
  have hne : f.module ≠ g.module := (h.apart g List.mem_cons_self).symm
  refine ⟨h.new, h.lt, ?_, h.parent, fun p hp => ?_, h.older, fun name => ?_,
    fun x hx => h.absent x (hkeep x hx), fun x hx => h.apart x (List.mem_cons_of_mem _ hx)⟩
  · rw [(set_loaded f.module).2, h.running]
    simp [hne]
  · rw [(set_loaded p).1]
    exact h.child p hp
  · refine (h.cache name).imp_right ?_
    rintro ⟨hnone, n, hn, hle, hlt, hload⟩
    refine ⟨hnone, n, hn, hle, hlt, ?_⟩
    rw [(set_loaded n).2, Bool.or_eq_true, decide_eq_true_eq]
    rcases hload with hload | ⟨x, hx, rfl, hfile⟩
    · exact .inl (.inr hload)
    rcases List.mem_cons.mp hx with rfl | hx
    · exact .inr ⟨x, List.mem_cons_self, rfl, hfile⟩
    rcases List.mem_cons.mp hx with rfl | hx
    · exact .inl (.inl rfl)
    · exact .inr ⟨x, List.mem_cons_of_mem _ hx, rfl, hfile⟩

lemma construct_spec (t : State) (id : Str) (parent : Option ℕ) :
    (t.construct id parent).modules t.count = ⟨id, parent, none, false, []⟩ ∧
      (∀ p, p ≠ t.count → (t.construct id parent).modules p = { t.modules p with
        children := (t.modules p).children ++ if parent = some p then [t.count] else [] }) ∧
      (t.construct id parent).count = t.count + 1 ∧ (t.construct id parent).cache = t.cache := by
  unfold State.construct State.set
  cases parent with
  | none =>
    refine ⟨Function.update_self _ _ _, fun p hp => ?_, rfl, rfl⟩
    dsimp only
    rw [Function.update_of_ne hp, if_neg (Option.some_ne_none p).symm, List.append_nil]
  | some q =>
    refine ⟨Function.update_self _ _ _, fun p hp => ?_, rfl, rfl⟩
    dsimp only
    rw [Function.update_of_ne hp]
    by_cases hpq : p = q
    · rw [hpq, Function.update_self, if_pos rfl]
    · rw [Function.update_of_ne hpq, if_neg fun hc => hpq (Option.some.inj hc).symm,
        List.append_nil]

/-- A module has been made. -/
structure Grown (t t' : State) (parent : Option ℕ) : Prop where
  count : t'.count = t.count + 1
  self : (t'.modules t.count).loaded = false ∧ (t'.modules t.count).children = []
  loaded : ∀ p, p ≠ t.count → (t'.modules p).loaded = (t.modules p).loaded
  children : ∀ p, p ≠ t.count → (t'.modules p).children =
    (t.modules p).children ++ if parent = some p then [t.count] else []
  cache : t'.cache = t.cache

lemma grown_construct (t : State) (id : Str) (parent : Option ℕ) :
    Grown t (t.construct id parent) parent := by
  obtain ⟨hself, hother, hcount, hcache⟩ := construct_spec t id parent
  refine ⟨hcount, ?_, fun p hp => ?_, fun p hp => ?_, hcache⟩
  · rw [hself]
    exact ⟨rfl, rfl⟩
  · rw [hother p hp]
  · rw [hother p hp]

/-- What is set on the new module. -/
lemma Grown.set {t' : State} {parent : Option ℕ} {new : Module} (h : Grown t t' parent)
    (hloaded : new.loaded = false) (hchildren : new.children = []) :
    Grown t (t'.set t.count new) parent := by
  have hself : (t'.set t.count new).modules t.count = new := Function.update_self _ _ _
  have hother : ∀ p, p ≠ t.count → (t'.set t.count new).modules p = t'.modules p :=
    fun p hp => Function.update_of_ne hp _ _
  refine ⟨h.count, ?_, fun p hp => ?_, fun p hp => ?_, h.cache⟩
  · rw [hself]
    exact ⟨hloaded, hchildren⟩
  · rw [hother p hp]
    exact h.loaded p hp
  · rw [hother p hp]
    exact h.children p hp

lemma Frame.Good.grown {t' : State} {parent : Option ℕ} (h : f.Good t above)
    (hm : Grown t t' parent) : f.Good t' above := by
  have hlt : ∀ n, n < t.count → n < t'.count := fun n hn => by
    rw [hm.count]
    omega
  refine ⟨h.new, hlt _ h.lt, ?_, fun p hp => hlt p (h.parent p hp), fun p hp => ?_, h.older,
    fun file => ?_, h.absent, h.apart⟩
  · rw [hm.loaded _ h.lt.ne]
    exact h.running
  · rw [hm.children p (h.parent p hp).ne]
    exact List.mem_append_left _ (h.child p hp)
  · rw [hm.cache]
    refine (h.cache file).imp_right ?_
    rintro ⟨hnone, n, hn, hle, hn', hload⟩
    refine ⟨hnone, n, hn, hle, hlt n hn', ?_⟩
    rwa [hm.loaded n hn'.ne]

/-- A load goes on while another one starts. -/
lemma Frame.Good.cached {name : Str} (h : f.Good t above) (hnone : t.cache name = none)
    (hfile : g.filename = name) (hnew : f.module < g.module) (hlt : g.module < t.count) :
    f.Good { t with cache := Function.update t.cache name (some g.module) } (g :: above) := by
  have hbefore : f.before.cache name = none := by
    rcases h.cache name with heq | ⟨hnone, -⟩
    · rw [← heq, hnone]
    · exact hnone
  refine ⟨h.new, h.lt, h.running, h.parent, h.child, h.older, fun file => ?_, fun x hx => ?_,
    fun x hx => ?_⟩
  · dsimp only
    by_cases hname : file = name
    · rw [hname, Function.update_self]
      refine .inr ⟨hbefore, g.module, rfl, h.new.trans hnew.le, hlt, .inr ?_⟩
      exact ⟨g, List.mem_cons_of_mem _ List.mem_cons_self, rfl, hfile⟩
    · rw [Function.update_of_ne hname]
      refine (h.cache file).imp_right ?_
      rintro ⟨hnone, n, hn, hle, hlt, hload⟩
      refine ⟨hnone, n, hn, hle, hlt, hload.imp_right ?_⟩
      rintro ⟨x, hx, hxn, hxf⟩
      refine ⟨x, ?_, hxn, hxf⟩
      rcases List.mem_cons.mp hx with rfl | hx
      · exact List.mem_cons_self
      · exact List.mem_cons_of_mem _ (List.mem_cons_of_mem _ hx)
  · rcases List.mem_cons.mp hx with rfl | hx
    · exact h.absent x List.mem_cons_self
    rcases List.mem_cons.mp hx with rfl | hx
    · rw [hfile]
      exact hbefore
    · exact h.absent x (List.mem_cons_of_mem _ hx)
  · rcases List.mem_cons.mp hx with rfl | hx
    · exact hnew.ne'
    · exact h.apart x hx

/-- A load that has just started. -/
lemma Grown.good {t' : State} {parent : Option ℕ} {name : Str} (hm : Grown t t' parent)
    (hnone : t.cache name = none) (hparent : ∀ p ∈ parent, p < t.count)
    (hold : ∀ p, ∀ n ∈ (t.modules p).children, n < t.count) :
    Frame.Good { t' with cache := Function.update t.cache name (some t.count) } []
      ⟨t.count, name, parent, t⟩ := by
  have hlt : t.count < t'.count := hm.count ▸ Nat.lt_succ_self _
  refine ⟨le_rfl, hlt, hm.self.1, fun p hp => (hparent p hp).trans hlt, fun p hp => ?_, hold,
    fun file => ?_, fun x hx => ?_, fun x hx => by cases hx⟩
  · have hp : parent = some p := hp
    dsimp only
    rw [hm.children p (hparent p hp).ne, if_pos hp]
    exact List.mem_append_right _ (List.mem_singleton_self _)
  · dsimp only
    by_cases hfile : file = name
    · rw [hfile, Function.update_self]
      exact .inr ⟨hnone, t.count, rfl, le_rfl, hlt, .inr ⟨_, List.mem_cons_self, rfl, rfl⟩⟩
    · exact .inl (Function.update_of_ne hfile _ _)
  · rw [List.mem_singleton.mp hx]
    exact hnone

lemma Grown.lt {t' : State} {parent : Option ℕ} (hm : Grown t t' parent)
    (h : ∀ p, ∀ n ∈ (t.modules p).children, n < t.count) (p n : ℕ)
    (hn : n ∈ (t'.modules p).children) : n < t'.count := by
  rw [hm.count]
  by_cases hp : p = t.count
  · rw [hp, hm.self.2] at hn
    cases hn
  rw [hm.children p hp, List.mem_append] at hn
  rcases hn with hn | hn
  · exact (h p n hn).trans (Nat.lt_succ_self _)
  split_ifs at hn
  · rw [List.mem_singleton.mp hn]
    exact Nat.lt_succ_self _
  · cases hn

/-- What `_load` does before code runs. -/
lemma load_cases (native : Str → Bool) (m : System) (resolved : Option Str) (parent : Option ℕ)
    (isMain : Bool) :
    load native m resolved parent isMain = m ∨
      load native m resolved parent isMain = ⟨m.st.construct (js "repl") none, m.stack⟩ ∨
      ∃ name t', Grown m.st t' parent ∧ m.st.cache name = none ∧
        load native m resolved parent isMain =
          ⟨{ t' with cache := Function.update m.st.cache name (some m.st.count) },
            ⟨m.st.count, name, parent, m.st⟩ :: m.stack⟩ := by
  unfold load
  cases resolved with
  | none => exact .inl rfl
  | some filename =>
    dsimp only
    by_cases hcached : (m.st.cache filename).isSome
    · rw [if_pos hcached]
      exact .inl rfl
    rw [if_neg hcached]
    by_cases hnative : native filename
    · rw [if_pos hnative]
      split_ifs
      · exact .inr (.inl rfl)
      · exact .inl rfl
    rw [if_neg hnative]
    have hnone : m.st.cache filename = none := Option.not_isSome_iff_eq_none.mp hcached
    have hm := grown_construct m.st filename parent
    have hmain : Grown m.st (if isMain then (m.st.construct filename parent).main m.st.count
        else m.st.construct filename parent) parent := by
      split_ifs
      · have hset : Grown m.st ((m.st.construct filename parent).set m.st.count
            { (m.st.construct filename parent).modules m.st.count with id := js "." }) parent :=
          hm.set hm.self.1 hm.self.2
        exact ⟨hset.count, hset.self, hset.loaded, hset.children, hset.cache⟩
      · exact hm
    generalize (if isMain then (m.st.construct filename parent).main m.st.count
      else m.st.construct filename parent) = t' at hmain ⊢
    refine .inr (.inr ⟨filename, t'.set m.st.count
      { t'.modules m.st.count with filename := some filename }, hmain.set hmain.self.1
        hmain.self.2, hnone, ?_⟩)
    rw [← hmain.cache]
    rfl

/-- **Step lemma.** -/
lemma Good.step {a : Act} (h : Good m) (hs : step native m a = some m') : Good m' := by
  cases a with
  | require parent resolved isMain =>
    rw [ModuleLoad.step] at hs
    split_ifs at hs with hparent
    obtain rfl := Option.some.inj hs
    rcases load_cases native m resolved parent isMain with
      heq | heq | ⟨name, t', hm, hnone, heq⟩
    · rw [heq]
      exact h
    · rw [heq]
      have hm := grown_construct m.st (js "repl") none
      exact ⟨hm.lt h.children, fun above f below hf => (h.frames above f below hf).grown hm⟩
    · rw [heq]
      refine ⟨hm.lt h.children, fun above f below hf => ?_⟩
      cases above with
      | nil =>
        obtain ⟨rfl, -⟩ := List.cons.inj hf
        exact hm.good hnone hparent h.children
      | cons g above =>
        obtain ⟨rfl, hrest⟩ := List.cons.inj hf
        have hf := h.frames above f below hrest
        have hgood := (hf.grown hm).cached (g := ⟨m.st.count, name, parent, m.st⟩)
          (hm.cache ▸ hnone) rfl hf.lt (hm.count ▸ Nat.lt_succ_self _)
        rwa [hm.cache] at hgood
  | returns =>
    rw [ModuleLoad.step] at hs
    cases hstack : m.stack with
    | nil =>
      rw [hstack] at hs
      cases hs
    | cons g k =>
      rw [hstack] at hs
      obtain rfl := Option.some.inj hs
      refine ⟨fun p n hn => ?_, fun above f below hf => ?_⟩
      · rw [(set_loaded p).1] at hn
        exact h.children p n hn
      · exact (h.frames (g :: above) f below (hstack.trans (congrArg (g :: ·) hf))).returns
  | throws =>
    rw [ModuleLoad.step] at hs
    cases hstack : m.stack with
    | nil =>
      rw [hstack] at hs
      cases hs
    | cons g k =>
      rw [hstack] at hs
      obtain rfl := Option.some.inj hs
      exact ⟨h.children, fun above f below hf =>
        (h.frames (g :: above) f below (hstack.trans (congrArg (g :: ·) hf))).throws⟩

end Steps

theorem good_of_run {native : Str → Bool} {m : System}
    (h : Run (step native) (fun _ _ _ => True) .new m) : Good m := by
  refine h.invariant ⟨fun p n hn => (by cases hn), fun above f below hf => ?_⟩
    fun _ _ _ hgood hs _ => hgood.step hs
  cases above <;> cases hf

/-- **When a load that fails leaves no trace.** -/
theorem noTrace_iff {native : Str → Bool} {m m' : System} {f : Frame} {k : List Frame}
    (h : Run (step native) (fun _ _ _ => True) .new m) (hs : step native m .throws = some m')
    (hf : m.stack = f :: k) : NoTrace f.before m'.st f.parent ↔ f.parent = none := by
  have hgood := (good_of_run h).frames [] f k hf
  rw [step, hf] at hs
  obtain rfl := Option.some.inj hs
  constructor
  · intro htrace
    -- the module is still a child of its parent, and has not been loaded
    by_contra hne
    obtain ⟨p, hp⟩ := Option.ne_none_iff_exists'.mp hne
    obtain ⟨more, heq, hmore⟩ := htrace.children p hp
    have hchild := hgood.child p hp
    rw [show (m.st.modules p).children = _ from heq, List.mem_append] at hchild
    rcases hchild with hchild | hchild
    · exact absurd (hgood.older p _ hchild) (not_lt.mpr hgood.new)
    · have hloaded : (m.st.modules f.module).loaded = true := (hmore _ hchild).2.2
      rw [hgood.running] at hloaded
      cases hloaded
  · intro hnone
    refine ⟨fun name => ?_, fun p hp => ?_⟩
    · dsimp only
      by_cases hname : name = f.filename
      · rw [hname, Function.update_self, hgood.absent f List.mem_cons_self]
        exact .inl rfl
      · rw [Function.update_of_ne hname]
        refine (hgood.cache name).imp_right ?_
        rintro ⟨habsent, n, hn, hle, hlt, hload⟩
        refine ⟨habsent, n, hn, hle, hlt, ?_⟩
        rcases hload with hload | ⟨g, hg, -, hfile⟩
        · exact hload
        · rw [List.mem_singleton.mp hg] at hfile
          exact absurd hfile.symm hname
    · rw [hnone] at hp
      cases hp

/-- A main module that throws, after it has loaded another one. -/
theorem noTrace_iff_main : ∃ (f : Frame) (t : State), f.filename = js "/main.js" ∧
    (NoTrace f.before t f.parent ↔ f.parent = none) := by
  have hrun : Run (step fun _ => false) (fun _ _ _ => True) .new _ :=
    .of_foldlM (w := [.require none (some (js "/main.js")) true,
      .require (some 0) (some (js "/a.js")) false, .returns]) rfl
  have hiff := noTrace_iff hrun rfl rfl
  exact ⟨_, _, rfl, hiff⟩

/-- A module that throws, required by the main module. -/
theorem not_noTrace_child : ¬ ∀ (native : Str → Bool) (m m' : System) (f : Frame) (k : List Frame),
    Run (step native) (fun _ _ _ => True) .new m → step native m .throws = some m' →
      m.stack = f :: k → NoTrace f.before m'.st f.parent := by
  intro h
  have hrun : Run (step fun _ => false) (fun _ _ _ => True) .new _ :=
    .of_foldlM (w := [.require none (some (js "/main.js")) true,
      .require (some 0) (some (js "/bad.js")) false]) rfl
  obtain ⟨more, heq, hmore⟩ := (h _ _ _ _ _ hrun rfl rfl).children 0 rfl
  have hone : [1] = more := heq
  have hloaded := (hmore 1 (hone ▸ List.mem_singleton_self 1)).2.2
  exact absurd hloaded (by decide)

end NodeCore.ModuleLoad
