import Mathlib.Tactic

/-!
Code that calls back, and the runs of a system made of it.

A function of the code runs until it returns or until it calls code it knows nothing about.
In the second case it leaves frames, the rest of itself, innermost first; the foreign code may
call any function again before it returns. A boundary frame marks where foreign code was
running when it called.
-/

namespace NodeCore.Reentrant

/-! ### Functions -/

/-- How far a function gets. -/
inductive Res (S F : Type*)
  | ret (s : S)
  | call (s : S) (frames : List F)

variable {S F : Type*}

namespace Res

def state : Res S F → S
  | .ret s => s
  | .call s _ => s

def frames : Res S F → List F
  | .ret _ => []
  | .call _ fs => fs

@[simp] lemma state_ret (s : S) : (Res.ret s : Res S F).state = s := rfl
@[simp] lemma state_call (s : S) (fs : List F) : (Res.call s fs).state = s := rfl
@[simp] lemma frames_ret (s : S) : (Res.ret s : Res S F).frames = [] := rfl
@[simp] lemma frames_call (s : S) (fs : List F) : (Res.call s fs).frames = fs := rfl

/-- Runs a function and then the code of a frame. -/
def andThen (r : Res S F) (f : F) (k : S → Res S F) : Res S F :=
  match r with
  | .ret s => k s
  | .call s fs => .call s (fs ++ [f])

/-- The state and the frames that the function leaves satisfy `I`, over those below. -/
def Keeps (I : S → List F → Prop) (k : List F) (r : Res S F) : Prop := I r.state (r.frames ++ k)

@[simp] lemma keeps_call {I : S → List F → Prop} {k : List F} {s : S} {fs : List F} :
    (Res.call s fs).Keeps I k ↔ I s (fs ++ k) := Iff.rfl

/-- A function that keeps an invariant over a frame, and code of the frame that keeps it. -/
lemma Keeps.andThen {I : S → List F → Prop} {k : List F} {r : Res S F} {f : F}
    {g : S → Res S F} (hr : r.Keeps I (f :: k)) (hg : ∀ s, I s (f :: k) → (g s).Keeps I k) :
    (r.andThen f g).Keeps I k := by
  cases r with
  | ret s => exact hg s hr
  | call s fs =>
    rw [keeps_call] at hr
    simpa [Res.andThen] using hr

/-- A function whose state satisfies `I`, and whose frames all go on top of any that do. -/
lemma Keeps.of_push {I : S → List F → Prop} {k : List F} {r : Res S F} (hr : I r.state k)
    (hpush : ∀ f ∈ r.frames, ∀ l, I r.state l → I r.state (f :: l)) : r.Keeps I k := by
  have hall : ∀ fs : List F, (∀ f ∈ fs, f ∈ r.frames) → I r.state (fs ++ k) := fun fs => by
    induction fs with
    | nil => exact fun _ => hr
    | cons f fs ih =>
      intro hfs
      obtain ⟨hf, hfs⟩ := List.forall_mem_cons.mp hfs
      exact hpush f hf _ (ih hfs)
  exact hall r.frames fun f hf => hf

/-! #### Part of the state -/

variable {T : Type*} {g : S → T}

/-- What the function does to a part of the state. -/
def map (g : S → T) : Res S F → Res T F
  | .ret s => .ret (g s)
  | .call s fs => .call (g s) fs

@[simp] lemma map_ret (s : S) : (Res.ret s : Res S F).map g = .ret (g s) := rfl
@[simp] lemma map_call (s : S) (fs : List F) : (Res.call s fs).map g = .call (g s) fs := rfl

lemma map_andThen {r : Res S F} {f : F} {k : S → Res S F} {l : T → Res T F}
    (h : ∀ s, (k s).map g = l (g s)) : (r.andThen f k).map g = (r.map g).andThen f l := by
  cases r with
  | ret s => exact h s
  | call s fs => rfl

/-! #### Bigger code -/

variable {G : Type*} {put : S → T} {emb : F → G} {called : S → List F → List G}

/-- The function as a part of bigger code. Where it stops, the bigger code may have more to do
before foreign code runs. -/
def within (put : S → T) (emb : F → G) (called : S → List F → List G) : Res S F → Res T G
  | .ret s => .ret (put s)
  | .call s fs => .call (put s) (called s fs ++ fs.map emb)

/-- What the function keeps on its own, it keeps as a part. -/
lemma Keeps.within {I : S → List F → Prop} {g : T → S} {p : G → F} {r : Res S F} {k : List G}
    (hg : ∀ s, g (put s) = s) (hproj : ∀ f, p (emb f) = f)
    (hcalled : ∀ s fs l, I s l → I s ((called s fs).map p ++ l)) (h : r.Keeps I (k.map p)) :
    (r.within put emb called).Keeps (fun t l => I (g t) (l.map p)) k := by
  have hmap (fs : List F) : (fs.map emb).map p = fs := by
    rw [List.map_map]
    exact (List.map_congr_left fun f _ => hproj f).trans (List.map_id fs)
  cases r with
  | ret s =>
    show I (g (put s)) _
    rw [hg]
    exact h
  | call s fs =>
    show I (g (put s)) (List.map p (called s fs ++ fs.map emb ++ k))
    rw [hg, List.map_append, List.map_append, hmap, List.append_assoc]
    exact hcalled s fs _ h

end Res

/-! ### Frames -/

/-- A state with the frames below the foreign code that is running. -/
structure Machine (S F : Type*) where
  st : S
  stack : List F

section Stack

variable (exec : S → F → Res S F) (boundary : F → Bool)

/-- The foreign code returns: frames run up to the next boundary or the next call. -/
def resume (s : S) : List F → Machine S F
  | [] => ⟨s, []⟩
  | f :: k =>
    if boundary f then ⟨s, k⟩
    else match exec s f with
      | .ret s' => resume s' k
      | .call s' fs => ⟨s', fs ++ k⟩

/-- Foreign code calls a function. -/
def enter (mark : F) (m : Machine S F) (r : Res S F) : Machine S F :=
  match r with
  | .ret s => ⟨s, m.stack⟩
  | .call s fs => ⟨s, fs ++ mark :: m.stack⟩

variable {exec boundary} {I : S → List F → Prop}

/-- `C` holds while frames run one after the other, `I` once foreign code runs again. -/
lemma resume_rule {C : S → List F → Prop}
    (hret : ∀ s f k s', boundary f = false → C s (f :: k) → exec s f = .ret s' → C s' k)
    (hcall : ∀ s f k s' fs, boundary f = false → C s (f :: k) → exec s f = .call s' fs →
      I s' (fs ++ k))
    (hpop : ∀ s f k, boundary f = true → C s (f :: k) → I s k) (hnil : ∀ s, C s [] → I s [])
    {s : S} {k : List F} (h : C s k) :
    I (resume exec boundary s k).st (resume exec boundary s k).stack := by
  induction k generalizing s with
  | nil => exact hnil s h
  | cons f k ih =>
    rw [resume]
    split_ifs with hb
    · exact hpop s f k hb h
    · have hb : boundary f = false := by simpa using hb
      cases hr : exec s f with
      | ret s' => exact ih (hret s f k s' hb h hr)
      | call s' fs => exact hcall s f k s' fs hb h hr

lemma resume_keeps (hexec : ∀ s f k, boundary f = false → I s (f :: k) → (exec s f).Keeps I k)
    (hpop : ∀ s f k, boundary f = true → I s (f :: k) → I s k) {s : S} {k : List F}
    (h : I s k) : I (resume exec boundary s k).st (resume exec boundary s k).stack := by
  refine resume_rule (C := I) (fun s f k s' hb hk hr => ?_) (fun s f k s' fs hb hk hr => ?_) hpop
    (fun s hs => hs) h
  · have hkeep := hexec s f k hb hk
    rwa [hr] at hkeep
  · have hkeep := hexec s f k hb hk
    rwa [hr] at hkeep

/-- Each frame that runs before foreign code does meets `P`, which may depend on the state and on
the frames below. -/
def Along (exec : S → F → Res S F) (boundary : F → Bool) (P : S → F → List F → Prop) :
    S → List F → Prop
  | _, [] => True
  | s, f :: k => boundary f = false →
      P s f k ∧ ∀ s', exec s f = .ret s' → Along exec boundary P s' k

section Along

variable {P : S → F → List F → Prop} {s s' : S} {f : F} {k fs : List F}

lemma Along.foreign (h : boundary f = true) : Along exec boundary P s (f :: k) :=
  fun hf => absurd (h.symm.trans hf) Bool.noConfusion

lemma Along.ret (hP : P s f k) (hr : exec s f = .ret s') (h : Along exec boundary P s' k) :
    Along exec boundary P s (f :: k) := fun _ => ⟨hP, fun u hu => by
  obtain rfl := Res.ret.inj (hr.symm.trans hu)
  exact h⟩

lemma Along.call (hP : P s f k) (hr : exec s f = .call s' fs) :
    Along exec boundary P s (f :: k) := fun _ => ⟨hP, fun u hu => by
  rw [hr] at hu
  cases hu⟩

end Along

/-- An invariant that a frame keeps if it meets `P`. -/
lemma resume_along {P : S → F → List F → Prop}
    (hexec : ∀ s f k, boundary f = false → I s (f :: k) → P s f k → (exec s f).Keeps I k)
    (hpop : ∀ s f k, boundary f = true → I s (f :: k) → I s k) {s : S} {k : List F}
    (h : I s k) (hP : Along exec boundary P s k) :
    I (resume exec boundary s k).st (resume exec boundary s k).stack := by
  refine resume_rule (C := fun s k => I s k ∧ Along exec boundary P s k)
    (fun s f k s' hb hc hr => ?_) (fun s f k s' fs hb hc hr => ?_)
    (fun s f k hb hc => hpop s f k hb hc.1) (fun s hc => hc.1) ⟨h, hP⟩
  · obtain ⟨hf, hrest⟩ := hc.2 hb
    have hkeep := hexec s f k hb hc.1 hf
    rw [hr] at hkeep
    exact ⟨hkeep, hrest s' hr⟩
  · have hkeep := hexec s f k hb hc.1 (hc.2 hb).1
    rwa [hr] at hkeep

lemma enter_keeps {mark : F} (hpop : ∀ s k, I s (mark :: k) → I s k) {m : Machine S F}
    {r : Res S F} (h : r.Keeps I (mark :: m.stack)) :
    I (enter mark m r).st (enter mark m r).stack := by
  cases r with
  | ret s => exact hpop s _ h
  | call s fs => exact h

/-! #### Part of the state -/

variable {T : Type*} {g : S → T} {exec' : T → F → Res T F}

def Machine.map (g : S → T) (m : Machine S F) : Machine T F := ⟨g m.st, m.stack⟩

lemma resume_map (h : ∀ s f, (exec s f).map g = exec' (g s) f) {s : S} {k : List F} :
    (resume exec boundary s k).map g = resume exec' boundary (g s) k := by
  induction k generalizing s with
  | nil => rfl
  | cons f k ih =>
    rw [resume, resume, ← h]
    split_ifs
    · rfl
    · cases hr : exec s f with
      | ret s' => exact ih
      | call s' fs => rfl

lemma enter_map {mark : F} {m : Machine S F} {r : Res S F} :
    (enter mark m r).map g = enter mark (m.map g) (r.map g) := by
  cases r with
  | ret s => rfl
  | call s fs => rfl

end Stack

/-! ### Runs -/

variable {M A : Type*} (step : M → A → Option M)

/-- A run all of whose steps satisfy `P`. -/
inductive Run (P : M → A → M → Prop) (m : M) : M → Prop
  | refl : Run P m m
  | step {n : M} {a : A} {n' : M} (h : Run P m n) (hs : step n a = some n') (hP : P n a n') :
      Run P m n'

variable {step}

/-- What holds at the start, and is kept by the steps that a run may take, holds in every
state of the run. -/
theorem Run.invariant {P : M → A → M → Prop} {I : M → Prop} {m n : M} (h : Run step P m n)
    (h0 : I m) (hI : ∀ n a n', I n → step n a = some n' → P n a n' → I n') : I n := by
  induction h with
  | refl => exact h0
  | step h hs hP ih => exact hI _ _ _ ih hs hP

/-- One run behind another. -/
lemma Run.trans {P : M → A → M → Prop} {m n l : M} (h : Run step P m n) (h' : Run step P n l) :
    Run step P m l := by
  induction h' with
  | refl => exact h
  | step _ hs hP ih => exact .step ih hs hP

variable (step) in
/-- The steps of a run, one action after the other, all satisfying `P`. -/
def Path (P : M → A → M → Prop) : M → List A → M → Prop
  | m, [], n => m = n
  | m, a :: as, n => ∃ m', step m a = some m' ∧ P m a m' ∧ Path P m' as n

lemma Run.of_path {P : M → A → M → Prop} {m n l : M} (h : Run step P m n) {w : List A}
    (hp : Path step P n w l) : Run step P m l := by
  induction w generalizing n with
  | nil => exact (hp : n = l) ▸ h
  | cons a as ih =>
    obtain ⟨n', hs, hP, hp⟩ := hp
    exact ih (.step h hs hP) hp

/-- Actions that are taken one after the other, each of them allowed. -/
lemma Run.of_checked {P : M → A → Prop} [∀ m a, Decidable (P m a)] {m n : M} {w : List A}
    (h : w.foldlM (fun m a => if P m a then step m a else none) m = some n) :
    Run step (fun m a _ => P m a) m n := by
  have hpath : ∀ (w : List A) (m : M),
      w.foldlM (fun m a => if P m a then step m a else none) m = some n →
      Path step (fun m a _ => P m a) m w n := fun w => by
    induction w with
    | nil => exact fun m h => Option.some.inj h
    | cons a w ih =>
      intro m h
      obtain ⟨m', hs, h⟩ := Option.bind_eq_some_iff.mp h
      by_cases hP : P m a
      · exact ⟨m', (if_pos hP).symm.trans hs, hP, ih m' h⟩
      · cases (if_neg hP).symm.trans hs
  exact .of_path .refl (hpath w m h)

/-- Actions that are taken one after the other. -/
lemma Run.of_foldlM {m n : M} {w : List A} (h : w.foldlM step m = some n) :
    Run step (fun _ _ _ => True) m n := by
  have hpath : ∀ (w : List A) (m : M), w.foldlM step m = some n →
      Path step (fun _ _ _ => True) m w n := fun w => by
    induction w with
    | nil => exact fun m h => Option.some.inj h
    | cons a w ih =>
      intro m h
      obtain ⟨m', hs, h⟩ := Option.bind_eq_some_iff.mp h
      exact ⟨m', hs, trivial, ih m' h⟩
  exact .of_path .refl (hpath w m h)

end NodeCore.Reentrant
