import NodeCore.Tls

/-!
The hosts that a wildcard name `*.d` of a certificate stands for.

The star takes the dot after it into its replacement unescaped, so that the dot of the pattern
is any character, and it may be empty itself.
-/

namespace NodeCore.TlsWildcard

open NodeCore.Encoding NodeCore.Regex NodeCore.Tls

variable (env : Env)

/-! ### Ordinary names -/

/-- A label without stars. -/
def Label (l : Str) : Prop :=
  l ≠ [] ∧ ∀ c ∈ l, c ≠ 46 ∧ c ≠ 42 ∧ lineTerminator c = false

instance : DecidablePred Label := fun l =>
  decidable_of_iff (l ≠ [] ∧ (l.all fun c => c ≠ 46 && c ≠ 42 && !lineTerminator c) = true)
    (by simp [Label, and_assoc])

/-- Labels with dots between them. -/
inductive Dotted : Str → Prop
  | label {l : Str} (hl : Label l) : Dotted l
  | dot {l d : Str} (hl : Label l) (hd : Dotted d) : Dotted (l ++ 46 :: d)

/-- A dotted name of at least two labels. -/
def Ordinary (d : Str) : Prop := ∃ l d', Label l ∧ Dotted d' ∧ d = l ++ 46 :: d'

lemma Dotted.ne_nil {d : Str} (h : Dotted d) : d ≠ [] := by
  cases h with
  | label hl => exact hl.1
  | dot hl hd => simp

lemma Dotted.chars {d : Str} (h : Dotted d) : ∀ c ∈ d, c ≠ 42 ∧ lineTerminator c = false := by
  induction h with
  | label hl => exact fun c hc => (hl.2 c hc).2
  | dot hl hd ih =>
    intro c hc
    rcases List.mem_append.mp hc with hc | hc
    · exact (hl.2 c hc).2
    · rcases List.mem_cons.mp hc with rfl | hc
      · exact ⟨by decide, by decide⟩
      · exact ih c hc

lemma Dotted.last {d : Str} (h : Dotted d) : d.getLast? ≠ some 46 := by
  induction h with
  | label hl =>
    intro hd
    exact (hl.2 46 (List.mem_of_getLast? hd)).1 rfl
  | dot hl hd ih =>
    obtain ⟨c, t, ht⟩ := List.exists_cons_of_ne_nil hd.ne_nil
    rw [ht] at ih
    rw [List.getLast?_append, ht]
    simpa using ih

lemma Ordinary.dotted {d : Str} (h : Ordinary d) : Dotted d := by
  obtain ⟨l, d', hl, hd, rfl⟩ := h
  exact .dot hl hd

/-! ### The pattern of a wildcard name -/

/-- The escaped text of a name without stars reads as the name. -/
lemma parse_escape {s : Str} (hs : ∀ c ∈ s, c ≠ 42) {r : Str} {t : List (Term UInt16)}
    (hr : parse env 0 r = some t) :
    parse env 0 (escape 0 s ++ r) = some (s.map (lit env) ++ t) := by
  induction s with
  | nil => simpa [escape] using hr
  | cons c s ih =>
    have hc : (c == 42) = false := by simpa using hs c (by simp)
    have ih := ih fun x hx => hs x (by simp [hx])
    have he : escape 0 (c :: s) =
        if special c then 92 :: c :: escape 0 s else c :: escape 0 s := by
      rw [escape]
      intro sub tail h
      simp [hc] at h
    rw [he]
    cases hsp : special c with
    | true =>
      simp [parse, hsp, ih]
    | false =>
      have h94 : c ≠ 94 := by rintro rfl; exact absurd hsp (by decide)
      have h36 : c ≠ 36 := by rintro rfl; exact absurd hsp (by decide)
      have h46 : c ≠ 46 := by rintro rfl; exact absurd hsp (by decide)
      have h91 : c ≠ 91 := by rintro rfl; exact absurd hsp (by decide)
      have h92 : c ≠ 92 := by rintro rfl; exact absurd hsp (by decide)
      simp [parse, hsp, ih, h94, h36, h46, h91, h92]

/-- The characters already read. -/
lemma parse_skip (u r : Str) : parse env u.length (u ++ r) = parse env 0 r := by
  induction u with
  | nil => rfl
  | cons c u ih => simpa [parse] using ih

/-- The terms of the name `*.d`. -/
def wildcardTerms (d : Str) : List (Term UInt16) :=
  .bol :: .many (word env) :: .one any :: (d ++ [46]).map (lit env) ++ [.eol]

lemma parse_wildcard {d : Str} (hd : ∀ c ∈ d, c ≠ 42) :
    parse env 0 (94 :: escape 0 (42 :: 46 :: (d ++ [46])) ++ [36]) =
      some (wildcardTerms env d) := by
  have he : escape 0 (42 :: 46 :: (d ++ [46])) =
      91 :: (wordTail ++ (46 :: escape 0 (d ++ [46]))) := by
    have h : afterStar 46 = true := by decide
    simp [escape, h]
  have hd' : ∀ c ∈ d ++ [46], c ≠ 42 := by
    intro c hc
    rcases List.mem_append.mp hc with hc | hc
    · exact hd c hc
    · rw [List.mem_singleton.mp hc]
      decide
  have hend : parse env 0 [36] = some [.eol] := rfl
  have htail : parse env wordTail.length
      (wordTail ++ (46 :: (escape 0 (d ++ [46]) ++ [36]))) =
      some (.one any :: (d ++ [46]).map (lit env) ++ [.eol]) := by
    rw [parse_skip]
    simp only [parse, parse_escape env hd' hend]
    rfl
  rw [he]
  have hp : wordTail.isPrefixOf (wordTail ++ (46 :: (escape 0 (d ++ [46]) ++ [36]))) = true := by
    simp [List.isPrefixOf_iff_prefix]
  simp only [List.cons_append, List.append_assoc, parse]
  simp only [hp, htail]
  rfl

/-! ### `regexpify` of a wildcard name -/

lemma endsWithDot_wildcard {d : Str} (hd : Dotted d) : endsWithDot (42 :: 46 :: d) = false := by
  obtain ⟨c, t, ht⟩ := List.exists_cons_of_ne_nil hd.ne_nil
  have hl := hd.last
  rw [ht] at hl ⊢
  simpa [endsWithDot] using hl

/-- There is one star, and it comes first. -/
lemma lateStar_wildcard {s : Str} (hs : ∀ c ∈ s, c ≠ 42) :
    test lateStar (42 :: s) = false := by
  by_contra h
  obtain ⟨u, v, huv, hv⟩ := test_iff.mp (by simpa using h)
  obtain ⟨c, r, rfl, -, hr⟩ := matchAt_one.mp hv
  obtain ⟨w, r, rfl, -, hr⟩ := matchAt_many.mp hr
  obtain ⟨x, r, rfl, hx, -⟩ := matchAt_one.mp hr
  obtain rfl : x = 42 := by simpa [isStar] using hx
  have hmem : (42 : UInt16) ∈ s := by
    cases u with
    | nil =>
      rw [List.nil_append] at huv
      obtain ⟨-, rfl⟩ := List.cons.inj huv
      simp
    | cons y u =>
      rw [List.cons_append] at huv
      obtain ⟨-, rfl⟩ := List.cons.inj huv
      simp
  exact hs 42 hmem rfl

lemma any_of_label {l : Str} (hl : ∀ c ∈ l, lineTerminator c = false) : ∀ c ∈ l, any c = true :=
  fun c hc => by simp [any, hl c hc]

lemma starTwoDots_wildcard {l d : Str} (hl : Label l) (hd : Dotted d) :
    test starTwoDots (42 :: 46 :: (l ++ 46 :: d ++ [46])) = true := by
  obtain ⟨a, l', rfl⟩ := List.exists_cons_of_ne_nil hl.1
  obtain ⟨b, d', rfl⟩ := List.exists_cons_of_ne_nil hd.ne_nil
  have hany := any_of_label fun c hc => (hl.2 c hc).2.2
  have hb : any b = true := by simp [any, (hd.chars b (by simp)).2]
  refine test_iff.mpr ⟨[], _, rfl, matchAt_one.mpr ⟨42, _, rfl, by decide, ?_⟩⟩
  refine matchAt_many.mpr ⟨[], _, rfl, by simp, matchAt_one.mpr ⟨46, _, rfl, by decide, ?_⟩⟩
  refine matchAt_one.mpr ⟨a, _, rfl, hany a (by simp), ?_⟩
  refine matchAt_many.mpr ⟨l', 46 :: b :: (d' ++ [46]), by simp,
    fun c hc => hany c (by simp [hc]), ?_⟩
  refine matchAt_one.mpr ⟨46, _, rfl, by decide, matchAt_one.mpr ⟨b, _, rfl, hb, ?_⟩⟩
  exact matchAt_many.mpr ⟨[], _, rfl, by simp, rfl⟩

/-- The expression of a wildcard name. -/
lemma regexpify_wildcard {d : Str} (hd : Ordinary d) :
    regexpify env (42 :: 46 :: d) true = some (test (wildcardTerms env d)) := by
  have hdot := hd.dotted
  have hu : uniform (42 :: 46 :: d) = 42 :: 46 :: (d ++ [46]) := by
    simp [uniform, endsWithDot_wildcard hdot]
  have hs : ∀ c ∈ 46 :: (d ++ [46]), c ≠ 42 := by
    intro c hc
    rcases List.mem_cons.mp hc with rfl | hc
    · decide
    · rcases List.mem_append.mp hc with hc | hc
      · exact (hdot.chars c hc).1
      · rw [List.mem_singleton.mp hc]
        decide
  have h1 := lateStar_wildcard hs
  have h2 : test starTwoDots (42 :: 46 :: (d ++ [46])) = true := by
    obtain ⟨l, d', hl, hd', rfl⟩ := hd
    exact starTwoDots_wildcard hl hd'
  have h3 := parse_wildcard env fun c hc => (hdot.chars c hc).1
  rw [regexpify, hu, h1, h2, regExp]
  simp only [Bool.not_true, Bool.false_and, Bool.and_false, Bool.or_false, Bool.false_eq_true,
    if_false, h3]

/-! ### The hosts it matches -/

/-- The names agree up to case. -/
def SameCase (s t : Str) : Prop := s.map (canonicalize env) = t.map (canonicalize env)

/-- A host without one trailing dot. -/
def stripDot (host : Str) : Str := if endsWithDot host then host.dropLast else host

lemma uniform_eq (host : Str) : uniform host = stripDot host ++ [46] := by
  unfold uniform stripDot
  cases h : endsWithDot host with
  | true =>
    obtain ⟨t, rfl⟩ := List.getLast?_eq_some_iff.mp (by simpa [endsWithDot] using h)
    simp
  | false => simp

lemma lit_iff {s t : Str} : List.Forall₂ (fun p c => p c = true)
      (s.map fun d => fun c => canonicalize env c == canonicalize env d) t ↔
    SameCase env t s := by
  unfold SameCase
  induction s generalizing t with
  | nil => cases t <;> simp
  | cons a s ih =>
    cases t with
    | nil => simp
    | cons b t => simp [ih]

lemma matchAt_name {d u : Str} {start : Bool} :
    matchAt ((d ++ [46]).map (lit env) ++ [.eol]) start u = true ↔
      SameCase env u (d ++ [46]) := by
  have h : (d ++ [46]).map (lit env) = ((d ++ [46]).map fun d => fun c =>
      canonicalize env c == canonicalize env d).map Term.one := by
    rw [List.map_map]
    rfl
  rw [h, matchAt_text_eol, lit_iff]

lemma SameCase.length {s t : Str} (h : SameCase env s t) : s.length = t.length := by
  simpa using congrArg List.length h

/-- A text that reads as `d.` and ends with a dot. -/
lemma sameCase_concat {s d : Str} :
    SameCase env (s ++ [46]) (d ++ [46]) ↔ SameCase env s d := by
  simp [SameCase]

/-- What the expression of `*.d` accepts: word characters, any one character, and the name. -/
theorem wildcard_test_iff {d host : Str} :
    test (wildcardTerms env d) (uniform host) = true ↔
      ∃ w c d', stripDot host = w ++ c :: d' ∧ (∀ x ∈ w, word env x = true) ∧
        lineTerminator c = false ∧ SameCase env d' d := by
  rw [uniform_eq, wildcardTerms, List.cons_append, List.cons_append, List.cons_append, test_bol]
  constructor
  · intro h
    obtain ⟨w, r, hs, hw, hr⟩ := matchAt_many.mp h
    obtain ⟨c, r, rfl, hc, hr⟩ := matchAt_one.mp hr
    have hr := (matchAt_name env).mp hr
    have hne : r ≠ [] := by
      rintro rfl
      simpa using hr.length
    obtain ⟨d', x, rfl⟩ := (List.eq_nil_or_concat r).resolve_left hne
    rw [List.concat_eq_append] at hs hr
    have hs' : stripDot host ++ [46] = (w ++ c :: d') ++ [x] := by simpa using hs
    obtain ⟨h1, h2⟩ := List.append_inj' hs' rfl
    obtain rfl : 46 = x := by simpa using h2
    exact ⟨w, c, d', h1, hw, by simpa [any] using hc, (sameCase_concat env).mp hr⟩
  · rintro ⟨w, c, d', hs, hw, hc, hd⟩
    refine matchAt_many.mpr ⟨w, c :: (d' ++ [46]), by simp [hs], hw, ?_⟩
    refine matchAt_one.mpr ⟨c, d' ++ [46], rfl, by simp [any, hc], ?_⟩
    exact (matchAt_name env).mpr ((sameCase_concat env).mpr hd)

/-! ### One label and the name -/

/-- The host is one label, a dot, and the name. -/
def OneLabel (host d : Str) : Prop :=
  ∃ l d', stripDot host = l ++ 46 :: d' ∧ l ≠ [] ∧ 46 ∉ l ∧ SameCase env d' d

/-- Between the word and the name there is another character than a dot, or there is no word
before the dot. -/
def Slip (host d : Str) : Prop :=
  ∃ w c d', stripDot host = w ++ c :: d' ∧ (∀ x ∈ w, word env x = true) ∧
    lineTerminator c = false ∧ SameCase env d' d ∧ (c ≠ 46 ∨ w = [])

lemma word_ne_dot {x : UInt16} (hx : word env x = true) : x ≠ 46 := by
  rintro rfl
  have h46 : canonicalize env 46 = 46 := by simp [canonicalize]
  have hset : (wordSet.all fun d =>
      d < 128 && (if 97 ≤ d ∧ d ≤ 122 then d - 32 else d) ≠ 46) = true := by
    decide
  obtain ⟨d, hd, he⟩ := List.any_eq_true.mp hx
  have hd := List.all_eq_true.mp hset d hd
  rw [Bool.and_eq_true, decide_eq_true_eq, decide_eq_true_eq] at hd
  obtain ⟨h1, h2⟩ := hd
  rw [h46, beq_iff_eq] at he
  simp only [canonicalize, h1, if_true] at he
  exact h2 he

/-- A text is cut in one way before a name of a given length. -/
lemma cut_unique {u v s t : Str} {a b : UInt16} (h : u ++ a :: s = v ++ b :: t)
    (hl : s.length = t.length) : u = v ∧ a = b ∧ s = t := by
  obtain ⟨rfl, h2⟩ := List.append_inj' h (by simp [hl])
  obtain ⟨rfl, rfl⟩ := List.cons.inj h2
  exact ⟨rfl, rfl, rfl⟩

/-- A host that the expression accepts is one label and the name unless it is a slip. -/
lemma oneLabel_iff {d host : Str} (h : test (wildcardTerms env d) (uniform host) = true) :
    OneLabel env host d ↔ ¬ Slip env host d := by
  obtain ⟨w, c, d', hs, hw, hc, hd⟩ := (wildcard_test_iff env).mp h
  constructor
  · rintro ⟨l, e, hl, hne, -, he⟩ ⟨w', c', e', hs', -, -, he', hslip⟩
    rw [hs'] at hl
    obtain ⟨rfl, rfl, -⟩ := cut_unique hl (by rw [he'.length, he.length])
    exact hslip.elim (fun h => h rfl) hne
  · intro hno
    by_cases hgood : c = 46 ∧ w ≠ []
    · obtain ⟨rfl, hne⟩ := hgood
      exact ⟨w, d', hs, hne, fun hm => word_ne_dot env (hw 46 hm) rfl, hd⟩
    · exact absurd ⟨w, c, d', hs, hw, hc, hd, by tauto⟩ hno

/-! ### `checkServerIdentity` -/

/-- The alternative names are DNS names. -/
def DnsOnly (cert : Cert) : Prop := ∀ a ∈ altnames cert, (js "DNS:").isPrefixOf a = true

instance : DecidablePred DnsOnly := fun cert =>
  inferInstanceAs (Decidable (∀ a ∈ altnames cert, (js "DNS:").isPrefixOf a = true))

/-- The certificate is accepted, and the entry `*.d` matches. -/
def AcceptsBy (host : Str) (cert : Cert) (d : Str) : Prop :=
  checkServerIdentity env host cert = some true ∧
    ∃ re, regexpify env (42 :: 46 :: d) true = some re ∧ re (uniform host) = true

lemma uriNames_of_dnsOnly {cert : Cert} (h : DnsOnly cert) : uriNames env cert = [] := by
  have hne : ∀ a : Str, (js "DNS:").isPrefixOf a = true → (js "URI:").isPrefixOf a = false := by
    intro a ha
    obtain ⟨t, rfl⟩ := List.isPrefixOf_iff_prefix.mp ha
    rfl
  have hnil : withPrefix (js "URI:") (altnames cert) = [] :=
    List.filterMap_eq_nil_iff.mpr fun a ha => by simp [hne a (h a ha)]
  rw [uriNames, hnil]
  rfl

lemma mapM_mem {α β : Type*} {f : α → Option β} {l : List α} {bs : List β}
    (h : l.mapM f = some bs) {a : α} (ha : a ∈ l) : ∃ b ∈ bs, f a = some b := by
  induction l generalizing bs with
  | nil => simp at ha
  | cons x l ih =>
    rw [List.mapM_cons] at h
    obtain ⟨b, hb, h⟩ := Option.bind_eq_some_iff.mp h
    obtain ⟨bs', hbs, h⟩ := Option.bind_eq_some_iff.mp h
    obtain rfl : b :: bs' = bs := Option.some.inj h
    rcases List.mem_cons.mp ha with rfl | ha
    · exact ⟨b, by simp, hb⟩
    · obtain ⟨b', hb', he⟩ := ih hbs ha
      exact ⟨b', by simp [hb'], he⟩

lemma mapM_some {α β : Type*} {f : α → Option β} {l : List α} (h : ∀ a ∈ l, f a ≠ none) :
    ∃ bs, l.mapM f = some bs := by
  induction l with
  | nil => exact ⟨[], rfl⟩
  | cons x l ih =>
    obtain ⟨b, hb⟩ := Option.ne_none_iff_exists'.mp (h x (by simp))
    obtain ⟨bs, hbs⟩ := ih fun a ha => h a (by simp [ha])
    exact ⟨b :: bs, by rw [List.mapM_cons, hb, hbs]; rfl⟩

/-- With DNS names only, the answer is whether one of their expressions matches. -/
lemma checkServerIdentity_dns {host : Str} {cert : Cert} (hip : env.isIP host = false)
    (hdns : DnsOnly cert) (hne : dnsNames cert ≠ []) :
    checkServerIdentity env host cert =
      ((dnsNames cert).mapM fun name => regexpify env name true).map fun res =>
        res.any fun re => re (uniform host) := by
  simp only [checkServerIdentity, hip, Bool.false_eq_true, if_false,
    uriNames_of_dnsOnly env hdns]
  cases h : (dnsNames cert).mapM fun name => regexpify env name true with
  | none => rfl
  | some res =>
    obtain ⟨a, t, ha⟩ := List.exists_cons_of_ne_nil hne
    obtain ⟨b, hb, -⟩ := mapM_mem h (a := a) (by simp [ha])
    have hres : res ≠ [] := List.ne_nil_of_mem hb
    simp [hres]

/-- **A wildcard stands for one label, except for the slips**: a certificate that is accepted
for its entry `*.d` names the host as one label and `d` exactly when the host does not run
into the name without a dot, or start with it. (If the pattern of another entry is no regular
expression, nothing is accepted.) -/
theorem wildcard_oneLabel_iff {host : Str} {cert : Cert} {d : Str}
    (hip : env.isIP host = false) (hdns : DnsOnly cert) (hd : Ordinary d)
    (hmem : 42 :: 46 :: d ∈ dnsNames cert) :
    (AcceptsBy env host cert d → OneLabel env host d) ↔
      ¬ Slip env host d ∨ ∃ name ∈ dnsNames cert, regexpify env name true = none := by
  have hcheck := checkServerIdentity_dns env hip hdns (List.ne_nil_of_mem hmem)
  have hre := regexpify_wildcard env hd
  constructor
  · intro h
    by_contra hno
    push Not at hno
    obtain ⟨hslip, hsome⟩ := hno
    have htest : test (wildcardTerms env d) (uniform host) = true := by
      obtain ⟨w, c, d', h1, h2, h3, h4, -⟩ := hslip
      exact (wildcard_test_iff env).mpr ⟨w, c, d', h1, h2, h3, h4⟩
    obtain ⟨res, hres⟩ := mapM_some hsome
    obtain ⟨re, hin, he⟩ := mapM_mem hres hmem
    have htrue : (res.any fun re => re (uniform host)) = true := by
      refine List.any_eq_true.mpr ⟨re, hin, ?_⟩
      obtain rfl : test (wildcardTerms env d) = re := by
        rw [hre] at he
        exact Option.some.inj he
      exact htest
    rw [hres, Option.map_some, htrue] at hcheck
    exact (oneLabel_iff env htest).mp (h ⟨hcheck, _, hre, htest⟩) hslip
  · rintro hcond ⟨hacc, re, he, htest⟩
    rw [hre] at he
    obtain rfl := Option.some.inj he
    rcases hcond with hslip | ⟨name, hname, hnone⟩
    · exact (oneLabel_iff env htest).mpr hslip
    · rw [hcheck] at hacc
      obtain ⟨res, hres, -⟩ := Option.map_eq_some_iff.mp hacc
      obtain ⟨re, -, hsome⟩ := mapM_mem hres hname
      rw [hnone] at hsome
      cases hsome

/-- An engine for names of ASCII letters, which need nothing of it. -/
def asciiEnv : Env := ⟨id, fun _ => none, fun _ => false, fun _ => none⟩

def exampleCert : Cert := ⟨js "DNS:*.example.com, DNS:example.org", .missing⟩

lemma example_ordinary : Ordinary (js "example.com") :=
  ⟨js "example", js "com", by decide, .label (by decide), by decide⟩

theorem wildcard_oneLabel_www :
    AcceptsBy asciiEnv (js "www.example.com") exampleCert (js "example.com") ∧
      OneLabel asciiEnv (js "www.example.com") (js "example.com") := by
  have hacc : AcceptsBy asciiEnv (js "www.example.com") exampleCert (js "example.com") :=
    ⟨by decide, _, regexpify_wildcard asciiEnv example_ordinary, by decide⟩
  refine ⟨hacc, (wildcard_oneLabel_iff asciiEnv rfl (by decide) example_ordinary
    (by decide)).mpr (.inl ?_) hacc⟩
  rintro ⟨w, c, d', hs, -, -, hd, hslip⟩
  have hcut : js "www" ++ 46 :: js "example.com" = w ++ c :: d' := by rw [← hs]; decide
  obtain ⟨rfl, rfl, -⟩ := cut_unique hcut hd.length.symm
  exact absurd hslip (by decide)

/-- The dot of the pattern is any character. -/
theorem wildcard_fooexample :
    ¬ ∀ host, AcceptsBy asciiEnv host exampleCert (js "example.com") →
      OneLabel asciiEnv host (js "example.com") := by
  intro h
  obtain ⟨l, d', hs, -, -, hd⟩ := h (js "fooexample.com")
    ⟨by decide, _, regexpify_wildcard asciiEnv example_ordinary, by decide⟩
  have hcut : js "fo" ++ 111 :: js "example.com" = l ++ 46 :: d' := by rw [← hs]; decide
  obtain ⟨-, h111, -⟩ := cut_unique hcut hd.length.symm
  exact absurd h111 (by decide)

end NodeCore.TlsWildcard
