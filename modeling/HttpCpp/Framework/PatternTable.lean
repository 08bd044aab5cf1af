import Mathlib.Data.List.Basic
import Mathlib.Data.List.Forall2
import Mathlib.Data.List.Infix

namespace HttpCpp

/-- One segment of a pattern: a literal, or a variable that stands for any one segment. -/
inductive Seg (σ ι : Type*) where
  | static (s : σ)
  | dynamic (i : ι)
  deriving DecidableEq

/-- Patterns with what is registered for them, in the order of registration. -/
abbrev PatternTable (σ ι β : Type*) := List (List (Seg σ ι) × β)

namespace PatternTable

variable {σ ι β : Type*}

/-- The entries whose next segment is a variable of any name, that segment removed. -/
def deriveDynamic (T : PatternTable σ ι β) : PatternTable σ ι β :=
  T.filterMap fun e =>
    match e.1 with
    | .dynamic _ :: rest => some (rest, e.2)
    | _ => none

/-- The name of the next variable of the first entry that has one next. -/
def headIdent (T : PatternTable σ ι β) : Option ι :=
  T.findSome? fun e =>
    match e.1 with
    | .dynamic i :: _ => some i
    | _ => none

/-- A pattern fits a path segment by segment. -/
def Fits (pattern : List (Seg σ ι)) (path : List σ) : Prop :=
  List.Forall₂ (fun x s => ∀ t, x = .static t → t = s) pattern path

/-- Some entry spells out what the path has where the pattern has a variable, after the same
segments. -/
def Shadowed (T : PatternTable σ ι β) (pattern : List (Seg σ ι)) (path : List σ) : Prop :=
  ∃ front i back s front' back', pattern = front ++ .dynamic i :: back ∧
    path = front' ++ s :: back' ∧ front.length = front'.length ∧
    ∃ e ∈ T, front ++ [.static s] <+: e.1

/-- The pattern the static-first walk along a path arrives at. -/
def Selects (T : PatternTable σ ι β) (pattern : List (Seg σ ι)) (path : List σ) : Prop :=
  Fits pattern path ∧ ¬Shadowed T pattern path

/-- Entries that agree up to a place name the variable of that place alike. -/
def Coherent (T : PatternTable σ ι β) : Prop :=
  ∀ e ∈ T, ∀ e' ∈ T, ∀ front i j,
    front ++ [.dynamic i] <+: e.1 → front ++ [.dynamic j] <+: e'.1 → i = j

/-- The names of a pattern's variables, in order. -/
def idents : List (Seg σ ι) → List ι
  | [] => []
  | .static _ :: rest => idents rest
  | .dynamic i :: rest => i :: idents rest

/-- A segment of a path that a pattern goes along with: a literal itself, some other for a
variable. -/
def fill (other : σ) : Seg σ ι → σ
  | .static s => s
  | .dynamic _ => other

/-- A segment of the path that a pattern stands for when its variables have these values. -/
def fillWith (value : ι → σ) : Seg σ ι → σ
  | .static s => s
  | .dynamic i => value i

/-- The values a path gives to a pattern's variables, in order. -/
def assignments : List (Seg σ ι) → List σ → List (ι × σ)
  | .static _ :: pattern, _ :: path => assignments pattern path
  | .dynamic i :: pattern, s :: path => (i, s) :: assignments pattern path
  | _, _ => []

theorem idents_append (pattern pattern' : List (Seg σ ι)) :
    idents (pattern ++ pattern') = idents pattern ++ idents pattern' := by
  induction pattern with
  | nil => rfl
  | cons x pattern ih =>
    cases x with
    | static s => exact ih
    | dynamic i =>
      show i :: idents (pattern ++ pattern') = i :: (idents pattern ++ idents pattern')
      rw [ih]

theorem mem_idents (i : ι) (pattern : List (Seg σ ι)) :
    i ∈ idents pattern ↔ .dynamic i ∈ pattern := by
  induction pattern with
  | nil => simp [idents]
  | cons x pattern ih => cases x <;> simp [idents, ih]

theorem mem_deriveDynamic (T : PatternTable σ ι β) (rest : List (Seg σ ι)) (b : β) :
    (rest, b) ∈ deriveDynamic T ↔ ∃ i, (.dynamic i :: rest, b) ∈ T := by
  simp only [deriveDynamic, List.mem_filterMap, Prod.exists]
  constructor
  · intro h
    obtain ⟨p, b', hmem, hs⟩ := h
    rcases p with _ | ⟨s | i, p⟩
    · simp at hs
    · simp at hs
    · simp only [Option.some.injEq, Prod.mk.injEq] at hs
      obtain ⟨rfl, rfl⟩ := hs
      exact ⟨i, hmem⟩
  · intro h
    obtain ⟨i, hmem⟩ := h
    exact ⟨.dynamic i :: rest, b, hmem, rfl⟩

theorem fits_nil (path : List σ) : Fits ([] : List (Seg σ ι)) path ↔ path = [] :=
  List.forall₂_nil_left_iff

theorem fits_static (t s : σ) (pattern : List (Seg σ ι)) (path : List σ) :
    Fits (.static t :: pattern) (s :: path) ↔ t = s ∧ Fits pattern path := by
  simp [Fits]

theorem fits_dynamic (i : ι) (s : σ) (pattern : List (Seg σ ι)) (path : List σ) :
    Fits (.dynamic i :: pattern) (s :: path) ↔ Fits pattern path := by
  simp [Fits]

theorem fits_fillWith (value : ι → σ) (pattern : List (Seg σ ι)) :
    Fits pattern (pattern.map (fillWith value)) := by
  induction pattern with
  | nil => exact (fits_nil []).mpr rfl
  | cons x pattern ih =>
    cases x with
    | static t => exact (fits_static t t pattern _).mpr ⟨rfl, ih⟩
    | dynamic i => exact (fits_dynamic i (value i) pattern _).mpr ih

theorem assignments_fillWith (value : ι → σ) (pattern : List (Seg σ ι)) :
    assignments pattern (pattern.map (fillWith value)) =
      (idents pattern).map fun i => (i, value i) := by
  induction pattern with
  | nil => rfl
  | cons x pattern ih =>
    cases x with
    | static t => exact ih
    | dynamic i =>
      show (i, value i) :: assignments pattern (pattern.map (fillWith value)) = _
      rw [ih]
      rfl

/-- A path that fits is the one its own values stand for. -/
theorem map_fillWith (value : ι → σ) (pattern : List (Seg σ ι)) (path : List σ)
    (hfits : Fits pattern path) (h : ∀ e ∈ assignments pattern path, value e.1 = e.2) :
    pattern.map (fillWith value) = path := by
  induction path generalizing pattern with
  | nil =>
    cases pattern with
    | nil => rfl
    | cons x pattern => simp [Fits] at hfits
  | cons s path ih =>
    rcases pattern with _ | ⟨t | i, pattern⟩
    · simp [Fits] at hfits
    · obtain ⟨rfl, hrest⟩ := (fits_static t s pattern path).mp hfits
      show t :: pattern.map (fillWith value) = t :: path
      rw [ih pattern hrest h]
    · obtain ⟨hvalue, hrest⟩ := List.forall_mem_cons.mp h
      show value i :: pattern.map (fillWith value) = s :: path
      rw [hvalue, ih pattern ((fits_dynamic i s pattern path).mp hfits) hrest]

theorem shadowed_nil (T : PatternTable σ ι β) (path : List σ) : ¬Shadowed T [] path := by
  intro hshadowed
  obtain ⟨front, i, back, s, front', back', h, -⟩ := hshadowed
  simp at h

theorem shadowed_append (T T' : PatternTable σ ι β) (pattern : List (Seg σ ι)) (path : List σ) :
    Shadowed (T ++ T') pattern path ↔ Shadowed T pattern path ∨ Shadowed T' pattern path := by
  constructor
  · intro h
    obtain ⟨front, i, back, s, front', back', hp, hs, hl, e, he, hpre⟩ := h
    rcases List.mem_append.mp he with he | he
    · exact Or.inl ⟨front, i, back, s, front', back', hp, hs, hl, e, he, hpre⟩
    · exact Or.inr ⟨front, i, back, s, front', back', hp, hs, hl, e, he, hpre⟩
  · intro h
    rcases h with ⟨front, i, back, s, front', back', hp, hs, hl, e, he, hpre⟩ |
      ⟨front, i, back, s, front', back', hp, hs, hl, e, he, hpre⟩
    · exact ⟨front, i, back, s, front', back', hp, hs, hl, e, List.mem_append_left T' he, hpre⟩
    · exact ⟨front, i, back, s, front', back', hp, hs, hl, e, List.mem_append_right T he, hpre⟩

section Derivatives

variable [DecidableEq σ] [DecidableEq ι]

/-- The rest of a pattern that starts with a segment. -/
def strip (x : Seg σ ι) (e : List (Seg σ ι) × β) : Option (List (Seg σ ι) × β) :=
  match e.1 with
  | [] => none
  | y :: rest => if y = x then some (rest, e.2) else none

/-- The entries whose next segment is `x`, that segment removed. -/
def derive (x : Seg σ ι) (T : PatternTable σ ι β) : PatternTable σ ι β := T.filterMap (strip x)

/-- The entries that stay after a path segment: the literal ones when there are any,
otherwise those with a variable. -/
def next (T : PatternTable σ ι β) (s : σ) : PatternTable σ ι β :=
  if derive (.static s) T ≠ [] then derive (.static s) T else deriveDynamic T

/-- The entries that start with some segments, those removed. -/
def descend (T : PatternTable σ ι β) (front : List (Seg σ ι)) : PatternTable σ ι β :=
  front.foldl (fun T x => derive x T) T

/-- The entries that stay after a whole path. -/
def reach (T : PatternTable σ ι β) (path : List σ) : PatternTable σ ι β := path.foldl next T

/-- The variables a path binds on its way, each with its segment. -/
def bindings : PatternTable σ ι β → List σ → List (ι × σ)
  | _, [] => []
  | T, s :: path =>
    if derive (.static s) T ≠ [] then bindings (next T s) path
    else (headIdent T).toList.map (·, s) ++ bindings (next T s) path

theorem mem_derive (x : Seg σ ι) (T : PatternTable σ ι β) (rest : List (Seg σ ι)) (b : β) :
    (rest, b) ∈ derive x T ↔ (x :: rest, b) ∈ T := by
  simp only [derive, List.mem_filterMap, Prod.exists]
  constructor
  · intro h
    obtain ⟨p, b', hmem, hs⟩ := h
    cases p with
    | nil => simp [strip] at hs
    | cons y p =>
      simp only [strip] at hs
      split_ifs at hs with hy
      simp only [Option.some.injEq, Prod.mk.injEq] at hs
      obtain ⟨rfl, rfl⟩ := hs
      exact hy ▸ hmem
  · intro hmem
    exact ⟨x :: rest, b, hmem, by simp [strip]⟩

theorem mem_descend (T : PatternTable σ ι β) (front rest : List (Seg σ ι)) (b : β) :
    (rest, b) ∈ descend T front ↔ (front ++ rest, b) ∈ T := by
  induction front generalizing T with
  | nil => rfl
  | cons x front ih =>
    show (rest, b) ∈ descend (derive x T) front ↔ _
    rw [ih, mem_derive, List.cons_append]

theorem descend_nil (front : List (Seg σ ι)) : descend ([] : PatternTable σ ι β) front = [] := by
  induction front with
  | nil => rfl
  | cons x front ih => exact ih

theorem derive_snoc_end (x : Seg σ ι) (T : PatternTable σ ι β) (b : β) :
    derive x (T ++ [([], b)]) = derive x T := by
  simp [derive, strip]

theorem derive_snoc_same (x : Seg σ ι) (T : PatternTable σ ι β) (rest : List (Seg σ ι)) (b : β) :
    derive x (T ++ [(x :: rest, b)]) = derive x T ++ [(rest, b)] := by
  simp [derive, strip]

theorem derive_snoc_ne (x y : Seg σ ι) (T : PatternTable σ ι β) (rest : List (Seg σ ι)) (b : β)
    (h : y ≠ x) : derive x (T ++ [(y :: rest, b)]) = derive x T := by
  simp [derive, strip, h]

theorem derive_ne_nil_of_mem (x : Seg σ ι) (T : PatternTable σ ι β) (rest : List (Seg σ ι)) (b : β)
    (h : (x :: rest, b) ∈ T) : derive x T ≠ [] :=
  List.ne_nil_of_mem ((mem_derive x T rest b).mpr h)

theorem next_static (T : PatternTable σ ι β) (s : σ) (h : derive (.static s) T ≠ []) :
    next T s = derive (.static s) T := by
  simp [next, h]

theorem next_dynamic (T : PatternTable σ ι β) (s : σ) (h : derive (.static s) T = []) :
    next T s = deriveDynamic T := by
  simp [next, h]

theorem bindings_static (T : PatternTable σ ι β) (s : σ) (path : List σ)
    (h : derive (.static s) T ≠ []) :
    bindings T (s :: path) = bindings (derive (.static s) T) path := by
  simp [bindings, next_static T s h, h]

theorem bindings_dynamic (T : PatternTable σ ι β) (s : σ) (path : List σ)
    (h : derive (.static s) T = []) :
    bindings T (s :: path) =
      (headIdent T).toList.map (·, s) ++ bindings (deriveDynamic T) path := by
  simp [bindings, next_dynamic T s h, h]

theorem reach_nil (path : List σ) : reach ([] : PatternTable σ ι β) path = [] := by
  induction path with
  | nil => rfl
  | cons s path ih => exact ih

theorem bindings_nil (path : List σ) : bindings ([] : PatternTable σ ι β) path = [] := by
  induction path with
  | nil => rfl
  | cons s path ih => exact ih

/-- When all next variables have one name, that name's entries are all there are. -/
theorem deriveDynamic_eq (T : PatternTable σ ι β) (i : ι)
    (h : ∀ j, j ≠ i → derive (.dynamic j) T = []) : deriveDynamic T = derive (.dynamic i) T := by
  apply List.filterMap_congr
  intro e he
  obtain ⟨p, b⟩ := e
  rcases p with _ | ⟨s | j, p⟩
  · rfl
  · simp [strip]
  · have hj : j = i := by
      by_contra hne
      exact derive_ne_nil_of_mem (.dynamic j) T p b he (h j hne)
    simp [strip, hj]

theorem deriveDynamic_none (T : PatternTable σ ι β) (h : ∀ i, derive (.dynamic i) T = []) :
    deriveDynamic T = [] := by
  apply List.eq_nil_iff_forall_not_mem.mpr
  intro e he
  obtain ⟨i, hi⟩ := (mem_deriveDynamic T e.1 e.2).mp he
  exact derive_ne_nil_of_mem _ T e.1 e.2 hi (h i)

theorem headIdent_none (T : PatternTable σ ι β) (h : ∀ i, derive (.dynamic i) T = []) :
    headIdent T = none := by
  rw [headIdent, List.findSome?_eq_none_iff]
  intro e he
  obtain ⟨p, b⟩ := e
  rcases p with _ | ⟨s | i, p⟩
  · rfl
  · rfl
  · exact absurd (h i) (derive_ne_nil_of_mem (.dynamic i) T p b he)

theorem headIdent_eq (T : PatternTable σ ι β) (i : ι) (hne : derive (.dynamic i) T ≠ [])
    (h : ∀ j, j ≠ i → derive (.dynamic j) T = []) : headIdent T = some i := by
  cases hf : headIdent T with
  | none =>
    obtain ⟨⟨rest, b⟩, hmem⟩ := List.exists_mem_of_ne_nil _ hne
    have he := (mem_derive (.dynamic i) T rest b).mp hmem
    have hnone := List.findSome?_eq_none_iff.mp hf _ he
    simp at hnone
  | some j =>
    obtain ⟨⟨p, b⟩, he, hs⟩ := List.exists_of_findSome?_eq_some hf
    rcases p with _ | ⟨s | i', p⟩
    · simp at hs
    · simp at hs
    · simp only [Option.some.injEq] at hs
      subst hs
      by_cases hj : i' = i
      · rw [hj]
      · exact absurd (h i' hj) (derive_ne_nil_of_mem (.dynamic i') T p b he)

theorem coherent_derive (x : Seg σ ι) (T : PatternTable σ ι β) (h : Coherent T) :
    Coherent (derive x T) := by
  intro e he e' he' front i j hi hj
  obtain ⟨p, b⟩ := e
  obtain ⟨p', b'⟩ := e'
  exact h _ ((mem_derive x T p b).mp he) _ ((mem_derive x T p' b').mp he') (x :: front) i j
    ((List.prefix_cons_inj x).mpr hi) ((List.prefix_cons_inj x).mpr hj)

/-- In a coherent table only one variable can come next. -/
theorem coherent_single (T : PatternTable σ ι β) (h : Coherent T) (i : ι) (rest : List (Seg σ ι))
    (b : β) (hmem : (.dynamic i :: rest, b) ∈ T) (j : ι) (hne : j ≠ i) :
    derive (.dynamic j) T = [] := by
  by_contra hj
  obtain ⟨⟨p, c⟩, hp⟩ := List.exists_mem_of_ne_nil _ hj
  exact hne (h _ ((mem_derive _ T p c).mp hp) _ hmem [] j i ⟨p, rfl⟩ ⟨rest, rfl⟩)

theorem deriveDynamic_of_mem (T : PatternTable σ ι β) (h : Coherent T) (i : ι)
    (rest : List (Seg σ ι)) (b : β) (hmem : (.dynamic i :: rest, b) ∈ T) :
    deriveDynamic T = derive (.dynamic i) T :=
  deriveDynamic_eq T i (coherent_single T h i rest b hmem)

theorem coherent_deriveDynamic (T : PatternTable σ ι β) (h : Coherent T) :
    Coherent (deriveDynamic T) := by
  intro e hmem
  obtain ⟨rest, b⟩ := e
  obtain ⟨i, hi⟩ := (mem_deriveDynamic T rest b).mp hmem
  have hc := coherent_derive (.dynamic i) T h
  rw [← deriveDynamic_of_mem T h i rest b hi] at hc
  exact hc _ hmem

omit [DecidableEq σ] [DecidableEq ι] in
theorem place_unique (p front : List (Seg σ ι)) (i j : ι) (hi : front ++ [.dynamic i] <+: p)
    (hj : front ++ [.dynamic j] <+: p) : i = j := by
  obtain ⟨rest, rfl⟩ := hi
  obtain ⟨rest', h⟩ := hj
  simp only [List.append_assoc, List.singleton_append, List.append_cancel_left_eq, List.cons.injEq,
    Seg.dynamic.injEq] at h
  exact h.1.symm

omit [DecidableEq σ] [DecidableEq ι] in
theorem coherent_snoc_nil (T : PatternTable σ ι β) (b : β) :
    Coherent (T ++ [([], b)]) ↔ Coherent T := by
  constructor
  · intro h e he e' he'
    exact h e (List.mem_append_left _ he) e' (List.mem_append_left _ he')
  · intro h e he e' he' front i j hi hj
    rcases List.mem_append.mp he with he | he
    · rcases List.mem_append.mp he' with he' | he'
      · exact h e he e' he' front i j hi hj
      · rw [List.mem_singleton.mp he'] at hj
        simp at hj
    · rw [List.mem_singleton.mp he] at hi
      simp at hi

/-- A pattern fits into a coherent table when its first variable agrees with the next variables and
its rest fits into what follows. -/
theorem coherent_snoc_cons (T : PatternTable σ ι β) (hT : Coherent T) (x : Seg σ ι)
    (rest : List (Seg σ ι)) (b : β) : Coherent (T ++ [(x :: rest, b)]) ↔
      (∀ i j, x = .dynamic i → derive (.dynamic j) T ≠ [] → j = i) ∧
        Coherent (derive x T ++ [(rest, b)]) := by
  have hlast : (x :: rest, b) ∈ T ++ [(x :: rest, b)] := by simp
  constructor
  · intro h
    refine ⟨?_, ?_⟩
    · intro i j hx hj
      obtain ⟨⟨p, c⟩, hmem⟩ := List.exists_mem_of_ne_nil _ hj
      have he := List.mem_append_left [(x :: rest, b)] ((mem_derive _ T p c).mp hmem)
      exact h _ he _ hlast [] j i ⟨p, rfl⟩ ⟨rest, by rw [hx]; rfl⟩
    · have hderive := coherent_derive x _ h
      rwa [derive_snoc_same] at hderive
  · intro hfits
    obtain ⟨hnext, hrest⟩ := hfits
    have hnew : (rest, b) ∈ derive x T ++ [(rest, b)] := by simp
    -- an old entry against the new one, split at the place of the variable
    have hmixed : ∀ e ∈ T, ∀ front i j, front ++ [.dynamic i] <+: e.1 →
        front ++ [.dynamic j] <+: x :: rest → i = j := by
      intro e he front i j hi hj
      obtain ⟨p, c⟩ := e
      obtain ⟨q, rfl⟩ := hi
      cases front with
      | nil =>
        obtain ⟨hx, -⟩ := List.cons_prefix_cons.mp hj
        exact hnext j i hx.symm (derive_ne_nil_of_mem _ T q c he)
      | cons y front =>
        obtain ⟨rfl, hfront⟩ := List.cons_prefix_cons.mp hj
        have hold : (front ++ [.dynamic i] ++ q, c) ∈ derive y T ++ [(rest, b)] :=
          List.mem_append_left _ ((mem_derive y T _ c).mpr he)
        exact hrest _ hold _ hnew front i j ⟨q, rfl⟩ hfront
    intro e he e' he' front i j hi hj
    rcases List.mem_append.mp he with he | he <;> rcases List.mem_append.mp he' with he' | he'
    · exact hT e he e' he' front i j hi hj
    · rw [List.mem_singleton.mp he'] at hj
      exact hmixed e he front i j hi hj
    · rw [List.mem_singleton.mp he] at hi
      exact (hmixed e' he' front j i hj hi).symm
    · rw [List.mem_singleton.mp he] at hi
      rw [List.mem_singleton.mp he'] at hj
      exact place_unique _ front i j hi hj

omit [DecidableEq σ] [DecidableEq ι] in
theorem coherent_congr (T T' : PatternTable σ ι β) (h : ∀ e, e ∈ T ↔ e ∈ T') (hT : Coherent T) :
    Coherent T' := by
  intro e he e' he'
  exact hT e ((h e).mpr he) e' ((h e').mpr he')

theorem derive_congr (x : Seg σ ι) (T T' : PatternTable σ ι β) (h : ∀ e, e ∈ T ↔ e ∈ T') (e) :
    e ∈ derive x T ↔ e ∈ derive x T' := by
  obtain ⟨p, b⟩ := e
  rw [mem_derive, mem_derive, h]

theorem derive_eq_nil_congr (x : Seg σ ι) (T T' : PatternTable σ ι β)
    (h : ∀ e, e ∈ T ↔ e ∈ T') : derive x T = [] ↔ derive x T' = [] := by
  simp only [List.eq_nil_iff_forall_not_mem, derive_congr x T T' h]

/-- In coherent tables the order of the entries does not choose the next variable. -/
theorem headIdent_congr (T T' : PatternTable σ ι β) (hT : Coherent T)
    (h : ∀ e, e ∈ T ↔ e ∈ T') : headIdent T = headIdent T' := by
  by_cases hnone : ∀ i, derive (.dynamic i) T = []
  · have hnone' : ∀ i, derive (.dynamic i) T' = [] := fun i =>
      (derive_eq_nil_congr _ T T' h).mp (hnone i)
    rw [headIdent_none T hnone, headIdent_none T' hnone']
  · push Not at hnone
    obtain ⟨i, hi⟩ := hnone
    obtain ⟨⟨rest, b⟩, hmem⟩ := List.exists_mem_of_ne_nil _ hi
    have hsingle := coherent_single T hT i rest b ((mem_derive _ T rest b).mp hmem)
    have hi' : derive (.dynamic i) T' ≠ [] := fun hi' => hi ((derive_eq_nil_congr _ T T' h).mpr hi')
    have hsingle' : ∀ j, j ≠ i → derive (.dynamic j) T' = [] := fun j hj =>
      (derive_eq_nil_congr _ T T' h).mp (hsingle j hj)
    rw [headIdent_eq T i hi hsingle, headIdent_eq T' i hi' hsingle']

theorem next_congr (T T' : PatternTable σ ι β) (h : ∀ e, e ∈ T ↔ e ∈ T') (s : σ) (e) :
    e ∈ next T s ↔ e ∈ next T' s := by
  obtain ⟨p, b⟩ := e
  by_cases hs : derive (.static s) T = []
  · have hs' := (derive_eq_nil_congr _ T T' h).mp hs
    rw [next_dynamic T s hs, next_dynamic T' s hs', mem_deriveDynamic, mem_deriveDynamic]
    simp only [h]
  · have hs' : derive (.static s) T' ≠ [] := fun hs' => hs ((derive_eq_nil_congr _ T T' h).mpr hs')
    rw [next_static T s hs, next_static T' s hs', derive_congr _ T T' h]

theorem coherent_next (T : PatternTable σ ι β) (h : Coherent T) (s : σ) : Coherent (next T s) := by
  by_cases hs : derive (.static s) T = []
  · rw [next_dynamic T s hs]
    exact coherent_deriveDynamic T h
  · rw [next_static T s hs]
    exact coherent_derive _ T h

/-- The walk along a path does not depend on the order of a coherent table. -/
theorem walk_congr (T T' : PatternTable σ ι β) (hT : Coherent T) (h : ∀ e, e ∈ T ↔ e ∈ T')
    (path : List σ) : (∀ e, e ∈ reach T path ↔ e ∈ reach T' path) ∧
      bindings T path = bindings T' path := by
  induction path generalizing T T' with
  | nil => exact ⟨h, rfl⟩
  | cons s path ih =>
    obtain ⟨hreach, hbind⟩ := ih (next T s) (next T' s) (coherent_next T hT s) (next_congr T T' h s)
    refine ⟨hreach, ?_⟩
    simp only [bindings, headIdent_congr T T' hT h, hbind, ne_eq, derive_eq_nil_congr _ T T' h]

theorem shadowed_static (T : PatternTable σ ι β) (t s : σ) (pattern : List (Seg σ ι))
    (path : List σ) : Shadowed T (.static t :: pattern) (s :: path) ↔
      Shadowed (derive (.static t) T) pattern path := by
  constructor
  · intro h
    obtain ⟨front, i, back, u, front', back', hp, hs, hl, ⟨p, b⟩, he, hpre⟩ := h
    cases front with
    | nil => simp at hp
    | cons x front =>
      cases front' with
      | nil => simp at hl
      | cons y front' =>
        simp only [List.cons_append, List.cons.injEq] at hp hs
        obtain ⟨rfl, rfl⟩ := hp
        obtain ⟨rest, rfl⟩ := hpre
        exact ⟨front, i, back, u, front', back', rfl, hs.2, by simpa using hl,
          (front ++ [.static u] ++ rest, b), (mem_derive _ T _ b).mpr (by simpa using he),
          ⟨rest, rfl⟩⟩
  · intro h
    obtain ⟨front, i, back, u, front', back', rfl, rfl, hl, ⟨p, b⟩, he, rest, rfl⟩ := h
    exact ⟨.static t :: front, i, back, u, s :: front', back', rfl, rfl, by simpa using hl,
      (_, b), (mem_derive _ T _ b).mp he, ⟨rest, rfl⟩⟩

theorem shadowed_dynamic (T : PatternTable σ ι β) (i : ι) (s : σ) (pattern : List (Seg σ ι))
    (path : List σ) : Shadowed T (.dynamic i :: pattern) (s :: path) ↔
      derive (.static s) T ≠ [] ∨ Shadowed (derive (.dynamic i) T) pattern path := by
  constructor
  · intro h
    obtain ⟨front, j, back, u, front', back', hp, hs, hl, ⟨p, b⟩, he, rest, rfl⟩ := h
    cases front with
    | nil =>
      cases front' with
      | nil =>
        simp only [List.nil_append, List.cons.injEq] at hs
        obtain ⟨rfl, -⟩ := hs
        exact Or.inl (derive_ne_nil_of_mem (.static s) T rest b he)
      | cons y front' => simp at hl
    | cons x front =>
      cases front' with
      | nil => simp at hl
      | cons y front' =>
        simp only [List.cons_append, List.cons.injEq] at hp hs
        obtain ⟨rfl, rfl⟩ := hp
        exact Or.inr ⟨front, j, back, u, front', back', rfl, hs.2, by simpa using hl,
          (front ++ [.static u] ++ rest, b), (mem_derive _ T _ b).mpr (by simpa using he),
          ⟨rest, rfl⟩⟩
  · intro h
    rcases h with hne | ⟨front, j, back, u, front', back', rfl, rfl, hl, ⟨p, b⟩, he, rest, rfl⟩
    · obtain ⟨⟨rest, b⟩, hmem⟩ := List.exists_mem_of_ne_nil _ hne
      exact ⟨[], i, pattern, s, [], path, rfl, rfl, rfl, (.static s :: rest, b),
        (mem_derive _ T rest b).mp hmem, ⟨rest, rfl⟩⟩
    · exact ⟨.dynamic i :: front, j, back, u, s :: front', back', rfl, rfl, by simpa using hl,
        (_, b), (mem_derive _ T _ b).mp he, ⟨rest, rfl⟩⟩

theorem selects_static (T : PatternTable σ ι β) (t s : σ) (pattern : List (Seg σ ι))
    (path : List σ) : Selects T (.static t :: pattern) (s :: path) ↔
      t = s ∧ Selects (derive (.static t) T) pattern path := by
  rw [Selects, fits_static, shadowed_static, and_assoc, Selects]

theorem selects_dynamic (T : PatternTable σ ι β) (i : ι) (s : σ) (pattern : List (Seg σ ι))
    (path : List σ) : Selects T (.dynamic i :: pattern) (s :: path) ↔
      derive (.static s) T = [] ∧ Selects (derive (.dynamic i) T) pattern path := by
  rw [Selects, fits_dynamic, shadowed_dynamic, Selects]
  tauto

/-- The static-first walk along a path ends at the entries whose pattern it selects. The
induction is on the path; coherence makes all variables of one place one. -/
theorem mem_reach (T : PatternTable σ ι β) (h : Coherent T) (path : List σ) (b : β) :
    ([], b) ∈ reach T path ↔ ∃ pattern, (pattern, b) ∈ T ∧ Selects T pattern path := by
  induction path generalizing T with
  | nil =>
    constructor
    · intro hmem
      exact ⟨[], hmem, (fits_nil []).mpr rfl, shadowed_nil T []⟩
    · intro hsome
      obtain ⟨pattern, hmem, hfits, -⟩ := hsome
      cases pattern with
      | nil => exact hmem
      | cons x pattern => simp [Fits] at hfits
  | cons s path ih =>
    show ([], b) ∈ reach (next T s) path ↔ _
    by_cases hstatic : derive (.static s) T = []
    · rw [next_dynamic T s hstatic, ih _ (coherent_deriveDynamic T h)]
      constructor
      · intro hsome
        obtain ⟨pattern, hmem, hsel⟩ := hsome
        obtain ⟨i, hi⟩ := (mem_deriveDynamic T pattern b).mp hmem
        rw [deriveDynamic_of_mem T h i pattern b hi] at hsel
        exact ⟨.dynamic i :: pattern, hi, (selects_dynamic T i s pattern path).mpr ⟨hstatic, hsel⟩⟩
      · intro hsome
        obtain ⟨pattern, hmem, hsel⟩ := hsome
        rcases pattern with _ | ⟨t | i, pattern⟩
        · simp [Selects, Fits] at hsel
        · obtain ⟨rfl, -⟩ := (selects_static T t s pattern path).mp hsel
          exact absurd hstatic (derive_ne_nil_of_mem _ T pattern b hmem)
        · have hsel' := ((selects_dynamic T i s pattern path).mp hsel).2
          rw [← deriveDynamic_of_mem T h i pattern b hmem] at hsel'
          exact ⟨pattern, (mem_deriveDynamic T pattern b).mpr ⟨i, hmem⟩, hsel'⟩
    · rw [next_static T s hstatic, ih _ (coherent_derive _ T h)]
      constructor
      · intro hsome
        obtain ⟨pattern, hmem, hsel⟩ := hsome
        exact ⟨.static s :: pattern, (mem_derive _ T _ b).mp hmem,
          (selects_static T s s pattern path).mpr ⟨rfl, hsel⟩⟩
      · intro hsome
        obtain ⟨pattern, hmem, hsel⟩ := hsome
        rcases pattern with _ | ⟨t | i, pattern⟩
        · simp [Selects, Fits] at hsel
        · obtain ⟨rfl, hsel'⟩ := (selects_static T t s pattern path).mp hsel
          exact ⟨pattern, (mem_derive _ T _ b).mpr hmem, hsel'⟩
        · exact absurd ((selects_dynamic T i s pattern path).mp hsel).1 hstatic

/-- Where the table goes on literally, the walk stays literal and binds nothing. -/
theorem reach_statics (T : PatternTable σ ι β) (segs : List σ) (rest : List (Seg σ ι)) (b : β)
    (h : (segs.map .static ++ rest, b) ∈ T) :
    bindings T segs = [] ∧
      ∀ p c, (p, c) ∈ reach T segs ↔ (segs.map .static ++ p, c) ∈ T := by
  induction segs generalizing T with
  | nil => exact ⟨rfl, fun p c => Iff.rfl⟩
  | cons s segs ih =>
    have hne := derive_ne_nil_of_mem (.static s) T _ b h
    obtain ⟨hbind, hmem⟩ := ih _ ((mem_derive (.static s) T _ b).mpr h)
    refine ⟨(bindings_static T s segs hne).trans hbind, ?_⟩
    intro p c
    show (p, c) ∈ reach (next T s) segs ↔ _
    rw [next_static T s hne, hmem, mem_derive, List.map_cons, List.cons_append]

omit [DecidableEq σ] [DecidableEq ι] in
theorem assignments_idents (pattern : List (Seg σ ι)) (path : List σ) (h : Fits pattern path) :
    (assignments pattern path).map Prod.fst = idents pattern := by
  induction path generalizing pattern with
  | nil =>
    cases pattern with
    | nil => rfl
    | cons x pattern => simp [Fits] at h
  | cons s path ih =>
    rcases pattern with _ | ⟨t | i, pattern⟩
    · rfl
    · exact ih pattern ((fits_static t s pattern path).mp h).2
    · rw [assignments, List.map_cons, ih pattern ((fits_dynamic i s pattern path).mp h), idents]

/-- What the walk binds are the values for the variables of the pattern it selects. -/
theorem bindings_assignments (T : PatternTable σ ι β) (h : Coherent T) (pattern : List (Seg σ ι))
    (path : List σ) (b : β) (hmem : (pattern, b) ∈ T) (hsel : Selects T pattern path) :
    bindings T path = assignments pattern path := by
  induction path generalizing T pattern with
  | nil =>
    cases pattern with
    | nil => rfl
    | cons x pattern => simp [Selects, Fits] at hsel
  | cons s path ih =>
    rcases pattern with _ | ⟨t | i, pattern⟩
    · simp [Selects, Fits] at hsel
    · obtain ⟨rfl, hsel'⟩ := (selects_static T t s pattern path).mp hsel
      rw [bindings_static T t path (derive_ne_nil_of_mem _ T pattern b hmem)]
      exact ih _ (coherent_derive _ T h) pattern ((mem_derive _ T _ b).mpr hmem) hsel'
    · obtain ⟨hstatic, hsel'⟩ := (selects_dynamic T i s pattern path).mp hsel
      have hident := headIdent_eq T i (derive_ne_nil_of_mem _ T pattern b hmem)
        (coherent_single T h i pattern b hmem)
      have hrest := ih _ (coherent_derive _ T h) pattern ((mem_derive _ T _ b).mpr hmem) hsel'
      rw [bindings_dynamic T s path hstatic, hident, deriveDynamic_of_mem T h i pattern b hmem]
      simp only [Option.toList_some, List.map_cons, List.map_nil, List.cons_append,
        List.nil_append, assignments, hrest]

theorem bindings_idents (T : PatternTable σ ι β) (h : Coherent T) (pattern : List (Seg σ ι))
    (path : List σ) (b : β) (hmem : (pattern, b) ∈ T) (hsel : Selects T pattern path) :
    (bindings T path).map Prod.fst = idents pattern := by
  rw [bindings_assignments T h pattern path b hmem hsel, assignments_idents pattern path hsel.1]

/-- The variables that a walk binds are those at the front of an entry, up to where the walk
follows it. -/
theorem bindings_front (T : PatternTable σ ι β) (h : Coherent T) (path : List σ) (hne : T ≠ []) :
    ∃ front, (∃ e ∈ T, front <+: e.1) ∧ (∀ s, .static s ∈ front → s ∈ path) ∧
      (bindings T path).map Prod.fst = idents front := by
  induction path generalizing T with
  | nil =>
    obtain ⟨e, he⟩ := List.exists_mem_of_ne_nil _ hne
    exact ⟨[], ⟨e, he, List.nil_prefix⟩, by simp, rfl⟩
  | cons s path ih =>
    by_cases hs : derive (.static s) T = []
    · by_cases hnone : ∀ i, derive (.dynamic i) T = []
      · obtain ⟨e, he⟩ := List.exists_mem_of_ne_nil _ hne
        refine ⟨[], ⟨e, he, List.nil_prefix⟩, by simp, ?_⟩
        rw [bindings_dynamic T s path hs, headIdent_none T hnone, deriveDynamic_none T hnone,
          bindings_nil]
        rfl
      · push Not at hnone
        obtain ⟨i, hi⟩ := hnone
        obtain ⟨⟨rest, b⟩, hmem⟩ := List.exists_mem_of_ne_nil _ hi
        have hdyn := (mem_derive _ T rest b).mp hmem
        obtain ⟨front, ⟨e, he, hpre⟩, hin, hbind⟩ := ih _ (coherent_derive (.dynamic i) T h) hi
        refine ⟨.dynamic i :: front, ⟨(.dynamic i :: e.1, e.2), (mem_derive _ T e.1 e.2).mp he,
          (List.prefix_cons_inj _).mpr hpre⟩, ?_, ?_⟩
        · intro t ht
          have ht : .static t ∈ front := by simpa using ht
          exact List.mem_cons_of_mem s (hin t ht)
        · rw [bindings_dynamic T s path hs, headIdent_eq T i hi (coherent_single T h i rest b hdyn),
            deriveDynamic_of_mem T h i rest b hdyn]
          simp [idents, hbind]
    · obtain ⟨front, ⟨e, he, hpre⟩, hin, hbind⟩ := ih _ (coherent_derive (.static s) T h) hs
      refine ⟨.static s :: front, ⟨(.static s :: e.1, e.2), (mem_derive _ T e.1 e.2).mp he,
        (List.prefix_cons_inj _).mpr hpre⟩, ?_, ?_⟩
      · intro t ht
        rcases List.mem_cons.mp ht with ht | ht
        · obtain rfl := Seg.static.inj ht
          exact List.mem_cons_self
        · exact List.mem_cons_of_mem s (hin t ht)
      · rw [bindings_static T s path hs, hbind, idents]

/-- A walk that follows an entry, with a segment no entry spells out for its variables, binds all
of them. -/
theorem bindings_fill (T : PatternTable σ ι β) (h : Coherent T) (other : σ)
    (hother : ∀ e ∈ T, .static other ∉ e.1) (front rest : List (Seg σ ι)) (b : β)
    (hmem : (front ++ rest, b) ∈ T) :
    (bindings T (front.map (fill other))).map Prod.fst = idents front := by
  induction front generalizing T with
  | nil => rfl
  | cons x front ih =>
    have hfresh : ∀ e ∈ derive x T, .static other ∉ e.1 := by
      intro e he hin
      apply hother _ ((mem_derive x T e.1 e.2).mp he)
      exact List.mem_cons_of_mem x hin
    have hrest := ih _ (coherent_derive x T h) hfresh ((mem_derive x T _ b).mpr hmem)
    cases x with
    | static t =>
      show (bindings T (t :: front.map (fill other))).map Prod.fst = idents front
      rw [bindings_static T t _ (derive_ne_nil_of_mem _ T _ b hmem), hrest]
    | dynamic i =>
      have hempty : derive (.static other) T = [] := by
        apply List.eq_nil_iff_forall_not_mem.mpr
        intro e he
        apply hother _ ((mem_derive _ T e.1 e.2).mp he)
        exact List.mem_cons_self
      have hident := headIdent_eq T i (derive_ne_nil_of_mem _ T _ b hmem)
        (coherent_single T h i _ b hmem)
      show (bindings T (other :: front.map (fill other))).map Prod.fst = i :: idents front
      rw [bindings_dynamic T other _ hempty, hident, deriveDynamic_of_mem T h i _ b hmem]
      simp [hrest]

end Derivatives

end PatternTable

end HttpCpp
