import HttpCpp.Framework.StdMap
import Mathlib.Data.List.TakeWhile

namespace HttpCpp

/-- Patterns of the ECMAScript grammar whose repetitions range over character classes. -/
inductive Regex (α : Type*) where
  | eps
  | one (p : α → Bool)
  | star (p : α → Bool)
  | seq (a b : Regex α)
  | opt (a : Regex α)
  | group (n : Nat) (a : Regex α)

namespace Regex

variable {α : Type*}

def plus (p : α → Bool) : Regex α := .seq (.one p) (.star p)

def literal [DecidableEq α] : List α → Regex α
  | [] => .eps
  | x :: l => .seq (.one (· = x)) (literal l)

/-- The capture groups that took part in a match, outermost first. -/
abbrev Captures (α : Type*) := List (Nat × List α)

/-- `matches[n]` read as a string: a group that took no part is empty. -/
def Captures.get (c : Captures α) (n : Nat) : List α := (Assoc.find n c).getD []

/-- The successes of a greedy repetition, longest first. -/
def runStar (p : α → Bool) : List α → List (Captures α × List α)
  | [] => [([], [])]
  | x :: s => if p x then runStar p s ++ [([], x :: s)] else [([], x :: s)]

/-- All ways to match a beginning of the input, in the order backtracking tries them:
the captures and the input that is left. -/
def run : Regex α → List α → List (Captures α × List α)
  | .eps, s => [([], s)]
  | .one _, [] => []
  | .one p, x :: s => if p x then [([], s)] else []
  | .star p, s => runStar p s
  | .seq a b, s => (run a s).flatMap fun m => (run b m.2).map fun m' => (m.1 ++ m'.1, m'.2)
  | .opt a, s => run a s ++ [([], s)]
  | .group n a, s => (run a s).map fun m => ((n, s.take (s.length - m.2.length)) :: m.1, m.2)

/-- `std::regex_match`: the first success that uses the whole input. -/
def regexMatch (r : Regex α) (s : List α) : Option (Captures α) :=
  ((run r s).find? fun m => m.2.isEmpty).map fun m => m.1

theorem mem_run_eps (s t : List α) (c : Captures α) :
    (c, t) ∈ run .eps s ↔ c = [] ∧ t = s := by
  simp [run]

theorem mem_run_one (p : α → Bool) (s t : List α) (c : Captures α) :
    (c, t) ∈ run (.one p) s ↔ c = [] ∧ ∃ x, p x ∧ s = x :: t := by
  cases s with
  | nil => simp [run]
  | cons x s =>
    by_cases hx : p x
    · simp only [run, hx, if_true, List.mem_singleton, Prod.mk.injEq, List.cons.injEq]
      constructor
      · intro h
        obtain ⟨rfl, rfl⟩ := h
        exact ⟨rfl, x, hx, rfl, rfl⟩
      · intro h
        obtain ⟨rfl, y, -, -, rfl⟩ := h
        exact ⟨rfl, rfl⟩
    · simp only [run, hx, Bool.false_eq_true, if_false, List.not_mem_nil, false_iff, not_and]
      intro _ h
      obtain ⟨y, hy, he⟩ := h
      exact hx ((List.cons.inj he).1 ▸ hy)

theorem mem_run_star (p : α → Bool) (s t : List α) (c : Captures α) :
    (c, t) ∈ run (.star p) s ↔ c = [] ∧ ∃ a, (∀ x ∈ a, p x) ∧ s = a ++ t := by
  simp only [run]
  induction s with
  | nil =>
    simp only [runStar, List.mem_singleton, Prod.mk.injEq]
    constructor
    · intro h
      obtain ⟨rfl, rfl⟩ := h
      exact ⟨rfl, [], by simp, rfl⟩
    · intro h
      obtain ⟨rfl, a, -, he⟩ := h
      exact ⟨rfl, (List.append_eq_nil_iff.mp he.symm).2⟩
  | cons x s ih =>
    by_cases hx : p x
    · simp only [runStar, hx, if_true, List.mem_append, ih, List.mem_singleton, Prod.mk.injEq]
      constructor
      · intro h
        rcases h with ⟨rfl, a, ha, rfl⟩ | ⟨rfl, rfl⟩
        · exact ⟨rfl, x :: a, by simpa [hx] using ha, rfl⟩
        · exact ⟨rfl, [], by simp, rfl⟩
      · intro h
        obtain ⟨rfl, a, ha, he⟩ := h
        cases a with
        | nil => exact Or.inr ⟨rfl, he.symm⟩
        | cons y a =>
          obtain ⟨-, htail⟩ := List.cons.inj he
          exact Or.inl ⟨rfl, a, fun z hz => ha z (List.mem_cons_of_mem y hz), htail⟩
    · simp only [runStar, hx, Bool.false_eq_true, if_false, List.mem_singleton, Prod.mk.injEq]
      constructor
      · intro h
        obtain ⟨rfl, rfl⟩ := h
        exact ⟨rfl, [], by simp, rfl⟩
      · intro h
        obtain ⟨rfl, a, ha, he⟩ := h
        cases a with
        | nil => exact ⟨rfl, he.symm⟩
        | cons y a => exact absurd ((List.cons.inj he).1 ▸ ha y (by simp)) hx

theorem mem_run_seq (a b : Regex α) (s t : List α) (c : Captures α) :
    (c, t) ∈ run (.seq a b) s ↔
      ∃ c₁ u c₂, (c₁, u) ∈ run a s ∧ (c₂, t) ∈ run b u ∧ c = c₁ ++ c₂ := by
  simp only [run, List.mem_flatMap, List.mem_map, Prod.exists, Prod.mk.injEq]
  constructor
  · intro h
    obtain ⟨c₁, u, h₁, c₂, t', h₂, rfl, rfl⟩ := h
    exact ⟨c₁, u, c₂, h₁, h₂, rfl⟩
  · intro h
    obtain ⟨c₁, u, c₂, h₁, h₂, rfl⟩ := h
    exact ⟨c₁, u, h₁, c₂, t, h₂, rfl, rfl⟩

theorem mem_run_opt (a : Regex α) (s t : List α) (c : Captures α) :
    (c, t) ∈ run (.opt a) s ↔ (c, t) ∈ run a s ∨ c = [] ∧ t = s := by
  simp [run]

theorem run_suffix (r : Regex α) (s t : List α) (c : Captures α) (h : (c, t) ∈ run r s) :
    ∃ a, s = a ++ t := by
  induction r generalizing s t c with
  | eps => obtain ⟨-, rfl⟩ := (mem_run_eps s t c).mp h; exact ⟨[], rfl⟩
  | one p => obtain ⟨-, x, -, rfl⟩ := (mem_run_one p s t c).mp h; exact ⟨[x], rfl⟩
  | star p => obtain ⟨-, a, -, rfl⟩ := (mem_run_star p s t c).mp h; exact ⟨a, rfl⟩
  | seq a b iha ihb =>
    obtain ⟨c₁, u, c₂, h₁, h₂, -⟩ := (mem_run_seq a b s t c).mp h
    obtain ⟨x, rfl⟩ := iha s u c₁ h₁
    obtain ⟨y, rfl⟩ := ihb u t c₂ h₂
    exact ⟨x ++ y, by simp⟩
  | opt a ih =>
    rcases (mem_run_opt a s t c).mp h with h | ⟨-, rfl⟩
    · exact ih s t c h
    · exact ⟨[], rfl⟩
  | group n a ih =>
    simp only [run, List.mem_map, Prod.exists, Prod.mk.injEq] at h
    obtain ⟨c', t', h, -, rfl⟩ := h
    exact ih s t' c' h

theorem mem_run_group (n : Nat) (a : Regex α) (s t : List α) (c : Captures α) :
    (c, t) ∈ run (.group n a) s ↔
      ∃ c' g, (c', t) ∈ run a s ∧ s = g ++ t ∧ c = (n, g) :: c' := by
  simp only [run, List.mem_map, Prod.exists, Prod.mk.injEq]
  constructor
  · intro hrun
    obtain ⟨c', t', h, rfl, rfl⟩ := hrun
    obtain ⟨g, rfl⟩ := run_suffix a s t' c' h
    exact ⟨c', g, h, rfl, by simp⟩
  · intro hrun
    obtain ⟨c', g, h, rfl, rfl⟩ := hrun
    exact ⟨c', t, h, by simp, rfl⟩

theorem mem_run_plus (p : α → Bool) (s t : List α) (c : Captures α) :
    (c, t) ∈ run (plus p) s ↔ c = [] ∧ ∃ a, a ≠ [] ∧ (∀ x ∈ a, p x) ∧ s = a ++ t := by
  simp only [plus, mem_run_seq, mem_run_one, mem_run_star]
  constructor
  · intro h
    obtain ⟨c₁, u, c₂, ⟨rfl, x, hx, rfl⟩, ⟨rfl, a, ha, rfl⟩, rfl⟩ := h
    exact ⟨rfl, x :: a, by simp, by simpa [hx] using ha, rfl⟩
  · intro h
    obtain ⟨rfl, a, hne, ha, rfl⟩ := h
    cases a with
    | nil => exact absurd rfl hne
    | cons x a =>
      exact ⟨[], a ++ t, [], ⟨rfl, x, ha x (by simp), rfl⟩,
        ⟨rfl, a, fun y hy => ha y (List.mem_cons_of_mem x hy), rfl⟩, rfl⟩

theorem mem_run_literal [DecidableEq α] (l s t : List α) (c : Captures α) :
    (c, t) ∈ run (literal l) s ↔ c = [] ∧ s = l ++ t := by
  induction l generalizing s c with
  | nil =>
    simp only [literal, mem_run_eps, List.nil_append]
    exact and_congr_right fun _ => eq_comm
  | cons x l ih =>
    simp only [literal, mem_run_seq, mem_run_one, ih, decide_eq_true_eq]
    constructor
    · intro h
      obtain ⟨c₁, u, c₂, ⟨rfl, y, rfl, rfl⟩, ⟨rfl, rfl⟩, rfl⟩ := h
      exact ⟨rfl, rfl⟩
    · intro h
      obtain ⟨rfl, rfl⟩ := h
      exact ⟨[], l ++ t, [], ⟨rfl, x, rfl, rfl⟩, ⟨rfl, rfl⟩, rfl⟩

/-- A repetition leaves at least what the longest one leaves. -/
theorem run_star_leaves (p : α → Bool) (s t : List α) (c : Captures α)
    (h : (c, t) ∈ run (.star p) s) : ∃ r, t = r ++ s.dropWhile p := by
  obtain ⟨-, a, ha, rfl⟩ := (mem_run_star p s t c).mp h
  refine ⟨t.takeWhile p, ?_⟩
  rw [List.dropWhile_append_of_pos ha]
  exact List.takeWhile_append_dropWhile.symm

theorem run_plus_leaves (p : α → Bool) (s t : List α) (c : Captures α)
    (h : (c, t) ∈ run (plus p) s) : s.takeWhile p ≠ [] ∧ ∃ r, t = r ++ s.dropWhile p := by
  obtain ⟨rfl, a, hne, ha, rfl⟩ := (mem_run_plus p s t c).mp h
  refine ⟨?_, run_star_leaves p _ t [] ((mem_run_star p _ t []).mpr ⟨rfl, a, ha, rfl⟩)⟩
  rw [List.takeWhile_append_of_pos ha]
  simp [hne]

theorem regexMatch_mem (r : Regex α) (s : List α) (c : Captures α) (h : regexMatch r s = some c) :
    (c, []) ∈ run r s := by
  simp only [regexMatch, Option.map_eq_some_iff] at h
  obtain ⟨⟨c', t⟩, hfind, rfl⟩ := h
  have ht : t = [] := by simpa using List.find?_some hfind
  exact ht ▸ List.mem_of_find?_eq_some hfind

/-- Some success that uses the whole input is enough for a match. -/
theorem regexMatch_isSome (r : Regex α) (s : List α) :
    (regexMatch r s).isSome ↔ ∃ c, (c, []) ∈ run r s := by
  constructor
  · intro h
    obtain ⟨c, hc⟩ := Option.isSome_iff_exists.mp h
    exact ⟨c, regexMatch_mem r s c hc⟩
  · intro hsome
    obtain ⟨c, hc⟩ := hsome
    simp only [regexMatch, Option.isSome_map, List.find?_isSome]
    exact ⟨(c, []), hc, rfl⟩

/-- The first success backtracking comes to. -/
def First (r : Regex α) (s : List α) (c : Captures α) (t : List α) : Prop :=
  (run r s).head? = some (c, t)

theorem first_one (p : α → Bool) (x : α) (t : List α) (h : p x) : First (.one p) (x :: t) [] t := by
  simp [First, run, h]

/-- A repetition takes all it can. -/
theorem first_star (p : α → Bool) (a t : List α) (ha : ∀ x ∈ a, p x) (ht : ∀ x ∈ t.head?, ¬p x) :
    First (.star p) (a ++ t) [] t := by
  simp only [First, run]
  induction a with
  | nil =>
    cases t with
    | nil => rfl
    | cons x t => simp [runStar, ht x (by simp)]
  | cons x a ih =>
    obtain ⟨hx, hrest⟩ := List.forall_mem_cons.mp ha
    simp [runStar, hx, ih hrest]

theorem first_seq (a b : Regex α) (s t u : List α) (c d : Captures α) (ha : First a s c t)
    (hb : First b t d u) : First (.seq a b) s (c ++ d) u := by
  obtain ⟨l, hl⟩ := List.head?_eq_some_iff.mp ha
  obtain ⟨l', hl'⟩ := List.head?_eq_some_iff.mp hb
  simp [First, run, hl, hl']

theorem first_opt (a : Regex α) (s t : List α) (c : Captures α) (h : First a s c t) :
    First (.opt a) s c t := by
  obtain ⟨l, hl⟩ := List.head?_eq_some_iff.mp h
  simp [First, run, hl]

/-- An option that cannot be taken is skipped. -/
theorem first_skip (a : Regex α) (s : List α) (h : ∀ c t, (c, t) ∉ run a s) :
    First (.opt a) s [] s := by
  have hnone : run a s = [] := by
    apply List.eq_nil_iff_forall_not_mem.mpr
    intro m
    exact h m.1 m.2
  simp [First, run, hnone]

theorem first_group (n : Nat) (a : Regex α) (g t : List α) (c : Captures α)
    (h : First a (g ++ t) c t) : First (.group n a) (g ++ t) ((n, g) :: c) t := by
  obtain ⟨l, hl⟩ := List.head?_eq_some_iff.mp h
  simp [First, run, hl]

theorem first_plus (p : α → Bool) (a t : List α) (hne : a ≠ []) (ha : ∀ x ∈ a, p x)
    (ht : ∀ x ∈ t.head?, ¬p x) : First (plus p) (a ++ t) [] t := by
  cases a with
  | nil => exact absurd rfl hne
  | cons x a =>
    obtain ⟨hx, hrest⟩ := List.forall_mem_cons.mp ha
    exact first_seq _ _ _ (a ++ t) t [] [] (first_one p x _ hx) (first_star p a t hrest ht)

theorem first_literal [DecidableEq α] (l t : List α) : First (literal l) (l ++ t) [] t := by
  induction l with
  | nil => rfl
  | cons x l ih => exact first_seq _ _ _ (l ++ t) t [] [] (first_one _ x _ (by simp)) ih

/-- A first success that uses the whole input is the match. -/
theorem regexMatch_first (r : Regex α) (s : List α) (c : Captures α) (h : First r s c []) :
    regexMatch r s = some c := by
  obtain ⟨l, hl⟩ := List.head?_eq_some_iff.mp h
  simp [regexMatch, hl]

end Regex

end HttpCpp
