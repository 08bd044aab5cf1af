import Mathlib.Data.List.Basic

namespace HttpCpp

/-- A system that takes one action after another, some of them not possible in some states. -/
structure Machine (σ α : Type*) where
  Initial : σ → Prop
  step : σ → α → Option σ

namespace Machine

variable {σ α : Type*}

inductive Reachable (M : Machine σ α) : σ → Prop where
  | initial (s : σ) (h : M.Initial s) : M.Reachable s
  | step (s s' : σ) (a : α) (h : M.Reachable s) (hstep : M.step s a = some s') : M.Reachable s'

/-- What holds initially and is kept by every step holds in every reachable state. -/
theorem invariant (M : Machine σ α) (Inv : σ → Prop) (hinitial : ∀ s, M.Initial s → Inv s)
    (hstep : ∀ s s' a, Inv s → M.step s a = some s' → Inv s') (s : σ) (h : M.Reachable s) :
    Inv s := by
  induction h with
  | initial s h => exact hinitial s h
  | step s s' a _ ha ih => exact hstep s s' a ih ha

def run (M : Machine σ α) (s : σ) (actions : List α) : Option σ := actions.foldlM M.step s

theorem reachable_run (M : Machine σ α) (s s' : σ) (actions : List α) (h : M.Reachable s)
    (hrun : M.run s actions = some s') : M.Reachable s' := by
  induction actions generalizing s with
  | nil =>
    obtain rfl : s = s' := by simpa [run] using hrun
    exact h
  | cons a actions ih =>
    simp only [run, List.foldlM_cons, Option.bind_eq_bind, Option.bind_eq_some_iff] at hrun
    obtain ⟨t, ht, hrest⟩ := hrun
    exact ih t (.step s t a h ht) hrest

/-- A run ends in a reachable state, with another one in its place if it is not possible. -/
theorem reachable_getD (M : Machine σ α) (s t : σ) (actions : List α) (hs : M.Reachable s)
    (ht : M.Reachable t) : M.Reachable ((M.run s actions).getD t) := by
  cases hrun : M.run s actions with
  | none => exact ht
  | some s' => exact M.reachable_run s s' actions hs hrun

theorem run_cons (M : Machine σ α) (s s' : σ) (a : α) (actions : List α) :
    M.run s (a :: actions) = some s' ↔ ∃ t, M.step s a = some t ∧ M.run t actions = some s' := by
  simp [run, Option.bind_eq_some_iff]

/-- What every step keeps, every run keeps. -/
theorem invariant_run (M : Machine σ α) (Inv : σ → Prop)
    (hstep : ∀ s s' a, Inv s → M.step s a = some s' → Inv s') (s s' : σ) (actions : List α)
    (h : Inv s) (hrun : M.run s actions = some s') : Inv s' := by
  induction actions generalizing s with
  | nil =>
    obtain rfl : s = s' := by simpa [run] using hrun
    exact h
  | cons a actions ih =>
    obtain ⟨t, ht, hrest⟩ := (M.run_cons s s' a actions).mp hrun
    exact ih t (hstep s t a h ht) hrest

section Simulation

variable {τ β : Type*}

/-- Where every step of a machine is matched by a run of another, possibly an empty one, the
reachable states of the first are related to reachable states of the second. -/
theorem simulation (M : Machine σ α) (N : Machine τ β) (R : σ → τ → Prop)
    (hinitial : ∀ s, M.Initial s → ∃ t, N.Initial t ∧ R s t)
    (hstep : ∀ s s' a t, R s t → M.step s a = some s' →
      ∃ actions t', N.run t actions = some t' ∧ R s' t') (s : σ) (h : M.Reachable s) :
    ∃ t, N.Reachable t ∧ R s t := by
  induction h with
  | initial s h =>
    obtain ⟨t, ht, hrel⟩ := hinitial s h
    exact ⟨t, .initial t ht, hrel⟩
  | step s s' a _ ha ih =>
    obtain ⟨t, ht, hrel⟩ := ih
    obtain ⟨actions, t', hrun, hrel'⟩ := hstep s s' a t hrel ha
    exact ⟨t', N.reachable_run t t' actions ht hrun, hrel'⟩

end Simulation

section Rank

variable (M : Machine σ α) (Inv : σ → Prop) (Internal : α → Prop) (rank : σ → Nat)

/-- No action of the kind is possible. -/
def Stuck (s : σ) : Prop := ∀ a, Internal a → M.step s a = none

/-- A rank that every action of a kind lowers bounds the runs of such actions. -/
theorem length_le_rank (hinv : ∀ s s' a, Inv s → M.step s a = some s' → Inv s')
    (hrank : ∀ s s' a, Inv s → Internal a → M.step s a = some s' → rank s' < rank s)
    (s s' : σ) (actions : List α) (h : Inv s) (hall : ∀ a ∈ actions, Internal a)
    (hrun : M.run s actions = some s') : actions.length + rank s' ≤ rank s := by
  induction actions generalizing s with
  | nil =>
    obtain rfl : s = s' := by simpa [run] using hrun
    simp
  | cons a actions ih =>
    obtain ⟨t, ht, hrest⟩ := (M.run_cons s s' a actions).mp hrun
    have hlower := hrank s t a h (hall a (by simp)) ht
    have hrun' := ih t (hinv s t a h ht) (fun b hb => hall b (by simp [hb])) hrest
    rw [List.length_cons]
    omega

/-- Where such a rank exists, actions of the kind lead to a state where none is possible. -/
theorem exists_stuck (hinv : ∀ s s' a, Inv s → M.step s a = some s' → Inv s')
    (hrank : ∀ s s' a, Inv s → Internal a → M.step s a = some s' → rank s' < rank s)
    (s : σ) (h : Inv s) :
    ∃ actions s', (∀ a ∈ actions, Internal a) ∧ M.run s actions = some s' ∧
      M.Stuck Internal s' := by
  induction hn : rank s using Nat.strongRecOn generalizing s with
  | ind n ih =>
    by_cases hstuck : M.Stuck Internal s
    · exact ⟨[], s, by simp, by simp [run], hstuck⟩
    · simp only [Stuck, not_forall] at hstuck
      obtain ⟨a, ha, hsome⟩ := hstuck
      obtain ⟨t, ht⟩ := Option.ne_none_iff_exists'.mp hsome
      have hlower := hrank s t a h ha ht
      obtain ⟨actions, s', hall, hrun, hend⟩ :=
        ih (rank t) (by omega) t (hinv s t a h ht) rfl
      refine ⟨a :: actions, s', ?_, (M.run_cons s s' a actions).mpr ⟨t, ht, hrun⟩, hend⟩
      intro b hb
      rcases List.mem_cons.mp hb with rfl | hb
      · exact ha
      · exact hall b hb

end Rank

end Machine

end HttpCpp
