import Mathlib.Algebra.BigOperators.Group.List.Basic
import Mathlib.Algebra.GroupWithZero.Nat
import Mathlib.Data.List.Perm.Basic

namespace HttpCpp

section ListSet

variable {α : Type*}

theorem getElem?_set_cases (l : List α) (i j : Nat) (a b : α)
    (h : (l.set i a)[j]? = some b) : j = i ∧ b = a ∨ j ≠ i ∧ l[j]? = some b := by
  rw [List.getElem?_set] at h
  split at h
  · rename_i hij
    have hb := (Option.ite_none_right_eq_some.mp h).2
    exact Or.inl ⟨hij.symm, (Option.some.inj hb).symm⟩
  · rename_i hij
    exact Or.inr ⟨Ne.symm hij, h⟩

theorem sum_set (f : α → Nat) (l : List α) (i : Nat) (a b : α) (h : l[i]? = some a) :
    ((l.set i b).map f).sum + f a = (l.map f).sum + f b := by
  induction l generalizing i with
  | nil => simp at h
  | cons c l ih =>
    cases i with
    | zero =>
      obtain rfl : c = a := by simpa using h
      simp only [List.set_cons_zero, List.map_cons, List.sum_cons]
      omega
    | succ i =>
      have hrest := ih i (by simpa using h)
      simp only [List.set_cons_succ, List.map_cons, List.sum_cons]
      omega

theorem sum_mapIdx_le (f : α → Nat) (g : Nat → α → α) (c : Nat)
    (hg : ∀ i a, f (g i a) ≤ f a + c) (l : List α) :
    ((l.mapIdx g).map f).sum ≤ (l.map f).sum + c * l.length := by
  induction l generalizing g with
  | nil => simp
  | cons a l ih =>
    have hrest := ih (fun i => g (i + 1)) (fun i => hg (i + 1))
    have hfirst := hg 0 a
    simp only [List.mapIdx_cons, List.map_cons, List.sum_cons, List.length_cons, Nat.mul_add]
    omega

/-- What is gathered from all entries changes as what is gathered from the changed one. -/
theorem flatMap_set_perm {β : Type*} (f : α → List β) (l : List α) (i : Nat) (w w' : α)
    (x y : List β) (hi : l[i]? = some w) (h : (f w' ++ x).Perm (f w ++ y)) :
    ((l.set i w').flatMap f ++ x).Perm (l.flatMap f ++ y) := by
  induction l generalizing i with
  | nil => simp at hi
  | cons v l ih =>
    cases i with
    | zero =>
      obtain rfl : v = w := by simpa using hi
      simp only [List.set_cons_zero, List.flatMap_cons, List.append_assoc]
      calc (f w' ++ (l.flatMap f ++ x)).Perm (f w' ++ x ++ l.flatMap f) := by
            rw [List.append_assoc]
            exact List.perm_append_comm.append_left _
        _ |>.Perm (f v ++ y ++ l.flatMap f) := h.append_right _
        _ |>.Perm (f v ++ (l.flatMap f ++ y)) := by
            rw [List.append_assoc]
            exact List.perm_append_comm.append_left _
    | succ i =>
      simp only [List.set_cons_succ, List.flatMap_cons, List.append_assoc]
      exact (ih i (by simpa using hi)).append_left _

theorem perm_cons_eraseP (p : α → Bool) (l : List α) (a : α)
    (h : l.find? p = some a) : l.Perm (a :: l.eraseP p) := by
  induction l with
  | nil => simp at h
  | cons x l ih =>
    by_cases hx : p x
    · rw [List.find?_cons_of_pos hx] at h
      obtain rfl := Option.some.inj h
      rw [List.eraseP_cons_of_pos hx]
    · rw [List.find?_cons_of_neg hx] at h
      rw [List.eraseP_cons_of_neg hx]
      exact ((ih h).cons x).trans (List.Perm.swap a x _)

end ListSet
end HttpCpp
