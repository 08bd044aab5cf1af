import Mathlib.Order.Fin.Basic
import Mathlib.Data.List.Lex
import Mathlib.Data.List.TakeWhile

namespace HttpCpp

abbrev Byte := Fin 256

/-- A `std::string`: any sequence of bytes, the zero byte included. -/
abbrev Bytes := List Byte

instance : LawfulBEq Byte := inferInstance

instance : LawfulBEq Bytes := inferInstance

/-- The bytes of an ASCII literal. -/
def lit (s : String) : Bytes := s.toList.map fun c => Fin.ofNat 256 c.toNat

/-- The byte of an ASCII character. -/
def byteOf (c : Char) : Byte := Fin.ofNat 256 c.toNat

theorem byteOf_val (c : Char) (h : c.toNat < 256) : (byteOf c).val = c.toNat := Nat.mod_eq_of_lt h

/-- What holds of the characters of a literal, which the elaborator spells out, holds of its
bytes. -/
theorem lit_forall {P : Byte → Prop} [DecidablePred P] (l : List Char)
    (h : l.all fun c => P (byteOf c)) : ∀ c ∈ lit (String.ofList l), P c := by
  intro c hc
  rw [lit, String.toList_ofList] at hc
  obtain ⟨d, hd, rfl⟩ := List.mem_map.mp hc
  exact of_decide_eq_true (List.all_eq_true.mp h d hd)

def NUL : Byte := 0
def LF : Byte := 10
def CR : Byte := 13
def SP : Byte := 32
def slash : Byte := 47
def colon : Byte := 58
def question : Byte := 63

/-- `isspace` in the classic locale. -/
def isSpace (b : Byte) : Bool := b = 32 || (9 ≤ b && b ≤ 13)

section Cut

variable {α : Type*} [DecidableEq α]

/-- The bytes before the first separator. -/
def before (sep : α) (l : List α) : List α := l.takeWhile (· ≠ sep)

/-- The separator and what follows it; empty when there is none. -/
def onward (sep : α) (l : List α) : List α := l.dropWhile (· ≠ sep)

theorem before_append_onward (sep : α) (l : List α) : before sep l ++ onward sep l = l :=
  List.takeWhile_append_dropWhile

theorem before_cut (sep : α) (a b : List α) (ha : sep ∉ a) : before sep (a ++ sep :: b) = a := by
  induction a with
  | nil => simp [before]
  | cons x a ih =>
    simp only [List.mem_cons, not_or] at ha
    have hx : x ≠ sep := Ne.symm ha.1
    simpa [before, hx] using ih ha.2

theorem onward_cut (sep : α) (a b : List α) (ha : sep ∉ a) :
    onward sep (a ++ sep :: b) = sep :: b := by
  have h := before_append_onward sep (a ++ sep :: b)
  rw [before_cut sep a b ha] at h
  exact List.append_cancel_left h

theorem before_uncut (sep : α) (l : List α) (hl : sep ∉ l) : before sep l = l := by
  apply List.takeWhile_eq_self_iff.mpr
  intro x hx
  have hne : x ≠ sep := fun h => hl (h ▸ hx)
  simpa using hne

theorem onward_uncut (sep : α) (l : List α) (hl : sep ∉ l) : onward sep l = [] := by
  have h := before_append_onward sep l
  rw [before_uncut sep l hl] at h
  simpa using h

/-- Every list has no separator or is cut at its first one. -/
theorem cut_cases (sep : α) (l : List α) :
    sep ∉ l ∨ ∃ a b, l = a ++ sep :: b ∧ sep ∉ a := by
  by_cases h : sep ∈ l
  · obtain ⟨a, b, he, ha⟩ := List.eq_append_cons_of_mem h
    exact Or.inr ⟨a, b, he, ha⟩
  · exact Or.inl h

theorem cut_unique (sep : α) {a b a' b' : List α} (ha : sep ∉ a) (ha' : sep ∉ a')
    (h : a ++ sep :: b = a' ++ sep :: b') : a = a' ∧ b = b' := by
  have hl : a = a' := by
    have hb := congrArg (before sep) h
    rwa [before_cut sep a b ha, before_cut sep a' b' ha'] at hb
  subst hl
  exact ⟨rfl, (List.cons.inj (List.append_cancel_left h)).2⟩

theorem findIdx_cut (sep : α) (a b : List α) (ha : sep ∉ a) :
    (a ++ sep :: b).findIdx (· = sep) = a.length := by
  induction a with
  | nil => simp [List.findIdx_cons]
  | cons x a ih =>
    simp only [List.mem_cons, not_or] at ha
    have hx : x ≠ sep := Ne.symm ha.1
    simp [List.findIdx_cons, hx, ih ha.2]

theorem findIdx_uncut (sep : α) (a : List α) (ha : sep ∉ a) :
    a.findIdx (· = sep) = a.length := by
  apply List.findIdx_eq_length.mpr
  intro x hx
  have hne : x ≠ sep := fun h => ha (h ▸ hx)
  simpa using hne

theorem findIdx?_cut (sep : α) (a b : List α) (ha : sep ∉ a) :
    (a ++ sep :: b).findIdx? (· = sep) = some a.length := by
  induction a with
  | nil => simp [List.findIdx?_cons]
  | cons x a ih =>
    simp only [List.mem_cons, not_or] at ha
    have hx : x ≠ sep := Ne.symm ha.1
    simp [List.findIdx?_cons, hx, ih ha.2]

end Cut

section Run

variable {α : Type*} (p : α → Bool)

/-- The longest run of a class ends where the class does. -/
theorem run_cut (a t : List α) (ha : ∀ x ∈ a, p x) (ht : ∀ x ∈ t.head?, ¬p x) :
    (a ++ t).takeWhile p = a ∧ (a ++ t).dropWhile p = t := by
  rw [List.takeWhile_append_of_pos ha, List.dropWhile_append_of_pos ha]
  cases t with
  | nil => simp
  | cons x t =>
    have hx := ht x (by simp)
    simp [hx]

/-- What follows a run leaves it as it is. -/
theorem run_append (a t : List α) (ht : ∀ x ∈ t.head?, ¬p x) :
    (a ++ t).takeWhile p = a.takeWhile p ∧ (a ++ t).dropWhile p = a.dropWhile p ++ t := by
  have hsplit : a ++ t = a.takeWhile p ++ (a.dropWhile p ++ t) := by
    rw [← List.append_assoc, List.takeWhile_append_dropWhile]
  rw [hsplit]
  apply run_cut
  · intro x hx
    exact List.mem_takeWhile_imp hx
  · intro x hx
    have hstop := List.head?_dropWhile_not p a
    cases hdrop : a.dropWhile p with
    | nil =>
      rw [hdrop] at hx
      exact ht x hx
    | cons y l =>
      rw [hdrop] at hx hstop
      obtain rfl : y = x := Option.some.inj hx
      simpa using hstop

end Run

/-- No piece has the separator in it. -/
theorem splitOn_piece {α : Type*} [BEq α] [LawfulBEq α] (sep : α) (l piece : List α)
    (h : piece ∈ l.splitOn sep) : sep ∉ piece := by
  induction l generalizing piece with
  | nil =>
    rw [List.splitOn_nil, List.mem_singleton] at h
    simp [h]
  | cons x l ih =>
    rw [List.splitOn_cons_eq_if_modifyHead] at h
    split_ifs at h with hx
    · rcases List.mem_cons.mp h with rfl | h
      · simp
      · exact ih piece h
    · have hne : sep ≠ x := by
        intro heq
        simp [heq] at hx
      cases hsplit : l.splitOn sep with
      | nil => exact absurd hsplit (List.splitOn_ne_nil sep l)
      | cons first pieces =>
        rw [hsplit] at h ih
        rcases List.mem_cons.mp h with rfl | h
        · simp [hne, ih first]
        · exact ih piece (List.mem_cons_of_mem first h)

/-- A list is one piece exactly when it has nothing to split at. -/
theorem splitOnP_single_iff {α : Type*} (p : α → Bool) (l piece : List α) :
    l.splitOnP p = [piece] ↔ l = piece ∧ ∀ x ∈ l, p x = false := by
  by_cases hsep : ∃ x ∈ l, p x = true
  · obtain ⟨x, hx, hp⟩ := hsep
    refine iff_of_false ?_ (fun h => by simp [h.2 x hx] at hp)
    intro h
    obtain ⟨a, b, rfl⟩ := List.append_of_mem hx
    have ha : 0 < (a.splitOnP p).length := List.length_pos_of_ne_nil (List.splitOnP_ne_nil p a)
    have hb : 0 < (b.splitOnP p).length := List.length_pos_of_ne_nil (List.splitOnP_ne_nil p b)
    have hlen := congrArg List.length h
    rw [List.splitOnP_append_cons a b hp, List.length_append] at hlen
    simp only [List.length_singleton] at hlen
    omega
  · have hnone : ∀ x ∈ l, p x = false := by
      intro x hx
      simpa using fun hp => hsep ⟨x, hx, hp⟩
    rw [List.splitOnP_eq_singleton hnone, List.cons.injEq, and_iff_left rfl, and_iff_left hnone]

end HttpCpp
