import HttpCpp.Framework.Bytes
import Mathlib.Data.List.Forall2

namespace HttpCpp

/-- `tolower` in the classic locale. -/
def lower (c : Byte) : Byte :=
  if 65 ≤ c.val ∧ c.val ≤ 90 then byteOf (Char.ofNat (c.val + 32)) else c

/-- The texts differ in the case of letters at most. -/
def SameLetters (s t : Bytes) : Prop := s.map lower = t.map lower

instance (s t : Bytes) : Decidable (SameLetters s t) := inferInstanceAs (Decidable (_ = _))

namespace SameLetters

theorem refl (s : Bytes) : SameLetters s s := rfl

theorem symm {s t : Bytes} (h : SameLetters s t) : SameLetters t s := Eq.symm h

theorem trans {s t u : Bytes} (h : SameLetters s t) (h' : SameLetters t u) : SameLetters s u :=
  Eq.trans h h'

theorem congr_left {s t : Bytes} (h : SameLetters s t) (u : Bytes) :
    SameLetters s u ↔ SameLetters t u :=
  ⟨fun h' => h.symm.trans h', fun h' => h.trans h'⟩

example : SameLetters (lit "Content-MD5") (lit "content-md5") := by decide

end SameLetters

/-- Where at most one member is selected, the selected members of related lists are related. -/
theorem forall₂_once {α β : Type*} {R : α → β → Prop} {l : List α} {l' : List β} (p : α → Bool)
    (q : β → Bool) (h : List.Forall₂ R l l') (hpq : ∀ x y, R x y → (p x ↔ q y))
    (honce : (l.filter p).length ≤ 1) {x : α} {y : β} (hx : x ∈ l) (hpx : p x) (hy : y ∈ l')
    (hqy : q y) : R x y := by
  have hrelated : List.Forall₂ R (l.filter p) (l'.filter q) :=
    List.rel_filter (fun a b hab => hpq a b hab) h
  have hxmem : x ∈ l.filter p := List.mem_filter.mpr ⟨hx, hpx⟩
  have hymem : y ∈ l'.filter q := List.mem_filter.mpr ⟨hy, hqy⟩
  cases hl : l.filter p with
  | nil => simp [hl] at hxmem
  | cons a rest =>
    rw [hl] at hrelated hxmem honce
    obtain rfl : rest = [] := by
      apply List.eq_nil_of_length_eq_zero
      rw [List.length_cons] at honce
      omega
    obtain ⟨b, t, hab, ht, hl'⟩ := List.forall₂_cons_left_iff.mp hrelated
    rw [List.forall₂_nil_left_iff.mp ht] at hl'
    rw [hl', List.mem_singleton] at hymem
    rw [List.mem_singleton.mp hxmem, hymem]
    exact hab

end HttpCpp
