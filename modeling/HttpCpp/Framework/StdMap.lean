import Mathlib.Order.Lattice
import Mathlib.Data.List.Nodup

namespace HttpCpp

namespace Assoc

variable {κ ν : Type*} [LinearOrder κ]

/-- The value of the first pair with the key. -/
def find (k : κ) : List (κ × ν) → Option ν
  | [] => none
  | e :: l => if k = e.1 then some e.2 else find k l

/-- `emplace` on an association list kept in key order: a present key keeps its value. -/
def emplace (k : κ) (v : ν) : List (κ × ν) → List (κ × ν)
  | [] => [(k, v)]
  | e :: l => if k < e.1 then (k, v) :: e :: l else if k = e.1 then e :: l else e :: emplace k v l

/-- Replace the value stored under a present key. -/
def update (k : κ) (v : ν) : List (κ × ν) → List (κ × ν)
  | [] => []
  | e :: l => if k = e.1 then (k, v) :: l else e :: update k v l

@[simp] theorem find_nil (k : κ) : find k ([] : List (κ × ν)) = none := rfl

theorem find_mem (k : κ) (v : ν) (l : List (κ × ν)) (h : find k l = some v) : (k, v) ∈ l := by
  induction l with
  | nil => simp at h
  | cons e l ih =>
    simp only [find] at h
    split_ifs at h with heq
    · simp only [Option.some.injEq] at h
      subst heq; subst h
      exact List.mem_cons_self
    · exact List.mem_cons_of_mem e (ih h)

theorem find_none (k : κ) (l : List (κ × ν)) : find k l = none ↔ ∀ e ∈ l, k ≠ e.1 := by
  induction l with
  | nil => simp
  | cons e l ih =>
    by_cases heq : k = e.1
    · simp [find, heq]
    · simp [find, heq, ih]

theorem find_of_mem (k : κ) (v : ν) (l : List (κ × ν)) (hl : (l.map Prod.fst).Nodup)
    (h : (k, v) ∈ l) : find k l = some v := by
  cases hfind : find k l with
  | none => exact absurd rfl ((find_none k l).mp hfind (k, v) h)
  | some w =>
    have hpair := List.inj_on_of_nodup_map hl (find_mem k w l hfind) h rfl
    rw [(Prod.mk.inj hpair).2]

theorem find_append (k : κ) (l l' : List (κ × ν)) :
    find k (l ++ l') = (find k l).or (find k l') := by
  induction l with
  | nil => simp
  | cons e l ih =>
    by_cases heq : k = e.1
    · simp [find, heq]
    · simp only [List.cons_append, find, heq, if_false, ih]

theorem find_filter (keep : κ → Bool) (k : κ) (l : List (κ × ν)) :
    find k (l.filter fun e => keep e.1) = if keep k then find k l else none := by
  induction l with
  | nil => simp
  | cons e l ih =>
    by_cases heq : k = e.1
    · subst heq
      cases hkeep : keep e.1 <;> simp [find, hkeep, ih]
    · cases hkeep : keep e.1 <;> simp [find, hkeep, heq, ih]

theorem find_emplace_ne (k k' : κ) (v : ν) (l : List (κ × ν)) (h : k' ≠ k) :
    find k' (emplace k v l) = find k' l := by
  induction l with
  | nil => simp [emplace, find, h]
  | cons e l ih =>
    simp only [emplace]
    split_ifs with hlt heq
    · simp [find, h]
    · rfl
    · simp only [find, ih]

theorem find_emplace_fresh (k : κ) (v : ν) (l : List (κ × ν)) (h : find k l = none) :
    find k (emplace k v l) = some v := by
  induction l with
  | nil => simp [emplace, find]
  | cons e l ih =>
    have hne : k ≠ e.1 := (find_none k (e :: l)).mp h e (by simp)
    simp only [find, hne, if_false] at h
    simp only [emplace, hne, if_false]
    split_ifs with hlt
    · simp [find]
    · simp only [find, hne, if_false]
      exact ih h

theorem emplace_present (k : κ) (v w : ν) (l : List (κ × ν))
    (hs : l.Pairwise (fun a b => a.1 < b.1)) (h : find k l = some w) : emplace k v l = l := by
  induction l with
  | nil => simp at h
  | cons e l ih =>
    obtain ⟨hhead, htail⟩ := List.pairwise_cons.mp hs
    by_cases heq : k = e.1
    · simp [emplace, heq]
    · simp only [find, heq, if_false] at h
      have hlt : e.1 < k := hhead (k, w) (find_mem k w l h)
      simp only [emplace, not_lt_of_gt hlt, heq, if_false, ih htail h]

theorem find_update_same (k : κ) (v : ν) (l : List (κ × ν)) (h : (find k l).isSome) :
    find k (update k v l) = some v := by
  induction l with
  | nil => simp at h
  | cons e l ih =>
    by_cases heq : k = e.1
    · simp [update, heq, find]
    · simp only [find, heq, if_false] at h
      simp only [update, heq, if_false, find]
      exact ih h

theorem find_update_ne (k k' : κ) (v : ν) (l : List (κ × ν)) (h : k' ≠ k) :
    find k' (update k v l) = find k' l := by
  induction l with
  | nil => rfl
  | cons e l ih =>
    by_cases heq : k = e.1
    · have h' : k' ≠ e.1 := heq ▸ h
      simp [update, heq, find, h']
    · simp only [update, heq, if_false, find, ih]

theorem update_self (k : κ) (v : ν) (l : List (κ × ν)) (h : find k l = some v) :
    update k v l = l := by
  induction l with
  | nil => rfl
  | cons e l ih =>
    by_cases heq : k = e.1
    · simp only [find, heq, if_true, Option.some.injEq] at h
      simp only [update, heq, if_true, ← h]
    · simp only [find, heq, if_false] at h
      simp only [update, heq, if_false, ih h]

theorem update_keys (k : κ) (v : ν) (l : List (κ × ν)) :
    (update k v l).map Prod.fst = l.map Prod.fst := by
  induction l with
  | nil => rfl
  | cons e l ih =>
    by_cases heq : k = e.1
    · simp [update, heq]
    · simp only [update, heq, if_false, List.map_cons, ih]

theorem update_sorted (k : κ) (v : ν) (l : List (κ × ν))
    (hs : l.Pairwise (fun a b => a.1 < b.1)) :
    (update k v l).Pairwise (fun a b => a.1 < b.1) := by
  have hkeys : ((update k v l).map Prod.fst).Pairwise (· < ·) := by
    rw [update_keys]
    exact List.pairwise_map.mpr hs
  exact List.pairwise_map.mp hkeys

theorem emplace_mem (k : κ) (v : ν) (l : List (κ × ν)) (e : κ × ν) (he : e ∈ emplace k v l) :
    e = (k, v) ∨ e ∈ l := by
  induction l with
  | nil => simpa [emplace] using he
  | cons d l ih =>
    simp only [emplace] at he
    split_ifs at he with hlt heq
    · simpa using he
    · exact Or.inr he
    · rcases List.mem_cons.mp he with rfl | he
      · exact Or.inr (by simp)
      · exact (ih he).imp id (List.mem_cons_of_mem d)

theorem emplace_sorted (k : κ) (v : ν) (l : List (κ × ν))
    (hs : l.Pairwise (fun a b => a.1 < b.1)) :
    (emplace k v l).Pairwise (fun a b => a.1 < b.1) := by
  induction l with
  | nil => simp [emplace]
  | cons e l ih =>
    obtain ⟨hhead, htail⟩ := List.pairwise_cons.mp hs
    simp only [emplace]
    split_ifs with hlt heq
    · refine List.pairwise_cons.mpr ⟨?_, hs⟩
      intro d hd
      rcases List.mem_cons.mp hd with rfl | hd
      · exact hlt
      · exact hlt.trans (hhead d hd)
    · exact hs
    · refine List.pairwise_cons.mpr ⟨?_, ih htail⟩
      intro d hd
      rcases emplace_mem k v l d hd with rfl | hd
      · exact lt_of_le_of_ne (not_lt.mp hlt) (Ne.symm heq)
      · exact hhead d hd

end Assoc

/-- `std::map`: the entries in strictly increasing key order. -/
@[ext] structure StdMap (κ ν : Type*) [LinearOrder κ] where
  entries : List (κ × ν)
  sorted : entries.Pairwise (fun a b => a.1 < b.1)
  deriving DecidableEq

namespace StdMap

variable {κ ν : Type*} [LinearOrder κ]

def empty : StdMap κ ν := ⟨[], List.Pairwise.nil⟩

instance : Inhabited (StdMap κ ν) := ⟨empty⟩

def find (m : StdMap κ ν) (k : κ) : Option ν := Assoc.find k m.entries

def emplace (m : StdMap κ ν) (k : κ) (v : ν) : StdMap κ ν :=
  ⟨Assoc.emplace k v m.entries, Assoc.emplace_sorted k v m.entries m.sorted⟩

/-- `m[k] = v` -/
def assign (m : StdMap κ ν) (k : κ) (v : ν) : StdMap κ ν :=
  if (m.find k).isSome then
    ⟨Assoc.update k v m.entries, Assoc.update_sorted k v m.entries m.sorted⟩
  else m.emplace k v

def erase (m : StdMap κ ν) (k : κ) : StdMap κ ν :=
  ⟨m.entries.filter fun e => e.1 ≠ k, m.sorted.filter _⟩

/-- `m.insert(first, last)`: present keys keep their values. -/
def insertRange (m : StdMap κ ν) (range : List (κ × ν)) : StdMap κ ν :=
  range.foldl (fun m e => m.emplace e.1 e.2) m

@[simp] theorem find_empty (k : κ) : (empty : StdMap κ ν).find k = none := rfl

/-- Every key is there once. -/
theorem nodup_keys (m : StdMap κ ν) : (m.entries.map Prod.fst).Nodup :=
  List.Pairwise.map Prod.fst (fun _ _ h => ne_of_lt h) m.sorted

theorem mem_entries (m : StdMap κ ν) (k : κ) (v : ν) :
    (k, v) ∈ m.entries ↔ m.find k = some v := by
  constructor
  · exact Assoc.find_of_mem k v m.entries (nodup_keys m)
  · exact Assoc.find_mem k v m.entries

theorem find_eq_none (m : StdMap κ ν) (k : κ) :
    m.find k = none ↔ k ∉ m.entries.map Prod.fst := by
  rw [find, Assoc.find_none]
  simp only [List.mem_map, not_exists, not_and]
  exact forall₂_congr fun e _ => ne_comm

theorem find_emplace (m : StdMap κ ν) (k k' : κ) (v : ν) :
    (m.emplace k v).find k' = if k' = k then some ((m.find k).getD v) else m.find k' := by
  by_cases h : k' = k
  · subst h
    simp only [if_true]
    cases hf : m.find k' with
    | none => exact Assoc.find_emplace_fresh k' v m.entries hf
    | some w =>
      have he := Assoc.emplace_present k' v w m.entries m.sorted hf
      simpa only [find, emplace, he, Option.getD_some] using hf
  · simp only [h, if_false]
    exact Assoc.find_emplace_ne k k' v m.entries h

theorem find_assign (m : StdMap κ ν) (k : κ) (v : ν) : (m.assign k v).find k = some v := by
  unfold assign
  split_ifs with h
  · exact Assoc.find_update_same k v m.entries h
  · rw [find_emplace, if_pos rfl, Option.not_isSome_iff_eq_none.mp h, Option.getD_none]

theorem find_assign_ne (m : StdMap κ ν) (k k' : κ) (v : ν) (h : k' ≠ k) :
    (m.assign k v).find k' = m.find k' := by
  unfold assign
  split_ifs with hk
  · exact Assoc.find_update_ne k k' v m.entries h
  · rw [find_emplace, if_neg h]

/-- The same keys with other values. -/
def mapValues {μ : Type*} (f : ν → μ) (m : StdMap κ ν) : StdMap κ μ :=
  ⟨m.entries.map fun e => (e.1, f e.2), List.pairwise_map.mpr m.sorted⟩

theorem find_mapValues {μ : Type*} (f : ν → μ) (m : StdMap κ ν) (k : κ) :
    (m.mapValues f).find k = (m.find k).map f := by
  simp only [find, mapValues]
  induction m.entries with
  | nil => rfl
  | cons e l ih =>
    by_cases hk : k = e.1
    · simp [Assoc.find, hk]
    · simpa [Assoc.find, hk] using ih

/-- What holds of all entries and of an assigned one holds of all entries afterwards. -/
theorem forall_assign (P : κ × ν → Prop) (m : StdMap κ ν) (k : κ) (v : ν)
    (hm : ∀ e ∈ m.entries, P e) (h : P (k, v)) : ∀ e ∈ (m.assign k v).entries, P e := by
  rintro ⟨k', v'⟩ he
  have hfind := (mem_entries _ k' v').mp he
  by_cases hkey : k' = k
  · rw [hkey, find_assign] at hfind
    rwa [hkey, ← Option.some.inj hfind]
  · rw [find_assign_ne m k k' v hkey] at hfind
    exact hm _ ((mem_entries m k' v').mpr hfind)

/-- Assigning one value after the other to keys that do not repeat. -/
theorem find_assignAll (m : StdMap κ ν) (range : List (κ × ν))
    (hs : range.Pairwise (fun a b => a.1 < b.1)) (k : κ) :
    (range.foldl (fun m e => m.assign e.1 e.2) m).find k = (Assoc.find k range).or (m.find k) := by
  induction range generalizing m with
  | nil => simp
  | cons e range ih =>
    obtain ⟨hhead, htail⟩ := List.pairwise_cons.mp hs
    rw [List.foldl_cons, ih _ htail]
    by_cases hk : k = e.1
    · subst hk
      have hnone := (Assoc.find_none e.1 range).mpr fun d hd => ne_of_lt (hhead d hd)
      simp [Assoc.find, hnone, find_assign]
    · simp [Assoc.find, hk, find_assign_ne _ _ _ _ hk]

theorem find_erase (m : StdMap κ ν) (k k' : κ) :
    (m.erase k).find k' = if k' = k then none else m.find k' := by
  have hmem (v : ν) : (m.erase k).find k' = some v ↔ k' ≠ k ∧ m.find k' = some v := by
    rw [← mem_entries, ← mem_entries, erase, List.mem_filter, decide_eq_true_eq, and_comm]
  split_ifs with hk
  · apply Option.eq_none_iff_forall_ne_some.mpr
    intro v hv
    exact ((hmem v).mp hv).1 hk
  · apply Option.ext
    intro v
    rw [hmem v, and_iff_right hk]

/-- Emplacing a range keeps what the map held and adds the first value given to each new key. -/
theorem find_insertRange (m : StdMap κ ν) (range : List (κ × ν)) (k : κ) :
    (m.insertRange range).find k = (m.find k).or (Assoc.find k range) := by
  induction range generalizing m with
  | nil => simp [insertRange]
  | cons e range ih =>
    have h := ih (m.emplace e.1 e.2)
    simp only [insertRange, List.foldl_cons] at h ⊢
    rw [h, find_emplace]
    by_cases hk : k = e.1
    · subst hk
      cases hf : m.find e.1 <;> simp [Assoc.find]
    · simp [hk, Assoc.find]

/-- Two maps that have no key in common. -/
def Apart (m m' : StdMap κ ν) : Prop := ∀ k, m.find k = none ∨ m'.find k = none

/-- Inserting a map that has no key in common with the first gives the union of the two. -/
theorem find_insertRange_apart (m m' : StdMap κ ν) (h : m.Apart m') (k : κ) (v : ν) :
    (m.insertRange m'.entries).find k = some v ↔ m.find k = some v ∨ m'.find k = some v := by
  have hrange : Assoc.find k m'.entries = m'.find k := rfl
  rw [find_insertRange, hrange]
  rcases h k with hnone | hnone
  · simp [hnone]
  · simp [hnone]

private theorem find_below (k : κ) (l : List (κ × ν)) (h : ∀ e ∈ l, k < e.1) :
    Assoc.find k l = none :=
  (Assoc.find_none k l).mpr fun e he => ne_of_lt (h e he)

theorem ext_find (m m' : StdMap κ ν) (h : ∀ k, m.find k = m'.find k) : m = m' := by
  obtain ⟨l, hl⟩ := m
  obtain ⟨l', hl'⟩ := m'
  simp only [StdMap.mk.injEq]
  change ∀ k, Assoc.find k l = Assoc.find k l' at h
  induction l generalizing l' with
  | nil =>
    cases l' with
    | nil => rfl
    | cons e l' => have he := h e.1; simp [Assoc.find] at he
  | cons e l ih =>
    obtain ⟨hhead, htail⟩ := List.pairwise_cons.mp hl
    cases l' with
    | nil => have he := h e.1; simp [Assoc.find] at he
    | cons e' l' =>
      obtain ⟨hhead', htail'⟩ := List.pairwise_cons.mp hl'
      have hkey : e.1 = e'.1 := by
        rcases lt_trichotomy e.1 e'.1 with hlt | heq | hgt
        · have hnone := find_below e.1 (e' :: l')
            (List.forall_mem_cons.mpr ⟨hlt, fun d hd => hlt.trans (hhead' d hd)⟩)
          rw [← h e.1] at hnone
          simp [Assoc.find] at hnone
        · exact heq
        · have hnone := find_below e'.1 (e :: l)
            (List.forall_mem_cons.mpr ⟨hgt, fun d hd => hgt.trans (hhead d hd)⟩)
          rw [h e'.1] at hnone
          simp [Assoc.find] at hnone
      have hval : e.2 = e'.2 := by
        have he := h e.1
        simpa [Assoc.find, hkey] using he
      have hrest : l = l' := by
        apply ih htail l' htail'
        intro k
        by_cases hk : k = e.1
        · subst hk
          rw [find_below e.1 l hhead, find_below e.1 l' (by rw [hkey]; exact hhead')]
        · have hk' : k ≠ e'.1 := hkey ▸ hk
          have he := h k
          simpa only [Assoc.find, hk, hk', if_false] using he
      rw [Prod.ext hkey hval, hrest]

theorem erase_emplace (m : StdMap κ ν) (k : κ) (v : ν) (h : m.find k = none) :
    (m.emplace k v).erase k = m := by
  apply ext_find
  intro k'
  rw [find_erase]
  split_ifs with hk
  · rw [hk, h]
  · rw [find_emplace, if_neg hk]

theorem insertRange_empty (m : StdMap κ ν) : empty.insertRange m.entries = m := by
  apply ext_find
  intro k
  rw [find_insertRange, find_empty, Option.none_or]
  rfl

end StdMap

end HttpCpp
