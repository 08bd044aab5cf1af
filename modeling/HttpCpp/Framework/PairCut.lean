import Mathlib.Data.List.Infix

namespace HttpCpp

section PairCut

variable {α : Type*} (x y : α)

/-- Nowhere in the list is `x` followed by `y`. -/
def Unpaired (l : List α) : Prop := ¬[x, y] <:+: l

theorem unpaired_nil : Unpaired x y [] := by simp [Unpaired]

theorem unpaired_cons (a : α) (l : List α) :
    Unpaired x y (a :: l) ↔ ¬(a = x ∧ l.head? = some y) ∧ Unpaired x y l := by
  have hfront : [x, y] <+: a :: l ↔ a = x ∧ l.head? = some y := by
    cases l with
    | nil => simp
    | cons b l => simp [List.cons_prefix_cons, eq_comm]
  rw [Unpaired, List.infix_cons_iff, not_or, hfront, Unpaired]

theorem unpaired_of_notMem (l : List α) (h : x ∉ l) : Unpaired x y l := by
  intro hpair
  exact h (hpair.subset (by simp))

/-- A separator of its own keeps two lists apart. -/
theorem unpaired_append (s : α) (hx : s ≠ x) (hy : s ≠ y) (a b : List α) :
    Unpaired x y (a ++ s :: b) ↔ Unpaired x y a ∧ Unpaired x y b := by
  induction a with
  | nil => simp [unpaired_cons, unpaired_nil, hx]
  | cons c a ih =>
    have hhead : (a ++ s :: b).head? = some y ↔ a.head? = some y := by
      cases a with
      | nil => simp [hy]
      | cons d a => simp
    rw [List.cons_append, unpaired_cons, unpaired_cons, ih, hhead, and_assoc]

variable [DecidableEq α]

instance (l : List α) : Decidable (Unpaired x y l) := inferInstanceAs (Decidable (¬_))

/-- The lists around the first `x` that is followed by `y`. -/
def cutPair : List α → Option (List α × List α)
  | a :: b :: l =>
    if a = x ∧ b = y then some ([], l) else (cutPair (b :: l)).map fun p => (a :: p.1, p.2)
  | _ => none

/-- The pieces before the first empty one, each ended by the pair, and what follows that one. -/
def pairBlock : Nat → List α → Option (List (List α) × List α)
  | 0, _ => none
  | fuel + 1, l =>
    (cutPair x y l).bind fun p =>
      if p.1 = [] then some ([], p.2)
      else (pairBlock fuel p.2).map fun q => (p.1 :: q.1, q.2)

/-- The block a whole list starts with; every piece takes up some of the list. -/
def readPieces (l : List α) : Option (List (List α) × List α) := pairBlock x y (l.length + 1) l

/-- The pieces that a list falls into at its pairs. -/
def splitPair : List α → List (List α)
  | a :: b :: l =>
    if a = x ∧ b = y then [] :: splitPair l else (splitPair (b :: l)).modifyHead (a :: ·)
  | l => [l]

/-- Pieces written one after the other, each ended by the pair. -/
def writePieces (pieces : List (List α)) : List α := pieces.flatMap (· ++ [x, y])

theorem cutPair_append (hxy : x ≠ y) (a b : List α) (ha : Unpaired x y a) :
    cutPair x y (a ++ x :: y :: b) = some (a, b) := by
  induction a with
  | nil => simp [cutPair]
  | cons c a ih =>
    obtain ⟨hpair, hrest⟩ := (unpaired_cons x y c a).mp ha
    have hcut := ih hrest
    obtain ⟨d, l, hl⟩ : ∃ d l, a ++ x :: y :: b = d :: l := by
      cases a with
      | nil => exact ⟨x, y :: b, rfl⟩
      | cons d a => exact ⟨d, a ++ x :: y :: b, rfl⟩
    have hfirst : ¬(c = x ∧ d = y) := by
      intro h
      obtain ⟨hc, hd⟩ := h
      cases a with
      | nil =>
        obtain ⟨hx, -⟩ := List.cons.inj hl
        exact hxy (hx.trans hd)
      | cons d' a =>
        obtain ⟨rfl, -⟩ := List.cons.inj hl
        exact hpair ⟨hc, by rw [hd]; rfl⟩
    rw [hl] at hcut
    rw [List.cons_append, hl, cutPair, if_neg hfirst, hcut]
    rfl

theorem cutPair_some (l a b : List α) (h : cutPair x y l = some (a, b)) :
    l = a ++ x :: y :: b ∧ Unpaired x y a := by
  induction l generalizing a with
  | nil => simp [cutPair] at h
  | cons c l ih =>
    cases l with
    | nil => simp [cutPair] at h
    | cons d l =>
      simp only [cutPair] at h
      split_ifs at h with hpair
      · obtain ⟨rfl, rfl⟩ := hpair
        obtain ⟨rfl, rfl⟩ := Prod.mk.inj (Option.some.inj h)
        exact ⟨rfl, unpaired_nil c d⟩
      · obtain ⟨p, hp, hcons⟩ := Option.map_eq_some_iff.mp h
        obtain ⟨rfl, rfl⟩ := Prod.mk.inj hcons
        obtain ⟨hl, hfree⟩ := ih p.1 hp
        refine ⟨by rw [hl]; rfl, (unpaired_cons x y c p.1).mpr ⟨?_, hfree⟩⟩
        intro hfirst
        have hhead : (d :: l).head? = some y := by
          rw [hl, List.head?_append, hfirst.2]
          rfl
        exact hpair ⟨hfirst.1, Option.some.inj hhead⟩

/-- The pieces of a block have no pair and are not empty. -/
theorem pairBlock_pieces (fuel : Nat) (l : List α) (pieces : List (List α)) (rest : List α)
    (h : pairBlock x y fuel l = some (pieces, rest)) :
    ∀ p ∈ pieces, p ≠ [] ∧ Unpaired x y p := by
  induction fuel generalizing l pieces with
  | zero => simp [pairBlock] at h
  | succ fuel ih =>
    obtain ⟨⟨a, b⟩, hcut, hstep⟩ := Option.bind_eq_some_iff.mp h
    dsimp only at hstep
    split_ifs at hstep with hempty
    · obtain ⟨rfl, -⟩ := Prod.mk.inj (Option.some.inj hstep)
      simp
    · obtain ⟨⟨ps, q⟩, hq, hcons⟩ := Option.map_eq_some_iff.mp hstep
      obtain ⟨rfl, rfl⟩ := Prod.mk.inj hcons
      intro p hp
      rcases List.mem_cons.mp hp with rfl | hp
      · exact ⟨hempty, (cutPair_some x y l p b hcut).2⟩
      · exact ih b ps hq p hp

theorem pairBlock_write (hxy : x ≠ y) (pieces : List (List α)) (rest : List α) (fuel : Nat)
    (hfuel : pieces.length < fuel) (h : ∀ p ∈ pieces, p ≠ [] ∧ Unpaired x y p) :
    pairBlock x y fuel (writePieces x y pieces ++ x :: y :: rest) = some (pieces, rest) := by
  induction pieces generalizing fuel with
  | nil =>
    cases fuel with
    | zero => omega
    | succ fuel => simp [pairBlock, writePieces, cutPair]
  | cons p pieces ih =>
    obtain ⟨⟨hne, hfree⟩, htail⟩ := List.forall_mem_cons.mp h
    cases fuel with
    | zero => omega
    | succ fuel =>
      have hcut := cutPair_append x y hxy p (writePieces x y pieces ++ x :: y :: rest) hfree
      have hassoc : writePieces x y (p :: pieces) ++ x :: y :: rest =
          p ++ x :: y :: (writePieces x y pieces ++ x :: y :: rest) := by simp [writePieces]
      have hrest := ih fuel (by simpa using hfuel) htail
      rw [hassoc, pairBlock, hcut]
      simp [hne, hrest]

/-- Written pieces are read back exactly when none is empty or holds the pair. -/
theorem readPieces_write_iff (hxy : x ≠ y) (pieces : List (List α)) (rest : List α) :
    readPieces x y (writePieces x y pieces ++ x :: y :: rest) = some (pieces, rest) ↔
      ∀ p ∈ pieces, p ≠ [] ∧ Unpaired x y p := by
  constructor
  · exact pairBlock_pieces x y _ _ pieces rest
  · intro h
    apply pairBlock_write x y hxy pieces rest _ _ h
    have hpieces : pieces.length ≤ (writePieces x y pieces).length := by
      clear h
      induction pieces with
      | nil => exact Nat.le_refl 0
      | cons p pieces ih =>
        simp only [writePieces, List.flatMap_cons, List.length_append, List.length_cons,
          List.length_nil] at ih ⊢
        omega
    rw [List.length_append]
    omega

theorem splitPair_ne_nil (l : List α) : splitPair x y l ≠ [] := by
  fun_induction splitPair x y l with
  | case1 a b l hpair => simp
  | case2 a b l hpair ih => simpa using ih
  | case3 l hshort => simp

theorem splitPair_append (hxy : x ≠ y) (a b : List α) :
    splitPair x y (a ++ x :: y :: b) = splitPair x y a ++ splitPair x y b := by
  fun_induction splitPair x y a with
  | case1 c d a hpair ih => simp [splitPair, hpair, ih]
  | case2 c d a hpair ih =>
    obtain ⟨p, ps, hps⟩ := List.exists_cons_of_ne_nil (splitPair_ne_nil x y (d :: a))
    rw [List.cons_append] at ih
    simp [splitPair, hpair, ih, hps]
  | case3 a hshort =>
    rcases a with _ | ⟨c, _ | ⟨d, a⟩⟩
    · simp [splitPair]
    · simp [splitPair, hxy]
    · exact absurd rfl (hshort c d a)

theorem splitPair_unpaired (l : List α) (h : Unpaired x y l) : splitPair x y l = [l] := by
  fun_induction splitPair x y l with
  | case1 a b l hpair =>
    obtain ⟨hfirst, -⟩ := (unpaired_cons x y a (b :: l)).mp h
    exact absurd ⟨hpair.1, by simp [hpair.2]⟩ hfirst
  | case2 a b l hpair ih =>
    obtain ⟨-, hrest⟩ := (unpaired_cons x y a (b :: l)).mp h
    rw [ih hrest]
    rfl
  | case3 l hshort => rfl

theorem cutPair_none (l : List α) (h : cutPair x y l = none) : Unpaired x y l := by
  induction l with
  | nil => exact unpaired_nil x y
  | cons c l ih =>
    cases l with
    | nil => exact (unpaired_cons x y c []).mpr ⟨by simp, unpaired_nil x y⟩
    | cons d l =>
      simp only [cutPair] at h
      split_ifs at h with hpair
      refine (unpaired_cons x y c (d :: l)).mpr ⟨?_, ih (Option.map_eq_none_iff.mp h)⟩
      intro hfirst
      exact hpair ⟨hfirst.1, Option.some.inj hfirst.2⟩

/-- A block is what stands before the first empty one of the pieces, if the pair ends that one. -/
theorem pairBlock_split (hxy : x ≠ y) (fuel : Nat) (l : List α) (hfuel : l.length < fuel) :
    (pairBlock x y fuel l).map Prod.fst =
      if [] ∈ (splitPair x y l).dropLast then
        some ((splitPair x y l).dropLast.takeWhile (· ≠ []))
      else none := by
  induction fuel generalizing l with
  | zero => omega
  | succ fuel ih =>
    rw [pairBlock]
    cases hcut : cutPair x y l with
    | none =>
      rw [splitPair_unpaired x y l (cutPair_none x y l hcut)]
      simp
    | some p =>
      obtain ⟨a, b⟩ := p
      obtain ⟨rfl, hfree⟩ := cutPair_some x y l a b hcut
      have hb : b.length < fuel := by
        simp only [List.length_append, List.length_cons] at hfuel
        omega
      have hsplit := splitPair_append x y hxy a b
      rw [splitPair_unpaired x y a hfree, List.singleton_append] at hsplit
      rw [hsplit, List.dropLast_cons_of_ne_nil (splitPair_ne_nil x y b)]
      by_cases ha : a = []
      · simp [ha]
      · have hmap : ((pairBlock x y fuel b).map fun q => (a :: q.1, q.2)).map Prod.fst =
            ((pairBlock x y fuel b).map Prod.fst).map (a :: ·) := by
          rw [Option.map_map, Option.map_map]
          rfl
        simp only [Option.bind_some, if_neg ha, hmap, ih b hb]
        by_cases hin : [] ∈ (splitPair x y b).dropLast <;> simp [hin, ha, Ne.symm ha]

/-- What is written piece by piece is read as the pieces that these fall into, up to the first
empty one. -/
theorem readPieces_split (hxy : x ≠ y) (pieces : List (List α)) (rest : List α) :
    (readPieces x y (writePieces x y pieces ++ x :: y :: rest)).map Prod.fst =
      some ((pieces.flatMap (splitPair x y)).takeWhile (· ≠ [])) := by
  have hsplit : splitPair x y (writePieces x y pieces ++ x :: y :: rest) =
      pieces.flatMap (splitPair x y) ++ [] :: splitPair x y rest := by
    induction pieces with
    | nil => simp [writePieces, splitPair]
    | cons p pieces ih =>
      have hassoc : writePieces x y (p :: pieces) ++ x :: y :: rest =
          p ++ x :: y :: (writePieces x y pieces ++ x :: y :: rest) := by simp [writePieces]
      rw [hassoc, splitPair_append x y hxy, ih, List.flatMap_cons, List.append_assoc]
  have hlast : (splitPair x y (writePieces x y pieces ++ x :: y :: rest)).dropLast =
      pieces.flatMap (splitPair x y) ++ [] :: (splitPair x y rest).dropLast := by
    rw [hsplit, List.dropLast_append_cons, List.dropLast_cons_of_ne_nil (splitPair_ne_nil x y rest)]
  rw [readPieces, pairBlock_split x y hxy _ _ (Nat.lt_succ_self _), hlast, if_pos (by simp)]
  congr 1
  rw [List.takeWhile_append]
  split
  · rename_i hall
    rw [(List.takeWhile_prefix _).eq_of_length hall]
    simp
  · rfl

end PairCut

end HttpCpp
