import Mathlib.Data.List.Infix

namespace HttpCpp

/-- One move in a tree whose places are named by the way from the root. -/
inductive Move (α : Type*) where
  | stay
  | up
  | down (a : α)
  deriving DecidableEq

/-- How far a walk rose above its start, and what it went down from there. -/
structure Excursion (α : Type*) where
  rise : Nat
  below : List α
  deriving DecidableEq

namespace Move

variable {α : Type*}

/-- Where a move leads; the root is its own parent. -/
def go (loc : List α) : Move α → List α
  | .stay => loc
  | .up => loc.dropLast
  | .down a => loc ++ [a]

def walk (loc : List α) (moves : List (Move α)) : List α := moves.foldl go loc

/-- The walk keeps to the places above `d` and below it, and ends below. -/
def Keeps (d : List α) : List α → List (Move α) → Prop
  | loc, [] => d <+: loc
  | loc, m :: moves => (loc <+: d ∨ d <+: loc) ∧ Keeps d (m.go loc) moves

def decideKeeps [DecidableEq α] (d : List α) : (loc : List α) → (moves : List (Move α)) →
    Decidable (Keeps d loc moves)
  | loc, [] => inferInstanceAs (Decidable (d <+: loc))
  | loc, m :: moves =>
    have := decideKeeps d (m.go loc) moves
    inferInstanceAs (Decidable ((loc <+: d ∨ d <+: loc) ∧ Keeps d (m.go loc) moves))

instance [DecidableEq α] (d loc : List α) (moves : List (Move α)) :
    Decidable (Keeps d loc moves) :=
  decideKeeps d loc moves

theorem keeps_end (d loc : List α) (moves : List (Move α)) (h : Keeps d loc moves) :
    d <+: walk loc moves := by
  induction moves generalizing loc with
  | nil => exact h
  | cons m moves ih => exact ih (m.go loc) h.2

/-- A walk that never goes up stays below its start. -/
theorem keeps_of_down (d loc : List α) (moves : List (Move α)) (hloc : d <+: loc)
    (hdown : ∀ m ∈ moves, m ≠ .up) : Keeps d loc moves := by
  induction moves generalizing loc with
  | nil => exact hloc
  | cons m moves ih =>
    obtain ⟨hm, hrest⟩ := List.forall_mem_cons.mp hdown
    refine ⟨Or.inr hloc, ih (m.go loc) ?_ hrest⟩
    cases m with
    | stay => exact hloc
    | up => exact absurd rfl hm
    | down a => exact hloc.trans (List.prefix_append _ _)

end Move

namespace Excursion

variable {α : Type*}

def start : Excursion α := ⟨0, []⟩

def add [DecidableEq α] (e : Excursion α) : Move α → Excursion α
  | .stay => e
  | .up => if e.below = [] then ⟨e.rise + 1, []⟩ else ⟨e.rise, e.below.dropLast⟩
  | .down a => ⟨e.rise, e.below ++ [a]⟩

/-- The excursion of a walk, whatever place it starts from. -/
def of [DecidableEq α] (moves : List (Move α)) : Excursion α := moves.foldl add start

/-- The place an excursion from `loc` ends at. -/
def place (loc : List α) (e : Excursion α) : List α := loc.take (loc.length - e.rise) ++ e.below

/-- The walk comes down again through all it rose above. -/
def Returns (loc : List α) (e : Excursion α) : Prop := loc.drop (loc.length - e.rise) <+: e.below

variable [DecidableEq α]

instance (loc : List α) (e : Excursion α) : Decidable (Returns loc e) :=
  inferInstanceAs (Decidable (_ <+: _))

theorem go_place (loc : List α) (e : Excursion α) (m : Move α) :
    m.go (place loc e) = place loc (e.add m) := by
  cases m with
  | stay => rfl
  | down a => simp [Move.go, add, place]
  | up =>
    simp only [Move.go, add]
    split_ifs with hbelow
    · have hlen : (loc.take (loc.length - e.rise)).length = loc.length - e.rise := by simp
      have hmin : min (loc.length - e.rise - 1) (loc.length - e.rise) =
          loc.length - (e.rise + 1) := by omega
      simp only [place, hbelow, List.append_nil]
      rw [List.dropLast_eq_take, hlen, List.take_take, hmin]
    · exact List.dropLast_append_of_ne_nil hbelow

theorem walk_eq (loc : List α) (moves : List (Move α)) :
    Move.walk loc moves = place loc (of moves) := by
  have hfold : ∀ e : Excursion α, moves.foldl Move.go (place loc e) =
      place loc (moves.foldl add e) := by
    induction moves with
    | nil => intro e; rfl
    | cons m moves ih => intro e; rw [List.foldl_cons, go_place, ih, List.foldl_cons]
  have hstart : place loc start = loc := by simp [place, start]
  rw [Move.walk, of, ← hfold, hstart]

/-- A walk ends below its start exactly when it returns. -/
theorem prefix_walk_iff (loc : List α) (moves : List (Move α)) :
    loc <+: Move.walk loc moves ↔ Returns loc (of moves) := by
  have hsplit := List.take_append_drop (loc.length - (of moves).rise) loc
  calc loc <+: Move.walk loc moves
      ↔ loc.take (loc.length - (of moves).rise) ++ loc.drop (loc.length - (of moves).rise) <+:
          loc.take (loc.length - (of moves).rise) ++ (of moves).below := by
        rw [hsplit, walk_eq, place]
    _ ↔ Returns loc (of moves) := List.prefix_append_right_inj _

end Excursion

end HttpCpp
