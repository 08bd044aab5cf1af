import Mathlib.Algebra.BigOperators.Group.List.Basic
import Mathlib.Algebra.GroupWithZero.Nat

namespace HttpCpp

/-- The messages that wait at a socket, and the frames left of the one that is being received. -/
structure Inlet (φ : Type*) where
  waiting : List (List φ)
  rest : List φ
  deriving DecidableEq

namespace Inlet

variable {φ : Type*}

def empty : Inlet φ := ⟨[], []⟩

/-- A message arrives as a whole. -/
def deliver (s : Inlet φ) (message : List φ) : Inlet φ := ⟨s.waiting ++ [message], s.rest⟩

/-- The next frame; `none` where the call blocks. -/
def recv (s : Inlet φ) : Option (φ × Inlet φ) :=
  match s.rest, s.waiting with
  | f :: rest, waiting => some (f, ⟨waiting, rest⟩)
  | [], (f :: rest) :: waiting => some (f, ⟨waiting, rest⟩)
  | [], _ => none

/-- Frames of the message being received are still to come. -/
def more (s : Inlet φ) : Bool := !s.rest.isEmpty

/-- A call of `recv` would not block. -/
def ready (s : Inlet φ) : Bool := s.recv.isSome

@[simp] theorem deliver_waiting (s : Inlet φ) (message : List φ) :
    (s.deliver message).waiting = s.waiting ++ [message] := rfl

@[simp] theorem deliver_rest (s : Inlet φ) (message : List φ) :
    (s.deliver message).rest = s.rest := rfl

theorem more_iff (s : Inlet φ) : s.more = true ↔ s.rest ≠ [] := by
  simp [more]

theorem more_false_iff (s : Inlet φ) : s.more = false ↔ s.rest = [] := by
  simp [more]

theorem recv_eq_some (s t : Inlet φ) (f : φ) (h : s.recv = some (f, t)) :
    s.rest = f :: t.rest ∧ s.waiting = t.waiting ∨
      s.rest = [] ∧ s.waiting = (f :: t.rest) :: t.waiting := by
  obtain ⟨waiting, rest⟩ := s
  cases rest with
  | cons g rest =>
    obtain ⟨rfl, rfl⟩ : g = f ∧ (⟨waiting, rest⟩ : Inlet φ) = t := by simpa [recv] using h
    exact Or.inl ⟨rfl, rfl⟩
  | nil =>
    match waiting, h with
    | (g :: rest) :: waiting, h =>
      obtain ⟨rfl, rfl⟩ : g = f ∧ (⟨waiting, rest⟩ : Inlet φ) = t := by simpa [recv] using h
      exact Or.inr ⟨rfl, rfl⟩

/-- Within a message the next frame is its next one. -/
theorem recv_within (s t : Inlet φ) (f : φ) (h : s.recv = some (f, t)) (hrest : s.rest ≠ []) :
    s.rest = f :: t.rest ∧ s.waiting = t.waiting := by
  rcases recv_eq_some s t f h with hin | ⟨hnil, -⟩
  · exact hin
  · exact absurd hnil hrest

/-- Between two messages the next frame is the first one of the message that has waited longest. -/
theorem recv_between (s t : Inlet φ) (f : φ) (h : s.recv = some (f, t)) (hrest : s.rest = []) :
    s.waiting = (f :: t.rest) :: t.waiting := by
  rcases recv_eq_some s t f h with ⟨hcons, -⟩ | ⟨-, hin⟩
  · simp [hrest] at hcons
  · exact hin

theorem ready_within (s : Inlet φ) (h : s.rest ≠ []) : s.ready = true := by
  obtain ⟨waiting, rest⟩ := s
  obtain ⟨f, rest, rfl⟩ := List.exists_cons_of_ne_nil h
  rfl

theorem ready_deliver (s : Inlet φ) (message : List φ) (h : s.ready = true) :
    (s.deliver message).ready = true := by
  obtain ⟨waiting, rest⟩ := s
  cases rest with
  | cons f rest => rfl
  | nil =>
    match waiting, h with
    | (f :: m) :: waiting, _ => rfl

theorem recv_ready (s : Inlet φ) (h : s.ready = true) : ∃ f t, s.recv = some (f, t) := by
  obtain ⟨⟨f, t⟩, hrecv⟩ := Option.isSome_iff_exists.mp h
  exact ⟨f, t, hrecv⟩

/-- No message is empty, so a socket with a message is ready. -/
theorem ready_waiting (s : Inlet φ) (h : ∀ m ∈ s.waiting, m ≠ []) (hrest : s.rest = []) :
    s.ready = true ↔ s.waiting ≠ [] := by
  obtain ⟨waiting, rest⟩ := s
  obtain rfl : rest = [] := hrest
  cases waiting with
  | nil => simp [ready, recv]
  | cons m waiting =>
    obtain ⟨f, m, rfl⟩ := List.exists_cons_of_ne_nil (h m (by simp))
    simp [ready, recv]

/-- What is still to be received, each message counted as `c` frames more than it has. -/
def weight (c : Nat) (s : Inlet φ) : Nat :=
  s.rest.length + (s.waiting.map fun m => m.length + c).sum

theorem weight_deliver (c : Nat) (s : Inlet φ) (message : List φ) :
    (s.deliver message).weight c = s.weight c + message.length + c := by
  simp only [weight, deliver, List.map_append, List.sum_append, List.map_cons, List.map_nil,
    List.sum_cons, List.sum_nil]
  omega

theorem weight_within (c : Nat) (s t : Inlet φ) (f : φ) (h : s.recv = some (f, t))
    (hrest : s.rest ≠ []) : s.weight c = t.weight c + 1 := by
  obtain ⟨hcons, hsame⟩ := recv_within s t f h hrest
  simp only [weight, hcons, hsame, List.length_cons]
  omega

theorem weight_between (c : Nat) (s t : Inlet φ) (f : φ) (h : s.recv = some (f, t))
    (hrest : s.rest = []) : s.weight c = t.weight c + 1 + c := by
  have hcons := recv_between s t f h hrest
  simp only [weight, hrest, hcons, List.map_cons, List.sum_cons, List.length_cons, List.length_nil]
  omega

end Inlet

/-- The frames given to a socket that wait for the last one of their message, and the messages that
have left. -/
structure Outlet (φ : Type*) where
  staged : List φ
  sent : List (List φ)
  deriving DecidableEq

namespace Outlet

variable {φ : Type*}

def empty : Outlet φ := ⟨[], []⟩

/-- Frames leave together, with the first one after which no more are announced. -/
def send (s : Outlet φ) (f : φ) (more : Bool) : Outlet φ :=
  if more then ⟨s.staged ++ [f], s.sent⟩ else ⟨[], s.sent ++ [s.staged ++ [f]]⟩

@[simp] theorem send_more (s : Outlet φ) (f : φ) : s.send f true = ⟨s.staged ++ [f], s.sent⟩ := rfl

@[simp] theorem send_last (s : Outlet φ) (f : φ) :
    s.send f false = ⟨[], s.sent ++ [s.staged ++ [f]]⟩ := rfl

end Outlet

end HttpCpp
