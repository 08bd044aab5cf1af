import HttpCpp.Framework.StdMap
import HttpCpp.Protocol.Constants

namespace HttpCpp

/-- The ways a call ends without returning. -/
inductive Fault where
  | httpInvalidRequest (what : Bytes)
  | invalidArgument (what : Bytes)
  | outOfRange
  /-- `std::terminate`, when an exception leaves a `noexcept` function. -/
  | terminate
  /-- A failed `assert`. -/
  | assertion
  /-- An iterator moved past the end of its range. -/
  | pastTheEnd
  /-- A null pointer is dereferenced. -/
  | nullPointer
  deriving DecidableEq, Repr

/-- The faults a `catch` clause can see. -/
def Fault.isException : Fault → Bool
  | .httpInvalidRequest _ | .invalidArgument _ | .outOfRange => true
  | _ => false

/-- A `noexcept` function: an exception that would leave it ends the process. -/
def noexcept {α : Type*} : Except Fault α → Except Fault α
  | .ok a => .ok a
  | .error e => .error (if e.isException then .terminate else e)

theorem noexcept_ok {α : Type*} (x : Except Fault α) (a : α) :
    noexcept x = .ok a ↔ x = .ok a := by
  cases x <;> simp [noexcept]

theorem noexcept_error {α β : Type*} (x : Except Fault α) (f : α → β) (e : Fault)
    (h : (noexcept x).map f = .error e) : e.isException = false := by
  cases x with
  | ok a => simp [noexcept, Except.map] at h
  | error e' =>
    obtain rfl := Except.error.inj h
    cases hexception : e'.isException
    · simpa using hexception
    · rfl

/-- `assert`, compiled out under `NDEBUG`. -/
def Build.assert (bld : Build) (holds : Bool) : Except Fault Unit :=
  if bld.ndebug || holds then .ok () else .error .assertion

theorem Build.assert_then {α : Type} (bld : Build) (holds : Bool) (next : Except Fault α) :
    (do bld.assert holds; next) =
      if bld.ndebug ∨ holds then next else .error .assertion := by
  cases h : bld.ndebug <;> cases holds <;> simp [assert, h, bind, Except.bind]

/-- `s.substr(pos)`. -/
def substr (s : Bytes) (pos : Nat) : Except Fault Bytes :=
  if pos ≤ s.length then .ok (s.drop pos) else .error .outOfRange

/-- `if (s.back() == c) s.pop_back()` on a non-empty string. -/
def popBack (c : Byte) (s : Bytes) : Bytes := if s.getLast? = some c then s.dropLast else s

abbrev HeaderMap := StdMap Bytes Bytes

inductive ParsingStatus where
  | success
  | emptyRequest
  | invalidRequestLine
  | invalidMethod
  deriving DecidableEq, Repr

@[ext] structure HttpRequest where
  method : Method
  requestUri : Bytes
  httpVersion : Bytes
  generalHeader : HeaderMap
  requestHeader : HeaderMap
  entityHeader : HeaderMap
  messageBody : Bytes
  deriving DecidableEq

/-- A default-initialised `http_request`; `garbage` is its uninitialised method. -/
def HttpRequest.fresh (garbage : Method) : HttpRequest :=
  ⟨garbage, [], [], .empty, .empty, .empty, []⟩

structure GenericRequest where
  method : Method
  requestUri : Bytes
  header : HeaderMap
  messageBody : Bytes
  deriving DecidableEq

def HttpRequest.toGeneric (r : HttpRequest) : GenericRequest where
  method := r.method
  requestUri := r.requestUri
  header := ((StdMap.empty.insertRange r.generalHeader.entries).insertRange
    r.requestHeader.entries).insertRange r.entityHeader.entries
  messageBody := r.messageBody

/-- One header as `operator<<` writes it. -/
def emitHeader (h : Bytes × Bytes) : Bytes := h.1 ++ lit ": " ++ h.2 ++ CRLF

def emitHeaders (headers : List (Bytes × Bytes)) : Bytes := headers.flatMap emitHeader

theorem popBack_append_self (c : Byte) (s : Bytes) : popBack c (s ++ [c]) = s := by
  simp [popBack]

theorem popBack_of_notMem (c : Byte) (s : Bytes) (h : c ∉ s) : popBack c s = s := by
  have hne : s.getLast? ≠ some c := fun he => h (List.mem_of_getLast? he)
  simp [popBack, hne]

/-- Popping looks at the last byte only, so what stands before stays. -/
theorem popBack_append (c : Byte) (a s : Bytes) (hs : s ≠ []) :
    popBack c (a ++ s) = a ++ popBack c s := by
  have hlast : (a ++ s).getLast? = s.getLast? := by
    rw [List.getLast?_append]
    cases h : s.getLast? with
    | none => exact absurd (List.getLast?_eq_none_iff.mp h) hs
    | some x => rfl
  simp only [popBack, hlast]
  split_ifs with h
  · exact List.dropLast_append_of_ne_nil hs
  · rfl

theorem popBack_eq_nil (c : Byte) (s : Bytes) : popBack c s = [] ↔ s = [] ∨ s = [c] := by
  unfold popBack
  split_ifs with h
  · rcases List.eq_nil_or_concat s with rfl | ⟨a, x, rfl⟩
    · simp
    · rw [List.concat_eq_append] at h ⊢
      have hx : x = c := by simpa using h
      subst hx
      rw [List.dropLast_concat]
      cases a <;> simp
  · constructor
    · intro hs
      subst hs
      exact Or.inl rfl
    · intro hs
      rcases hs with rfl | rfl
      · rfl
      · simp at h

end HttpCpp
