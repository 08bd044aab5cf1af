import Mathlib.Tactic.TypeStar

namespace HttpCpp

/-- A computation that asks questions, one after the other, before it has its result. -/
inductive Asking (Q A R : Type) where
  | done (result : R)
  | ask (question : Q) (next : A → Asking Q A R)

namespace Asking

variable {Q A R S : Type}

def bind : Asking Q A R → (R → Asking Q A S) → Asking Q A S
  | done result, f => f result
  | ask question next, f => ask question fun a => (next a).bind f

/-- The result where one function answers all questions. -/
def answered (answer : Q → A) : Asking Q A R → R
  | done result => result
  | ask question next => (next (answer question)).answered answer

@[simp] theorem answered_done (answer : Q → A) (result : R) :
    (done result : Asking Q A R).answered answer = result := rfl

@[simp] theorem answered_ask (answer : Q → A) (question : Q) (next : A → Asking Q A R) :
    (ask question next).answered answer = (next (answer question)).answered answer := rfl

@[simp] theorem answered_bind (answer : Q → A) (x : Asking Q A R) (f : R → Asking Q A S) :
    (x.bind f).answered answer = (f (x.answered answer)).answered answer := by
  induction x with
  | done result => rfl
  | ask question next ih => exact ih (answer question)

/-- How many questions it asks where one function answers all of them. -/
def asked (answer : Q → A) : Asking Q A R → Nat
  | done _ => 0
  | ask question next => (next (answer question)).asked answer + 1

@[simp] theorem asked_done (answer : Q → A) (result : R) :
    (done result : Asking Q A R).asked answer = 0 := rfl

@[simp] theorem asked_ask (answer : Q → A) (question : Q) (next : A → Asking Q A R) :
    (ask question next).asked answer = (next (answer question)).asked answer + 1 := rfl

@[simp] theorem asked_bind (answer : Q → A) (x : Asking Q A R) (f : R → Asking Q A S) :
    (x.bind f).asked answer = x.asked answer + (f (x.answered answer)).asked answer := by
  induction x with
  | done result => simp [bind]
  | ask question next ih =>
    have hrest := ih (answer question)
    simp only [bind, asked_ask, answered_ask]
    omega

end Asking

end HttpCpp
