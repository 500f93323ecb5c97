import ExprTyping.Query

/-!
# Inquiries

An inquiry is a computation that reaches its result by asking questions, each of which may depend
on the answers to the earlier ones. It has no other access to what answers them, so whoever
answers sees every question.
-/

namespace ExprTyping

inductive Inquiry (α : Type) where
  | done (result : α)
  | ask (query : Query) (next : query.Answer → Inquiry α)

namespace Inquiry

variable {α β γ : Type}

protected def bind : Inquiry α → (α → Inquiry β) → Inquiry β
  | done a, f => f a
  | ask query next, f => ask query fun answer ↦ (next answer).bind f

instance : Monad Inquiry where
  pure := done
  bind := Inquiry.bind

@[simp] theorem pure_eq_done (a : α) : (pure a : Inquiry α) = done a := rfl

@[simp] theorem done_bind (a : α) (f : α → Inquiry β) : (done a >>= f) = f a := rfl

@[simp] theorem ask_bind (query : Query) (next : query.Answer → Inquiry α) (f : α → Inquiry β) :
    (ask query next >>= f) = ask query fun answer ↦ next answer >>= f := rfl

theorem bind_done (x : Inquiry α) : (x >>= done) = x := by
  induction x with
  | done a => rfl
  | ask query next ih =>
    rw [ask_bind]
    exact congrArg (ask query) (funext ih)

theorem bind_bind (x : Inquiry α) (f : α → Inquiry β) (g : β → Inquiry γ) :
    (x >>= f >>= g) = (x >>= fun a ↦ f a >>= g) := by
  induction x with
  | done a => rfl
  | ask query next ih =>
    rw [ask_bind, ask_bind, ask_bind]
    exact congrArg (ask query) (funext ih)

instance : LawfulMonad Inquiry := LawfulMonad.mk' Inquiry bind_done (fun _ _ ↦ rfl) bind_bind

def typeOf (e : Expr) : Inquiry Ty := ask (.typeOf e) done

def resolve (name : String) : Inquiry Ty := ask (.resolve name) done

def symbol? (name : String) : Inquiry (Option Symbol) := ask (.symbol name) done

def method? (receiver : Ty) (name : String) (args : List Ty) : Inquiry (Option Ty) :=
  ask (.method receiver name args) done

def field? (receiver : Ty) (name : String) : Inquiry (Option Ty) := ask (.field receiver name) done

def isStatic : Inquiry Bool := ask .isStatic done

/-- The type of a name that nothing declares: statically bound code has an error there, other code
waits until it runs. -/
def undeclared (reason name : String) : Inquiry Ty := do
  if ← isStatic then
    return .unknown reason
  else
    return .dynamic (some name)

/-- Carries out an inquiry; `answer` gives the answers, with the questions that they took. -/
def run (answer : (query : Query) → Traced query.Answer) : Inquiry α → Traced α
  | done a => pure a
  | ask query next => do run answer (next (← answer query))

@[simp] theorem run_done (answer : (query : Query) → Traced query.Answer) (a : α) :
    (done a).run answer = pure a := rfl

@[simp] theorem run_ask (answer : (query : Query) → Traced query.Answer) (query : Query)
    (next : query.Answer → Inquiry α) :
    (ask query next).run answer = (answer query >>= fun a ↦ (next a).run answer) := rfl

@[simp] theorem run_bind (answer : (query : Query) → Traced query.Answer) (x : Inquiry α)
    (f : α → Inquiry β) :
    (x >>= f).run answer = (x.run answer >>= fun a ↦ (f a).run answer) := by
  induction x with
  | done a => rfl
  | ask query next ih =>
    rw [ask_bind, run_ask, run_ask, bind_assoc]
    exact bind_congr ih

end Inquiry

end ExprTyping
