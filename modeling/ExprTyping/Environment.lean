import ExprTyping.Inquiry

/-!
# Environments

An environment knows the names of the program around an expression. Together with a way to type
expressions it answers every question.
-/

namespace ExprTyping

structure Environment where
  symbol? : String → Option Symbol
  field? : Ty → String → Option Ty
  method? : Ty → String → List Ty → Option Ty
  resolve : String → Ty
  isStatic : Bool

/-- Answers and records a question; the types of expressions come from `typeOf`, with a record of
their own. -/
def Environment.answer (environment : Environment) (typeOf : Expr → Traced Ty) :
    (query : Query) → Traced query.Answer
  | .typeOf e => typeOf e
  | .resolve name => .record (.resolve name) (environment.resolve name)
  | .symbol name => .record (.symbol name) (environment.symbol? name)
  | .method receiver name args =>
    .record (.method receiver name args) (environment.method? receiver name args)
  | .field receiver name => .record (.field receiver name) (environment.field? receiver name)
  | .isStatic => .record .isStatic environment.isStatic

end ExprTyping
