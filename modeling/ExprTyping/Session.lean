import ExprTyping.Declarations
import ExprTyping.Inference

/-!
# Sessions

A session declares names and types expressions in turn, each step seeing what the earlier ones
declared.
-/

namespace ExprTyping

structure Session where
  registry : Registry
  declarations : Declarations

namespace Session

inductive Step where
  | declareSymbol (symbol : Symbol)
  | declareField (field : FieldDeclaration)
  | declareMethod (method : MethodDeclaration)
  | declareType (type : TypeDeclaration)
  | setStatic (value : Bool)
  | setResolveAny (value : Bool)
  | setRegistry (registry : Registry)
  | infer (e : Expr)
  /-- Types the expression and declares a local variable of that type. -/
  | define (name : String) (e : Expr)

def infer (session : Session) (e : Expr) : Traced Ty :=
  session.registry.infer session.declarations.environment e

def addSymbol (session : Session) (symbol : Symbol) : Session :=
  { session with declarations.symbols := symbol :: session.declarations.symbols }

/-- Runs a step; its result is the type that it inferred, if it inferred one. -/
def step (session : Session) : Step → Traced (Option Ty × Session)
  | .declareSymbol symbol => return (none, session.addSymbol symbol)
  | .declareField field =>
    return (none, { session with declarations.fields := field :: session.declarations.fields })
  | .declareMethod method =>
    return (none, { session with declarations.methods := method :: session.declarations.methods })
  | .declareType type =>
    return (none, { session with declarations.types := type :: session.declarations.types })
  | .setStatic value => return (none, { session with declarations.isStatic := value })
  | .setResolveAny value => return (none, { session with declarations.resolveAny := value })
  | .setRegistry registry => return (none, { session with registry })
  | .infer e => return (some (← session.infer e), session)
  | .define name e => do
    let ty ← session.infer e
    return (some ty, session.addSymbol ⟨name, .local, ty⟩)

/-- Runs the steps in turn; each result comes with the questions of its own step. -/
def run (session : Session) : List Step → List (Traced (Option Ty))
  | [] => []
  | step :: steps =>
    let traced := session.step step
    ⟨traced.value.1, traced.queries⟩ :: traced.value.2.run steps

end Session

end ExprTyping
