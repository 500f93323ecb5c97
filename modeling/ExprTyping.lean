import ExprTyping.ClassName
import ExprTyping.Primitive
import ExprTyping.Ty.Basic
import ExprTyping.Ty.Union
import ExprTyping.Ty.Render
import ExprTyping.Ty.Digest
import ExprTyping.Ty.Element
import ExprTyping.Numeric.Rank
import ExprTyping.Numeric.Promotion
import ExprTyping.Hierarchy.Table
import ExprTyping.Hierarchy.Builtin
import ExprTyping.Hierarchy.Specificity
import ExprTyping.Hierarchy.Cache
import ExprTyping.Join
import ExprTyping.Expr.Kind
import ExprTyping.Expr.Literal
import ExprTyping.Expr.Basic
import ExprTyping.Query
import ExprTyping.Inquiry
import ExprTyping.Environment
import ExprTyping.Rule.Basic
import ExprTyping.Rule.Value
import ExprTyping.Rule.Operator
import ExprTyping.Rule.Branch
import ExprTyping.Rule.Collection
import ExprTyping.Rule.Member
import ExprTyping.Rule.Standard
import ExprTyping.Rule.Custom
import ExprTyping.Registry
import ExprTyping.Inference
import ExprTyping.Declarations
import ExprTyping.Session
import ExprTyping.Text.Blank
import ExprTyping.Logging
import ExprTyping.Proofs.Equality
import ExprTyping.Proofs.CacheTransparency
import ExprTyping.Proofs.CommonAncestor
import ExprTyping.Proofs.Promotion
import ExprTyping.Proofs.PromotionOrder
import ExprTyping.Proofs.Operands
import ExprTyping.Proofs.JoinCongruence
import ExprTyping.Proofs.JoinTable
import ExprTyping.Proofs.ExprParts
import ExprTyping.Proofs.Simulation
import ExprTyping.Proofs.TypeRelation
import ExprTyping.Proofs.RuleSimulation
import ExprTyping.Proofs.InferenceSimulation
import ExprTyping.Proofs.InferenceCongruence
import ExprTyping.Proofs.InferenceInvariant
import ExprTyping.Proofs.UnionInvariant
import ExprTyping.Proofs.StaticBinding
import ExprTyping.Proofs.NodeType
import ExprTyping.Proofs.Dispatch
import ExprTyping.Proofs.Questions
import ExprTyping.Proofs.VisitOrder
import ExprTyping.Proofs.Relevance
import ExprTyping.Proofs.RegistryExtension
import ExprTyping.Proofs.ReferenceArguments
import ExprTyping.Proofs.InferredArguments
import ExprTyping.Proofs.JoinLaws
import ExprTyping.Proofs.UnionBuilding
import ExprTyping.Proofs.Inheritance
import ExprTyping.Proofs.BoxedElements
import ExprTyping.Proofs.ElementAccess
import ExprTyping.Proofs.Hashing
import ExprTyping.Proofs.UniqueReading
import ExprTyping.Proofs.JoinRendering
import ExprTyping.Proofs.SpreadAccess
import ExprTyping.Proofs.OperatorGrammar
import ExprTyping.Proofs.SimpleNames
