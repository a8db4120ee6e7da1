import LetStack.Expr

/-!
Induction over a tree, with the parts of function bodies and of calls taken from their lists, and the
literals that a tree has.
-/

namespace LetStack

theorem Expr.induction {motive : Expr → Prop}
    (literal : ∀ value, motive (.literal value))
    (identifier : ∀ name, motive (.identifier name))
    (declare : ∀ kind name rhs, motive rhs → motive (.declare kind name rhs))
    (assign : ∀ name rhs, motive rhs → motive (.assign name rhs))
    (binary : ∀ left operator right, motive left → motive right →
      motive (.binary left operator right))
    (function : ∀ params body, (∀ part ∈ body, motive part) → motive (.function params body))
    (call : ∀ callee args, (∀ part ∈ args, motive part) → motive (.call callee args))
    (expr : Expr) : motive expr :=
  @Expr.rec motive (fun parts => ∀ part ∈ parts, motive part) literal identifier declare assign
    binary function call (fun _ impossible => by simp at impossible)
    (fun _ _ first rest part member => by
      rcases List.mem_cons.1 member with rfl | later
      · exact first
      · exact rest part later)
    expr

inductive Expr.HasLiteral (value : Literal) : Expr → Prop
  | here : HasLiteral value (.literal value)
  | declare {kind : SymbolKind} {name : String} {rhs : Expr} : HasLiteral value rhs →
      HasLiteral value (.declare kind name rhs)
  | assign {name : String} {rhs : Expr} : HasLiteral value rhs → HasLiteral value (.assign name rhs)
  | left {left right : Expr} {operator : Operator} : HasLiteral value left →
      HasLiteral value (.binary left operator right)
  | right {left right : Expr} {operator : Operator} : HasLiteral value right →
      HasLiteral value (.binary left operator right)
  | body {params : List String} {body : List Expr} {part : Expr} : part ∈ body →
      HasLiteral value part → HasLiteral value (.function params body)
  | arg {callee : String} {args : List Expr} {arg : Expr} : arg ∈ args →
      HasLiteral value arg → HasLiteral value (.call callee args)

end LetStack
