/-! The syntax tree of a program. -/

namespace LetStack

inductive Operator where
  | add
  | sub
  | mul
  | div
  deriving DecidableEq

inductive SymbolKind where
  | variable
  | constant
  deriving DecidableEq

inductive Literal where
  | int (value : Int)
  | float (value : Float)
  | bool (value : Bool)
  | text (value : String)

inductive Expr where
  | literal (value : Literal)
  | identifier (name : String)
  | declare (kind : SymbolKind) (name : String) (rhs : Expr)
  | assign (name : String) (rhs : Expr)
  | binary (left : Expr) (operator : Operator) (right : Expr)
  | function (params : List String) (body : List Expr)
  | call (callee : String) (args : List Expr)

def intMin : Int := -2147483648

def intMax : Int := 2147483647

def fitsInt (value : Int) : Bool := intMin ≤ value && value ≤ intMax

end LetStack
