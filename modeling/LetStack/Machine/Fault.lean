import LetStack.Decimal.Printing
import LetStack.Expr

/-! Why a run stops early. -/

namespace LetStack

inductive Fault where
  | missingVariable (name : String)
  | underflow (kind : String)
  | operandKinds (operator : Operator) (left right : String)
  | overflow (operator : Operator) (left right : Int)
  | divisionByZero
  | notCallable (kind : String)
  | argumentCount (expected actual : Nat)
  | danglingPointer (address : Nat)
  | endlessPointer
  | badAddress (address : Int)
  | unsupported (kind : String)
  deriving DecidableEq

def Operator.verb : Operator → String
  | add => "add"
  | sub => "subtract"
  | mul => "multiply"
  | div => "divide"

def Operator.sign : Operator → String
  | add => "+"
  | sub => "-"
  | mul => "*"
  | div => "/"

def Fault.message : Fault → String
  | missingVariable name => "Variable '" ++ name ++ "' not found"
  | underflow kind => "stack underflow in " ++ kind
  | operandKinds operator left right =>
    "Can't " ++ operator.verb ++ " " ++ left ++ " and " ++ right
  | overflow operator left right =>
    "integer overflow: " ++ intText left ++ " " ++ operator.sign ++ " " ++ intText right
  | divisionByZero => "division by zero"
  | notCallable kind => "Can't call " ++ kind
  | argumentCount expected actual =>
    "function expects " ++ expected.repr ++ " argument(s), got " ++ actual.repr
  | danglingPointer address => "dangling pointer #" ++ address.repr
  | endlessPointer => "pointer without end"
  | badAddress address =>
    if -Int.pow 2 63 ≤ address ∧ address < Int.pow 2 63 then "list index out of range"
    else "cannot fit 'int' into an index-sized integer"
  | unsupported kind => "Unsupported instruction kind: " ++ kind

end LetStack
