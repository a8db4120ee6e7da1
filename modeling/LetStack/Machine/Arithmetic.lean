import LetStack.Code.Value
import LetStack.Machine.Fault

/-! Arithmetic on two integers or on two floats. -/

namespace LetStack

def Operator.onInts : Operator → Int → Int → Except Fault Int
  | add, left, right => .ok (left + right)
  | sub, left, right => .ok (left - right)
  | mul, left, right => .ok (left * right)
  | div, left, right => if right = 0 then .error .divisionByZero else .ok (left.tdiv right)

def Operator.onFloats : Operator → Float → Float → Except Fault Float
  | add, left, right => .ok (left + right)
  | sub, left, right => .ok (left - right)
  | mul, left, right => .ok (left * right)
  | div, left, right => if right == 0 then .error .divisionByZero else .ok (left / right)

def Operator.apply (operator : Operator) : Value → Value → Except Fault Value
  | .int left, .int right => do
    let result ← operator.onInts left right
    if fitsInt result then .ok (.int result) else .error (.overflow operator left right)
  | .float left, .float right => do
    let result ← operator.onFloats left right
    .ok (.float result)
  | left, right => .error (.operandKinds operator left.kind right.kind)

end LetStack
