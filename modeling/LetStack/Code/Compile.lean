import LetStack.Code.Value
import LetStack.Text.Utf8

/-! Programs as instructions for a stack machine. -/

namespace LetStack

def Literal.compile : Literal → Instr
  | int value => .pushLiteral (.int value)
  | float value => .pushLiteral (.float value)
  | bool value => .pushLiteral (.bool value)
  | text value => .allocateBytes (encodeUtf8 value.toList)

mutual

/-- Operands before their operator, and arguments before the callee. The body of a function
begins by binding the parameters, of which the first is on top of the stack. -/
def Expr.compile : Expr → List Instr
  | .literal value => [value.compile]
  | .identifier name => [.lookup name]
  | .declare _ name rhs => rhs.compile ++ [.store name]
  | .assign name rhs => rhs.compile ++ [.store name]
  | .binary left operator right => left.compile ++ right.compile ++ [.arithmetic operator]
  | .function params body => [.makeClosure params (params.map .store ++ Expr.compileAll body)]
  | .call callee args => Expr.compileAll args ++ [.lookup callee, .call args.length]

def Expr.compileAll : List Expr → List Instr
  | [] => []
  | first :: rest => first.compile ++ Expr.compileAll rest

end

theorem Expr.compileAll_append (first second : List Expr) :
    Expr.compileAll (first ++ second) = Expr.compileAll first ++ Expr.compileAll second := by
  induction first with
  | nil => simp [compileAll]
  | cons head rest ih => simp [compileAll, ih]

end LetStack
