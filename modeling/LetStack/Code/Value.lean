import LetStack.Expr
import LetStack.Table

/-! Values, instructions and environments. A closure holds the code and the environment that it
was made with. -/

namespace LetStack

mutual

inductive Value where
  | int (value : Int)
  | float (value : Float)
  | bool (value : Bool)
  | pointer (address : Nat)
  | bytes (content : List UInt8)
  | closure (params : List String) (body : List Instr) (env : Environment)

inductive Instr where
  | pushLiteral (value : Value)
  | allocateBytes (content : List UInt8)
  | arithmetic (operator : Operator)
  | lookup (name : String)
  | store (name : String)
  | makeClosure (params : List String) (body : List Instr)
  | call (argCount : Nat)

structure Environment where
  heap : List Value
  symbols : Table Int

end

def Operator.kind : Operator → String
  | add => "add"
  | sub => "sub"
  | mul => "mul"
  | div => "div"

def Value.kind : Value → String
  | int _ => "int"
  | float _ => "float"
  | bool _ => "bool"
  | pointer _ => "pointer"
  | bytes _ => "bytes"
  | closure _ _ _ => "closure"

def Instr.kind : Instr → String
  | pushLiteral _ => "push_literal"
  | allocateBytes _ => "allocate_bytes"
  | arithmetic operator => operator.kind
  | lookup _ => "lookup"
  | store _ => "store"
  | makeClosure _ _ => "make_closure"
  | call _ => "call"

namespace Environment

def empty : Environment := ⟨[], .empty⟩

instance : Inhabited Environment := ⟨empty⟩

def allocate (env : Environment) (value : Value) : Environment :=
  { env with heap := env.heap ++ [value] }

def bind (env : Environment) (name : String) (value : Value) : Environment :=
  { env.allocate value with symbols := env.symbols.set name env.heap.length }

def addressOf? (env : Environment) (name : String) : Option Int := env.symbols.get? name

/-- Negative addresses count from the end of the heap. -/
def load? (env : Environment) (address : Int) : Option Value :=
  if 0 ≤ address then env.heap[address.toNat]?
  else if address.natAbs ≤ env.heap.length then env.heap[env.heap.length - address.natAbs]?
  else none

end Environment

end LetStack
