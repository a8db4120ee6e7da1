import LetStack.Expr
import LetStack.Table

/-! The names that are declared at a point of a program. -/

namespace LetStack

/-- A scope given from outside may hold any number as an arity. -/
structure Scope where
  symbols : Table SymbolKind
  arities : Table Int

namespace Scope

def empty : Scope := ⟨.empty, .empty⟩

instance : Inhabited Scope := ⟨empty⟩

def arityOf? (scope : Scope) : Expr → Option Int
  | .function params _ => some params.length
  | .identifier name => scope.arities.get? name
  | _ => none

def recordArity (scope : Scope) (name : String) (rhs : Expr) : Scope :=
  match scope.arityOf? rhs with
  | some arity => { scope with arities := scope.arities.set name arity }
  | none => { scope with arities := scope.arities.erase name }

def declare (scope : Scope) (kind : SymbolKind) (name : String) (rhs : Expr) : Scope :=
  { scope with symbols := scope.symbols.set name kind }.recordArity name rhs

/-- A parameter hides what its name meant outside, and cannot be assigned or called. -/
def addParam (scope : Scope) (param : String) : Scope :=
  ⟨scope.symbols.set param .constant, scope.arities.erase param⟩

def enter (scope : Scope) (params : List String) : Scope := params.foldl addParam scope

end Scope

end LetStack
