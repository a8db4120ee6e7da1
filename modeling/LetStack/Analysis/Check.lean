import LetStack.Analysis.Scope
import LetStack.Decimal.Printing
import LetStack.Item

/-! What is wrong with a program before it runs: names, constants and argument counts. -/

namespace LetStack

inductive ScopeError where
  | unbound (name : String)
  | redeclared (name : String)
  | constReassigned (name : String)
  | arityMismatch (name : String) (expected : Int) (actual : Nat)
  | notFunction (name : String)
  deriving DecidableEq

def ScopeError.message : ScopeError → String
  | unbound name => "'" ++ name ++ "' is not declared"
  | redeclared name => "'" ++ name ++ "' is already declared in this scope"
  | constReassigned name => "cannot assign to const '" ++ name ++ "'"
  | arityMismatch name expected actual =>
    "'" ++ name ++ "' takes " ++ intText expected ++ " argument(s) but " ++ actual.repr
      ++ " were given"
  | notFunction name => "'" ++ name ++ "' is not bound to a function"

inductive ScopeWarning where
  | reassigning (name : String)
  deriving DecidableEq

def ScopeWarning.message : ScopeWarning → String
  | reassigning name => "reassigning '" ++ name ++ "'"

structure Findings where
  errors : List ScopeError
  warnings : List ScopeWarning
  deriving DecidableEq

namespace Findings

def none : Findings := ⟨[], []⟩

def error (error : ScopeError) : Findings := ⟨[error], []⟩

def append (first second : Findings) : Findings :=
  ⟨first.errors ++ second.errors, first.warnings ++ second.warnings⟩

instance : Append Findings := ⟨append⟩

def isClean (findings : Findings) : Bool := findings.errors.isEmpty

@[simp] theorem errors_append (first second : Findings) :
    (first ++ second).errors = first.errors ++ second.errors := rfl

@[simp] theorem warnings_append (first second : Findings) :
    (first ++ second).warnings = first.warnings ++ second.warnings := rfl

end Findings

def repeated : List String → List String → List String
  | _, [] => []
  | seen, param :: rest =>
    if param ∈ seen then param :: repeated seen rest else repeated (param :: seen) rest

namespace Scope

def checkIdentifier (scope : Scope) (name : String) : Findings :=
  if scope.symbols.contains name then .none else .error (.unbound name)

/-- An assignment is always worth a warning. -/
def checkTarget (scope : Scope) (name : String) : Findings :=
  let errors : List ScopeError := match scope.symbols.get? name with
    | none => [.unbound name]
    | some .constant => [.constReassigned name]
    | some .variable => []
  ⟨errors, [.reassigning name]⟩

def checkCallee (scope : Scope) (name : String) (argCount : Nat) : Findings :=
  if scope.symbols.contains name then
    match scope.arities.get? name with
    | none => .error (.notFunction name)
    | some arity =>
      if arity = argCount then .none else .error (.arityMismatch name arity argCount)
  else .error (.unbound name)

end Scope

mutual

/-- Findings in the order in which the parts of the expression are entered, and the scope after
it. The body of a function is checked in a scope of its own. -/
def Expr.check : Expr → Scope → Scope × Findings
  | .literal _, scope => (scope, .none)
  | .identifier name, scope => (scope, scope.checkIdentifier name)
  | .declare kind name rhs, scope =>
    let checked := rhs.check scope
    if checked.1.symbols.contains name then
      (checked.1, checked.2 ++ .error (.redeclared name))
    else (checked.1.declare kind name rhs, checked.2)
  | .assign name rhs, scope =>
    let checked := rhs.check scope
    let after := if scope.symbols.get? name = some .variable then checked.1.recordArity name rhs
      else checked.1
    (after, scope.checkTarget name ++ checked.2)
  | .binary left _ right, scope =>
    let first := left.check scope
    let second := right.check first.1
    (second.1, first.2 ++ second.2)
  | .function params body, scope =>
    let inner := Expr.checkAll body (scope.enter params)
    (scope, ⟨(repeated [] params).map .redeclared, []⟩ ++ inner.2)
  | .call callee args, scope =>
    let checked := Expr.checkAll args scope
    (checked.1, checked.2 ++ checked.1.checkCallee callee args.length)

def Expr.checkAll : List Expr → Scope → Scope × Findings
  | [], scope => (scope, .none)
  | first :: rest, scope =>
    let checked := first.check scope
    let more := Expr.checkAll rest checked.1
    (more.1, checked.2 ++ more.2)

end

/-- A program with errors leaves the scope as it was. -/
def Scope.analyze (scope : Scope) (program : List Expr) : Scope × Findings :=
  let checked := Expr.checkAll program scope
  (if checked.2.isClean then checked.1 else scope, checked.2)

def Expr.checkItems : List (Item Expr) → Scope → Except String (Scope × Findings)
  | [], scope => .ok (scope, .none)
  | .unknown kind :: _, _ => .error kind
  | .known first :: rest, scope =>
    let checked := first.check scope
    (checkItems rest checked.1).map fun more => (more.1, checked.2 ++ more.2)

def Scope.analyzeItems (scope : Scope) (program : List (Item Expr)) :
    Except String Findings × Scope :=
  match Expr.checkItems program scope with
  | .error kind => (.error kind, scope)
  | .ok checked => (.ok checked.2, if checked.2.isClean then checked.1 else scope)

end LetStack
