import LetStack.Analysis.Check
import LetStack.Proofs.Tree

/-!
A program in the order in which it is read: what one comes upon, and the bindings that are there by
then. Nothing is checked here.
-/

namespace LetStack

inductive Binding where
  | param (name : String)
  | declared (kind : SymbolKind) (name : String) (rhs : Expr)
  | assigned (name : String) (rhs : Expr)

namespace Binding

def name : Binding → String
  | param name => name
  | declared _ name _ => name
  | assigned name _ => name

def rhs? : Binding → Option Expr
  | param _ => none
  | declared _ _ rhs => some rhs
  | assigned _ rhs => some rhs

def kind? : Binding → Option SymbolKind
  | param _ => some .constant
  | declared kind _ _ => some kind
  | assigned _ _ => none

def Binds (name : String) (binding : Binding) : Prop := binding.name = name

def Introduces (name : String) (binding : Binding) : Prop :=
  binding.name = name ∧ binding.kind?.isSome = true

end Binding

inductive Reading where
  | use (name : String)
  | target (name : String)
  | declaration (name : String)
  | params (names : List String)
  | call (callee : String) (argCount : Nat)

mutual

/-- The bindings that an expression adds to the body that it stands in, the latest first. Those of
function bodies stay there. -/
def Expr.bindings : Expr → List Binding
  | .literal _ => []
  | .identifier _ => []
  | .declare kind name rhs => .declared kind name rhs :: rhs.bindings
  | .assign name rhs => .assigned name rhs :: rhs.bindings
  | .binary left _ right => right.bindings ++ left.bindings
  | .function _ _ => []
  | .call _ args => Expr.bindingsOfAll args

def Expr.bindingsOfAll : List Expr → List Binding
  | [] => []
  | first :: rest => Expr.bindingsOfAll rest ++ first.bindings

end

mutual

/-- All that is come upon in an expression, in order, each with the bindings before it. A name is
declared after its right-hand side, and assigned after it too, but looked at as a target before it.
Arguments come before the callee. -/
def Expr.readings : Expr → List Binding → List (List Binding × Reading)
  | .literal _, _ => []
  | .identifier name, earlier => [(earlier, .use name)]
  | .declare _ name rhs, earlier =>
    rhs.readings earlier ++ [(rhs.bindings ++ earlier, .declaration name)]
  | .assign name rhs, earlier => (earlier, .target name) :: rhs.readings earlier
  | .binary left _ right, earlier =>
    left.readings earlier ++ right.readings (left.bindings ++ earlier)
  | .function params body, earlier =>
    (earlier, .params params) ::
      Expr.readingsOfAll body ((params.map .param).reverse ++ earlier)
  | .call callee args, earlier =>
    Expr.readingsOfAll args earlier ++
      [(Expr.bindingsOfAll args ++ earlier, .call callee args.length)]

def Expr.readingsOfAll : List Expr → List Binding → List (List Binding × Reading)
  | [], _ => []
  | first :: rest, earlier =>
    first.readings earlier ++ Expr.readingsOfAll rest (first.bindings ++ earlier)

end

def programReadings (program : List Expr) : List (List Binding × Reading) :=
  Expr.readingsOfAll program []

end LetStack
