import LetStack.Machine.Fault

/-!
Evaluation straight on the tree. Names stand for plain values; there is no heap, no address and no
stack of operands.
-/

namespace LetStack

/-- A closure keeps what the names meant where it was made. -/
inductive Plain where
  | int (value : Int)
  | float (value : Float)
  | bool (value : Bool)
  | text (content : String)
  | closure (params : List String) (body : List Expr) (captured : String → Option Plain)

def Bindings : Type := String → Option Plain

inductive Stop where
  | fault (fault : Fault)
  | valueless

namespace Plain

def kind : Plain → String
  | int _ => "int"
  | float _ => "float"
  | bool _ => "bool"
  | text _ => "pointer"
  | closure _ _ _ => "closure"

end Plain

def Literal.plain : Literal → Plain
  | int value => .int value
  | float value => .float value
  | bool value => .bool value
  | text content => .text content

namespace Operator

def ofInts : Operator → Int → Int → Int
  | add, left, right => left + right
  | sub, left, right => left - right
  | mul, left, right => left * right
  | div, left, right => left.tdiv right

def ofFloats : Operator → Float → Float → Float
  | add, left, right => left + right
  | sub, left, right => left - right
  | mul, left, right => left * right
  | div, left, right => left / right

def onPlain (operator : Operator) : Plain → Plain → Except Fault Plain
  | .int left, .int right =>
    let result := operator.ofInts left right
    if operator = div ∧ right = 0 then .error .divisionByZero
    else if -2147483648 ≤ result ∧ result ≤ 2147483647 then .ok (.int result)
    else .error (.overflow operator left right)
  | .float left, .float right =>
    if operator = div ∧ right == 0 then .error .divisionByZero
    else .ok (.float (operator.ofFloats left right))
  | left, right => .error (.operandKinds operator left.kind right.kind)

end Operator

namespace Bindings

def none : Bindings := fun _ => .none

def set (bindings : Bindings) (name : String) (value : Plain) : Bindings :=
  fun query => if query = name then some value else bindings query

def setAll : List String → List Plain → Bindings → Bindings
  | name :: names, value :: values, bindings => setAll names values (bindings.set name value)
  | _, _, bindings => bindings

/-- Names that both sides know and that are no parameters take the value of the callee. -/
def absorb (caller : Bindings) (params : List String) (callee : Bindings) : Bindings :=
  fun name => (caller name).map fun value =>
    if name ∈ params then value else (callee name).getD value

end Bindings

def Direct (α : Type) : Type := Bindings → Option (Except Stop α × Bindings)

namespace Direct

def result {α : Type} (value : α) : Direct α := fun bindings => some (.ok value, bindings)

def stop {α : Type} (reason : Stop) : Direct α := fun bindings => some (.error reason, bindings)

def andThen {α β : Type} (first : Direct α) (next : α → Direct β) : Direct β := fun bindings =>
  match first bindings with
  | none => none
  | some (.error reason, after) => some (.error reason, after)
  | some (.ok value, after) => next value after

instance : Monad Direct where
  pure := result
  bind := andThen

def ofExcept {α : Type} : Except Fault α → Direct α
  | .ok value => result value
  | .error fault => stop (.fault fault)

def current : Direct Bindings := fun bindings => some (.ok bindings, bindings)

def find (name : String) : Direct Plain := fun bindings =>
  match bindings name with
  | some value => some (.ok value, bindings)
  | none => some (.error (.fault (.missingVariable name)), bindings)

def set (name : String) (value : Plain) : Direct Unit := fun bindings =>
  some (.ok (), bindings.set name value)

def needed (evaluation : Direct (Option Plain)) : Direct Plain := do
  match ← evaluation with
  | some value => pure value
  | none => stop .valueless

end Direct

/-- The caller absorbs what has come of the body, also after a fault. -/
def Plain.call (runBody : List Expr → Direct (Option Plain)) (args : List Plain) :
    Plain → Direct (Option Plain)
  | .closure params body captured => fun caller =>
    if args.length = params.length then
      (runBody body (Bindings.setAll params args captured)).map fun ended =>
        (ended.1, caller.absorb params ended.2)
    else Direct.stop (.fault (.argumentCount params.length args.length)) caller
  | other => Direct.stop (.fault (.notCallable other.kind))

namespace Plain

variable {runBody : List Expr → Direct (Option Plain)} {args : List Plain}

theorem call_closure (params : List String) (body : List Expr) (captured caller : Bindings) :
    (closure params body captured).call runBody args caller =
      if args.length = params.length then
        (runBody body (Bindings.setAll params args captured)).map fun ended =>
          (ended.1, caller.absorb params ended.2)
      else Direct.stop (.fault (.argumentCount params.length args.length)) caller := rfl

theorem call_of_argumentCount {params : List String} (body : List Expr) (captured : Bindings)
    (wrong : args.length ≠ params.length) :
    (closure params body captured).call runBody args =
      Direct.stop (.fault (.argumentCount params.length args.length)) :=
  funext fun caller => (call_closure params body captured caller).trans (if_neg wrong)

theorem call_of_not_closure {target : Plain}
    (notClosure : ∀ params body captured, target ≠ closure params body captured) :
    target.call runBody args = Direct.stop (.fault (.notCallable target.kind)) := by
  cases target with
  | closure params body captured => exact absurd rfl (notClosure params body captured)
  | _ => rfl

end Plain

mutual

def Expr.direct (runBody : List Expr → Direct (Option Plain)) : Expr → Direct (Option Plain)
  | .literal value => pure (some value.plain)
  | .identifier name => do
    let value ← Direct.find name
    pure (some value)
  | .declare _ name rhs => do
    let value ← Direct.needed (rhs.direct runBody)
    Direct.set name value
    pure none
  | .assign name rhs => do
    let value ← Direct.needed (rhs.direct runBody)
    Direct.set name value
    pure none
  | .binary left operator right => do
    let first ← Direct.needed (left.direct runBody)
    let second ← Direct.needed (right.direct runBody)
    let value ← Direct.ofExcept (operator.onPlain first second)
    pure (some value)
  | .function params body => do
    let captured ← Direct.current
    pure (some (.closure params body captured))
  | .call callee args => do
    let values ← Expr.directArgs runBody args
    let target ← Direct.find callee
    target.call runBody values

def Expr.directArgs (runBody : List Expr → Direct (Option Plain)) : List Expr → Direct (List Plain)
  | [] => pure []
  | first :: rest => do
    let value ← Direct.needed (first.direct runBody)
    let values ← Expr.directArgs runBody rest
    pure (value :: values)

def Expr.directAll (runBody : List Expr → Direct (Option Plain)) :
    List Expr → Direct (Option Plain)
  | [] => pure none
  | first :: rest => do
    let value ← first.direct runBody
    let later ← Expr.directAll runBody rest
    pure (later.or value)

end

def Direct.run : Nat → List Expr → Direct (Option Plain)
  | 0 => fun _ _ => none
  | depth + 1 => Expr.directAll (run depth)

end LetStack
