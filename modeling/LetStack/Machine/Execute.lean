import LetStack.Item
import LetStack.Machine.Arithmetic
import LetStack.Machine.Relocate

/-!
A stack machine. A call runs the body of a closure on a stack and an environment of its own, and
afterwards rebinds the names that caller and callee share.
-/

namespace LetStack

/-- Operands, the last one pushed first, and the environment. -/
structure State where
  stack : List Value
  env : Environment

inductive Event where
  | executed (kind : String) (stackSize heapSize pending : Nat)
  | called (argCount captured : Nat)
  | merged (name : String)
  deriving DecidableEq

structure Effect where
  state : State
  fault : Option Fault
  events : List Event

structure Ending (α : Type) where
  state : State
  fault : Option Fault
  pending : List α
  events : List Event

namespace State

def push (state : State) (value : Value) : State := { state with stack := value :: state.stack }

def done (state : State) : Effect := ⟨state, none, []⟩

def fail (state : State) (fault : Fault) : Effect := ⟨state, some fault, []⟩

/-- Operands that were there are gone when one is missing. -/
def underflow (state : State) (kind : String) : Effect :=
  { state with stack := [] }.fail (.underflow kind)

def arithmetic (state : State) (operator : Operator) : Effect :=
  match state.stack with
  | right :: left :: rest =>
    match operator.apply left right with
    | .ok result => { state with stack := result :: rest }.done
    | .error fault => { state with stack := rest }.fail fault
  | _ => state.underflow operator.kind

def lookup (state : State) (name : String) : Effect :=
  match state.env.addressOf? name with
  | none => state.fail (.missingVariable name)
  | some address =>
    match state.env.load? address with
    | none => state.fail (.badAddress address)
    | some value => (state.push value).done

def store (state : State) (name : String) : Effect :=
  match state.stack with
  | [] => state.underflow "store"
  | value :: rest => (⟨rest, state.env.bind name value⟩ : State).done

/-- Copies arguments, the last one first, so that the first comes to lie on top. -/
def seed (caller : Environment) : List Value → State → Except Fault State
  | [], callee => .ok callee
  | arg :: rest, callee => do
    let (copy, env) ← caller.transfer arg callee.env
    seed caller rest ⟨copy :: callee.stack, env⟩

end State

structure Merged where
  env : Environment
  fault : Option Fault
  names : List String

/-- Rebinds each name of the callee that the caller has too and that is no parameter. -/
def merge (params : List String) (callee : Environment) :
    List (String × Int) → Environment → Merged
  | [], env => ⟨env, none, []⟩
  | (name, address) :: rest, env =>
    if name ∈ params ∨ env.symbols.contains name = false then merge params callee rest env
    else
      match callee.load? address with
      | none => ⟨env, some (.badAddress address), []⟩
      | some value =>
        match callee.transfer value env with
        | .error fault => ⟨env, some fault, []⟩
        | .ok (copy, env) =>
          let merged := merge params callee rest (env.bind name copy)
          { merged with names := name :: merged.names }

namespace State

/-- Merges the callee's environment, also after a fault, and takes over its result. A fault of
the merge hides one of the body. -/
def leaveCall (caller : State) (params : List String) (ending : Ending Instr) : Effect :=
  let callee := ending.state
  let merged := merge params callee.env callee.env.symbols.entries caller.env
  let after : State := { caller with env := merged.env }
  let events := ending.events ++ merged.names.map .merged
  match merged.fault.or ending.fault with
  | some fault => ⟨after, some fault, events⟩
  | none =>
    match callee.stack with
    | [] => ⟨after, none, events⟩
    | result :: _ =>
      match callee.env.transfer result after.env with
      | .error fault => ⟨after, some fault, events⟩
      | .ok (copy, env) => ⟨⟨copy :: after.stack, env⟩, none, events⟩

def enterCall (runBody : List Instr → State → Option (Ending Instr)) (caller : State)
    (popped : List Value) (params : List String) (body : List Instr) (captured : Environment) :
    Option Effect :=
  if popped.length = params.length then
    match seed caller.env popped ⟨[], captured⟩ with
    | .error fault => some (caller.fail fault)
    | .ok callee =>
      (runBody body callee).map fun ending =>
        let effect := caller.leaveCall params ending
        { effect with
          events := .called popped.length captured.symbols.length :: effect.events }
  else some (caller.fail (.argumentCount params.length popped.length))

def call (runBody : List Instr → State → Option (Ending Instr)) (state : State)
    (argCount : Nat) : Option Effect :=
  match state.stack with
  | [] => some (state.underflow "call")
  | callee :: below =>
    if below.length < argCount then some (state.underflow "call")
    else
      let caller : State := { state with stack := below.drop argCount }
      match callee with
      | .closure params body captured =>
        caller.enterCall runBody (below.take argCount) params body captured
      | other => some (caller.fail (.notCallable other.kind))

end State

def Instr.step (runBody : List Instr → State → Option (Ending Instr)) (state : State) :
    Instr → Option Effect
  | pushLiteral value => some (state.push value).done
  | allocateBytes content =>
    some ({ state with env := state.env.allocate (.bytes content) }.push
      (.pointer state.env.heap.length)).done
  | arithmetic operator => some (state.arithmetic operator)
  | lookup name => some (state.lookup name)
  | store name => some (state.store name)
  | makeClosure params body => some (state.push (.closure params body state.env)).done
  | call argCount => state.call runBody argCount

def drain (step : State → α → Option Effect) (kind : α → String) :
    List α → State → Option (Ending α)
  | [], state => some ⟨state, none, [], []⟩
  | instr :: rest, state =>
    match step state instr with
    | none => none
    | some ⟨after, some fault, events⟩ => some ⟨after, some fault, rest, events⟩
    | some ⟨after, none, events⟩ =>
      (drain step kind rest after).map fun ending =>
        { ending with
          events := events ++
            .executed (kind instr) after.stack.length after.env.heap.length rest.length ::
              ending.events }

/-- Runs instructions with calls that nest less deep than `depth`. -/
def execute : Nat → List Instr → State → Option (Ending Instr)
  | 0 => fun _ _ => none
  | depth + 1 => drain (Instr.step (execute depth)) Instr.kind

def Item.kind : Item Instr → String
  | known instr => instr.kind
  | unknown kind => kind

def Item.step (runBody : List Instr → State → Option (Ending Instr)) (state : State) :
    Item Instr → Option Effect
  | known instr => instr.step runBody state
  | unknown kind => some (state.fail (.unsupported kind))

def executeItems (depth : Nat) : List (Item Instr) → State → Option (Ending (Item Instr)) :=
  drain (Item.step (execute depth)) Item.kind

end LetStack
