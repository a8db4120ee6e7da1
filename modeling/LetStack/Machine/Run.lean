import LetStack.Machine.Display
import LetStack.Machine.Execute

/-! Runs from an empty stack to an answer. -/

namespace LetStack

inductive Answer where
  | value (value : Value)
  | text (text : String)
  | nothing

def Answer.display? : Answer → Option String
  | value answer => some answer.display
  | text shown => some shown
  | nothing => none

namespace State

def takeAnswer (state : State) : Except Fault Answer × State :=
  match state.stack with
  | [] => (.ok .nothing, state)
  | top :: rest =>
    let answer : Except Fault Answer := match top with
      | .pointer address =>
        match state.env.heap[address]? with
        | none => .error (.danglingPointer address)
        | some (.bytes content) => .ok (.text ("\"" ++ bytesText content ++ "\""))
        | some target => .ok (.value target)
      | value => .ok (.value value)
    (answer, { state with stack := rest })

end State

structure Run (α : Type) where
  answer : Except Fault Answer
  state : State
  pending : List α
  events : List Event

def Ending.toRun (ending : Ending α) : Run α :=
  match ending.fault with
  | some fault => ⟨.error fault, ending.state, ending.pending, ending.events⟩
  | none =>
    let taken := ending.state.takeAnswer
    ⟨taken.1, taken.2, ending.pending, ending.events⟩

def run (depth : Nat) (code : List Instr) (env : Environment) : Option (Run Instr) :=
  (execute depth code ⟨[], env⟩).map Ending.toRun

def runItems (depth : Nat) (code : List (Item Instr)) (env : Environment) :
    Option (Run (Item Instr)) :=
  (executeItems depth code ⟨[], env⟩).map Ending.toRun

end LetStack
