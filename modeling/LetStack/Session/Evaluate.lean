import LetStack.Code.Compile
import LetStack.Machine.Run
import LetStack.Session.Log
import LetStack.Source.Parse
import LetStack.Text.Blank

/-! A session: programs that are submitted one after the other and share what they declare. -/

namespace LetStack

inductive Outcome where
  | parseFailure (error : ParseError)
  | analysisFailure (errors : List ScopeError)
  | evaluationFailure (fault : Fault)
  | success (answer : Answer) (warnings : List ScopeWarning)

def Outcome.display? : Outcome → Option String
  | parseFailure error => some ("parse error: " ++ error.message)
  | analysisFailure errors =>
    some ("\n".intercalate (errors.map fun error => "error: " ++ error.message))
  | evaluationFailure fault => some ("runtime error: " ++ fault.message)
  | success answer _ => answer.display?

structure Session where
  scope : Scope
  env : Environment

structure Evaluation where
  outcome : Outcome
  session : Session
  log : List LogEntry

namespace Session

def empty : Session := ⟨.empty, .empty⟩

instance : Inhabited Session := ⟨empty⟩

def envCommand : String := ":env"

def showEnv (session : Session) : Evaluation :=
  match session.env.listing with
  | .ok text => ⟨.success (.text text) [], session, []⟩
  | .error fault => ⟨.evaluationFailure fault, session, []⟩

def runProgram (session : Session) (depth : Nat) (program : List Expr)
    (warnings : List ScopeWarning) : Option Evaluation :=
  let code := Expr.compileAll program
  (run depth code session.env).map fun ended =>
    let outcome : Outcome := match ended.answer with
      | .ok answer => .success answer warnings
      | .error fault => .evaluationFailure fault
    let log := warnings.map .warned ++
      .generated code.length program.length :: ended.events.map .machine
    ⟨outcome, { session with env := ended.state.env }, log⟩

/-- Only a program without errors runs, and only such a program changes the scope. -/
def submit (session : Session) (depth : Nat) (program : List Expr) : Option Evaluation :=
  let analyzed := session.scope.analyze program
  if analyzed.2.isClean then
    { session with scope := analyzed.1 }.runProgram depth program analyzed.2.warnings
  else some ⟨.analysisFailure analyzed.2.errors, session, []⟩

def evaluate (session : Session) (depth : Nat) (source : String) : Option Evaluation :=
  if stripBlank source = envCommand then some session.showEnv
  else
    match parse source with
    | .error error => some ⟨.parseFailure error, session, []⟩
    | .ok program => session.submit depth program

end Session

end LetStack
