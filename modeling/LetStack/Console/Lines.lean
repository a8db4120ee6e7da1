import LetStack.Session.Evaluate

/-! Lines that are typed, and what is printed for them. -/

namespace LetStack

structure Reply where
  stop : Bool
  output : String
  session : Session
  log : List LogEntry

namespace Console

def introduction : String :=
  "exprvm interactive shell\nType '" ++ Session.envCommand
    ++ "' to inspect the environment, 'exit' to quit.\n"

def callDepth : Nat := 1000

def defaultPrompt : String := ">>> "

def endLine : String := "EOF"

def withoutFinalNewlines (text : String) : String :=
  String.ofList (dropRightWhile (· = '\n') text.toList)

def warningLines : Outcome → List String
  | .success _ warnings => warnings.map fun warning => "warning: " ++ warning.message ++ "\n"
  | _ => []

def resultLines (outcome : Outcome) : List String :=
  match outcome.display? with
  | some text => [withoutFinalNewlines text ++ "\n"]
  | none => []

def printed (outcome : Outcome) : String :=
  String.join (warningLines outcome ++ resultLines outcome)

def feed (depth : Nat) (session : Session) (line : String) : Option Reply :=
  let stripped := stripBlank line
  if stripped = "exit" then some ⟨true, "", session, []⟩
  else if stripped = endLine then some ⟨true, "\n", session, []⟩
  else if stripped = "" then some ⟨false, "", session, []⟩
  else
    (session.evaluate depth line).map fun evaluation =>
      ⟨false, printed evaluation.outcome, evaluation.session, evaluation.log⟩

def converse (depth : Nat) (prompt : String) :
    List String → Session → Option (List String × List LogEntry)
  | [], session => (feed depth session endLine).map fun reply => ([prompt, reply.output], reply.log)
  | line :: rest, session =>
    match feed depth session line with
    | none => none
    | some reply =>
      if reply.stop then some ([prompt, reply.output], reply.log)
      else (converse depth prompt rest reply.session).map fun (output, log) =>
        (prompt :: reply.output :: output, reply.log ++ log)

def splitLines : List Char → List (List Char)
  | [] => [[]]
  | char :: rest =>
    if char = '\n' then [] :: splitLines rest
    else
      match splitLines rest with
      | [] => [[char]]
      | line :: lines => (char :: line) :: lines

/-- The lines of an input; the last one need not be ended. -/
def inputLines (input : String) : List String :=
  let pieces := splitLines input.toList
  (if pieces.getLast? = some [] then pieces.dropLast else pieces).map String.ofList

end Console

end LetStack
