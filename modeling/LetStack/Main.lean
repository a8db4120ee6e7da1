import LetStack.Console.CommandLine

/-! The program itself. -/

namespace LetStack

partial def talk (options : Options) (session : Session) : IO UInt32 := do
  let input ← IO.getStdin
  let output ← IO.getStdout
  output.putStr options.prompt
  output.flush
  let typed ← input.getLine
  let line := if typed.isEmpty then Console.endLine else Console.withoutFinalNewlines typed
  match Console.feed Console.callDepth session line with
  | none =>
    (← IO.getStderr).putStr "calls nest too deep\n"
    return 1
  | some reply =>
    (← IO.getStderr).putStr (CommandLine.logText options.verbose reply.log)
    output.putStr reply.output
    if reply.stop then return 0 else talk options reply.session

def start (words : List String) : IO UInt32 := do
  match CommandLine.request words with
  | .refuse error =>
    (← IO.getStderr).putStr (CommandLine.errorText error)
    return 2
  | .help =>
    (← IO.getStdout).putStr CommandLine.helpText
    return 0
  | .start options =>
    (← IO.getStdout).putStr Console.introduction
    talk options .empty

end LetStack

def main (words : List String) : IO UInt32 := LetStack.start words
