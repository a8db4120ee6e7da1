import LetStack.Analysis.Check
import LetStack.Machine.Execute
import LetStack.Text.Quoted

/-! What is told about the work on a program while it goes on. -/

namespace LetStack

inductive LogEntry where
  | warned (warning : ScopeWarning)
  | generated (instrCount exprCount : Nat)
  | machine (event : Event)
  deriving DecidableEq

def Event.message : Event → String
  | executed kind stackSize heapSize pending =>
    kind ++ ": stack=" ++ stackSize.repr ++ " heap=" ++ heapSize.repr ++ " pending="
      ++ pending.repr
  | called argCount captured =>
    "call: " ++ argCount.repr ++ " arg(s), " ++ captured.repr ++ " captured binding(s)"
  | merged name => "merge: " ++ quoted name ++ " from callee"

def LogEntry.line : LogEntry → String
  | warned warning => "INFO:exprvm.runtime._runtime:warning: " ++ warning.message
  | generated instrCount exprCount =>
    "DEBUG:exprvm.compiler._codegen:generated " ++ instrCount.repr ++ " instruction(s) from "
      ++ exprCount.repr ++ " expression(s)"
  | machine event => "DEBUG:exprvm.vm._machine:" ++ event.message

end LetStack
