import LetStack.Code.Value
import LetStack.Decimal.Printing
import LetStack.Machine.Fault
import LetStack.Text.Quoted
import LetStack.Text.Utf8

/-! Values and environments as text. -/

namespace LetStack

def Value.display : Value → String
  | bool value => if value then "true" else "false"
  | int value => intText value
  | float value => floatText value
  | pointer address => "<pointer " ++ address.repr ++ ">"
  | bytes content => "<bytes " ++ content.length.repr ++ ">"
  | closure params _ _ => "<function/" ++ params.length.repr ++ ">"

def Value.describe : Value → String
  | bytes content => String.ofList (quoteChars (decodeUtf8 content))
  | value => value.display

def bytesText (content : List UInt8) : String := String.ofList (decodeUtf8 content)

namespace Environment

def symbolLine (name : String) (address : Int) (value : Value) : String :=
  "  " ++ name ++ " -> #" ++ intText address ++ " " ++ value.describe ++ "\n"

def symbolLines (env : Environment) : List (String × Int) → Except Fault (List String)
  | [] => .ok []
  | (name, address) :: rest =>
    match env.load? address with
    | none => .error (.badAddress address)
    | some value => (env.symbolLines rest).map (symbolLine name address value :: ·)

def heapLines (start : Nat) : List Value → List String
  | [] => []
  | value :: rest =>
    ("  #" ++ start.repr ++ " " ++ value.describe ++ "\n") :: heapLines (start + 1) rest

def nameBefore (first second : String × Int) : Bool := !(second.1 < first.1)

def listing (env : Environment) : Except Fault String := do
  let symbols ← env.symbolLines (env.symbols.entries.mergeSort nameBefore)
  .ok (String.join ("symbols:\n" :: symbols ++ "heap:\n" :: heapLines 0 env.heap))

end Environment

end LetStack
