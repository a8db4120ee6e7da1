import LetStack.Source.Grammar

/-! From source text to a program, or to the reason why it is none. -/

namespace LetStack

inductive ParseError where
  | unexpectedEnd
  | unexpectedChar (before : List Char) (char : Char) (after : List Char)
  | intTooLong (digitCount : Nat)
  | intOutOfRange (digits : List Char)
  deriving DecidableEq

/-- Columns that a text takes when tabs go to the next multiple of eight. -/
def tabbedWidth (chars : List Char) : Nat :=
  let widen (state : Nat × Nat) (char : Char) : Nat × Nat :=
    let (column, width) := state
    if char = '\t' then
      let gap := 8 - column % 8
      (column + gap, width + gap)
    else if char = '\r' ∨ char = '\n' then (0, width + 1)
    else (column + 1, width + 1)
  (chars.foldl widen (0, 0)).2

def lastLine (chars : List Char) : List Char :=
  (chars.reverse.takeWhile (· ≠ '\n')).reverse

/-- The line around a place, at most forty characters to each side, and a mark under it. -/
def excerpt (before onward : List Char) : String :=
  let left := lastLine (before.drop (before.length - 40))
  let right := (onward.take 40).takeWhile (· ≠ '\n')
  String.ofList (left ++ right ++ '\n' :: (List.replicate (tabbedWidth left) ' ' ++ ['^', '\n']))

def intDigitLimit : Nat := 4300

def ParseError.message : ParseError → String
  | unexpectedEnd => "Unexpected end-of-input. "
  | unexpectedChar before char after =>
    let line := (before.filter (· = '\n')).length + 1
    let column := (lastLine before).length + 1
    "No terminal matches '" ++ String.ofList [char] ++ "' in the current parser context, at line "
      ++ line.repr ++ " col " ++ column.repr ++ "\n\n" ++ excerpt before (char :: after)
  | intTooLong digitCount =>
    "Exceeds the limit (" ++ intDigitLimit.repr ++ " digits) for integer string conversion: "
      ++ "value has " ++ digitCount.repr
      ++ " digits; use sys.set_int_max_str_digits() to increase the limit"
  | intOutOfRange digits => "integer literal out of range: " ++ String.ofList digits

def errorAt (chars onward : List Char) : ParseError :=
  match onward with
  | [] => .unexpectedEnd
  | char :: after => .unexpectedChar (chars.take (chars.length - onward.length)) char after

def Stuck.onward (stuck : Stuck) (lexemes : List Lexeme) (unread : List Char) : List Char :=
  match lexemes.drop (lexemes.length - stuck.left) with
  | [] => unread
  | lexeme :: _ => if stuck.insideArrow then lexeme.onward.drop 1 else lexeme.onward

def intError? : Token → Option ParseError
  | .int digits =>
    if intDigitLimit < digits.length then some (.intTooLong digits.length)
    else if digitsValue digits ≤ intMax then none
    else some (.intOutOfRange digits)
  | _ => none

/-- Whole numbers are looked at only when all of the text has been read. -/
def parse (source : String) : Except ParseError (List Expr) :=
  let chars := source.toList
  let (lexemes, unread) := scan chars
  let tokens := lexemes.map Lexeme.token
  match readProgram tokens with
  | .error stuck => .error (errorAt chars (stuck.onward lexemes unread))
  | .ok program =>
    if unread = [] then
      match tokens.findSome? intError? with
      | some error => .error error
      | none => .ok program
    else .error (errorAt chars unread)

end LetStack
