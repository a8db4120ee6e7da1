import LetStack.Decimal.Reading

/-! Text as whole numbers. It is brought to a plain form first, and only that form is read. -/

namespace LetStack

def wholeLimit : Nat := 4300

def readMinus : List Char → Bool × List Char
  | '-' :: rest => (true, rest)
  | chars => (false, chars)

def startsOverlong (chars : List Char) : Bool :=
  let digits := (readMinus chars).2.takeWhile isDigit
  digits.head? ≠ some '0' && wholeLimit < digits.length + if (readMinus chars).1 then 1 else 0

def readPlainInt? (chars : List Char) : Option Int :=
  let (negative, digits) := readMinus chars
  if digits ≠ [] ∧ digits.all isDigit ∧ (digits.head? = some '0' → digits = ['0'])
      ∧ chars.length ≤ wholeLimit then
    some (signedValue negative digits)
  else none

/-- What follows zeros and underscores, of which `last` came last. It stays where no digit or
minus sign follows it. -/
def afterZeros? (last : Char) : List Char → Option (List Char)
  | [] => some [last]
  | char :: rest =>
    if char = '0' ∨ char = '_' then afterZeros? char rest
    else if isDigit char ∨ char = '-' then some (char :: rest)
    else if char = '.' then some (last :: char :: rest)
    else none

def dropZeros? : List Char → Option (List Char)
  | [] => none
  | char :: rest =>
    if char = '0' then afterZeros? char rest
    else if isDigit char then some (char :: rest)
    else none

def dropPointZeros (chars : List Char) : List Char :=
  match chars.dropWhile (· ≠ '.') with
  | _ :: digit :: rest =>
    if (digit :: rest).all (· = '0') then chars.takeWhile (· ≠ '.') else chars
  | _ => chars

def plainForm? (chars : List Char) : Option (List Char) :=
  let (negative, size) := readSign (strip isSpace chars)
  (dropZeros? size).bind fun number =>
    dropUnderscores? (dropPointZeros (if negative then '-' :: number else number))

def readInt? (text : String) : Option Int := (plainForm? text.toList).bind readPlainInt?

end LetStack
