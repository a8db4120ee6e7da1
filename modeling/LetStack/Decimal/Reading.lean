import LetStack.Text.Blank

/-! Text as numbers. -/

namespace LetStack

def isDigit (char : Char) : Bool := '0' ≤ char && char ≤ '9'

def digitsValue (digits : List Char) : Nat :=
  digits.foldl (fun value digit => value * 10 + (digit.toNat - '0'.toNat)) 0

/-- `digits · 10 ^ power`, rounded to the nearest double. Past the largest and the smallest
doubles the power itself decides. -/
def decimalFloat (digits : Nat) (power : Int) : Float :=
  if digits = 0 then 0
  else
    let leading := (Nat.toDigits 10 digits).length + power
    if 310 < leading then 1 / 0
    else if leading < -330 then 0
    else Float.ofScientific digits (power < 0) power.natAbs

def fixedFloat (whole fraction : List Char) : Float :=
  decimalFloat (digitsValue (whole ++ fraction)) (-fraction.length)

def readSign : List Char → Bool × List Char
  | '-' :: rest => (true, rest)
  | '+' :: rest => (false, rest)
  | chars => (false, chars)

def signedValue (negative : Bool) (digits : List Char) : Int :=
  if negative then -digitsValue digits else digitsValue digits

def readExponent? : List Char → Option Int
  | [] => some 0
  | mark :: rest =>
    if mark = 'e' ∨ mark = 'E' then
      let (negative, digits) := readSign rest
      if digits ≠ [] ∧ digits.all isDigit then
        some (signedValue negative digits)
      else none
    else none

def readSize? (chars : List Char) : Option Float :=
  let whole := chars.takeWhile isDigit
  let afterWhole := chars.dropWhile isDigit
  let (fraction, rest) := match afterWhole with
    | '.' :: afterPoint => (afterPoint.takeWhile isDigit, afterPoint.dropWhile isDigit)
    | _ => ([], afterWhole)
  if whole = [] ∧ fraction = [] then none
  else (readExponent? rest).map fun exponent =>
    decimalFloat (digitsValue (whole ++ fraction)) (exponent - fraction.length)

def readUnsignedFloat? (chars : List Char) : Option Float :=
  match String.ofList (chars.map Char.toLower) with
  | "inf" | "infinity" => some (1 / 0)
  | "nan" => some (0 / 0)
  | _ => readSize? chars

def readPlainFloat? (chars : List Char) : Option Float :=
  let (negative, size) := readSign chars
  (readUnsignedFloat? size).map fun number => if negative then -number else number

def dropUnderscores? : List Char → Option (List Char)
  | [] => some []
  | [char] => if char = '_' then none else some [char]
  | '_' :: _ => none
  | [_, '_'] => none
  | char :: '_' :: rest => (dropUnderscores? rest).map (char :: ·)
  | char :: next :: rest => (dropUnderscores? (next :: rest)).map (char :: ·)

def readFloat? (text : String) : Option Float :=
  (readPlainFloat? (strip isSpace text.toList)).or
    ((dropUnderscores? text.toList).bind readPlainFloat?)

end LetStack
