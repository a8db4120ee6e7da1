import LetStack.Decimal.Double
import LetStack.Decimal.Shortest

/-! Numbers as text. -/

namespace LetStack

structure DecimalStyle where
  lowestPlain : Int
  highestPlain : Int
  exponentDigits : Nat

/-- A float is written without an exponent while its leading digit stands between the fourth
decimal place and the sixteenth place before the point. -/
def floatStyle : DecimalStyle := ⟨-4, 15, 2⟩

def zeros (count : Nat) : List Char := List.replicate count '0'

def dropTrailingZeros (digits : List Char) : List Char :=
  (digits.reverse.dropWhile (· = '0')).reverse

/-- Writes `0.DIGITS · 10 ^ point`. -/
def plainDecimal (digits : List Char) (point : Int) : List Char :=
  if point ≤ 0 then '0' :: '.' :: (zeros point.natAbs ++ digits)
  else if digits.length ≤ point then
    digits ++ zeros (point.toNat - digits.length) ++ ['.', '0']
  else digits.take point.toNat ++ '.' :: digits.drop point.toNat

def exponentText (style : DecimalStyle) (exponent : Int) : List Char :=
  let digits := Nat.toDigits 10 exponent.natAbs
  'e' :: (if exponent < 0 then '-' else '+') ::
    (zeros (style.exponentDigits - digits.length) ++ digits)

def scientificDecimal (style : DecimalStyle) (digits : List Char) (exponent : Int) : List Char :=
  let mantissa := match digits with
    | first :: second :: rest => first :: '.' :: second :: rest
    | single => single
  mantissa ++ exponentText style exponent

def finiteText (style : DecimalStyle) (steps : Nat) (exponent : Int) : List Char :=
  if steps = 0 then ['0', '.', '0']
  else
    let decimal := shortestDecimal steps exponent
    let written := Nat.toDigits 10 decimal.1
    let leading := written.length + decimal.2 - 1
    let digits := dropTrailingZeros written
    if style.lowestPlain ≤ leading ∧ leading ≤ style.highestPlain then
      plainDecimal digits (leading + 1)
    else scientificDecimal style digits leading

def floatText (number : Float) : String :=
  match Double.ofFloat number with
  | .nan => "nan"
  | .infinite negative => if negative then "-inf" else "inf"
  | .finite negative steps exponent =>
    let size := finiteText floatStyle steps exponent
    String.ofList (if negative then '-' :: size else size)

def intText (number : Int) : String :=
  if number < 0 then "-" ++ number.natAbs.repr else number.natAbs.repr

end LetStack
