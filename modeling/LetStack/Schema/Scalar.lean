import LetStack.Decimal.Double
import LetStack.Decimal.Whole
import LetStack.Schema.Datum
import LetStack.Text.Utf8

/-! Data as single values. Numbers may also be written as text, and truth values as either. -/

namespace LetStack

namespace Datum

def text? : Datum → Option String
  | text value => some value
  | bytes content =>
    let decoded := decodeUtf8 content
    if encodeUtf8 decoded = content then some (String.ofList decoded) else none
  | _ => none

def readText : Datum → Checked String
  | text value => .ok value
  | bytes content =>
    match (bytes content).text? with
    | some value => .ok value
    | none => .refuse .textUndecodable
  | _ => .refuse .notText

def readBytes : Datum → Checked (List UInt8)
  | text value => .ok (encodeUtf8 value.toList)
  | bytes content => .ok content
  | _ => .refuse .notBytes

/-- A double counts as a whole number up to 63 bits. -/
def wholeOfFloat (number : Float) : Checked Int :=
  match Double.ofFloat number with
  | .finite negative steps exponent =>
    match (Double.finite negative steps exponent).toInt? with
    | none => .refuse .fractional
    | some value => if value.natAbs < Nat.pow 2 63 then .ok value else .refuse .intTooLong
  | _ => .refuse .notFinite

def intOfText (written : String) : Checked Int :=
  if startsOverlong written.toList then .refuse .intTooLong
  else
    match readInt? written with
    | some value => .ok value
    | none => .refuse .intUnreadable

def readInt (datum : Datum) : Checked Int :=
  match datum with
  | int value => .ok value
  | bool value => .ok (if value then 1 else 0)
  | float number => wholeOfFloat number
  | null | list _ | object _ => .refuse .notInt
  | text _ | bytes _ =>
    match datum.text? with
    | none => .refuse .intUnreadable
    | some written => intOfText written

def readIntBetween (lowest : Option Int) (highest : Option Int) (datum : Datum) : Checked Int :=
  datum.readInt.next fun value =>
    if lowest.any (value < ·) then .refuse .tooSmall
    else if highest.any (· < value) then .refuse .tooLarge
    else .ok value

def readNat (datum : Datum) : Checked Nat :=
  (datum.readIntBetween (some 0) none).next fun value => .ok value.toNat

def floatOfInt (value : Int) : Float :=
  let size := decimalFloat value.natAbs 0
  if value < 0 then -size else size

def readFloat (datum : Datum) : Checked Float :=
  match datum with
  | float number => .ok number
  | bool value => .ok (if value then 1 else 0)
  | int value =>
    let number := floatOfInt value
    if number.isFinite then .ok number else .refuse .notFloat
  | null | list _ | object _ => .refuse .notFloat
  | text _ | bytes _ =>
    match datum.text?.bind readFloat? with
    | none => .refuse .floatUnreadable
    | some number => .ok number

def boolOfText? (written : String) : Option Bool :=
  let lower := String.ofList (written.toList.map Char.toLower)
  if lower ∈ ["1", "on", "t", "true", "y", "yes"] then some true
  else if lower ∈ ["0", "off", "f", "false", "n", "no"] then some false
  else none

/-- A whole number of more than 64 bits is not even taken for a badly written truth value. -/
def boolOfInt (value : Int) : Checked Bool :=
  if value = 0 then .ok false
  else if value = 1 then .ok true
  else if -Int.pow 2 63 ≤ value ∧ value < Int.pow 2 63 then .refuse .boolUnreadable
  else .refuse .notBool

def readBool (datum : Datum) : Checked Bool :=
  match datum with
  | bool value => .ok value
  | int value => boolOfInt value
  | float number =>
    match wholeOfFloat number with
    | .ok value => boolOfInt value
    | .error _ => .refuse .notBool
  | null | list _ | object _ => .refuse .notBool
  | text _ | bytes _ =>
    match datum.text?.bind boolOfText? with
    | none => .refuse .boolUnreadable
    | some value => .ok value

end Datum

end LetStack
