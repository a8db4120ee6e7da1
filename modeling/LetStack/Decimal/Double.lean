/-! What the 64 bits of a double mean. -/

namespace LetStack

/-- A finite double is a whole number of steps, each a power of two. -/
inductive Double where
  | nan
  | infinite (negative : Bool)
  | finite (negative : Bool) (steps : Nat) (exponent : Int)
  deriving DecidableEq

namespace Double

def ofBits (bits : Nat) : Double :=
  let negative : Bool := bits / Nat.pow 2 63 % 2 = 1
  let scale : Nat := bits / Nat.pow 2 52 % Nat.pow 2 11
  let fraction := bits % Nat.pow 2 52
  if scale = 2047 then if fraction = 0 then infinite negative else nan
  else if scale = 0 then finite negative fraction (-1074)
  else finite negative (Nat.pow 2 52 + fraction) ((scale : Int) - 1075)

def ofFloat (number : Float) : Double := ofBits number.toBits.toNat

def toInt? : Double → Option Int
  | finite negative steps exponent =>
    let signed (size : Nat) : Int := if negative then -size else size
    if 0 ≤ exponent then some (signed (steps * Nat.pow 2 exponent.toNat))
    else if steps % Nat.pow 2 exponent.natAbs = 0 then
      some (signed (steps / Nat.pow 2 exponent.natAbs))
    else none
  | _ => none

end Double

end LetStack
