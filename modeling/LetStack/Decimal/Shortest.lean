/-!
The shortest decimal that reads back as a given double: the fewest digits for which the decimal
grid has a point among the reals that round to the double, and of two such points the nearer.
-/

namespace LetStack

/-- The quotient of two whole numbers that is `steps` quarters of `2 ^ exponent`, in units of
`10 ^ power`. -/
structure Scale where
  up : Nat
  down : Nat

def Scale.of (exponent power : Int) : Scale where
  up := Nat.pow 2 (exponent - 2).toNat * Nat.pow 10 (-power).toNat
  down := Nat.pow 2 (2 - exponent).toNat * Nat.pow 10 power.toNat

/-- Largest power of ten that is no larger than the double. -/
def leadingPower (steps : Nat) (exponent : Int) : Int :=
  let guess := (steps.log2 + exponent) * 30103 / 100000
  let reaches (power : Int) : Bool :=
    let scale := Scale.of exponent power
    scale.down ≤ 4 * steps * scale.up
  if reaches (guess + 1) then guess + 1 else if reaches guess then guess else guess - 1

/-- The point of the grid of multiples of `10 ^ power` that stands for the double, if one does.
The ends of the interval belong to it when the number of steps is even; below a power of two the
neighbouring double is half as far. -/
def gridPoint? (steps : Nat) (exponent power : Int) : Option Nat :=
  let scale := Scale.of exponent power
  let gap := if steps = Nat.pow 2 52 ∧ -1074 < exponent then 1 else 2
  let low := (4 * steps - gap) * scale.up
  let value := 4 * steps * scale.up
  let high := (4 * steps + 2) * scale.up
  let stands (point : Nat) : Bool :=
    if steps % 2 = 0 then low ≤ point * scale.down && point * scale.down ≤ high
    else low < point * scale.down && point * scale.down < high
  let floor := value / scale.down
  match stands floor, stands (floor + 1) with
  | true, true =>
    let twice := 2 * (value - floor * scale.down)
    if twice < scale.down ∨ (twice = scale.down ∧ floor % 2 = 0) then some floor
    else some (floor + 1)
  | true, false => some floor
  | false, true => some (floor + 1)
  | false, false => none

/-- Seventeen digits always suffice. -/
def shortestDecimal (steps : Nat) (exponent : Int) : Nat × Int :=
  let leading := leadingPower steps exponent
  let found := (List.range 17).findSome? fun (fewer : Nat) =>
    let power := leading - fewer
    (gridPoint? steps exponent power).map fun point => (point, power)
  found.getD (0, 0)

end LetStack
