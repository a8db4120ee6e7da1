/-! Sets of code points given by their first and last members. -/

namespace LetStack

def inRanges (ranges : List (Nat × Nat)) (code : Nat) : Bool :=
  ranges.any fun range => range.1 ≤ code && code ≤ range.2

end LetStack
