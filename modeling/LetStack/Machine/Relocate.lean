import LetStack.Code.Value
import LetStack.Machine.Fault

/-! Copies of values from one heap to another. -/

namespace LetStack

/-- Copies what a pointer leads to onto the target heap, hop by hop, and gives a pointer to the
copy; the target is as before if that fails. A chain with more hops than the source has entries
never ends. -/
def relocate (source : List Value) : Nat → Value → List Value → Except Fault (Value × List Value)
  | hops, .pointer address, target =>
    match source[address]?, hops with
    | none, _ => .error (.danglingPointer address)
    | some _, 0 => .error .endlessPointer
    | some entry, hops + 1 => do
      let (copy, target) ← relocate source hops entry target
      .ok (.pointer target.length, target ++ [copy])
  | _, value, target => .ok (value, target)

namespace Environment

def transfer (env : Environment) (value : Value) (target : Environment) :
    Except Fault (Value × Environment) := do
  let (copy, heap) ← relocate env.heap env.heap.length value target.heap
  .ok (copy, { target with heap := heap })

end Environment

end LetStack
