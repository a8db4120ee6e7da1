/-! Lists of program parts that are handed in from outside. -/

namespace LetStack

/-- A part of a program, or something whose kind this language does not have. -/
inductive Item (α : Type) where
  | known (part : α)
  | unknown (kind : String)
  deriving DecidableEq

namespace Item

def allKnown : List (Item α) → Except String (List α)
  | [] => .ok []
  | .unknown kind :: _ => .error kind
  | .known part :: rest => (allKnown rest).map (part :: ·)

@[simp] theorem allKnown_map_known (parts : List α) : allKnown (parts.map known) = .ok parts := by
  induction parts with
  | nil => rfl
  | cons part rest ih => simp [allKnown, ih, Except.map]

end Item

end LetStack
