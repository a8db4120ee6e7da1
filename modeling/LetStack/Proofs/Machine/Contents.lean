import LetStack.Proofs.Machine.Soundness

/-!
What holds of every value in a state. Values cross from one environment to another as they are or as
pointers to such, so a call brings in nothing that neither side had.
-/

namespace LetStack

structure State.Holds (holds : Value → Prop) (state : State) : Prop where
  stack : ∀ value ∈ state.stack, holds value
  heap : ∀ value ∈ state.env.heap, holds value

def Value.IsPlain (value : Value) : Prop :=
  ∀ params body env, value ≠ .closure params body env

structure CoversMade (holds : Value → Prop) : Prop where
  pointer : ∀ address, holds (.pointer address)
  bytes : ∀ content, holds (.bytes content)
  result : ∀ {operator : Operator} {left right result : Value},
    operator.apply left right = .ok result → holds result

variable {holds : Value → Prop}

theorem coversMade_of_plain (plain : ∀ value : Value, value.IsPlain → holds value) :
    CoversMade holds where
  pointer address := plain _ (by simp [Value.IsPlain])
  bytes content := plain _ (by simp [Value.IsPlain])
  result applied := by
    apply plain
    rcases Operator.apply_ok applied with ⟨_, rfl, _⟩ | ⟨_, rfl⟩ <;> simp [Value.IsPlain]

def Placement.everywhere (holds : Value → Prop) : Placement where
  fits _ := holds
  loose _ := True
  binds _ _ := True

theorem Placement.lawful_everywhere (covers : CoversMade holds) : (everywhere holds).Lawful where
  fits_grown fits _ := fits
  binds_grown _ _ := trivial
  fits_anywhere fits _ _ := fits
  fits_copied _ _ _ _ := covers.pointer _
  fits_bytes _ := covers.bytes
  fits_allocated _ := covers.pointer _
  admits_result applied _ := ⟨covers.result applied, trivial⟩
  loose_of_not_bytes _ := trivial
  binds_new _ _ := fun _ => trivial
  loose_of_binds _ _ := trivial

theorem Environment.placed_everywhere_iff {env : Environment} :
    env.Placed (.everywhere holds) ↔ ∀ value ∈ env.heap, holds value := by
  constructor
  · intro placed value member
    obtain ⟨index, found⟩ := List.mem_iff_getElem?.1 member
    exact placed.entries index value found
  · intro held
    exact ⟨fun _ value found => held value (List.mem_of_getElem? found), fun _ _ _ => trivial⟩

theorem State.placed_everywhere_iff {state : State} :
    state.Placed (.everywhere holds) ↔ state.Holds holds := by
  constructor
  · intro placed
    exact ⟨fun value member => (placed.stack value member).1,
      Environment.placed_everywhere_iff.1 placed.env⟩
  · intro held
    exact ⟨fun value member => ⟨held.stack value member, trivial⟩,
      Environment.placed_everywhere_iff.2 held.heap⟩

theorem State.Enters.start_holds (covers : CoversMade holds) {state : State} {argCount : Nat}
    {entry : Activation} (entered : state.Enters argCount entry) (held : state.Holds holds)
    (captured : ∀ value ∈ entry.captured.heap, holds value) : entry.start.Holds holds :=
  placed_everywhere_iff.1 <| (placed_everywhere_iff.2 held).enters
    (Placement.lawful_everywhere covers) entered (Environment.placed_everywhere_iff.2 captured)

theorem Instr.Acts.after_holds (covers : CoversMade holds) {depth : Nat} {instr : Instr}
    {before after : State} {fault : Option Fault} (acts : instr.Acts depth before fault after)
    (held : before.Holds holds) (literal : ∀ value, instr = .pushLiteral value → holds value)
    (made : ∀ params body, instr = .makeClosure params body →
      holds (.closure params body before.env))
    (called : ∀ argCount entry ended callee, instr = .call argCount →
      before.Enters argCount entry → Ends depth entry.body entry.start ended callee →
      callee.Holds holds) : after.Holds holds := by
  rw [← State.placed_everywhere_iff] at held ⊢
  refine acts.placed (Placement.lawful_everywhere covers) held
    (fun value same => ⟨literal value same, trivial⟩) made ?_
  intro argCount entry ended callee same entered ran
  exact State.placed_everywhere_iff.2 (called argCount entry ended callee same entered ran)

end LetStack
