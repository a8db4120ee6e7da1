import Mathlib.Data.List.Forall2
import LetStack.Proofs.Direct.Represents
import LetStack.Proofs.Tree

/-!
Compiled code does on the machine what evaluation does on the tree. The statements compose: code
that takes operands off the stack is put behind code that leaves them there.
-/

namespace LetStack

namespace Direct

theorem bind_eq_some_iff {α β : Type} {first : Direct α} {next : α → Direct β}
    {bindings after : Bindings} {result : Except Stop β} :
    (first >>= next) bindings = some (result, after) ↔
      (∃ reason, result = .error reason ∧ first bindings = some (.error reason, after)) ∨
        ∃ value middle, first bindings = some (.ok value, middle) ∧
          next value middle = some (result, after) := by
  change andThen first next bindings = some (result, after) ↔ _
  unfold andThen
  cases first bindings with
  | none => simp
  | some ended =>
      obtain ⟨firstResult, middle⟩ := ended
      cases firstResult with
      | error reason =>
          simp only [Option.some.injEq, Prod.mk.injEq, Except.error.injEq]
          constructor
          · rintro ⟨rfl, rfl⟩
            exact Or.inl ⟨reason, rfl, rfl, rfl⟩
          · rintro (⟨_, rfl, rfl, rfl⟩ | ⟨_, _, ⟨impossible, _⟩, _⟩)
            · exact ⟨rfl, rfl⟩
            · cases impossible
      | ok value =>
          constructor
          · exact fun ended => Or.inr ⟨value, middle, rfl, ended⟩
          · rintro (⟨_, _, impossible⟩ | ⟨_, _, same, ended⟩)
            · simp at impossible
            · simp only [Option.some.injEq, Prod.mk.injEq, Except.ok.injEq] at same
              obtain ⟨rfl, rfl⟩ := same
              exact ended

end Direct

/-- Code that takes the operands off the stack does what the evaluation does, and in place of the
operands leaves entries that stand for what the evaluation pushes. -/
def Simulates {α : Type} (fuel : Nat) (operands : List Plain) (code : List Instr)
    (evaluation : Direct α) (pushes : α → List Plain → Prop) : Prop :=
  ∀ (env : Environment) (taken below : List Value) (bindings after : Bindings)
    (result : Except Stop α), env.Represents bindings →
    List.Forall₂ (Means env.heap) taken operands →
    evaluation bindings = some (result, after) →
    (∀ value, result = .ok value → ∃ (left : List Value) (last : Environment)
      (meanings : List Plain), Ends fuel code ⟨taken ++ below, env⟩ none ⟨left ++ below, last⟩ ∧
      env.heap <+: last.heap ∧ last.Represents after ∧ pushes value meanings ∧
      List.Forall₂ (Means last.heap) left meanings) ∧
    (∀ fault, result = .error (.fault fault) → ∃ last,
      Ends fuel code ⟨taken ++ below, env⟩ (some fault) last ∧ last.env.Represents after)

def pushesValue (value : Option Plain) (meanings : List Plain) : Prop := meanings = value.toList

def pushesOne (value : Plain) (meanings : List Plain) : Prop := meanings = [value]

theorem means_extend {heap longer : List Value} {values : List Value} {meanings : List Plain}
    (means : List.Forall₂ (Means heap) values meanings) (grown : heap <+: longer) :
    List.Forall₂ (Means longer) values meanings :=
  means.imp fun _ _ read => read.extend grown

namespace Simulates

section

variable {α β : Type} {depth : Nat} {operands : List Plain} {code first second : List Instr}
  {evaluation : Direct α} {pushes : α → List Plain → Prop}

theorem frame (simulates : Simulates depth operands code evaluation pushes)
    (extra : List Plain) :
    Simulates depth (operands ++ extra) code evaluation
      (fun value meanings => ∃ own, pushes value own ∧ meanings = own ++ extra) := by
  intro env taken below bindings after result represents means evaluated
  have ownMeans := List.forall₂_take_append taken operands extra means
  have furtherMeans := List.forall₂_drop_append taken operands extra means
  have split := List.take_append_drop operands.length taken
  generalize taken.take operands.length = own at ownMeans split
  generalize taken.drop operands.length = further at furtherMeans split
  subst split
  rw [List.append_assoc]
  obtain ⟨finished, failed⟩ :=
    simulates env own (further ++ below) bindings after result represents ownMeans evaluated
  refine ⟨fun value same => ?_, failed⟩
  obtain ⟨left, last, meanings, ends, grown, representsAfter, pushed, leftMeans⟩ :=
    finished value same
  refine ⟨left ++ further, last, meanings ++ extra, ?_, grown, representsAfter,
    ⟨meanings, pushed, rfl⟩, List.rel_append leftMeans (means_extend furtherMeans grown)⟩
  rw [List.append_assoc]
  exact ends

theorem bind {next : α → Direct β} {pushesNext : β → List Plain → Prop}
    (simulates : Simulates (depth + 1) operands first evaluation pushes)
    (simulatesNext : ∀ value meanings, pushes value meanings →
      Simulates (depth + 1) meanings second (next value) pushesNext) :
    Simulates (depth + 1) operands (first ++ second) (evaluation >>= next) pushesNext := by
  intro env taken below bindings after result represents means evaluated
  rcases Direct.bind_eq_some_iff.1 evaluated with
    ⟨reason, rfl, stopped⟩ | ⟨value, middle, finished, continued⟩
  · obtain ⟨_, failed⟩ := simulates env taken below bindings after _ represents means stopped
    refine ⟨fun value impossible => (by cases impossible), fun fault same => ?_⟩
    cases same
    obtain ⟨last, ends, representsAfter⟩ := failed fault rfl
    exact ⟨last, ends.append_of_fault second, representsAfter⟩
  · obtain ⟨succeeded, _⟩ := simulates env taken below bindings middle _ represents means finished
    obtain ⟨left, reached, meanings, ends, grown, representsMiddle, pushed, leftMeans⟩ :=
      succeeded value rfl
    obtain ⟨finishedNext, failedNext⟩ := simulatesNext value meanings pushed reached left below
      middle after result representsMiddle leftMeans continued
    refine ⟨fun last same => ?_, fun fault same => ?_⟩
    · obtain ⟨leftNext, env, meaningsNext, endsNext, grownNext, rest⟩ := finishedNext last same
      exact ⟨leftNext, env, meaningsNext, ends.append endsNext, grown.trans grownNext, rest⟩
    · obtain ⟨last, endsNext, representsAfter⟩ := failedNext fault same
      exact ⟨last, ends.append endsNext, representsAfter⟩

theorem pure (value : α) (pushed : pushes value operands) :
    Simulates (depth + 1) operands [] (Pure.pure value) pushes := by
  intro env taken below bindings after result represents means evaluated
  cases evaluated
  refine ⟨fun other same => ?_, fun fault impossible => (by cases impossible)⟩
  cases same
  exact ⟨taken, env, operands, ends_nil_iff.2 ⟨rfl, rfl⟩, List.prefix_rfl, represents, pushed,
    means⟩

theorem map {transform : α → β} {pushesAfter : β → List Plain → Prop}
    (simulates : Simulates (depth + 1) operands code evaluation pushes)
    (pushed : ∀ value meanings, pushes value meanings → pushesAfter (transform value) meanings) :
    Simulates (depth + 1) operands code
      (evaluation >>= fun value => Pure.pure (transform value)) pushesAfter := by
  have chained := simulates.bind fun value meanings pushedValue =>
    Simulates.pure (transform value) (pushed value meanings pushedValue)
  rwa [List.append_nil] at chained

theorem needed {evaluation : Direct (Option Plain)}
    (simulates : Simulates (depth + 1) operands code evaluation pushesValue) :
    Simulates (depth + 1) operands code (Direct.needed evaluation) pushesOne := by
  have chained : Simulates (depth + 1) operands (code ++ []) (Direct.needed evaluation)
      pushesOne := by
    refine simulates.bind fun value meanings pushed => ?_
    cases value with
    | some value => exact Simulates.pure value pushed
    | none =>
        intro env taken below bindings after result _ _ evaluated
        cases evaluated
        exact ⟨fun _ impossible => (by cases impossible), fun _ impossible => (by cases impossible)⟩
  rwa [List.append_nil] at chained

end

end Simulates

end LetStack
