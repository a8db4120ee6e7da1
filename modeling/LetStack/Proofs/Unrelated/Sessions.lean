import LetStack.Proofs.Session.Submissions
import LetStack.Proofs.Source.Printing
import LetStack.Proofs.Unrelated.Analysis
import LetStack.Proofs.Unrelated.Steps

/-!
A binding that is put between the submissions of a session shows nowhere, if none of them mentions
its name.
-/

namespace LetStack

variable {hidden : String}

def Answer.kind : Answer → String
  | value answer => answer.kind
  | text _ => "text"
  | nothing => "nothing"

inductive OutcomeKind where
  | parseFailure
  | analysisFailure
  | evaluationFailure
  | success (answer : String)
  deriving DecidableEq

namespace Outcome

def kind : Outcome → OutcomeKind
  | parseFailure _ => .parseFailure
  | analysisFailure _ => .analysisFailure
  | evaluationFailure _ => .evaluationFailure
  | success answer _ => .success answer.kind

structure ShownAlike (left right : Outcome) : Prop where
  display : left.display? = right.display?
  kind : left.kind = right.kind
  warnings : left.warnings = right.warnings

theorem ShownAlike.refl (outcome : Outcome) : outcome.ShownAlike outcome := ⟨rfl, rfl, rfl⟩

end Outcome

theorem State.AlikeBut.takeAnswer {left right : State} (alike : left.AlikeBut hidden right) :
    ∃ answer other, left.takeAnswer.1 = .ok answer ∧ right.takeAnswer.1 = .ok other ∧
      answer.display? = other.display? ∧ answer.kind = other.kind := by
  obtain ⟨stack, env⟩ := left
  obtain ⟨stackToo, envToo⟩ := right
  obtain ⟨entries, _⟩ := alike
  cases entries with
  | nil => exact ⟨.nothing, .nothing, rfl, rfl, rfl, rfl⟩
  | cons pair _ =>
      obtain ⟨_, _, _, leads, leadsToo, alike⟩ := pair
      cases alike with
      | int value | float value | bool value =>
          cases leads
          cases leadsToo
          exact ⟨.value _, .value _, rfl, rfl, rfl, rfl⟩
      | closure _ _ _ _ _ _ _ _ _ _ =>
          cases leads
          cases leadsToo
          exact ⟨.value _, .value _, rfl, rfl, rfl, rfl⟩
      | bytes content =>
          cases leads with
          | hop found last =>
              cases last
              cases leadsToo with
              | hop foundToo lastToo =>
                  cases lastToo
                  simp only [State.takeAnswer, found, foundToo]
                  exact ⟨_, _, rfl, rfl, rfl, rfl⟩

theorem State.AlikeBut.answered {left right : State} (alike : left.AlikeBut hidden right)
    (warnings : List ScopeWarning) (fault : Option Fault) :
    (Outcome.ofAnswer warnings (left.answered fault)).ShownAlike
      (.ofAnswer warnings (right.answered fault)) := by
  cases fault with
  | some stop => exact .refl _
  | none =>
      obtain ⟨answer, other, taken, takenToo, display, kind⟩ := alike.takeAnswer
      rw [State.answered, State.answered, Option.elim_none, Option.elim_none, taken, takenToo]
      exact ⟨display, congrArg OutcomeKind.success kind, rfl⟩

def LeavesOut (name source : String) : Prop :=
  stripBlank source ≠ Session.envCommand ∧
    ∀ program, parse source = .ok program → Unmentioned name program

namespace Session

structure AlikeBut (hidden : String) (left right : Session) : Prop where
  scope : left.scope.SameBut hidden right.scope
  env : left.env.AlikeBut hidden right.env

namespace AlikeBut

variable {left right after : Session} {program : List Expr} {source : String} {outcome : Outcome}

theorem submits (alike : left.AlikeBut hidden right) (unmentioned : Unmentioned hidden program)
    (submits : left.Submits program outcome after) : ∃ outcomeToo afterToo,
      right.Submits program outcomeToo afterToo ∧ outcome.ShownAlike outcomeToo ∧
        after.AlikeBut hidden afterToo := by
  obtain ⟨findings, scopes⟩ := unmentioned.checksAlike alike.scope
  by_cases clean : (Expr.checkAll program left.scope).2.isClean = true
  · obtain ⟨depth, fault, last, ends, rfl, rfl⟩ := (submits_of_clean clean).1 submits
    have start : State.AlikeBut hidden ⟨[], left.env⟩ ⟨[], right.env⟩ := ⟨.nil, alike.env⟩
    obtain ⟨lastToo, endsToo, lasts⟩ := ends.alike unmentioned.compile_apart start
    rw [findings] at clean ⊢
    exact ⟨_, _, (submits_of_clean clean).2 ⟨depth, fault, lastToo, endsToo, rfl, rfl⟩,
      lasts.answered _ fault, scopes, lasts.env⟩
  · obtain ⟨rfl, rfl⟩ := (submits_of_unclean clean).1 submits
    rw [findings] at clean ⊢
    exact ⟨_, right, (submits_of_unclean clean).2 ⟨rfl, rfl⟩, .refl _, alike⟩

theorem gives (alike : left.AlikeBut hidden right) (apart : LeavesOut hidden source)
    (gives : left.Gives source outcome after) : ∃ outcomeToo afterToo,
      right.Gives source outcomeToo afterToo ∧ outcome.ShownAlike outcomeToo ∧
        after.AlikeBut hidden afterToo := by
  cases parsed : parse source with
  | error error =>
      obtain ⟨rfl, rfl⟩ := (gives_of_error apart.1 parsed).1 gives
      exact ⟨_, right, (gives_of_error apart.1 parsed).2 ⟨rfl, rfl⟩, .refl _, alike⟩
  | ok program =>
      obtain ⟨outcomeToo, afterToo, submitsToo, shown, afters⟩ :=
        alike.submits (apart.2 program parsed) ((gives_of_ok apart.1 parsed).1 gives)
      exact ⟨outcomeToo, afterToo, (gives_of_ok apart.1 parsed).2 submitsToo, shown, afters⟩

theorem runs {sources : List String} {outcomes : List Outcome}
    (runs : left.Runs sources outcomes after) : ∀ {right : Session},
      left.AlikeBut hidden right → (∀ source ∈ sources, LeavesOut hidden source) →
      ∃ outcomesToo afterToo, right.Runs sources outcomesToo afterToo ∧
        List.Forall₂ Outcome.ShownAlike outcomes outcomesToo ∧ after.AlikeBut hidden afterToo := by
  induction runs with
  | nil session => exact fun {right} alike _ => ⟨[], right, .nil right, .nil, alike⟩
  | cons first _ ih =>
      intro right alike apart
      obtain ⟨outcomeToo, middleToo, firstToo, shown, middles⟩ :=
        alike.gives (apart _ List.mem_cons_self) first
      obtain ⟨outcomesToo, afterToo, restToo, shownToo, afters⟩ :=
        ih middles fun source member => apart source (List.mem_cons_of_mem _ member)
      exact ⟨_, afterToo, .cons firstToo restToo, .cons shown shownToo, afters⟩

end AlikeBut

end Session

end LetStack
