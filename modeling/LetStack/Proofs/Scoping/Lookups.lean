import LetStack.Proofs.Machine.Faults
import LetStack.Proofs.Scoping.Sessions

/-! Names that the analysis has found declared are bound when code looks them up. -/

namespace LetStack

theorem run_ne_missing {depth : Nat} {code : List Instr} {env : Environment}
    {ended : Run Instr} (ran : run depth code env = some ended) (name : String)
    (quiet : ∀ {fault after}, Ends depth code ⟨[], env⟩ fault after →
      fault ≠ some (.missingVariable name)) :
    ended.answer ≠ .error (.missingVariable name) := by
  intro missing
  rcases run_fails ran missing with ⟨after, ends⟩ | ⟨address, impossible⟩
  · exact quiet ends rfl
  · cases impossible

/-- In a session in which no run has failed, no lookup of a program that is in order misses its
name, be it at the top level or in a body that is called. -/
theorem accepted_lookups_bound (session : Session) (program : List Expr)
    (reached : Session.Reached Outcome.Unfailing session)
    (clean : (session.scope.analyze program).2.isClean = true) :
    (∀ {instr : Instr} {later : List Instr} {before after : State} {depth : Nat}
        {fault : Option Fault},
      Reaches (Expr.compileAll program) ⟨[], session.env⟩ (instr :: later) before →
      instr.Acts depth before fault after → ∀ name, fault ≠ some (.missingVariable name)) ∧
    ∀ (depth : Nat) (evaluation : Evaluation), session.submit depth program = some evaluation →
      ∀ name, evaluation.outcome ≠ .evaluationFailure (.missingVariable name) := by
  have sound : session.Sound True := reached.sound fun _ _ kept => kept
  have closed := allowed_closed True
  constructor
  · intro instr later before after depth fault point acts name
    exact point.ne_missing closed allowed_binds sound.start (sound.allowed clean) acts name
  · intro depth evaluation submitted name
    obtain ⟨ended, ran, _, failed⟩ := Session.submit_of_clean clean submitted
    rw [ne_eq, failed]
    apply run_ne_missing ran
    intro fault after ends
    exact ends.ne_missing closed allowed_binds sound.start (sound.allowed clean)

def makesClosure : List Expr :=
  [.declare .variable "x" (.literal (.int 1)),
    .declare .variable "f" (.function ["y"] [.binary (.identifier "x") .div (.identifier "y")])]

def callsClosure : List Expr := [.call "f" [.literal (.int 0)]]

theorem accepted_lookups_bound_next :
    ∃ made, Session.empty.submit 2 makesClosure = some made ∧ made.outcome.Unfailing ∧
      (made.session.scope.analyze callsClosure).2.isClean = true ∧
      ∃ called, made.session.submit 2 callsClosure = some called ∧
        called.outcome = .evaluationFailure .divisionByZero ∧
        ∀ name, called.outcome ≠ .evaluationFailure (.missingVariable name) := by
  have unfailing : Outcome.Unfailing (.success .nothing []) := fun _ => nofun
  have made : Session.Reached Outcome.Unfailing _ := .submit .empty
    (show Session.empty.submit 2 makesClosure = some _ from rfl) unfailing
  exact ⟨_, rfl, unfailing, rfl, _, rfl, rfl,
    (accepted_lookups_bound _ callsClosure made rfl).2 2 _ rfl⟩

end LetStack
