import LetStack.Proofs.Machine.Depth
import LetStack.Proofs.Scoping.Sessions

/-! What a submission gives, read off the run of its code, and sessions of one text after another. -/

namespace LetStack

theorem strip_cons {drop : Char → Bool} {first : Char} (kept : drop first = false)
    (rest : List Char) : ∃ more, strip drop (first :: rest) = first :: more := by
  rw [strip, List.dropWhile_cons, kept, if_neg Bool.false_ne_true, dropRightWhile,
    List.reverse_cons, List.dropWhile_append, List.dropWhile_cons, kept, if_neg Bool.false_ne_true]
  split <;> simp

theorem stripBlank_ne_envCommand_of_cons {source : String} {first : Char} {rest : List Char}
    (shape : source.toList = first :: rest) (kept : isBlank first = false) (other : first ≠ ':') :
    stripBlank source ≠ Session.envCommand := by
  obtain ⟨more, stripped⟩ := strip_cons kept rest
  intro same
  rw [stripBlank, shape, stripped] at same
  have chars := congrArg String.toList same
  rw [String.toList_ofList] at chars
  exact other (List.cons.inj chars).1

namespace State

def answered (state : State) (fault : Option Fault) : Except Fault Answer :=
  fault.elim state.takeAnswer.1 .error

end State

theorem run_iff_ends {depth : Nat} {code : List Instr} {env last : Environment}
    {answer : Except Fault Answer} :
    (∃ ended, run depth code env = some ended ∧ ended.answer = answer ∧ ended.state.env = last) ↔
      ∃ fault after, Ends depth code ⟨[], env⟩ fault after ∧ after.answered fault = answer ∧
        after.env = last := by
  constructor
  · rintro ⟨ended, ran, rfl, rfl⟩
    obtain ⟨fault, after, ends, sameEnv, stopped, finished⟩ := run_ends ran
    refine ⟨fault, after, ends, ?_, sameEnv.symm⟩
    cases fault with
    | none => exact (finished rfl).symm
    | some stop => exact (stopped stop rfl).symm
  · rintro ⟨fault, after, ⟨pending, events, executed⟩, rfl, rfl⟩
    refine ⟨_, by rw [run, executed]; rfl, ?_⟩
    cases fault with
    | none => exact ⟨rfl, after.takeAnswer_env⟩
    | some stop => exact ⟨rfl, rfl⟩

def Outcome.warnings : Outcome → List ScopeWarning
  | success _ warnings => warnings
  | _ => []

def Outcome.ofAnswer (warnings : List ScopeWarning) : Except Fault Answer → Outcome
  | .ok answer => .success answer warnings
  | .error fault => .evaluationFailure fault

namespace Session

variable {session after : Session} {program : List Expr} {source : String} {outcome : Outcome}

def Submits (session : Session) (program : List Expr) (outcome : Outcome) (after : Session) : Prop :=
  ∃ depth evaluation, session.submit depth program = some evaluation ∧
    evaluation.outcome = outcome ∧ evaluation.session = after

theorem submits_of_unclean (unclean : ¬ (Expr.checkAll program session.scope).2.isClean = true) :
    session.Submits program outcome after ↔
      outcome = .analysisFailure (Expr.checkAll program session.scope).2.errors ∧
        after = session := by
  have submitted : ∀ depth, session.submit depth program =
      some ⟨.analysisFailure (Expr.checkAll program session.scope).2.errors, session, []⟩ :=
    fun depth => if_neg unclean
  constructor
  · rintro ⟨depth, evaluation, given, rfl, rfl⟩
    rw [submitted, Option.some.injEq] at given
    rw [← given]
    exact ⟨rfl, rfl⟩
  · rintro ⟨rfl, rfl⟩
    exact ⟨0, _, submitted 0, rfl, rfl⟩

theorem submits_of_clean (clean : (Expr.checkAll program session.scope).2.isClean = true) :
    session.Submits program outcome after ↔ ∃ depth fault last,
      Ends depth (Expr.compileAll program) ⟨[], session.env⟩ fault last ∧
        outcome = .ofAnswer (Expr.checkAll program session.scope).2.warnings (last.answered fault) ∧
        after = ⟨(Expr.checkAll program session.scope).1, last.env⟩ := by
  have submitted : ∀ depth, session.submit depth program =
      runProgram ⟨(Expr.checkAll program session.scope).1, session.env⟩ depth program
        (Expr.checkAll program session.scope).2.warnings := by
    intro depth
    have inOrder : (session.scope.analyze program).2.isClean = true := clean
    rw [submit, if_pos inOrder, Scope.analyze_of_clean inOrder]
    rfl
  constructor
  · rintro ⟨depth, evaluation, given, rfl, rfl⟩
    rw [submitted, runProgram] at given
    obtain ⟨ended, ran, rfl⟩ := Option.map_eq_some_iff.1 given
    obtain ⟨fault, last, ends, answered, env⟩ := run_iff_ends.1 ⟨ended, ran, rfl, rfl⟩
    refine ⟨depth, fault, last, ends, ?_, by rw [env]⟩
    rw [answered]
    cases ended.answer <;> rfl
  · rintro ⟨depth, fault, last, ends, rfl, rfl⟩
    obtain ⟨ended, ran, answered, env⟩ := run_iff_ends.2 ⟨fault, last, ends, rfl, rfl⟩
    refine ⟨depth, _, by rw [submitted, runProgram, ran, Option.map_some], ?_, by rw [env]⟩
    rw [← answered]
    cases ended.answer <;> rfl

theorem submits_success_iff {answer : Answer} {warnings : List ScopeWarning} :
    session.Submits program (.success answer warnings) after ↔
      (Expr.checkAll program session.scope).2 = ⟨[], warnings⟩ ∧
      after.scope = (Expr.checkAll program session.scope).1 ∧
      ∃ depth last, Ends depth (Expr.compileAll program) ⟨[], session.env⟩ none last ∧
        last.takeAnswer.1 = .ok answer ∧ after.env = last.env := by
  constructor
  · intro submits
    by_cases clean : (Expr.checkAll program session.scope).2.isClean = true
    · obtain ⟨depth, fault, last, ends, outcome, rfl⟩ := (submits_of_clean clean).1 submits
      have noErrors : (Expr.checkAll program session.scope).2.errors = [] :=
        List.isEmpty_iff.1 clean
      cases fault with
      | some stop => cases outcome
      | none =>
          simp only [State.answered, Option.elim_none] at outcome
          cases answered : last.takeAnswer.1 with
          | error stop => simp [answered, Outcome.ofAnswer] at outcome
          | ok other =>
              rw [answered, Outcome.ofAnswer, Outcome.success.injEq] at outcome
              obtain ⟨rfl, rfl⟩ := outcome
              exact ⟨noErrors ▸ rfl, rfl, depth, last, ends, answered, rfl⟩
    · obtain ⟨impossible, _⟩ := (submits_of_unclean clean).1 submits
      cases impossible
  · rintro ⟨findings, scope, depth, last, ends, answered, env⟩
    have clean : (Expr.checkAll program session.scope).2.isClean = true := by
      rw [findings]
      rfl
    refine (submits_of_clean clean).2 ⟨depth, none, last, ends, ?_, ?_⟩
    · rw [findings, State.answered, Option.elim_none, answered]
      rfl
    · rw [← scope, ← env]

def Gives (session : Session) (source : String) (outcome : Outcome) (after : Session) : Prop :=
  ∃ depth evaluation, session.evaluate depth source = some evaluation ∧
    evaluation.outcome = outcome ∧ evaluation.session = after

theorem gives_of_evaluated {evaluation : Evaluation}
    (evaluated : ∀ depth, session.evaluate depth source = some evaluation) :
    session.Gives source outcome after ↔
      outcome = evaluation.outcome ∧ after = evaluation.session := by
  constructor
  · rintro ⟨depth, other, given, rfl, rfl⟩
    rw [evaluated, Option.some.injEq] at given
    rw [← given]
    exact ⟨rfl, rfl⟩
  · rintro ⟨rfl, rfl⟩
    exact ⟨0, _, evaluated 0, rfl, rfl⟩

theorem gives_of_error {error : ParseError} (plain : stripBlank source ≠ envCommand)
    (failed : parse source = .error error) :
    session.Gives source outcome after ↔ outcome = .parseFailure error ∧ after = session :=
  gives_of_evaluated fun depth => by rw [evaluate, if_neg plain, failed]

theorem gives_of_asked (asked : stripBlank source = envCommand) :
    session.Gives source outcome after ↔
      outcome = session.showEnv.outcome ∧ after = session := by
  have unchanged : session.showEnv.session = session := by
    rw [showEnv]
    split <;> rfl
  rw [gives_of_evaluated fun depth => if_pos asked, unchanged]

theorem gives_of_ok (plain : stripBlank source ≠ envCommand) (parsed : parse source = .ok program) :
    session.Gives source outcome after ↔ session.Submits program outcome after := by
  have evaluated : ∀ depth, session.evaluate depth source = session.submit depth program :=
    fun depth => by rw [evaluate, if_neg plain, parsed]
  simp only [Gives, Submits, evaluated]

theorem Submits.unique {other : Outcome} {also : Session}
    (submits : session.Submits program outcome after)
    (submitsToo : session.Submits program other also) : outcome = other ∧ after = also := by
  by_cases clean : (Expr.checkAll program session.scope).2.isClean = true
  · obtain ⟨_, fault, last, ends, rfl, rfl⟩ := (submits_of_clean clean).1 submits
    obtain ⟨_, stop, ended, endsToo, rfl, rfl⟩ := (submits_of_clean clean).1 submitsToo
    obtain ⟨rfl, rfl⟩ := ends.unique endsToo
    exact ⟨rfl, rfl⟩
  · obtain ⟨rfl, rfl⟩ := (submits_of_unclean clean).1 submits
    obtain ⟨rfl, rfl⟩ := (submits_of_unclean clean).1 submitsToo
    exact ⟨rfl, rfl⟩

theorem Gives.unique {other : Outcome} {also : Session} (gives : session.Gives source outcome after)
    (givesToo : session.Gives source other also) : outcome = other ∧ after = also := by
  by_cases plain : stripBlank source = envCommand
  · obtain ⟨depth, evaluation, given, rfl, rfl⟩ := gives
    obtain ⟨deeper, evaluationToo, givenToo, rfl, rfl⟩ := givesToo
    rw [evaluate, if_pos plain] at given givenToo
    rw [given, Option.some.injEq] at givenToo
    exact ⟨congrArg Evaluation.outcome givenToo, congrArg Evaluation.session givenToo⟩
  · cases parsed : parse source with
    | error error =>
        obtain ⟨rfl, rfl⟩ := (gives_of_error plain parsed).1 gives
        obtain ⟨rfl, rfl⟩ := (gives_of_error plain parsed).1 givesToo
        exact ⟨rfl, rfl⟩
    | ok program =>
        exact ((gives_of_ok plain parsed).1 gives).unique ((gives_of_ok plain parsed).1 givesToo)

inductive Runs : Session → List String → List Outcome → Session → Prop
  | nil (session : Session) : Runs session [] [] session
  | cons {session middle final : Session} {source : String} {sources : List String}
      {outcome : Outcome} {outcomes : List Outcome} : session.Gives source outcome middle →
      Runs middle sources outcomes final →
      Runs session (source :: sources) (outcome :: outcomes) final

namespace Runs

variable {final : Session} {sources first second : List String} {outcomes : List Outcome}

theorem split : ∀ {session : Session} {outcomes : List Outcome},
    session.Runs (first ++ second) outcomes final → ∃ earlier later middle,
      outcomes = earlier ++ later ∧ earlier.length = first.length ∧
        session.Runs first earlier middle ∧ middle.Runs second later final := by
  induction first with
  | nil => exact fun runs => ⟨[], _, _, rfl, rfl, .nil _, runs⟩
  | cons source rest ih =>
      intro session outcomes runs
      cases runs with
      | cons gives runs =>
          obtain ⟨earlier, later, middle, rfl, count, before, after⟩ := ih runs
          exact ⟨_ :: earlier, later, middle, rfl, congrArg Nat.succ count, .cons gives before,
            after⟩

theorem append {middle : Session} {earlier later : List Outcome}
    (before : session.Runs first earlier middle) (after : middle.Runs second later final) :
    session.Runs (first ++ second) (earlier ++ later) final := by
  induction before with
  | nil _ => exact after
  | cons gives _ ih => exact .cons gives (ih after)

theorem unique (runs : session.Runs sources outcomes final) :
    ∀ {others : List Outcome} {also : Session}, session.Runs sources others also →
      outcomes = others ∧ final = also := by
  induction runs with
  | nil _ =>
      rintro others also ⟨⟩
      exact ⟨rfl, rfl⟩
  | cons gives _ ih =>
      intro others also runsToo
      cases runsToo with
      | cons givesToo runsToo =>
          obtain ⟨rfl, rfl⟩ := gives.unique givesToo
          obtain ⟨rfl, rfl⟩ := ih runsToo
          exact ⟨rfl, rfl⟩

end Runs

end Session

end LetStack
