import LetStack.Proofs.Unrelated.Insertion

/-!
What a session comes to does not depend on submissions that are rejected, nor on requests for the
names and the heap.
-/

namespace LetStack

def Outcome.isRejection : Outcome → Bool
  | parseFailure _ => true
  | analysisFailure _ => true
  | evaluationFailure _ => false
  | success _ _ => false

namespace Session

variable {session after final : Session} {source : String} {outcome : Outcome}

def hasRun (submission : String × Outcome) : Bool :=
  stripBlank submission.1 ≠ envCommand && !submission.2.isRejection

theorem Submits.eq_of_isRejection {program : List Expr}
    (submits : session.Submits program outcome after) (rejected : outcome.isRejection = true) :
    after = session := by
  by_cases clean : (Expr.checkAll program session.scope).2.isClean = true
  · obtain ⟨_, fault, last, _, rfl, _⟩ := (submits_of_clean clean).1 submits
    cases answered : last.answered fault with
    | ok answer => simp [answered, Outcome.ofAnswer, Outcome.isRejection] at rejected
    | error stop => simp [answered, Outcome.ofAnswer, Outcome.isRejection] at rejected
  · exact ((submits_of_unclean clean).1 submits).2

theorem Gives.eq_of_not_hasRun (gives : session.Gives source outcome after)
    (notRun : hasRun (source, outcome) = false) : after = session := by
  by_cases asked : stripBlank source = envCommand
  · exact ((gives_of_asked asked).1 gives).2
  · cases parsed : parse source with
    | error error => exact ((gives_of_error asked parsed).1 gives).2
    | ok program =>
        have rejected : outcome.isRejection = true := by simpa [hasRun, asked] using notRun
        exact ((gives_of_ok asked parsed).1 gives).eq_of_isRejection rejected

theorem Runs.of_hasRun {sources : List String} {outcomes : List Outcome}
    (runs : session.Runs sources outcomes final) :
    let ran := (sources.zip outcomes).filter hasRun
    session.Runs (ran.map Prod.fst) (ran.map Prod.snd) final := by
  induction runs with
  | nil session => exact .nil session
  | @cons session middle final source sources outcome outcomes gives _ ih =>
      cases run : hasRun (source, outcome) with
      | true =>
          rw [List.zip_cons_cons, List.filter_cons_of_pos run]
          exact .cons gives ih
      | false =>
          -- The next submission finds the session as this one has found it.
          rw [List.zip_cons_cons, List.filter_cons_of_neg (by simp [run])]
          exact gives.eq_of_not_hasRun run ▸ ih

end Session

/-- Without the submissions that are rejected and those that ask for the names and the heap, all
others come to what they have come to, and so does the session. -/
theorem rejected_leave_no_trace (session final : Session) (sources : List String)
    (outcomes : List Outcome) (runs : session.Runs sources outcomes final) :
    let ran := (sources.zip outcomes).filter Session.hasRun
    ∀ others last, session.Runs (ran.map Prod.fst) others last ↔
      others = ran.map Prod.snd ∧ last = final := by
  intro ran others last
  constructor
  · intro runsToo
    obtain ⟨rfl, rfl⟩ := runs.of_hasRun.unique runsToo
    exact ⟨rfl, rfl⟩
  · rintro ⟨rfl, rfl⟩
    exact runs.of_hasRun

theorem rejected_leave_no_trace_repeated : ∃ shown final,
    Session.empty.Runs ["let x = 1", "let x = 1", "", ":env", "let f=()=>x;f()"]
        [.success .nothing [], .analysisFailure [.redeclared "x"], .parseFailure .unexpectedEnd,
          shown, .success (.value (.int 1)) []] final ∧
      ∀ others last, Session.empty.Runs ["let x = 1", "let f=()=>x;f()"] others last ↔
        others = [.success .nothing [], .success (.value (.int 1)) []] ∧ last = final := by
  obtain ⟨floats⟩ := (inferInstance : Nonempty FloatDigits)
  have text : printed floats (binding "x" (.int 1)) = "let x = 1" := rfl
  have parsed : parse "let x = 1" = .ok (binding "x" (.int 1)) := by
    rw [← text]
    exact parse_binding floats rfl (by decide) nofun
  have letter : stripBlank "let x = 1" ≠ Session.envCommand := stripBlank_ne_envCommand rfl
  have letterToo : stripBlank "let f=()=>x;f()" ≠ Session.envCommand := stripBlank_ne_envCommand rfl
  have request : stripBlank ":env" = Session.envCommand := by decide
  let bound : Session :=
    ⟨⟨Table.empty.set "x" .variable, .empty⟩, Environment.empty.bind "x" (.int 1)⟩
  have first : Session.empty.Gives "let x = 1" (.success .nothing []) bound :=
    (Session.gives_of_ok letter parsed).2 ⟨2, _, rfl, rfl, rfl⟩
  have again : bound.Gives "let x = 1" (.analysisFailure [.redeclared "x"]) bound :=
    (Session.gives_of_ok letter parsed).2 ((Session.submits_of_unclean (by decide)).2 ⟨rfl, rfl⟩)
  have empty : parse "" = .error .unexpectedEnd := by
    have nothing : scan "".toList = ([], []) := scan_of_none [] [] rfl rfl rfl
    rw [parse, nothing]
    rfl
  have unread : bound.Gives "" (.parseFailure .unexpectedEnd) bound :=
    (Session.gives_of_error (by decide) empty).2 ⟨rfl, rfl⟩
  have asked : bound.Gives ":env" bound.showEnv.outcome bound :=
    (Session.gives_of_asked request).2 ⟨rfl, rfl⟩
  have called : bound.Gives "let f=()=>x;f()" (.success (.value (.int 1)) []) _ :=
    (Session.gives_of_ok letterToo parse_captures).2 ⟨3, _, rfl, rfl, rfl⟩
  have runs := Session.Runs.cons first <| .cons again <| .cons unread <| .cons asked <|
    .cons called <| .nil _
  refine ⟨_, _, runs, fun others last => ?_⟩
  have same := rejected_leave_no_trace _ _ _ _ runs others last
  have ran : (List.zip ["let x = 1", "let x = 1", "", ":env", "let f=()=>x;f()"]
      [.success .nothing [], .analysisFailure [.redeclared "x"], .parseFailure .unexpectedEnd,
        bound.showEnv.outcome, .success (.value (.int 1)) []]).filter Session.hasRun =
      [("let x = 1", .success .nothing []),
        ("let f=()=>x;f()", .success (.value (.int 1)) [])] := by
    simp [Session.hasRun, Outcome.isRejection, letter, letterToo, request]
  rwa [ran] at same

end LetStack
