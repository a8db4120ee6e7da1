import LetStack.Proofs.Machine.Points
import LetStack.Proofs.Scoping.Accepted
import LetStack.Session.Evaluate

/-! What holds of a session whatever has been submitted to it. -/

namespace LetStack

/-- The names that the code counts on are bound if `bound`; they need not be in a session in which a
run has failed. -/
def Allowed (bound : Prop) : Rule := fun code symbols =>
  ∃ (pending : List String) (kinds final : Table SymbolKind) (own : List Instr),
    code = pending.map .store ++ own ∧ Accepted kinds own final ∧
    (bound → ∀ name, kinds.contains name = true →
      name ∈ pending ∨ symbols.contains name = true)

theorem Accepted.tail {kinds final : Table SymbolKind} {instr : Instr} {later : List Instr}
    (accepted : Accepted kinds (instr :: later) final) : ∃ next, Accepted next later final ∧
      ∀ name, next.contains name = true → kinds.contains name = true ∨ instr = .store name := by
  cases accepted with
  | declare kind fresh rest =>
      refine ⟨_, rest, ?_⟩
      intro name declared
      rcases (Table.contains_set_iff _ _ _ _).1 declared with rfl | earlier
      · exact Or.inr rfl
      · exact Or.inl earlier
  | literal _ _ rest => exact ⟨_, rest, fun _ declared => Or.inl declared⟩
  | bytes _ rest => exact ⟨_, rest, fun _ declared => Or.inl declared⟩
  | arithmetic _ rest => exact ⟨_, rest, fun _ declared => Or.inl declared⟩
  | lookup _ rest => exact ⟨_, rest, fun _ declared => Or.inl declared⟩
  | assign _ rest => exact ⟨_, rest, fun _ declared => Or.inl declared⟩
  | function _ _ rest => exact ⟨_, rest, fun _ declared => Or.inl declared⟩
  | call _ rest => exact ⟨_, rest, fun _ declared => Or.inl declared⟩

theorem allowed_of_accepted {bound : Prop} {kinds final : Table SymbolKind} {code : List Instr}
    {symbols : Table Int} (accepted : Accepted kinds code final)
    (names : bound → ∀ name, kinds.contains name = true → symbols.contains name = true) :
    Allowed bound code symbols :=
  ⟨[], kinds, final, code, rfl, accepted, fun holds name declared =>
    Or.inr (names holds name declared)⟩

theorem Allowed.accepted {bound : Prop} {instr : Instr} {later : List Instr} {symbols : Table Int}
    (allowed : Allowed bound (instr :: later) symbols) (notStore : ∀ name, instr ≠ .store name) :
    ∃ kinds final, Accepted kinds (instr :: later) final ∧
      (bound → ∀ name, kinds.contains name = true → symbols.contains name = true) := by
  obtain ⟨pending, kinds, final, own, shape, accepted, names⟩ := allowed
  cases pending with
  | nil =>
      rw [List.map_nil, List.nil_append] at shape
      refine ⟨kinds, final, shape ▸ accepted, ?_⟩
      intro holds name declared
      simpa using names holds name declared
  | cons param rest => exact absurd (List.cons.inj shape).1 (notStore param)

theorem allowed_closed (bound : Prop) : (Allowed bound).Closed where
  rest := by
    intro instr later before after allowed grown stored
    obtain ⟨pending, kinds, final, own, shape, accepted, names⟩ := allowed
    cases pending with
    | nil =>
        rw [List.map_nil, List.nil_append] at shape
        subst shape
        obtain ⟨next, rest, declaredBefore⟩ := accepted.tail
        apply allowed_of_accepted rest
        intro holds name declared
        rcases declaredBefore name declared with earlier | store
        · have boundBefore : before.contains name = true := by
            simpa using names holds name earlier
          exact grown name boundBefore
        · exact stored name store
    | cons param pending =>
        obtain ⟨rfl, rfl⟩ := List.cons.inj shape
        refine ⟨pending, kinds, final, own, rfl, accepted, ?_⟩
        intro holds name declared
        rcases names holds name declared with member | boundBefore
        · rcases List.mem_cons.1 member with rfl | still
          · exact Or.inr (stored name rfl)
          · exact Or.inl still
        · exact Or.inr (grown name boundBefore)
  literal := by
    intro value later symbols allowed heap
    obtain ⟨kinds, final, accepted, _⟩ := allowed.accepted nofun
    cases accepted with
    | literal notPointer notClosure _ =>
        cases value with
        | pointer address => exact absurd rfl (notPointer address)
        | closure params body env => exact absurd rfl (notClosure params body env)
        | _ => constructor
  closure := by
    intro params body later symbols allowed
    obtain ⟨kinds, final, accepted, names⟩ := allowed.accepted nofun
    cases accepted with
    | @function _ inner _ _ body _ distinct inside _ =>
        refine ⟨params, hide kinds params, inner, body, rfl, inside, ?_⟩
        intro holds name declared
        rcases (contains_hide_iff _ _ _).1 declared with member | outside
        · exact Or.inl member
        · exact Or.inr (names holds name outside)

theorem allowed_binds : (Allowed True).Binds := by
  intro name later symbols allowed
  obtain ⟨kinds, final, accepted, names⟩ := allowed.accepted nofun
  cases accepted with
  | lookup declared _ => exact names trivial name declared

inductive Session.Reached (keep : Outcome → Prop) : Session → Prop
  | empty : Reached keep .empty
  | submit {depth : Nat} {session : Session} {program : List Expr} {evaluation : Evaluation} :
      Reached keep session → session.submit depth program = some evaluation →
      keep evaluation.outcome → Reached keep evaluation.session
  | evaluate {depth : Nat} {session : Session} {source : String} {evaluation : Evaluation} :
      Reached keep session → session.evaluate depth source = some evaluation →
      keep evaluation.outcome → Reached keep evaluation.session

def Outcome.Unfailing (outcome : Outcome) : Prop := ∀ fault, outcome ≠ .evaluationFailure fault

structure Session.Sound (bound : Prop) (session : Session) : Prop where
  env : session.env.Sound (Allowed bound)
  names : bound → ∀ name, session.scope.symbols.contains name = true →
    session.env.symbols.contains name = true

theorem run_ends {depth : Nat} {code : List Instr} {env : Environment} {ended : Run Instr}
    (ran : run depth code env = some ended) : ∃ fault after,
      Ends depth code ⟨[], env⟩ fault after ∧ ended.state.env = after.env ∧
      (∀ stop, fault = some stop → ended.answer = .error stop) ∧
      (fault = none → ended.answer = after.takeAnswer.1) := by
  obtain ⟨after, ⟨ends, answer, state⟩ | ⟨fault, ends, answer, state⟩⟩ := run_cases ran
  · exact ⟨none, after, ends, by rw [state, after.takeAnswer_env], nofun, fun _ => answer⟩
  · exact ⟨some fault, after, ends, by rw [state], fun _ same => Option.some.inj same ▸ answer,
      nofun⟩

theorem run_fails {depth : Nat} {code : List Instr} {env : Environment} {ended : Run Instr}
    {fault : Fault} (ran : run depth code env = some ended) (failed : ended.answer = .error fault) :
    (∃ after, Ends depth code ⟨[], env⟩ (some fault) after) ∨
      ∃ address, fault = .danglingPointer address := by
  obtain ⟨stop, after, ends, _, stopped, finished⟩ := run_ends ran
  cases stop with
  | some other =>
      rw [stopped other rfl, Except.error.injEq] at failed
      exact Or.inl ⟨after, failed ▸ ends⟩
  | none =>
      rw [finished rfl, State.takeAnswer] at failed
      split at failed
      · cases failed
      · split at failed
        · split at failed
          · exact Or.inr ⟨_, (Except.error.inj failed).symm⟩
          · cases failed
          · cases failed
        · cases failed

theorem Scope.analyze_of_clean {scope : Scope} {program : List Expr}
    (clean : (scope.analyze program).2.isClean = true) :
    (scope.analyze program).1 = (Expr.checkAll program scope).1 := by
  have same : (Expr.checkAll program scope).2.isClean = true := clean
  simp only [Scope.analyze, same, if_true]

namespace Session

variable {bound : Prop} {session : Session} {program : List Expr}

theorem submit_of_clean {depth : Nat} {evaluation : Evaluation}
    (clean : (session.scope.analyze program).2.isClean = true)
    (submitted : session.submit depth program = some evaluation) : ∃ ended,
      run depth (Expr.compileAll program) session.env = some ended ∧
      evaluation.session = ⟨(session.scope.analyze program).1, ended.state.env⟩ ∧
      ∀ fault, evaluation.outcome = .evaluationFailure fault ↔ ended.answer = .error fault := by
  rw [submit, if_pos clean, runProgram] at submitted
  obtain ⟨ended, ran, rfl⟩ := Option.map_eq_some_iff.1 submitted
  refine ⟨ended, ran, rfl, ?_⟩
  intro fault
  cases ended.answer with
  | ok _ => simp
  | error _ => simp

theorem submit_of_unclean {depth : Nat} {evaluation : Evaluation}
    (unclean : ¬ (session.scope.analyze program).2.isClean = true)
    (submitted : session.submit depth program = some evaluation) :
    evaluation.session = session := by
  rw [submit, if_neg unclean, Option.some.injEq] at submitted
  rw [← submitted]

theorem evaluate_cases {depth : Nat} {source : String} {evaluation : Evaluation}
    (evaluated : session.evaluate depth source = some evaluation) :
    evaluation.session = session ∨
      ∃ program, parse source = .ok program ∧
        session.submit depth program = some evaluation := by
  unfold evaluate at evaluated
  split at evaluated
  · rw [Option.some.injEq] at evaluated
    rw [← evaluated, showEnv]
    split <;> exact Or.inl rfl
  · split at evaluated
    · rw [Option.some.injEq] at evaluated
      exact Or.inl (evaluated ▸ rfl)
    · rename_i program parsed
      exact Or.inr ⟨program, parsed, evaluated⟩

theorem Sound.allowed (sound : session.Sound bound)
    (clean : (session.scope.analyze program).2.isClean = true) :
    Allowed bound (Expr.compileAll program) session.env.symbols :=
  allowed_of_accepted (program_accepted clean) sound.names

theorem Sound.start (sound : session.Sound bound) :
    State.Sound (Allowed bound) ⟨[], session.env⟩ := ⟨by simp, sound.env⟩

theorem submit_cases {depth : Nat} {evaluation : Evaluation}
    (submitted : session.submit depth program = some evaluation) :
    evaluation.session = session ∨
      (Expr.checkAll program session.scope).2.isClean = true ∧ ∃ fault last,
        Ends depth (Expr.compileAll program) ⟨[], session.env⟩ fault last ∧
        evaluation.session = ⟨(Expr.checkAll program session.scope).1, last.env⟩ ∧
        ∀ stop, fault = some stop → evaluation.outcome = .evaluationFailure stop := by
  by_cases clean : (session.scope.analyze program).2.isClean = true
  · obtain ⟨ended, ran, same, failed⟩ := submit_of_clean clean submitted
    obtain ⟨fault, last, ends, env, stopped, _⟩ := run_ends ran
    rw [Scope.analyze_of_clean clean, env] at same
    exact Or.inr ⟨clean, fault, last, ends, same, fun stop here => (failed stop).2 (stopped stop here)⟩
  · exact Or.inl (submit_of_unclean clean submitted)

theorem Reached.invariant {keep : Outcome → Prop} (reached : Reached keep session)
    (holds : Session → Prop) (start : holds .empty)
    (ran : ∀ {session : Session} {program : List Expr} {depth : Nat} {fault : Option Fault}
        {last : State}, holds session → (Expr.checkAll program session.scope).2.isClean = true →
      Ends depth (Expr.compileAll program) ⟨[], session.env⟩ fault last →
      (∀ stop, fault = some stop → keep (.evaluationFailure stop)) →
      holds ⟨(Expr.checkAll program session.scope).1, last.env⟩) : holds session := by
  have submits : ∀ {session : Session} {program : List Expr} {depth : Nat}
      {evaluation : Evaluation}, holds session → session.submit depth program = some evaluation →
      keep evaluation.outcome → holds evaluation.session := by
    intro session program depth evaluation before submitted kept
    rcases submit_cases submitted with same | ⟨clean, fault, last, ends, same, failed⟩
    · rw [same]
      exact before
    · rw [same]
      exact ran before clean ends fun stop here => failed stop here ▸ kept
  induction reached with
  | empty => exact start
  | submit _ submitted kept ih => exact submits ih submitted kept
  | evaluate _ evaluated kept ih =>
      rcases evaluate_cases evaluated with same | ⟨program, _, submitted⟩
      · rw [same]
        exact ih
      · exact submits ih submitted kept

theorem Reached.sound {keep : Outcome → Prop} (reached : Reached keep session)
    (unfailing : bound → ∀ outcome, keep outcome → outcome.Unfailing) : session.Sound bound := by
  refine reached.invariant (Session.Sound bound) ⟨Environment.sound_empty, ?_⟩ ?_
  · intro _ name declared
    cases declared
  · intro session program depth fault last sound clean ends kept
    refine ⟨(ends.sound (allowed_closed bound) sound.start (sound.allowed clean)).env, ?_⟩
    intro holds name declared
    have finished : fault = none := by
      cases fault with
      | none => rfl
      | some stop => exact absurd rfl (unfailing holds _ (kept stop rfl) stop)
    subst finished
    rcases (program_accepted clean).names declared with before | stored
    · exact ends.contains_of_before (sound.names holds name before)
    · exact ends.contains_of_store stored

end Session

end LetStack
