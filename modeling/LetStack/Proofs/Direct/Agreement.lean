import LetStack.Machine.Run
import LetStack.Proofs.Direct.Instructions
import LetStack.Proofs.Text.RoundTrip

/-! Compiled programs give the answers of direct evaluation, run after run. -/

namespace LetStack

theorem simulates_statements {depth : Nat} (statements : List Expr)
    (each : ∀ part ∈ statements, Simulates (depth + 1) [] part.compile
      (part.direct (Direct.run depth)) pushesValue) :
    Simulates (depth + 1) [] (Expr.compileAll statements)
      (Expr.directAll (Direct.run depth) statements)
      (fun value meanings => meanings.head? = value) := by
  induction statements with
  | nil => exact .pure none rfl
  | cons first rest ih =>
      have ihRest := ih fun part member => each part (List.mem_cons_of_mem _ member)
      refine (each first List.mem_cons_self).bind fun value meanings pushed => ?_
      cases pushed
      refine (ihRest.frame value.toList).map fun later meanings pushed => ?_
      obtain ⟨own, rfl, rfl⟩ := pushed
      rw [List.head?_append, Option.head?_toList]

/-- The last argument comes to lie on top. -/
theorem simulates_args {depth : Nat} (args : List Expr)
    (each : ∀ part ∈ args, Simulates (depth + 1) [] part.compile
      (part.direct (Direct.run depth)) pushesValue) :
    Simulates (depth + 1) [] (Expr.compileAll args) (Expr.directArgs (Direct.run depth) args)
      (fun values meanings => meanings = values.reverse ∧ values.length = args.length) := by
  induction args with
  | nil => exact .pure [] ⟨rfl, rfl⟩
  | cons first rest ih =>
      have ihRest := ih fun part member => each part (List.mem_cons_of_mem _ member)
      refine (each first List.mem_cons_self).needed.bind fun value meanings pushed => ?_
      cases pushed
      refine (ihRest.frame [value]).map fun values meanings pushed => ?_
      obtain ⟨own, ⟨rfl, count⟩, rfl⟩ := pushed
      exact ⟨List.reverse_cons.symm, congrArg (· + 1) count⟩

theorem simulates_expr {depth : Nat} (bodies : BodiesSimulate depth) (expr : Expr) :
    Simulates (depth + 1) [] expr.compile (expr.direct (Direct.run depth)) pushesValue := by
  have binding : ∀ (name : String) (rhs : Expr), Simulates (depth + 1) [] rhs.compile
      (rhs.direct (Direct.run depth)) pushesValue →
      Simulates (depth + 1) [] (rhs.compile ++ [.store name])
        (do
          let value ← Direct.needed (rhs.direct (Direct.run depth))
          Direct.set name value
          pure none) pushesValue := by
    intro name rhs simulated
    refine simulated.needed.bind fun value meanings pushed => ?_
    cases pushed
    exact (Simulates.store name value).map fun _ _ pushed => pushed
  induction expr using Expr.induction with
  | literal value => exact .literal value
  | identifier name => exact (Simulates.lookup name).map fun _ _ pushed => pushed
  | declare kind name rhs ih => exact binding name rhs ih
  | assign name rhs ih => exact binding name rhs ih
  | binary left operator right ihLeft ihRight =>
      rw [Expr.compile, List.append_assoc]
      refine ihLeft.needed.bind fun first meanings pushed => ?_
      cases pushed
      refine (ihRight.needed.frame [first]).bind fun second meanings pushed => ?_
      obtain ⟨own, rfl, rfl⟩ := pushed
      exact (Simulates.arithmetic operator first second).map fun _ _ pushed => pushed
  | function params body ih => exact .makeClosure params body
  | call callee args ih =>
      refine (simulates_args args ih).bind fun values meanings pushed => ?_
      obtain ⟨rfl, count⟩ := pushed
      change Simulates _ _ ([.lookup callee] ++ [.call args.length]) _ _
      refine ((Simulates.lookup callee).frame values.reverse).bind fun target meanings pushed => ?_
      obtain ⟨own, rfl, rfl⟩ := pushed
      rw [← count]
      exact .call bodies target values

theorem bodiesSimulate (fuel : Nat) : BodiesSimulate fuel := by
  induction fuel with
  | zero =>
      intro body env taken below bindings after result _ _ impossible
      cases impossible
  | succ depth ih =>
      intro body
      exact simulates_statements body fun part _ => simulates_expr ih part

inductive Answers : Except Stop (Option Plain) → Except Fault Answer → Prop
  | fault (fault : Fault) : Answers (.error (.fault fault)) (.error fault)
  | nothing : Answers (.ok none) (.ok .nothing)
  | text (content : String) :
      Answers (.ok (some (.text content))) (.ok (.text ("\"" ++ content ++ "\"")))
  | value {target plain} : Stands 0 target plain →
      Answers (.ok (some plain)) (.ok (.value target))

theorem takeAnswer_answers {env : Environment} {stack : List Value} {meanings : List Plain}
    (means : List.Forall₂ (Means env.heap) stack meanings) :
    Answers (.ok meanings.head?) (State.takeAnswer ⟨stack, env⟩).1 ∧
      (State.takeAnswer ⟨stack, env⟩).2.env = env := by
  cases means with
  | nil => exact ⟨.nothing, rfl⟩
  | @cons top plain rest others read _ =>
      obtain ⟨hops, target, leads, stands⟩ := read
      cases stands with
      | text content =>
          cases leads with
          | hop found rest =>
              cases rest
              refine ⟨?_, rfl⟩
              simp only [State.takeAnswer, found, bytesText_encodeUtf8]
              exact .text content
      | int value => cases leads; exact ⟨.value (.int value), rfl⟩
      | float value => cases leads; exact ⟨.value (.float value), rfl⟩
      | bool value => cases leads; exact ⟨.value (.bool value), rfl⟩
      | closure hops target unbound bound stand =>
          cases leads
          exact ⟨.value (.closure hops target unbound bound stand), rfl⟩

/-- Whenever direct evaluation comes to an end on bindings that an environment represents, the run
of the compiled program does so on the environment, and leaves one that represents what the
bindings have become. -/
theorem run_agrees_with_direct :
    Environment.empty.Represents Bindings.none ∧
      ∀ (depth : Nat) (program : List Expr) (env : Environment) (bindings after : Bindings)
        (result : Except Stop (Option Plain)), env.Represents bindings →
        Direct.run depth program bindings = some (result, after) → result ≠ .error .valueless →
        ∃ ended, run depth (Expr.compileAll program) env = some ended ∧
          Answers result ended.answer ∧ ended.state.env.Represents after := by
  refine ⟨Environment.represents_empty, ?_⟩
  intro depth program env bindings after result represents evaluated notValueless
  obtain ⟨finished, failed⟩ :=
    bodiesSimulate depth program env [] [] bindings after result represents .nil evaluated
  cases result with
  | error reason =>
      cases reason with
      | valueless => exact absurd rfl notValueless
      | fault fault =>
          obtain ⟨last, ⟨pending, events, executed⟩, representsAfter⟩ := failed fault rfl
          rw [List.append_nil] at executed
          exact ⟨_, by rw [run, executed]; rfl, .fault fault, representsAfter⟩
  | ok value =>
      obtain ⟨left, last, meanings, ⟨pending, events, executed⟩, _, representsAfter, rfl, means⟩ :=
        finished value rfl
      obtain ⟨answers, kept⟩ := takeAnswer_answers means
      rw [List.append_nil, List.append_nil] at executed
      refine ⟨_, by rw [run, executed]; rfl, answers, ?_⟩
      change (State.takeAnswer ⟨left, last⟩).2.env.Represents after
      rwa [kept]

/-- The assignment in a body that faults reaches the caller. -/
def faultingProgram : List Expr :=
  [.declare .variable "x" (.literal (.int 1)),
    .declare .variable "f" (.function []
      [.assign "x" (.literal (.int 2)),
        .binary (.identifier "x") .div (.literal (.int 0))]),
    .call "f" []]

theorem run_agrees_with_direct_faulting :
    ∃ after, Direct.run 2 faultingProgram Bindings.none =
        some (.error (.fault .divisionByZero), after) ∧
      (after "x" = some (.int 2) ∧ after "y" = none) ∧
      ∃ ended, run 2 (Expr.compileAll faultingProgram) .empty = some ended ∧
        Answers (.error (.fault .divisionByZero)) ended.answer ∧
        ended.state.env.Represents after :=
  ⟨_, rfl, ⟨rfl, rfl⟩, run_agrees_with_direct.2 2 faultingProgram .empty .none _
    (.error (.fault .divisionByZero)) run_agrees_with_direct.1 rfl nofun⟩

end LetStack
