import LetStack.Proofs.Arity.Tracked
import LetStack.Proofs.Machine.Faults

/-!
Calls of a program that is in order find functions with as many parameters as arguments are written,
other than under names that are out of step.
-/

namespace LetStack

def State.Finds (state : State) (count : Nat) : Prop :=
  ∃ params body captured below,
    state.stack = .closure params body captured :: below ∧ params.length = count

inductive Fault.OfCallee : Fault → Prop
  | notCallable (kind : String) : OfCallee (.notCallable kind)
  | argumentCount (expected actual : Nat) : OfCallee (.argumentCount expected actual)

theorem Instr.Raises.not_finds {instr : Instr} {state : State} {fault : Fault}
    (raises : instr.Raises state fault) (ofCallee : fault.OfCallee) :
    ∃ argCount, instr = .call argCount ∧ ¬ state.Finds argCount := by
  cases raises with
  | operands ofOperands => cases ofOperands <;> cases ofCallee
  | @notCallable argCount callee below shape notClosure =>
      refine ⟨argCount, rfl, ?_⟩
      rintro ⟨params, body, captured, _, found, _⟩
      rw [shape] at found
      exact notClosure params body captured (List.cons.inj found).1
  | @argumentCount argCount params body captured below shape wrong =>
      refine ⟨argCount, rfl, ?_⟩
      rintro ⟨_, _, _, _, found, arity⟩
      rw [shape, List.cons.injEq, Value.closure.injEq] at found
      exact wrong (found.1.1 ▸ arity.symm)
  | _ => cases ofCallee

theorem Instr.Acts.finds_iff {rule : Rule} {depth count : Nat} {name : String}
    {before found : State} (acts : (Instr.lookup name).Acts depth before none found)
    (sound : before.Sound rule) :
    found.Finds count ↔ before.env.BindsFunction name count := by
  constructor
  · rintro ⟨params, body, captured, below, shape, arity⟩
    obtain ⟨stack, env⟩ := before
    obtain ⟨finished, rfl⟩ := acts_lookup_iff.1 acts
    cases bound : env.symbols.contains name with
    | false =>
        rw [State.lookup_of_unbound stack ((Table.contains_eq_false_iff _ _).1 bound)] at finished
        cases finished
    | true =>
        obtain ⟨hops, target, binds⟩ := sound.env.readable name bound
        obtain ⟨value, same, leads⟩ := State.lookup_of_binds stack binds
        rw [same] at shape
        obtain ⟨rfl, _⟩ := List.cons.inj shape
        cases leads
        exact ⟨params, body, captured, binds, arity⟩
  · intro binds
    obtain ⟨params, body, captured, shape, arity⟩ := binds.looked_up acts
    exact ⟨params, body, captured, _, shape, arity⟩

section

variable {program : List Expr} (clean : (Scope.empty.analyze program).2.isClean = true)

include clean

theorem program_allowed : Allowed False (Expr.compileAll program) Environment.empty.symbols :=
  allowed_of_accepted (program_accepted clean) nofun

theorem reached_sound {later : List Instr} {state : State}
    (reached : Reaches (Expr.compileAll program) ⟨[], .empty⟩ later state) :
    state.Sound (Allowed False) :=
  (reached.sound (allowed_closed False) ⟨by simp, Environment.sound_empty⟩
    (program_allowed clean)).1

theorem reached_tracked {later : List Instr} {state : State}
    (reached : Reaches (Expr.compileAll program) ⟨[], .empty⟩ later state) :
    ∃ origin arities last final,
      Tracked (Expr.compileAll program) ⟨[], .empty⟩ origin arities later state ∧
      Counted origin arities later last final := by
  obtain ⟨last, final, counted⟩ := program_counted clean .other
  have initial : Tracked (Expr.compileAll program) ⟨[], .empty⟩ .other Table.empty
      (Expr.compileAll program) ⟨[], .empty⟩ := ⟨.start, nofun, trivial, ⟨nofun, nofun⟩⟩
  exact reached.tracked (allowed_closed False) (fun _ _ => reached_sound clean) initial counted

theorem reached_call_finds_iff {argCount : Nat} {later : List Instr} {state : State}
    (reached : Reaches (Expr.compileAll program) ⟨[], .empty⟩ (.call argCount :: later) state) :
    ∃ name before,
      Reaches (Expr.compileAll program) ⟨[], .empty⟩ (.lookup name :: .call argCount :: later)
        before ∧
      (Instr.lookup name).Acts 1 before none state ∧
      (state.Finds argCount ↔ ¬ OutOfStep (Expr.compileAll program) ⟨[], .empty⟩ name argCount
        (.lookup name :: .call argCount :: later) before) := by
  obtain ⟨_, arities, _, _, tracked, counted⟩ := reached_tracked clean reached
  cases counted with
  | @call _ _ _ name _ _ known _ =>
      obtain ⟨_, before, lookups, acts, inStep⟩ := tracked.top
      refine ⟨name, before, lookups, Instr.acts_lookup_iff.2 (Instr.acts_lookup_iff.1 acts), ?_⟩
      rw [acts.finds_iff (reached_sound clean lookups)]
      constructor
      · exact fun binds stray => stray.not_bindsFunction binds
      · exact fun notStray => (inStep argCount known).resolve_right notStray

end

/-- Each call comes right after the lookup of its callee, which fails to find a function of as many
parameters as there are arguments only where the name is out of step, and that goes back to a call
that has handed back something else. -/
theorem calls_find_functions_iff (program : List Expr)
    (clean : (Scope.empty.analyze program).2.isClean = true) :
    let code := Expr.compileAll program
    let start : State := ⟨[], .empty⟩
    (∀ argCount later state, Reaches code start (.call argCount :: later) state →
      ∃ name before, Reaches code start (.lookup name :: .call argCount :: later) before ∧
        (Instr.lookup name).Acts 1 before none state ∧
        (state.Finds argCount ↔
          ¬ OutOfStep code start name argCount (.lookup name :: .call argCount :: later) before)) ∧
    ∀ depth ended fault, run depth code .empty = some ended → ended.answer = .error fault →
      fault.OfCallee → ∃ name argCount later before,
        Reaches code start (.lookup name :: .call argCount :: later) before ∧
        OutOfStep code start name argCount (.lookup name :: .call argCount :: later) before ∧
        ∃ source instr rest earlier, Reaches code start (instr :: rest) earlier ∧
          earlier.env.BindsFunction source argCount ∧
          (instr.HandsBack source argCount earlier ∨ instr.MeetsLocal source earlier) := by
  intro code start
  refine ⟨fun _ _ _ reached => reached_call_finds_iff clean reached, ?_⟩
  intro depth ended fault ran failed ofCallee
  rcases run_fails ran failed with ⟨after, ends⟩ | ⟨address, rfl⟩
  · obtain ⟨instr, later, state, reached, raises⟩ := ends.raised (allowed_closed False)
      (reached_sound clean .start) (program_allowed clean)
    obtain ⟨argCount, rfl, notFinds⟩ := raises.not_finds ofCallee
    obtain ⟨name, before, lookups, _, finds⟩ := reached_call_finds_iff clean reached
    have stray := Classical.not_not.1 (mt finds.2 notFinds)
    exact ⟨name, argCount, later, before, lookups, stray, stray.exists_handed⟩
  · cases ofCallee

/-- `let f = …; let g = () => 0; f = …; g(); f(…)`, where `g` has captured the first `f`. -/
def callsOutdated (first second : Expr) (args : List Expr) : List Expr :=
  [.declare .variable "f" first,
    .declare .variable "g" (.function [] [.literal (.int 0)]),
    .assign "f" second,
    .call "g" [],
    .call "f" args]

def identityFunction : Expr := .function ["x"] [.identifier "x"]

theorem calls_find_functions_iff_same_count :
    let program := callsOutdated identityFunction (.function ["y"] [.literal (.int 1)])
      [.literal (.int 5)]
    let code := Expr.compileAll program
    (Scope.empty.analyze program).2.isClean = true ∧
      ∃ state, Reaches code ⟨[], .empty⟩ [.call 1] state ∧ state.Finds 1 ∧
        ∃ name before, Reaches code ⟨[], .empty⟩ [.lookup name, .call 1] before ∧
          ¬ OutOfStep code ⟨[], .empty⟩ name 1 [.lookup name, .call 1] before := by
  intro program code
  have clean : (Scope.empty.analyze program).2.isClean = true := rfl
  have ended : Ends 2 (code.take 10) ⟨[], .empty⟩ none _ := ⟨_, _, rfl⟩
  have point : Reaches code ⟨[], .empty⟩ [.call 1] _ := .of_ends ended
  obtain ⟨name, before, lookups, _, iff⟩ := (calls_find_functions_iff program clean).1 1 [] _ point
  refine ⟨clean, _, point, ?_, name, before, lookups, iff.1 ?_⟩ <;>
    exact ⟨["x"], _, _, _, rfl, rfl⟩

def outdatedCount : List Expr :=
  callsOutdated (.function [] [.literal (.int 1)]) identityFunction [.literal (.int 5)]

def outdatedKind : List Expr :=
  callsOutdated (.literal (.int 1)) (.function [] [.literal (.int 2)]) []

/-- The call of `g` hands back a function with another number of parameters, or no function. -/
theorem accepted_calls_fail :
    ((Scope.empty.analyze outdatedCount).2.isClean = true ∧
      ∃ ended, run 2 (Expr.compileAll outdatedCount) .empty = some ended ∧
        ended.answer = .error (.argumentCount 0 1)) ∧
    (Scope.empty.analyze outdatedKind).2.isClean = true ∧
      ∃ ended, run 2 (Expr.compileAll outdatedKind) .empty = some ended ∧
        ended.answer = .error (.notCallable "int") :=
  ⟨⟨rfl, _, rfl, rfl⟩, rfl, _, rfl, rfl⟩

end LetStack
