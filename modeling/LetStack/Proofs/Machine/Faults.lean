import LetStack.Proofs.Machine.Arithmetic
import LetStack.Proofs.Machine.Points

/-!
Where faults come from. Every fault of a run in sound states is raised by an instruction that the
run reaches, and what an instruction can raise is listed.
-/

namespace LetStack

variable {rule : Rule}

inductive Fault.OfOperands : Fault → Prop
  | operandKinds (operator : Operator) (left right : String) :
      OfOperands (.operandKinds operator left right)
  | overflow (operator : Operator) (left right : Int) : OfOperands (.overflow operator left right)
  | divisionByZero : OfOperands .divisionByZero

theorem Operator.apply_error {operator : Operator} {left right : Value} {fault : Fault}
    (failed : operator.apply left right = .error fault) : fault.OfOperands := by
  unfold apply at failed
  split at failed
  · rename_i first second
    cases computed : operator.onInts first second with
    | error stop =>
        simp only [computed, Bind.bind, Except.bind, Except.error.injEq] at failed
        rw [← failed, (onInts_error_iff.1 computed).2]
        exact .divisionByZero
    | ok result =>
        simp only [computed, Bind.bind, Except.bind] at failed
        split at failed
        · simp at failed
        · rw [← Except.error.inj failed]
          exact .overflow _ _ _
  · rename_i first second
    cases computed : operator.onFloats first second with
    | error stop =>
        simp only [computed, Bind.bind, Except.bind, Except.error.injEq] at failed
        rw [← failed, onFloats_error computed]
        exact .divisionByZero
    | ok result => simp [computed, Bind.bind, Except.bind] at failed
  · rw [← Except.error.inj failed]
    exact .operandKinds _ _ _

/-- What an instruction can complain about in a sound state, other than what comes out of a body
that it runs. -/
inductive Instr.Raises (before : State) : Instr → Fault → Prop
  | fewOperands {operator : Operator} : before.stack.length < 2 →
      Raises before (.arithmetic operator) (.underflow operator.kind)
  | operands {operator : Operator} {fault : Fault} : fault.OfOperands →
      Raises before (.arithmetic operator) fault
  | missing {name : String} : before.env.symbols.contains name = false →
      Raises before (.lookup name) (.missingVariable name)
  | nothingToStore {name : String} : before.stack = [] →
      Raises before (.store name) (.underflow "store")
  | fewArguments {argCount : Nat} : before.stack.length ≤ argCount →
      Raises before (.call argCount) (.underflow "call")
  | notCallable {argCount : Nat} {callee : Value} {below : List Value} :
      before.stack = callee :: below →
      (∀ params body captured, callee ≠ .closure params body captured) →
      Raises before (.call argCount) (.notCallable callee.kind)
  | argumentCount {argCount : Nat} {params : List String} {body : List Instr}
      {captured : Environment} {below : List Value} :
      before.stack = .closure params body captured :: below → argCount ≠ params.length →
      Raises before (.call argCount) (.argumentCount params.length argCount)

namespace Instr

variable {depth : Nat} {instr : Instr} {before after : State} {fault : Fault}

theorem Raises.of_refuses {argCount : Nat} (sound : before.Sound rule)
    (refused : before.Refuses argCount fault after) : (call argCount).Raises before fault := by
  cases refused with
  | underflow few => exact .fewArguments few
  | notCallable shape _ notClosure => exact .notCallable shape notClosure
  | argumentCount shape _ wrong => exact .argumentCount shape wrong
  | lostArgument shape _ _ lost =>
      -- a sound state has no argument to lose
      obtain ⟨_, start, seeded, _⟩ := sound.seeds shape
      rw [seeded] at lost
      cases lost

theorem Raises.of_arithmetic {operator : Operator}
    (stopped : some fault = (before.arithmetic operator).fault) :
    (arithmetic operator).Raises before fault := by
  obtain ⟨stack, env⟩ := before
  match stack with
  | [] =>
      rw [Option.some.inj stopped]
      exact .fewOperands Nat.two_pos
  | [_] =>
      rw [Option.some.inj stopped]
      exact .fewOperands Nat.one_lt_two
  | right :: left :: rest =>
      cases applied : operator.apply left right with
      | ok result => simp [State.arithmetic, applied, State.done] at stopped
      | error stop =>
          simp only [State.arithmetic, applied, State.fail, Option.some.injEq] at stopped
          rw [stopped]
          exact .operands (Operator.apply_error applied)

theorem Raises.of_lookup {name : String} (sound : before.Sound rule)
    (stopped : some fault = (before.lookup name).fault) : (lookup name).Raises before fault := by
  obtain ⟨stack, env⟩ := before
  cases bound : env.symbols.contains name with
  | true =>
      obtain ⟨hops, target, binds⟩ := sound.env.readable name bound
      obtain ⟨value, found, _⟩ := State.lookup_of_binds stack binds
      simp [found, State.done] at stopped
  | false =>
      rw [State.lookup_of_unbound stack ((Table.contains_eq_false_iff _ _).1 bound), State.fail,
        Option.some.injEq] at stopped
      rw [stopped]
      exact .missing bound

theorem Acts.raised (closed : rule.Closed) (acts : instr.Acts depth before (some fault) after)
    (sound : before.Sound rule) : instr.Raises before fault ∨
      ∃ argCount entry callee, instr = .call argCount ∧ before.Enters argCount entry ∧
        Ends depth entry.body entry.start (some fault) callee := by
  cases instr with
  | pushLiteral value => simp [acts_pushLiteral_iff] at acts
  | allocateBytes content => simp [acts_allocateBytes_iff] at acts
  | makeClosure params body => simp [acts_makeClosure_iff] at acts
  | arithmetic operator => exact Or.inl (.of_arithmetic (acts_arithmetic_iff.1 acts).1)
  | lookup name => exact Or.inl (.of_lookup sound (acts_lookup_iff.1 acts).1)
  | store name =>
      obtain ⟨stopped, _⟩ := acts_store_iff.1 acts
      obtain ⟨stack, env⟩ := before
      cases stack with
      | nil =>
          rw [Option.some.inj stopped]
          exact Or.inl (.nothingToStore rfl)
      | cons value rest => simp [State.store, State.done] at stopped
  | call argCount =>
      rcases acts_call_cases acts with ⟨stop, same, refused⟩ |
        ⟨entry, ended, callee, entered, ran, left⟩
      · cases same
        exact Or.inl (.of_refuses sound refused)
      · have calleeSound := sound.callee closed entered ran
        obtain ⟨rfl, _⟩ := sound.returns entered calleeSound left
        exact Or.inr ⟨argCount, entry, callee, rfl, entered, ran⟩

end Instr

theorem Ends.raised {depth : Nat} {code : List Instr} {before after : State} {fault : Fault}
    (ends : Ends depth code before (some fault) after) (closed : rule.Closed)
    (sound : before.Sound rule) (allowed : rule code before.env.symbols) :
    ∃ instr later state,
      Reaches code before (instr :: later) state ∧ instr.Raises state fault := by
  generalize failed : some fault = stop at ends
  induction ends using Ends.induction with
  | nil => cases failed
  | stop later bodies acts =>
      obtain rfl := Option.some.inj failed
      rcases acts.raised closed sound with own | ⟨argCount, entry, callee, rfl, entered, ran⟩
      · exact ⟨_, later, _, .start, own⟩
      · obtain ⟨startSound, symbols, bodyAllowed⟩ := sound.enters entered
        obtain ⟨inner, left, state, reached, own⟩ :=
          bodies ran startSound (symbols ▸ bodyAllowed) rfl
        exact ⟨inner, left, state, (Reaches.enter .start entered).trans reached, own⟩
  | next _ acts _ ih =>
      obtain ⟨inner, left, state, reached, own⟩ := ih
        (acts.sound closed (fun ran => ran.sound closed) sound allowed) (acts.rest closed allowed)
        failed
      exact ⟨inner, left, state, (Reaches.next .start acts).trans reached, own⟩

theorem Ends.ne_missing (closed : rule.Closed) (binds : rule.Binds) {depth : Nat} {name : String}
    {code : List Instr} {before : State} {fault : Option Fault} {after : State}
    (ends : Ends depth code before fault after) (sound : before.Sound rule)
    (allowed : rule code before.env.symbols) : fault ≠ some (.missingVariable name) := by
  rintro rfl
  obtain ⟨instr, later, state, reached, own⟩ := ends.raised closed sound allowed
  obtain ⟨_, allowedThere⟩ := reached.sound closed sound allowed
  cases own with
  | operands ofOperands => cases ofOperands
  | missing unbound => simp [binds allowedThere] at unbound

theorem Reaches.ne_missing {code later : List Instr} {start before after : State} {instr : Instr}
    {depth : Nat} {fault : Option Fault} (closed : rule.Closed) (binds : rule.Binds)
    (reached : Reaches code start (instr :: later) before) (sound : start.Sound rule)
    (allowed : rule code start.env.symbols) (acts : instr.Acts depth before fault after)
    (name : String) : fault ≠ some (.missingVariable name) := by
  obtain ⟨soundBefore, allowedBefore⟩ := reached.sound closed sound allowed
  rintro rfl
  have ends : Ends (depth + 1) (instr :: later) before (some (.missingVariable name)) after :=
    ends_cons_iff.2 (Or.inl ⟨rfl, acts⟩)
  exact ends.ne_missing closed binds soundBefore allowedBefore rfl

end LetStack
