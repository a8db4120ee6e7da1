import LetStack.Proofs.Machine.Steps

/-!
What a call does. It is refused, or it enters the body of a closure; however the body ends, the
caller then absorbs what the callee has made of the names that both know.
-/

namespace LetStack

structure Activation where
  params : List String
  body : List Instr
  captured : Environment
  caller : State
  start : State

/-- The last argument lies right under the closure. -/
def State.Enters (state : State) (argCount : Nat) (entry : Activation) : Prop :=
  ∃ popped, state.stack = .closure entry.params entry.body entry.captured ::
      (popped ++ entry.caller.stack) ∧
    popped.length = argCount ∧ argCount = entry.params.length ∧ entry.caller.env = state.env ∧
    seed state.env popped ⟨[], entry.captured⟩ = .ok entry.start

theorem State.Enters.unique {before : State} {argCount : Nat} {entry other : Activation}
    (entered : before.Enters argCount entry) (also : before.Enters argCount other) :
    entry = other := by
  obtain ⟨params, body, captured, ⟨stack, env⟩, start⟩ := entry
  obtain ⟨otherParams, otherBody, otherCaptured, ⟨otherStack, otherEnv⟩, otherStart⟩ := other
  obtain ⟨popped, shape, count, _, sameEnv, seeded⟩ := entered
  obtain ⟨otherPopped, otherShape, otherCount, _, otherEnv, otherSeeded⟩ := also
  simp only at shape sameEnv seeded otherShape otherEnv otherSeeded
  rw [shape, List.cons.injEq, Value.closure.injEq] at otherShape
  obtain ⟨⟨rfl, rfl, rfl⟩, remaining⟩ := otherShape
  obtain ⟨rfl, rfl⟩ := List.append_inj remaining (count.trans otherCount.symm)
  rw [seeded, Except.ok.injEq] at otherSeeded
  rw [sameEnv, otherEnv, otherSeeded]

inductive State.Refuses (state : State) (argCount : Nat) : Fault → State → Prop
  | underflow : state.stack.length ≤ argCount →
      Refuses state argCount (.underflow "call") { state with stack := [] }
  | notCallable {callee popped below} : state.stack = callee :: (popped ++ below) →
      popped.length = argCount → (∀ params body captured, callee ≠ .closure params body captured) →
      Refuses state argCount (.notCallable callee.kind) ⟨below, state.env⟩
  | argumentCount {params body captured popped below} :
      state.stack = .closure params body captured :: (popped ++ below) → popped.length = argCount →
      argCount ≠ params.length →
      Refuses state argCount (.argumentCount params.length argCount) ⟨below, state.env⟩
  | lostArgument {params body captured popped below fault} :
      state.stack = .closure params body captured :: (popped ++ below) → popped.length = argCount →
      argCount = params.length → seed state.env popped ⟨[], captured⟩ = .error fault →
      Refuses state argCount fault ⟨below, state.env⟩

theorem State.Refuses.env_eq {state after : State} {argCount : Nat} {fault : Fault}
    (refused : state.Refuses argCount fault after) : after.env = state.env := by
  cases refused <;> rfl

theorem State.Refuses.stack_subset {state after : State} {argCount : Nat} {fault : Fault}
    (refused : state.Refuses argCount fault after) : after.stack ⊆ state.stack := by
  cases refused with
  | underflow _ => exact List.nil_subset _
  | notCallable shape _ _ => simp [shape]
  | argumentCount shape _ _ => simp [shape]
  | lostArgument shape _ _ _ => simp [shape]

def State.Leaves (caller : State) (params : List String) (ended : Option Fault) (callee : State)
    (fault : Option Fault) (after : State) : Prop :=
  (caller.leaveCall params ⟨callee, ended, [], []⟩).fault = fault ∧
    (caller.leaveCall params ⟨callee, ended, [], []⟩).state = after

theorem State.Leaves.unique {caller callee after also : State} {params : List String}
    {ended fault other : Option Fault} (left : caller.Leaves params ended callee fault after)
    (leftToo : caller.Leaves params ended callee other also) : fault = other ∧ after = also :=
  ⟨left.1.symm.trans leftToo.1, left.2.symm.trans leftToo.2⟩

theorem leaveCall_of_events (caller : State) (params : List String) (ending : Ending Instr) :
    (caller.leaveCall params ending).fault =
        (caller.leaveCall params ⟨ending.state, ending.fault, [], []⟩).fault ∧
      (caller.leaveCall params ending).state =
        (caller.leaveCall params ⟨ending.state, ending.fault, [], []⟩).state := by
  obtain ⟨callee, ended, pending, events⟩ := ending
  simp only [State.leaveCall]
  split
  · exact ⟨rfl, rfl⟩
  · split
    · exact ⟨rfl, rfl⟩
    · split <;> exact ⟨rfl, rfl⟩

section

variable {runBody : List Instr → State → Option (Ending Instr)}

theorem call_of_short {state : State} {argCount : Nat} (few : state.stack.length ≤ argCount) :
    state.call runBody argCount = some (state.underflow "call") := by
  obtain ⟨stack, env⟩ := state
  cases stack with
  | nil => rfl
  | cons callee below =>
      have less : below.length < argCount := few
      simp only [State.call, less, if_true]

theorem call_of_closure (params : List String) (body : List Instr) (captured : Environment)
    (popped below : List Value) (env : Environment) :
    State.call runBody ⟨.closure params body captured :: (popped ++ below), env⟩ popped.length =
      State.enterCall runBody ⟨below, env⟩ popped params body captured := by
  have enough : ¬ (popped ++ below).length < popped.length := by
    rw [List.length_append]
    omega
  simp only [State.call, enough, if_false, List.take_left, List.drop_left]

theorem call_of_not_closure {callee : Value} (popped below : List Value) (env : Environment)
    (notClosure : ∀ params body captured, callee ≠ .closure params body captured) :
    State.call runBody ⟨callee :: (popped ++ below), env⟩ popped.length =
      some (State.fail ⟨below, env⟩ (.notCallable callee.kind)) := by
  have enough : ¬ (popped ++ below).length < popped.length := by
    rw [List.length_append]
    omega
  cases callee with
  | closure params body captured => exact absurd rfl (notClosure params body captured)
  | _ => simp only [State.call, enough, if_false, List.drop_left]

theorem exists_split {stack : List Value} {argCount : Nat} (enough : argCount < stack.length) :
    ∃ callee popped below, stack = callee :: (popped ++ below) ∧ popped.length = argCount := by
  cases stack with
  | nil => simp at enough
  | cons callee below =>
      refine ⟨callee, below.take argCount, below.drop argCount, ?_, ?_⟩
      · rw [List.take_append_drop]
      · have bound : argCount < below.length + 1 := enough
        rw [List.length_take]
        omega

end

theorem State.refuses_or_enters (state : State) (argCount : Nat) :
    (∃ stop after, state.Refuses argCount stop after) ∨ ∃ entry, state.Enters argCount entry := by
  by_cases few : state.stack.length ≤ argCount
  · exact Or.inl ⟨_, _, .underflow few⟩
  · obtain ⟨callee, popped, below, shape, count⟩ := exists_split (Nat.lt_of_not_le few)
    by_cases closure : ∃ params body captured, callee = .closure params body captured
    · obtain ⟨params, body, captured, rfl⟩ := closure
      by_cases arity : argCount = params.length
      · cases seeded : State.seed state.env popped ⟨[], captured⟩ with
        | error lost => exact Or.inl ⟨_, _, .lostArgument shape count arity seeded⟩
        | ok start =>
            exact Or.inr ⟨⟨params, body, captured, ⟨below, state.env⟩, start⟩, popped, shape, count,
              arity, rfl, seeded⟩
      · exact Or.inl ⟨_, _, .argumentCount shape count arity⟩
    · have notClosure : ∀ params body captured, callee ≠ .closure params body captured :=
        fun params body captured same => closure ⟨params, body, captured, same⟩
      exact Or.inl ⟨_, _, .notCallable shape count notClosure⟩

theorem State.Enters.call_eq {state : State} {argCount : Nat} {entry : Activation}
    (entered : state.Enters argCount entry)
    (runBody : List Instr → State → Option (Ending Instr)) :
    state.call runBody argCount = (runBody entry.body entry.start).map fun ending =>
      let effect := entry.caller.leaveCall entry.params ending
      { effect with events := .called argCount entry.captured.symbols.length :: effect.events } := by
  obtain ⟨popped, shape, count, arity, sameEnv, seeded⟩ := entered
  obtain ⟨stack, env⟩ := state
  obtain ⟨params, body, captured, ⟨below, callerEnv⟩, start⟩ := entry
  simp only at shape arity sameEnv seeded
  subst sameEnv shape count
  rw [call_of_closure, State.enterCall, if_pos arity, seeded]

theorem State.Enters.not_refuses {state after : State} {argCount : Nat} {entry : Activation}
    {stop : Fault} (entered : state.Enters argCount entry) : ¬ state.Refuses argCount stop after := by
  obtain ⟨popped, shape, count, arity, _, seeded⟩ := entered
  intro refused
  cases refused with
  | underflow few =>
      rw [shape, List.length_cons, List.length_append, count] at few
      omega
  | notCallable otherShape _ notClosure =>
      rw [shape, List.cons.injEq] at otherShape
      exact notClosure _ _ _ otherShape.1.symm
  | argumentCount otherShape _ wrong =>
      rw [shape, List.cons.injEq, Value.closure.injEq] at otherShape
      exact wrong (otherShape.1.1 ▸ arity)
  | lostArgument otherShape otherCount _ lost =>
      rw [shape, List.cons.injEq, Value.closure.injEq] at otherShape
      obtain ⟨⟨_, _, rfl⟩, remaining⟩ := otherShape
      obtain ⟨rfl, _⟩ := List.append_inj remaining (count.trans otherCount.symm)
      rw [seeded] at lost
      cases lost

namespace Instr

variable {depth argCount : Nat} {before after : State} {fault : Option Fault}

theorem acts_call_of_refuses {stop : Fault} (refused : before.Refuses argCount stop after) :
    (call argCount).Acts depth before (some stop) after := by
  cases refused with
  | underflow few => exact ⟨[], call_of_short few⟩
  | notCallable shape count notClosure =>
      obtain ⟨stack, env⟩ := before
      subst shape count
      exact ⟨[], call_of_not_closure _ _ _ notClosure⟩
  | argumentCount shape count arity =>
      obtain ⟨stack, env⟩ := before
      subst shape count
      refine ⟨[], (call_of_closure _ _ _ _ _ _).trans ?_⟩
      simp [State.enterCall, arity, State.fail]
  | lostArgument shape count arity seeded =>
      obtain ⟨stack, env⟩ := before
      subst shape count
      refine ⟨[], (call_of_closure _ _ _ _ _ _).trans ?_⟩
      simp only at seeded
      simp [State.enterCall, arity, seeded, State.fail]

theorem acts_call_of_enters {entry : Activation} {ended : Option Fault} {callee : State}
    (entered : before.Enters argCount entry) (ran : Ends depth entry.body entry.start ended callee)
    (left : entry.caller.Leaves entry.params ended callee fault after) :
    (call argCount).Acts depth before fault after := by
  obtain ⟨pending, events, ran⟩ := ran
  obtain ⟨faultEq, stateEq⟩ := leaveCall_of_events entry.caller entry.params
    ⟨callee, ended, pending, events⟩
  refine ⟨.called argCount entry.captured.symbols.length ::
    (entry.caller.leaveCall entry.params ⟨callee, ended, pending, events⟩).events,
    (entered.call_eq (execute depth)).trans ?_⟩
  rw [ran, Option.map_some, Option.some.injEq, Effect.mk.injEq]
  exact ⟨stateEq.trans left.2, faultEq.trans left.1, rfl⟩

theorem acts_call_cases (acts : (call argCount).Acts depth before fault after) :
    (∃ stop, fault = some stop ∧ before.Refuses argCount stop after) ∨
      ∃ entry ended callee, before.Enters argCount entry ∧
        Ends depth entry.body entry.start ended callee ∧
        entry.caller.Leaves entry.params ended callee fault after := by
  rcases before.refuses_or_enters argCount with ⟨stop, stopped, refused⟩ | ⟨entry, entered⟩
  · obtain ⟨rfl, rfl⟩ := acts.unique (acts_call_of_refuses refused)
    exact Or.inl ⟨stop, rfl, refused⟩
  · obtain ⟨events, stepped⟩ := acts
    obtain ⟨ending, ran, same⟩ :=
      Option.map_eq_some_iff.1 ((entered.call_eq (execute depth)).symm.trans stepped)
    obtain ⟨faultEq, stateEq⟩ := leaveCall_of_events entry.caller entry.params ending
    rw [Effect.mk.injEq] at same
    exact Or.inr ⟨entry, ending.fault, ending.state, entered, ⟨ending.pending, ending.events, ran⟩,
      faultEq.symm.trans same.2.1, stateEq.symm.trans same.1⟩

end Instr

end LetStack
