import LetStack.Proofs.Machine.Stopping
import LetStack.Proofs.Operands.Heights

/-!
Entries that lie below what code takes have no part in its run: it does on top of them what it does
without them, down to the environment that it leaves, and so does every body that it enters.
-/

namespace LetStack

def State.onto (state : State) (below : List Value) : State :=
  { state with stack := state.stack ++ below }

def Effect.onto (effect : Effect) (below : List Value) : Effect :=
  { effect with state := effect.state.onto below }

theorem State.leaveCall_onto (caller : State) (params : List String) (ending : Ending Instr)
    (below : List Value) :
    (caller.onto below).leaveCall params ending = (caller.leaveCall params ending).onto below := by
  simp only [leaveCall, onto]
  split
  · rfl
  · split
    · rfl
    · split <;> rfl

section

variable {runBody : List Instr → State → Option (Ending Instr)} {before : State}

theorem State.enterCall_onto (caller : State) (popped : List Value) (params : List String)
    (body : List Instr) (captured : Environment) (below : List Value) :
    (caller.onto below).enterCall runBody popped params body captured =
      (caller.enterCall runBody popped params body captured).map (·.onto below) := by
  have sameEnv : (caller.onto below).env = caller.env := rfl
  simp only [enterCall, sameEnv]
  split
  · split
    · rfl
    · simp only [leaveCall_onto, Option.map_map]
      rfl
  · rfl

theorem State.call_onto {argCount : Nat} (enough : argCount < before.stack.length)
    (below : List Value) :
    (before.onto below).call runBody argCount =
      (before.call runBody argCount).map (·.onto below) := by
  obtain ⟨stack, env⟩ := before
  obtain ⟨callee, popped, rest, rfl, rfl⟩ := exists_split enough
  have longer : State.onto ⟨callee :: (popped ++ rest), env⟩ below =
      ⟨callee :: (popped ++ (rest ++ below)), env⟩ := by
    simp only [onto, List.cons_append, List.append_assoc]
  rw [longer]
  by_cases closure : ∃ params body captured, callee = .closure params body captured
  · obtain ⟨params, body, captured, rfl⟩ := closure
    rw [call_of_closure, call_of_closure]
    exact enterCall_onto ⟨rest, env⟩ popped params body captured below
  · have notClosure : ∀ params body captured, callee ≠ .closure params body captured :=
      fun params body captured same => closure ⟨params, body, captured, same⟩
    rw [call_of_not_closure _ _ _ notClosure, call_of_not_closure _ _ _ notClosure]
    rfl

/-- An instruction that finds all that it takes does not see what lies below: whatever runs the
bodies, it is asked for the same, and what comes of it is the same, the events included. -/
theorem Instr.step_onto {instr : Instr} (enough : instr.pops ≤ before.stack.length)
    (below : List Value) :
    instr.step runBody (before.onto below) =
      (instr.step runBody before).map (·.onto below) := by
  cases instr with
  | pushLiteral _ | allocateBytes _ | makeClosure _ _ => rfl
  | arithmetic operator =>
      obtain ⟨stack, env⟩ := before
      match stack with
      | [] => simp [pops] at enough
      | [_] => simp [pops] at enough
      | right :: left :: rest =>
          simp only [step, State.onto, State.arithmetic, List.cons_append]
          split <;> rfl
  | lookup name =>
      simp only [step, State.onto, State.lookup]
      split
      · rfl
      · split <;> rfl
  | store name =>
      obtain ⟨stack, env⟩ := before
      cases stack with
      | nil => simp [pops] at enough
      | cons value rest => rfl
  | call argCount => exact State.call_onto enough below

end

variable {depth argCount : Nat} {before after : State} {fault : Option Fault} {code later : List Instr}

namespace Instr

variable {instr : Instr}

theorem acts_onto_iff (enough : instr.pops ≤ before.stack.length) (below : List Value) :
    instr.Acts depth (before.onto below) fault after ↔
      ∃ own, instr.Acts depth before fault own ∧ after = own.onto below := by
  simp only [Acts, step_onto enough below, Option.map_eq_some_iff]
  constructor
  · rintro ⟨_, ⟨own, stop, events⟩, stepped, same⟩
    simp only [Effect.onto, Effect.mk.injEq] at same
    obtain ⟨rfl, rfl, _⟩ := same
    exact ⟨own, ⟨events, stepped⟩, rfl⟩
  · rintro ⟨own, ⟨events, stepped⟩, rfl⟩
    exact ⟨events, _, stepped, rfl⟩

theorem Acts.onto (acts : instr.Acts depth before fault after)
    (enough : instr.pops ≤ before.stack.length) (below : List Value) :
    instr.Acts depth (before.onto below) fault (after.onto below) :=
  (acts_onto_iff enough below).2 ⟨after, acts, rfl⟩

theorem Acts.enough (acts : instr.Acts depth before none after) :
    instr.pops ≤ before.stack.length := by
  obtain ⟨_, ⟨enough, _⟩, _⟩ := acts.exchanges
  exact enough

theorem acts_of_short (few : before.stack.length < instr.pops) :
    instr.Acts depth before (some (.underflow instr.kind)) { before with stack := [] } := by
  obtain ⟨stack, env⟩ := before
  cases instr with
  | pushLiteral _ | allocateBytes _ | makeClosure _ _ | lookup _ => simp [pops] at few
  | arithmetic operator =>
      rcases stack with _ | ⟨_, _ | _⟩
      · exact acts_arithmetic_iff.2 ⟨rfl, rfl⟩
      · exact acts_arithmetic_iff.2 ⟨rfl, rfl⟩
      · simp only [pops, List.length_cons] at few
        omega
  | store name =>
      cases stack with
      | nil => exact acts_store_iff.2 ⟨rfl, rfl⟩
      | cons _ _ => simp [pops] at few
  | call argCount => exact acts_call_of_refuses (.underflow (Nat.le_of_lt_succ few))

end Instr

theorem State.Enters.onto {entry : Activation} (entered : before.Enters argCount entry)
    (below : List Value) :
    (before.onto below).Enters argCount { entry with caller := entry.caller.onto below } := by
  obtain ⟨popped, shape, count, arity, sameEnv, seeded⟩ := entered
  refine ⟨popped, ?_, count, arity, sameEnv, seeded⟩
  simp only [State.onto, shape, List.cons_append, List.append_assoc]

theorem Ends.finished_onto (finished : Ends depth code before none after) (below : List Value) :
    Ends depth code (before.onto below) none (after.onto below) := by
  induction finished using Ends.finished_induction with
  | nil => exact ends_nil_iff.2 ⟨rfl, rfl⟩
  | next acts _ ih => exact finished_cons_iff.2 ⟨_, acts.onto acts.enough below, ih⟩

/-- An instruction of the code itself, not of a body that it enters, finds fewer entries than it
takes. -/
def RunsShort (code : List Instr) (before : State) : Prop :=
  ∃ depth done instr later middle, code = done ++ instr :: later ∧
    Ends depth done before none middle ∧ middle.stack.length < instr.pops

namespace RunsShort

theorem ends (short : RunsShort code before) : ∃ depth kind env,
    Ends depth code before (some (.underflow kind)) ⟨[], env⟩ := by
  obtain ⟨depth, done, instr, later, middle, rfl, finished, few⟩ := short
  cases depth with
  | zero => exact absurd finished not_ends_zero
  | succ depth =>
      have stopped : Ends (depth + 1) (instr :: later) middle (some (.underflow instr.kind)) _ :=
        ends_cons_iff.2 (Or.inl ⟨rfl, Instr.acts_of_short few⟩)
      exact ⟨depth + 1, instr.kind, middle.env, finished.append stopped⟩

theorem of_next {instr : Instr} {middle : State} (acts : instr.Acts depth before none middle)
    (short : RunsShort later middle) : RunsShort (instr :: later) before := by
  obtain ⟨other, done, last, rest, state, rfl, finished, few⟩ := short
  have deep := finished.deepen (Nat.le_succ_of_le (Nat.le_max_right depth other))
  have first := acts.deepen (Nat.le_max_left depth other)
  exact ⟨max depth other + 1, instr :: done, last, rest, state, rfl,
    finished_cons_iff.2 ⟨middle, first, deep⟩, few⟩

theorem enough_of_not {instr : Instr} (ample : ¬ RunsShort (instr :: later) before) :
    instr.pops ≤ before.stack.length :=
  Nat.le_of_not_lt fun few => ample ⟨1, [], instr, later, before, rfl, ends_nil_iff.2 ⟨rfl, rfl⟩, few⟩

end RunsShort

theorem Instr.Acts.of_onto {instr : Instr} {below : List Value}
    (acts : instr.Acts depth (before.onto below) none after)
    (ample : ¬ RunsShort (instr :: later) before) :
    ∃ own, after = own.onto below ∧ instr.Acts depth before none own ∧ ¬ RunsShort later own := by
  obtain ⟨own, actsOwn, rfl⟩ := (acts_onto_iff (RunsShort.enough_of_not ample) below).1 acts
  exact ⟨own, rfl, actsOwn, fun short => ample (.of_next actsOwn short)⟩

theorem State.Enters.of_onto {entry : Activation} {below : List Value}
    (entered : (before.onto below).Enters argCount entry)
    (ample : ¬ RunsShort (.call argCount :: later) before) :
    ∃ caller, before.Enters argCount { entry with caller := caller } := by
  obtain ⟨popped, shape, count, arity, _, seeded⟩ := entered
  obtain ⟨callee, taken, rest, own, length⟩ := exists_split (RunsShort.enough_of_not ample)
  simp only [State.onto, own, List.cons_append, List.append_assoc, List.cons.injEq] at shape
  obtain ⟨rfl, operands⟩ := shape
  obtain ⟨rfl, _⟩ := List.append_inj operands (length.trans count.symm)
  exact ⟨⟨rest, before.env⟩, taken, own, count, arity, rfl, seeded⟩

def ReachesInside (code : List Instr) (before : State) (later : List Instr) (state : State) : Prop :=
  ∃ argCount rest caller entry, Reaches code before (.call argCount :: rest) caller ∧
    caller.Enters argCount entry ∧ Reaches entry.body entry.start later state

theorem ReachesInside.trans {last : List Instr} {state final : State}
    (inside : ReachesInside code before later state) (further : Reaches later state last final) :
    ReachesInside code before last final := by
  obtain ⟨argCount, rest, caller, entry, reached, entered, point⟩ := inside
  exact ⟨argCount, rest, caller, entry, reached, entered, point.trans further⟩

theorem Fails.onto {stop : Fault} {pending : List Instr}
    (fails : Fails depth code before stop pending after) (ample : ¬ RunsShort code before)
    (below : List Value) :
    Fails depth code (before.onto below) stop pending (after.onto below) := by
  cases depth with
  | zero => exact absurd fails.ends not_ends_zero
  | succ depth =>
      obtain ⟨done, instr, middle, rfl, finished, acts⟩ := fails_iff_split.1 fails
      have enough : instr.pops ≤ middle.stack.length := Nat.le_of_not_lt fun few =>
        ample ⟨depth + 1, done, instr, pending, middle, rfl, finished, few⟩
      exact fails_iff_split.2 ⟨done, instr, middle.onto below, rfl, finished.finished_onto below,
        acts.onto enough below⟩

namespace Reaches

variable {state : State}

theorem onto (reached : Reaches code before later state) (below : List Value) :
    Reaches code (before.onto below) later (state.onto below) ∨
      ReachesInside code (before.onto below) later state := by
  induction reached with
  | start => exact Or.inl .start
  | next _ acts ih =>
      rcases ih with own | inside
      · exact Or.inl (.next own (acts.onto acts.enough below))
      · exact Or.inr (inside.trans (.next .start acts))
  | enter _ entered ih =>
      rcases ih with own | inside
      · exact Or.inr ⟨_, _, _, _, own, entered.onto below, .start⟩
      · exact Or.inr (inside.trans (.enter .start entered))

theorem of_onto {below : List Value} (reached : Reaches code (before.onto below) later state)
    (ample : ¬ RunsShort code before) :
    (∃ own, state = own.onto below ∧ Reaches code before later own ∧ ¬ RunsShort later own) ∨
      ReachesInside code before later state := by
  induction reached with
  | start => exact Or.inl ⟨before, rfl, .start, ample⟩
  | next _ acts ih =>
      rcases ih with ⟨own, rfl, reached, ample⟩ | inside
      · obtain ⟨after, rfl, actsOwn, ampleAfter⟩ := acts.of_onto ample
        exact Or.inl ⟨after, rfl, .next reached actsOwn, ampleAfter⟩
      · exact Or.inr (inside.trans (.next .start acts))
  | enter _ entered ih =>
      rcases ih with ⟨own, rfl, reached, ample⟩ | inside
      · obtain ⟨caller, enteredOwn⟩ := entered.of_onto ample
        exact Or.inr ⟨_, _, _, _, reached, enteredOwn, .start⟩
      · exact Or.inr (inside.trans (.enter .start entered))

end Reaches

/-- Code that finishes does so on any entries below, and so does code that fails, unless it fails by
taking more than there is on its own stack. What goes on inside the bodies that it enters is the same,
point by point and thus with the same stacks and faults. -/
theorem stack_is_framed (code : List Instr) (before : State) (below : List Value) :
    (∀ depth after, Ends depth code before none after →
      Ends depth code (before.onto below) none (after.onto below)) ∧
    (∀ depth fault pending after, Fails depth code before fault pending after →
      ¬ RunsShort code before →
      Fails depth code (before.onto below) fault pending (after.onto below)) ∧
    (RunsShort code before →
      ∃ depth kind env, Ends depth code before (some (.underflow kind)) ⟨[], env⟩) ∧
    (∀ later state, ReachesInside code before later state →
      ReachesInside code (before.onto below) later state) ∧
    (¬ RunsShort code before → ∀ later state,
      ReachesInside code (before.onto below) later state →
      ReachesInside code before later state) := by
  refine ⟨fun _ _ finished => finished.finished_onto below, ?_, RunsShort.ends, ?_, ?_⟩
  · intro depth fault pending after fails ample
    exact fails.onto ample below
  · rintro later state ⟨argCount, rest, caller, entry, reached, entered, point⟩
    rcases reached.onto below with own | inside
    · exact ⟨argCount, rest, _, _, own, entered.onto below, point⟩
    · exact inside.trans ((Reaches.enter .start entered).trans point)
  · rintro ample later state ⟨argCount, rest, caller, entry, reached, entered, point⟩
    rcases reached.of_onto ample with ⟨own, rfl, reachedOwn, ampleThere⟩ | inside
    · obtain ⟨_, enteredOwn⟩ := entered.of_onto ampleThere
      exact ⟨argCount, rest, own, _, reachedOwn, enteredOwn, point⟩
    · exact inside.trans ((Reaches.enter .start entered).trans point)

def addsInside : List Instr := [.makeClosure [] [.arithmetic .add], .call 0, .store "x"]

theorem stack_is_framed_inside :
    let before : State := ⟨[.int 1], .empty⟩
    let below : List Value := [.int 2, .int 3]
    Fails 2 addsInside before (.underflow "add") [.store "x"] before ∧
      ¬ RunsShort addsInside before ∧
      Fails 2 addsInside (before.onto below) (.underflow "add") [.store "x"] (before.onto below) ∧
      ReachesInside addsInside (before.onto below) [.arithmetic .add] ⟨[], .empty⟩ := by
  intro before below
  have fails : Fails 2 addsInside before (.underflow "add") [.store "x"] before := ⟨_, rfl⟩
  have ample : ¬ RunsShort addsInside before := by
    intro short
    obtain ⟨depth, kind, env, ends⟩ := short.ends
    have same := (fails.ends.unique ends).2
    cases congrArg State.stack same
  have first : Ends 1 [.makeClosure [] [.arithmetic .add]] before none _ := ⟨_, _, rfl⟩
  have inside : ReachesInside addsInside before [.arithmetic .add] ⟨[], .empty⟩ :=
    ⟨0, [.store "x"], _, ⟨[], [.arithmetic .add], .empty, before, ⟨[], .empty⟩⟩, .of_ends first,
      ⟨[], rfl, rfl, rfl, rfl, rfl⟩, .start⟩
  obtain ⟨_, failsOn, _, insideOn, _⟩ := stack_is_framed addsInside before below
  exact ⟨fails, ample, failsOn _ _ _ _ fails ample, insideOn _ _ inside⟩

end LetStack
