import LetStack.Proofs.Machine.Depth
import LetStack.Proofs.Machine.Literals

/-!
Runs that fail. What comes before the failing instruction is done in full, what comes after it never
begins, and the instruction itself changes nothing but by the merge after a call whose body has failed.
-/

namespace LetStack

def Fails (depth : Nat) (code : List Instr) (before : State) (fault : Fault) (pending : List Instr)
    (after : State) : Prop :=
  ∃ events, execute depth code before = some ⟨after, some fault, pending, events⟩

theorem Fails.ends {depth : Nat} {code pending : List Instr} {before after : State} {fault : Fault}
    (fails : Fails depth code before fault pending after) :
    Ends depth code before (some fault) after := by
  obtain ⟨events, executed⟩ := fails
  exact ⟨pending, events, executed⟩

theorem Ends.fails {depth : Nat} {code : List Instr} {before after : State} {fault : Fault}
    (ends : Ends depth code before (some fault) after) :
    ∃ pending, Fails depth code before fault pending after := by
  obtain ⟨pending, events, executed⟩ := ends
  exact ⟨pending, events, executed⟩

theorem fails_cons_iff {depth : Nat} {instr : Instr} {rest pending : List Instr}
    {before after : State} {fault : Fault} :
    Fails (depth + 1) (instr :: rest) before fault pending after ↔
      (instr.Acts depth before (some fault) after ∧ pending = rest) ∨
        ∃ middle, instr.Acts depth before none middle ∧
          Fails (depth + 1) rest middle fault pending after := by
  constructor
  · rintro ⟨events, executed⟩
    simp only [execute, drain] at executed
    split at executed
    · cases executed
    · rename_i stepped
      simp only [Option.some.injEq, Ending.mk.injEq] at executed
      obtain ⟨rfl, rfl, rfl, _⟩ := executed
      exact Or.inl ⟨⟨_, stepped⟩, rfl⟩
    · rename_i middle more stepped
      obtain ⟨⟨_, _, _, _⟩, drained, same⟩ := Option.map_eq_some_iff.1 executed
      simp only [Ending.mk.injEq] at same
      obtain ⟨rfl, rfl, rfl, _⟩ := same
      exact Or.inr ⟨middle, ⟨more, stepped⟩, _, drained⟩
  · rintro (⟨⟨events, stepped⟩, rfl⟩ | ⟨middle, ⟨events, stepped⟩, more, executed⟩)
    · exact ⟨events, by simp only [execute, drain, stepped]⟩
    · refine ⟨events ++ .executed instr.kind middle.stack.length middle.env.heap.length
        rest.length :: more, ?_⟩
      simp only [execute] at executed
      simp only [execute, drain, stepped, executed, Option.map_some]

theorem fails_iff_split {depth : Nat} {code pending : List Instr} {before after : State}
    {fault : Fault} :
    Fails (depth + 1) code before fault pending after ↔
      ∃ done instr middle, code = done ++ instr :: pending ∧
        Ends (depth + 1) done before none middle ∧ instr.Acts depth middle (some fault) after := by
  constructor
  · intro fails
    induction code generalizing before with
    | nil =>
        obtain ⟨events, executed⟩ := fails
        cases executed
    | cons instr rest ih =>
        rcases fails_cons_iff.1 fails with ⟨acts, rfl⟩ | ⟨middle, acts, later⟩
        · exact ⟨[], instr, before, rfl, ends_nil_iff.2 ⟨rfl, rfl⟩, acts⟩
        · obtain ⟨done, last, stopped, rfl, finished, failed⟩ := ih later
          exact ⟨instr :: done, last, stopped, rfl,
            finished_cons_iff.2 ⟨middle, acts, finished⟩, failed⟩
  · rintro ⟨done, instr, middle, rfl, finished, acts⟩
    induction done generalizing before with
    | nil =>
        obtain ⟨_, rfl⟩ := ends_nil_iff.1 finished
        exact fails_cons_iff.2 (Or.inl ⟨acts, rfl⟩)
    | cons first rest ih =>
        obtain ⟨next, actsFirst, finishedRest⟩ := finished_cons_iff.1 finished
        exact fails_cons_iff.2 (Or.inr ⟨next, actsFirst, ih finishedRest⟩)

theorem Fails.any_rest {depth : Nat} {code pending : List Instr} {before after : State}
    {fault : Fault} (fails : Fails depth code before fault pending after) :
    ∃ done instr, code = done ++ instr :: pending ∧
      ∀ other, Fails depth (done ++ instr :: other) before fault other after := by
  cases depth with
  | zero => exact absurd fails.ends not_ends_zero
  | succ depth =>
      obtain ⟨done, instr, middle, rfl, finished, acts⟩ := fails_iff_split.1 fails
      exact ⟨done, instr, rfl,
        fun other => fails_iff_split.2 ⟨done, instr, middle, rfl, finished, acts⟩⟩

theorem Instr.Acts.env_of_fault {depth : Nat} {instr : Instr} {before after : State} {fault : Fault}
    (acts : instr.Acts depth before (some fault) after)
    (notCall : ∀ argCount, instr ≠ .call argCount) : after.env = before.env := by
  cases instr with
  | call argCount => exact absurd rfl (notCall argCount)
  | pushLiteral value => cases (acts_pushLiteral_iff.1 acts).1
  | makeClosure params body => cases (acts_makeClosure_iff.1 acts).1
  | allocateBytes content => cases (acts_allocateBytes_iff.1 acts).1
  | arithmetic operator =>
      rw [(acts_arithmetic_iff.1 acts).2, State.arithmetic]
      split
      · split <;> rfl
      · rfl
  | lookup name =>
      rw [(acts_lookup_iff.1 acts).2, State.lookup]
      split
      · rfl
      · split <;> rfl
  | store name =>
      obtain ⟨failed, rfl⟩ := acts_store_iff.1 acts
      obtain ⟨stack, env⟩ := before
      cases stack with
      | nil => rfl
      | cons value rest => cases failed

namespace State

variable {caller callee after : State} {params : List String} {fault : Option Fault}

def mergedAfterFault (caller : State) (params : List String) (callee : Environment) : State :=
  { caller with env := (merge params callee callee.symbols.entries caller.env).env }

theorem Leaves.after_fault {stop : Fault}
    (left : caller.Leaves params (some stop) callee fault after) :
    after = caller.mergedAfterFault params callee.env := by
  obtain ⟨_, rfl⟩ := left
  simp only [leaveCall]
  cases (merge params callee.env callee.env.symbols.entries caller.env).fault <;> rfl

end State

/-- Where a run stops. Either an instruction complains for itself, before it has changed anything, or
it is a call, and what its body has done until it stopped in turn is merged. -/
inductive Stops : List Instr → State → Fault → List Instr → State → Prop
  | complains {depth : Nat} {done pending : List Instr} {instr : Instr} {before middle after : State}
      {fault : Fault} : Ends (depth + 1) done before none middle → instr.Raises middle fault →
      instr.Acts depth middle (some fault) after → after.env = middle.env →
      Stops (done ++ instr :: pending) before fault pending after
  | called {depth argCount : Nat} {done pending left : List Instr} {before middle callee : State}
      {entry : Activation} {fault : Fault} : Ends depth done before none middle →
      middle.Enters argCount entry → Stops entry.body entry.start fault left callee →
      Stops (done ++ .call argCount :: pending) before fault pending
        (entry.caller.mergedAfterFault entry.params callee.env)

variable {rule : Rule}

theorem Fails.stops (closed : rule.Closed) {depth : Nat} : ∀ {code pending : List Instr}
    {before after : State} {fault : Fault}, Fails depth code before fault pending after →
      before.Sound rule → rule code before.env.symbols →
      Stops code before fault pending after := by
  induction depth with
  | zero => exact fun fails => absurd fails.ends not_ends_zero
  | succ depth ih =>
      intro code pending before after fault fails sound allowed
      obtain ⟨done, instr, middle, rfl, finished, acts⟩ := fails_iff_split.1 fails
      obtain ⟨middleSound, _⟩ := (Reaches.of_ends finished).sound closed sound allowed
      by_cases isCall : ∃ argCount, instr = .call argCount
      · obtain ⟨argCount, rfl⟩ := isCall
        rcases Instr.acts_call_cases acts with ⟨stop, same, refused⟩ |
          ⟨entry, ended, callee, entered, ran, left⟩
        · obtain rfl := Option.some.inj same
          exact .complains finished (.of_refuses middleSound refused) acts refused.env_eq
        · have calleeSound := middleSound.callee closed entered ran
          obtain ⟨rfl, _⟩ := middleSound.returns entered calleeSound left
          obtain ⟨startSound, symbols, bodyAllowed⟩ := middleSound.enters entered
          obtain ⟨pending, failed⟩ := ran.fails
          rw [left.after_fault]
          exact .called finished entered (ih failed startSound (symbols ▸ bodyAllowed))
      · have notCall : ∀ argCount, instr ≠ .call argCount := not_exists.1 isCall
        rcases acts.raised closed middleSound with raises | ⟨argCount, _, _, same, _⟩
        · exact .complains finished raises acts (acts.env_of_fault notCall)
        · exact absurd same (notCall argCount)

theorem Stops.fails (closed : rule.Closed) {code pending : List Instr} {before after : State}
    {fault : Fault} (stops : Stops code before fault pending after) (sound : before.Sound rule)
    (allowed : rule code before.env.symbols) :
    ∃ depth, Fails depth code before fault pending after := by
  induction stops with
  | complains finished _ acts _ =>
      exact ⟨_, fails_iff_split.2 ⟨_, _, _, rfl, finished, acts⟩⟩
  | @called depth argCount done pending left before middle callee entry fault finished entered _ ih =>
      obtain ⟨middleSound, _⟩ := (Reaches.of_ends finished).sound closed sound allowed
      obtain ⟨startSound, symbols, bodyAllowed⟩ := middleSound.enters entered
      obtain ⟨inner, failed⟩ := ih startSound (symbols ▸ bodyAllowed)
      have ran := failed.ends.deepen (Nat.le_max_right depth inner)
      have calleeSound := middleSound.callee closed entered ran
      have left : entry.caller.Leaves entry.params (some fault) callee _ _ := ⟨rfl, rfl⟩
      have acts := Instr.acts_call_of_enters entered ran left
      obtain ⟨same, _⟩ := middleSound.returns entered calleeSound left
      rw [same, left.after_fault] at acts
      refine ⟨max depth inner + 1, fails_iff_split.2 ⟨_, _, _, rfl, ?_, acts⟩⟩
      exact finished.deepen (Nat.le_succ_of_le (Nat.le_max_left depth inner))

/-- A run in a well-formed state fails just where it stops in this sense, with what has been done by
then and nothing else; and no run, in a callee or not, depends on what it leaves undone. -/
theorem faults_keep_completed_work {code pending : List Instr} {before after : State} {fault : Fault}
    (literals : LiteralsWellFormed code) (wellFormed : before.WellFormed) :
    ((∃ depth, Fails depth code before fault pending after) ↔
      Stops code before fault pending after) ∧
    ∀ (depth : Nat) (body left : List Instr) (start callee : State) (stop : Fault),
      Fails depth body start stop left callee → ∃ done instr, body = done ++ instr :: left ∧
        ∀ other, Fails depth (done ++ instr :: other) start stop other callee := by
  have closed := literalsRule_closed
  have sound := State.wellFormed_iff_sound.1 wellFormed
  refine ⟨⟨?_, fun stops => stops.fails closed sound literals⟩,
    fun depth body left start callee stop fails => fails.any_rest⟩
  rintro ⟨depth, fails⟩
  exact fails.stops closed sound literals

def failsInside : List Instr :=
  [.makeClosure [] [.pushLiteral (.int 5), .store "x", .lookup "z", .store "y"], .call 0, .store "w"]

theorem knowsBoth_sound : knowsBoth.Sound rule :=
  (Environment.sound_empty.bind (.int _ _) "x").bind (.int _ _) "y"

theorem faults_keep_completed_work_inside :
    LiteralsWellFormed failsInside ∧ State.WellFormed ⟨[], knowsBoth⟩ ∧ ∃ after,
      Stops failsInside ⟨[], knowsBoth⟩ (.missingVariable "z") [.store "w"] after ∧
      after.env.heap.map Value.kind = ["int", "int", "int", "int"] ∧
      after.env.Binds "x" 0 (.int 5) ∧ after.env.Binds "y" 0 (.int 2) ∧
      after.env.symbols.contains "w" = false := by
  have literals : LiteralsWellFormed failsInside := by
    intro value pushed
    have five : value = .int 5 := by simpa [failsInside, eq_comm] using pushed
    subst five
    exact ⟨nofun, fun heap => .int heap 5⟩
  have wellFormed : State.WellFormed ⟨[], knowsBoth⟩ :=
    State.wellFormed_iff_sound.2 ⟨by simp, knowsBoth_sound⟩
  have fails : Fails 2 failsInside ⟨[], knowsBoth⟩ (.missingVariable "z") [.store "w"] _ := ⟨_, rfl⟩
  exact ⟨literals, wellFormed, _,
    (faults_keep_completed_work literals wellFormed).1.1 ⟨2, fails⟩, rfl,
    ⟨2, .int 5, rfl, rfl, .here nofun⟩, ⟨3, .int 2, rfl, rfl, .here nofun⟩, rfl⟩

/-- It is not enough that pointers of the stack lead somewhere: the body of the closure there finishes,
and it is the merge after it that fails, with one name rebound. -/
theorem stray_closure_merges_halfway :
    LiteralsWellFormed [.call 0] ∧ knowsBoth.WellFormed ∧
      (∀ address, .pointer address ∈ [halfStray] → address < knowsBoth.heap.length) ∧
      (∃ entry, State.Enters ⟨[halfStray], knowsBoth⟩ 0 entry ∧
        ∀ depth ended callee, Ends depth entry.body entry.start ended callee → ended = none) ∧
      ∃ after, Fails 2 [.call 0] ⟨[halfStray], knowsBoth⟩ (.badAddress 7) [] after ∧
        after.env.heap ≠ knowsBoth.heap := by
  refine ⟨?_, Environment.wellFormed_iff_sound.2 knowsBoth_sound, ?_, ?_, ?_⟩
  · intro value pushed
    simp at pushed
  · intro address member
    simp [halfStray] at member
  · refine ⟨⟨[], [], holdsHalf, ⟨[], knowsBoth⟩, ⟨[], holdsHalf⟩⟩,
      ⟨[], rfl, rfl, rfl, rfl, rfl⟩, ?_⟩
    intro depth ended callee ran
    cases depth with
    | zero => exact absurd ran not_ends_zero
    | succ depth => exact (ends_nil_iff.1 ran).1
  · refine ⟨_, ⟨_, rfl⟩, ?_⟩
    intro same
    cases congrArg List.length same

end LetStack
