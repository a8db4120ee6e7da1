import LetStack.Proofs.Arity.Counted
import LetStack.Proofs.Arity.OutOfStep
import LetStack.Proofs.Machine.Contents

/-!
At every point of a run, each name for which the analysis knows a number of parameters stands for a
function of so many, or is out of step. Closures have been made at such points.
-/

namespace LetStack

section

variable (code : List Instr) (start : State)

def InStep (name : String) (count : Nat) (later : List Instr) (state : State) : Prop :=
  state.env.BindsFunction name count ∨ OutOfStep code start name count later state

def AllInStep (arities : Table Int) (later : List Instr) (state : State) : Prop :=
  ∀ (name : String) (count : Nat), arities.get? name = some (count : Int) →
    InStep code start name count later state

inductive Value.Traced : Value → Prop
  | plain {value : Value} : value.IsPlain → Traced value
  | closure {params : List String} {body later : List Instr} {made : State} {inner : Origin}
      {arities final : Table Int} : Reaches code start (.makeClosure params body :: later) made →
      Counted .other arities body inner final →
      AllInStep code start arities (.makeClosure params body :: later) made →
      (∀ value ∈ made.env.heap, Traced value) → Traced (.closure params body made.env)

def Origin.OnTop (arities : Table Int) (later : List Instr) (state : State) : Origin → Prop
  | function count => ∃ params body captured rest,
      state.stack = .closure params body captured :: rest ∧ params.length = count
  | lookup name => ∃ depth before, Reaches code start (.lookup name :: later) before ∧
      (Instr.lookup name).Acts depth before none state ∧
      ∀ count : Nat, arities.get? name = some (count : Int) →
        InStep code start name count (.lookup name :: later) before
  | other => True

structure Tracked (origin : Origin) (arities : Table Int) (later : List Instr) (state : State) :
    Prop where
  reached : Reaches code start later state
  names : AllInStep code start arities later state
  top : origin.OnTop code start arities later state
  values : state.Holds (Value.Traced code start)

end

variable {code : List Instr} {start : State}

theorem Value.Traced.closure_inv {params : List String} {body : List Instr}
    {captured : Environment} (traced : (Value.closure params body captured).Traced code start) :
    ∃ later made inner arities final,
      Reaches code start (.makeClosure params body :: later) made ∧ made.env = captured ∧
      Counted .other arities body inner final ∧
      AllInStep code start arities (.makeClosure params body :: later) made ∧
      ∀ value ∈ captured.heap, value.Traced code start := by
  generalize same : Value.closure params body captured = value at traced
  cases traced with
  | plain isPlain => exact absurd same.symm (isPlain params body captured)
  | closure reached counted names entries =>
      cases same
      exact ⟨_, _, _, _, _, reached, rfl, counted, names, entries⟩

section

variable {rule : Rule} {depth : Nat} {instr : Instr} {later : List Instr} {before after : State}
  {origin : Origin} {arities : Table Int}

theorem InStep.next (closed : rule.Closed) (sound : before.Sound rule) {name : String} {count : Nat}
    (reached : Reaches code start (instr :: later) before)
    (inStep : InStep code start name count (instr :: later) before) (notStore : instr ≠ .store name)
    (acts : instr.Acts depth before none after) : InStep code start name count later after := by
  by_cases still : after.env.BindsFunction name count
  · exact Or.inl still
  · rcases inStep with binds | stray
    · rcases acts.keeps_function closed sound notStore binds with kept | hands
      · exact absurd kept still
      · exact Or.inr (.handed reached binds hands acts still)
    · exact Or.inr (.kept stray notStore acts still)

theorem AllInStep.next (closed : rule.Closed) (sound : before.Sound rule)
    (reached : Reaches code start (instr :: later) before)
    (names : AllInStep code start arities (instr :: later) before)
    (notStore : ∀ name, instr ≠ .store name) (acts : instr.Acts depth before none after) :
    AllInStep code start arities later after :=
  fun name count known => (names name count known).next closed sound reached (notStore name) acts

theorem Tracked.stored {name : String} {count : Nat}
    (tracked : Tracked code start origin arities (.store name :: later) before)
    (known : origin.arity? arities = some (count : Int))
    (acts : (Instr.store name).Acts depth before none after) :
    InStep code start name count later after := by
  have binds : ∀ {params body captured rest},
      before.stack = .closure params body captured :: rest → params.length = count →
      after.env.BindsFunction name count := by
    intro params body captured rest shape arity
    rw [(Instr.acts_store_iff.1 acts).2, State.store, shape, ← arity]
    exact .bind name
  have top := tracked.top
  cases origin with
  | function length =>
      obtain ⟨params, body, captured, rest, shape, arity⟩ := top
      rw [Origin.arity?, Option.some.injEq, Int.natCast_inj] at known
      exact Or.inl (binds shape (arity.trans known))
  | lookup source =>
      obtain ⟨_, earlier, reached, looked, inStep⟩ := top
      by_cases still : after.env.BindsFunction name count
      · exact Or.inl still
      · rcases inStep count known with bound | stray
        · obtain ⟨params, body, captured, shape, arity⟩ := bound.looked_up looked
          exact Or.inl (binds shape arity)
        · exact Or.inr (.aliased stray looked acts still)
  | other => cases known

theorem Tracked.values_after {last : Origin} {final : Table Int} {fault : Option Fault}
    (tracked : Tracked code start origin arities (instr :: later) before)
    (counted : Counted origin arities (instr :: later) last final)
    (acts : instr.Acts depth before fault after)
    (bodies : ∀ argCount entry ended callee, instr = .call argCount →
      before.Enters argCount entry → Ends depth entry.body entry.start ended callee →
      callee.Holds (Value.Traced code start)) : after.Holds (Value.Traced code start) := by
  refine acts.after_holds (coversMade_of_plain fun _ => .plain) tracked.values ?_ ?_ bodies
  · rintro value rfl
    cases counted with
    | literal isPlain _ => exact .plain isPlain
  · rintro params body rfl
    cases counted with
    | makeClosure inside _ => exact .closure tracked.reached inside tracked.names tracked.values.heap

theorem Tracked.next (closed : rule.Closed) (sound : before.Sound rule) {last : Origin}
    {final : Table Int} (tracked : Tracked code start origin arities (instr :: later) before)
    (counted : Counted origin arities (instr :: later) last final)
    (acts : instr.Acts depth before none after)
    (bodies : ∀ argCount entry ended callee, instr = .call argCount →
      before.Enters argCount entry → Ends depth entry.body entry.start ended callee →
      callee.Holds (Value.Traced code start)) :
    ∃ top known, Tracked code start top known later after ∧ Counted top known later last final := by
  have reached : Reaches code start later after := .next tracked.reached acts
  have values := tracked.values_after counted acts bodies
  have names (notStore : ∀ name, instr ≠ .store name) : AllInStep code start arities later after :=
    tracked.names.next closed sound tracked.reached notStore acts
  cases counted with
  | literal _ rest => exact ⟨.other, _, ⟨reached, names nofun, trivial, values⟩, rest⟩
  | bytes rest => exact ⟨.other, _, ⟨reached, names nofun, trivial, values⟩, rest⟩
  | arithmetic rest => exact ⟨.other, _, ⟨reached, names nofun, trivial, values⟩, rest⟩
  | call _ rest => exact ⟨.other, _, ⟨reached, names nofun, trivial, values⟩, rest⟩
  | @lookup _ _ _ _ name _ rest =>
      have top := tracked.names name
      exact ⟨.lookup name, _, ⟨reached, names nofun, ⟨depth, before, tracked.reached, acts, top⟩,
        values⟩, rest⟩
  | @makeClosure _ _ _ _ _ _ params body _ _ rest =>
      obtain ⟨_, rfl⟩ := Instr.acts_makeClosure_iff.1 acts
      exact ⟨.function params.length, _, ⟨reached, names nofun, ⟨params, body, _, _, rfl, rfl⟩,
        values⟩, rest⟩
  | @store _ _ _ _ name _ rest =>
      refine ⟨.other, _, ⟨reached, ?_, trivial, values⟩, rest⟩
      intro query count known
      rw [Origin.get?_record] at known
      by_cases same : query = name
      · rw [if_pos same] at known
        exact same ▸ tracked.stored known acts
      · rw [if_neg same] at known
        refine (tracked.names query count known).next closed sound tracked.reached ?_ acts
        rintro ⟨⟩
        exact same rfl

theorem Tracked.enter (sound : before.Sound rule) {argCount : Nat} {entry : Activation}
    (tracked : Tracked code start origin arities (.call argCount :: later) before)
    (entered : before.Enters argCount entry) : ∃ inner known final,
      Tracked code start .other known entry.body entry.start ∧
      Counted .other known entry.body inner final := by
  obtain ⟨args, shape, _, grown, _⟩ := sound.args entered
  obtain ⟨_, symbols, _⟩ := sound.enters entered
  have traced := tracked.values.stack (.closure entry.params entry.body entry.captured)
    (by simp [shape])
  obtain ⟨rest, made, inner, known, final, makes, env, counted, names, entries⟩ :=
    traced.closure_inv
  refine ⟨inner, known, final, ⟨.enter tracked.reached entered, ?_, trivial, ?_⟩, counted⟩
  · intro name count knows
    by_cases still : entry.start.env.BindsFunction name count
    · exact Or.inl still
    · rcases names name count knows with binds | stray
      · rw [env] at binds
        exact Or.inl (binds.keep grown (by rw [symbols]))
      · exact Or.inr (.captured stray tracked.reached entered rfl rfl env.symm still)
  · exact entered.start_holds (coversMade_of_plain fun _ => .plain) tracked.values entries

theorem Tracked.bodies (sound : before.Sound rule)
    (tracked : Tracked code start origin arities (instr :: later) before)
    (each : ∀ {body : List Instr} {first callee : State} {ended : Option Fault} {last : Origin}
      {known final : Table Int}, Ends depth body first ended callee →
      Tracked code start .other known body first → Counted .other known body last final →
      callee.Holds (Value.Traced code start)) :
    ∀ argCount entry ended callee, instr = .call argCount → before.Enters argCount entry →
      Ends depth entry.body entry.start ended callee →
      callee.Holds (Value.Traced code start) := by
  rintro argCount entry ended callee rfl entered ran
  obtain ⟨_, _, _, trackedStart, countedBody⟩ := tracked.enter sound entered
  exact each ran trackedStart countedBody

theorem Ends.values_traced {own : List Instr} {fault : Option Fault} {last : Origin}
    {final : Table Int} (ends : Ends depth own before fault after) (closed : rule.Closed)
    (soundAt : ∀ later state, Reaches code start later state → state.Sound rule)
    (tracked : Tracked code start origin arities own before)
    (counted : Counted origin arities own last final) :
    after.Holds (Value.Traced code start) := by
  induction ends using Ends.induction generalizing origin arities last final with
  | nil => exact tracked.values
  | stop _ deeper acts =>
      exact tracked.values_after counted acts
        (tracked.bodies (soundAt _ _ tracked.reached) fun ran => deeper ran)
  | next deeper acts _ ih =>
      have sound := soundAt _ _ tracked.reached
      obtain ⟨_, _, trackedNext, countedNext⟩ :=
        tracked.next closed sound counted acts (tracked.bodies sound fun ran => deeper ran)
      exact ih trackedNext countedNext

theorem Reaches.tracked (closed : rule.Closed)
    (soundAt : ∀ later state, Reaches code start later state → state.Sound rule)
    {last : Origin} {final : Table Int} (initial : Tracked code start origin arities code start)
    (counted : Counted origin arities code last final) {later : List Instr} {state : State}
    (reached : Reaches code start later state) : ∃ top known inner final,
      Tracked code start top known later state ∧ Counted top known later inner final := by
  induction reached with
  | start => exact ⟨_, _, _, _, initial, counted⟩
  | next before acts ih =>
      obtain ⟨_, _, inner, final, trackedBefore, countedBefore⟩ := ih
      have sound := soundAt _ _ before
      obtain ⟨top, known, trackedAfter, countedAfter⟩ :=
        trackedBefore.next closed sound countedBefore acts
          (trackedBefore.bodies sound fun ran => ran.values_traced closed soundAt)
      exact ⟨top, known, inner, final, trackedAfter, countedAfter⟩
  | enter before entered ih =>
      obtain ⟨_, _, _, _, trackedBefore, _⟩ := ih
      obtain ⟨inner, known, final, trackedStart, countedBody⟩ :=
        trackedBefore.enter (soundAt _ _ before) entered
      exact ⟨_, known, inner, final, trackedStart, countedBody⟩

end

end LetStack
