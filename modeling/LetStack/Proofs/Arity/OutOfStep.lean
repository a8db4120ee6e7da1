import LetStack.Proofs.Machine.Points
import LetStack.Proofs.Scoping.Carrying

/-!
How a name that stands for a function of so many parameters comes to stand for something else without
being stored. A call hands it back, and from there it is carried on, into other names and closures.
-/

namespace LetStack

def Environment.BindsFunction (env : Environment) (name : String) (count : Nat) : Prop :=
  ∃ params body captured, env.Binds name 0 (.closure params body captured) ∧ params.length = count

def Instr.HandsBack (name : String) (count : Nat) (instr : Instr) (before : State) : Prop :=
  ∃ argCount entry depth callee, instr = .call argCount ∧ before.Enters argCount entry ∧
    entry.captured.symbols.contains name = true ∧ name ∉ entry.params ∧
    Ends depth entry.body entry.start none callee ∧ ¬ callee.env.BindsFunction name count

/-- A name was a function of so many parameters when it was stored, and is none any more. -/
inductive OutOfStep (code : List Instr) (start : State) :
    String → Nat → List Instr → State → Prop
  | handed {name : String} {count depth : Nat} {instr : Instr} {later : List Instr}
      {before after : State} : Reaches code start (instr :: later) before →
      before.env.BindsFunction name count →
      instr.HandsBack name count before ∨ instr.MeetsLocal name before →
      instr.Acts depth before none after → ¬ after.env.BindsFunction name count →
      OutOfStep code start name count later after
  | kept {name : String} {count depth : Nat} {instr : Instr} {later : List Instr}
      {before after : State} : OutOfStep code start name count (instr :: later) before →
      instr ≠ .store name → instr.Acts depth before none after →
      ¬ after.env.BindsFunction name count → OutOfStep code start name count later after
  | aliased {name source : String} {count depth : Nat} {later : List Instr}
      {before middle after : State} :
      OutOfStep code start source count (.lookup source :: .store name :: later) before →
      (Instr.lookup source).Acts depth before none middle →
      (Instr.store name).Acts depth middle none after →
      ¬ after.env.BindsFunction name count → OutOfStep code start name count later after
  | captured {name : String} {count argCount : Nat} {params : List String}
      {body later rest : List Instr} {made before : State} {entry : Activation} :
      OutOfStep code start name count (.makeClosure params body :: later) made →
      Reaches code start (.call argCount :: rest) before → before.Enters argCount entry →
      entry.params = params → entry.body = body → entry.captured = made.env →
      ¬ entry.start.env.BindsFunction name count →
      OutOfStep code start name count entry.body entry.start

variable {code : List Instr} {start : State} {name : String} {count : Nat}

theorem OutOfStep.not_bindsFunction {later : List Instr} {state : State}
    (stray : OutOfStep code start name count later state) :
    ¬ state.env.BindsFunction name count := by
  cases stray with
  | handed _ _ _ _ other => exact other
  | kept _ _ _ other => exact other
  | aliased _ _ _ other => exact other
  | captured _ _ _ _ _ _ other => exact other

theorem OutOfStep.exists_handed {later : List Instr} {state : State}
    (stray : OutOfStep code start name count later state) :
    ∃ origin instr rest before, Reaches code start (instr :: rest) before ∧
      before.env.BindsFunction origin count ∧
      (instr.HandsBack origin count before ∨ instr.MeetsLocal origin before) := by
  induction stray with
  | handed reached binds hands _ _ => exact ⟨_, _, _, _, reached, binds, hands⟩
  | kept _ _ _ _ ih => exact ih
  | aliased _ _ _ _ ih => exact ih
  | captured _ _ _ _ _ _ _ ih => exact ih

namespace Environment.BindsFunction

variable {env after : Environment}

theorem keep (binds : env.BindsFunction name count) (grown : env.heap <+: after.heap)
    (same : after.symbols.get? name = env.symbols.get? name) : after.BindsFunction name count := by
  obtain ⟨params, body, captured, bound, arity⟩ := binds
  exact ⟨params, body, captured, bound.keep grown same, arity⟩

theorem bind {params : List String} {body : List Instr} {captured : Environment}
    (name : String) : (env.bind name (.closure params body captured)).BindsFunction name
      params.length :=
  ⟨params, body, captured, binds_bind_self name (.here nofun), rfl⟩

theorem looked_up {depth : Nat} {before found : State}
    (binds : before.env.BindsFunction name count)
    (acts : (Instr.lookup name).Acts depth before none found) :
    ∃ params body captured, found.stack = .closure params body captured :: before.stack ∧
      params.length = count := by
  obtain ⟨stack, env⟩ := before
  obtain ⟨params, body, captured, bound, arity⟩ := binds
  obtain ⟨value, same, leads⟩ := State.lookup_of_binds stack bound
  cases leads with
  | here _ =>
      refine ⟨params, body, captured, ?_, arity⟩
      rw [(Instr.acts_lookup_iff.1 acts).2, same]
      rfl

end Environment.BindsFunction

theorem Instr.Acts.keeps_function {rule : Rule} (closed : rule.Closed) {depth : Nat} {instr : Instr}
    {before after : State} (acts : instr.Acts depth before none after)
    (sound : before.Sound rule) (notStore : instr ≠ .store name)
    (binds : before.env.BindsFunction name count) :
    after.env.BindsFunction name count ∨ instr.HandsBack name count before ∨
      instr.MeetsLocal name before := by
  by_cases isCall : ∃ argCount, instr = .call argCount
  · obtain ⟨argCount, rfl⟩ := isCall
    rcases acts_call_cases acts with ⟨_, impossible, _⟩ |
      ⟨entry, ended, callee, entered, ran, left⟩
    · simp at impossible
    · have calleeSound := sound.callee closed entered ran
      obtain ⟨rfl, absorbed, _⟩ := sound.returns entered calleeSound left
      by_cases param : name ∈ entry.params
      · exact Or.inl (binds.keep absorbed.heap (absorbed.kept name (Or.inl param)))
      · cases bound : callee.env.symbols.contains name with
        | false => exact Or.inl (binds.keep absorbed.heap (absorbed.kept name (Or.inr bound)))
        | true =>
            by_cases calleeBinds : callee.env.BindsFunction name count
            · obtain ⟨_, _, _, own, _⟩ := binds
              obtain ⟨params, body, captured, taken, arity⟩ := calleeBinds
              exact Or.inl ⟨params, body, captured,
                absorbed.shared name _ _ own.contains param taken, arity⟩
            · cases captured : entry.captured.symbols.contains name with
              | true =>
                  exact Or.inr (Or.inl ⟨argCount, entry, depth, callee, rfl, entered, captured,
                    param, ran, calleeBinds⟩)
              | false =>
                  have stored := sound.stores_uncaptured entered ran captured bound
                  exact Or.inr (Or.inr ⟨argCount, entry, rfl, entered, captured, param, stored⟩)
  · obtain ⟨grown, same⟩ := acts.keeps notStore fun argCount call => isCall ⟨argCount, call⟩
    exact Or.inl (binds.keep grown same)

end LetStack
