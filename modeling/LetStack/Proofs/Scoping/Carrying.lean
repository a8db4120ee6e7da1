import LetStack.Proofs.Scoping.Sessions

/-! What becomes of the value of a name while code runs that does not store it: only calls can put
another in its place. -/

namespace LetStack

def State.Reads (state : State) (name : String) (hops : Nat) (target : Value) : Prop :=
  ∃ value, state.lookup name = (state.push value).done ∧ Leads state.env.heap value hops target

def Instr.Spares (name : String) (depth : Nat) (instr : Instr) (before : State) : Prop :=
  ∀ (argCount : Nat) (entry : Activation) (ended : Option Fault) (callee : State),
    instr = .call argCount → before.Enters argCount entry →
    Ends depth entry.body entry.start ended callee →
    name ∈ entry.params ∨ callee.env.symbols.contains name = false

def Instr.MeetsLocal (name : String) (instr : Instr) (before : State) : Prop :=
  ∃ argCount entry, instr = .call argCount ∧ before.Enters argCount entry ∧
    entry.captured.symbols.contains name = false ∧ name ∉ entry.params ∧
    .store name ∈ entry.body

/-- What an instruction makes of the value of a name. A callee that has captured the name, and has
no parameter of that name, hands back what the name stands for at its end. -/
inductive Instr.Turns (name : String) (depth : Nat) (instr : Instr) (before : State) (hops : Nat)
    (target : Value) : Nat → Value → Prop
  | spared : instr.Spares name depth before → Turns name depth instr before hops target hops target
  | merged {argCount count : Nat} {entry : Activation} {ended : Option Fault} {callee : State}
      {other : Value} : instr = .call argCount → before.Enters argCount entry →
      entry.captured.symbols.contains name = true → name ∉ entry.params →
      Ends depth entry.body entry.start ended callee → callee.env.Binds name count other →
      Turns name depth instr before hops target count other

/-- How the value of a name is carried on, through own code and, at the top level, through what is
submitted later. A fault drops the code that is left. -/
inductive Carries (topLevel : Prop) (name : String) (scope : Scope) (code : List Instr)
    (start : State) (hops : Nat) (target : Value) :
    Scope → List Instr → State → Nat → Value → Prop
  | start : Carries topLevel name scope code start hops target scope code start hops target
  | next {depth count result : Nat} {current : Scope} {instr : Instr} {later : List Instr}
      {before after : State} {other turned : Value} :
      Carries topLevel name scope code start hops target current (instr :: later) before count
        other →
      instr.Acts depth before none after →
      instr.Turns name depth before count other result turned →
      Carries topLevel name scope code start hops target current later after result turned
  | halt {depth count result : Nat} {current : Scope} {instr : Instr} {later : List Instr}
      {before after : State} {stop : Fault} {other turned : Value} :
      Carries topLevel name scope code start hops target current (instr :: later) before count
        other →
      instr.Acts depth before (some stop) after →
      instr.Turns name depth before count other result turned →
      Carries topLevel name scope code start hops target current [] after result turned
  | submit {count : Nat} {current : Scope} {program : List Expr} {state : State} {other : Value} :
      topLevel →
      Carries topLevel name scope code start hops target current [] state count other →
      (current.analyze program).2.isClean = true →
      Carries topLevel name scope code start hops target (current.analyze program).1
        (Expr.compileAll program) ⟨[], state.env⟩ count other

structure Settled (name : String) (scope : Scope) (code : List Instr) (state : State) (hops : Nat)
    (target : Value) : Prop where
  sound : state.Sound (Allowed False)
  allowed : Allowed False code state.env.symbols
  unstored : .store name ∉ code
  constant : scope.symbols.get? name = some .constant
  binds : state.env.Binds name hops target

variable {topLevel : Prop} {name : String} {scope current : Scope} {code later : List Instr}
  {start before state : State} {hops count result depth : Nat} {target other turned : Value}

theorem Settled.reads (settled : Settled name scope code state hops target) :
    state.Reads name hops target := by
  obtain ⟨stack, env⟩ := state
  exact State.lookup_of_binds stack settled.binds

theorem Instr.Turns.binds {instr : Instr} {after : State} {fault : Option Fault}
    (turns : instr.Turns name depth before hops target count other)
    (acts : instr.Acts depth before fault after) (sound : before.Sound (Allowed False))
    (notStore : instr ≠ .store name) (binds : before.env.Binds name hops target) :
    after.env.Binds name count other := by
  have absorbs : ∀ {entry : Activation} {argCount : Nat} {ended left : Option Fault}
      {callee last : State}, before.Enters argCount entry →
      Ends depth entry.body entry.start ended callee →
      entry.caller.Leaves entry.params ended callee left last →
      before.env.Absorbs entry.params callee.env last.env :=
    fun entered ran leaves =>
      (sound.returns entered (sound.callee (allowed_closed False) entered ran) leaves).2.1
  cases turns with
  | spared spares =>
      by_cases isCall : ∃ argCount, instr = .call argCount
      · obtain ⟨argCount, rfl⟩ := isCall
        rcases acts_call_cases acts with ⟨_, _, refused⟩ |
          ⟨entry, ended, callee, entered, ran, leaves⟩
        · rw [refused.env_eq]
          exact binds
        · have absorbed := absorbs entered ran leaves
          have kept := absorbed.kept name (spares argCount entry ended callee rfl entered ran)
          exact binds.keep absorbed.heap kept
      · obtain ⟨grown, same⟩ :=
          acts.keeps notStore fun argCount call => isCall ⟨argCount, call⟩
        exact binds.keep grown same
  | merged call entered _ notParam ran calleeBinds =>
      subst call
      have again := acts_call_of_enters entered ran ⟨rfl, rfl⟩
      rw [(acts.unique again).2]
      exact (absorbs entered ran ⟨rfl, rfl⟩).shared name _ _ binds.contains notParam calleeBinds

theorem Instr.turns_or_meetsLocal (instr : Instr) (name : String) (depth hops : Nat)
    (target : Value) (sound : before.Sound (Allowed False)) :
    (∃ count other, instr.Turns name depth before hops target count other) ∨
      instr.MeetsLocal name before := by
  by_cases spares : instr.Spares name depth before
  · exact Or.inl ⟨hops, target, .spared spares⟩
  · unfold Instr.Spares at spares
    push Not at spares
    obtain ⟨argCount, entry, ended, callee, call, entered, ran, notParam, bound⟩ := spares
    rw [ne_eq, Bool.not_eq_false] at bound
    cases captured : entry.captured.symbols.contains name with
    | true =>
        have calleeSound := sound.callee (allowed_closed False) entered ran
        obtain ⟨count, other, binds⟩ := calleeSound.env.readable name bound
        exact Or.inl ⟨count, other, .merged call entered captured notParam ran binds⟩
    | false =>
        have stored := sound.stores_uncaptured entered ran captured bound
        exact Or.inr ⟨argCount, entry, call, entered, captured, notParam, stored⟩

theorem Carries.settled
    (carries : Carries topLevel name scope code start hops target current later state count other)
    (settled : Settled name scope code start hops target) :
    Settled name current later state count other := by
  have closed := allowed_closed False
  induction carries with
  | start => exact settled
  | next _ acts turns ih =>
      have notStore := fun same => ih.unstored (List.mem_cons.2 (Or.inl (Eq.symm same)))
      exact {
        sound := acts.sound closed (fun ran => ran.sound closed) ih.sound ih.allowed
        allowed := acts.rest closed ih.allowed
        unstored := fun member => ih.unstored (List.mem_cons_of_mem _ member)
        constant := ih.constant
        binds := turns.binds acts ih.sound notStore ih.binds }
  | halt _ acts turns ih =>
      have notStore := fun same => ih.unstored (List.mem_cons.2 (Or.inl (Eq.symm same)))
      exact {
        sound := acts.sound closed (fun ran => ran.sound closed) ih.sound ih.allowed
        allowed := allowed_of_accepted (.nil .empty) nofun
        unstored := List.not_mem_nil
        constant := ih.constant
        binds := turns.binds acts ih.sound notStore ih.binds }
  | submit _ _ clean ih =>
      have accepted := program_accepted clean
      exact {
        sound := ⟨by simp, ih.sound.env⟩
        allowed := allowed_of_accepted accepted nofun
        unstored := accepted.not_store ih.constant
        constant := by
          rw [Scope.analyze_of_clean clean]
          exact accepted.keeps ih.constant
        binds := ih.binds }

end LetStack
