import LetStack.Machine.Run
import LetStack.Proofs.Machine.Faults

/-!
Well-formed environments: names have entries, pointers lead to earlier entries, and closures are
well formed in turn. Runs keep them so, and in them no address ever leads nowhere.
-/

namespace LetStack

inductive Pushes (value : Value) : List Instr → Prop
  | here {later : List Instr} : Pushes value (.pushLiteral value :: later)
  | inside {params : List String} {body later : List Instr} :
      Pushes value body → Pushes value (.makeClosure params body :: later)
  | further {instr : Instr} {later : List Instr} : Pushes value later → Pushes value (instr :: later)

inductive Value.WellFormed : List Value → Value → Prop
  | int (heap : List Value) (value : Int) : WellFormed heap (.int value)
  | float (heap : List Value) (value : Float) : WellFormed heap (.float value)
  | bool (heap : List Value) (value : Bool) : WellFormed heap (.bool value)
  | bytes (heap : List Value) (content : List UInt8) : WellFormed heap (.bytes content)
  | pointer {heap : List Value} {address : Nat} : address < heap.length →
      WellFormed heap (.pointer address)
  | closure {params : List String} {body : List Instr} {env : Environment} (heap : List Value) :
      (∀ value, Pushes value body → ∀ address, value ≠ .pointer address) →
      (∀ value, Pushes value body → ∀ anywhere, WellFormed anywhere value) →
      (∀ index value, env.heap[index]? = some value → WellFormed (env.heap.take index) value) →
      (∀ name address, env.symbols.get? name = some address →
        ∃ place : Nat, address = place ∧ place < env.heap.length) →
      WellFormed heap (.closure params body env)

structure Environment.WellFormed (env : Environment) : Prop where
  entries : ∀ (index : Nat) (value : Value), env.heap[index]? = some value →
    value.WellFormed (env.heap.take index)
  symbols : ∀ name address, env.symbols.get? name = some address →
    ∃ place : Nat, address = place ∧ place < env.heap.length

structure State.WellFormed (state : State) : Prop where
  stack : ∀ value ∈ state.stack, value.WellFormed state.env.heap
  env : state.env.WellFormed

def LiteralsWellFormed (code : List Instr) : Prop :=
  ∀ value, Pushes value code →
    (∀ address, value ≠ .pointer address) ∧ ∀ heap, value.WellFormed heap

/-! Well-formed is sound under the rule that the literals of code are well formed. -/

def literalsRule : Rule := fun code _ => LiteralsWellFormed code

theorem Value.wellFormed_iff_sound {heap : List Value} {value : Value} :
    value.WellFormed heap ↔ value.Sound literalsRule heap := by
  constructor
  · intro wellFormed
    induction wellFormed with
    | closure heap plain literals _ symbols _ ih =>
        exact .closure heap (fun value pushed => ⟨plain value pushed, literals value pushed⟩) ih
          symbols
    | pointer bound => exact .pointer bound
    | _ => constructor
  · intro sound
    induction sound with
    | closure heap allowed _ symbols ih =>
        exact .closure heap (fun value pushed => (allowed value pushed).1)
          (fun value pushed => (allowed value pushed).2) ih symbols
    | pointer bound => exact .pointer bound
    | _ => constructor

theorem Environment.wellFormed_iff_sound {env : Environment} :
    env.WellFormed ↔ env.Sound literalsRule := by
  constructor
  · rintro ⟨entries, symbols⟩
    exact ⟨fun index value found => Value.wellFormed_iff_sound.1 (entries index value found),
      symbols⟩
  · rintro ⟨entries, symbols⟩
    exact ⟨fun index value found => Value.wellFormed_iff_sound.2 (entries index value found),
      symbols⟩

theorem State.wellFormed_iff_sound {state : State} :
    state.WellFormed ↔ state.Sound literalsRule := by
  constructor
  · rintro ⟨stack, env⟩
    exact ⟨fun value member => Value.wellFormed_iff_sound.1 (stack value member),
      Environment.wellFormed_iff_sound.1 env⟩
  · rintro ⟨stack, env⟩
    exact ⟨fun value member => Value.wellFormed_iff_sound.2 (stack value member),
      Environment.wellFormed_iff_sound.2 env⟩

theorem literalsRule_closed : literalsRule.Closed where
  rest := by
    intro instr later before after allowed _ _ value pushed
    exact allowed value (.further pushed)
  literal := by
    intro value later symbols allowed heap
    exact Value.wellFormed_iff_sound.1 ((allowed value .here).2 heap)
  closure := by
    intro params body later symbols allowed value pushed
    exact allowed value (.inside pushed)

inductive Fault.IsStray : Fault → Prop
  | danglingPointer (address : Nat) : IsStray (.danglingPointer address)
  | badAddress (address : Int) : IsStray (.badAddress address)
  | endlessPointer : IsStray .endlessPointer

theorem Instr.Raises.not_stray {instr : Instr} {before : State} {fault : Fault}
    (raises : instr.Raises before fault) : ¬ fault.IsStray := by
  intro stray
  cases raises with
  | operands ofOperands => cases ofOperands <;> cases stray
  | _ => cases stray

theorem Ends.not_stray {rule : Rule} (closed : rule.Closed) {depth : Nat} {code : List Instr}
    {before after : State} {fault : Fault} (ends : Ends depth code before (some fault) after)
    (sound : before.Sound rule) (allowed : rule code before.env.symbols) : ¬ fault.IsStray := by
  obtain ⟨_, _, _, _, raises⟩ := ends.raised closed sound allowed
  exact raises.not_stray

structure Environment.Followable (env : Environment) (value : Value) : Prop where
  leads : ∃ hops target, Leads env.heap value hops target
  transfers : ∀ onto : Environment, ∃ copy heap,
    env.transfer value onto = .ok (copy, { onto with heap := heap })

theorem Environment.WellFormed.followable {env : Environment} {value : Value}
    (wellFormed : env.WellFormed) (fits : value.WellFormed env.heap) : env.Followable value := by
  have sound := Environment.wellFormed_iff_sound.1 wellFormed
  obtain ⟨hops, target, leads⟩ := sound.leads (Value.wellFormed_iff_sound.1 fits)
  refine ⟨⟨hops, target, leads⟩, ?_⟩
  intro onto
  obtain ⟨copy, heap, transferred, _⟩ := Environment.transfer_of_leads leads onto
  exact ⟨copy, heap, transferred⟩

theorem State.WellFormed.takeAnswer {state : State} (wellFormed : state.WellFormed) :
    state.takeAnswer.2.WellFormed ∧
      ∀ fault, state.takeAnswer.1 = .error fault → ¬ fault.IsStray := by
  obtain ⟨answer, taken⟩ := (State.wellFormed_iff_sound.1 wellFormed).takeAnswer_ok
  refine ⟨⟨?_, ?_⟩, ?_⟩
  · intro value member
    rw [state.takeAnswer_env]
    exact wellFormed.stack value (state.takeAnswer_stack_subset member)
  · rw [state.takeAnswer_env]
    exact wellFormed.env
  · intro fault failed
    rw [taken] at failed
    cases failed

/-- Whatever code without stray literals does in a well-formed state, and wherever it stops, the
state is well formed at every point; no address leads nowhere, and every chain of pointers ends. -/
theorem runs_stay_wellFormed (code : List Instr) (before : State)
    (literals : LiteralsWellFormed code) (wellFormed : before.WellFormed) :
    (∀ (depth : Nat) (fault : Option Fault) (after : State),
      Ends depth code before fault after → after.WellFormed) ∧
    (∀ (depth : Nat) (ended : Run Instr), run depth code before.env = some ended →
      ended.state.WellFormed ∧ ∀ fault, ended.answer = .error fault → ¬ fault.IsStray) ∧
    ∀ (instr : Instr) (later : List Instr) (state : State),
      Reaches code before (instr :: later) state → state.WellFormed ∧
        (∀ value, value.WellFormed state.env.heap → state.env.Followable value) ∧
        ∀ (depth : Nat) (fault : Option Fault) (after : State),
          instr.Acts depth state fault after →
          after.WellFormed ∧ ∀ stop, fault = some stop → ¬ stop.IsStray := by
  have closed := literalsRule_closed
  have sound := State.wellFormed_iff_sound.1 wellFormed
  refine ⟨?_, ?_, ?_⟩
  · intro depth fault after ends
    exact State.wellFormed_iff_sound.2 (ends.sound closed sound literals)
  · intro depth ended ran
    obtain ⟨ending, executed, rfl⟩ := Option.map_eq_some_iff.1 ran
    obtain ⟨after, fault, pending, events⟩ := ending
    have ends : Ends depth code ⟨[], before.env⟩ fault after := ⟨pending, events, executed⟩
    have startSound : State.Sound literalsRule ⟨[], before.env⟩ := ⟨by simp, sound.env⟩
    have afterWellFormed := State.wellFormed_iff_sound.2 (ends.sound closed startSound literals)
    cases fault with
    | none => exact afterWellFormed.takeAnswer
    | some stop =>
        refine ⟨afterWellFormed, ?_⟩
        intro fault failed
        rw [← Except.error.inj failed]
        exact ends.not_stray closed startSound literals
  · intro instr later state reached
    obtain ⟨stateSound, allowed⟩ := reached.sound closed sound literals
    have stateWellFormed := State.wellFormed_iff_sound.2 stateSound
    refine ⟨stateWellFormed, fun value fits => stateWellFormed.env.followable fits, ?_⟩
    intro depth fault after acts
    refine ⟨State.wellFormed_iff_sound.2
      (acts.sound closed (fun ran => ran.sound closed) stateSound allowed), ?_⟩
    rintro stop rfl
    have ends : Ends (depth + 1) (instr :: later) state (some stop) after :=
      ends_cons_iff.2 (Or.inl ⟨rfl, acts⟩)
    exact ends.not_stray closed stateSound allowed

def echo : Value := .closure ["x"] [.store "x", .lookup "x"] .empty

def textOnStack : State := ⟨[.pointer 0], ⟨[.bytes [104, 105]], .empty⟩⟩

theorem runs_stay_wellFormed_echo :
    LiteralsWellFormed [.pushLiteral echo, .call 1] ∧ textOnStack.WellFormed ∧
      ∃ after, Ends 2 [.pushLiteral echo, .call 1] textOnStack none after ∧
        after.stack = [.pointer 1] ∧ after.WellFormed := by
  have echoWellFormed : ∀ heap, echo.WellFormed heap := by
    intro heap
    have unpushed : ∀ value, ¬ Pushes value [.store "x", .lookup "x"] := by
      rintro value (_ | _ | ⟨_ | _ | ⟨pushed⟩⟩)
      cases pushed
    refine .closure heap (fun value pushed => absurd pushed (unpushed value))
      (fun value pushed => absurd pushed (unpushed value)) ?_ ?_
    · intro index value found
      simp [Environment.empty] at found
    · intro name address found
      simp [Environment.empty] at found
  have literals : LiteralsWellFormed [.pushLiteral echo, .call 1] := by
    rintro value (_ | _ | ⟨_ | _ | ⟨pushed⟩⟩)
    · exact ⟨by simp [echo], echoWellFormed⟩
    · cases pushed
  have wellFormed : textOnStack.WellFormed := by
    refine ⟨?_, ?_, ?_⟩
    · intro value member
      rw [List.mem_singleton.1 member]
      exact .pointer Nat.one_pos
    · intro index value found
      rw [List.mem_singleton.1 (List.mem_of_getElem? found)]
      exact .bytes _ _
    · intro name address found
      simp [textOnStack] at found
  have ends : Ends 2 [.pushLiteral echo, .call 1] textOnStack none _ := ⟨_, _, rfl⟩
  exact ⟨literals, wellFormed, _, ends, rfl,
    (runs_stay_wellFormed _ _ literals wellFormed).1 2 none _ ends⟩

def strayClosure : Value := .closure [] [.lookup "x"] ⟨[], Table.empty.set "x" 0⟩

def countsFromEnd : Environment := ⟨[], Table.empty.set "x" (-1)⟩

/-- It is not enough that pointers of the stack lead somewhere, nor that addresses are small. -/
theorem stray_addresses_fault :
    (LiteralsWellFormed [.call 0] ∧ Environment.empty.WellFormed ∧
      (∀ address, .pointer address ∈ [strayClosure] → address < Environment.empty.heap.length) ∧
      Ends 2 [.call 0] ⟨[strayClosure], .empty⟩ (some (.badAddress 0)) ⟨[], .empty⟩ ∧
      Ends 1 [] ⟨[strayClosure], .empty⟩ none ⟨[strayClosure], .empty⟩ ∧
      ¬ strayClosure.WellFormed []) ∧
    (∀ name address, countsFromEnd.symbols.get? name = some address →
      address < countsFromEnd.heap.length) ∧
      Ends 1 [.lookup "x"] ⟨[], countsFromEnd⟩ (some (.badAddress (-1))) ⟨[], countsFromEnd⟩ := by
  refine ⟨⟨?_, ?_, ?_, ⟨_, _, rfl⟩, ⟨_, _, rfl⟩, ?_⟩, ?_, ⟨_, _, rfl⟩⟩
  · rintro value (_ | _ | ⟨pushed⟩)
    cases pushed
  · exact Environment.wellFormed_iff_sound.2 Environment.sound_empty
  · intro address member
    simp [strayClosure] at member
  · intro wellFormed
    cases wellFormed with
    | closure _ _ _ _ symbols =>
        obtain ⟨place, _, bound⟩ := symbols "x" 0 rfl
        simp at bound
  · intro name address found
    simp only [countsFromEnd, Table.get?_set, Table.get?_empty] at found
    split at found
    · rw [← Option.some.inj found]
      decide
    · cases found

end LetStack
