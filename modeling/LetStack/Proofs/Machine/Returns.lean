import LetStack.Proofs.Machine.WellFormed

/-! What a call leaves of its caller: the names that both sides know are merged, the result of the
body comes to lie on the stack, and nothing else changes. -/

namespace LetStack

structure State.TakesBack (caller : State) (params : List String) (ended : Option Fault)
    (callee after : State) : Prop where
  names : after.env.symbols.names = caller.env.symbols.names
  shared : ∀ name, callee.env.symbols.contains name = true →
    caller.env.symbols.contains name = true → name ∉ params →
    ∃ hops target, callee.env.Binds name hops target ∧ after.env.Binds name hops target
  kept : ∀ name, name ∈ params ∨ callee.env.symbols.contains name = false →
    after.env.symbols.get? name = caller.env.symbols.get? name
  heap : caller.env.heap <+: after.env.heap
  result : ∀ top below, ended = none → callee.stack = top :: below → ∃ copy hops target,
    after.stack = copy :: caller.stack ∧ Leads callee.env.heap top hops target ∧
      Leads after.env.heap copy hops target
  nothing : ended ≠ none ∨ callee.stack = [] → after.stack = caller.stack

theorem State.Sound.takesBack {rule : Rule} {caller callee after : State} {params : List String}
    {ended fault : Option Fault} (callerSound : caller.Sound rule) (calleeSound : callee.Sound rule)
    (left : caller.Leaves params ended callee fault after) :
    caller.TakesBack params ended callee after := by
  have readable := calleeSound.env.readable
  obtain ⟨_, absorbed, _⟩ := callerSound.leaves calleeSound left
  obtain ⟨stack, env⟩ := callee
  constructor
  · exact absorbed.names
  · intro name calleeBound callerBound notParam
    obtain ⟨hops, target, binds⟩ := readable name calleeBound
    exact ⟨hops, target, binds, absorbed.shared name hops target callerBound notParam binds⟩
  · exact absorbed.kept
  · exact absorbed.heap
  · rintro top below rfl rfl
    obtain ⟨hops, target, leads⟩ := calleeSound.env.leads (calleeSound.stack top List.mem_cons_self)
    obtain ⟨copy, last, leaves, _, copied⟩ := caller.leaves_of_result params readable below leads
    obtain ⟨_, rfl⟩ := left.unique leaves
    exact ⟨copy, hops, target, rfl, leads, copied⟩
  · intro nothing
    cases ended with
    | some stop =>
        obtain ⟨last, leaves, _⟩ := @leaves_of_fault caller params stack env readable stop
        rw [(left.unique leaves).2]
    | none =>
        have empty : stack = [] := nothing.resolve_left fun running => running rfl
        subst empty
        obtain ⟨last, leaves, _⟩ := caller.leaves_of_empty params readable
        rw [(left.unique leaves).2]

/-- A call with as many arguments as its closure has parameters runs the body, ends exactly as the
body does, with its fault if it has one, and changes its caller by the merge and the result alone. -/
theorem call_takes_back {before : State} {argCount : Nat} {params : List String}
    {body : List Instr} {captured : Environment} {args below : List Value}
    (wellFormed : before.WellFormed)
    (shape : before.stack = .closure params body captured :: (args.reverse ++ below))
    (count : args.length = argCount) (arity : argCount = params.length) :
    ∃ start, before.Enters argCount ⟨params, body, captured, ⟨below, before.env⟩, start⟩ ∧
      (∀ (depth : Nat) (ended : Option Fault) (callee : State),
        Ends depth body start ended callee →
        ∃ after, (Instr.call argCount).Acts depth before ended after) ∧
      ∀ (depth : Nat) (fault : Option Fault) (after : State),
        (Instr.call argCount).Acts depth before fault after →
        ∃ callee, Ends depth body start fault callee ∧
          State.TakesBack ⟨below, before.env⟩ params fault callee after := by
  have closed := literalsRule_closed
  have sound := State.wellFormed_iff_sound.1 wellFormed
  have capturedSound : captured.Sound literalsRule :=
    (Value.Sound.closure_iff.1 (sound.stack (.closure params body captured) (by simp [shape]))).2
  have fits : ∀ value ∈ args.reverse, value.Sound literalsRule before.env.heap :=
    fun value member => sound.stack value (by simp [shape, List.mem_reverse.1 member])
  obtain ⟨start, seeded, _⟩ :=
    State.seed_sound sound.env args.reverse fits ⟨[], captured⟩ ⟨by simp, capturedSound⟩
  have entered : before.Enters argCount ⟨params, body, captured, ⟨below, before.env⟩, start⟩ :=
    ⟨args.reverse, shape, by rw [List.length_reverse, count], arity, rfl, seeded⟩
  refine ⟨start, entered, ?_, ?_⟩
  · intro depth ended callee ran
    obtain ⟨after, acts, _⟩ := sound.calls closed entered ran
    exact ⟨after, acts⟩
  · intro depth fault after acts
    rcases Instr.acts_call_cases acts with ⟨stop, _, refused⟩ |
      ⟨entry, ended, callee, otherEntered, ran, left⟩
    · -- callee and arguments are as they should be
      cases Instr.Raises.of_refuses sound refused with
      | fewArguments few =>
          simp only [shape, List.length_cons, List.length_append, List.length_reverse] at few
          omega
      | notCallable otherShape notClosure =>
          rw [shape] at otherShape
          exact absurd (List.cons.inj otherShape).1.symm (notClosure params body captured)
      | argumentCount otherShape wrong =>
          rw [shape, List.cons.injEq, Value.closure.injEq] at otherShape
          obtain ⟨⟨rfl, _⟩, _⟩ := otherShape
          exact absurd arity wrong
    · obtain rfl := entered.unique otherEntered
      have calleeSound := sound.callee closed entered ran
      obtain ⟨rfl, _⟩ := sound.returns entered calleeSound left
      exact ⟨callee, ran, (sound.caller entered).takesBack calleeSound left⟩

def textCaller : Environment :=
  ((Environment.empty.allocate (.bytes [104])).bind "x" (.int 1)).bind "p" (.int 2)

def storesAndReturns : List Instr := [.store "p", .pushLiteral (.int 5), .store "x", .lookup "p"]

def textCall : State :=
  ⟨[.closure ["p"] storesAndReturns (Environment.empty.bind "x" (.int 0)), .pointer 0, .bool true],
    textCaller⟩

theorem call_takes_back_text : textCall.WellFormed ∧ ∃ after callee,
    (Instr.call 1).Acts 1 textCall none after ∧ after.stack = [.pointer 4, .bool true] ∧
      State.TakesBack ⟨[.bool true], textCaller⟩ ["p"] none callee after := by
  have callerSound : textCaller.Sound literalsRule :=
    ((Environment.sound_empty.allocate (.bytes _ _)).bind (.int _ _) "x").bind (.int _ _) "p"
  have literals : LiteralsWellFormed storesAndReturns := by
    rintro value (_ | _ | ⟨_ | _ | ⟨_ | _ | ⟨_ | _ | ⟨pushed⟩⟩⟩⟩)
    · exact ⟨nofun, fun heap => .int heap 5⟩
    · cases pushed
  have capturedSound : (Environment.empty.bind "x" (.int 0)).Sound literalsRule :=
    Environment.sound_empty.bind (.int _ _) "x"
  have sound : textCall.Sound literalsRule := by
    refine ⟨?_, callerSound⟩
    intro value member
    simp only [textCall, List.mem_cons, List.not_mem_nil, or_false] at member
    rcases member with rfl | rfl | rfl
    · exact Value.Sound.closure_iff.2 ⟨literals, capturedSound⟩
    · exact .pointer (by decide)
    · exact .bool _ _
  have wellFormed := State.wellFormed_iff_sound.2 sound
  have acts : (Instr.call 1).Acts 1 textCall none _ := ⟨_, rfl⟩
  have shape : textCall.stack = .closure ["p"] storesAndReturns
      (Environment.empty.bind "x" (.int 0)) :: ([Value.pointer 0].reverse ++ [.bool true]) := rfl
  obtain ⟨start, _, _, taken⟩ := call_takes_back wellFormed shape rfl rfl
  obtain ⟨callee, _, takesBack⟩ := taken 1 none _ acts
  exact ⟨wellFormed, _, callee, acts, rfl, takesBack⟩

end LetStack
