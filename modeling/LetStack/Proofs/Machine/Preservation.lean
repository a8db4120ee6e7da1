import LetStack.Proofs.Machine.Soundness

/-!
Sound states stay sound while code runs that a rule allows, at every point of the run and inside
every body that it enters.
-/

namespace LetStack

structure Rule.Closed (rule : Rule) : Prop where
  rest : ∀ {instr : Instr} {later : List Instr} {before after : Table Int},
    rule (instr :: later) before →
    (∀ name, before.contains name = true → after.contains name = true) →
    (∀ name, instr = .store name → after.contains name = true) → rule later after
  literal : ∀ {value : Value} {later : List Instr} {symbols : Table Int},
    rule (.pushLiteral value :: later) symbols → ∀ heap, value.Sound rule heap
  closure : ∀ {params : List String} {body later : List Instr} {symbols : Table Int},
    rule (.makeClosure params body :: later) symbols → rule body symbols

def Rule.Binds (rule : Rule) : Prop :=
  ∀ {name : String} {later : List Instr} {symbols : Table Int},
    rule (.lookup name :: later) symbols → symbols.contains name = true

variable {rule : Rule}

namespace State

theorem seed_sound {caller : Environment} (callerSound : caller.Sound rule) (popped : List Value)
    (fits : ∀ value ∈ popped, value.Sound rule caller.heap) : ∀ callee : State,
    callee.Sound rule → ∃ start, seed caller popped callee = .ok start ∧ start.Sound rule ∧
      start.env.symbols = callee.env.symbols := by
  induction popped with
  | nil => exact fun callee sound => ⟨callee, rfl, sound, rfl⟩
  | cons arg rest ih =>
      intro callee sound
      obtain ⟨copy, heap, transferred, grown, heapSound, copySound⟩ :=
        callerSound.transfer (fits arg List.mem_cons_self) sound.env
      have fitsRest : ∀ value ∈ rest, value.Sound rule caller.heap :=
        fun value member => fits value (List.mem_cons_of_mem _ member)
      have pushed : State.Sound rule ⟨copy :: callee.stack, { callee.env with heap := heap }⟩ := by
        refine ⟨?_, heapSound⟩
        intro value member
        rcases List.mem_cons.1 member with rfl | below
        · exact copySound
        · exact (sound.stack value below).extend grown
      obtain ⟨start, seeded, startSound, symbols⟩ := ih fitsRest _ pushed
      refine ⟨start, ?_, startSound, symbols⟩
      simp only [seed, transferred, Bind.bind, Except.bind, seeded]

theorem Sound.seeds {state : State} {params : List String} {body : List Instr}
    {captured : Environment} {args below : List Value} (sound : state.Sound rule)
    (shape : state.stack = .closure params body captured :: (args ++ below)) :
    rule body captured.symbols ∧ ∃ start, seed state.env args ⟨[], captured⟩ = .ok start ∧
      start.Sound rule ∧ start.env.symbols = captured.symbols := by
  have closure : (Value.closure params body captured).Sound rule state.env.heap :=
    sound.stack _ (by simp [shape])
  obtain ⟨allowed, capturedSound⟩ := Value.Sound.closure_iff.1 closure
  have fits : ∀ value ∈ args, value.Sound rule state.env.heap :=
    fun value member => sound.stack value (by simp [shape, member])
  exact ⟨allowed, seed_sound sound.env args fits ⟨[], captured⟩ ⟨by simp, capturedSound⟩⟩

theorem Sound.enters {state : State} {argCount : Nat} {entry : Activation}
    (sound : state.Sound rule) (entered : state.Enters argCount entry) :
    entry.start.Sound rule ∧ entry.start.env.symbols = entry.captured.symbols ∧
      rule entry.body entry.captured.symbols := by
  obtain ⟨popped, shape, _, _, _, seeded⟩ := entered
  obtain ⟨allowed, start, again, startSound, symbols⟩ := sound.seeds shape
  rw [seeded, Except.ok.injEq] at again
  subst again
  exact ⟨startSound, symbols, allowed⟩

theorem Sound.args {state : State} {argCount : Nat} {entry : Activation}
    (sound : state.Sound rule) (entered : state.Enters argCount entry) : ∃ args,
      state.stack = .closure entry.params entry.body entry.captured ::
        (args.reverse ++ entry.caller.stack) ∧ args.length = argCount ∧
      entry.captured.heap <+: entry.start.env.heap ∧
      List.Forall₂ (fun value arg => ∀ hops target, Leads state.env.heap arg hops target →
        Leads entry.start.env.heap value hops target) entry.start.stack args := by
  obtain ⟨popped, shape, count, _, _, seeded⟩ := entered
  have reads := readsAs_itself fun arg (member : arg ∈ popped) =>
    sound.env.leads (sound.stack arg (by simp [shape, member]))
  obtain ⟨copies, heap, again, grown, copied⟩ := seed_reads reads ⟨[], entry.captured⟩
  rw [seeded, Except.ok.injEq, List.append_nil] at again
  rw [again]
  refine ⟨popped.reverse, by rw [List.reverse_reverse, shape], by rw [List.length_reverse, count],
    grown, ?_⟩
  apply List.rel_reverse
  apply copied.imp
  rintro copy arg ⟨hops, target, leads, argLeads⟩ count other argLeadsToo
  obtain ⟨rfl, rfl⟩ := argLeads.unique argLeadsToo
  exact leads

theorem Sound.caller {state : State} {argCount : Nat} {entry : Activation}
    (sound : state.Sound rule) (entered : state.Enters argCount entry) :
    entry.caller.Sound rule := by
  obtain ⟨popped, shape, _, _, sameEnv, _⟩ := entered
  refine ⟨?_, sameEnv ▸ sound.env⟩
  intro value member
  rw [sameEnv]
  exact sound.stack value (by simp [shape, member])

theorem Sound.leaves {caller callee after : State} {params : List String}
    {ended fault : Option Fault} (callerSound : caller.Sound rule) (calleeSound : callee.Sound rule)
    (left : caller.Leaves params ended callee fault after) :
    fault = ended ∧ caller.env.Absorbs params callee.env after.env ∧ after.Sound rule := by
  obtain ⟨noFault, absorbed⟩ := merge_absorbs params calleeSound.env.readable caller.env
  have mergedSound := calleeSound.env.merge params callerSound.env
  have stackSound : ∀ {heap : List Value}, caller.env.heap <+: heap →
      ∀ value ∈ caller.stack, value.Sound rule heap :=
    fun grown value member => (callerSound.stack value member).extend grown
  obtain ⟨rfl, rfl⟩ := left
  cases ended with
  | some stop =>
      simp only [leaveCall, noFault, Option.none_or]
      exact ⟨trivial, absorbed, stackSound absorbed.heap, mergedSound⟩
  | none =>
      cases results : callee.stack with
      | nil =>
          simp only [leaveCall, noFault, Option.none_or, results]
          exact ⟨trivial, absorbed, stackSound absorbed.heap, mergedSound⟩
      | cons result rest =>
          obtain ⟨copy, heap, transferred, grown, heapSound, copySound⟩ :=
            calleeSound.env.transfer (calleeSound.stack result (by simp [results])) mergedSound
          simp only [leaveCall, noFault, Option.none_or, results, transferred]
          refine ⟨trivial, absorbed.grow grown, ?_, heapSound⟩
          intro value member
          rcases List.mem_cons.1 member with rfl | below
          · exact copySound
          · exact stackSound (absorbed.heap.trans grown) value below

theorem Sound.returns {before callee after : State} {argCount : Nat} {entry : Activation}
    {ended fault : Option Fault} (sound : before.Sound rule) (entered : before.Enters argCount entry)
    (calleeSound : callee.Sound rule)
    (left : entry.caller.Leaves entry.params ended callee fault after) :
    fault = ended ∧ before.env.Absorbs entry.params callee.env after.env ∧ after.Sound rule := by
  have returned := (sound.caller entered).leaves calleeSound left
  obtain ⟨_, _, _, _, sameEnv, _⟩ := entered
  rw [sameEnv] at returned
  exact returned

end State

namespace Instr

variable {depth : Nat} {instr : Instr} {before after : State} {fault : Option Fault}

theorem Acts.sound (closed : rule.Closed) {later : List Instr}
    (bodies : ∀ {body start ended callee}, Ends depth body start ended callee →
      start.Sound rule → rule body start.env.symbols → callee.Sound rule)
    (acts : instr.Acts depth before fault after) (sound : before.Sound rule)
    (allowed : rule (instr :: later) before.env.symbols) : after.Sound rule := by
  refine State.placed_ofRule_iff.1 <| acts.placed (Placement.lawful_ofRule rule)
    (State.placed_ofRule_iff.2 sound) ?_ ?_ ?_
  · rintro value rfl
    exact ⟨closed.literal allowed _, trivial⟩
  · rintro params body rfl
    exact Value.Sound.closure_iff.2 ⟨closed.closure allowed, sound.env⟩
  · rintro argCount entry ended callee rfl entered ran
    obtain ⟨startSound, symbols, bodyAllowed⟩ := sound.enters entered
    exact State.placed_ofRule_iff.2 (bodies ran startSound (symbols ▸ bodyAllowed))

theorem Acts.rest (closed : rule.Closed) {later : List Instr}
    (acts : instr.Acts depth before none after) (allowed : rule (instr :: later) before.env.symbols) :
    rule later after.env.symbols := by
  apply closed.rest allowed
  · intro name bound
    exact (acts.contains_iff name).2 (Or.inl bound)
  · intro name stored
    exact (acts.contains_iff name).2 (Or.inr ⟨stored, rfl⟩)

end Instr

theorem Ends.sound {depth : Nat} {code : List Instr} {before after : State}
    {fault : Option Fault} (ends : Ends depth code before fault after) (closed : rule.Closed)
    (sound : before.Sound rule) (allowed : rule code before.env.symbols) : after.Sound rule := by
  induction ends using Ends.induction with
  | nil => exact sound
  | stop _ bodies acts => exact acts.sound closed bodies sound allowed
  | next bodies acts _ ih =>
      exact ih (acts.sound closed bodies sound allowed) (acts.rest closed allowed)

theorem State.Sound.callee (closed : rule.Closed) {depth argCount : Nat} {before callee : State}
    {entry : Activation} {ended : Option Fault} (sound : before.Sound rule)
    (entered : before.Enters argCount entry)
    (ran : Ends depth entry.body entry.start ended callee) : callee.Sound rule := by
  obtain ⟨startSound, symbols, allowed⟩ := sound.enters entered
  exact ran.sound closed startSound (symbols ▸ allowed)

theorem State.Sound.calls (closed : rule.Closed) {depth argCount : Nat} {before callee : State}
    {entry : Activation} {ended : Option Fault} (sound : before.Sound rule)
    (entered : before.Enters argCount entry)
    (ran : Ends depth entry.body entry.start ended callee) :
    ∃ after, (Instr.call argCount).Acts depth before ended after ∧
      before.env.Absorbs entry.params callee.env after.env := by
  have calleeSound := sound.callee closed entered ran
  obtain ⟨same, absorbed, _⟩ := sound.returns entered calleeSound ⟨rfl, rfl⟩
  exact ⟨_, Instr.acts_call_of_enters entered ran ⟨same, rfl⟩, absorbed⟩

theorem State.Sound.stores_uncaptured {depth argCount : Nat} {before callee : State}
    {entry : Activation} {ended : Option Fault} {name : String} (sound : before.Sound rule)
    (entered : before.Enters argCount entry)
    (ran : Ends depth entry.body entry.start ended callee)
    (uncaptured : entry.captured.symbols.contains name = false)
    (bound : callee.env.symbols.contains name = true) : .store name ∈ entry.body := by
  rcases ran.contains_cases bound with boundAtStart | stored
  · rw [(sound.enters entered).2.1, uncaptured] at boundAtStart
    simp at boundAtStart
  · exact stored

end LetStack
