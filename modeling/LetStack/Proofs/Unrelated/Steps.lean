import LetStack.Proofs.Machine.Soundness
import LetStack.Proofs.Unrelated.Alike

/-!
Code that keeps apart from a name does the same in two states that are alike but for it: both runs
end with the same fault or none, and in states that are alike.
-/

namespace LetStack

variable {hidden : String}

theorem Operator.apply_alike (operator : Operator) {leftHeap rightHeap : List Value}
    {left right leftToo rightToo : Value} (lefts : AlikeIn hidden leftHeap rightHeap left leftToo)
    (rights : AlikeIn hidden leftHeap rightHeap right rightToo) :
    operator.apply left right = operator.apply leftToo rightToo := by
  obtain ⟨_, _, _, leads, leadsToo, alike⟩ := lefts
  obtain ⟨_, _, _, further, furtherToo, also⟩ := rights
  cases alike <;> cases leads <;> cases leadsToo <;>
    cases also <;> cases further <;> cases furtherToo <;> rfl

theorem AlikeIn.transfer {left right : Environment} {value other : Value}
    (alike : AlikeIn hidden left.heap right.heap value other) (onto ontoToo : Environment) :
    ∃ copy heap copyToo longer, left.transfer value onto = .ok (copy, { onto with heap := heap }) ∧
      right.transfer other ontoToo = .ok (copyToo, { ontoToo with heap := longer }) ∧
      onto.heap <+: heap ∧ ontoToo.heap <+: longer ∧ AlikeIn hidden heap longer copy copyToo := by
  obtain ⟨hops, target, twin, leads, leadsToo, alike⟩ := alike
  obtain ⟨copy, heap, transferred, grown, copied⟩ := Environment.transfer_of_leads leads onto
  obtain ⟨copyToo, longer, transferredToo, grownToo, copiedToo⟩ :=
    Environment.transfer_of_leads leadsToo ontoToo
  exact ⟨copy, heap, copyToo, longer, transferred, transferredToo, grown, grownToo, hops, target,
    twin, copied, copiedToo, alike⟩

namespace State

theorem seed_alike {left right : Environment} {popped others : List Value}
    (args : List.Forall₂ (AlikeIn hidden left.heap right.heap) popped others) :
    ∀ callee calleeToo : State, callee.AlikeBut hidden calleeToo → ∃ start startToo,
      seed left popped callee = .ok start ∧ seed right others calleeToo = .ok startToo ∧
      start.AlikeBut hidden startToo := by
  induction args with
  | nil => exact fun callee calleeToo alike => ⟨callee, calleeToo, rfl, rfl, alike⟩
  | @cons arg other rest restToo pair _ ih =>
      intro callee calleeToo alike
      obtain ⟨copy, heap, copyToo, longer, transferred, transferredToo, grown, grownToo, copied⟩ :=
        pair.transfer callee.env calleeToo.env
      have pushed : State.AlikeBut hidden ⟨copy :: callee.stack, { callee.env with heap := heap }⟩
          ⟨copyToo :: calleeToo.stack, { calleeToo.env with heap := longer }⟩ :=
        ⟨.cons copied (alikeIn_extend alike.stack grown grownToo), alike.env.grow grown grownToo⟩
      obtain ⟨start, startToo, seeded, seededToo, started⟩ := ih _ _ pushed
      refine ⟨start, startToo, ?_, ?_, started⟩
      · simp only [seed, transferred, Bind.bind, Except.bind, seeded]
      · simp only [seed, transferredToo, Bind.bind, Except.bind, seededToo]

theorem Leaves.alike {caller callerToo callee calleeToo after : State} {params : List String}
    {ended fault : Option Fault} (left : caller.Leaves params ended callee fault after)
    (callers : caller.AlikeBut hidden callerToo) (callees : callee.AlikeBut hidden calleeToo) :
    ∃ afterToo, callerToo.Leaves params ended calleeToo fault afterToo ∧
      after.AlikeBut hidden afterToo := by
  obtain ⟨stack, env⟩ := callee
  obtain ⟨stackToo, envToo⟩ := calleeToo
  obtain ⟨entries, envs⟩ := callees
  have readable := envs.leftReadable
  have readableToo := envs.rightReadable
  have unanswered : ∀ {last lastToo : Environment}, caller.env.Absorbs params env last →
      callerToo.env.Absorbs params envToo lastToo →
      State.AlikeBut hidden ⟨caller.stack, last⟩ ⟨callerToo.stack, lastToo⟩ :=
    fun absorbed absorbedToo => ⟨alikeIn_extend callers.stack absorbed.heap absorbedToo.heap,
      callers.env.absorb envs absorbed absorbedToo⟩
  cases ended with
  | some stop =>
      obtain ⟨last, leaves, absorbed⟩ := @leaves_of_fault caller params stack env readable stop
      obtain ⟨lastToo, leavesToo, absorbedToo⟩ :=
        @leaves_of_fault callerToo params stackToo envToo readableToo stop
      obtain ⟨rfl, rfl⟩ := left.unique leaves
      exact ⟨_, leavesToo, unanswered absorbed absorbedToo⟩
  | none =>
      cases entries with
      | nil =>
          obtain ⟨last, leaves, absorbed⟩ := caller.leaves_of_empty params readable
          obtain ⟨lastToo, leavesToo, absorbedToo⟩ := callerToo.leaves_of_empty params readableToo
          obtain ⟨rfl, rfl⟩ := left.unique leaves
          exact ⟨_, leavesToo, unanswered absorbed absorbedToo⟩
      | @cons result resultToo rest restToo pair _ =>
          obtain ⟨hops, target, twin, leads, leadsToo, pair⟩ := pair
          obtain ⟨copy, last, leaves, absorbed, copied⟩ :=
            caller.leaves_of_result params readable rest leads
          obtain ⟨copyToo, lastToo, leavesToo, absorbedToo, copiedToo⟩ :=
            callerToo.leaves_of_result params readableToo restToo leadsToo
          obtain ⟨rfl, rfl⟩ := left.unique leaves
          obtain ⟨below, after⟩ := unanswered absorbed absorbedToo
          exact ⟨_, leavesToo, .cons ⟨hops, target, twin, copied, copiedToo, pair⟩ below, after⟩

namespace AlikeBut

variable {before beforeToo : State}

theorem arithmetic (alike : before.AlikeBut hidden beforeToo) (operator : Operator) :
    (before.arithmetic operator).fault = (beforeToo.arithmetic operator).fault ∧
      (before.arithmetic operator).state.AlikeBut hidden (beforeToo.arithmetic operator).state := by
  obtain ⟨stack, env⟩ := before
  obtain ⟨stackToo, envToo⟩ := beforeToo
  obtain ⟨entries, envs⟩ := alike
  cases entries with
  | nil => exact ⟨rfl, .nil, envs⟩
  | cons rights more =>
      cases more with
      | nil => exact ⟨rfl, .nil, envs⟩
      | @cons left leftToo rest restToo lefts rests =>
          have same := operator.apply_alike lefts rights
          simp only [State.arithmetic, ← same]
          split
          · rename_i result applied
            refine ⟨rfl, .cons ?_ rests, envs⟩
            rcases Operator.apply_ok applied with ⟨value, rfl, _⟩ | ⟨value, rfl⟩
            · exact .int value
            · exact .float value
          · exact ⟨rfl, rests, envs⟩

theorem lookup (alike : before.AlikeBut hidden beforeToo) {name : String}
    (different : name ≠ hidden) :
    (before.lookup name).fault = (beforeToo.lookup name).fault ∧
      (before.lookup name).state.AlikeBut hidden (beforeToo.lookup name).state := by
  obtain ⟨stack, env⟩ := before
  obtain ⟨stackToo, envToo⟩ := beforeToo
  obtain ⟨entries, envs⟩ := alike
  have names : env.symbols.contains name = envToo.symbols.contains name :=
    envs.names name different
  cases bound : env.symbols.contains name with
  | false =>
      rw [bound] at names
      rw [lookup_of_unbound stack ((Table.contains_eq_false_iff _ _).1 bound),
        lookup_of_unbound stackToo ((Table.contains_eq_false_iff _ _).1 names.symm)]
      exact ⟨rfl, entries, envs⟩
  | true =>
      obtain ⟨hops, target, binds⟩ := envs.leftReadable name bound
      obtain ⟨twin, bindsToo, pair⟩ := envs.values name hops target different binds
      obtain ⟨value, found, leads⟩ := lookup_of_binds stack binds
      obtain ⟨other, foundToo, leadsToo⟩ := lookup_of_binds stackToo bindsToo
      rw [found, foundToo]
      exact ⟨rfl, .cons ⟨hops, target, twin, leads, leadsToo, pair⟩ entries, envs⟩

theorem store (alike : before.AlikeBut hidden beforeToo) (name : String) :
    (before.store name).fault = (beforeToo.store name).fault ∧
      (before.store name).state.AlikeBut hidden (beforeToo.store name).state := by
  obtain ⟨stack, env⟩ := before
  obtain ⟨stackToo, envToo⟩ := beforeToo
  obtain ⟨entries, envs⟩ := alike
  cases entries with
  | nil => exact ⟨rfl, .nil, envs⟩
  | @cons value other rest restToo pair rests =>
      exact ⟨rfl, alikeIn_extend rests (env.heap_prefix_bind name value)
        (envToo.heap_prefix_bind name other), envs.bind pair name⟩

end AlikeBut

end State

theorem exists_matching_split {related : Value → Value → Prop} {callee : Value}
    {popped below stack : List Value}
    (matching : List.Forall₂ related (callee :: (popped ++ below)) stack) :
    ∃ calleeToo poppedToo belowToo, stack = calleeToo :: (poppedToo ++ belowToo) ∧
      poppedToo.length = popped.length ∧ related callee calleeToo ∧
      List.Forall₂ related popped poppedToo ∧ List.Forall₂ related below belowToo := by
  cases matching with
  | @cons _ calleeToo _ rest pair more =>
      have operands := List.forall₂_take_append rest popped below more.flip
      have further := List.forall₂_drop_append rest popped below more.flip
      exact ⟨calleeToo, rest.take popped.length, rest.drop popped.length,
        by rw [List.take_append_drop], operands.length_eq, pair, operands.flip, further.flip⟩

namespace State

variable {before beforeToo after : State} {argCount : Nat}

theorem Refuses.alike {stop : Fault} (refused : before.Refuses argCount stop after)
    (alike : before.AlikeBut hidden beforeToo) :
    ∃ afterToo, beforeToo.Refuses argCount stop afterToo ∧ after.AlikeBut hidden afterToo := by
  obtain ⟨stack, env⟩ := before
  obtain ⟨stackToo, envToo⟩ := beforeToo
  obtain ⟨entries, envs⟩ := alike
  simp only at entries envs
  cases refused with
  | underflow few =>
      have fewToo : stackToo.length ≤ argCount := entries.length_eq ▸ few
      exact ⟨_, .underflow fewToo, .nil, envs⟩
  | notCallable shape count notClosure =>
      simp only at shape
      subst shape
      obtain ⟨calleeToo, poppedToo, belowToo, rfl, countToo, pair, _, rests⟩ :=
        exists_matching_split entries
      rw [pair.kind_eq]
      refine ⟨_, .notCallable rfl (countToo.trans count) ?_, rests, envs⟩
      rintro params body captured rfl
      obtain ⟨env, rfl⟩ := pair.closure_of_closure
      exact notClosure params body env rfl
  | argumentCount shape count wrong =>
      simp only at shape
      subst shape
      obtain ⟨calleeToo, poppedToo, belowToo, rfl, countToo, pair, _, rests⟩ :=
        exists_matching_split entries
      obtain ⟨_, capturedToo, rfl, _⟩ := pair.closure_inv
      exact ⟨_, .argumentCount rfl (countToo.trans count) wrong, rests, envs⟩
  | lostArgument shape count arity seeded =>
      simp only at shape seeded
      subst shape
      obtain ⟨calleeToo, poppedToo, belowToo, rfl, countToo, pair, args, _⟩ :=
        exists_matching_split entries
      obtain ⟨_, capturedToo, rfl, captures⟩ := pair.closure_inv
      obtain ⟨start, _, again, _⟩ := seed_alike args ⟨[], _⟩ ⟨[], _⟩ ⟨.nil, captures⟩
      rw [seeded] at again
      cases again

theorem Enters.alike {entry : Activation} (entered : before.Enters argCount entry)
    (alike : before.AlikeBut hidden beforeToo) : CodeApart hidden entry.body ∧
      ∃ entryToo, beforeToo.Enters argCount entryToo ∧ entryToo.params = entry.params ∧
        entryToo.body = entry.body ∧ entry.caller.AlikeBut hidden entryToo.caller ∧
        entry.start.AlikeBut hidden entryToo.start := by
  obtain ⟨stack, env⟩ := before
  obtain ⟨stackToo, envToo⟩ := beforeToo
  obtain ⟨entries, envs⟩ := alike
  obtain ⟨params, body, captured, ⟨below, callerEnv⟩, start⟩ := entry
  obtain ⟨popped, shape, count, arity, sameEnv, seeded⟩ := entered
  simp only at entries envs shape count arity sameEnv seeded
  subst shape sameEnv
  obtain ⟨calleeToo, poppedToo, belowToo, rfl, countToo, pair, args, rests⟩ :=
    exists_matching_split entries
  obtain ⟨apart, capturedToo, rfl, captures⟩ := pair.closure_inv
  obtain ⟨_, startToo, again, seededToo, started⟩ :=
    seed_alike args ⟨[], _⟩ ⟨[], _⟩ ⟨.nil, captures⟩
  rw [seeded, Except.ok.injEq] at again
  subst again
  exact ⟨apart, ⟨params, body, capturedToo, ⟨belowToo, envToo⟩, startToo⟩,
    ⟨poppedToo, rfl, countToo.trans count, arity, rfl, seededToo⟩, rfl, rfl, ⟨rests, envs⟩, started⟩

end State

namespace Instr

variable {depth : Nat} {before beforeToo after : State} {fault : Option Fault}

def BodiesAlike (hidden : String) (depth : Nat) : Prop :=
  ∀ {body : List Instr} {start callee startToo : State} {ended : Option Fault},
    Ends depth body start ended callee → CodeApart hidden body → start.AlikeBut hidden startToo →
    ∃ calleeToo, Ends depth body startToo ended calleeToo ∧ callee.AlikeBut hidden calleeToo

theorem Acts.alike_call {argCount : Nat} (bodies : BodiesAlike hidden depth)
    (acts : (call argCount).Acts depth before fault after)
    (alike : before.AlikeBut hidden beforeToo) :
    ∃ afterToo, (call argCount).Acts depth beforeToo fault afterToo ∧
      after.AlikeBut hidden afterToo := by
  rcases acts_call_cases acts with ⟨stop, rfl, refused⟩ |
    ⟨entry, ended, callee, entered, ran, left⟩
  · obtain ⟨afterToo, refusedToo, afters⟩ := refused.alike alike
    exact ⟨afterToo, acts_call_of_refuses refusedToo, afters⟩
  · obtain ⟨apart, entryToo, enteredToo, sameParams, sameBody, callers, starts⟩ :=
      entered.alike alike
    obtain ⟨calleeToo, ranToo, callees⟩ := bodies ran apart starts
    obtain ⟨afterToo, leftToo, afters⟩ := left.alike callers callees
    rw [← sameBody] at ranToo
    rw [← sameParams] at leftToo
    exact ⟨afterToo, acts_call_of_enters enteredToo ranToo leftToo, afters⟩

theorem Acts.alike {instr : Instr} (bodies : BodiesAlike hidden depth)
    (acts : instr.Acts depth before fault after) (apart : instr.Apart hidden)
    (alike : before.AlikeBut hidden beforeToo) :
    ∃ afterToo, instr.Acts depth beforeToo fault afterToo ∧ after.AlikeBut hidden afterToo := by
  have push : ∀ {value other : Value},
      AlikeIn hidden before.env.heap beforeToo.env.heap value other →
      (before.push value).AlikeBut hidden (beforeToo.push other) :=
    fun pair => ⟨.cons pair alike.stack, alike.env⟩
  cases apart with
  | int value =>
      obtain ⟨rfl, rfl⟩ := acts_pushLiteral_iff.1 acts
      exact ⟨_, acts_pushLiteral_iff.2 ⟨rfl, rfl⟩, push (.int value)⟩
  | float value =>
      obtain ⟨rfl, rfl⟩ := acts_pushLiteral_iff.1 acts
      exact ⟨_, acts_pushLiteral_iff.2 ⟨rfl, rfl⟩, push (.float value)⟩
  | bool value =>
      obtain ⟨rfl, rfl⟩ := acts_pushLiteral_iff.1 acts
      exact ⟨_, acts_pushLiteral_iff.2 ⟨rfl, rfl⟩, push (.bool value)⟩
  | allocateBytes content =>
      obtain ⟨rfl, rfl⟩ := acts_allocateBytes_iff.1 acts
      refine ⟨_, acts_allocateBytes_iff.2 ⟨rfl, rfl⟩, ?_⟩
      have grown := List.prefix_append before.env.heap [.bytes content]
      have grownToo := List.prefix_append beforeToo.env.heap [.bytes content]
      exact ⟨.cons (.bytes List.getElem?_concat_length List.getElem?_concat_length)
        (alikeIn_extend alike.stack grown grownToo), alike.env.grow grown grownToo⟩
  | makeClosure body =>
      obtain ⟨rfl, rfl⟩ := acts_makeClosure_iff.1 acts
      exact ⟨_, acts_makeClosure_iff.2 ⟨rfl, rfl⟩, push (.closure body alike.env)⟩
  | arithmetic operator =>
      obtain ⟨rfl, rfl⟩ := acts_arithmetic_iff.1 acts
      obtain ⟨same, afters⟩ := alike.arithmetic operator
      exact ⟨_, acts_arithmetic_iff.2 ⟨same, rfl⟩, afters⟩
  | lookup different =>
      obtain ⟨rfl, rfl⟩ := acts_lookup_iff.1 acts
      obtain ⟨same, afters⟩ := alike.lookup different
      exact ⟨_, acts_lookup_iff.2 ⟨same, rfl⟩, afters⟩
  | @store name _ =>
      obtain ⟨rfl, rfl⟩ := acts_store_iff.1 acts
      obtain ⟨same, afters⟩ := alike.store name
      exact ⟨_, acts_store_iff.2 ⟨same, rfl⟩, afters⟩
  | call argCount => exact acts.alike_call bodies alike

end Instr

theorem Ends.alike {depth : Nat} {code : List Instr} {before after beforeToo : State}
    {fault : Option Fault} (ends : Ends depth code before fault after)
    (apart : CodeApart hidden code) (alike : before.AlikeBut hidden beforeToo) :
    ∃ afterToo, Ends depth code beforeToo fault afterToo ∧ after.AlikeBut hidden afterToo := by
  induction ends using Ends.induction generalizing beforeToo with
  | nil => exact ⟨_, ends_nil_iff.2 ⟨rfl, rfl⟩, alike⟩
  | stop _ bodies acts =>
      obtain ⟨afterToo, actsToo, afters⟩ :=
        acts.alike (fun ran => bodies ran) (apart _ List.mem_cons_self) alike
      exact ⟨afterToo, ends_cons_iff.2 (Or.inl ⟨rfl, actsToo⟩), afters⟩
  | next bodies acts _ ih =>
      obtain ⟨middleToo, actsToo, middles⟩ :=
        acts.alike (fun ran => bodies ran) (apart _ List.mem_cons_self) alike
      obtain ⟨afterToo, endsToo, afters⟩ :=
        ih (fun later member => apart later (List.mem_cons_of_mem _ member)) middles
      exact ⟨afterToo, ends_cons_iff.2 (Or.inr ⟨middleToo, actsToo, endsToo⟩), afters⟩

end LetStack
