import LetStack.Machine.Run
import LetStack.Proofs.Machine.Pointers

/-!
What single instructions and lists of them can do to a state. The events of a run are left out, and
so is the depth to which its calls nest, other than as a bound.
-/

namespace LetStack

def Instr.Acts (depth : Nat) (instr : Instr) (before : State) (fault : Option Fault)
    (after : State) : Prop :=
  ∃ events, instr.step (execute depth) before = some ⟨after, fault, events⟩

/-- How a list of instructions ends when calls nest less deep than `depth`. -/
def Ends (depth : Nat) (code : List Instr) (before : State) (fault : Option Fault)
    (after : State) : Prop :=
  ∃ pending events, execute depth code before = some ⟨after, fault, pending, events⟩

theorem not_ends_zero {code : List Instr} {before after : State} {fault : Option Fault} :
    ¬ Ends 0 code before fault after := by
  rintro ⟨pending, events, ended⟩
  simp [execute] at ended

theorem ends_nil_iff {depth : Nat} {before after : State} {fault : Option Fault} :
    Ends (depth + 1) [] before fault after ↔ fault = none ∧ after = before := by
  constructor
  · rintro ⟨pending, events, ended⟩
    simp only [execute, drain, Option.some.injEq, Ending.mk.injEq] at ended
    exact ⟨ended.2.1.symm, ended.1.symm⟩
  · rintro ⟨rfl, rfl⟩
    exact ⟨[], [], rfl⟩

theorem ends_cons_iff {depth : Nat} {instr : Instr} {rest : List Instr} {before after : State}
    {fault : Option Fault} :
    Ends (depth + 1) (instr :: rest) before fault after ↔
      (fault.isSome = true ∧ instr.Acts depth before fault after) ∨
        ∃ middle, instr.Acts depth before none middle ∧
          Ends (depth + 1) rest middle fault after := by
  constructor
  · rintro ⟨pending, events, ended⟩
    simp only [execute, drain] at ended
    split at ended
    · simp at ended
    · rename_i stopped stoppedFault stoppedEvents stepped
      simp only [Option.some.injEq, Ending.mk.injEq] at ended
      obtain ⟨rfl, rfl, _⟩ := ended
      exact Or.inl ⟨rfl, stoppedEvents, stepped⟩
    · rename_i middle middleEvents stepped
      obtain ⟨ending, drained, same⟩ := Option.map_eq_some_iff.1 ended
      obtain ⟨last, lastFault, lastPending, lastEvents⟩ := ending
      simp only [Ending.mk.injEq] at same
      obtain ⟨rfl, rfl, rfl, _⟩ := same
      exact Or.inr ⟨middle, ⟨middleEvents, stepped⟩, lastPending, lastEvents, drained⟩
  · rintro (⟨failed, events, stepped⟩ | ⟨middle, ⟨events, stepped⟩, pending, more, drained⟩)
    · obtain ⟨stop, rfl⟩ := Option.isSome_iff_exists.1 failed
      exact ⟨rest, events, by simp only [execute, drain, stepped]⟩
    · refine ⟨pending, events ++ .executed instr.kind middle.stack.length
        middle.env.heap.length rest.length :: more, ?_⟩
      simp only [execute] at drained
      simp only [execute, drain, stepped, drained, Option.map_some]

theorem finished_cons_iff {depth : Nat} {instr : Instr} {rest : List Instr}
    {before after : State} :
    Ends (depth + 1) (instr :: rest) before none after ↔
      ∃ middle, instr.Acts depth before none middle ∧
        Ends (depth + 1) rest middle none after := by
  simp [ends_cons_iff]

/-- Induction over a run: on how deep calls nest, and for each depth on the code. -/
@[elab_as_elim]
theorem Ends.induction
    {motive : ∀ {depth : Nat} {code : List Instr} {before : State} {fault : Option Fault}
      {after : State}, Ends depth code before fault after → Prop}
    (nil : ∀ (depth : Nat) (state : State),
      motive (ends_nil_iff.2 ⟨rfl, rfl⟩ : Ends (depth + 1) [] state none state))
    (stop : ∀ {depth : Nat} {instr : Instr} (rest : List Instr) {before after : State}
      {fault : Fault},
      (∀ {body : List Instr} {start callee : State} {ended : Option Fault}
        (ran : Ends depth body start ended callee), motive ran) →
      ∀ acts : instr.Acts depth before (some fault) after,
        motive (ends_cons_iff.2 (Or.inl ⟨rfl, acts⟩) :
          Ends (depth + 1) (instr :: rest) before (some fault) after))
    (next : ∀ {depth : Nat} {instr : Instr} {rest : List Instr} {before middle after : State}
      {fault : Option Fault},
      (∀ {body : List Instr} {start callee : State} {ended : Option Fault}
        (ran : Ends depth body start ended callee), motive ran) →
      ∀ (acts : instr.Acts depth before none middle)
        (later : Ends (depth + 1) rest middle fault after), motive later →
        motive (ends_cons_iff.2 (Or.inr ⟨middle, acts, later⟩) :
          Ends (depth + 1) (instr :: rest) before fault after))
    {depth : Nat} {code : List Instr} {before : State} {fault : Option Fault} {after : State}
    (ends : Ends depth code before fault after) : motive ends := by
  induction depth generalizing code before fault after with
  | zero => exact absurd ends not_ends_zero
  | succ depth bodies =>
      induction code generalizing before with
      | nil =>
          obtain ⟨rfl, rfl⟩ := ends_nil_iff.1 ends
          exact nil depth after
      | cons instr rest ih =>
          rcases ends_cons_iff.1 ends with ⟨failed, acts⟩ | ⟨middle, acts, later⟩
          · obtain ⟨raised, rfl⟩ := Option.isSome_iff_exists.1 failed
            exact stop rest bodies acts
          · exact next bodies acts later (ih later)

@[elab_as_elim]
theorem Ends.finished_induction
    {motive : ∀ {depth : Nat} {code : List Instr} {before after : State},
      Ends depth code before none after → Prop}
    (nil : ∀ (depth : Nat) (state : State),
      motive (ends_nil_iff.2 ⟨rfl, rfl⟩ : Ends (depth + 1) [] state none state))
    (next : ∀ {depth : Nat} {instr : Instr} {rest : List Instr} {before middle after : State}
      (acts : instr.Acts depth before none middle)
      (later : Ends (depth + 1) rest middle none after), motive later →
        motive (ends_cons_iff.2 (Or.inr ⟨middle, acts, later⟩) :
          Ends (depth + 1) (instr :: rest) before none after))
    {depth : Nat} {code : List Instr} {before after : State}
    (finished : Ends depth code before none after) : motive finished := by
  suffices whole : ∀ {stop : Option Fault} (ends : Ends depth code before stop after)
      (same : stop = none), motive (same ▸ ends) from whole finished rfl
  intro stop ends same
  induction ends using Ends.induction with
  | nil depth state => exact nil depth state
  | stop => cases same
  | next _ acts later ih =>
      subst same
      exact next acts later (ih later rfl)

theorem ends_append_iff {depth : Nat} {first second : List Instr} {before after : State}
    {fault : Option Fault} :
    Ends (depth + 1) (first ++ second) before fault after ↔
      (fault.isSome = true ∧ Ends (depth + 1) first before fault after) ∨
        ∃ middle, Ends (depth + 1) first before none middle ∧
          Ends (depth + 1) second middle fault after := by
  induction first generalizing before with
  | nil =>
      simp only [List.nil_append, ends_nil_iff, true_and, exists_eq_left]
      refine ⟨Or.inr, ?_⟩
      rintro (⟨failed, rfl, _⟩ | ends)
      · simp at failed
      · exact ends
  | cons instr rest ih =>
      simp only [List.cons_append, ends_cons_iff, ih]
      constructor
      · rintro (⟨failed, acts⟩ | ⟨middle, acts, ⟨failed, ends⟩ | ⟨last, finished, ends⟩⟩)
        · exact Or.inl ⟨failed, Or.inl ⟨failed, acts⟩⟩
        · exact Or.inl ⟨failed, Or.inr ⟨middle, acts, ends⟩⟩
        · exact Or.inr ⟨last, Or.inr ⟨middle, acts, finished⟩, ends⟩
      · rintro (⟨failed, ⟨_, acts⟩ | ⟨middle, acts, ends⟩⟩ |
          ⟨last, ⟨impossible, _⟩ | ⟨middle, acts, finished⟩, ends⟩)
        · exact Or.inl ⟨failed, acts⟩
        · exact Or.inr ⟨middle, acts, Or.inl ⟨failed, ends⟩⟩
        · simp at impossible
        · exact Or.inr ⟨middle, acts, Or.inr ⟨last, finished, ends⟩⟩

theorem finished_append_iff {depth : Nat} {first second : List Instr} {before after : State} :
    Ends (depth + 1) (first ++ second) before none after ↔
      ∃ middle, Ends (depth + 1) first before none middle ∧
        Ends (depth + 1) second middle none after := by
  simp [ends_append_iff]

theorem Ends.append {depth : Nat} {first second : List Instr} {before middle after : State}
    {fault : Option Fault} (finished : Ends (depth + 1) first before none middle)
    (ends : Ends (depth + 1) second middle fault after) :
    Ends (depth + 1) (first ++ second) before fault after :=
  ends_append_iff.2 (Or.inr ⟨middle, finished, ends⟩)

theorem Ends.append_of_fault {depth : Nat} {first : List Instr} {before after : State}
    {fault : Fault} (ends : Ends (depth + 1) first before (some fault) after)
    (second : List Instr) : Ends (depth + 1) (first ++ second) before (some fault) after :=
  ends_append_iff.2 (Or.inl ⟨rfl, ends⟩)

theorem ends_singleton_iff {depth : Nat} {instr : Instr} {before after : State}
    {fault : Option Fault} :
    Ends (depth + 1) [instr] before fault after ↔ instr.Acts depth before fault after := by
  rw [ends_cons_iff]
  constructor
  · rintro (⟨_, acts⟩ | ⟨middle, acts, ends⟩)
    · exact acts
    · obtain ⟨rfl, rfl⟩ := ends_nil_iff.1 ends
      exact acts
  · intro acts
    cases fault with
    | none => exact Or.inr ⟨after, acts, ends_nil_iff.2 ⟨rfl, rfl⟩⟩
    | some fault => exact Or.inl ⟨rfl, acts⟩

theorem run_cases {depth : Nat} {code : List Instr} {env : Environment} {ended : Run Instr}
    (ran : run depth code env = some ended) : ∃ after,
      (Ends depth code ⟨[], env⟩ none after ∧ ended.answer = after.takeAnswer.1 ∧
        ended.state = after.takeAnswer.2) ∨
      ∃ fault, Ends depth code ⟨[], env⟩ (some fault) after ∧ ended.answer = .error fault ∧
        ended.state = after := by
  obtain ⟨ending, executed, rfl⟩ := Option.map_eq_some_iff.1 ran
  obtain ⟨after, fault, pending, events⟩ := ending
  cases fault with
  | none => exact ⟨after, Or.inl ⟨⟨pending, events, executed⟩, rfl, rfl⟩⟩
  | some stop => exact ⟨after, Or.inr ⟨stop, ⟨pending, events, executed⟩, rfl, rfl⟩⟩

theorem State.takeAnswer_env (state : State) : state.takeAnswer.2.env = state.env := by
  obtain ⟨stack, env⟩ := state
  cases stack <;> rfl

theorem State.takeAnswer_stack_subset (state : State) :
    state.takeAnswer.2.stack ⊆ state.stack := by
  obtain ⟨stack, env⟩ := state
  cases stack with
  | nil => exact List.Subset.refl _
  | cons top rest => exact List.subset_cons_self _ _

theorem State.takeAnswer_value {state : State} {value : Value}
    (answered : state.takeAnswer.1 = .ok (.value value)) :
    (value ∈ state.stack ∧ ∀ address, value ≠ .pointer address) ∨
      ∃ address, .pointer address ∈ state.stack ∧ state.env.heap[address]? = some value ∧
        ∀ content, value ≠ .bytes content := by
  obtain ⟨stack, env⟩ := state
  cases stack with
  | nil => simp [takeAnswer] at answered
  | cons top rest =>
      cases top with
      | pointer address =>
          simp only [takeAnswer] at answered
          split at answered
          · cases answered
          · cases answered
          · rename_i target notBytes found
            cases answered
            exact Or.inr ⟨address, List.mem_cons_self, found, notBytes⟩
      | _ =>
          simp only [takeAnswer, Except.ok.injEq, Answer.value.injEq] at answered
          subst answered
          exact Or.inl ⟨List.mem_cons_self, nofun⟩

theorem State.lookup_of_binds {env : Environment} {name : String} {hops : Nat} {target : Value}
    (stack : List Value) (binds : env.Binds name hops target) :
    ∃ value, (⟨stack, env⟩ : State).lookup name = State.done ⟨value :: stack, env⟩ ∧
      Leads env.heap value hops target := by
  obtain ⟨address, value, found, loaded, leads⟩ := binds
  refine ⟨value, ?_, leads⟩
  simp only [State.lookup, Environment.addressOf?, found, Environment.load?_natCast, loaded]
  rfl

theorem State.lookup_of_unbound {env : Environment} {name : String} (stack : List Value)
    (unbound : env.symbols.get? name = none) :
    (⟨stack, env⟩ : State).lookup name = State.fail ⟨stack, env⟩ (.missingVariable name) := by
  simp only [State.lookup, Environment.addressOf?, unbound]

namespace Instr

variable {depth : Nat} {before after : State} {fault : Option Fault}

theorem Acts.unique {instr : Instr} {also : State} {other : Option Fault}
    (acts : instr.Acts depth before fault after) (actsToo : instr.Acts depth before other also) :
    fault = other ∧ after = also := by
  obtain ⟨events, stepped⟩ := acts
  obtain ⟨more, steppedToo⟩ := actsToo
  rw [stepped, Option.some.injEq, Effect.mk.injEq] at steppedToo
  exact ⟨steppedToo.2.1, steppedToo.1⟩

theorem acts_iff_of_step {instr : Instr} (effect : Effect)
    (stepped : instr.step (execute depth) before = some effect) :
    instr.Acts depth before fault after ↔ fault = effect.fault ∧ after = effect.state := by
  obtain ⟨state, stop, events⟩ := effect
  constructor
  · rintro ⟨more, acted⟩
    rw [stepped, Option.some.injEq, Effect.mk.injEq] at acted
    exact ⟨acted.2.1.symm, acted.1.symm⟩
  · rintro ⟨rfl, rfl⟩
    exact ⟨events, stepped⟩

theorem acts_pushLiteral_iff {value : Value} :
    (pushLiteral value).Acts depth before fault after ↔
      fault = none ∧ after = before.push value :=
  acts_iff_of_step (before.push value).done rfl

theorem acts_allocateBytes_iff {content : List UInt8} :
    (allocateBytes content).Acts depth before fault after ↔
      fault = none ∧ after = { before with env := before.env.allocate (.bytes content) }.push
        (.pointer before.env.heap.length) :=
  acts_iff_of_step (State.done _) rfl

theorem acts_makeClosure_iff {params : List String} {body : List Instr} :
    (makeClosure params body).Acts depth before fault after ↔
      fault = none ∧ after = before.push (.closure params body before.env) :=
  acts_iff_of_step (before.push (.closure params body before.env)).done rfl

theorem acts_arithmetic_iff {operator : Operator} :
    (arithmetic operator).Acts depth before fault after ↔
      fault = (before.arithmetic operator).fault ∧ after = (before.arithmetic operator).state :=
  acts_iff_of_step _ rfl

theorem acts_lookup_iff {name : String} :
    (lookup name).Acts depth before fault after ↔
      fault = (before.lookup name).fault ∧ after = (before.lookup name).state :=
  acts_iff_of_step _ rfl

theorem acts_store_iff {name : String} :
    (store name).Acts depth before fault after ↔
      fault = (before.store name).fault ∧ after = (before.store name).state :=
  acts_iff_of_step _ rfl

theorem acts_lookup_of_binds {env : Environment} {name : String} {hops : Nat} {target : Value}
    (depth : Nat) (stack : List Value) (binds : env.Binds name hops target) : ∃ value,
      (lookup name).Acts depth ⟨stack, env⟩ none ⟨value :: stack, env⟩ ∧
        Leads env.heap value hops target := by
  obtain ⟨value, looked, leads⟩ := State.lookup_of_binds stack binds
  refine ⟨value, acts_lookup_iff.2 ?_, leads⟩
  rw [looked]
  exact ⟨rfl, rfl⟩

end Instr

theorem Ends.store {depth : Nat} {code : List Instr} {before : State} {env : Environment}
    {value : Value} {below : List Value}
    (ran : Ends (depth + 1) code before none ⟨value :: below, env⟩) (name : String) :
    Ends (depth + 1) (code ++ [.store name]) before none ⟨below, env.bind name value⟩ :=
  ran.append (ends_singleton_iff.2 (Instr.acts_store_iff.2 ⟨rfl, rfl⟩))

theorem ends_bindAll (depth : Nat) (names : List String) (below : List Value) :
    ∀ {values : List Value} (env : Environment), values.length = names.length →
      Ends (depth + 1) (names.map .store) ⟨values ++ below, env⟩ none
        ⟨below, env.bindAll names values⟩ := by
  induction names with
  | nil =>
      intro values env count
      rw [List.length_nil, List.length_eq_zero_iff] at count
      subst count
      exact ends_nil_iff.2 ⟨rfl, rfl⟩
  | cons name names ih =>
      intro values env count
      cases values with
      | nil => simp at count
      | cons value values =>
          exact finished_cons_iff.2 ⟨_, Instr.acts_store_iff.2 ⟨rfl, rfl⟩,
            ih (env.bind name value) (by simpa using count)⟩

end LetStack
