import LetStack.Proofs.Machine.Growth

/-! Which names are bound. A call binds none of them anew and loses none, however it ends. -/

namespace LetStack

theorem Environment.transfer_symbols {env onto after : Environment} {value copy : Value}
    (transferred : env.transfer value onto = .ok (copy, after)) : after.symbols = onto.symbols :=
  (relocate_of_transfer transferred).2

theorem merge_names (params : List String) (callee : Environment) (entries : List (String × Int)) :
    ∀ env : Environment,
      (merge params callee entries env).env.symbols.names = env.symbols.names := by
  induction entries with
  | nil => exact fun _ => rfl
  | cons entry rest ih =>
      obtain ⟨first, address⟩ := entry
      intro env
      by_cases skipped : first ∈ params ∨ env.symbols.contains first = false
      · rw [merge, if_pos skipped]
        exact ih env
      · have bound : env.symbols.contains first = true := by
          simpa using (not_or.1 skipped).2
        rw [merge, if_neg skipped]
        split
        · rfl
        · split
          · rfl
          · rename_i copy onto transferred
            have same := Environment.transfer_symbols transferred
            have boundOn : onto.symbols.contains first = true := by rw [same]; exact bound
            refine (ih (onto.bind first copy)).trans ?_
            exact (Table.names_set_of_contains _ _ _ boundOn).trans (by rw [same])

theorem State.Leaves.names {caller callee after : State} {params : List String}
    {ended fault : Option Fault} (left : caller.Leaves params ended callee fault after) :
    after.env.symbols.names = caller.env.symbols.names := by
  obtain ⟨_, same⟩ := left
  have merged := merge_names params callee.env callee.env.symbols.entries caller.env
  subst same
  simp only [leaveCall]
  split
  · exact merged
  · split
    · exact merged
    · split
      · exact merged
      · rename_i transferred
        exact (congrArg Table.names (Environment.transfer_symbols transferred)).trans merged

namespace Instr

variable {depth : Nat} {instr : Instr} {before after : State} {fault : Option Fault}

theorem Acts.names_of_call {argCount : Nat} (acts : (call argCount).Acts depth before fault after) :
    after.env.symbols.names = before.env.symbols.names := by
  rcases acts_call_cases acts with ⟨_, _, refused⟩ | ⟨entry, _, _, entered, _, left⟩
  · rw [refused.env_eq]
  · obtain ⟨_, _, _, _, sameEnv, _⟩ := entered
    rw [left.names, sameEnv]

theorem Acts.symbols_eq (acts : instr.Acts depth before fault after)
    (notStore : ∀ name, instr ≠ .store name) (notCall : ∀ argCount, instr ≠ .call argCount) :
    after.env.symbols = before.env.symbols := by
  cases instr with
  | call argCount => exact absurd rfl (notCall argCount)
  | store name => exact absurd rfl (notStore name)
  | pushLiteral value => rw [(acts_pushLiteral_iff.1 acts).2]; rfl
  | makeClosure params body => rw [(acts_makeClosure_iff.1 acts).2]; rfl
  | allocateBytes content => rw [(acts_allocateBytes_iff.1 acts).2]; rfl
  | arithmetic operator =>
      rw [(acts_arithmetic_iff.1 acts).2, State.arithmetic]
      split
      · split <;> rfl
      · rfl
  | lookup name =>
      rw [(acts_lookup_iff.1 acts).2, State.lookup]
      split
      · rfl
      · split <;> rfl

theorem Acts.names_eq (acts : instr.Acts depth before fault after)
    (notStore : ∀ name, instr ≠ .store name) :
    after.env.symbols.names = before.env.symbols.names := by
  by_cases isCall : ∃ argCount, instr = .call argCount
  · obtain ⟨argCount, rfl⟩ := isCall
    exact acts.names_of_call
  · rw [acts.symbols_eq notStore fun argCount call => isCall ⟨argCount, call⟩]

theorem Acts.keeps {name : String} (acts : instr.Acts depth before fault after)
    (notStore : instr ≠ .store name) (notCall : ∀ argCount, instr ≠ .call argCount) :
    before.env.heap <+: after.env.heap ∧
      after.env.symbols.get? name = before.env.symbols.get? name := by
  refine ⟨acts.grows, ?_⟩
  by_cases isStore : ∃ query, instr = .store query
  · obtain ⟨query, rfl⟩ := isStore
    obtain ⟨rfl, rfl⟩ := acts_store_iff.1 acts
    obtain ⟨stack, env⟩ := before
    cases stack with
    | nil => rfl
    | cons value rest =>
        have different : name ≠ query := by
          rintro rfl
          exact notStore rfl
        exact Environment.get?_bind_of_ne value different
  · rw [acts.symbols_eq (fun query same => isStore ⟨query, same⟩) notCall]

theorem Acts.contains_iff (acts : instr.Acts depth before fault after) (name : String) :
    after.env.symbols.contains name = true ↔
      before.env.symbols.contains name = true ∨ (instr = .store name ∧ fault = none) := by
  by_cases isCall : ∃ argCount, instr = .call argCount
  · obtain ⟨argCount, rfl⟩ := isCall
    simp [Table.contains_iff_mem_names, acts.names_of_call]
  · by_cases isStore : instr = .store name
    · subst isStore
      obtain ⟨rfl, rfl⟩ := acts_store_iff.1 acts
      obtain ⟨stack, env⟩ := before
      cases stack with
      | nil => simp [State.store, State.underflow, State.fail]
      | cons value rest =>
          simp only [State.store, State.done, Environment.bind, Table.contains_set_iff, true_or,
            and_self, or_true]
    · have same := (acts.keeps isStore fun argCount call => isCall ⟨argCount, call⟩).2
      simp [Table.contains, same, isStore]

end Instr

namespace Ends

theorem contains_of_before {depth : Nat} {code : List Instr} {before after : State}
    {fault : Option Fault} {name : String} (ends : Ends depth code before fault after)
    (bound : before.env.symbols.contains name = true) :
    after.env.symbols.contains name = true := by
  induction ends using Ends.induction with
  | nil => exact bound
  | stop _ _ acts => exact (acts.contains_iff name).2 (Or.inl bound)
  | next _ acts _ ih => exact ih ((acts.contains_iff name).2 (Or.inl bound))

theorem contains_cases {depth : Nat} {code : List Instr} {before after : State}
    {fault : Option Fault} {name : String} (ends : Ends depth code before fault after)
    (bound : after.env.symbols.contains name = true) :
    before.env.symbols.contains name = true ∨ .store name ∈ code := by
  have own : ∀ {depth : Nat} {instr : Instr} {rest : List Instr} {before middle : State}
      {fault : Option Fault}, instr.Acts depth before fault middle →
      middle.env.symbols.contains name = true →
      before.env.symbols.contains name = true ∨ .store name ∈ instr :: rest :=
    fun acts boundAfter => ((acts.contains_iff name).1 boundAfter).imp_right
      fun stored => List.mem_cons.2 (Or.inl stored.1.symm)
  induction ends using Ends.induction with
  | nil => exact Or.inl bound
  | stop _ _ acts => exact own acts bound
  | next _ acts _ ih =>
      rcases ih bound with boundMiddle | member
      · exact own acts boundMiddle
      · exact Or.inr (List.mem_cons_of_mem _ member)

theorem contains_of_store {depth : Nat} {code : List Instr} {before after : State} {name : String}
    (finished : Ends depth code before none after) (member : .store name ∈ code) :
    after.env.symbols.contains name = true := by
  induction finished using Ends.finished_induction with
  | nil => simp at member
  | next acts later ih =>
      rcases List.mem_cons.1 member with rfl | memberLater
      · exact later.contains_of_before ((acts.contains_iff name).2 (Or.inr ⟨rfl, rfl⟩))
      · exact ih memberLater

end Ends

end LetStack
