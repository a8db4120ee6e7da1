import LetStack.Proofs.Machine.Calls

/-!
Environments are only ever added to, whatever code runs and however it ends: the heap and the list
of names grow, and no name comes to stand at an earlier entry than before.
-/

namespace LetStack

theorem relocate_of_not_pointer {source : List Value} {hops : Nat} {value : Value}
    {target : List Value} (plain : ∀ address, value ≠ .pointer address) :
    relocate source hops value target = .ok (value, target) := by
  cases value with
  | pointer address => exact absurd rfl (plain address)
  | _ =>
      rw [relocate]
      intro address impossible
      cases impossible

theorem relocate_pointer_cases {source target heap : List Value} {hops address : Nat}
    {copy : Value} (relocated : relocate source hops (.pointer address) target = .ok (copy, heap)) :
    ∃ fewer entry last grown, hops = fewer + 1 ∧ source[address]? = some entry ∧
      relocate source fewer entry target = .ok (last, grown) ∧
      copy = .pointer grown.length ∧ heap = grown ++ [last] := by
  cases found : source[address]? with
  | none => cases hops <;> simp [relocate, found] at relocated
  | some entry =>
      cases hops with
      | zero => simp [relocate, found] at relocated
      | succ fewer =>
          cases inner : relocate source fewer entry target with
          | error fault => simp [relocate, found, inner, Bind.bind, Except.bind] at relocated
          | ok moved =>
              have same : relocate source (fewer + 1) (.pointer address) target =
                  .ok (.pointer moved.2.length, moved.2 ++ [moved.1]) := by
                simp [relocate, found, inner, Bind.bind, Except.bind]
              rw [relocated, Except.ok.injEq, Prod.mk.injEq] at same
              exact ⟨fewer, entry, moved.1, moved.2, rfl, rfl, inner, same.1, same.2⟩

theorem relocate_grows {source target heap : List Value} {hops : Nat} {value copy : Value}
    (relocated : relocate source hops value target = .ok (copy, heap)) : target <+: heap := by
  induction hops using Nat.strongRecOn generalizing value copy heap with
  | _ hops ih =>
      by_cases pointer : ∃ address, value = .pointer address
      · obtain ⟨address, rfl⟩ := pointer
        obtain ⟨fewer, entry, last, grown, rfl, _, inner, _, rfl⟩ :=
          relocate_pointer_cases relocated
        exact (ih fewer (Nat.lt_succ_self _) inner).trans (List.prefix_append _ _)
      · rw [relocate_of_not_pointer (not_exists.1 pointer), Except.ok.injEq, Prod.mk.injEq]
          at relocated
        exact relocated.2 ▸ List.prefix_rfl

theorem Environment.relocate_of_transfer {env onto after : Environment} {value copy : Value}
    (transferred : env.transfer value onto = .ok (copy, after)) :
    relocate env.heap env.heap.length value onto.heap = .ok (copy, after.heap) ∧
      after.symbols = onto.symbols := by
  unfold transfer at transferred
  cases relocated : relocate env.heap env.heap.length value onto.heap with
  | error fault => simp [relocated, Bind.bind, Except.bind] at transferred
  | ok moved =>
      simp only [relocated, Bind.bind, Except.bind, Except.ok.injEq, Prod.mk.injEq] at transferred
      obtain ⟨rfl, rfl⟩ := transferred
      exact ⟨rfl, rfl⟩

theorem Environment.transfer_grows {env onto after : Environment} {value copy : Value}
    (transferred : env.transfer value onto = .ok (copy, after)) : onto.heap <+: after.heap :=
  relocate_grows (relocate_of_transfer transferred).1

structure Environment.AppendOnly (before after : Environment) : Prop where
  heap : before.heap <+: after.heap
  names : before.symbols.names <+: after.symbols.names
  addresses : ∀ name address, before.symbols.get? name = some address →
    after.symbols.get? name = some address ∨ ∃ place : Nat,
      after.symbols.get? name = some (place : Int) ∧ before.heap.length ≤ place ∧
        place < after.heap.length

namespace Environment.AppendOnly

theorem refl (env : Environment) : env.AppendOnly env :=
  ⟨List.prefix_rfl, List.prefix_rfl, fun _ _ found => Or.inl found⟩

theorem trans {first second third : Environment} (appended : first.AppendOnly second)
    (further : second.AppendOnly third) : first.AppendOnly third where
  heap := appended.heap.trans further.heap
  names := appended.names.trans further.names
  addresses := by
    intro name address found
    have grown := appended.heap.length_le
    have grownOn := further.heap.length_le
    rcases appended.addresses name address found with kept | ⟨place, placed, new, inside⟩
    · rcases further.addresses name address kept with same | ⟨place, placed, new, inside⟩
      · exact Or.inl same
      · exact Or.inr ⟨place, placed, by omega, inside⟩
    · rcases further.addresses name place placed with same | ⟨other, placedToo, newToo, insideToo⟩
      · exact Or.inr ⟨place, same, new, by omega⟩
      · exact Or.inr ⟨other, placedToo, by omega, insideToo⟩

theorem of_symbols_eq {env after : Environment} (grown : env.heap <+: after.heap)
    (same : after.symbols = env.symbols) : env.AppendOnly after where
  heap := grown
  names := same ▸ List.prefix_rfl
  addresses := fun _ _ found => Or.inl (same ▸ found)

theorem bind (env : Environment) (name : String) (value : Value) :
    env.AppendOnly (env.bind name value) where
  heap := env.heap_prefix_bind name value
  names := env.symbols.names_prefix_set name _
  addresses := by
    intro query address found
    by_cases same : query = name
    · exact Or.inr ⟨env.heap.length, by simp [Environment.bind, same], Nat.le_refl _,
        by simp [Environment.bind, Environment.allocate]⟩
    · exact Or.inl ((env.get?_bind_of_ne value same).trans found)

theorem transfer {env onto after : Environment} {value copy : Value}
    (transferred : env.transfer value onto = .ok (copy, after)) : onto.AppendOnly after :=
  .of_symbols_eq (transfer_grows transferred) (relocate_of_transfer transferred).2

/-- Also of a merge that fails halfway. -/
theorem merge (params : List String) (callee : Environment) (entries : List (String × Int)) :
    ∀ env : Environment, env.AppendOnly (LetStack.merge params callee entries env).env := by
  induction entries with
  | nil => exact fun env => .refl env
  | cons entry rest ih =>
      obtain ⟨first, address⟩ := entry
      intro env
      rw [LetStack.merge]
      split
      · exact ih env
      · split
        · exact .refl env
        · split
          · exact .refl env
          · rename_i copy onto transferred
            have bound := AppendOnly.bind onto first copy
            exact (AppendOnly.transfer transferred).trans (bound.trans (ih _))

end Environment.AppendOnly

theorem State.Leaves.appendOnly {caller callee after : State} {params : List String}
    {ended fault : Option Fault} (left : caller.Leaves params ended callee fault after) :
    caller.env.AppendOnly after.env := by
  obtain ⟨_, rfl⟩ := left
  have merged := Environment.AppendOnly.merge params callee.env callee.env.symbols.entries caller.env
  simp only [leaveCall]
  split
  · exact merged
  · split
    · exact merged
    · split
      · exact merged
      · rename_i transferred
        exact merged.trans (.transfer transferred)

theorem Instr.Acts.appendOnly {depth : Nat} {instr : Instr} {before after : State}
    {fault : Option Fault} (acts : instr.Acts depth before fault after) :
    before.env.AppendOnly after.env := by
  cases instr with
  | pushLiteral value =>
      rw [(acts_pushLiteral_iff.1 acts).2]
      exact .refl _
  | makeClosure params body =>
      rw [(acts_makeClosure_iff.1 acts).2]
      exact .refl _
  | allocateBytes content =>
      rw [(acts_allocateBytes_iff.1 acts).2]
      exact .of_symbols_eq (List.prefix_append _ _) rfl
  | arithmetic operator =>
      rw [(acts_arithmetic_iff.1 acts).2, State.arithmetic]
      split
      · split <;> exact .refl _
      · exact .refl _
  | lookup name =>
      rw [(acts_lookup_iff.1 acts).2, State.lookup]
      split
      · exact .refl _
      · split <;> exact .refl _
  | store name =>
      rw [(acts_store_iff.1 acts).2, State.store]
      split
      · exact .refl _
      · exact .bind before.env name _
  | call argCount =>
      rcases acts_call_cases acts with ⟨_, _, refused⟩ | ⟨entry, _, _, entered, _, left⟩
      · exact refused.env_eq ▸ .refl _
      · obtain ⟨_, _, _, _, sameEnv, _⟩ := entered
        rw [← sameEnv]
        exact left.appendOnly

theorem drain_appendOnly {α : Type} {step : State → α → Option Effect} {kind : α → String}
    (steps : ∀ state instr effect, step state instr = some effect →
      state.env.AppendOnly effect.state.env) (code : List α) :
    ∀ state ending, drain step kind code state = some ending →
      state.env.AppendOnly ending.state.env := by
  induction code with
  | nil =>
      intro state ending drained
      obtain rfl := Option.some.inj drained
      exact .refl _
  | cons instr rest ih =>
      intro state ending drained
      rw [drain] at drained
      split at drained
      · cases drained
      · rename_i stepped
        obtain rfl := Option.some.inj drained
        exact steps state instr _ stepped
      · rename_i middle events stepped
        obtain ⟨later, drainedLater, rfl⟩ := Option.map_eq_some_iff.1 drained
        exact (steps state instr _ stepped).trans (ih middle later drainedLater)

theorem Ends.appendOnly {depth : Nat} {code : List Instr} {before after : State}
    {fault : Option Fault} (ends : Ends depth code before fault after) :
    before.env.AppendOnly after.env := by
  obtain ⟨pending, events, executed⟩ := ends
  cases depth with
  | zero => cases executed
  | succ depth =>
      refine drain_appendOnly ?_ code before _ executed
      rintro state instr ⟨last, fault, events⟩ stepped
      exact Instr.Acts.appendOnly ⟨events, stepped⟩

theorem merge_grows (params : List String) (callee : Environment) (entries : List (String × Int))
    (env : Environment) : env.heap <+: (merge params callee entries env).env.heap :=
  (Environment.AppendOnly.merge params callee entries env).heap

theorem Instr.Acts.grows {depth : Nat} {instr : Instr} {before after : State}
    {fault : Option Fault} (acts : instr.Acts depth before fault after) :
    before.env.heap <+: after.env.heap :=
  acts.appendOnly.heap

theorem Ends.grows {depth : Nat} {code : List Instr} {before after : State}
    {fault : Option Fault} (ends : Ends depth code before fault after) :
    before.env.heap <+: after.env.heap :=
  ends.appendOnly.heap

/-- Whatever code runs, also such as no program compiles to or the machine does not know, and however
it ends, in a callee or in the merge after one, nothing is lost that was there. -/
theorem environments_append_only (before : State) :
    (∀ (depth : Nat) (code : List Instr) (fault : Option Fault) (after : State),
      Ends depth code before fault after → before.env.AppendOnly after.env) ∧
    ∀ (depth : Nat) (code : List (Item Instr)) (ending : Ending (Item Instr)),
      executeItems depth code before = some ending →
      before.env.AppendOnly ending.state.env := by
  refine ⟨fun depth code fault after ends => ends.appendOnly, ?_⟩
  intro depth code ending executed
  refine drain_appendOnly ?_ code before ending executed
  rintro state item ⟨last, fault, events⟩ stepped
  cases item with
  | known instr => exact Instr.Acts.appendOnly ⟨events, stepped⟩
  | unknown kind =>
      obtain rfl : state = last := congrArg Effect.state (Option.some.inj stepped)
      exact .refl _

def holdsHalf : Environment := ⟨[.int 5], (Table.empty.set "x" 0).set "y" 7⟩

def halfStray : Value := .closure [] [] holdsHalf

def knowsBoth : Environment := (Environment.empty.bind "x" (.int 1)).bind "y" (.int 2)

theorem environments_append_only_halfway : ∃ ending,
    executeItems 1 [.known (.call 0), .unknown "jump"] ⟨[halfStray], knowsBoth⟩ = some ending ∧
      ending.fault = some (.badAddress 7) ∧ ending.pending = [.unknown "jump"] ∧
      ending.state.env.symbols.get? "x" = some 2 ∧
      knowsBoth.AppendOnly ending.state.env := by
  have executed : executeItems 1 [.known (.call 0), .unknown "jump"] ⟨[halfStray], knowsBoth⟩ =
    some _ := rfl
  exact ⟨_, executed, rfl, rfl, rfl, (environments_append_only _).2 _ _ _ executed⟩

end LetStack
