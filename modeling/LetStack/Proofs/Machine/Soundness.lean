import LetStack.Proofs.Machine.Merging
import LetStack.Proofs.Machine.Placement

/-!
Environments in which every pointer leads to an earlier entry, every name has an address, and every
closure holds code that a rule allows where the closure was made. Copies keep them so.
-/

namespace LetStack

/-- Which code may run where these names are bound. -/
abbrev Rule := List Instr → Table Int → Prop

inductive Value.Sound (rule : Rule) : List Value → Value → Prop
  | int (heap : List Value) (value : Int) : Sound rule heap (.int value)
  | float (heap : List Value) (value : Float) : Sound rule heap (.float value)
  | bool (heap : List Value) (value : Bool) : Sound rule heap (.bool value)
  | bytes (heap : List Value) (content : List UInt8) : Sound rule heap (.bytes content)
  | pointer {heap : List Value} {address : Nat} : address < heap.length →
      Sound rule heap (.pointer address)
  | closure {params : List String} {body : List Instr} {env : Environment} (heap : List Value) :
      rule body env.symbols →
      (∀ index value, env.heap[index]? = some value → Sound rule (env.heap.take index) value) →
      (∀ name address, env.symbols.get? name = some address →
        ∃ place : Nat, address = place ∧ place < env.heap.length) →
      Sound rule heap (.closure params body env)

structure Environment.Sound (rule : Rule) (env : Environment) : Prop where
  entries : ∀ (index : Nat) (value : Value), env.heap[index]? = some value →
    value.Sound rule (env.heap.take index)
  symbols : ∀ name address, env.symbols.get? name = some address →
    ∃ place : Nat, address = place ∧ place < env.heap.length

structure State.Sound (rule : Rule) (state : State) : Prop where
  stack : ∀ value ∈ state.stack, value.Sound rule state.env.heap
  env : state.env.Sound rule

variable {rule : Rule}

namespace Value.Sound

theorem extend {value : Value} {heap longer : List Value} (sound : value.Sound rule heap)
    (grown : heap <+: longer) : value.Sound rule longer := by
  cases sound with
  | pointer bound => exact .pointer (Nat.lt_of_lt_of_le bound grown.length_le)
  | closure _ allowed entries symbols => exact .closure longer allowed entries symbols
  | _ => constructor

theorem anywhere {value : Value} {heap : List Value} (sound : value.Sound rule heap)
    (plain : ∀ address, value ≠ .pointer address) (other : List Value) :
    value.Sound rule other := by
  cases sound with
  | pointer _ => exact absurd rfl (plain _)
  | closure _ allowed entries symbols => exact .closure other allowed entries symbols
  | _ => constructor

theorem closure_iff {params : List String} {body : List Instr} {env : Environment}
    {heap : List Value} :
    (Value.closure params body env).Sound rule heap ↔ rule body env.symbols ∧ env.Sound rule := by
  constructor
  · intro sound
    cases sound with
    | closure _ allowed entries symbols => exact ⟨allowed, entries, symbols⟩
  · rintro ⟨allowed, entries, symbols⟩
    exact .closure heap allowed entries symbols

end Value.Sound

theorem Operator.apply_ok {operator : Operator} {left right result : Value}
    (applied : operator.apply left right = .ok result) :
    (∃ value, result = .int value ∧ fitsInt value = true) ∨ ∃ value, result = .float value := by
  unfold apply at applied
  split at applied
  · rename_i first second
    cases computed : operator.onInts first second with
    | error fault => simp [computed, Bind.bind, Except.bind] at applied
    | ok value =>
        simp only [computed, Bind.bind, Except.bind] at applied
        split at applied
        · rename_i fits
          exact Or.inl ⟨value, (Except.ok.inj applied).symm, fits⟩
        · simp at applied
  · rename_i first second
    cases computed : operator.onFloats first second with
    | error fault => simp [computed, Bind.bind, Except.bind] at applied
    | ok value =>
        simp only [computed, Bind.bind, Except.bind] at applied
        exact Or.inr ⟨value, (Except.ok.inj applied).symm⟩
  · simp at applied

theorem Operator.apply_sound (operator : Operator) {left right result : Value}
    (applied : operator.apply left right = .ok result) (heap : List Value) :
    result.Sound rule heap := by
  rcases operator.apply_ok applied with ⟨value, rfl, _⟩ | ⟨value, rfl⟩
  · exact .int heap value
  · exact .float heap value

def Placement.ofRule (rule : Rule) : Placement where
  fits heap value := value.Sound rule heap
  loose _ := True
  binds heap address := ∃ place : Nat, address = place ∧ place < heap.length

theorem Placement.lawful_ofRule (rule : Rule) : (ofRule rule).Lawful where
  fits_grown := Value.Sound.extend
  binds_grown := by
    rintro heap longer address ⟨place, same, bound⟩ grown
    exact ⟨place, same, Nat.lt_of_lt_of_le bound grown.length_le⟩
  fits_anywhere := Value.Sound.anywhere
  fits_copied _ _ found _ := .pointer (List.getElem?_eq_some_iff.1 found).1
  fits_bytes := .bytes
  fits_allocated found := .pointer (List.getElem?_eq_some_iff.1 found).1
  admits_result applied heap := ⟨Operator.apply_sound _ applied heap, trivial⟩
  loose_of_not_bytes _ := trivial
  binds_new heap _ _ := ⟨heap.length, rfl, by simp⟩
  loose_of_binds _ _ := trivial

theorem State.placed_ofRule_iff {state : State} :
    state.Placed (.ofRule rule) ↔ state.Sound rule :=
  ⟨fun ⟨stack, entries, names⟩ => ⟨fun value member => (stack value member).1, entries, names⟩,
    fun ⟨stack, entries, names⟩ =>
      ⟨fun value member => ⟨stack value member, trivial⟩, entries, names⟩⟩

namespace Environment

theorem sound_empty : Environment.empty.Sound rule where
  entries := by simp [empty]
  symbols := by simp [empty]

variable {env onto callee : Environment} {value : Value}

theorem placed_ofRule_iff : env.Placed (.ofRule rule) ↔ env.Sound rule :=
  ⟨fun ⟨entries, names⟩ => ⟨entries, names⟩, fun ⟨entries, names⟩ => ⟨entries, names⟩⟩

theorem Sound.entry (sound : env.Sound rule) {index : Nat}
    (found : env.heap[index]? = some value) : value.Sound rule env.heap :=
  (sound.entries index value found).extend (List.take_prefix _ _)

theorem Sound.allocate (sound : env.Sound rule) (fits : value.Sound rule env.heap) :
    (env.allocate value).Sound rule :=
  placed_ofRule_iff.1 <|
    (placed_ofRule_iff.2 sound).allocate (Placement.lawful_ofRule rule) fits

theorem Sound.bind (sound : env.Sound rule) (fits : value.Sound rule env.heap) (name : String) :
    (env.bind name value).Sound rule :=
  placed_ofRule_iff.1 <|
    (placed_ofRule_iff.2 sound).bind (Placement.lawful_ofRule rule) ⟨fits, trivial⟩ name

theorem Sound.leads_take (sound : env.Sound rule) (limit : Nat) : ∀ value : Value,
    value.Sound rule (env.heap.take limit) → ∃ hops target, Leads env.heap value hops target := by
  -- An entry leads into the part of the heap below it only.
  induction limit using Nat.strongRecOn with
  | _ limit ih =>
      intro value fits
      cases value with
      | pointer address =>
          cases fits with
          | pointer bound =>
              rw [List.length_take] at bound
              have inside : address < env.heap.length := by omega
              have found := List.getElem?_eq_getElem inside
              obtain ⟨hops, target, leads⟩ :=
                ih address (by omega) _ (sound.entries address _ found)
              exact ⟨hops + 1, target, .hop found leads⟩
      | _ => exact ⟨0, _, .here nofun⟩

theorem Sound.leads (sound : env.Sound rule) (fits : value.Sound rule env.heap) :
    ∃ hops target, Leads env.heap value hops target := by
  apply sound.leads_take env.heap.length
  rwa [List.take_length]

theorem Sound.readable (sound : env.Sound rule) : env.Readable := by
  intro name bound
  obtain ⟨address, found⟩ := (Table.contains_iff_exists_get? _ _).1 bound
  obtain ⟨place, rfl, inside⟩ := sound.symbols name address found
  have loaded := List.getElem?_eq_getElem inside
  obtain ⟨hops, target, leads⟩ := sound.leads (sound.entry loaded)
  exact ⟨hops, target, place, _, found, loaded, leads⟩

theorem Sound.transfer (sound : env.Sound rule) (fits : value.Sound rule env.heap)
    (ontoSound : onto.Sound rule) : ∃ copy heap,
      env.transfer value onto = .ok (copy, { onto with heap := heap }) ∧ onto.heap <+: heap ∧
      ({ onto with heap := heap } : Environment).Sound rule ∧ copy.Sound rule heap := by
  obtain ⟨hops, target, leads⟩ := sound.leads fits
  obtain ⟨copy, heap, transferred, grown, _⟩ := transfer_of_leads leads onto
  obtain ⟨placed, admits⟩ := (placed_ofRule_iff.2 sound).transfer (Placement.lawful_ofRule rule)
    (placed_ofRule_iff.2 ontoSound) ⟨fits, trivial⟩ transferred
  exact ⟨copy, heap, transferred, grown, placed_ofRule_iff.1 placed, admits.1⟩

theorem Sound.merge (sound : callee.Sound rule) (params : List String) (envSound : env.Sound rule) :
    (merge params callee callee.symbols.entries env).env.Sound rule :=
  placed_ofRule_iff.1 <| (placed_ofRule_iff.2 sound).merge_all (Placement.lawful_ofRule rule)
    params (placed_ofRule_iff.2 envSound)

end Environment

theorem State.Sound.takeAnswer_ok {state : State} (sound : state.Sound rule) :
    ∃ answer, state.takeAnswer.1 = .ok answer := by
  obtain ⟨stack, env⟩ := state
  cases stack with
  | nil => exact ⟨.nothing, rfl⟩
  | cons top rest =>
      cases top with
      | pointer address =>
          cases sound.stack (.pointer address) List.mem_cons_self with
          | pointer bound =>
              simp only [takeAnswer, List.getElem?_eq_getElem bound]
              cases env.heap[address] <;> exact ⟨_, rfl⟩
      | _ => exact ⟨_, rfl⟩

end LetStack
