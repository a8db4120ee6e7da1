import LetStack.Proofs.Machine.Growth

/-!
Properties of values that depend on where they lie: which entries a heap may have, what may be on a
stack or have a name. Arguments, results and merged names keep to the same in their new place, so a
step of the machine brings in nothing out of place.
-/

namespace LetStack

/-- What may lie on a heap, what may also be taken from there, and where names may point. -/
structure Placement where
  fits : List Value → Value → Prop
  loose : Value → Prop
  binds : List Value → Int → Prop

namespace Placement

def Admits (placement : Placement) (heap : List Value) (value : Value) : Prop :=
  placement.fits heap value ∧ placement.loose value

def Entries (placement : Placement) (heap : List Value) : Prop :=
  ∀ (index : Nat) (value : Value), heap[index]? = some value →
    placement.fits (heap.take index) value

structure Lawful (placement : Placement) : Prop where
  fits_grown : ∀ {heap longer : List Value} {value : Value}, placement.fits heap value →
    heap <+: longer → placement.fits longer value
  binds_grown : ∀ {heap longer : List Value} {address : Int}, placement.binds heap address →
    heap <+: longer → placement.binds longer address
  fits_anywhere : ∀ {heap : List Value} {value : Value}, placement.fits heap value →
    (∀ address, value ≠ .pointer address) → ∀ other, placement.fits other value
  fits_copied : ∀ {heap other : List Value} {address place : Nat} {entry copy : Value},
    placement.fits heap (.pointer address) → heap[address]? = some entry →
    other[place]? = some copy → copy.kind = entry.kind → placement.fits other (.pointer place)
  fits_bytes : ∀ heap content, placement.fits heap (.bytes content)
  fits_allocated : ∀ {heap : List Value} {place : Nat} {content : List UInt8},
    heap[place]? = some (.bytes content) → placement.fits heap (.pointer place)
  admits_result : ∀ {operator : Operator} {left right result : Value},
    operator.apply left right = .ok result → ∀ heap, placement.Admits heap result
  loose_of_not_bytes : ∀ {value : Value}, (∀ content, value ≠ .bytes content) →
    placement.loose value
  binds_new : ∀ (heap : List Value) {value : Value}, placement.loose value →
    placement.binds (heap ++ [value]) heap.length
  loose_of_binds : ∀ {env : Environment} {address : Int} {value : Value},
    placement.binds env.heap address → env.load? address = some value → placement.loose value

end Placement

structure Environment.Placed (placement : Placement) (env : Environment) : Prop where
  entries : placement.Entries env.heap
  names : ∀ name address, env.symbols.get? name = some address → placement.binds env.heap address

structure State.Placed (placement : Placement) (state : State) : Prop where
  stack : ∀ value ∈ state.stack, placement.Admits state.env.heap value
  env : state.env.Placed placement

theorem relocate_cases {source target heap : List Value} {hops : Nat} {value copy : Value}
    (relocated : relocate source hops value target = .ok (copy, heap)) :
    copy = value ∨ (∃ address, value = .pointer address) ∧ ∃ place, copy = .pointer place := by
  by_cases pointer : ∃ address, value = .pointer address
  · obtain ⟨address, rfl⟩ := pointer
    obtain ⟨_, _, _, _, _, _, _, same, _⟩ := relocate_pointer_cases relocated
    exact Or.inr ⟨⟨address, rfl⟩, _, same⟩
  · rw [relocate_of_not_pointer (not_exists.1 pointer), Except.ok.injEq, Prod.mk.injEq] at relocated
    exact Or.inl relocated.1.symm

theorem relocate_kind {source target heap : List Value} {hops : Nat} {value copy : Value}
    (relocated : relocate source hops value target = .ok (copy, heap)) :
    copy.kind = value.kind := by
  rcases relocate_cases relocated with same | ⟨⟨_, rfl⟩, _, rfl⟩
  · rw [same]
  · rfl

variable {placement : Placement}

namespace Placement

variable {heap longer : List Value} {value : Value}

theorem Admits.grown (lawful : placement.Lawful) (admits : placement.Admits heap value)
    (grown : heap <+: longer) : placement.Admits longer value :=
  ⟨lawful.fits_grown admits.1 grown, admits.2⟩

theorem Entries.fits (lawful : placement.Lawful) (entries : placement.Entries heap) {index : Nat}
    (found : heap[index]? = some value) : placement.fits heap value :=
  lawful.fits_grown (entries index value found) (List.take_prefix _ _)

theorem Entries.append (entries : placement.Entries heap) (fits : placement.fits heap value) :
    placement.Entries (heap ++ [value]) := by
  intro index entry found
  by_cases earlier : index < heap.length
  · rw [List.getElem?_append_left earlier] at found
    rw [List.take_append_of_le_length (by omega)]
    exact entries index entry found
  · have bound := (List.getElem?_eq_some_iff.1 found).1
    rw [List.length_append, List.length_singleton] at bound
    have last : index = heap.length := by omega
    subst last
    rw [List.getElem?_concat_length, Option.some.injEq] at found
    rw [← found, List.take_left]
    exact fits

theorem Lawful.relocate (lawful : placement.Lawful) {source target : List Value} {hops : Nat}
    {copy : Value} (entries : placement.Entries source) (others : placement.Entries target)
    (relocated : LetStack.relocate source hops value target = .ok (copy, heap))
    (fits : placement.fits source value) :
    placement.fits heap copy ∧ placement.Entries heap := by
  induction hops using Nat.strongRecOn generalizing value copy heap with
  | _ hops ih =>
      by_cases pointer : ∃ address, value = .pointer address
      · obtain ⟨address, rfl⟩ := pointer
        obtain ⟨fewer, entry, last, grown, rfl, found, inner, rfl, rfl⟩ :=
          relocate_pointer_cases relocated
        obtain ⟨lastFits, grownFits⟩ :=
          ih fewer (Nat.lt_succ_self _) inner (entries.fits lawful found)
        exact ⟨lawful.fits_copied fits found List.getElem?_concat_length (relocate_kind inner),
          grownFits.append lastFits⟩
      · have plain := not_exists.1 pointer
        rw [relocate_of_not_pointer plain, Except.ok.injEq, Prod.mk.injEq] at relocated
        obtain ⟨rfl, rfl⟩ := relocated
        exact ⟨lawful.fits_anywhere fits plain _, others⟩

end Placement

namespace Environment.Placed

variable {env onto after callee : Environment} {value copy : Value}

theorem grown (lawful : placement.Lawful) (placed : env.Placed placement) {heap : List Value}
    (grown : env.heap <+: heap) (entries : placement.Entries heap) :
    ({ env with heap := heap } : Environment).Placed placement :=
  ⟨entries, fun name address found => lawful.binds_grown (placed.names name address found) grown⟩

theorem allocate (lawful : placement.Lawful) (placed : env.Placed placement)
    (fits : placement.fits env.heap value) : (env.allocate value).Placed placement :=
  placed.grown lawful (List.prefix_append _ _) (placed.entries.append fits)

theorem bind (lawful : placement.Lawful) (placed : env.Placed placement)
    (admits : placement.Admits env.heap value) (name : String) :
    (env.bind name value).Placed placement where
  entries := placed.entries.append admits.1
  names := by
    intro query address found
    by_cases same : query = name
    · simp only [Environment.bind, Table.get?_set, same, if_true, Option.some.injEq] at found
      rw [← found]
      exact lawful.binds_new env.heap admits.2
    · rw [get?_bind_of_ne value same] at found
      exact lawful.binds_grown (placed.names query address found) (env.heap_prefix_bind name value)

theorem load (lawful : placement.Lawful) (placed : env.Placed placement) {address : Int}
    (binds : placement.binds env.heap address) (loaded : env.load? address = some value) :
    placement.Admits env.heap value := by
  refine ⟨?_, lawful.loose_of_binds binds loaded⟩
  unfold load? at loaded
  split at loaded
  · exact placed.entries.fits lawful loaded
  · split at loaded
    · exact placed.entries.fits lawful loaded
    · simp at loaded

theorem transfer (lawful : placement.Lawful) (placed : env.Placed placement)
    (ontoPlaced : onto.Placed placement) (admits : placement.Admits env.heap value)
    (transferred : env.transfer value onto = .ok (copy, after)) :
    after.Placed placement ∧ placement.Admits after.heap copy := by
  obtain ⟨relocated, symbols⟩ := relocate_of_transfer transferred
  obtain ⟨copyFits, entries⟩ :=
    lawful.relocate placed.entries ontoPlaced.entries relocated admits.1
  have same : after = { onto with heap := after.heap } := by
    obtain ⟨_, _⟩ := after
    cases symbols
    rfl
  refine ⟨?_, copyFits, ?_⟩
  · rw [same]
    exact ontoPlaced.grown lawful (relocate_grows relocated) entries
  · rcases relocate_cases relocated with rfl | ⟨_, place, rfl⟩
    · exact admits.2
    · exact lawful.loose_of_not_bytes nofun

theorem merge (lawful : placement.Lawful) (params : List String)
    (placed : callee.Placed placement) (names : List (String × Int))
    (listed : ∀ entry ∈ names, placement.binds callee.heap entry.2) :
    ∀ env : Environment, env.Placed placement →
      (LetStack.merge params callee names env).env.Placed placement := by
  induction names with
  | nil => exact fun _ envPlaced => envPlaced
  | cons entry rest ih =>
      obtain ⟨first, address⟩ := entry
      have listedRest : ∀ entry ∈ rest, placement.binds callee.heap entry.2 :=
        fun entry member => listed entry (List.mem_cons_of_mem _ member)
      intro env envPlaced
      rw [LetStack.merge]
      split
      · exact ih listedRest env envPlaced
      · split
        · exact envPlaced
        · rename_i value loaded
          have admits := placed.load lawful (listed _ List.mem_cons_self) loaded
          split
          · exact envPlaced
          · rename_i copy onto transferred
            obtain ⟨ontoPlaced, copyAdmits⟩ :=
              placed.transfer lawful envPlaced admits transferred
            exact ih listedRest _ (ontoPlaced.bind lawful copyAdmits first)

theorem merge_all (lawful : placement.Lawful) (params : List String)
    (placed : callee.Placed placement) (envPlaced : env.Placed placement) :
    (LetStack.merge params callee callee.symbols.entries env).env.Placed placement := by
  refine placed.merge lawful params _ ?_ env envPlaced
  intro entry member
  exact placed.names entry.1 entry.2
    (Table.lookup_of_mem _ callee.symbols.distinct entry member)

end Environment.Placed

namespace State

variable {before after caller callee : State} {value : Value}

theorem Placed.push (lawful : placement.Lawful) {env : Environment} {stack : List Value}
    (grown : before.env.heap <+: env.heap) (placed : before.Placed placement)
    (envPlaced : env.Placed placement) (included : stack ⊆ before.stack)
    (admits : placement.Admits env.heap value) : State.Placed placement ⟨value :: stack, env⟩ := by
  refine ⟨?_, envPlaced⟩
  intro entry member
  rcases List.mem_cons.1 member with rfl | below
  · exact admits
  · exact (placed.stack entry (included below)).grown lawful grown

theorem Placed.drop (lawful : placement.Lawful) {env : Environment} {stack : List Value}
    (grown : before.env.heap <+: env.heap) (placed : before.Placed placement)
    (envPlaced : env.Placed placement) (included : stack ⊆ before.stack) :
    State.Placed placement ⟨stack, env⟩ :=
  ⟨fun entry member => (placed.stack entry (included member)).grown lawful grown, envPlaced⟩

theorem Placed.empty : State.Placed placement ⟨[], .empty⟩ :=
  ⟨by simp, by simp [Placement.Entries, Environment.empty], by simp [Environment.empty]⟩

theorem Placed.takeAnswer (lawful : placement.Lawful) (placed : before.Placed placement) :
    before.takeAnswer.2.Placed placement := by
  have kept := placed.drop lawful List.prefix_rfl placed.env before.takeAnswer_stack_subset
  rwa [← before.takeAnswer_env] at kept

theorem Placed.seed (lawful : placement.Lawful) {source : Environment}
    (placed : source.Placed placement) (popped : List Value)
    (args : ∀ arg ∈ popped, placement.Admits source.heap arg) : ∀ {callee start : State},
      callee.Placed placement → State.seed source popped callee = .ok start →
      start.Placed placement := by
  induction popped with
  | nil =>
      rintro callee start calleePlaced seeded
      cases seeded
      exact calleePlaced
  | cons arg rest ih =>
      intro callee start calleePlaced seeded
      cases transferred : source.transfer arg callee.env with
      | error fault => simp [State.seed, transferred, Bind.bind, Except.bind] at seeded
      | ok moved =>
          simp only [State.seed, transferred, Bind.bind, Except.bind] at seeded
          obtain ⟨envPlaced, copyAdmits⟩ :=
            placed.transfer lawful calleePlaced.env (args arg List.mem_cons_self) transferred
          exact ih (fun other member => args other (List.mem_cons_of_mem _ member))
            (calleePlaced.push lawful (Environment.transfer_grows transferred) envPlaced
              (List.Subset.refl _) copyAdmits) seeded

theorem Placed.enters (lawful : placement.Lawful) {argCount : Nat} {entry : Activation}
    (placed : before.Placed placement) (entered : before.Enters argCount entry)
    (captured : entry.captured.Placed placement) : entry.start.Placed placement := by
  obtain ⟨popped, shape, _, _, _, seeded⟩ := entered
  exact Placed.seed lawful placed.env popped
    (fun arg member => placed.stack arg (by simp [shape, member])) ⟨by simp, captured⟩ seeded

theorem Placed.leaves (lawful : placement.Lawful) {params : List String}
    {ended fault : Option Fault} (callerPlaced : caller.Placed placement)
    (calleePlaced : callee.Placed placement)
    (left : caller.Leaves params ended callee fault after) : after.Placed placement := by
  obtain ⟨_, rfl⟩ := left
  have envPlaced := calleePlaced.env.merge_all lawful params callerPlaced.env
  have grown := merge_grows params callee.env callee.env.symbols.entries caller.env
  have merged := callerPlaced.drop lawful grown envPlaced (List.Subset.refl _)
  simp only [leaveCall]
  split
  · exact merged
  · split
    · exact merged
    · rename_i result rest results
      split
      · exact merged
      · rename_i copy env transferred
        obtain ⟨ontoPlaced, copyAdmits⟩ := calleePlaced.env.transfer lawful envPlaced
          (calleePlaced.stack result (by simp [results])) transferred
        exact merged.push lawful (Environment.transfer_grows transferred) ontoPlaced
          (List.Subset.refl _) copyAdmits

end State

/-- An instruction is given what holds of its literal or closure, and what holds after a body. -/
theorem Instr.Acts.placed (lawful : placement.Lawful) {depth : Nat} {instr : Instr}
    {before after : State} {fault : Option Fault} (acts : instr.Acts depth before fault after)
    (placed : before.Placed placement)
    (literal : ∀ value, instr = .pushLiteral value → placement.Admits before.env.heap value)
    (made : ∀ params body, instr = .makeClosure params body →
      placement.fits before.env.heap (.closure params body before.env))
    (called : ∀ argCount entry ended callee, instr = .call argCount →
      before.Enters argCount entry → Ends depth entry.body entry.start ended callee →
      callee.Placed placement) : after.Placed placement := by
  have push : ∀ {value : Value} {stack : List Value}, placement.Admits before.env.heap value →
      stack ⊆ before.stack → State.Placed placement ⟨value :: stack, before.env⟩ :=
    fun admits included => placed.push lawful List.prefix_rfl placed.env included admits
  have drop : ∀ {stack : List Value}, stack ⊆ before.stack →
      State.Placed placement ⟨stack, before.env⟩ :=
    fun included => placed.drop lawful List.prefix_rfl placed.env included
  cases instr with
  | pushLiteral value =>
      rw [(acts_pushLiteral_iff.1 acts).2]
      exact push (literal value rfl) (List.Subset.refl _)
  | makeClosure params body =>
      rw [(acts_makeClosure_iff.1 acts).2]
      exact push ⟨made params body rfl, lawful.loose_of_not_bytes nofun⟩ (List.Subset.refl _)
  | allocateBytes content =>
      rw [(acts_allocateBytes_iff.1 acts).2]
      exact placed.push lawful (List.prefix_append _ _)
        (placed.env.allocate lawful (lawful.fits_bytes _ content)) (List.Subset.refl _)
        ⟨lawful.fits_allocated List.getElem?_concat_length, lawful.loose_of_not_bytes nofun⟩
  | arithmetic operator =>
      rw [(acts_arithmetic_iff.1 acts).2, State.arithmetic]
      split
      · rename_i right left rest shape
        have included : rest ⊆ before.stack := by
          rw [shape]
          exact List.subset_cons_of_subset _ (List.subset_cons_self _ _)
        split
        · rename_i result applied
          exact push (lawful.admits_result applied _) included
        · exact drop included
      · exact drop (List.nil_subset _)
  | lookup name =>
      rw [(acts_lookup_iff.1 acts).2, State.lookup]
      split
      · exact placed
      · rename_i address found
        split
        · exact placed
        · rename_i value loaded
          exact push (placed.env.load lawful (placed.env.names name address found) loaded)
            (List.Subset.refl _)
  | store name =>
      rw [(acts_store_iff.1 acts).2, State.store]
      split
      · exact drop (List.nil_subset _)
      · rename_i value rest shape
        have admits := placed.stack value (by simp [shape])
        exact placed.drop lawful (before.env.heap_prefix_bind name value)
          (placed.env.bind lawful admits name) (shape ▸ List.subset_cons_self _ _)
  | call argCount =>
      rcases acts_call_cases acts with ⟨stop, _, refused⟩ |
        ⟨entry, ended, callee, entered, ran, left⟩
      · have kept := drop refused.stack_subset
        rw [← refused.env_eq] at kept
        exact kept
      · have calleePlaced := called argCount entry ended callee rfl entered ran
        obtain ⟨popped, shape, _, _, sameEnv, _⟩ := entered
        have callerPlaced : entry.caller.Placed placement := by
          have kept := drop (show entry.caller.stack ⊆ before.stack from fun value member => by
            simp [shape, member])
          rw [← sameEnv] at kept
          exact kept
        exact callerPlaced.leaves lawful calleePlaced left

end LetStack
