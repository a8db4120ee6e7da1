import LetStack.Proofs.Machine.Names

/-!
Values that cross from one environment to another: arguments, the names that a call merges, and
its result. None of them changes what it stands for.
-/

namespace LetStack

structure Environment.Absorbs (caller : Environment) (params : List String)
    (callee after : Environment) : Prop where
  heap : caller.heap <+: after.heap
  names : after.symbols.names = caller.symbols.names
  shared : ∀ name hops target, caller.symbols.contains name = true → name ∉ params →
    callee.Binds name hops target → after.Binds name hops target
  kept : ∀ name, name ∈ params ∨ callee.symbols.contains name = false →
    after.symbols.get? name = caller.symbols.get? name

namespace Environment

variable {params : List String} {caller callee after : Environment}

theorem Absorbs.contains_iff (absorbed : caller.Absorbs params callee after) (name : String) :
    after.symbols.contains name = true ↔ caller.symbols.contains name = true := by
  rw [Table.contains_iff_mem_names, Table.contains_iff_mem_names, absorbed.names]

theorem Absorbs.grow (absorbed : caller.Absorbs params callee after) {heap : List Value}
    (grown : after.heap <+: heap) :
    caller.Absorbs params callee { after with heap := heap } where
  heap := absorbed.heap.trans grown
  names := absorbed.names
  shared := fun name hops target bound notParam binds =>
    (absorbed.shared name hops target bound notParam binds).keep grown rfl
  kept := absorbed.kept

theorem Absorbs.binds_iff (absorbed : caller.Absorbs params callee after)
    (readable : callee.Readable) {name : String} {hops : Nat} {target : Value}
    (binds : caller.Binds name hops target) :
    after.Binds name hops target ↔ name ∈ params ∨ callee.symbols.contains name = false ∨
      callee.Binds name hops target := by
  have kept : name ∈ params ∨ callee.symbols.contains name = false →
      after.Binds name hops target :=
    fun outside => binds.keep absorbed.heap (absorbed.kept name outside)
  constructor
  · intro still
    by_cases param : name ∈ params
    · exact Or.inl param
    · cases bound : callee.symbols.contains name with
      | false => exact Or.inr (Or.inl rfl)
      | true =>
          obtain ⟨count, other, calleeBinds⟩ := readable name bound
          have taken := absorbed.shared name count other binds.contains param calleeBinds
          obtain ⟨rfl, rfl⟩ := still.unique taken
          exact Or.inr (Or.inr calleeBinds)
  · rintro (param | unbound | calleeBinds)
    · exact kept (Or.inl param)
    · exact kept (Or.inr unbound)
    · by_cases param : name ∈ params
      · exact kept (Or.inl param)
      · exact absorbed.shared name hops target binds.contains param calleeBinds

theorem Absorbs.binds_cases (absorbed : caller.Absorbs params callee after)
    (callerReadable : caller.Readable) (calleeReadable : callee.Readable) {name : String}
    (bound : caller.symbols.contains name = true) :
    ((name ∈ params ∨ callee.symbols.contains name = false) ∧ ∃ hops target,
        caller.Binds name hops target ∧ after.Binds name hops target) ∨
      (name ∉ params ∧ ∃ hops target, callee.Binds name hops target ∧
        after.Binds name hops target) := by
  by_cases outside : name ∈ params ∨ callee.symbols.contains name = false
  · obtain ⟨hops, target, binds⟩ := callerReadable name bound
    exact Or.inl ⟨outside, hops, target, binds,
      binds.keep absorbed.heap (absorbed.kept name outside)⟩
  · obtain ⟨notParam, calleeBound⟩ := not_or.1 outside
    rw [Bool.not_eq_false] at calleeBound
    obtain ⟨hops, target, binds⟩ := calleeReadable name calleeBound
    exact Or.inr ⟨notParam, hops, target, binds,
      absorbed.shared name hops target bound notParam binds⟩

theorem Absorbs.readable (absorbed : caller.Absorbs params callee after)
    (callerReadable : caller.Readable) (calleeReadable : callee.Readable) : after.Readable := by
  intro name bound
  rcases absorbed.binds_cases callerReadable calleeReadable ((absorbed.contains_iff name).1 bound)
    with ⟨_, hops, target, _, binds⟩ | ⟨_, hops, target, _, binds⟩
  · exact ⟨hops, target, binds⟩
  · exact ⟨hops, target, binds⟩

end Environment

theorem merge_entries (params : List String) {callee : Environment} (readable : callee.Readable)
    (entries : List (String × Int)) (distinct : (entries.map Prod.fst).Nodup)
    (listed : ∀ entry ∈ entries, callee.symbols.get? entry.1 = some entry.2) :
    ∀ env : Environment,
      (merge params callee entries env).fault = none ∧
      env.heap <+: (merge params callee entries env).env.heap ∧
      (∀ name hops target, name ∈ entries.map Prod.fst → env.symbols.contains name = true →
        name ∉ params → callee.Binds name hops target →
        (merge params callee entries env).env.Binds name hops target) ∧
      (∀ name, name ∈ params ∨ name ∉ entries.map Prod.fst →
        (merge params callee entries env).env.symbols.get? name = env.symbols.get? name) := by
  -- The induction is on what is left of the callee's table, for any caller.
  induction entries with
  | nil => intro env; simp [merge]
  | cons entry rest ih =>
      obtain ⟨first, address⟩ := entry
      rw [List.map_cons, List.nodup_cons] at distinct
      have listedLater : ∀ entry ∈ rest, callee.symbols.get? entry.1 = some entry.2 :=
        fun entry member => listed entry (List.mem_cons_of_mem _ member)
      intro env
      by_cases skipped : first ∈ params ∨ env.symbols.contains first = false
      · obtain ⟨noFault, grown, shared, kept⟩ := ih distinct.2 listedLater env
        simp only [merge, skipped, if_true]
        refine ⟨noFault, grown, ?_, ?_⟩
        · intro name hops target member bound notParam
          rcases List.mem_cons.1 member with rfl | later
          · rcases skipped with param | unbound
            · exact absurd param notParam
            · simp [bound] at unbound
          · exact shared name hops target later bound notParam
        · intro name outside
          exact kept name (outside.imp_right fun absent later =>
            absent (List.mem_cons_of_mem _ later))
      · obtain ⟨notParam, bound⟩ := not_or.1 skipped
        rw [Bool.not_eq_false] at bound
        have found : callee.symbols.get? first = some address := listed _ List.mem_cons_self
        obtain ⟨hops, target, place, value, placed, loaded, leads⟩ := readable first
          ((Table.contains_iff_exists_get? _ _).2 ⟨address, found⟩)
        rw [found, Option.some.injEq] at placed
        subst placed
        obtain ⟨copy, heap, transferred, grownOnce, copied⟩ :=
          Environment.transfer_of_leads leads env
        obtain ⟨noFault, grown, shared, kept⟩ := ih distinct.2 listedLater
          (({ env with heap := heap } : Environment).bind first copy)
        have stepped : merge params callee ((first, (place : Int)) :: rest) env =
            { merge params callee rest (({ env with heap := heap } : Environment).bind first copy)
              with names := first :: (merge params callee rest
                (({ env with heap := heap } : Environment).bind first copy)).names } := by
          rw [merge, if_neg skipped]
          simp only [Environment.load?_natCast, loaded, transferred]
        have bindGrown := ({ env with heap := heap } : Environment).heap_prefix_bind first copy
        rw [stepped]
        refine ⟨noFault, grownOnce.trans (bindGrown.trans grown), ?_, ?_⟩
        · intro name count other member nameBound nameNotParam binds
          rcases List.mem_cons.1 member with rfl | later
          · obtain ⟨rfl, rfl⟩ := binds.unique ⟨place, value, found, loaded, leads⟩
            exact (Environment.binds_bind_self name copied).keep grown
              (kept name (Or.inr distinct.1))
          · exact shared name count other later
              ((Table.contains_set_iff _ _ _ _).2 (Or.inr nameBound)) nameNotParam binds
        · intro name outside
          have different : name ≠ first := by
            rintro rfl
            rcases outside with param | absent
            · exact notParam param
            · exact absent List.mem_cons_self
          rw [kept name (outside.imp_right fun absent later =>
            absent (List.mem_cons_of_mem _ later)), Environment.get?_bind_of_ne _ different]

theorem merge_absorbs (params : List String) {callee : Environment} (readable : callee.Readable)
    (caller : Environment) :
    (merge params callee callee.symbols.entries caller).fault = none ∧
      caller.Absorbs params callee (merge params callee callee.symbols.entries caller).env := by
  obtain ⟨noFault, grown, shared, kept⟩ := merge_entries params readable
    callee.symbols.entries callee.symbols.distinct
    (Table.lookup_of_mem _ callee.symbols.distinct) caller
  refine ⟨noFault, grown, merge_names params callee _ caller, ?_, ?_⟩
  · intro name hops target bound notParam binds
    exact shared name hops target ((Table.contains_iff_mem_names _ _).1 binds.contains) bound
      notParam binds
  · intro name outside
    refine kept name (outside.imp_right fun absent member => ?_)
    have present := (Table.contains_iff_mem_names callee.symbols name).2 member
    rw [present] at absent
    exact Bool.noConfusion absent

namespace State

theorem leaves_of_fault (caller : State) (params : List String) {stack : List Value}
    {callee : Environment} (readable : callee.Readable) (stop : Fault) :
    ∃ env, caller.Leaves params (some stop) ⟨stack, callee⟩ (some stop) ⟨caller.stack, env⟩ ∧
      caller.env.Absorbs params callee env := by
  obtain ⟨noFault, absorbed⟩ := merge_absorbs params readable caller.env
  refine ⟨_, ⟨?_, ?_⟩, absorbed⟩ <;> simp [leaveCall, noFault]

theorem leaves_of_empty (caller : State) (params : List String) {callee : Environment}
    (readable : callee.Readable) :
    ∃ env, caller.Leaves params none ⟨[], callee⟩ none ⟨caller.stack, env⟩ ∧
      caller.env.Absorbs params callee env := by
  obtain ⟨noFault, absorbed⟩ := merge_absorbs params readable caller.env
  refine ⟨_, ⟨?_, ?_⟩, absorbed⟩ <;> simp [leaveCall, noFault]

theorem leaves_of_result (caller : State) (params : List String) {callee : Environment}
    (readable : callee.Readable) {result target : Value} {hops : Nat} (rest : List Value)
    (leads : Leads callee.heap result hops target) :
    ∃ copy env, caller.Leaves params none ⟨result :: rest, callee⟩ none
        ⟨copy :: caller.stack, env⟩ ∧
      caller.env.Absorbs params callee env ∧ Leads env.heap copy hops target := by
  obtain ⟨noFault, absorbed⟩ := merge_absorbs params readable caller.env
  obtain ⟨copy, heap, transferred, grown, copied⟩ := Environment.transfer_of_leads leads
    (merge params callee callee.symbols.entries caller.env).env
  refine ⟨copy, _, ⟨?_, ?_⟩, absorbed.grow grown, copied⟩ <;>
    simp [leaveCall, noFault, transferred]

end State

def ReadsAs {α : Type} (sense : Nat → Value → α → Prop) (heap : List Value) (value : Value)
    (meaning : α) : Prop :=
  ∃ hops target, Leads heap value hops target ∧ sense hops target meaning

theorem ReadsAs.extend {α : Type} {sense : Nat → Value → α → Prop} {heap longer : List Value}
    {value : Value} {meaning : α} (reads : ReadsAs sense heap value meaning)
    (grown : heap <+: longer) : ReadsAs sense longer value meaning := by
  obtain ⟨hops, target, leads, stands⟩ := reads
  exact ⟨hops, target, leads.extend grown, stands⟩

theorem readsAs_itself {heap values : List Value}
    (lead : ∀ value ∈ values, ∃ hops target, Leads heap value hops target) :
    List.Forall₂ (ReadsAs (fun hops target value => Leads heap value hops target) heap)
      values values := by
  apply List.forall₂_same.2
  intro value member
  obtain ⟨hops, target, leads⟩ := lead value member
  exact ⟨hops, target, leads, leads⟩

theorem seed_reads {α : Type} {sense : Nat → Value → α → Prop} {caller : Environment}
    {popped : List Value} {meanings : List α}
    (reads : List.Forall₂ (ReadsAs sense caller.heap) popped meanings) :
    ∀ callee : State, ∃ copies heap,
      State.seed caller popped callee =
        .ok ⟨copies.reverse ++ callee.stack, { callee.env with heap := heap }⟩ ∧
      callee.env.heap <+: heap ∧ List.Forall₂ (ReadsAs sense heap) copies meanings := by
  induction reads with
  | nil =>
      rintro ⟨stack, ⟨heap, symbols⟩⟩
      exact ⟨[], heap, rfl, List.prefix_rfl, .nil⟩
  | @cons arg meaning rest others read reads ih =>
      intro callee
      -- The rest is copied onto the heap that already holds this copy.
      obtain ⟨hops, target, leads, stands⟩ := read
      obtain ⟨copy, heap, transferred, grown, copied⟩ :=
        Environment.transfer_of_leads leads callee.env
      obtain ⟨copies, last, seeded, grownOn, copiedOn⟩ :=
        ih ⟨copy :: callee.stack, { callee.env with heap := heap }⟩
      refine ⟨copy :: copies, last, ?_, grown.trans grownOn,
        .cons ⟨hops, target, copied.extend grownOn, stands⟩ copiedOn⟩
      simp only [State.seed, transferred, bind, Except.bind, seeded, List.reverse_cons,
        List.append_assoc, List.singleton_append]

theorem State.enters_of_reads {α : Type} {sense : Nat → Value → α → Prop}
    {env : Environment} {params : List String} (code : List Instr) (captured : Environment)
    {popped : List Value} (below : List Value) {args : List α}
    (reads : List.Forall₂ (ReadsAs sense env.heap) popped args.reverse)
    (arity : args.length = params.length) :
    ∃ values heap, State.Enters ⟨.closure params code captured :: (popped ++ below), env⟩
        args.length ⟨params, code, captured, ⟨below, env⟩, ⟨values, { captured with heap := heap }⟩⟩ ∧
      captured.heap <+: heap ∧ List.Forall₂ (ReadsAs sense heap) values args := by
  obtain ⟨copies, heap, seeded, grown, copied⟩ := seed_reads reads ⟨[], captured⟩
  rw [List.append_nil] at seeded
  have count : popped.length = args.length := by
    rw [reads.length_eq, List.length_reverse]
  refine ⟨copies.reverse, heap, ⟨popped, rfl, count, arity, rfl, seeded⟩, grown, ?_⟩
  have turned := List.rel_reverse copied
  rwa [List.reverse_reverse] at turned

end LetStack
