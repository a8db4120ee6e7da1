import LetStack.Code.Compile
import LetStack.Proofs.Machine.WellFormed

/-!
Values that go over to another environment are copied in depth, with all the pointers on their way. So
the arguments of a call keep what they stand for, and each is bound to the parameter in its place.
-/

namespace LetStack

theorem Leads.hops_eq_zero_iff {heap : List Value} {value target : Value} {hops : Nat}
    (leads : Leads heap value hops target) : hops = 0 ↔ ∀ address, value ≠ .pointer address := by
  cases leads with
  | here plain => exact ⟨fun _ => plain, fun _ => rfl⟩
  | @hop address _ _ _ _ _ => exact ⟨nofun, fun plain => absurd rfl (plain address)⟩

namespace Environment

theorem WellFormed.leads {env : Environment} {value : Value} (wellFormed : env.WellFormed)
    (inside : ∀ address, value = .pointer address → address < env.heap.length) :
    ∃ hops target, Leads env.heap value hops target := by
  by_cases pointer : ∃ address, value = .pointer address
  · obtain ⟨address, rfl⟩ := pointer
    exact (wellFormed.followable (.pointer (inside address rfl))).leads
  · exact ⟨0, value, .here (not_exists.1 pointer)⟩

/-- A copy of a value comes to lie on any environment, with one new entry for each pointer on the way
and none but these. It leads as far as the value does and to the same target, whatever is added later. -/
theorem transfer_copies_in_depth {source : Environment} {value : Value}
    (wellFormed : source.WellFormed)
    (inside : ∀ address, value = .pointer address → address < source.heap.length)
    (onto : Environment) :
    ∃ hops target copy added,
      source.transfer value onto = .ok (copy, { onto with heap := onto.heap ++ added }) ∧
      Leads source.heap value hops target ∧ added.length = hops ∧
      (hops = 0 ↔ ∀ address, value ≠ .pointer address) ∧
      ∀ later, Leads (onto.heap ++ added ++ later) copy hops target := by
  obtain ⟨hops, target, leads⟩ := wellFormed.leads inside
  obtain ⟨copy, added, relocated, count, copied⟩ :=
    relocate_of_leads leads onto.heap leads.hops_le
  refine ⟨hops, target, copy, added, ?_, leads, count, leads.hops_eq_zero_iff, ?_⟩
  · simp only [transfer, relocated, Bind.bind, Except.bind]
  · exact fun later => copied.extend (List.prefix_append _ later)

def chained : Environment := (empty.allocate (.bytes [104, 105])).allocate (.pointer 0)

theorem chained_wellFormed : chained.WellFormed :=
  wellFormed_iff_sound.2 ((sound_empty.allocate (.bytes _ _)).allocate (.pointer (by decide)))

theorem chained_leads : Leads chained.heap (.pointer 1) 2 (.bytes [104, 105]) :=
  .hop rfl (.hop rfl (.here nofun))

theorem transfer_copies_in_depth_chained :
    chained.WellFormed ∧
      (∀ address, Value.pointer 1 = .pointer address → address < chained.heap.length) ∧
      ∃ copy added,
        chained.transfer (.pointer 1) knowsBoth =
          .ok (copy, { knowsBoth with heap := knowsBoth.heap ++ added }) ∧
        added.length = 2 ∧
        Leads (knowsBoth.heap ++ added ++ [.bool true]) copy 2 (.bytes [104, 105]) := by
  have inside : ∀ address, Value.pointer 1 = .pointer address → address < chained.heap.length := by
    rintro address ⟨⟩
    decide
  obtain ⟨hops, target, copy, added, transferred, leadsToo, count, _, copied⟩ :=
    transfer_copies_in_depth chained_wellFormed inside knowsBoth
  obtain ⟨rfl, rfl⟩ := chained_leads.unique leadsToo
  exact ⟨chained_wellFormed, inside, copy, added, transferred, count, copied [.bool true]⟩

end Environment

/-- A call of what a function literal makes, with as many arguments as it has parameters: the stores
that its body begins with take up the arguments, each under the name in its place, and leave alone what
the closure has captured under any other name. -/
theorem arguments_meet_parameters {params : List String} {body : List Expr} {code : List Instr}
    {env : Environment} (args below : List Value) (captured : Environment)
    (literal : (Expr.function params body).compile = [.makeClosure params code])
    (distinct : params.Nodup) (count : args.length = params.length)
    (wellFormed : State.WellFormed ⟨args.reverse ++ below, env⟩) :
    ∃ start after,
      code = params.map .store ++ Expr.compileAll body ∧
      State.Enters ⟨.closure params code captured :: (args.reverse ++ below), env⟩ args.length
        ⟨params, code, captured, ⟨below, env⟩, start⟩ ∧
      (∀ depth, Ends (depth + 1) (params.map .store) start none after) ∧ after.stack = [] ∧
      (∀ (index : Nat) (param : String) (arg : Value), params[index]? = some param →
        args[index]? = some arg → ∃ hops target,
          Leads env.heap arg hops target ∧ after.env.Binds param hops target) ∧
      captured.heap <+: after.env.heap ∧
      ∀ name, name ∉ params → after.env.symbols.get? name = captured.symbols.get? name := by
  rw [Expr.compile, List.singleton_inj, Instr.makeClosure.injEq] at literal
  obtain ⟨_, rfl⟩ := literal
  have reads := readsAs_itself fun arg (member : arg ∈ args.reverse) =>
    (wellFormed.env.followable (wellFormed.stack arg (List.mem_append_left _ member))).leads
  obtain ⟨values, heap, entered, grown, readsOn⟩ := State.enters_of_reads
    (params.map .store ++ Expr.compileAll body) captured below reads count
  have kept : captured.heap <+: (Environment.bindAll params values ⟨heap, captured.symbols⟩).heap :=
    grown.trans (Environment.heap_prefix_bindAll params values ⟨heap, captured.symbols⟩)
  refine ⟨_, ⟨[], Environment.bindAll params values ⟨heap, captured.symbols⟩⟩, rfl, entered, ?_, rfl,
    ?_, kept, fun name other => Environment.get?_bindAll_of_not_mem other values _⟩
  · intro depth
    have stored := ends_bindAll depth params [] ⟨heap, captured.symbols⟩
      (readsOn.length_eq.trans count)
    rwa [List.append_nil] at stored
  · intro index param arg found foundArg
    obtain ⟨inside, rfl⟩ := List.getElem?_eq_some_iff.1 foundArg
    have bound : index < values.length := readsOn.length_eq ▸ inside
    obtain ⟨hops, target, leads, argLeads⟩ := readsOn.get bound inside
    exact ⟨hops, target, argLeads,
      Environment.binds_bindAll distinct found (List.getElem?_eq_getElem bound) leads⟩

theorem arguments_meet_parameters_captured :
    let params := ["x", "z"]
    let code : List Instr := [.store "x", .store "z", .lookup "x"]
    let caller : State := ⟨[.int 5, .pointer 1, .bool true], .chained⟩
    (Expr.function params [.identifier "x"]).compile = [.makeClosure params code] ∧
      params.Nodup ∧ caller.WellFormed ∧ ∃ start after,
      State.Enters ⟨.closure params code holdsHalf :: caller.stack, .chained⟩ 2
        ⟨params, code, holdsHalf, ⟨[.bool true], .chained⟩, start⟩ ∧
      Ends 1 [.store "x", .store "z"] start none after ∧ after.stack = [] ∧
      after.env.Binds "x" 2 (.bytes [104, 105]) ∧ after.env.Binds "z" 0 (.int 5) ∧
      after.env.symbols.get? "y" = some 7 := by
  intro params code caller
  have literal : (Expr.function params [.identifier "x"]).compile = [.makeClosure params code] := rfl
  have wellFormed : caller.WellFormed := by
    refine ⟨?_, Environment.chained_wellFormed⟩
    intro value member
    simp only [caller, List.mem_cons, List.not_mem_nil, or_false] at member
    rcases member with rfl | rfl | rfl
    · exact .int _ _
    · exact .pointer (by decide)
    · exact .bool _ _
  obtain ⟨start, after, _, entered, stored, empty, bound, _, kept⟩ :=
    arguments_meet_parameters [.pointer 1, .int 5] [.bool true] holdsHalf literal (by decide) rfl
      wellFormed
  obtain ⟨hops, target, leads, bindsFirst⟩ := bound 0 "x" (.pointer 1) rfl rfl
  obtain ⟨rfl, rfl⟩ := Environment.chained_leads.unique leads
  obtain ⟨count, other, leadsToo, bindsLast⟩ := bound 1 "z" (.int 5) rfl rfl
  obtain ⟨rfl, rfl⟩ := leadsToo.unique (.here nofun)
  exact ⟨literal, by decide, wellFormed, start, after, entered, stored 0, empty, bindsFirst, bindsLast,
    kept "y" (by decide)⟩

end LetStack
