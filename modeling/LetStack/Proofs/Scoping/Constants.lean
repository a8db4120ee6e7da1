import LetStack.Proofs.Machine.Depth
import LetStack.Proofs.Scoping.Carrying

/-! Constants and parameters keep what they are given, up to what calls hand back. -/

namespace LetStack

def KeepsGiven (topLevel : Prop) (scope : Scope) (code : List Instr) (start : State)
    (name : String) : Prop :=
  ∀ (done later : List Instr) (depth : Nat) (value : Value) (rest : List Value)
    (env : Environment) (hops : Nat) (target : Value), code = done ++ .store name :: later →
    Ends depth done start none ⟨value :: rest, env⟩ → Leads env.heap value hops target →
    ∀ (current : Scope) (left : List Instr) (state : State) (count : Nat) (other : Value),
      Carries topLevel name scope later ⟨rest, env.bind name value⟩ hops target current left state
        count other →
      state.Reads name count other

theorem Accepted.split {kinds final : Table SymbolKind} {done later : List Instr}
    (accepted : Accepted kinds (done ++ later) final) : ∃ middle, Accepted middle later final := by
  induction done generalizing kinds with
  | nil => exact ⟨kinds, accepted⟩
  | cons instr rest ih =>
      obtain ⟨next, restAccepted, _⟩ := accepted.tail
      exact ih restAccepted

theorem Accepted.stored_once {kinds final : Table SymbolKind} {params : List String}
    {own done later : List Instr} {name : String} (distinct : params.Nodup)
    (accepted : Accepted (hide kinds params) own final)
    (constant : final.get? name = some .constant)
    (code : params.map .store ++ own = done ++ .store name :: later) : .store name ∉ later := by
  induction params generalizing done kinds with
  | nil =>
      rw [List.map_nil, List.nil_append] at code
      subst code
      obtain ⟨middle, restAccepted⟩ := accepted.split
      exact restAccepted.not_store_again constant
  | cons param rest ih =>
      rw [List.nodup_cons] at distinct
      cases done with
      | nil =>
          obtain ⟨same, rfl⟩ := List.cons.inj code
          rw [Instr.store.injEq] at same
          subst same
          have hidden : (hide kinds (param :: rest)).get? param = some .constant := by
            simp [get?_hide]
          have notOwn := accepted.not_store hidden
          simp [distinct.1, notOwn]
      | cons first done => exact ih distinct.2 accepted (List.cons.inj code).2

theorem ends_stores {depth : Nat} {names : List String} {start after : State}
    (ends : Ends depth (names.map .store) start none after)
    (enough : names.length ≤ start.stack.length) :
    after.stack = start.stack.drop names.length ∧ start.env.heap <+: after.env.heap := by
  have stored := ends_bindAll 0 names (start.stack.drop names.length) start.env
    (List.length_take_of_le enough)
  rw [List.take_append_drop] at stored
  obtain ⟨_, rfl⟩ := ends.unique stored
  exact ⟨rfl, Environment.heap_prefix_bindAll names _ _⟩

theorem keepsGiven_of_accepted {topLevel : Prop} {scope : Scope} {kinds : Table SymbolKind}
    {params : List String} {own : List Instr} {start : State} {name : String}
    (distinct : params.Nodup) (accepted : Accepted (hide kinds params) own scope.symbols)
    (constant : scope.symbols.get? name = some .constant) (sound : start.Sound (Allowed False)) :
    KeepsGiven topLevel scope (params.map .store ++ own) start name := by
  intro done later depth value rest env hops target code ends leads current left state count other
    carries
  have closed := allowed_closed False
  have allowed : Allowed False (params.map .store ++ own) start.env.symbols :=
    ⟨params, hide kinds params, scope.symbols, own, rfl, accepted, nofun⟩
  have point : Reaches (params.map .store ++ own) start (.store name :: later)
      ⟨value :: rest, env⟩ := by
    rw [code]
    exact .of_ends ends
  have stores : (Instr.store name).Acts 0 ⟨value :: rest, env⟩ none ⟨rest, env.bind name value⟩ :=
    Instr.acts_store_iff.2 ⟨rfl, rfl⟩
  obtain ⟨soundAfter, allowedAfter⟩ := (Reaches.next point stores).sound closed sound allowed
  have settled : Settled name scope later ⟨rest, env.bind name value⟩ hops target := {
    sound := soundAfter
    allowed := allowedAfter
    unstored := accepted.stored_once distinct constant code
    constant := constant
    binds := env.binds_bind_self name leads }
  exact (carries.settled settled).reads

theorem Accepted.done_eq_take {kinds final : Table SymbolKind} {params : List String}
    {own done later : List Instr} {name : String} {index : Nat} (distinct : params.Nodup)
    (accepted : Accepted (hide kinds params) own final) (found : params[index]? = some name)
    (code : params.map .store ++ own = done ++ .store name :: later) :
    done = (params.take index).map .store := by
  induction params generalizing done kinds index with
  | nil => simp at found
  | cons param rest ih =>
      rw [List.nodup_cons] at distinct
      cases done with
      | nil =>
          obtain ⟨same, _⟩ := List.cons.inj code
          rw [Instr.store.injEq] at same
          subst same
          cases index with
          | zero => rfl
          | succ index =>
              rw [List.getElem?_cons_succ] at found
              exact absurd (List.mem_of_getElem? found) distinct.1
      | cons first done =>
          simp only [List.map_cons, List.cons_append, List.cons.injEq] at code
          obtain ⟨rfl, codeRest⟩ := code
          cases index with
          | zero =>
              rw [List.getElem?_cons_zero, Option.some.injEq] at found
              subst found
              have hidden : (hide kinds (param :: rest)).get? param = some .constant := by
                simp [get?_hide]
              have stored : .store param ∈ rest.map .store ++ own := by
                rw [codeRest]
                simp
              have notOwn := accepted.not_store hidden
              simp [distinct.1, notOwn] at stored
          | succ index =>
              rw [List.getElem?_cons_succ] at found
              rw [ih distinct.2 accepted found codeRest]
              rfl

structure Activation.KeepsConstants (entry : Activation) (before : State) (outer inner : Scope) :
    Prop where
  params : ∀ name ∈ entry.params, inner.symbols.get? name = some .constant
  given : ∀ name, inner.symbols.get? name = some .constant →
    KeepsGiven False inner entry.body entry.start name
  args : ∃ args : List Value, before.stack = .closure entry.params entry.body entry.captured ::
      (args.reverse ++ entry.caller.stack) ∧ args.length = entry.params.length ∧
    ∀ (index : Nat) (name : String) (arg : Value) (done later : List Instr) (depth : Nat)
      (value : Value) (rest : List Value) (env : Environment),
      entry.params[index]? = some name → args[index]? = some arg →
      entry.body = done ++ .store name :: later →
      Ends depth done entry.start none ⟨value :: rest, env⟩ →
      ∃ hops target, Leads before.env.heap arg hops target ∧ Leads env.heap value hops target
  inherited : ∀ (name : String) (hops : Nat) (target : Value), name ∉ entry.params →
    outer.symbols.get? name = some .constant → entry.captured.Binds name hops target →
    ∀ (current : Scope) (left : List Instr) (state : State) (count : Nat) (other : Value),
      Carries False name inner entry.body entry.start hops target current left state count other →
      state.Reads name count other

theorem keepsConstants_of_literal {before : State} {argCount : Nat} {entry : Activation}
    {outer : Scope} {body : List Expr} (sound : before.Sound (Allowed False))
    (entered : before.Enters argCount entry)
    (clean : ((Expr.function entry.params body).check outer).2.isClean = true)
    (code : entry.body = entry.params.map .store ++ Expr.compileAll body) :
    entry.KeepsConstants before outer (Expr.checkAll body (outer.enter entry.params)).1 := by
  rw [Findings.isClean, List.isEmpty_iff, Expr.check, Findings.errors_append,
    List.append_eq_nil_iff] at clean
  have distinct : entry.params.Nodup := (nodup_of_repeated (List.map_eq_nil_iff.1 clean.1)).1
  have accepted := program_accepted (List.isEmpty_iff.2 clean.2)
  rw [Scope.enter_symbols] at accepted
  obtain ⟨startSound, symbols, bodyAllowed⟩ := sound.enters entered
  constructor
  · intro name member
    apply accepted.keeps
    rw [get?_hide, if_pos member]
  · intro name constant
    rw [code]
    exact keepsGiven_of_accepted distinct accepted constant startSound
  · obtain ⟨args, shape, count, _, copied⟩ := sound.args entered
    have arity : argCount = entry.params.length := by
      obtain ⟨_, _, _, arity, _⟩ := entered
      exact arity
    refine ⟨args, shape, count.trans arity, ?_⟩
    intro index name arg done later depth value rest env found argFound bodyEq ends
    -- In front of its store stand those of the parameters before it, each with one argument.
    have stores := accepted.done_eq_take distinct found (code.symm.trans bodyEq)
    rw [stores] at ends
    have inside : index < entry.params.length := (List.getElem?_eq_some_iff.1 found).1
    have taken : (entry.params.take index).length = index := by
      rw [List.length_take]
      omega
    have enough : (entry.params.take index).length ≤ entry.start.stack.length := by
      rw [taken, copied.length_eq, count, arity]
      exact Nat.le_of_lt inside
    obtain ⟨stack, grown⟩ := ends_stores ends enough
    rw [taken] at stack
    have valueFound : entry.start.stack[index]? = some value := by
      rw [← List.head?_drop, ← stack]
      rfl
    obtain ⟨valueInside, valueEq⟩ := List.getElem?_eq_some_iff.1 valueFound
    obtain ⟨argInside, argEq⟩ := List.getElem?_eq_some_iff.1 argFound
    have member : arg ∈ before.stack := by
      have listed := List.mem_of_getElem? argFound
      simp [shape, listed]
    obtain ⟨hops, target, leads⟩ := sound.env.leads (sound.stack arg member)
    have copy := copied.get valueInside argInside hops target
    simp only [List.get_eq_getElem, valueEq, argEq] at copy
    exact ⟨hops, target, leads, (copy leads).extend grown⟩
  · intro name hops target notParam constant binds current left state count other carries
    obtain ⟨_, _, _, grown, _⟩ := sound.args entered
    have hidden : (hide outer.symbols entry.params).get? name = some .constant := by
      rw [get?_hide, if_neg notParam, constant]
    have notOwn := accepted.not_store hidden
    have settled : Settled name (Expr.checkAll body (outer.enter entry.params)).1 entry.body
        entry.start hops target := {
      sound := startSound
      allowed := symbols ▸ bodyAllowed
      unstored := by simp [code, notParam, notOwn]
      constant := accepted.keeps hidden
      binds := binds.keep grown (by rw [symbols]) }
    exact (carries.settled settled).reads

/-- In every session, constants of the top level, and constants and parameters of every body that is
entered, keep what they are given up to what calls hand back; and calls hand nothing else back,
unless the body of the callee has a local of that name. -/
theorem constants_turn_by_calls_only (session : Session) (program : List Expr)
    (reached : Session.Reached (fun _ => True) session)
    (clean : (session.scope.analyze program).2.isClean = true) :
    (∀ name, (session.scope.analyze program).1.symbols.get? name = some .constant →
      KeepsGiven True (session.scope.analyze program).1 (Expr.compileAll program)
        ⟨[], session.env⟩ name) ∧
    (∀ (argCount : Nat) (later : List Instr) (before : State) (entry : Activation),
      Reaches (Expr.compileAll program) ⟨[], session.env⟩ (.call argCount :: later) before →
      before.Enters argCount entry → ∀ (outer : Scope) (body : List Expr),
        ((Expr.function entry.params body).check outer).2.isClean = true →
        entry.body = entry.params.map .store ++ Expr.compileAll body →
        entry.KeepsConstants before outer (Expr.checkAll body (outer.enter entry.params)).1) ∧
    ∀ (instr : Instr) (later : List Instr) (before : State),
      Reaches (Expr.compileAll program) ⟨[], session.env⟩ (instr :: later) before →
      ∀ (name : String) (depth hops : Nat) (target : Value),
        (∃ count other, instr.Turns name depth before hops target count other) ∨
          instr.MeetsLocal name before := by
  have sound : session.Sound False := reached.sound nofun
  have closed := allowed_closed False
  have soundAt : ∀ {later : List Instr} {before : State},
      Reaches (Expr.compileAll program) ⟨[], session.env⟩ later before →
      before.Sound (Allowed False) :=
    fun point => (point.sound closed sound.start (sound.allowed clean)).1
  refine ⟨?_, ?_, ?_⟩
  · intro name constant
    have accepted : Accepted (hide session.scope.symbols []) (Expr.compileAll program)
        (session.scope.analyze program).1.symbols := by
      rw [Scope.analyze_of_clean clean]
      exact program_accepted clean
    exact keepsGiven_of_accepted List.nodup_nil accepted constant sound.start
  · intro argCount later before entry point entered outer body literalClean code
    exact keepsConstants_of_literal (soundAt point) entered literalClean code
  · intro instr later before point name depth hops target
    exact instr.turns_or_meetsLocal name depth hops target (soundAt point)

def callsAfterConstant : List Expr :=
  [.declare .constant "c" (.literal (.int 1)),
    .declare .variable "f" (.function [] [.literal (.int 0)]),
    .call "f" [],
    .identifier "c"]

theorem constants_turn_by_calls_only_captured :
    ∃ state, Carries True "c" (Scope.empty.analyze callsAfterConstant).1
        ((Expr.compileAll callsAfterConstant).drop 2)
        ⟨[], Environment.empty.bind "c" (.int 1)⟩ 0 (.int 1)
        (Scope.empty.analyze callsAfterConstant).1 [.lookup "c"] state 0 (.int 1) ∧
      state.Reads "c" 0 (.int 1) := by
  have kept := (constants_turn_by_calls_only .empty callsAfterConstant .empty rfl).1 "c" rfl
  let given := Environment.empty.bind "c" (.int 1)
  let closure : Value := .closure [] [.pushLiteral (.int 0)] given
  let called := given.bind "f" closure
  have makes : (Instr.makeClosure [] [.pushLiteral (.int 0)]).Acts 1 ⟨[], given⟩ none
      ⟨[closure], given⟩ := ⟨_, rfl⟩
  have stores : (Instr.store "f").Acts 1 ⟨[closure], given⟩ none ⟨[], called⟩ := ⟨_, rfl⟩
  have finds : (Instr.lookup "f").Acts 1 ⟨[], called⟩ none ⟨[closure], called⟩ := ⟨_, rfl⟩
  have calls : (Instr.call 0).Acts 1 ⟨[closure], called⟩ none
      ⟨[.int 0], called.bind "c" (.int 1)⟩ := ⟨_, rfl⟩
  have entered : State.Enters ⟨[closure], called⟩ 0
      ⟨[], [.pushLiteral (.int 0)], given, ⟨[], called⟩, ⟨[], given⟩⟩ :=
    ⟨[], rfl, rfl, rfl, rfl, rfl⟩
  have ran : Ends 1 [.pushLiteral (.int 0)] ⟨[], given⟩ none ⟨[.int 0], given⟩ := ⟨_, _, rfl⟩
  have handedBack : (Instr.call 0).Turns "c" 1 ⟨[closure], called⟩ 0 (.int 1) 0 (.int 1) :=
    .merged rfl entered rfl nofun ran ⟨0, .int 1, rfl, rfl, .here nofun⟩
  have path : Carries True "c" (Scope.empty.analyze callsAfterConstant).1
      ((Expr.compileAll callsAfterConstant).drop 2) ⟨[], given⟩ 0 (.int 1)
      (Scope.empty.analyze callsAfterConstant).1 [.lookup "c"]
      ⟨[.int 0], called.bind "c" (.int 1)⟩ 0 (.int 1) :=
    (((Carries.start.next makes (.spared nofun)).next stores (.spared nofun)).next finds
      (.spared nofun)).next calls handedBack
  exact ⟨_, path, kept [.pushLiteral (.int 1)] _ 1 (.int 1) [] .empty 0 (.int 1) rfl ⟨_, _, rfl⟩
    (.here nofun) _ _ _ _ _ path⟩

/-- `let p = 5; let f = () => 0; let g = (p) => { f(); p }; g(1)` -/
def parameterOverCaptured : List Expr :=
  [.declare .variable "p" (.literal (.int 5)),
    .declare .variable "f" (.function [] [.literal (.int 0)]),
    .declare .variable "g" (.function ["p"] [.call "f" [], .identifier "p"]),
    .call "g" [.literal (.int 1)]]

/-- `let g = () => 0; let h = (c) => { g = () => c }; h(7); const c = 1; g(); c` -/
def constantOverCaptured : List Expr :=
  [.declare .variable "g" (.function [] [.literal (.int 0)]),
    .declare .variable "h" (.function ["c"] [.assign "g" (.function [] [.identifier "c"])]),
    .call "h" [.literal (.int 7)],
    .declare .constant "c" (.literal (.int 1)),
    .call "g" [],
    .identifier "c"]

theorem captured_replaces_constant :
    (∃ evaluation, Session.empty.submit 3 parameterOverCaptured = some evaluation ∧
      evaluation.outcome = .success (.value (.int 5)) []) ∧
    ∃ evaluation, Session.empty.submit 2 constantOverCaptured = some evaluation ∧
      evaluation.outcome = .success (.value (.int 7)) [.reassigning "g"] :=
  ⟨⟨_, rfl, rfl⟩, ⟨_, rfl, rfl⟩⟩

end LetStack
