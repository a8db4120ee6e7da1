import LetStack.Proofs.Direct.Simulation
import LetStack.Proofs.Machine.Arithmetic

/-! Single instructions, the stores that open a body, and calls simulate steps of the evaluation. -/

namespace LetStack

inductive SameResult (heap : List Value) : Except Fault Value → Except Fault Plain → Prop
  | fault (fault : Fault) : SameResult heap (.error fault) (.error fault)
  | value {value plain} : Means heap value plain → SameResult heap (.ok value) (.ok plain)

namespace Operator

theorem onInts_eq_ofInts (operator : Operator) (left right : Int) :
    operator.onInts left right =
      if operator = div ∧ right = 0 then .error .divisionByZero
      else .ok (operator.ofInts left right) := by
  cases operator <;> simp [onInts, ofInts]

theorem onFloats_eq_ofFloats (operator : Operator) (left right : Float) :
    operator.onFloats left right =
      if operator = div ∧ right == 0 then .error .divisionByZero
      else .ok (operator.ofFloats left right) := by
  cases operator <;> simp [onFloats, ofFloats]

theorem apply_onPlain {heap : List Value} {left right : Value} {first second : Plain}
    (operator : Operator) (leftMeans : Means heap left first)
    (rightMeans : Means heap right second) :
    SameResult heap (operator.apply left right) (operator.onPlain first second) := by
  obtain ⟨_, _, leftLeads, leftStands⟩ := leftMeans
  obtain ⟨_, _, rightLeads, rightStands⟩ := rightMeans
  cases leftStands with
  | int a =>
      cases leftLeads
      cases rightStands with
      | int b =>
          cases rightLeads
          simp only [onPlain, apply, onInts_eq_ofInts]
          by_cases divides : operator = .div ∧ b = 0
          · rw [if_pos divides, if_pos divides]
            exact .fault _
          · rw [if_neg divides, if_neg divides]
            simp only [Bind.bind, Except.bind, fitsInt_iff]
            split
            · exact .value (.int _)
            · exact .fault _
      | _ =>
          cases rightLeads
          exact .fault _
  | float a =>
      cases leftLeads
      cases rightStands with
      | float b =>
          cases rightLeads
          simp only [onPlain, apply, onFloats_eq_ofFloats]
          by_cases divides : operator = .div ∧ b == 0
          · rw [if_pos divides, if_pos divides]
            exact .fault _
          · rw [if_neg divides, if_neg divides]
            exact .value (.float _)
      | _ =>
          cases rightLeads
          exact .fault _
  | _ =>
      cases leftLeads
      cases rightStands <;> cases rightLeads <;> exact .fault _

end Operator

namespace Simulates

variable {depth : Nat}

theorem literal (value : Literal) :
    Simulates (depth + 1) [] [value.compile] (Pure.pure (some value.plain)) pushesValue := by
  intro env taken below bindings after result represents means evaluated
  cases means
  cases evaluated
  refine ⟨fun other same => ?_, fun fault impossible => (by cases impossible)⟩
  cases same
  have pushed : ∀ (scalar : Value) (plain : Plain), Means env.heap scalar plain →
      value.compile = .pushLiteral scalar → value.plain = plain → ∃ left last meanings,
        Ends (depth + 1) [value.compile] ⟨[] ++ below, env⟩ none ⟨left ++ below, last⟩ ∧
        env.heap <+: last.heap ∧ last.Represents bindings ∧
        pushesValue (some value.plain) meanings ∧
        List.Forall₂ (Means last.heap) left meanings := by
    intro scalar plain read compiled same
    rw [compiled, same]
    exact ⟨[scalar], env, [plain],
      ends_singleton_iff.2 (Instr.acts_pushLiteral_iff.2 ⟨rfl, rfl⟩), List.prefix_rfl, represents,
      rfl, .cons read .nil⟩
  cases value with
  | int value => exact pushed _ _ (.int value) rfl rfl
  | float value => exact pushed _ _ (.float value) rfl rfl
  | bool value => exact pushed _ _ (.bool value) rfl rfl
  | text content =>
      refine ⟨[.pointer env.heap.length],
        { env with heap := env.heap ++ [.bytes (encodeUtf8 content.toList)] }, [.text content],
        ends_singleton_iff.2 (Instr.acts_allocateBytes_iff.2 ⟨rfl, rfl⟩), List.prefix_append _ _,
        represents.grow (List.prefix_append _ _), rfl, .cons (.text ?_) .nil⟩
      simp

theorem lookup (name : String) :
    Simulates (depth + 1) [] [.lookup name] (Direct.find name) pushesOne := by
  intro env taken below bindings after result represents means evaluated
  cases means
  cases found : bindings name with
  | none =>
      simp only [Direct.find, found, Option.some.injEq, Prod.mk.injEq] at evaluated
      obtain ⟨rfl, rfl⟩ := evaluated
      refine ⟨fun _ impossible => (by cases impossible), fun fault same => ?_⟩
      cases same
      have missing := State.lookup_of_unbound ([] ++ below) (represents.unbound name found)
      exact ⟨⟨[] ++ below, env⟩, ends_singleton_iff.2 (Instr.acts_lookup_iff.2
        ⟨by rw [missing]; rfl, by rw [missing]; rfl⟩), represents⟩
  | some plain =>
      simp only [Direct.find, found, Option.some.injEq, Prod.mk.injEq] at evaluated
      obtain ⟨rfl, rfl⟩ := evaluated
      refine ⟨fun other same => ?_, fun fault impossible => (by cases impossible)⟩
      cases same
      obtain ⟨hops, target, binds, stands⟩ := represents.bound name plain found
      obtain ⟨value, looked, leads⟩ := Instr.acts_lookup_of_binds depth ([] ++ below) binds
      exact ⟨[value], env, [plain], ends_singleton_iff.2 looked, List.prefix_rfl, represents, rfl,
        .cons ⟨hops, target, leads, stands⟩ .nil⟩

theorem store (name : String) (plain : Plain) :
    Simulates (depth + 1) [plain] [.store name] (Direct.set name plain)
      (fun _ meanings => meanings = []) := by
  intro env taken below bindings after result represents means evaluated
  cases evaluated
  refine ⟨fun other same => ?_, fun fault impossible => (by cases impossible)⟩
  cases means with
  | cons read rest =>
      cases rest
      exact ⟨[], env.bind name _, [], ends_singleton_iff.2 (Instr.acts_store_iff.2 ⟨rfl, rfl⟩),
        env.heap_prefix_bind name _, represents.bind read name, rfl, .nil⟩

theorem arithmetic (operator : Operator) (first second : Plain) :
    Simulates (depth + 1) [second, first] [.arithmetic operator]
      (Direct.ofExcept (operator.onPlain first second)) pushesOne := by
  intro env taken below bindings after result represents means evaluated
  cases means with
  | @cons right _ _ _ rightMeans rest =>
      cases rest with
      | @cons left _ _ _ leftMeans rest =>
          cases rest
          have same := operator.apply_onPlain leftMeans rightMeans
          generalize applied : operator.apply left right = machine at same
          generalize operator.onPlain first second = direct at same evaluated
          cases same with
          | fault fault =>
              cases evaluated
              refine ⟨fun _ impossible => (by cases impossible), fun other same => ?_⟩
              cases same
              exact ⟨⟨below, env⟩, ends_singleton_iff.2 (Instr.acts_arithmetic_iff.2
                (by simp [State.arithmetic, applied, State.fail])), represents⟩
          | @value value plain read =>
              cases evaluated
              refine ⟨fun other same => ?_, fun fault impossible => (by cases impossible)⟩
              cases same
              exact ⟨[value], env, [plain], ends_singleton_iff.2 (Instr.acts_arithmetic_iff.2
                (by simp [State.arithmetic, applied, State.done])), List.prefix_rfl, represents,
                rfl, .cons read .nil⟩

theorem makeClosure (params : List String) (body : List Expr) :
    Simulates (depth + 1) [] [.makeClosure params (params.map .store ++ Expr.compileAll body)]
      (do
        let captured ← Direct.current
        Pure.pure (some (.closure params body captured))) pushesValue := by
  intro env taken below bindings after result represents means evaluated
  cases means
  cases evaluated
  refine ⟨fun other same => ?_, fun fault impossible => (by cases impossible)⟩
  cases same
  exact ⟨[_], env, [_], ends_singleton_iff.2 (Instr.acts_makeClosure_iff.2 ⟨rfl, rfl⟩),
    List.prefix_rfl, represents, rfl, .cons (.closure represents) .nil⟩

end Simulates

theorem Environment.Represents.bindAll (params : List String) :
    ∀ {values : List Value} {plains : List Plain} {env : Environment} {bindings : Bindings},
      env.Represents bindings → List.Forall₂ (Means env.heap) values plains →
      (env.bindAll params values).Represents (Bindings.setAll params plains bindings) := by
  induction params with
  | nil => exact fun represents _ => represents
  | cons name names ih =>
      intro values plains env bindings represents means
      cases means with
      | nil => exact represents
      | @cons value plain values plains read rest =>
          exact ih (represents.bind read name) (means_extend rest (env.heap_prefix_bind name value))

def BodiesSimulate (fuel : Nat) : Prop :=
  ∀ body, Simulates fuel [] (Expr.compileAll body) (Direct.run fuel body)
    (fun value meanings => meanings.head? = value)

theorem ends_closure_body {fuel : Nat} (bodies : BodiesSimulate fuel) {params : List String}
    {body : List Expr} {env : Environment} {captured after : Bindings} {values : List Value}
    {plains : List Plain} {result : Except Stop (Option Plain)} (represents : env.Represents captured)
    (means : List.Forall₂ (Means env.heap) values plains) (count : values.length = params.length)
    (evaluated : Direct.run fuel body (Bindings.setAll params plains captured) =
      some (result, after)) :
    (∀ value, result = .ok value → ∃ left last,
      Ends fuel (params.map .store ++ Expr.compileAll body) ⟨values, env⟩ none ⟨left, last⟩ ∧
      last.Represents after ∧ ∃ meanings, meanings.head? = value ∧
        List.Forall₂ (Means last.heap) left meanings) ∧
    (∀ fault, result = .error (.fault fault) → ∃ last,
      Ends fuel (params.map .store ++ Expr.compileAll body) ⟨values, env⟩ (some fault) last ∧
      last.env.Represents after) := by
  cases fuel with
  | zero => cases evaluated
  | succ depth =>
      have stored := ends_bindAll depth params [] env count
      rw [List.append_nil] at stored
      obtain ⟨finished, failed⟩ :=
        bodies body _ [] [] _ after result (represents.bindAll params means) .nil evaluated
      refine ⟨fun value same => ?_, fun fault same => ?_⟩
      · obtain ⟨left, last, meanings, ends, _, representsLast, pushed, leftMeans⟩ :=
          finished value same
        simp only [List.append_nil] at ends
        exact ⟨left, last, stored.append ends, representsLast, meanings, pushed, leftMeans⟩
      · obtain ⟨last, ends, representsLast⟩ := failed fault same
        exact ⟨last, stored.append ends, representsLast⟩

namespace Simulates

theorem call_closure {depth : Nat} (bodies : BodiesSimulate depth) {params : List String}
    (body : List Expr) (captured : Bindings) {args : List Plain}
    (arity : args.length = params.length) :
    Simulates (depth + 1) (.closure params body captured :: args.reverse) [.call args.length]
      ((Plain.closure params body captured).call (Direct.run depth) args) pushesValue := by
  intro env taken below bindings after result represents means evaluated
  obtain ⟨callee, popped, calleeMeans, poppedMeans, rfl⟩ := List.forall₂_cons_right_iff.1 means
  obtain ⟨capturedEnv, rfl, capturedRepresents⟩ := calleeMeans.closure_inv
  rw [Plain.call_closure, if_pos arity] at evaluated
  obtain ⟨⟨bodyResult, final⟩, ran, same⟩ := Option.map_eq_some_iff.1 evaluated
  simp only [Prod.mk.injEq] at same
  obtain ⟨rfl, rfl⟩ := same
  obtain ⟨values, heap, entered, grown, valuesMean⟩ := State.enters_of_reads
    (params.map .store ++ Expr.compileAll body) capturedEnv below poppedMeans arity
  obtain ⟨finished, failed⟩ := ends_closure_body bodies (capturedRepresents.grow grown)
    valuesMean (valuesMean.length_eq.trans arity) ran
  refine ⟨fun value same => ?_, fun fault same => ?_⟩
  · obtain ⟨left, last, ends, representsLast, meanings, pushed, leftMeans⟩ := finished value same
    -- Of what the body has left, the caller takes the top only.
    cases leftMeans with
    | nil =>
        obtain ⟨merged, left, absorbed⟩ :=
          State.leaves_of_empty ⟨below, env⟩ params representsLast.readable
        cases pushed
        exact ⟨[], merged, [], ends_singleton_iff.2
          (Instr.acts_call_of_enters entered ends left), absorbed.heap,
          represents.absorb representsLast absorbed, rfl, .nil⟩
    | @cons top plain rest others read _ =>
        obtain ⟨hops, stood, leads, stands⟩ := read
        obtain ⟨copy, merged, left, absorbed, copied⟩ :=
          State.leaves_of_result ⟨below, env⟩ params representsLast.readable rest leads
        cases pushed
        exact ⟨[copy], merged, [plain], ends_singleton_iff.2
          (Instr.acts_call_of_enters entered ends left), absorbed.heap,
          represents.absorb representsLast absorbed, rfl,
          .cons ⟨hops, stood, copied, stands⟩ .nil⟩
  · obtain ⟨last, ends, representsLast⟩ := failed fault same
    obtain ⟨merged, left, absorbed⟩ :=
      State.leaves_of_fault ⟨below, env⟩ params representsLast.readable fault
    exact ⟨⟨below, merged⟩, ends_singleton_iff.2 (Instr.acts_call_of_enters entered ends left),
      represents.absorb representsLast absorbed⟩

theorem call_refused {depth argCount : Nat} {target : Plain} {operands : List Plain} {stop : Fault}
    {α : Type} {pushes : α → List Plain → Prop}
    (refused : ∀ (env : Environment) (taken below : List Value),
      List.Forall₂ (Means env.heap) taken (target :: operands) →
      State.Refuses ⟨taken ++ below, env⟩ argCount stop ⟨below, env⟩) :
    Simulates (depth + 1) (target :: operands) [.call argCount] (Direct.stop (.fault stop))
      pushes := by
  intro env taken below bindings after result represents means evaluated
  cases evaluated
  refine ⟨fun _ impossible => (by cases impossible), fun fault same => ?_⟩
  cases same
  exact ⟨⟨below, env⟩,
    ends_singleton_iff.2 (Instr.acts_call_of_refuses (refused env taken below means)), represents⟩

theorem call {depth : Nat} (bodies : BodiesSimulate depth) (target : Plain) (args : List Plain) :
    Simulates (depth + 1) (target :: args.reverse) [.call args.length]
      (target.call (Direct.run depth) args) pushesValue := by
  have count : ∀ {heap : List Value} {popped : List Value},
      List.Forall₂ (Means heap) popped args.reverse → popped.length = args.length :=
    fun means => by rw [means.length_eq, List.length_reverse]
  by_cases closure : ∃ params body captured, target = .closure params body captured
  · obtain ⟨params, body, captured, rfl⟩ := closure
    by_cases arity : args.length = params.length
    · exact call_closure bodies body captured arity
    · rw [Plain.call_of_argumentCount body captured arity]
      refine call_refused fun env taken below means => ?_
      obtain ⟨callee, popped, calleeMeans, poppedMeans, rfl⟩ :=
        List.forall₂_cons_right_iff.1 means
      obtain ⟨capturedEnv, rfl, _⟩ := calleeMeans.closure_inv
      exact .argumentCount rfl (count poppedMeans) arity
  · have notClosure : ∀ params body captured, target ≠ .closure params body captured :=
      fun params body captured same => closure ⟨params, body, captured, same⟩
    rw [Plain.call_of_not_closure notClosure]
    refine call_refused fun env taken below means => ?_
    obtain ⟨callee, popped, calleeMeans, poppedMeans, rfl⟩ := List.forall₂_cons_right_iff.1 means
    rw [← calleeMeans.kind_eq]
    refine .notCallable rfl (count poppedMeans) fun params code captured same => ?_
    subst same
    obtain ⟨_, _, leads, stands⟩ := calleeMeans
    cases leads
    cases stands
    exact closure ⟨_, _, _, rfl⟩

end Simulates

end LetStack
