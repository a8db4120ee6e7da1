import LetStack.Code.Compile
import LetStack.Proofs.Direct.Evaluate
import LetStack.Proofs.Machine.Merging

/-! When values of the machine stand for plain values, and environments for bindings. -/

namespace LetStack

/-- Text lies one hop away, as bytes. A closure stands for another if its code is compiled from the
other's body and its environment represents what the other captured. -/
inductive Stands : Nat → Value → Plain → Prop
  | int (value : Int) : Stands 0 (.int value) (.int value)
  | float (value : Float) : Stands 0 (.float value) (.float value)
  | bool (value : Bool) : Stands 0 (.bool value) (.bool value)
  | text (content : String) : Stands 1 (.bytes (encodeUtf8 content.toList)) (.text content)
  | closure {params : List String} {body : List Expr} {env : Environment}
      {captured : String → Option Plain} (hops : String → Nat) (target : String → Value)
      (unbound : ∀ name, captured name = none → env.symbols.get? name = none)
      (bound : ∀ name plain, captured name = some plain →
        env.Binds name (hops name) (target name))
      (means : ∀ name plain, captured name = some plain →
        Stands (hops name) (target name) plain) :
      Stands 0 (.closure params (params.map .store ++ Expr.compileAll body) env)
        (.closure params body captured)

abbrev Means : List Value → Value → Plain → Prop := ReadsAs Stands

structure Environment.Represents (env : Environment) (bindings : Bindings) : Prop where
  unbound : ∀ name, bindings name = none → env.symbols.get? name = none
  bound : ∀ name plain, bindings name = some plain →
    ∃ hops target, env.Binds name hops target ∧ Stands hops target plain

namespace Means

variable {heap : List Value}

theorem int (value : Int) : Means heap (.int value) (.int value) :=
  ⟨0, _, .here (by simp), .int value⟩

theorem float (value : Float) : Means heap (.float value) (.float value) :=
  ⟨0, _, .here (by simp), .float value⟩

theorem bool (value : Bool) : Means heap (.bool value) (.bool value) :=
  ⟨0, _, .here (by simp), .bool value⟩

theorem text {address : Nat} {content : String}
    (found : heap[address]? = some (.bytes (encodeUtf8 content.toList))) :
    Means heap (.pointer address) (.text content) :=
  ⟨1, _, .hop found (.here (by simp)), .text content⟩

theorem closure {params : List String} {body : List Expr} {env : Environment}
    {captured : Bindings} (represents : env.Represents captured) :
    Means heap (.closure params (params.map .store ++ Expr.compileAll body) env)
      (.closure params body captured) := by
  have chosen : ∀ name, ∃ (hops : Nat) (target : Value), ∀ plain, captured name = some plain →
      env.Binds name hops target ∧ Stands hops target plain := by
    intro name
    cases found : captured name with
    | none => exact ⟨0, .bool false, by simp⟩
    | some plain =>
        obtain ⟨hops, target, binds, stands⟩ := represents.bound name plain found
        exact ⟨hops, target, fun other same => by cases same; exact ⟨binds, stands⟩⟩
  choose hops target means using chosen
  exact ⟨0, _, .here (by simp), .closure hops target represents.unbound
    (fun name plain found => (means name plain found).1)
    (fun name plain found => (means name plain found).2)⟩

theorem closure_inv {value : Value} {params : List String} {body : List Expr}
    {captured : Bindings} (means : Means heap value (.closure params body captured)) :
    ∃ env, value = .closure params (params.map .store ++ Expr.compileAll body) env ∧
      env.Represents captured := by
  obtain ⟨hops, target, leads, stands⟩ := means
  cases stands with
  | closure hops target unbound bound stand =>
      cases leads
      exact ⟨_, rfl, unbound, fun name plain found =>
        ⟨_, _, bound name plain found, stand name plain found⟩⟩

theorem kind_eq {value : Value} {plain : Plain} (means : Means heap value plain) :
    value.kind = plain.kind := by
  obtain ⟨hops, target, leads, stands⟩ := means
  cases stands <;> cases leads <;> rfl

end Means

namespace Environment

theorem Represents.readable {env : Environment} {bindings : Bindings}
    (represents : env.Represents bindings) : env.Readable := by
  intro name bound
  cases found : bindings name with
  | none =>
      rw [Table.contains, represents.unbound name found] at bound
      simp at bound
  | some plain =>
      obtain ⟨hops, target, binds, _⟩ := represents.bound name plain found
      exact ⟨hops, target, binds⟩

theorem represents_empty : Environment.empty.Represents Bindings.none where
  unbound := fun _ _ => rfl
  bound := fun _ _ impossible => by simp [Bindings.none] at impossible

theorem Represents.grow {env : Environment} {bindings : Bindings}
    (represents : env.Represents bindings) {heap : List Value} (grown : env.heap <+: heap) :
    ({ env with heap := heap } : Environment).Represents bindings where
  unbound := represents.unbound
  bound := fun name plain found => by
    obtain ⟨hops, target, binds, stands⟩ := represents.bound name plain found
    exact ⟨hops, target, binds.keep grown rfl, stands⟩

theorem Represents.bind {env : Environment} {bindings : Bindings}
    (represents : env.Represents bindings) {value : Value} {plain : Plain}
    (means : Means env.heap value plain) (name : String) :
    (env.bind name value).Represents (bindings.set name plain) where
  unbound := fun query unbound => by
    by_cases same : query = name
    · simp [Bindings.set, same] at unbound
    · rw [get?_bind_of_ne value same]
      exact represents.unbound query (by simpa [Bindings.set, same] using unbound)
  bound := fun query other found => by
    by_cases same : query = name
    · subst query
      obtain ⟨hops, target, leads, stands⟩ := means
      simp only [Bindings.set, if_true, Option.some.injEq] at found
      exact ⟨hops, target, binds_bind_self name leads, found ▸ stands⟩
    · obtain ⟨hops, target, binds, stands⟩ :=
        represents.bound query other (by simpa [Bindings.set, same] using found)
      exact ⟨hops, target, binds.keep (env.heap_prefix_bind name value)
        (get?_bind_of_ne value same), stands⟩

theorem Represents.absorb {caller callee after : Environment} {bindings final : Bindings}
    {params : List String} (represents : caller.Represents bindings)
    (calleeRepresents : callee.Represents final) (absorbed : caller.Absorbs params callee after) :
    after.Represents (bindings.absorb params final) where
  unbound := fun name unbound => by
    have callerUnbound : bindings name = none := by simpa [Bindings.absorb] using unbound
    rw [← Table.contains_eq_false_iff, ← Bool.not_eq_true, absorbed.contains_iff,
      Bool.not_eq_true, Table.contains_eq_false_iff]
    exact represents.unbound name callerUnbound
  bound := fun name plain found => by
    obtain ⟨old, callerFound, same⟩ := Option.map_eq_some_iff.1 found
    obtain ⟨hops, target, binds, stands⟩ := represents.bound name old callerFound
    by_cases param : name ∈ params
    · rw [if_pos param] at same
      subst same
      exact ⟨hops, target, binds.keep absorbed.heap (absorbed.kept name (Or.inl param)), stands⟩
    · rw [if_neg param] at same
      cases calleeFound : final name with
      | none =>
          rw [calleeFound, Option.getD_none] at same
          subst same
          have missing := (Table.contains_eq_false_iff _ _).2
            (calleeRepresents.unbound name calleeFound)
          exact ⟨hops, target, binds.keep absorbed.heap (absorbed.kept name (Or.inr missing)),
            stands⟩
      | some value =>
          rw [calleeFound, Option.getD_some] at same
          subst same
          obtain ⟨count, other, calleeBinds, calleeStands⟩ :=
            calleeRepresents.bound name value calleeFound
          exact ⟨count, other, absorbed.shared name count other binds.contains param calleeBinds,
            calleeStands⟩

end Environment

end LetStack
