import Mathlib.Data.List.Forall2
import LetStack.Machine.Run
import LetStack.Proofs.Machine.Merging
import LetStack.Proofs.Unrelated.Mentions

/-!
When states differ only in what one name stands for, here or in any environment that a closure
captured, and in where on their heaps things lie.
-/

namespace LetStack

variable {hidden : String}

/-- Targets behind so many hops that nothing but the name tells apart. Bytes lie one hop away. A
closure is given by what the other names stand for on either side. -/
inductive Alike (hidden : String) : Nat → Value → Value → Prop
  | int (value : Int) : Alike hidden 0 (.int value) (.int value)
  | float (value : Float) : Alike hidden 0 (.float value) (.float value)
  | bool (value : Bool) : Alike hidden 0 (.bool value) (.bool value)
  | bytes (content : List UInt8) : Alike hidden 1 (.bytes content) (.bytes content)
  | closure {params : List String} {body : List Instr} {left right : Environment}
      (hops : String → Nat) (first second : String → Value) (apart : CodeApart hidden body)
      (leftReadable : left.Readable) (rightReadable : right.Readable)
      (names : ∀ name, name ≠ hidden → left.symbols.contains name = right.symbols.contains name)
      (leftBinds : ∀ name, name ≠ hidden → left.symbols.contains name = true →
        left.Binds name (hops name) (first name))
      (rightBinds : ∀ name, name ≠ hidden → left.symbols.contains name = true →
        right.Binds name (hops name) (second name))
      (alike : ∀ name, name ≠ hidden → left.symbols.contains name = true →
        Alike hidden (hops name) (first name) (second name)) :
      Alike hidden 0 (.closure params body left) (.closure params body right)

structure Environment.AlikeBut (hidden : String) (left right : Environment) : Prop where
  leftReadable : left.Readable
  rightReadable : right.Readable
  names : ∀ name, name ≠ hidden → left.symbols.contains name = right.symbols.contains name
  values : ∀ name hops target, name ≠ hidden → left.Binds name hops target →
    ∃ other, right.Binds name hops other ∧ Alike hidden hops target other

def AlikeIn (hidden : String) (left right : List Value) (value other : Value) : Prop :=
  ∃ hops target twin, Leads left value hops target ∧ Leads right other hops twin ∧
    Alike hidden hops target twin

structure State.AlikeBut (hidden : String) (left right : State) : Prop where
  stack : List.Forall₂ (AlikeIn hidden left.env.heap right.env.heap) left.stack right.stack
  env : left.env.AlikeBut hidden right.env

theorem Alike.closure_iff {hops : Nat} {params : List String} {body : List Instr}
    {left : Environment} {other : Value} :
    Alike hidden hops (.closure params body left) other ↔ hops = 0 ∧ CodeApart hidden body ∧
      ∃ right, other = .closure params body right ∧ left.AlikeBut hidden right := by
  constructor
  · intro alike
    cases alike with
    | closure hops first second apart leftReadable rightReadable names leftBinds rightBinds alike =>
        refine ⟨rfl, apart, _, rfl, leftReadable, rightReadable, names, ?_⟩
        intro name count target different binds
        have bound := binds.contains
        obtain ⟨rfl, rfl⟩ := binds.unique (leftBinds name different bound)
        exact ⟨second name, rightBinds name different bound, alike name different bound⟩
  · rintro ⟨rfl, apart, right, rfl, env⟩
    have chosen : ∀ name, ∃ (hops : Nat) (first second : Value), name ≠ hidden →
        left.symbols.contains name = true → left.Binds name hops first ∧
          right.Binds name hops second ∧ Alike hidden hops first second := by
      intro name
      by_cases known : name ≠ hidden ∧ left.symbols.contains name = true
      · obtain ⟨hops, first, binds⟩ := env.leftReadable name known.2
        obtain ⟨second, bindsToo, alike⟩ := env.values name hops first known.1 binds
        exact ⟨hops, first, second, fun _ _ => ⟨binds, bindsToo, alike⟩⟩
      · exact ⟨0, .bool false, .bool false, fun different bound =>
          absurd ⟨different, bound⟩ known⟩
    choose hops first second facts using chosen
    exact .closure hops first second apart env.leftReadable env.rightReadable env.names
      (fun name different bound => (facts name different bound).1)
      (fun name different bound => (facts name different bound).2.1)
      (fun name different bound => (facts name different bound).2.2)

namespace AlikeIn

variable {left right : List Value} {value other : Value}

theorem int (value : Int) : AlikeIn hidden left right (.int value) (.int value) :=
  ⟨0, _, _, .here nofun, .here nofun, .int value⟩

theorem float (value : Float) : AlikeIn hidden left right (.float value) (.float value) :=
  ⟨0, _, _, .here nofun, .here nofun, .float value⟩

theorem bool (value : Bool) : AlikeIn hidden left right (.bool value) (.bool value) :=
  ⟨0, _, _, .here nofun, .here nofun, .bool value⟩

theorem bytes {address place : Nat} {content : List UInt8}
    (found : left[address]? = some (.bytes content))
    (foundToo : right[place]? = some (.bytes content)) :
    AlikeIn hidden left right (.pointer address) (.pointer place) :=
  ⟨1, _, _, .hop found (.here nofun), .hop foundToo (.here nofun), .bytes content⟩

theorem closure {params : List String} {body : List Instr} {captured capturedToo : Environment}
    (apart : CodeApart hidden body) (env : captured.AlikeBut hidden capturedToo) :
    AlikeIn hidden left right (.closure params body captured)
      (.closure params body capturedToo) :=
  ⟨0, _, _, .here nofun, .here nofun, Alike.closure_iff.2 ⟨rfl, apart, _, rfl, env⟩⟩

theorem closure_inv {params : List String} {body : List Instr} {captured : Environment}
    (alike : AlikeIn hidden left right (.closure params body captured) other) :
    CodeApart hidden body ∧ ∃ capturedToo, other = .closure params body capturedToo ∧
      captured.AlikeBut hidden capturedToo := by
  obtain ⟨hops, target, twin, leads, leadsToo, alike⟩ := alike
  cases leads with
  | here _ =>
      obtain ⟨_, apart, capturedToo, rfl, env⟩ := Alike.closure_iff.1 alike
      cases leadsToo with
      | here _ => exact ⟨apart, capturedToo, rfl, env⟩

theorem closure_of_closure {params : List String} {body : List Instr} {captured : Environment}
    (alike : AlikeIn hidden left right value (.closure params body captured)) :
    ∃ env, value = .closure params body env := by
  obtain ⟨hops, target, twin, leads, leadsToo, alike⟩ := alike
  cases leadsToo with
  | here _ =>
      cases alike with
      | closure _ _ _ _ _ _ _ _ _ _ =>
          cases leads
          exact ⟨_, rfl⟩

theorem extend {leftLonger rightLonger : List Value} (alike : AlikeIn hidden left right value other)
    (grown : left <+: leftLonger) (grownToo : right <+: rightLonger) :
    AlikeIn hidden leftLonger rightLonger value other := by
  obtain ⟨hops, target, twin, leads, leadsToo, alike⟩ := alike
  exact ⟨hops, target, twin, leads.extend grown, leadsToo.extend grownToo, alike⟩

theorem kind_eq (alike : AlikeIn hidden left right value other) : value.kind = other.kind := by
  obtain ⟨hops, target, twin, leads, leadsToo, alike⟩ := alike
  cases alike <;> cases leads <;> cases leadsToo <;> rfl

end AlikeIn

theorem alikeIn_extend {left right leftLonger rightLonger stack others : List Value}
    (alike : List.Forall₂ (AlikeIn hidden left right) stack others) (grown : left <+: leftLonger)
    (grownToo : right <+: rightLonger) :
    List.Forall₂ (AlikeIn hidden leftLonger rightLonger) stack others :=
  alike.imp fun _ _ pair => pair.extend grown grownToo

namespace Environment

variable {left right : Environment} {value other : Value}

theorem alikeBut_empty : Environment.empty.AlikeBut hidden .empty where
  leftReadable := by
    intro name impossible
    cases impossible
  rightReadable := by
    intro name impossible
    cases impossible
  names := fun _ _ => rfl
  values := by
    rintro name hops target _ ⟨address, value, impossible, _⟩
    cases impossible

theorem AlikeBut.grow (alike : left.AlikeBut hidden right) {heap longer : List Value}
    (grown : left.heap <+: heap) (grownToo : right.heap <+: longer) :
    ({ left with heap := heap } : Environment).AlikeBut hidden { right with heap := longer } where
  leftReadable := alike.leftReadable.grow grown
  rightReadable := alike.rightReadable.grow grownToo
  names := alike.names
  values := by
    intro name hops target different binds
    obtain ⟨count, old, oldBinds⟩ := alike.leftReadable name binds.contains
    obtain ⟨rfl, rfl⟩ := binds.unique (oldBinds.keep grown rfl)
    obtain ⟨other, bindsToo, pair⟩ := alike.values name hops target different oldBinds
    exact ⟨other, bindsToo.keep grownToo rfl, pair⟩

theorem AlikeBut.bind (alike : left.AlikeBut hidden right)
    (pair : AlikeIn hidden left.heap right.heap value other) (name : String) :
    (left.bind name value).AlikeBut hidden (right.bind name other) := by
  obtain ⟨hops, target, twin, leads, leadsToo, pair⟩ := pair
  refine ⟨alike.leftReadable.bind leads name, alike.rightReadable.bind leadsToo name, ?_, ?_⟩
  · intro query different
    by_cases same : query = name
    · simp [Table.contains, Environment.bind, same]
    · rw [Table.contains, Table.contains, get?_bind_of_ne _ same, get?_bind_of_ne _ same]
      exact alike.names query different
  · intro query count found different binds
    by_cases same : query = name
    · subst same
      obtain ⟨rfl, rfl⟩ := binds.unique (binds_bind_self query leads)
      exact ⟨twin, binds_bind_self query leadsToo, pair⟩
    · have unchanged := left.get?_bind_of_ne value same
      have bound := binds.contains
      rw [Table.contains, unchanged] at bound
      obtain ⟨oldHops, old, oldBinds⟩ := alike.leftReadable query bound
      obtain ⟨rfl, rfl⟩ :=
        binds.unique (oldBinds.keep (left.heap_prefix_bind name value) unchanged)
      obtain ⟨twin, bindsToo, pair⟩ := alike.values query count found different oldBinds
      exact ⟨twin, bindsToo.keep (right.heap_prefix_bind name other)
        (right.get?_bind_of_ne other same), pair⟩

theorem AlikeBut.hide (alike : left.AlikeBut hidden right) {hops : Nat} {target : Value}
    (leads : Leads right.heap value hops target) :
    left.AlikeBut hidden (right.bind hidden value) where
  leftReadable := alike.leftReadable
  rightReadable := alike.rightReadable.bind leads hidden
  names := by
    intro name different
    rw [alike.names name different, Table.contains, Table.contains, get?_bind_of_ne _ different]
  values := by
    intro name count found different binds
    obtain ⟨twin, bindsToo, pair⟩ := alike.values name count found different binds
    exact ⟨twin, bindsToo.keep (right.heap_prefix_bind hidden value)
      (right.get?_bind_of_ne value different), pair⟩

theorem AlikeBut.absorb {params : List String}
    {caller callerToo callee calleeToo after afterToo : Environment}
    (callers : caller.AlikeBut hidden callerToo) (callees : callee.AlikeBut hidden calleeToo)
    (absorbed : caller.Absorbs params callee after)
    (absorbedToo : callerToo.Absorbs params calleeToo afterToo) :
    after.AlikeBut hidden afterToo where
  leftReadable := absorbed.readable callers.leftReadable callees.leftReadable
  rightReadable := absorbedToo.readable callers.rightReadable callees.rightReadable
  names := by
    intro name different
    have bound := callers.names name different
    rw [Bool.eq_iff_iff] at bound ⊢
    rw [absorbed.contains_iff, absorbedToo.contains_iff, bound]
  values := by
    intro name hops target different binds
    have bound := (absorbed.contains_iff name).1 binds.contains
    rcases absorbed.binds_cases callers.leftReadable callees.leftReadable bound with
      ⟨outside, count, old, oldBinds, still⟩ | ⟨notParam, count, new, newBinds, taken⟩
    · obtain ⟨rfl, rfl⟩ := binds.unique still
      obtain ⟨twin, bindsToo, pair⟩ := callers.values name hops target different oldBinds
      rw [callees.names name different] at outside
      exact ⟨twin, bindsToo.keep absorbedToo.heap (absorbedToo.kept name outside), pair⟩
    · obtain ⟨rfl, rfl⟩ := binds.unique taken
      obtain ⟨twin, bindsToo, pair⟩ := callees.values name hops target different newBinds
      rw [callers.names name different] at bound
      exact ⟨twin, absorbedToo.shared name hops twin bound notParam bindsToo, pair⟩

end Environment

end LetStack
