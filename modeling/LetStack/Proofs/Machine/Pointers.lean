import Mathlib.Data.List.Perm.Subperm
import LetStack.Machine.Relocate

/-!
Where pointers lead, and what a name stands for once they are followed. A relocated value leads in
its new heap through as many hops to the same target as the original did in its own.
-/

namespace LetStack

theorem getElem?_of_grown {heap longer : List Value} {index : Nat} {value : Value}
    (grown : heap <+: longer) (found : heap[index]? = some value) : longer[index]? = some value := by
  obtain ⟨bound, _⟩ := List.getElem?_eq_some_iff.1 found
  rw [List.prefix_iff_getElem?.1 grown index bound, ← List.getElem?_eq_getElem bound, found]

inductive Leads (heap : List Value) : Value → Nat → Value → Prop
  | here {value} : (∀ address, value ≠ .pointer address) → Leads heap value 0 value
  | hop {address entry hops target} : heap[address]? = some entry →
      Leads heap entry hops target → Leads heap (.pointer address) (hops + 1) target

namespace Leads

theorem unique {heap : List Value} {value target other : Value} {hops count : Nat}
    (leads : Leads heap value hops target) (also : Leads heap value count other) :
    hops = count ∧ target = other := by
  induction leads generalizing count with
  | here plain =>
      cases also with
      | here _ => exact ⟨rfl, rfl⟩
      | hop _ _ => exact absurd rfl (plain _)
  | hop found _ ih =>
      cases also with
      | here plain => exact absurd rfl (plain _)
      | hop foundToo rest =>
          rw [found] at foundToo
          cases foundToo
          obtain ⟨sameHops, sameTarget⟩ := ih rest
          exact ⟨congrArg (· + 1) sameHops, sameTarget⟩

theorem extend {heap longer : List Value} {value target : Value} {hops : Nat}
    (leads : Leads heap value hops target) (grown : heap <+: longer) :
    Leads longer value hops target := by
  induction leads with
  | here plain => exact .here plain
  | hop found _ ih => exact .hop (getElem?_of_grown grown found) ih

theorem exists_addresses {heap : List Value} {value target : Value} {hops : Nat}
    (leads : Leads heap value hops target) :
    ∃ addresses : List Nat, addresses.length = hops ∧ addresses.Nodup ∧
      ∀ address ∈ addresses, address < heap.length ∧
        ∃ remaining, remaining ≤ hops ∧ Leads heap (.pointer address) remaining target := by
  induction leads with
  | here _ => exact ⟨[], rfl, List.nodup_nil, by simp⟩
  | @hop address entry hops target found rest ih =>
      obtain ⟨addresses, count, distinct, inside⟩ := ih
      refine ⟨address :: addresses, by simp [count], ?_, ?_⟩
      · refine List.nodup_cons.2 ⟨fun member => ?_, distinct⟩
        -- The address determines how many hops remain, so it is not met again further on.
        obtain ⟨_, remaining, bound, leads⟩ := inside address member
        have same := (leads.unique (.hop found rest)).1
        omega
      · intro query member
        rcases List.mem_cons.1 member with rfl | later
        · exact ⟨(List.getElem?_eq_some_iff.1 found).1, hops + 1, by omega, .hop found rest⟩
        · obtain ⟨bound, remaining, fewer, leads⟩ := inside query later
          exact ⟨bound, remaining, by omega, leads⟩

theorem hops_le {heap : List Value} {value target : Value} {hops : Nat}
    (leads : Leads heap value hops target) : hops ≤ heap.length := by
  obtain ⟨addresses, count, distinct, inside⟩ := leads.exists_addresses
  have included : addresses ⊆ List.range heap.length := fun address member =>
    List.mem_range.2 (inside address member).1
  have bound := (List.subperm_of_subset distinct included).length_le
  rw [List.length_range] at bound
  omega

end Leads

theorem relocate_of_leads {source : List Value} {value target : Value} {hops : Nat}
    (leads : Leads source value hops target) : ∀ {limit : Nat} (heap : List Value),
    hops ≤ limit → ∃ copy added, relocate source limit value heap = .ok (copy, heap ++ added) ∧
      added.length = hops ∧ Leads (heap ++ added) copy hops target := by
  induction leads with
  | @here value plain =>
      intro limit heap _
      refine ⟨value, [], ?_, rfl, .here plain⟩
      cases value with
      | pointer address => exact absurd rfl (plain address)
      | _ => simp [relocate]
  | @hop address entry hops target found rest ih =>
      intro limit heap enough
      cases limit with
      | zero => omega
      | succ limit =>
          obtain ⟨copy, added, relocated, count, leads⟩ := ih heap (by omega : hops ≤ limit)
          refine ⟨.pointer (heap ++ added).length, added ++ [copy], ?_, by simp [count], ?_⟩
          · simp [relocate, found, relocated, bind, Except.bind]
          · rw [← List.append_assoc]
            exact .hop (by simp) (leads.extend (List.prefix_append _ _))

namespace Environment

theorem transfer_of_leads {env : Environment} {value target : Value} {hops : Nat}
    (leads : Leads env.heap value hops target) (onto : Environment) :
    ∃ copy heap, env.transfer value onto = .ok (copy, { onto with heap := heap }) ∧
      onto.heap <+: heap ∧ Leads heap copy hops target := by
  obtain ⟨copy, added, relocated, _, copied⟩ := relocate_of_leads leads onto.heap leads.hops_le
  refine ⟨copy, onto.heap ++ added, ?_, List.prefix_append _ _, copied⟩
  simp [transfer, relocated, Bind.bind, Except.bind]

def Binds (env : Environment) (name : String) (hops : Nat) (target : Value) : Prop :=
  ∃ (address : Nat) (value : Value), env.symbols.get? name = some (address : Int) ∧
    env.heap[address]? = some value ∧ Leads env.heap value hops target

def Readable (env : Environment) : Prop :=
  ∀ name, env.symbols.contains name = true → ∃ hops target, env.Binds name hops target

theorem load?_natCast (env : Environment) (address : Nat) :
    env.load? (address : Int) = env.heap[address]? := by
  simp [load?]

theorem Binds.contains {env : Environment} {name : String} {hops : Nat} {target : Value}
    (binds : env.Binds name hops target) : env.symbols.contains name = true := by
  obtain ⟨address, _, found, _⟩ := binds
  simp [Table.contains, found]

theorem Binds.unique {env : Environment} {name : String} {hops count : Nat} {target other : Value}
    (binds : env.Binds name hops target) (also : env.Binds name count other) :
    hops = count ∧ target = other := by
  obtain ⟨address, value, found, loaded, leads⟩ := binds
  obtain ⟨otherAddress, otherValue, foundToo, loadedToo, leadsToo⟩ := also
  rw [found, Option.some.injEq, Int.natCast_inj] at foundToo
  subst foundToo
  rw [loaded, Option.some.injEq] at loadedToo
  subst loadedToo
  exact leads.unique leadsToo

theorem Binds.keep {env after : Environment} {name : String} {hops : Nat} {target : Value}
    (binds : env.Binds name hops target) (grown : env.heap <+: after.heap)
    (same : after.symbols.get? name = env.symbols.get? name) : after.Binds name hops target := by
  obtain ⟨address, value, found, loaded, leads⟩ := binds
  exact ⟨address, value, same.trans found, getElem?_of_grown grown loaded, leads.extend grown⟩

theorem heap_prefix_bind (env : Environment) (name : String) (value : Value) :
    env.heap <+: (env.bind name value).heap := List.prefix_append _ _

theorem binds_bind_self {env : Environment} {value target : Value} {hops : Nat} (name : String)
    (leads : Leads env.heap value hops target) : (env.bind name value).Binds name hops target :=
  ⟨env.heap.length, value, by simp [bind], by simp [bind, allocate],
    leads.extend (env.heap_prefix_bind name value)⟩

theorem get?_bind_of_ne {env : Environment} {name query : String} (value : Value)
    (different : query ≠ name) :
    (env.bind name value).symbols.get? query = env.symbols.get? query := by
  simp [bind, different]

def bindAll : List String → List Value → Environment → Environment
  | name :: names, value :: values, env => bindAll names values (env.bind name value)
  | _, _, env => env

theorem heap_prefix_bindAll (names : List String) : ∀ (values : List Value) (env : Environment),
    env.heap <+: (env.bindAll names values).heap := by
  induction names with
  | nil => exact fun _ _ => List.prefix_rfl
  | cons name names ih =>
      intro values env
      cases values with
      | nil => exact List.prefix_rfl
      | cons value values => exact (env.heap_prefix_bind name value).trans (ih values _)

theorem get?_bindAll_of_not_mem {query : String} {names : List String} (absent : query ∉ names) :
    ∀ (values : List Value) (env : Environment),
      (env.bindAll names values).symbols.get? query = env.symbols.get? query := by
  induction names with
  | nil => exact fun _ _ => rfl
  | cons name names ih =>
      obtain ⟨different, further⟩ := List.ne_and_not_mem_of_not_mem_cons absent
      intro values env
      cases values with
      | nil => rfl
      | cons value values => exact (ih further values _).trans (env.get?_bind_of_ne value different)

/-- Of equal names only the last would keep its value. -/
theorem binds_bindAll {name : String} {value target : Value} {hops : Nat} {names : List String}
    (distinct : names.Nodup) : ∀ {index : Nat} {values : List Value} {env : Environment},
      names[index]? = some name → values[index]? = some value → Leads env.heap value hops target →
      (env.bindAll names values).Binds name hops target := by
  induction names with
  | nil =>
      intro index values env found
      simp at found
  | cons first names ih =>
      obtain ⟨absent, distinctRest⟩ := List.nodup_cons.1 distinct
      intro index values env found loaded leads
      cases values with
      | nil => simp at loaded
      | cons head values =>
          cases index with
          | zero =>
              rw [List.getElem?_cons_zero, Option.some.injEq] at found loaded
              subst found loaded
              exact (env.binds_bind_self first leads).keep (heap_prefix_bindAll names values _)
                (get?_bindAll_of_not_mem absent values _)
          | succ index =>
              rw [List.getElem?_cons_succ] at found loaded
              exact ih distinctRest found loaded (leads.extend (env.heap_prefix_bind first head))

theorem Readable.grow {env : Environment} (readable : env.Readable) {heap : List Value}
    (grown : env.heap <+: heap) : ({ env with heap := heap } : Environment).Readable := by
  intro name bound
  obtain ⟨hops, target, binds⟩ := readable name bound
  exact ⟨hops, target, binds.keep grown rfl⟩

theorem Readable.bind {env : Environment} (readable : env.Readable) {hops : Nat}
    {value target : Value} (leads : Leads env.heap value hops target) (name : String) :
    (env.bind name value).Readable := by
  intro query bound
  by_cases same : query = name
  · subst same
    exact ⟨hops, target, binds_bind_self query leads⟩
  · have unchanged := env.get?_bind_of_ne value same
    rw [Table.contains, unchanged] at bound
    obtain ⟨count, old, binds⟩ := readable query bound
    exact ⟨count, old, binds.keep (env.heap_prefix_bind name value) unchanged⟩

end Environment

end LetStack
