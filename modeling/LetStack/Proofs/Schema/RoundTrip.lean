import LetStack.Proofs.Schema.Reading
import LetStack.Schema.Code

/-! Full data are read back: trees, values, instructions and environments come out of their dumps. -/

namespace LetStack

namespace Table

variable {α : Type}

theorem entries_foldl_set (entries : List (String × α)) : ∀ table : Table α,
    ((table.entries ++ entries).map Prod.fst).Nodup →
      (entries.foldl (fun table entry => table.set entry.1 entry.2) table).entries =
        table.entries ++ entries := by
  induction entries with
  | nil => exact fun table _ => (List.append_nil _).symm
  | cons entry rest ih =>
      obtain ⟨name, value⟩ := entry
      intro table distinct
      have absent : name ∉ table.entries.map Prod.fst := by
        intro member
        rw [List.map_append, List.nodup_append] at distinct
        exact distinct.2.2 name member name List.mem_cons_self rfl
      have fresh : table.contains name = false :=
        (contains_eq_false_iff table name).2 ((lookup_eq_none_iff name table.entries).2 absent)
      have grown := entries_set_of_fresh table name value fresh
      rw [List.foldl_cons, ih (table.set name value), grown, List.append_assoc,
        List.singleton_append]
      rwa [grown, List.append_assoc, List.singleton_append]

theorem ofEntries_entries (table : Table α) : ofEntries table.entries = table :=
  eq_of_entries_eq (entries_foldl_set table.entries empty table.distinct)

end Table

open Checked

namespace Datum

variable {α : Type} {fields : List (String × Datum)} {name : String} {datum : Datum} {value : α}

theorem required_of_lookup {read : (datum : Datum) → sizeOf datum < sizeOf fields → Checked α}
    (found : Table.lookup name fields = some datum)
    (reads : read datum (sizeOf_lookup_lt found) = .ok value) :
    required fields name read = .ok value := by
  unfold required
  split
  · rename_i absent
    rw [found] at absent
    cases absent
  · rename_i other foundToo
    obtain rfl := Option.some.inj (found.symm.trans foundToo)
    exact under_eq_ok_iff.2 reads

theorem optional_of_lookup {fallback : α}
    {read : (datum : Datum) → sizeOf datum < sizeOf fields → Checked α}
    (found : Table.lookup name fields = some datum)
    (reads : read datum (sizeOf_lookup_lt found) = .ok value) :
    optional fields name fallback read = .ok value := by
  unfold optional
  split
  · rename_i absent
    rw [found] at absent
    cases absent
  · rename_i other foundToo
    obtain rfl := Option.some.inj (found.symm.trans foundToo)
    exact under_eq_ok_iff.2 reads

theorem optional_of_absent {fallback : α}
    {read : (datum : Datum) → sizeOf datum < sizeOf fields → Checked α}
    (absent : Table.lookup name fields = none) :
    optional fields name fallback read = .ok fallback := by
  unfold optional
  split
  · rfl
  · rename_i other found
    rw [absent] at found
    cases found

theorem readItems_cons {first : Datum} {rest : List Datum} {values : List α} {position : Nat}
    {read : Datum → Checked α} (reads : read first = .ok value)
    (readsRest : readItems rest (position + 1) (fun item _ => read item) = .ok values) :
    readItems (first :: rest) position (fun item _ => read item) = .ok (value :: values) := by
  rw [readItems, reads, readsRest]
  rfl

theorem readItems_texts (texts : List String) : ∀ position,
    readItems (texts.map .text) position (fun item _ => item.readText) = .ok texts := by
  induction texts with
  | nil => exact fun _ => rfl
  | cons text rest ih => exact fun position => readItems_cons rfl (ih (position + 1))

theorem readTexts_dumpTexts (texts : List String) : (dumpTexts texts).readTexts = .ok texts :=
  readItems_texts texts 0

theorem readEntries_ints (entries : List (String × Int)) :
    readEntries readInt (entries.map fun entry => (entry.1, .int entry.2)) = .ok entries := by
  induction entries with
  | nil => rfl
  | cons entry rest ih =>
      rw [List.map_cons, readEntries, ih]
      rfl

theorem readTable_ints (table : Table Int) :
    readTable readInt (.object (table.entries.map fun entry => (entry.1, .int entry.2))) =
      .ok table := by
  rw [readTable, readEntries_ints, next_ok, Table.ofEntries_entries]

theorem readNat_natCast (number : Nat) : (Datum.int number).readNat = .ok number := by
  have notBelow : ¬ (number : Int) < 0 := by omega
  simp only [readNat, readIntBetween, readInt, next_ok, Option.any_some, decide_eq_true_eq,
    notBelow, if_false, Option.any_none, Bool.false_eq_true, Int.toNat_natCast]

end Datum

/-! Trees -/

theorem Literal.read_dump {literal : Literal}
    (fits : ∀ number, literal = .int number → -2147483648 ≤ number ∧ number ≤ 2147483647) :
    Literal.read literal.dump = .ok literal := by
  cases literal with
  | int number =>
      obtain ⟨lower, upper⟩ := fits number rfl
      have reads : (Datum.int number).readIntBetween (some intMin) (some intMax) = .ok number := by
        have notBelow : ¬ number < intMin := Int.not_lt.2 lower
        have notAbove : ¬ intMax < number := Int.not_lt.2 upper
        simp only [Datum.readIntBetween, Datum.readInt, next_ok, Option.any_some,
          decide_eq_true_eq, notBelow, notAbove, if_false]
      have fields : Literal.readFields .int [("kind", .text "int"), ("value", .int number)] =
          .ok (.int number) := by
        rw [Literal.readFields, Datum.required_of_lookup rfl reads]
        rfl
      exact under_eq_ok_iff.2 fields
  | float number => rfl
  | bool truth => rfl
  | text content => rfl

namespace Expr

theorem read_of_readFields {kind : ExprKind} {fields : List (String × Datum)} {expr : Expr}
    (tagged : Datum.readTag ExprKind.ofName? fields = .ok kind)
    (read : Expr.readFields kind fields = .ok expr) : Expr.read (.object fields) = .ok expr := by
  rw [Expr.read, tagged, next_ok, read, under_ok]

theorem readItems_dumpAll (exprs : List Expr)
    (parts : ∀ part ∈ exprs, Expr.read part.dump = .ok part) : ∀ position,
    Datum.readItems (dumpAll exprs) position (fun item _ => Expr.read item) = .ok exprs := by
  induction exprs with
  | nil => exact fun _ => rfl
  | cons first rest ih =>
      obtain ⟨readFirst, readRest⟩ := List.forall_mem_cons.1 parts
      exact fun position => Datum.readItems_cons readFirst (ih readRest (position + 1))

theorem read_dump (expr : Expr) :
    (∀ number, expr.HasLiteral (.int number) → -2147483648 ≤ number ∧ number ≤ 2147483647) →
      Expr.read expr.dump = .ok expr := by
  induction expr using Expr.induction with
  | literal value =>
      intro fits
      have reads : Literal.read value.dump = .ok value :=
        Literal.read_dump fun number same => fits number (same ▸ .here)
      refine read_of_readFields rfl ?_
      rw [readFields, Datum.required_of_lookup rfl reads, also_ok]
  | identifier name =>
      intro _
      refine read_of_readFields rfl ?_
      rw [readFields, Datum.required_of_lookup rfl rfl, also_ok]
  | assign name rhs ih =>
      intro fits
      have reads := ih fun number has => fits number (.assign has)
      refine read_of_readFields rfl ?_
      rw [readFields, Datum.required_of_lookup rfl rfl, Datum.required_of_lookup rfl reads, also_ok,
        also_ok]
  | declare kind name rhs ih =>
      intro fits
      have reads := ih fun number has => fits number (.declare has)
      refine @read_of_readFields (.declare kind) _ _ (by cases kind <;> rfl) ?_
      rw [readFields, Datum.required_of_lookup rfl rfl, Datum.required_of_lookup rfl reads, also_ok,
        also_ok]
  | binary left operator right ihLeft ihRight =>
      intro fits
      have readsLeft := ihLeft fun number has => fits number (.left has)
      have readsRight := ihRight fun number has => fits number (.right has)
      have readsOperator : Operator.read (.text operator.name) = .ok operator := by
        cases operator <;> rfl
      refine read_of_readFields rfl ?_
      rw [readFields, Datum.required_of_lookup rfl readsLeft,
        Datum.required_of_lookup rfl readsOperator, Datum.required_of_lookup rfl readsRight,
        also_ok, also_ok, also_ok]
  | function params body ih =>
      intro fits
      have readsBody := readItems_dumpAll body (fun part member =>
        ih part member fun number has => fits number (.body member has)) 0
      refine read_of_readFields rfl ?_
      rw [readFields, Datum.optional_of_lookup rfl (Datum.readTexts_dumpTexts params),
        Datum.optional_of_lookup rfl readsBody, also_ok, also_ok]
  | call callee args ih =>
      intro fits
      have readsArgs := readItems_dumpAll args (fun part member =>
        ih part member fun number has => fits number (.arg member has)) 0
      refine read_of_readFields rfl ?_
      rw [readFields, Datum.required_of_lookup rfl rfl, Datum.optional_of_lookup rfl readsArgs,
        also_ok, also_ok]

end Expr

/-! Values, instructions and environments -/

theorem Value.read_of_readFields {kind : ValueKind} {fields : List (String × Datum)} {value : Value}
    (tagged : Datum.readTag ValueKind.ofName? fields = .ok kind)
    (read : Value.readFields kind fields = .ok value) :
    Value.read (.object fields) = .ok value := by
  rw [Value.read, tagged, next_ok, read, under_ok]

theorem Instr.read_of_readFields {kind : InstrKind} {fields : List (String × Datum)} {instr : Instr}
    (tagged : Datum.readTag InstrKind.ofName? fields = .ok kind)
    (read : Instr.readFields kind fields = .ok instr) :
    Instr.read (.object fields) = .ok instr := by
  rw [Instr.read, tagged, next_ok, read, under_ok]

mutual

theorem Value.read_dump : ∀ value : Value, Value.read value.dump = .ok value
  | .int number => by
      refine Value.read_of_readFields rfl ?_
      rw [Value.readFields, Datum.required_of_lookup rfl rfl, also_ok]
  | .float number => by
      refine Value.read_of_readFields rfl ?_
      rw [Value.readFields, Datum.required_of_lookup rfl rfl, also_ok]
  | .bool truth => by
      refine Value.read_of_readFields rfl ?_
      rw [Value.readFields, Datum.required_of_lookup rfl rfl, also_ok]
  | .pointer address => by
      refine Value.read_of_readFields rfl ?_
      rw [Value.readFields, Datum.required_of_lookup rfl (Datum.readNat_natCast address), also_ok]
  | .bytes content => by
      refine Value.read_of_readFields rfl ?_
      rw [Value.readFields, Datum.required_of_lookup rfl rfl, also_ok]
  | .closure params body env => by
      refine Value.read_of_readFields rfl ?_
      rw [Value.readFields, Datum.optional_of_lookup rfl (Datum.readTexts_dumpTexts params),
        Datum.optional_of_lookup rfl (Instr.readItems_dumpAll body 0),
        Datum.optional_of_lookup rfl (Environment.read_dump env), also_ok, also_ok, also_ok]

theorem Value.readItems_dumpAll : ∀ (values : List Value) (position : Nat),
    Datum.readItems (Value.dumpAll values) position (fun item _ => Value.read item) = .ok values
  | [], _ => rfl
  | first :: rest, position =>
      Datum.readItems_cons (Value.read_dump first) (Value.readItems_dumpAll rest (position + 1))

theorem Instr.read_dump : ∀ instr : Instr, Instr.read instr.dump = .ok instr
  | .pushLiteral value => by
      refine Instr.read_of_readFields rfl ?_
      rw [Instr.readFields, Datum.required_of_lookup rfl (Value.read_dump value), also_ok]
  | .allocateBytes content => by
      refine Instr.read_of_readFields rfl ?_
      rw [Instr.readFields, Datum.required_of_lookup rfl rfl, also_ok]
  | .arithmetic operator => by
      refine @Instr.read_of_readFields (.arithmetic operator) _ _ ?_ ?_
      · cases operator <;> rfl
      · rw [Instr.readFields]
  | .lookup name => by
      refine Instr.read_of_readFields rfl ?_
      rw [Instr.readFields, Datum.required_of_lookup rfl rfl, also_ok]
  | .store name => by
      refine Instr.read_of_readFields rfl ?_
      rw [Instr.readFields, Datum.required_of_lookup rfl rfl, also_ok]
  | .makeClosure params body => by
      refine Instr.read_of_readFields rfl ?_
      rw [Instr.readFields, Datum.optional_of_lookup rfl (Datum.readTexts_dumpTexts params),
        Datum.optional_of_lookup rfl (Instr.readItems_dumpAll body 0), also_ok, also_ok]
  | .call argCount => by
      refine Instr.read_of_readFields rfl ?_
      rw [Instr.readFields, Datum.optional_of_lookup rfl (Datum.readNat_natCast argCount), also_ok]

theorem Instr.readItems_dumpAll : ∀ (code : List Instr) (position : Nat),
    Datum.readItems (Instr.dumpAll code) position (fun item _ => Instr.read item) = .ok code
  | [], _ => rfl
  | first :: rest, position =>
      Datum.readItems_cons (Instr.read_dump first) (Instr.readItems_dumpAll rest (position + 1))

theorem Environment.read_dump : ∀ env : Environment, Environment.read env.dump = .ok env
  | ⟨heap, symbols⟩ => by
      rw [Environment.dump, Environment.read,
        Datum.optional_of_lookup rfl (Value.readItems_dumpAll heap 0),
        Datum.optional_of_lookup rfl (Datum.readTable_ints symbols), also_ok, also_ok]

end

end LetStack
