import LetStack.Proofs.Schema.RoundTrip
import LetStack.Schema.Model

/-!
Full data of the models. Whatever a model accepts is full data of it at every depth, and full data of
trees, values and instructions are read back to what they were dumped from.
-/

namespace LetStack

/-- Data with every field that the model declares, the tag first, and with parts that are full data of
what they are declared to be. -/
inductive Datum.Conforms : Model → Datum → Prop
  | intLiteral {number : Int} : -2147483648 ≤ number → number ≤ 2147483647 →
      Conforms (.literal .int) (.object [("kind", .text "int"), ("value", .int number)])
  | floatLiteral (number : Float) :
      Conforms (.literal .float) (.object [("kind", .text "float"), ("value", .float number)])
  | boolLiteral (truth : Bool) :
      Conforms (.literal .bool) (.object [("kind", .text "bool"), ("value", .bool truth)])
  | textLiteral (content : String) :
      Conforms (.literal .text) (.object [("kind", .text "string"), ("value", .text content)])
  | anyLiteral {kind : LiteralKind} {datum : Datum} : Conforms (.literal kind) datum →
      Conforms .anyLiteral datum
  | literal {value : Datum} : Conforms .anyLiteral value →
      Conforms (.expr .literal) (.object [("kind", .text "literal"), ("value", value)])
  | identifier (name : String) :
      Conforms (.expr .identifier) (.object [("kind", .text "identifier"), ("name", .text name)])
  | assign (name : String) {rhs : Datum} : Conforms .anyExpr rhs →
      Conforms (.expr .assign)
        (.object [("kind", .text "assignment"), ("name", .text name), ("rhs", rhs)])
  | declareVariable (name : String) {rhs : Datum} : Conforms .anyExpr rhs →
      Conforms (.expr (.declare .variable))
        (.object [("kind", .text "let"), ("name", .text name), ("rhs", rhs)])
  | declareConstant (name : String) {rhs : Datum} : Conforms .anyExpr rhs →
      Conforms (.expr (.declare .constant))
        (.object [("kind", .text "const"), ("name", .text name), ("rhs", rhs)])
  | binary {left operator right : Datum} : Conforms .anyExpr left → Conforms .operator operator →
      Conforms .anyExpr right → Conforms (.expr .binary)
        (.object [("kind", .text "binary"), ("left", left), ("op", operator), ("right", right)])
  | function (params : List String) {body : List Datum} :
      (∀ part ∈ body, Conforms .anyExpr part) → Conforms (.expr .function)
        (.object [("kind", .text "function"), ("params", .list (params.map .text)),
          ("body", .list body)])
  | call (callee : String) {args : List Datum} : (∀ arg ∈ args, Conforms .anyExpr arg) →
      Conforms (.expr .call)
        (.object [("kind", .text "call"), ("callee", .text callee), ("args", .list args)])
  | anyExpr {kind : ExprKind} {datum : Datum} : Conforms (.expr kind) datum →
      Conforms .anyExpr datum
  | operator {name : String} : name ∈ ["ADD", "SUB", "MUL", "DIV"] →
      Conforms .operator (.text name)
  | int (number : Int) :
      Conforms (.value .int) (.object [("kind", .text "int"), ("value", .int number)])
  | float (number : Float) :
      Conforms (.value .float) (.object [("kind", .text "float"), ("value", .float number)])
  | bool (truth : Bool) :
      Conforms (.value .bool) (.object [("kind", .text "bool"), ("value", .bool truth)])
  | pointer {address : Int} : 0 ≤ address →
      Conforms (.value .pointer) (.object [("kind", .text "pointer"), ("address", .int address)])
  | bytes (content : List UInt8) :
      Conforms (.value .bytes) (.object [("kind", .text "bytes"), ("data", .bytes content)])
  | closure (params : List String) {body : List Datum} {env : Datum} :
      (∀ instr ∈ body, Conforms .anyInstr instr) → Conforms .environment env →
      Conforms (.value .closure)
        (.object [("kind", .text "closure"), ("params", .list (params.map .text)),
          ("body", .list body), ("env", env)])
  | anyValue {kind : ValueKind} {datum : Datum} : Conforms (.value kind) datum →
      Conforms .anyValue datum
  | environment {heap : List Datum} {symbols : List (String × Int)} :
      (∀ value ∈ heap, Conforms .anyValue value) → (symbols.map Prod.fst).Nodup →
      Conforms .environment (.object [("heap", .list heap),
        ("symbols", .object (symbols.map fun entry => (entry.1, .int entry.2)))])
  | pushLiteral {value : Datum} : Conforms .anyValue value →
      Conforms (.instr .pushLiteral) (.object [("kind", .text "push_literal"), ("value", value)])
  | allocateBytes (content : List UInt8) : Conforms (.instr .allocateBytes)
      (.object [("kind", .text "allocate_bytes"), ("data", .bytes content)])
  | add : Conforms (.instr (.arithmetic .add)) (.object [("kind", .text "add")])
  | sub : Conforms (.instr (.arithmetic .sub)) (.object [("kind", .text "sub")])
  | mul : Conforms (.instr (.arithmetic .mul)) (.object [("kind", .text "mul")])
  | div : Conforms (.instr (.arithmetic .div)) (.object [("kind", .text "div")])
  | lookup (name : String) :
      Conforms (.instr .lookup) (.object [("kind", .text "lookup"), ("name", .text name)])
  | store (name : String) :
      Conforms (.instr .store) (.object [("kind", .text "store"), ("name", .text name)])
  | makeClosure (params : List String) {body : List Datum} :
      (∀ instr ∈ body, Conforms .anyInstr instr) → Conforms (.instr .makeClosure)
        (.object [("kind", .text "make_closure"), ("params", .list (params.map .text)),
          ("body", .list body)])
  | callInstr {argCount : Int} : 0 ≤ argCount →
      Conforms (.instr .call) (.object [("kind", .text "call"), ("argc", .int argCount)])
  | anyInstr {kind : InstrKind} {datum : Datum} : Conforms (.instr kind) datum →
      Conforms .anyInstr datum

open Checked Datum

/-! The kind of what has been read is the kind that was asked for. -/

def LiteralKind.of : Literal → LiteralKind
  | .int _ => int
  | .float _ => float
  | .bool _ => bool
  | .text _ => text

def ExprKind.of : Expr → ExprKind
  | .literal _ => literal
  | .identifier _ => identifier
  | .assign _ _ => assign
  | .declare kind _ _ => declare kind
  | .binary _ _ _ => binary
  | .function _ _ => function
  | .call _ _ => call

def ValueKind.of : Value → ValueKind
  | .int _ => int
  | .float _ => float
  | .bool _ => bool
  | .pointer _ => pointer
  | .bytes _ => bytes
  | .closure _ _ _ => closure

def InstrKind.of : Instr → InstrKind
  | .pushLiteral _ => pushLiteral
  | .allocateBytes _ => allocateBytes
  | .arithmetic operator => arithmetic operator
  | .lookup _ => lookup
  | .store _ => store
  | .makeClosure _ _ => makeClosure
  | .call _ => call

section

variable {fields : List (String × Datum)}

theorem Literal.kind_of_readFields {kind : LiteralKind} {literal : Literal}
    (read : readFields kind fields = .ok literal) : .of literal = kind := by
  cases kind <;>
  · obtain ⟨make, value, same, _, rfl⟩ := also_eq_ok_iff.1 read
    cases same
    rfl

theorem Expr.kind_of_readFields {kind : ExprKind} {expr : Expr}
    (read : readFields kind fields = .ok expr) : .of expr = kind := by
  rw [readFields.eq_def] at read
  cases kind with
  | literal | identifier =>
      obtain ⟨make, value, same, _, rfl⟩ := also_eq_ok_iff.1 read
      cases same
      rfl
  | assign | declare | function | call =>
      obtain ⟨outer, last, made, _, rfl⟩ := also_eq_ok_iff.1 read
      obtain ⟨make, value, same, _, rfl⟩ := also_eq_ok_iff.1 made
      cases same
      rfl
  | binary =>
      obtain ⟨outer, last, made, _, rfl⟩ := also_eq_ok_iff.1 read
      obtain ⟨inner, middle, madeInner, _, rfl⟩ := also_eq_ok_iff.1 made
      obtain ⟨make, value, same, _, rfl⟩ := also_eq_ok_iff.1 madeInner
      cases same
      rfl

theorem Value.kind_of_readFields {kind : ValueKind} {value : Value}
    (read : readFields kind fields = .ok value) : .of value = kind := by
  rw [readFields.eq_def] at read
  cases kind with
  | closure =>
      obtain ⟨outer, last, made, _, rfl⟩ := also_eq_ok_iff.1 read
      obtain ⟨inner, middle, madeInner, _, rfl⟩ := also_eq_ok_iff.1 made
      obtain ⟨make, value, same, _, rfl⟩ := also_eq_ok_iff.1 madeInner
      cases same
      rfl
  | _ =>
      obtain ⟨make, value, same, _, rfl⟩ := also_eq_ok_iff.1 read
      cases same
      rfl

theorem Instr.kind_of_readFields {kind : InstrKind} {instr : Instr}
    (read : readFields kind fields = .ok instr) : .of instr = kind := by
  rw [readFields.eq_def] at read
  cases kind with
  | arithmetic operator =>
      cases read
      rfl
  | makeClosure =>
      obtain ⟨outer, last, made, _, rfl⟩ := also_eq_ok_iff.1 read
      obtain ⟨make, value, same, _, rfl⟩ := also_eq_ok_iff.1 made
      cases same
      rfl
  | _ =>
      obtain ⟨make, value, same, _, rfl⟩ := also_eq_ok_iff.1 read
      cases same
      rfl

end

/-! Dumps are full data. -/

theorem Literal.dump_conforms {literal : Literal}
    (fits : ∀ number, literal = .int number → -2147483648 ≤ number ∧ number ≤ 2147483647) :
    literal.dump.Conforms (.literal (.of literal)) := by
  cases literal with
  | int number => exact .intLiteral (fits number rfl).1 (fits number rfl).2
  | float number => exact .floatLiteral number
  | bool truth => exact .boolLiteral truth
  | text content => exact .textLiteral content

theorem Operator.name_conforms (operator : Operator) :
    (Datum.text operator.name).Conforms .operator := by
  cases operator <;> exact .operator (by decide)

namespace Expr

theorem dumpAll_conforms {exprs : List Expr}
    (parts : ∀ part ∈ exprs, part.dump.Conforms (.expr (.of part))) :
    ∀ datum ∈ dumpAll exprs, datum.Conforms .anyExpr := by
  induction exprs with
  | nil => exact nofun
  | cons first rest ih =>
      obtain ⟨head, tail⟩ := List.forall_mem_cons.1 parts
      exact List.forall_mem_cons.2 ⟨.anyExpr head, ih tail⟩

theorem dump_conforms (expr : Expr) :
    (∀ number, expr.HasLiteral (.int number) → -2147483648 ≤ number ∧ number ≤ 2147483647) →
      expr.dump.Conforms (.expr (.of expr)) := by
  induction expr using Expr.induction with
  | literal value =>
      intro fits
      exact .literal (.anyLiteral (Literal.dump_conforms fun number same =>
        fits number (same ▸ .here)))
  | identifier name => exact fun _ => .identifier name
  | assign name rhs ih =>
      intro fits
      exact .assign name (.anyExpr (ih fun number has => fits number (.assign has)))
  | declare kind name rhs ih =>
      intro fits
      have conforms := ih fun number has => fits number (.declare has)
      cases kind
      · exact .declareVariable name (.anyExpr conforms)
      · exact .declareConstant name (.anyExpr conforms)
  | binary left operator right ihLeft ihRight =>
      intro fits
      exact .binary (.anyExpr (ihLeft fun number has => fits number (.left has)))
        operator.name_conforms (.anyExpr (ihRight fun number has => fits number (.right has)))
  | function params body ih =>
      intro fits
      exact .function params (dumpAll_conforms fun part member =>
        ih part member fun number has => fits number (.body member has))
  | call callee args ih =>
      intro fits
      exact .call callee (dumpAll_conforms fun arg member =>
        ih arg member fun number has => fits number (.arg member has))

end Expr

mutual

theorem Value.dump_conforms : ∀ value : Value, value.dump.Conforms (.value (.of value))
  | .int number => .int number
  | .float number => .float number
  | .bool truth => .bool truth
  | .pointer address => .pointer (Int.natCast_nonneg address)
  | .bytes content => .bytes content
  | .closure params body env =>
      .closure params (Instr.dumpAll_conforms body) (Environment.dump_conforms env)

theorem Value.dumpAll_conforms : ∀ values : List Value,
    ∀ datum ∈ Value.dumpAll values, datum.Conforms .anyValue
  | [] => nofun
  | first :: rest => List.forall_mem_cons.2
      ⟨.anyValue (Value.dump_conforms first), Value.dumpAll_conforms rest⟩

theorem Instr.dump_conforms : ∀ instr : Instr, instr.dump.Conforms (.instr (.of instr))
  | .pushLiteral value => .pushLiteral (.anyValue (Value.dump_conforms value))
  | .allocateBytes content => .allocateBytes content
  | .arithmetic .add => .add
  | .arithmetic .sub => .sub
  | .arithmetic .mul => .mul
  | .arithmetic .div => .div
  | .lookup name => .lookup name
  | .store name => .store name
  | .makeClosure params body => .makeClosure params (Instr.dumpAll_conforms body)
  | .call argCount => .callInstr (Int.natCast_nonneg argCount)

theorem Instr.dumpAll_conforms : ∀ code : List Instr,
    ∀ datum ∈ Instr.dumpAll code, datum.Conforms .anyInstr
  | [] => nofun
  | first :: rest => List.forall_mem_cons.2
      ⟨.anyInstr (Instr.dump_conforms first), Instr.dumpAll_conforms rest⟩

theorem Environment.dump_conforms : ∀ env : Environment, env.dump.Conforms .environment
  | ⟨heap, symbols⟩ => .environment (Value.dumpAll_conforms heap) symbols.distinct

end

/-! What models accept -/

theorem Literal.conforms_of_readFields {kind : LiteralKind} {fields : List (String × Datum)}
    {literal : Literal} (read : Literal.readFields kind fields = .ok literal) :
    literal.dump.Conforms (.literal kind) := by
  obtain rfl := Literal.kind_of_readFields read
  apply Literal.dump_conforms
  rintro number rfl
  exact Literal.fits_of_readFields read

theorem Literal.conforms_of_read {datum : Datum} {literal : Literal}
    (found : Literal.read datum = .ok literal) : literal.dump.Conforms .anyLiteral := by
  obtain ⟨kind, fields, read⟩ := Literal.readFields_of_read found
  exact .anyLiteral (Literal.conforms_of_readFields read)

theorem read_of_next {α : Type} {checked : Checked α} {dump : α → Datum} {result : Datum}
    (accepted : checked.next (fun found => .ok (dump found)) = .ok result) :
    ∃ found, checked = .ok found ∧ dump found = result := by
  obtain ⟨found, read, same⟩ := next_eq_ok_iff.1 accepted
  exact ⟨found, read, Except.ok.inj same⟩

theorem Model.conforms_of_validate {model : Model} {datum result : Datum}
    (accepted : model.validate datum = .ok result) : result.Conforms model := by
  cases model with
  | literal kind =>
      obtain ⟨found, read, rfl⟩ := read_of_next accepted
      obtain ⟨fields, read⟩ := readNamed_ok read
      exact Literal.conforms_of_readFields read
  | expr kind =>
      obtain ⟨found, read, rfl⟩ := read_of_next accepted
      obtain ⟨fields, read⟩ := readNamed_ok read
      obtain rfl := Expr.kind_of_readFields read
      exact found.dump_conforms (Expr.fits_of_readFields read)
  | value kind =>
      obtain ⟨found, read, rfl⟩ := read_of_next accepted
      obtain ⟨fields, read⟩ := readNamed_ok read
      obtain rfl := Value.kind_of_readFields read
      exact found.dump_conforms
  | instr kind =>
      obtain ⟨found, read, rfl⟩ := read_of_next accepted
      obtain ⟨fields, read⟩ := readNamed_ok read
      obtain rfl := Instr.kind_of_readFields read
      exact found.dump_conforms
  | environment =>
      obtain ⟨found, _, rfl⟩ := read_of_next accepted
      exact found.dump_conforms
  | operator =>
      obtain ⟨found, _, rfl⟩ := read_of_next accepted
      exact found.name_conforms
  | anyLiteral =>
      obtain ⟨found, read, rfl⟩ := read_of_next accepted
      exact Literal.conforms_of_read read
  | anyExpr =>
      obtain ⟨found, read, rfl⟩ := read_of_next accepted
      exact .anyExpr (found.dump_conforms (Expr.fits_of_read read))
  | anyValue =>
      obtain ⟨found, _, rfl⟩ := read_of_next accepted
      exact .anyValue found.dump_conforms
  | anyInstr =>
      obtain ⟨found, _, rfl⟩ := read_of_next accepted
      exact .anyInstr found.dump_conforms

/-- Values and instructions are read back from their full data, and so are trees whose whole numbers
take 32 bits with their sign, while no others are trees to any reader. Whatever a model accepts
conforms to it. -/
theorem validation_undoes_dumping :
    (∀ expr : Expr, Expr.read expr.dump = .ok expr ↔ ∀ number, expr.HasLiteral (.int number) →
      -2147483648 ≤ number ∧ number ≤ 2147483647) ∧
    (∀ instr : Instr, Instr.read instr.dump = .ok instr) ∧
    (∀ value : Value, Value.read value.dump = .ok value) ∧
    ∀ (model : Model) (datum result : Datum), model.validate datum = .ok result →
      result.Conforms model :=
  ⟨fun expr => ⟨Expr.fits_of_read, expr.read_dump⟩, Instr.read_dump, Value.read_dump,
    fun _ _ _ => Model.conforms_of_validate⟩

def sparseCall : Datum := .object [("argc", .text " +02 "), ("kind", .text "call")]

def sparseClosure : Datum := .object [("body", .list [sparseCall]), ("kind", .text "closure")]

theorem validation_undoes_dumping_defaults :
    Model.anyValue.validate sparseClosure = .ok (Value.closure [] [.call 2] .empty).dump ∧
      (Value.closure [] [.call 2] .empty).dump.Conforms .anyValue := by
  have number : (Datum.text " +02 ").readNat = .ok 2 := rfl
  have call : Instr.read sparseCall = .ok (.call 2) := by
    refine Instr.read_of_readFields rfl ?_
    rw [Instr.readFields, optional_of_lookup rfl number, also_ok]
  have body : readItems [sparseCall] 0 (fun item _ => Instr.read item) = .ok [.call 2] :=
    readItems_cons call rfl
  have closure : Value.read sparseClosure = .ok (.closure [] [.call 2] .empty) := by
    refine Value.read_of_readFields rfl ?_
    rw [Value.readFields, optional_of_absent rfl, optional_of_lookup rfl body,
      optional_of_absent rfl, also_ok, also_ok, also_ok]
  have accepted : Model.anyValue.validate sparseClosure =
      .ok (Value.closure [] [.call 2] .empty).dump := by
    rw [Model.validate, closure, next_ok]
  exact ⟨accepted, validation_undoes_dumping.2.2.2 _ _ _ accepted⟩

end LetStack
