import LetStack.Code.Value
import LetStack.Schema.Tree

/-! Values, instructions and environments as data. -/

namespace LetStack

inductive ValueKind where
  | int
  | float
  | bool
  | pointer
  | bytes
  | closure
  deriving DecidableEq

namespace ValueKind

def name : ValueKind → String
  | int => "int"
  | float => "float"
  | bool => "bool"
  | pointer => "pointer"
  | bytes => "bytes"
  | closure => "closure"

def ofName? : String → Option ValueKind
  | "int" => some int
  | "float" => some float
  | "bool" => some bool
  | "pointer" => some pointer
  | "bytes" => some bytes
  | "closure" => some closure
  | _ => none

end ValueKind

inductive InstrKind where
  | pushLiteral
  | allocateBytes
  | arithmetic (operator : Operator)
  | lookup
  | store
  | makeClosure
  | call
  deriving DecidableEq

namespace InstrKind

def name : InstrKind → String
  | pushLiteral => "push_literal"
  | allocateBytes => "allocate_bytes"
  | arithmetic operator => operator.kind
  | lookup => "lookup"
  | store => "store"
  | makeClosure => "make_closure"
  | call => "call"

def ofName? : String → Option InstrKind
  | "push_literal" => some pushLiteral
  | "allocate_bytes" => some allocateBytes
  | "add" => some (arithmetic .add)
  | "sub" => some (arithmetic .sub)
  | "mul" => some (arithmetic .mul)
  | "div" => some (arithmetic .div)
  | "lookup" => some lookup
  | "store" => some store
  | "make_closure" => some makeClosure
  | "call" => some call
  | _ => none

end InstrKind

mutual

def Value.readFields (kind : ValueKind) (fields : List (String × Datum)) : Checked Value :=
  match kind with
  | .int => (Checked.ok .int).also
      (Datum.required fields "value" fun datum _ => datum.readInt)
  | .float => (Checked.ok .float).also
      (Datum.required fields "value" fun datum _ => datum.readFloat)
  | .bool => (Checked.ok .bool).also
      (Datum.required fields "value" fun datum _ => datum.readBool)
  | .pointer => (Checked.ok .pointer).also
      (Datum.required fields "address" fun datum _ => datum.readNat)
  | .bytes => (Checked.ok .bytes).also
      (Datum.required fields "data" fun datum _ => datum.readBytes)
  | .closure => (((Checked.ok .closure).also
      (Datum.optional fields "params" [] fun datum _ => datum.readTexts)).also
      (Datum.optional fields "body" [] fun datum _ =>
        datum.readList fun item _ => Instr.read item)).also
      (Datum.optional fields "env" .empty fun datum _ => Environment.read datum)
termination_by sizeOf fields

def Value.read (datum : Datum) : Checked Value :=
  match datum with
  | .object fields => (Datum.readTag ValueKind.ofName? fields).next fun kind =>
      (Value.readFields kind fields).under (.field kind.name)
  | _ => .refuse .notTagged
termination_by sizeOf datum

def Instr.readFields (kind : InstrKind) (fields : List (String × Datum)) : Checked Instr :=
  match kind with
  | .pushLiteral => (Checked.ok .pushLiteral).also
      (Datum.required fields "value" fun datum _ => Value.read datum)
  | .allocateBytes => (Checked.ok .allocateBytes).also
      (Datum.required fields "data" fun datum _ => datum.readBytes)
  | .arithmetic operator => .ok (.arithmetic operator)
  | .lookup => (Checked.ok .lookup).also
      (Datum.required fields "name" fun datum _ => datum.readText)
  | .store => (Checked.ok .store).also
      (Datum.required fields "name" fun datum _ => datum.readText)
  | .makeClosure => ((Checked.ok .makeClosure).also
      (Datum.optional fields "params" [] fun datum _ => datum.readTexts)).also
      (Datum.optional fields "body" [] fun datum _ =>
        datum.readList fun item _ => Instr.read item)
  | .call => (Checked.ok .call).also
      (Datum.optional fields "argc" 0 fun datum _ => datum.readNat)
termination_by sizeOf fields

def Instr.read (datum : Datum) : Checked Instr :=
  match datum with
  | .object fields => (Datum.readTag InstrKind.ofName? fields).next fun kind =>
      (Instr.readFields kind fields).under (.field kind.name)
  | _ => .refuse .notTagged
termination_by sizeOf datum

def Environment.read (datum : Datum) : Checked Environment :=
  match datum with
  | .object fields => ((Checked.ok Environment.mk).also
      (Datum.optional fields "heap" [] fun datum _ =>
        datum.readList fun item _ => Value.read item)).also
      (Datum.optional fields "symbols" .empty fun datum _ => datum.readTable Datum.readInt)
  | _ => .refuse .notObject
termination_by sizeOf datum

end

mutual

def Value.dump : Value → Datum
  | .int value => .object [("kind", .text "int"), ("value", .int value)]
  | .float value => .object [("kind", .text "float"), ("value", .float value)]
  | .bool value => .object [("kind", .text "bool"), ("value", .bool value)]
  | .pointer address => .object [("kind", .text "pointer"), ("address", .int address)]
  | .bytes content => .object [("kind", .text "bytes"), ("data", .bytes content)]
  | .closure params body env =>
    .object [("kind", .text "closure"), ("params", dumpTexts params),
      ("body", .list (Instr.dumpAll body)), ("env", env.dump)]

def Value.dumpAll : List Value → List Datum
  | [] => []
  | first :: rest => first.dump :: Value.dumpAll rest

def Instr.dump : Instr → Datum
  | .pushLiteral value => .object [("kind", .text "push_literal"), ("value", value.dump)]
  | .allocateBytes content => .object [("kind", .text "allocate_bytes"), ("data", .bytes content)]
  | .arithmetic operator => .object [("kind", .text operator.kind)]
  | .lookup name => .object [("kind", .text "lookup"), ("name", .text name)]
  | .store name => .object [("kind", .text "store"), ("name", .text name)]
  | .makeClosure params body =>
    .object [("kind", .text "make_closure"), ("params", dumpTexts params),
      ("body", .list (Instr.dumpAll body))]
  | .call argCount => .object [("kind", .text "call"), ("argc", .int argCount)]

def Instr.dumpAll : List Instr → List Datum
  | [] => []
  | first :: rest => first.dump :: Instr.dumpAll rest

def Environment.dump : Environment → Datum
  | ⟨heap, symbols⟩ =>
    .object [("heap", .list (Value.dumpAll heap)),
      ("symbols", .object (symbols.entries.map fun entry => (entry.1, .int entry.2)))]

end

end LetStack
