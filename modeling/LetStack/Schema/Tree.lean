import LetStack.Expr
import LetStack.Schema.Scalar

/-! Syntax trees as data. -/

namespace LetStack

inductive LiteralKind where
  | int
  | float
  | bool
  | text
  deriving DecidableEq

namespace LiteralKind

def name : LiteralKind → String
  | int => "int"
  | float => "float"
  | bool => "bool"
  | text => "string"

def ofName? : String → Option LiteralKind
  | "int" => some int
  | "float" => some float
  | "bool" => some bool
  | "string" => some text
  | _ => none

end LiteralKind

def Literal.readFields : LiteralKind → List (String × Datum) → Checked Literal
  | .int, fields => (Checked.ok .int).also
      (Datum.required fields "value" fun datum _ =>
        datum.readIntBetween (some intMin) (some intMax))
  | .float, fields => (Checked.ok .float).also
      (Datum.required fields "value" fun datum _ => datum.readFloat)
  | .bool, fields => (Checked.ok .bool).also
      (Datum.required fields "value" fun datum _ => datum.readBool)
  | .text, fields => (Checked.ok .text).also
      (Datum.required fields "value" fun datum _ => datum.readText)

def Literal.read : Datum → Checked Literal
  | .object fields => (Datum.readTag LiteralKind.ofName? fields).next fun kind =>
      (Literal.readFields kind fields).under (.field kind.name)
  | _ => .refuse .notTagged

def Literal.dump : Literal → Datum
  | int value => .object [("kind", .text "int"), ("value", .int value)]
  | float value => .object [("kind", .text "float"), ("value", .float value)]
  | bool value => .object [("kind", .text "bool"), ("value", .bool value)]
  | text value => .object [("kind", .text "string"), ("value", .text value)]

def Operator.name : Operator → String
  | add => "ADD"
  | sub => "SUB"
  | mul => "MUL"
  | div => "DIV"

def Operator.ofName? : String → Option Operator
  | "ADD" => some add
  | "SUB" => some sub
  | "MUL" => some mul
  | "DIV" => some div
  | _ => none

def Operator.read (datum : Datum) : Checked Operator :=
  match datum.text?.bind Operator.ofName? with
  | some operator => .ok operator
  | none => .refuse .unknownOperator

inductive ExprKind where
  | literal
  | identifier
  | assign
  | declare (kind : SymbolKind)
  | binary
  | function
  | call
  deriving DecidableEq

namespace ExprKind

def name : ExprKind → String
  | literal => "literal"
  | identifier => "identifier"
  | assign => "assignment"
  | declare .variable => "let"
  | declare .constant => "const"
  | binary => "binary"
  | function => "function"
  | call => "call"

def ofName? : String → Option ExprKind
  | "literal" => some literal
  | "identifier" => some identifier
  | "assignment" => some assign
  | "let" => some (declare .variable)
  | "const" => some (declare .constant)
  | "binary" => some binary
  | "function" => some function
  | "call" => some call
  | _ => none

end ExprKind

def Datum.readTexts (datum : Datum) : Checked (List String) :=
  datum.readList fun item _ => item.readText

mutual

def Expr.readFields (kind : ExprKind) (fields : List (String × Datum)) : Checked Expr :=
  match kind with
  | .literal => (Checked.ok .literal).also
      (Datum.required fields "value" fun datum _ => Literal.read datum)
  | .identifier => (Checked.ok .identifier).also
      (Datum.required fields "name" fun datum _ => datum.readText)
  | .assign => ((Checked.ok .assign).also
      (Datum.required fields "name" fun datum _ => datum.readText)).also
      (Datum.required fields "rhs" fun datum _ => Expr.read datum)
  | .declare kind => ((Checked.ok (.declare kind)).also
      (Datum.required fields "name" fun datum _ => datum.readText)).also
      (Datum.required fields "rhs" fun datum _ => Expr.read datum)
  | .binary => (((Checked.ok .binary).also
      (Datum.required fields "left" fun datum _ => Expr.read datum)).also
      (Datum.required fields "op" fun datum _ => Operator.read datum)).also
      (Datum.required fields "right" fun datum _ => Expr.read datum)
  | .function => ((Checked.ok .function).also
      (Datum.optional fields "params" [] fun datum _ => datum.readTexts)).also
      (Datum.optional fields "body" [] fun datum _ =>
        datum.readList fun item _ => Expr.read item)
  | .call => ((Checked.ok .call).also
      (Datum.required fields "callee" fun datum _ => datum.readText)).also
      (Datum.optional fields "args" [] fun datum _ =>
        datum.readList fun item _ => Expr.read item)
termination_by sizeOf fields

def Expr.read (datum : Datum) : Checked Expr :=
  match datum with
  | .object fields => (Datum.readTag ExprKind.ofName? fields).next fun kind =>
      (Expr.readFields kind fields).under (.field kind.name)
  | _ => .refuse .notTagged
termination_by sizeOf datum

end

def dumpTexts (texts : List String) : Datum := .list (texts.map .text)

mutual

def Expr.dump : Expr → Datum
  | .literal value => .object [("kind", .text "literal"), ("value", value.dump)]
  | .identifier name => .object [("kind", .text "identifier"), ("name", .text name)]
  | .assign name rhs =>
    .object [("kind", .text "assignment"), ("name", .text name), ("rhs", rhs.dump)]
  | .declare kind name rhs =>
    .object [("kind", .text (ExprKind.declare kind).name), ("name", .text name),
      ("rhs", rhs.dump)]
  | .binary left operator right =>
    .object [("kind", .text "binary"), ("left", left.dump), ("op", .text operator.name),
      ("right", right.dump)]
  | .function params body =>
    .object [("kind", .text "function"), ("params", dumpTexts params),
      ("body", .list (Expr.dumpAll body))]
  | .call callee args =>
    .object [("kind", .text "call"), ("callee", .text callee),
      ("args", .list (Expr.dumpAll args))]

def Expr.dumpAll : List Expr → List Datum
  | [] => []
  | first :: rest => first.dump :: Expr.dumpAll rest

end

end LetStack
