import LetStack.Schema.Code

/-! What a datum can be checked against. -/

namespace LetStack

inductive Model where
  | literal (kind : LiteralKind)
  | expr (kind : ExprKind)
  | value (kind : ValueKind)
  | instr (kind : InstrKind)
  | environment
  | operator
  | anyLiteral
  | anyExpr
  | anyValue
  | anyInstr
  deriving DecidableEq

def Model.validate : Model → Datum → Checked Datum
  | literal kind, datum =>
    (datum.readNamed kind.name (Literal.readFields kind)).next fun found => .ok found.dump
  | expr kind, datum =>
    (datum.readNamed kind.name (Expr.readFields kind)).next fun found => .ok found.dump
  | value kind, datum =>
    (datum.readNamed kind.name (Value.readFields kind)).next fun found => .ok found.dump
  | instr kind, datum =>
    (datum.readNamed kind.name (Instr.readFields kind)).next fun found => .ok found.dump
  | environment, datum => (Environment.read datum).next fun found => .ok found.dump
  | operator, datum => (Operator.read datum).next fun found => .ok (.text found.name)
  | anyLiteral, datum => (Literal.read datum).next fun found => .ok found.dump
  | anyExpr, datum => (Expr.read datum).next fun found => .ok found.dump
  | anyValue, datum => (Value.read datum).next fun found => .ok found.dump
  | anyInstr, datum => (Instr.read datum).next fun found => .ok found.dump

end LetStack
