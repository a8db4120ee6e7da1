import LetStack.Source.Parse
import Mathlib.Data.List.Induction
import Mathlib.Data.Nat.Digits.Defs

/-!
How programs may be written. The grammar relates a tree to each list of tokens that writes it, and
a list of tokens is spelled by a text in which blanks stand between them, or none.
-/

namespace LetStack

def SymbolKind.word : SymbolKind → List Char
  | .variable => ['l', 'e', 't']
  | .constant => ['c', 'o', 'n', 's', 't']

namespace Token

def spelling : Token → List Char
  | keyword (.declare kind) => kind.word
  | keyword (.bool true) => ['t', 'r', 'u', 'e']
  | keyword (.bool false) => ['f', 'a', 'l', 's', 'e']
  | name word => word.toList
  | int digits => digits
  | float whole fraction => whole ++ '.' :: fraction
  | text content => '"' :: (content.toList ++ ['"'])
  | operator .add => ['+']
  | operator .sub => ['-']
  | operator .mul => ['*']
  | operator .div => ['/']
  | equals => ['=']
  | arrow => ['=', '>']
  | comma => [',']
  | semicolon => [';']
  | leftParen => ['(']
  | rightParen => [')']
  | leftBrace => ['\x7b']
  | rightBrace => ['\x7d']

def Lexical : Token → Prop
  | name word => isName word.toList = true
  | int digits => digits ≠ [] ∧ digits.all isDigit = true
  | float whole fraction => (whole ≠ [] ∧ whole.all isDigit = true) ∧
      fraction ≠ [] ∧ fraction.all isDigit = true
  | text content => '"' ∉ content.toList
  | _ => True

end Token

inductive Spells : List Token → List Char → Prop
  | blank {layout : List Char} : layout.all isLayout = true → Spells [] layout
  | token (layout : List Char) {chars : List Char} (token : Token) {tokens : List Token} :
      layout.all isLayout = true → token.Lexical → Spells tokens chars →
      Spells (token :: tokens) (layout ++ (token.spelling ++ chars))

inductive Phrase where
  | atom (expr : Expr)
  | product (expr : Expr)
  | sum (expr : Expr)
  | expr (expr : Expr)
  | args (args : List Expr)
  | statement (expr : Expr)
  | statements (statements : List Expr)
  | body (statements : List Expr)

def baseTen (digits : List Char) : Nat :=
  Nat.ofDigits 10 (digits.reverse.map fun digit => digit.toNat - '0'.toNat)

theorem digitsValue_eq_baseTen (digits : List Char) : digitsValue digits = baseTen digits := by
  induction digits using List.reverseRec with
  | nil => rfl
  | append_singleton digits last ih =>
      have step : digitsValue (digits ++ [last]) =
          digitsValue digits * 10 + (last.toNat - '0'.toNat) := by
        rw [digitsValue, List.foldl_append]
        rfl
      rw [step, ih, baseTen, baseTen, List.reverse_append, List.reverse_singleton,
        List.singleton_append, List.map_cons, Nat.ofDigits_cons]
      omega

def paramTokens (params : List String) : List Token := (params.map .name).intersperse .comma

inductive Writes : Phrase → List Token → Prop
  | int (digits : List Char) :
      Writes (.atom (.literal (.int (baseTen digits)))) [.int digits]
  | float (whole fraction : List Char) :
      Writes (.atom (.literal (.float (fixedFloat whole fraction)))) [.float whole fraction]
  | bool (value : Bool) : Writes (.atom (.literal (.bool value))) [.keyword (.bool value)]
  | text (content : String) : Writes (.atom (.literal (.text content))) [.text content]
  | identifier (name : String) : Writes (.atom (.identifier name)) [.name name]
  | callNothing (callee : String) :
      Writes (.atom (.call callee [])) [.name callee, .leftParen, .rightParen]
  | call (callee : String) {args : List Expr} {tokens : List Token} : Writes (.args args) tokens →
      Writes (.atom (.call callee args)) (.name callee :: .leftParen :: (tokens ++ [.rightParen]))
  | paren {expr : Expr} {tokens : List Token} : Writes (.expr expr) tokens →
      Writes (.atom expr) (.leftParen :: (tokens ++ [.rightParen]))
  | factor {expr : Expr} {tokens : List Token} : Writes (.atom expr) tokens →
      Writes (.product expr) tokens
  | product {operator : Operator} {left right : Expr} {first second : List Token} :
      operator.isFactor = true → Writes (.product left) first → Writes (.atom right) second →
      Writes (.product (.binary left operator right)) (first ++ .operator operator :: second)
  | term {expr : Expr} {tokens : List Token} : Writes (.product expr) tokens →
      Writes (.sum expr) tokens
  | sum {operator : Operator} {left right : Expr} {first second : List Token} :
      operator.isFactor = false → Writes (.sum left) first → Writes (.product right) second →
      Writes (.sum (.binary left operator right)) (first ++ .operator operator :: second)
  | value {expr : Expr} {tokens : List Token} : Writes (.sum expr) tokens →
      Writes (.expr expr) tokens
  | function (params : List String) {body : List Expr} {tokens : List Token} :
      Writes (.body body) tokens → Writes (.expr (.function params body))
        (.leftParen :: (paramTokens params ++ .rightParen :: .arrow :: tokens))
  | arg {expr : Expr} {tokens : List Token} : Writes (.expr expr) tokens →
      Writes (.args [expr]) tokens
  | args {expr : Expr} {rest : List Expr} {first second : List Token} :
      Writes (.expr expr) first → Writes (.args rest) second →
      Writes (.args (expr :: rest)) (first ++ .comma :: second)
  | declare (kind : SymbolKind) (name : String) {rhs : Expr} {tokens : List Token} :
      Writes (.expr rhs) tokens → Writes (.statement (.declare kind name rhs))
        (.keyword (.declare kind) :: .name name :: .equals :: tokens)
  | assign (name : String) {rhs : Expr} {tokens : List Token} : Writes (.expr rhs) tokens →
      Writes (.statement (.assign name rhs)) (.name name :: .equals :: tokens)
  | expression {expr : Expr} {tokens : List Token} : Writes (.expr expr) tokens →
      Writes (.statement expr) tokens
  | last {expr : Expr} {tokens : List Token} : Writes (.statement expr) tokens →
      Writes (.statements [expr]) tokens
  | trailing {expr : Expr} {tokens : List Token} : Writes (.statement expr) tokens →
      Writes (.statements [expr]) (tokens ++ [.semicolon])
  | statements {expr : Expr} {rest : List Expr} {first second : List Token} :
      Writes (.statement expr) first → Writes (.statements rest) second →
      Writes (.statements (expr :: rest)) (first ++ .semicolon :: second)
  | bare {expr : Expr} {tokens : List Token} : Writes (.expr expr) tokens →
      Writes (.body [expr]) tokens
  | block {body : List Expr} {tokens : List Token} : Writes (.statements body) tokens →
      Writes (.body body) (.leftBrace :: (tokens ++ [.rightBrace]))

def Literal.Printable : Literal → Prop
  | int value => 0 ≤ value ∧ value ≤ intMax
  | text content => '"' ∉ content.toList
  | _ => True

instance : DecidablePred Literal.Printable
  | .int value => inferInstanceAs (Decidable (0 ≤ value ∧ value ≤ intMax))
  | .float _ => isTrue trivial
  | .bool _ => isTrue trivial
  | .text content => inferInstanceAs (Decidable ('"' ∉ content.toList))

def Expr.isBinding : Expr → Bool
  | declare _ _ _ | assign _ _ => true
  | _ => false

/-- A word that would be taken for a keyword with a name behind it. -/
def OpensDeclaration (word : String) : Prop :=
  ∃ (kind : SymbolKind) (name : List Char), isName name = true ∧ word.toList = kind.word ++ name

theorem not_opensDeclaration {word : String}
    (other : word.toList.head? ≠ some 'l' ∧ word.toList.head? ≠ some 'c') :
    ¬ OpensDeclaration word := by
  rintro ⟨kind, name, _, shape⟩
  rw [shape] at other
  cases kind
  · exact other.1 rfl
  · exact other.2 rfl

/-- Bindings are statements, and no assignment reads as a declaration. -/
inductive Expr.Printable : Expr → Prop
  | literal {value : Literal} : value.Printable → Printable (.literal value)
  | identifier {name : String} : isName name.toList = true → Printable (.identifier name)
  | declare {name : String} {rhs : Expr} (kind : SymbolKind) : isName name.toList = true →
      Printable rhs → rhs.isBinding = false → Printable (.declare kind name rhs)
  | assign {name : String} {rhs : Expr} : isName name.toList = true → ¬ OpensDeclaration name →
      Printable rhs → rhs.isBinding = false → Printable (.assign name rhs)
  | binary {left right : Expr} (operator : Operator) : Printable left → left.isBinding = false →
      Printable right → right.isBinding = false → Printable (.binary left operator right)
  | function {params : List String} {body : List Expr} :
      (∀ param ∈ params, isName param.toList = true) → body ≠ [] →
      (∀ part ∈ body, Printable part) → Printable (.function params body)
  | call {callee : String} {args : List Expr} : isName callee.toList = true →
      (∀ arg ∈ args, Printable arg) → (∀ arg ∈ args, arg.isBinding = false) →
      Printable (.call callee args)

def Printable (program : List Expr) : Prop := program ≠ [] ∧ ∀ expr ∈ program, expr.Printable

end LetStack
