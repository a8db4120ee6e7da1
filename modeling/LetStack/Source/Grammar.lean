import LetStack.Source.Token

/-! The grammar, read from tokens. Each reader gives what it read and the tokens after it. -/

namespace LetStack

/-- How far reading came: the number of tokens left, or half a token further where the first
half of an arrow was taken for an equals sign. -/
structure Stuck where
  left : Nat
  insideArrow : Bool
  deriving DecidableEq

def Stuck.farther (first second : Stuck) : Stuck :=
  if second.left < first.left ∨ (second.left = first.left ∧ second.insideArrow) then second
  else first

abbrev Reader (α : Type) := List Token → Except Stuck (α × List Token)

def stuckAt (tokens : List Token) : Except Stuck α := .error ⟨tokens.length, false⟩

def readToken (token : Token) : Reader Unit
  | [] => stuckAt []
  | first :: rest => if first = token then .ok ((), rest) else stuckAt (first :: rest)

def readEquals : Reader Unit
  | .equals :: rest => .ok ((), rest)
  | .arrow :: rest => .error ⟨rest.length + 1, true⟩
  | tokens => stuckAt tokens

def readName : Reader String
  | .name name :: rest => .ok (name, rest)
  | tokens => stuckAt tokens

def readMore (item : Reader α) : Nat → Reader (List α)
  | fuel + 1, .comma :: rest => do
    let (first, rest) ← item rest
    let (more, rest) ← readMore item fuel rest
    .ok (first :: more, rest)
  | _, tokens => .ok ([], tokens)

def readListed (item : Reader α) : Reader (List α)
  | .rightParen :: rest => .ok ([], rest)
  | tokens => do
    let (first, rest) ← item tokens
    let (more, rest) ← readMore item rest.length rest
    let (_, rest) ← readToken .rightParen rest
    .ok (first :: more, rest)

def readAtom (expr : Reader Expr) : Reader Expr
  | .int digits :: rest => .ok (.literal (.int (digitsValue digits)), rest)
  | .float whole fraction :: rest => .ok (.literal (.float (fixedFloat whole fraction)), rest)
  | .keyword (.bool value) :: rest => .ok (.literal (.bool value), rest)
  | .text content :: rest => .ok (.literal (.text content), rest)
  | .name name :: .leftParen :: rest => do
    let (args, rest) ← readListed expr rest
    .ok (.call name args, rest)
  | .name name :: rest => .ok (.identifier name, rest)
  | .leftParen :: rest => do
    let (inner, rest) ← expr rest
    let (_, rest) ← readToken .rightParen rest
    .ok (inner, rest)
  | tokens => stuckAt tokens

/-- Operators of one level group to the left. -/
def readChain (joins : Operator → Bool) (operand : Reader Expr) : Nat → Expr → Reader Expr
  | fuel + 1, left, .operator operator :: rest =>
    if joins operator then do
      let (right, rest) ← operand rest
      readChain joins operand fuel (.binary left operator right) rest
    else .ok (left, .operator operator :: rest)
  | _, left, tokens => .ok (left, tokens)

def Operator.isFactor : Operator → Bool
  | .mul | .div => true
  | .add | .sub => false

def readProduct (expr : Reader Expr) : Reader Expr := fun tokens => do
  let (first, rest) ← readAtom expr tokens
  readChain Operator.isFactor (readAtom expr) rest.length first rest

def readSum (expr : Reader Expr) : Reader Expr := fun tokens => do
  let (first, rest) ← readProduct expr tokens
  readChain (fun operator => !operator.isFactor) (readProduct expr) rest.length first rest

def splitDeclaration? (word : String) : Option (SymbolKind × String) :=
  match word.toList with
  | 'l' :: 'e' :: 't' :: rest =>
    if isName rest then some (.variable, String.ofList rest) else none
  | 'c' :: 'o' :: 'n' :: 's' :: 't' :: rest =>
    if isName rest then some (.constant, String.ofList rest) else none
  | _ => none

/-- Blanks may be left out after a keyword, and a declaration goes before an assignment. -/
def bindingOf (word : String) (rhs : Expr) : Expr :=
  match splitDeclaration? word with
  | some (kind, name) => .declare kind name rhs
  | none => .assign word rhs

def readStatement (expr : Reader Expr) : Reader Expr
  | .keyword (.declare kind) :: rest => do
    let (name, rest) ← readName rest
    let (_, rest) ← readEquals rest
    let (rhs, rest) ← expr rest
    .ok (.declare kind name rhs, rest)
  | .name word :: .equals :: rest => do
    let (rhs, rest) ← expr rest
    .ok (bindingOf word rhs, rest)
  | .name _ :: .arrow :: rest => .error ⟨rest.length + 1, true⟩
  | tokens => expr tokens

/-- Statements with a semicolon before each of them; one more semicolon may end the list. -/
def readStatements (expr : Reader Expr) (ends : List Token → Bool) : Nat → Reader (List Expr)
  | fuel + 1, .semicolon :: rest =>
    if ends rest then .ok ([], rest)
    else do
      let (first, rest) ← readStatement expr rest
      let (more, rest) ← readStatements expr ends fuel rest
      .ok (first :: more, rest)
  | _, tokens => .ok ([], tokens)

def readSequence (expr : Reader Expr) (ends : List Token → Bool) : Reader (List Expr) :=
  fun tokens => do
    let (first, rest) ← readStatement expr tokens
    let (more, rest) ← readStatements expr ends rest.length rest
    .ok (first :: more, rest)

def closesBlock : List Token → Bool
  | .rightBrace :: _ => true
  | _ => false

def readBody (expr : Reader Expr) : Reader (List Expr)
  | .leftBrace :: rest => do
    let (body, rest) ← readSequence expr closesBlock rest
    let (_, rest) ← readToken .rightBrace rest
    .ok (body, rest)
  | tokens => do
    let (body, rest) ← expr tokens
    .ok ([body], rest)

def readHeader : Reader (List String) := fun tokens => do
  let (_, rest) ← readToken .leftParen tokens
  let (params, rest) ← readListed readName rest
  let (_, rest) ← readToken .arrow rest
  .ok (params, rest)

def readExprWith (expr : Reader Expr) : Reader Expr := fun tokens =>
  match readHeader tokens with
  | .ok (params, rest) => do
    let (body, rest) ← readBody expr rest
    .ok (.function params body, rest)
  | .error headerStuck =>
    match readSum expr tokens with
    | .ok result => .ok result
    | .error sumStuck => .error (headerStuck.farther sumStuck)

def readExpr : Nat → Reader Expr
  | 0 => stuckAt
  | depth + 1 => readExprWith (readExpr depth)

/-- A whole program. Each level of nesting takes a token, so the number of tokens is depth
enough. -/
def readProgram (tokens : List Token) : Except Stuck (List Expr) := do
  let (program, rest) ← readSequence (readExpr (tokens.length + 1)) List.isEmpty tokens
  if rest = [] then .ok program else stuckAt rest

end LetStack
