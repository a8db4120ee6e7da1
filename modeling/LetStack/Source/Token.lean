import LetStack.Decimal.Reading
import LetStack.Expr
import LetStack.Text.Word

/-! Source text as a list of tokens. -/

namespace LetStack

inductive Keyword where
  | declare (kind : SymbolKind)
  | bool (value : Bool)
  deriving DecidableEq

inductive Token where
  | keyword (word : Keyword)
  | name (text : String)
  | int (digits : List Char)
  | float (whole fraction : List Char)
  | text (content : String)
  | operator (symbol : Operator)
  | equals
  | arrow
  | comma
  | semicolon
  | leftParen
  | rightParen
  | leftBrace
  | rightBrace
  deriving DecidableEq

def isLetter (char : Char) : Bool := ('a' ≤ char && char ≤ 'z') || ('A' ≤ char && char ≤ 'Z')

def isNameChar (char : Char) : Bool := isLetter char || isDigit char || char = '_'

def isLayout (char : Char) : Bool :=
  char = ' ' || char = '\t' || char = '\r' || char = '\n' || char = '\x0c'

def Keyword.ofWord? (word : List Char) : Option Keyword :=
  if word = ['l', 'e', 't'] then some (declare .variable)
  else if word = ['c', 'o', 'n', 's', 't'] then some (declare .constant)
  else if word = ['t', 'r', 'u', 'e'] then some (bool true)
  else if word = ['f', 'a', 'l', 's', 'e'] then some (bool false)
  else none

def isWord : List Char → Bool
  | [] => false
  | first :: rest => isLetter first && rest.all isNameChar

def isName (word : List Char) : Bool := isWord word && (Keyword.ofWord? word).isNone

/-- A keyword has to end where the word ends, and a letter of any script would continue it. -/
def Token.ofWord (word rest : List Char) : Token :=
  match Keyword.ofWord? word with
  | some reserved =>
    if rest.head?.any isWordChar then .name (String.ofList word) else .keyword reserved
  | none => .name (String.ofList word)

def Token.ofSymbol? : List Char → Option (Token × List Char)
  | '=' :: '>' :: rest => some (.arrow, rest)
  | '=' :: rest => some (.equals, rest)
  | '+' :: rest => some (.operator .add, rest)
  | '-' :: rest => some (.operator .sub, rest)
  | '*' :: rest => some (.operator .mul, rest)
  | '/' :: rest => some (.operator .div, rest)
  | ',' :: rest => some (.comma, rest)
  | ';' :: rest => some (.semicolon, rest)
  | '(' :: rest => some (.leftParen, rest)
  | ')' :: rest => some (.rightParen, rest)
  | '\x7b' :: rest => some (.leftBrace, rest)
  | '\x7d' :: rest => some (.rightBrace, rest)
  | _ => none

def Token.ofNumber (whole : List Char) : List Char → Token × List Char
  | '.' :: digit :: rest =>
    if isDigit digit then
      (.float whole (digit :: rest.takeWhile isDigit), rest.dropWhile isDigit)
    else (.int whole, '.' :: digit :: rest)
  | rest => (.int whole, rest)

def isTextChar (char : Char) : Bool := char ≠ '"'

/-- The token at the head of a text, as long as it can be. -/
def Token.first? : List Char → Option (Token × List Char)
  | [] => none
  | char :: rest =>
    if isLetter char then
      let after := rest.dropWhile isNameChar
      some (ofWord (char :: rest.takeWhile isNameChar) after, after)
    else if isDigit char then
      some (ofNumber (char :: rest.takeWhile isDigit) (rest.dropWhile isDigit))
    else if char = '"' then
      match rest.dropWhile isTextChar with
      | [] => none
      | _ :: after => some (.text (String.ofList (rest.takeWhile isTextChar)), after)
    else ofSymbol? (char :: rest)

theorem length_dropWhile_le (drop : Char → Bool) (chars : List Char) :
    (chars.dropWhile drop).length ≤ chars.length :=
  (List.dropWhile_sublist drop).length_le

theorem Token.length_ofNumber_le (whole rest : List Char) :
    (ofNumber whole rest).2.length ≤ rest.length := by
  unfold ofNumber
  split
  · split
    · have shorter := length_dropWhile_le isDigit (by assumption)
      simp only [List.length_cons]
      omega
    · simp
  · simp

theorem Token.length_of_first? {chars after : List Char} {token : Token}
    (found : first? chars = some (token, after)) : after.length < chars.length := by
  cases chars with
  | nil => simp [first?] at found
  | cons char rest =>
      simp only [first?] at found
      split at found
      · cases found
        exact Nat.lt_succ_of_le (length_dropWhile_le isNameChar rest)
      · split at found
        · have shorter := length_ofNumber_le (char :: rest.takeWhile isDigit)
            (rest.dropWhile isDigit)
          rw [Option.some.inj found] at shorter
          exact Nat.lt_succ_of_le (Nat.le_trans shorter (length_dropWhile_le isDigit rest))
        · split at found
          · split at found
            · simp at found
            · rename_i next
              cases found
              have shorter := length_dropWhile_le isTextChar rest
              rw [next, List.length_cons] at shorter
              exact Nat.lt_succ_of_lt shorter
          · unfold ofSymbol? at found
            split at found
            all_goals cases found
            all_goals simp_all only [List.cons.injEq, List.length_cons]
            all_goals omega

structure Lexeme where
  token : Token
  onward : List Char
  deriving DecidableEq

def scan (chars : List Char) : List Lexeme × List Char :=
  let onward := chars.dropWhile isLayout
  match _found : Token.first? onward with
  | none => ([], onward)
  | some (token, after) =>
    let scanned := scan after
    (⟨token, onward⟩ :: scanned.1, scanned.2)
termination_by chars.length
decreasing_by
  exact Nat.lt_of_lt_of_le (Token.length_of_first? _found) (length_dropWhile_le isLayout chars)

end LetStack
