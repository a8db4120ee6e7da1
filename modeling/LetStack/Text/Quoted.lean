import LetStack.Text.Printable

/-!
Text in quotes: what cannot be printed is written by an escape, so that the quoted text is one
line and tells every character.
-/

namespace LetStack

def hexDigits (width code : Nat) : List Char :=
  let digits := Nat.toDigits 16 code
  List.replicate (width - digits.length) '0' ++ digits

def escapeChar (mark char : Char) : List Char :=
  if char = mark ∨ char = '\\' then ['\\', char]
  else if char = '\n' then ['\\', 'n']
  else if char = '\r' then ['\\', 'r']
  else if char = '\t' then ['\\', 't']
  else if isPrintable char then [char]
  else if char.toNat < 0x100 then '\\' :: 'x' :: hexDigits 2 char.toNat
  else if char.toNat < 0x10000 then '\\' :: 'u' :: hexDigits 4 char.toNat
  else '\\' :: 'U' :: hexDigits 8 char.toNat

/-- Single quotes, unless the text holds some and no double quote. -/
def quoteMark (chars : List Char) : Char :=
  if '\'' ∈ chars ∧ '"' ∉ chars then '"' else '\''

def quoteChars (chars : List Char) : List Char :=
  let mark := quoteMark chars
  mark :: (chars.flatMap (escapeChar mark) ++ [mark])

def quoted (text : String) : String := String.ofList (quoteChars text.toList)

end LetStack
