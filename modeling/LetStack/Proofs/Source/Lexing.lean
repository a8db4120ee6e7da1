import LetStack.Proofs.Source.Writing

/-!
Single tokens. A token is found at the head of a text that begins with its spelling and does not
go on with it, and where a token is found it is spelled.
-/

namespace LetStack

theorem span_append {keep : Char → Bool} {word chars : List Char} (inside : word.all keep = true)
    (stops : ∀ char, chars.head? = some char → keep char = false) :
    (word ++ chars).takeWhile keep = word ∧ (word ++ chars).dropWhile keep = chars := by
  have kept := List.all_eq_true.1 inside
  rw [List.takeWhile_append_of_pos kept, List.dropWhile_append_of_pos kept]
  cases chars with
  | nil => simp
  | cons char rest =>
      have stop := stops char rfl
      simp [stop]

theorem isLetter_of_isDigit {char : Char} (digit : isDigit char = true) :
    isLetter char = false := by
  simp only [isDigit, Bool.and_eq_true, decide_eq_true_eq, Char.le_def,
    UInt32.le_iff_toNat_le] at digit
  simp only [isLetter, Bool.or_eq_false_iff, Bool.and_eq_false_iff, decide_eq_false_iff_not,
    Char.le_def, UInt32.le_iff_toNat_le]
  have bounds := digit
  have codes : ('0'.val.toNat = 48 ∧ '9'.val.toNat = 57) ∧ 'a'.val.toNat = 97 ∧ 'A'.val.toNat = 65 := by
    decide
  omega

namespace Token

def isWordlike : Token → Bool
  | keyword _ | name _ | int _ | float _ _ => true
  | _ => false

def Parts (char : Char) : Prop :=
  isNameChar char = false ∧ isWordChar char = false ∧ char ≠ '.' ∧ char ≠ '>'

def parting : List Char :=
  [' ', '\t', '\r', '\n', '\x0c', '"', '+', '-', '*', '/', '=', ',', ';', '(', ')', '\x7b', '\x7d']

theorem parts_of_mem {char : Char} (member : char ∈ parting) : Parts char := by
  have apart : parting.all (fun char =>
      !isNameChar char && !isWordChar char && char ≠ '.' && char ≠ '>') = true := by
    decide +kernel
  have parts := List.all_eq_true.1 apart char member
  simpa only [Parts, Bool.and_eq_true, Bool.not_eq_true', decide_eq_true_eq, and_assoc] using parts

theorem parts_of_isLayout {char : Char} (layout : isLayout char = true) : Parts char := by
  simp only [isLayout, Bool.or_eq_true, decide_eq_true_eq] at layout
  apply parts_of_mem
  rcases layout with (((rfl | rfl) | rfl) | rfl) | rfl <;> simp [parting]

theorem parts_of_spelling {token : Token} (apart : token.isWordlike = false) {char : Char}
    {chars : List Char} (first : (token.spelling ++ chars).head? = some char) : Parts char := by
  apply parts_of_mem
  revert apart first
  fun_cases spelling token <;> simp [isWordlike] <;> rintro rfl <;> simp [parting]

def StopsAt (token : Token) (chars : List Char) : Prop :=
  ∀ char, chars.head? = some char → char ≠ '>' ∧ (token.isWordlike = true → Parts char)

theorem first?_word {first : Char} {rest chars : List Char} (letter : isLetter first = true)
    (inside : rest.all isNameChar = true)
    (stops : ∀ char, chars.head? = some char → isNameChar char = false) :
    first? (first :: (rest ++ chars)) = some (ofWord (first :: rest) chars, chars) := by
  obtain ⟨taken, dropped⟩ := span_append inside stops
  simp only [first?, letter, if_true, taken, dropped]

theorem first?_digits {digits chars : List Char} (nonempty : digits ≠ [])
    (inside : digits.all isDigit = true)
    (stops : ∀ char, chars.head? = some char → isDigit char = false) :
    first? (digits ++ chars) = some (ofNumber digits chars) := by
  cases digits with
  | nil => exact absurd rfl nonempty
  | cons first rest =>
      rw [List.all_cons, Bool.and_eq_true] at inside
      obtain ⟨taken, dropped⟩ := span_append inside.2 stops
      simp only [List.cons_append, first?, isLetter_of_isDigit inside.1, inside.1, taken, dropped,
        Bool.false_eq_true, if_false, if_true]

theorem isDigit_of_isNameChar {char : Char} (other : isNameChar char = false) :
    isDigit char = false := by
  simp only [isNameChar, Bool.or_eq_false_iff] at other
  exact other.1.2

theorem ofWord_keyword {word chars : List Char} {reserved : Keyword}
    (known : Keyword.ofWord? word = some reserved)
    (stops : ∀ char, chars.head? = some char → isWordChar char = false) :
    ofWord word chars = keyword reserved := by
  have ended : chars.head?.any isWordChar = false := by
    cases chars with
    | nil => rfl
    | cons char rest => exact stops char rfl
  simp only [ofWord, known, ended, Bool.false_eq_true, if_false]

section

variable {chars : List Char} (parted : ∀ char, chars.head? = some char → Parts char)

include parted

theorem first?_keyword {first : Char} {rest : List Char} {word : Keyword}
    (known : Keyword.ofWord? (first :: rest) = some word) (letter : isLetter first = true)
    (inside : rest.all isNameChar = true) :
    first? (first :: (rest ++ chars)) = some (.keyword word, chars) := by
  rw [first?_word letter inside fun char first => (parted char first).1,
    ofWord_keyword known fun char first => (parted char first).2.1]

theorem first?_name {word : String} (named : isName word.toList = true) :
    first? (word.toList ++ chars) = some (.name word, chars) := by
  rw [isName, Bool.and_eq_true, Option.isNone_iff_eq_none] at named
  obtain ⟨isWord, free⟩ := named
  cases shape : word.toList with
  | nil => simp [shape, LetStack.isWord] at isWord
  | cons first rest =>
      rw [shape, LetStack.isWord, Bool.and_eq_true] at isWord
      have found := first?_word isWord.1 isWord.2 fun char first => (parted char first).1
      rw [List.cons_append, found, ← shape, ofWord, free, String.ofList_toList]

theorem first?_int {digits : List Char} (nonempty : digits ≠ [])
    (inside : digits.all isDigit = true) :
    first? (digits ++ chars) = some (.int digits, chars) := by
  rw [first?_digits nonempty inside fun char first => isDigit_of_isNameChar (parted char first).1]
  cases chars with
  | nil => rfl
  | cons char rest =>
      have noPoint : char ≠ '.' := (parted char rfl).2.2.1
      unfold ofNumber
      split
      · rename_i shape
        exact absurd (List.cons.inj shape).1 noPoint
      · rfl

theorem first?_float {whole fraction : List Char} (nonempty : whole ≠ [])
    (inside : whole.all isDigit = true) (some : fraction ≠ [])
    (fractionInside : fraction.all isDigit = true) :
    first? (whole ++ '.' :: fraction ++ chars) = Option.some (.float whole fraction, chars) := by
  cases fraction with
  | nil => exact absurd rfl some
  | cons digit rest =>
      rw [List.all_cons, Bool.and_eq_true] at fractionInside
      obtain ⟨taken, dropped⟩ := span_append fractionInside.2 fun char first =>
        isDigit_of_isNameChar (parted char first).1
      rw [List.append_assoc, first?_digits nonempty inside (by simp [isDigit])]
      simp only [List.cons_append, ofNumber, fractionInside.1, if_true, taken, dropped]

end

theorem first?_text {content : String} (closed : '"' ∉ content.toList) (chars : List Char) :
    first? ((text content).spelling ++ chars) = some (.text content, chars) := by
  have inside : content.toList.all isTextChar = true := by
    simp only [List.all_eq_true, isTextChar, ne_eq, decide_not, Bool.not_eq_true',
      decide_eq_false_iff_not]
    rintro char member rfl
    exact closed member
  have stops : ∀ char, ('"' :: chars).head? = some char → isTextChar char = false := by
    intro char first
    rw [← Option.some.inj first]
    rfl
  obtain ⟨taken, dropped⟩ := span_append inside stops
  have quote : isLetter '"' = false ∧ isDigit '"' = false := by decide
  simp only [spelling, List.cons_append, List.append_assoc, List.nil_append, first?, quote,
    Bool.false_eq_true, if_false, if_true, taken, dropped, String.ofList_toList]

theorem first?_equals {chars : List Char} (noArrow : ∀ char, chars.head? = some char → char ≠ '>') :
    first? ('=' :: chars) = some (.equals, chars) := by
  cases chars with
  | nil => rfl
  | cons char rest =>
      have different : char ≠ '>' := noArrow char rfl
      change ofSymbol? ('=' :: char :: rest) = _
      unfold ofSymbol?
      split <;> simp_all

theorem first?_spelling {token : Token} {chars : List Char} (lexical : token.Lexical)
    (stops : token.StopsAt chars) : first? (token.spelling ++ chars) = some (token, chars) := by
  have parted : token.isWordlike = true → ∀ char, chars.head? = some char → Parts char :=
    fun wordlike char first => (stops char first).2 wordlike
  cases token with
  | keyword word =>
      cases word with
      | declare kind => cases kind <;> exact first?_keyword (parted rfl) rfl rfl rfl
      | bool value => cases value <;> exact first?_keyword (parted rfl) rfl rfl rfl
  | name word => exact first?_name (parted rfl) lexical
  | int digits => exact first?_int (parted rfl) lexical.1 lexical.2
  | float whole fraction =>
      obtain ⟨⟨nonempty, inside⟩, some, fractionInside⟩ := lexical
      exact first?_float (parted rfl) nonempty inside some fractionInside
  | text content => exact first?_text lexical chars
  | operator symbol => cases symbol <;> rfl
  | equals => exact first?_equals fun char first => (stops char first).1
  | _ => rfl

theorem spelling_of_ofWord? {word : List Char} {reserved : Keyword}
    (known : Keyword.ofWord? word = some reserved) : (keyword reserved).spelling = word := by
  unfold Keyword.ofWord? at known
  split at known
  · rename_i same
    cases known
    exact same.symm
  · split at known
    · rename_i same
      cases known
      exact same.symm
    · split at known
      · rename_i same
        cases known
        exact same.symm
      · split at known
        · rename_i same
          cases known
          exact same.symm
        · cases known

/-- A character that ends a name, though it may continue a word. -/
def EndsName (chars : List Char) : Prop :=
  ∃ char rest, chars = char :: rest ∧ isWordChar char = true ∧ isNameChar char = false

theorem ofWord_spells {word after : List Char} (isWord : LetStack.isWord word = true)
    (ends : ∀ char, after.head? = some char → isNameChar char = false) :
    (ofWord word after).spelling = word ∧
      ((ofWord word after).Lexical ∨ EndsName after) := by
  cases known : Keyword.ofWord? word with
  | none =>
      have name : ofWord word after = .name (String.ofList word) := by simp only [ofWord, known]
      rw [name, spelling, Lexical, String.toList_ofList]
      exact ⟨rfl, Or.inl (by simp [isName, isWord, known])⟩
  | some reserved =>
      by_cases continued : after.head?.any isWordChar = true
      · have name : ofWord word after = .name (String.ofList word) := by
          simp only [ofWord, known, continued, if_true]
        rw [name, spelling, String.toList_ofList]
        refine ⟨rfl, Or.inr ?_⟩
        cases after with
        | nil => cases continued
        | cons char rest => exact ⟨char, rest, rfl, continued, ends char rfl⟩
      · have whole : ofWord word after = .keyword reserved := by
          simp only [ofWord, known, continued, Bool.false_eq_true, if_false]
        rw [whole]
        exact ⟨spelling_of_ofWord? known, Or.inl trivial⟩

theorem ofNumber_spells {whole rest : List Char} (nonempty : whole ≠ [])
    (inside : whole.all isDigit = true) :
    whole ++ rest = (ofNumber whole rest).1.spelling ++ (ofNumber whole rest).2 ∧
      (ofNumber whole rest).1.Lexical := by
  unfold ofNumber
  split
  · rename_i digit more
    split
    · rename_i isDigit
      refine ⟨?_, ⟨nonempty, inside⟩, by simp, ?_⟩
      · simp only [spelling, List.append_assoc, List.cons_append,
          List.takeWhile_append_dropWhile]
      · rw [List.all_cons, isDigit, Bool.true_and]
        exact List.all_takeWhile
    · exact ⟨rfl, nonempty, inside⟩
  · exact ⟨rfl, nonempty, inside⟩

theorem ofSymbol?_spells {chars after : List Char} {token : Token}
    (found : ofSymbol? chars = some (token, after)) :
    chars = token.spelling ++ after ∧ token.Lexical := by
  unfold ofSymbol? at found
  split at found <;> cases found <;> exact ⟨rfl, trivial⟩

theorem head_dropWhile {keep : Char → Bool} {chars : List Char} {char : Char}
    (first : (chars.dropWhile keep).head? = some char) : keep char = false := by
  have stopped := List.head?_dropWhile_not keep chars
  rw [first] at stopped
  exact stopped

/-- A token is spelled where it is found, unless it is a keyword that a letter of another script
continues. -/
theorem first?_spells {chars after : List Char} {token : Token}
    (found : first? chars = some (token, after)) :
    chars = token.spelling ++ after ∧ (token.Lexical ∨ EndsName after) := by
  cases chars with
  | nil => cases found
  | cons char rest =>
      simp only [first?] at found
      split at found
      · rename_i letter
        cases found
        have isWord : LetStack.isWord (char :: rest.takeWhile isNameChar) = true := by
          rw [LetStack.isWord, letter, Bool.true_and]
          exact List.all_takeWhile
        obtain ⟨spelled, lexical⟩ := ofWord_spells isWord fun char first => head_dropWhile first
        refine ⟨?_, lexical⟩
        rw [spelled, List.cons_append, List.takeWhile_append_dropWhile]
      · split at found
        · rename_i digit
          have inside : (char :: rest.takeWhile isDigit).all isDigit = true := by
            rw [List.all_cons, digit, Bool.true_and]
            exact List.all_takeWhile
          have spelled := @ofNumber_spells _ (rest.dropWhile isDigit) (List.cons_ne_nil _ _) inside
          rw [Option.some.inj found, List.cons_append, List.takeWhile_append_dropWhile] at spelled
          exact ⟨spelled.1, Or.inl spelled.2⟩
        · split at found
          · rename_i quote
            subst quote
            split at found
            · cases found
            · rename_i closing more shape
              cases found
              have ended : isTextChar closing = false :=
                head_dropWhile (by rw [shape, List.head?_cons])
              have same : closing = '"' := by simpa [isTextChar] using ended
              subst same
              refine ⟨?_, Or.inl ?_⟩
              · rw [spelling, String.toList_ofList, List.cons_append, List.append_assoc,
                  List.singleton_append, ← shape, List.takeWhile_append_dropWhile]
              · rw [Lexical, String.toList_ofList]
                intro member
                exact absurd (List.all_eq_true.1 List.all_takeWhile _ member) (by simp [isTextChar])
          · obtain ⟨spelled, lexical⟩ := ofSymbol?_spells found
            exact ⟨spelled, Or.inl lexical⟩

end Token

theorem isName_shape {word : List Char} (isName : LetStack.isName word = true) :
    ∃ first rest, word = first :: rest ∧ isLetter first = true ∧ rest.all isNameChar = true := by
  rw [LetStack.isName, Bool.and_eq_true] at isName
  cases word with
  | nil => simp [isWord] at isName
  | cons first rest =>
      rw [isWord, Bool.and_eq_true] at isName
      exact ⟨first, rest, rfl, isName.1⟩

theorem isNameChar_of_isLetter {char : Char} (letter : isLetter char = true) :
    isNameChar char = true := by
  simp [isNameChar, letter]

theorem isNameChar_of_isDigit {char : Char} (digit : isDigit char = true) :
    isNameChar char = true := by
  simp [isNameChar, digit]

theorem Token.Lexical.first {token : Token} (lexical : token.Lexical) : ∃ char rest,
    token.spelling = char :: rest ∧ isLayout char = false ∧ char ≠ '>' := by
  have named : ∀ {char : Char}, isNameChar char = true → isLayout char = false ∧ char ≠ '>' := by
    intro char named
    constructor
    · rw [← Bool.not_eq_true]
      intro layout
      rw [(Token.parts_of_isLayout layout).1] at named
      cases named
    · rintro rfl
      cases named
  cases token with
  | keyword word =>
      cases word with
      | declare kind => cases kind <;> exact ⟨_, _, rfl, by decide⟩
      | bool value => cases value <;> exact ⟨_, _, rfl, by decide⟩
  | name word =>
      obtain ⟨first, rest, shape, letter, _⟩ := isName_shape lexical
      exact ⟨first, rest, shape, named (isNameChar_of_isLetter letter)⟩
  | int digits =>
      obtain ⟨nonempty, inside⟩ := lexical
      cases digits with
      | nil => exact absurd rfl nonempty
      | cons digit rest =>
          exact ⟨digit, rest, rfl,
            named (isNameChar_of_isDigit (List.all_eq_true.1 inside _ List.mem_cons_self))⟩
  | float whole fraction =>
      obtain ⟨⟨nonempty, inside⟩, _⟩ := lexical
      cases whole with
      | nil => exact absurd rfl nonempty
      | cons digit rest =>
          exact ⟨digit, _, rfl,
            named (isNameChar_of_isDigit (List.all_eq_true.1 inside _ List.mem_cons_self))⟩
  | operator symbol => cases symbol <;> exact ⟨_, _, rfl, by decide⟩
  | _ => exact ⟨_, _, rfl, by decide⟩

theorem glued_lexical (kind : SymbolKind) {name : String} (isName : isName name.toList = true) :
    (Token.name (String.ofList (kind.word ++ name.toList))).Lexical := by
  obtain ⟨first, rest, shape, letter, inside⟩ := isName_shape isName
  have firstInside := isNameChar_of_isLetter letter
  rw [Token.Lexical, String.toList_ofList, shape]
  cases kind <;>
    simp [LetStack.isName, SymbolKind.word, isWord, Keyword.ofWord?, firstInside, inside] <;> decide

end LetStack
