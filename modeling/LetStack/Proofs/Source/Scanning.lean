import Mathlib.Data.List.Chain
import Mathlib.Data.List.DropRight
import LetStack.Proofs.Source.Lexing

/-!
A text that spells tokens is scanned into those tokens, except that a declaring keyword with a name
right behind it makes one word; and a text that is scanned to its end spells its tokens.
-/

namespace LetStack

/-- The tokens of a text when a keyword that declares and a name right behind it are one word. -/
inductive Joined : List Token → List Token → Prop
  | nil : Joined [] []
  | same {tokens scanned : List Token} (token : Token) : Joined tokens scanned →
      Joined (token :: tokens) (token :: scanned)
  | glued {tokens scanned : List Token} {name : String} (kind : SymbolKind) :
      isName name.toList = true → Joined tokens scanned →
      Joined (.keyword (.declare kind) :: .name name :: tokens)
        (.name (String.ofList (kind.word ++ name.toList)) :: scanned)

/-- Two words or numbers stand side by side only where a name is declared. -/
def Token.Beside (first second : Token) : Prop :=
  first.isWordlike = true → second.isWordlike = true →
    ∃ kind name, first = .keyword (.declare kind) ∧ second = .name name

theorem scan_of_first? {layout chars after : List Char} {token : Token}
    (blank : layout.all isLayout = true) (found : Token.first? chars = some (token, after))
    (start : chars.dropWhile isLayout = chars) :
    scan (layout ++ chars) = (⟨token, chars⟩ :: (scan after).1, (scan after).2) := by
  have dropped : (layout ++ chars).dropWhile isLayout = chars := by
    rw [List.dropWhile_append_of_pos (List.all_eq_true.1 blank), start]
  rw [scan]
  split
  · rename_i missing
    rw [dropped, found] at missing
    cases missing
  · rename_i other onward again
    rw [dropped, found, Option.some.injEq, Prod.mk.injEq] at again
    obtain ⟨rfl, rfl⟩ := again
    rw [dropped]

theorem scan_of_none (layout chars : List Char) (blank : layout.all isLayout = true)
    (missing : Token.first? chars = none) (start : chars.dropWhile isLayout = chars) :
    scan (layout ++ chars) = ([], chars) := by
  have dropped : (layout ++ chars).dropWhile isLayout = chars := by
    rw [List.dropWhile_append_of_pos (List.all_eq_true.1 blank), start]
  rw [scan]
  split
  · rw [dropped]
  · rename_i other onward found
    rw [dropped, missing] at found
    cases found

theorem scan_spelling (layout : List Char) {chars : List Char} {token : Token}
    (blank : layout.all isLayout = true) (lexical : token.Lexical) (stops : token.StopsAt chars) :
    scan (layout ++ (token.spelling ++ chars)) =
      (⟨token, token.spelling ++ chars⟩ :: (scan chars).1, (scan chars).2) := by
  refine scan_of_first? blank (Token.first?_spelling lexical stops) ?_
  obtain ⟨char, rest, shape, start, _⟩ := lexical.first
  simp only [shape, List.cons_append, List.dropWhile_cons, start, Bool.false_eq_true, if_false]

theorem Token.stopsAt_blank (token : Token) {char : Char} {layout : List Char} (chars : List Char)
    (blank : (char :: layout).all isLayout = true) :
    token.StopsAt (char :: layout ++ chars) := by
  intro other first
  rw [List.cons_append, List.head?_cons, Option.some.injEq] at first
  have parts := Token.parts_of_isLayout (List.all_eq_true.1 blank char List.mem_cons_self)
  rw [← first]
  exact ⟨parts.2.2.2, fun _ => parts⟩

theorem Spells.stopsAt {token : Token} {tokens : List Token} {chars : List Char}
    (spells : Spells tokens chars) (apart : ∀ next, tokens.head? = some next →
      token.isWordlike = false ∨ next.isWordlike = false) : token.StopsAt chars := by
  cases spells with
  | blank blank =>
      cases chars with
      | nil => exact nofun
      | cons char layout =>
          have stops := token.stopsAt_blank [] blank
          rwa [List.append_nil] at stops
  | @token layout onward next _ blank lexical _ =>
      cases layout with
      | cons char layout => exact token.stopsAt_blank _ blank
      | nil =>
          intro char first
          rw [List.nil_append] at first
          obtain ⟨head, rest, shape, _, notArrow⟩ := lexical.first
          have same : head = char := by simpa [shape] using first
          refine ⟨same ▸ notArrow, fun wordlike => Token.parts_of_spelling ?_ first⟩
          exact (apart next rfl).resolve_left (by simp [wordlike])

theorem scan_spells {tokens : List Token} {chars : List Char} (spells : Spells tokens chars) :
    tokens.IsChain Token.Beside → (scan chars).2 = [] ∧
      Joined tokens ((scan chars).1.map Lexeme.token) := by
  induction spells with
  | @blank layout blank =>
      intro _
      have nothing := scan_of_none layout [] blank rfl rfl
      rw [List.append_nil] at nothing
      rw [nothing]
      exact ⟨rfl, .nil⟩
  | @token layout chars token tokens blank lexical rest ih =>
      intro chain
      obtain ⟨read, joined⟩ := ih chain.tail
      have separate : token.StopsAt chars →
          (scan (layout ++ (token.spelling ++ chars))).2 = [] ∧ Joined (token :: tokens)
            ((scan (layout ++ (token.spelling ++ chars))).1.map Lexeme.token) := by
        intro stops
        rw [scan_spelling layout blank lexical stops]
        exact ⟨read, joined.same token⟩
      cases rest with
      | blank spaced => exact separate ((Spells.blank spaced).stopsAt nofun)
      | @token layoutAfter onward next more blankAfter nextLexical further =>
          by_cases apart : token.isWordlike = false ∨ next.isWordlike = false
          · exact separate ((Spells.token layoutAfter next blankAfter nextLexical further).stopsAt
              fun other first => Option.some.inj first ▸ apart)
          · -- A declaring keyword and its name, with or without a blank between them.
            rw [not_or, Bool.not_eq_false, Bool.not_eq_false] at apart
            obtain ⟨kind, name, rfl, rfl⟩ :=
              (List.isChain_cons_cons.1 chain).1 apart.1 apart.2
            cases layoutAfter with
            | cons char layoutAfter => exact separate (Token.stopsAt_blank _ _ blankAfter)
            | nil =>
                have stops : (Token.name name).StopsAt onward := by
                  refine further.stopsAt fun after first => Or.inr ?_
                  rw [← Bool.not_eq_true]
                  intro wordlike
                  obtain ⟨_, _, impossible, _⟩ :=
                    (List.isChain_cons.1 chain.tail).1 after first rfl wordlike
                  cases impossible
                have isName : LetStack.isName name.toList = true := nextLexical
                have inner := scan_spelling [] rfl nextLexical stops
                rw [inner] at read joined
                have outer := scan_spelling layout blank (glued_lexical kind isName) stops
                have sameText : (Token.keyword (.declare kind)).spelling ++
                    ([] ++ ((Token.name name).spelling ++ onward)) =
                    (Token.name (String.ofList (kind.word ++ name.toList))).spelling ++ onward := by
                  simp only [Token.spelling, String.toList_ofList, List.nil_append,
                    List.append_assoc]
                rw [sameText, outer]
                cases joined with
                | same _ joined => exact ⟨read, .glued kind isName joined⟩

theorem scan_of_endsName {chars : List Char} (ends : Token.EndsName chars) :
    scan chars = ([], chars) := by
  obtain ⟨char, rest, rfl, word, notName⟩ := ends
  have unlike : ∀ {symbol : Char}, Token.Parts symbol → char ≠ symbol := by
    rintro symbol parts rfl
    rw [parts.2.1] at word
    cases word
  have notLetter : isLetter char = false := by
    simp only [isNameChar, Bool.or_eq_false_iff] at notName
    exact notName.1.1
  have notQuote : char ≠ '"' := unlike (Token.parts_of_mem (by simp [Token.parting]))
  have missing : Token.first? (char :: rest) = none := by
    simp only [Token.first?, notLetter, Token.isDigit_of_isNameChar notName, notQuote,
      Bool.false_eq_true, if_false]
    unfold Token.ofSymbol?
    split
    all_goals first
      | rfl
      | rename_i shape
        exact absurd (List.cons.inj shape).1
          (unlike (Token.parts_of_mem (by simp [Token.parting])))
  have start : (char :: rest).dropWhile isLayout = char :: rest := by
    rw [List.dropWhile_cons, if_neg]
    intro layout
    exact unlike (Token.parts_of_isLayout layout) rfl
  exact scan_of_none [] _ rfl missing start

theorem spells_scan (chars : List Char) (read : (scan chars).2 = []) :
    Spells ((scan chars).1.map Lexeme.token) chars := by
  induction chars using scan.induct with
  | case1 chars onward missing =>
      have start : onward.dropWhile isLayout = onward := List.dropWhile_idempotent _ _
      have scanned := scan_of_none _ _ (List.all_takeWhile (l := chars)) missing start
      rw [List.takeWhile_append_dropWhile] at scanned
      rw [scanned] at read ⊢
      have blank : chars.takeWhile isLayout ++ chars.dropWhile isLayout = chars :=
        List.takeWhile_append_dropWhile
      rw [show chars.dropWhile isLayout = [] from read, List.append_nil] at blank
      exact .blank (blank ▸ List.all_takeWhile)
  | case2 chars onward token after found ih =>
      have start : onward.dropWhile isLayout = onward := List.dropWhile_idempotent _ _
      have scanned := scan_of_first? (List.all_takeWhile (l := chars)) found start
      rw [List.takeWhile_append_dropWhile] at scanned
      obtain ⟨spelled, valid⟩ := Token.first?_spells found
      rw [scanned] at read ⊢
      rcases valid with lexical | ends
      · have spells := Spells.token _ token (List.all_takeWhile (l := chars)) lexical (ih read)
        rwa [← spelled, List.takeWhile_append_dropWhile] at spells
      · rw [scan_of_endsName ends] at read
        obtain ⟨_, _, rfl, _⟩ := ends
        cases read

theorem Spells.unjoin {tokens scanned : List Token} (joined : Joined tokens scanned) :
    ∀ {chars : List Char}, Spells scanned chars → Spells tokens chars := by
  induction joined with
  | nil => exact id
  | same token _ ih =>
      intro chars spells
      cases spells with
      | token layout token blank lexical rest => exact .token layout token blank lexical (ih rest)
  | @glued tokens scanned name kind isName _ ih =>
      intro chars spells
      cases spells with
      | @token layout onward _ _ blank lexical rest =>
          have apart := Spells.token layout (.keyword (.declare kind)) blank trivial
            (.token [] (.name name) rfl isName (ih rest))
          simpa only [Token.spelling, String.toList_ofList, List.nil_append,
            List.append_assoc] using apart

end LetStack
