import LetStack.Proofs.Source.Places
import LetStack.Text.Blank

/-!
Texts joined by a semicolon are read as the statements of both, as a whole and as the block of a
function, if the first of them does not end in a semicolon of its own.
-/

namespace LetStack

def lastVisible? (source : String) : Option Char := (dropRightWhile isLayout source.toList).getLast?

theorem lastVisible?_append (front : List Char) {char : Char} {layout : List Char} {source : String}
    (shape : source.toList = front ++ char :: layout) (visible : isLayout char = false)
    (blank : layout.all isLayout = true) : lastVisible? source = some char := by
  have dropped : ∀ back ∈ layout.reverse, isLayout back = true :=
    fun back member => List.all_eq_true.1 blank back (List.mem_reverse.1 member)
  have backward : source.toList.reverse = layout.reverse ++ char :: front.reverse := by
    rw [shape, List.reverse_append, List.reverse_cons, List.append_assoc, List.singleton_append]
  rw [lastVisible?, dropRightWhile, backward, List.dropWhile_append_of_pos dropped,
    List.dropWhile_cons_of_neg (by simp [visible]), List.getLast?_reverse, List.head?_cons]

theorem lastVisible?_of_semicolon {tokens : List Token} {source : String}
    (spells : Spells (tokens ++ [.semicolon]) source.toList) : lastVisible? source = some ';' := by
  obtain ⟨left, right, shape, _, last⟩ := spells_append_iff.1 spells
  cases last with
  | token layout _ _ _ ended =>
      cases ended with
      | blank blank =>
          exact lastVisible?_append (left ++ layout) (by simp [← shape, Token.spelling]) rfl blank

theorem Writes.followed {first second : List Expr} {tokens others : List Token}
    (writes : Writes (.statements first) tokens)
    (unended : ∀ before, tokens ≠ before ++ [.semicolon])
    (later : Writes (.statements second) others) :
    Writes (.statements (first ++ second)) (tokens ++ .semicolon :: others) := by
  generalize same : Phrase.statements first = phrase at writes
  induction writes generalizing first with
  | last writes =>
      cases same
      exact .statements writes later
  | @trailing expr tokens writes => exact absurd rfl (unended tokens)
  | @statements expr rest tokens more writes _ _ ih =>
      cases same
      have further := ih
        (fun before shape => unended (tokens ++ .semicolon :: before) (by simp [shape])) rfl
      simpa only [List.append_assoc, List.cons_append] using Writes.statements writes further
  | _ => cases same

theorem exists_unended {program : List Expr} {source : String}
    (parsed : parse source = .ok program) (unended : lastVisible? source ≠ some ';') :
    ∃ tokens, Writes (.statements program) tokens ∧ Spells tokens source.toList ∧
      tokens.findSome? intError? = none ∧ Printable program ∧
      ∀ before, tokens ≠ before ++ [.semicolon] := by
  obtain ⟨tokens, writes, spells, fits, printable⟩ := parse_ok_iff.1 parsed
  refine ⟨tokens, writes, spells, fits, printable, ?_⟩
  rintro before rfl
  exact unended (lastVisible?_of_semicolon spells)

namespace Place

variable {fill : List Expr → List Expr} {opening closing : String}

theorem behind (place : Place .statements fill opening closing) {source : String}
    {program : List Expr} (parsed : LetStack.parse source = .ok program)
    (unended : lastVisible? source ≠ some ';') :
    Place .statements (fun more => fill (program ++ more)) (opening ++ (source ++ ";")) closing := by
  obtain ⟨tokens, writes, spells, fits, printable, apart⟩ := exists_unended parsed unended
  have text : Spells (tokens ++ [.semicolon]) (source ++ ";").toList := by
    rw [String.toList_append]
    exact spells_append_iff.2 ⟨_, _, rfl, spells, .token [] .semicolon rfl trivial (.blank rfl)⟩
  have later := place.inside .statements (program ++ ·)
    (fun writesToo => by simpa using writes.followed apart writesToo)
    (fun accepted => ⟨List.append_ne_nil_of_left_ne_nil printable.1 _,
      List.forall_mem_append.2 ⟨printable.2, accepted.2⟩⟩)
    text (.blank rfl : Spells [] "".toList) (intErrors_append.2 ⟨fits, rfl⟩) rfl
  rwa [String.empty_append] at later

theorem ahead (place : Place .statements fill opening closing) {source : String}
    {program : List Expr} (parsed : LetStack.parse source = .ok program) :
    Place .statement (fun part => fill (part :: program)) opening (";" ++ source ++ closing) := by
  obtain ⟨tokens, writes, spells, fits, printable⟩ := parse_ok_iff.1 parsed
  have text : Spells (.semicolon :: tokens) (";" ++ source).toList := by
    rw [String.toList_append]
    exact .token [] .semicolon rfl trivial spells
  have earlier := place.inside .statement (· :: program)
    (fun writesToo => by simpa using Writes.statements writesToo writes)
    (fun accepted => ⟨List.cons_ne_nil _ _, List.forall_mem_cons.2 ⟨accepted, printable.2⟩⟩)
    (.blank rfl : Spells [] "".toList) text rfl fits
  rwa [String.append_empty] at earlier

end Place

theorem spelledBy_joined {first second : String} {program others : List Expr}
    (parsed : parse first = .ok program) (unended : lastVisible? first ≠ some ';')
    (parsedToo : parse second = .ok others) :
    (Phrase.statements (program ++ others)).SpelledBy (first ++ ";" ++ second) := by
  have joined := (Place.whole.behind parsed unended).spelledBy (parse_ok_iff.1 parsedToo)
  rwa [String.empty_append, String.append_empty] at joined

/-- Two texts that are read are read one after the other if a semicolon stands between them, alone and
as a block wherever a function has one. -/
theorem semicolon_joins_programs {first second : String} {program others : List Expr}
    (parsed : parse first = .ok program) (unended : lastVisible? first ≠ some ';')
    (parsedToo : parse second = .ok others) :
    parse (first ++ ";" ++ second) = .ok (program ++ others) ∧
    ∀ {fill : List Expr → List Expr} {opening closing : String}, Place .body fill opening closing →
      parse (opening ++ "\x7b" ++ (first ++ ";" ++ second) ++ ("\x7d" ++ closing)) =
        .ok (fill (program ++ others)) := by
  have joined := spelledBy_joined parsed unended parsedToo
  exact ⟨parse_ok_iff.2 joined, fun place => place.block.parse joined⟩

def bindsText : List Expr := [.declare .variable "s" (.literal (.text ";\x7d"))]

theorem parse_bindsText : parse "let s = \";\x7d\"" = .ok bindsText := by
  have closed : '"' ∉ ";\x7d".toList := by decide
  refine parse_ok_iff.2 ⟨_, .last (.declare .variable "s" (.value (.term (.factor (.text ";\x7d"))))),
    ?_, rfl, List.cons_ne_nil _ _, List.forall_mem_singleton.2 (.declare _ rfl (.literal ?_) rfl)⟩
  · exact .token [] (.keyword (.declare .variable)) rfl trivial <| .token [' '] (.name "s") rfl rfl <|
      .token [' '] .equals rfl trivial <| .token [' '] (.text ";\x7d") rfl closed <| .blank rfl
  · exact closed

theorem parse_mentionsText : parse " s ; " = .ok [.identifier "s"] := by
  refine parse_ok_iff.2 ⟨_, .trailing (.expression (.value (.term (.factor (.identifier "s"))))),
    ?_, rfl, List.cons_ne_nil _ _, List.forall_mem_singleton.2 (.identifier rfl)⟩
  exact .token [' '] (.name "s") rfl rfl <| .token [' '] .semicolon rfl trivial <| .blank rfl

theorem semicolon_joins_programs_block :
    parse "let s = \";\x7d\"" = .ok bindsText ∧ lastVisible? "let s = \";\x7d\"" ≠ some ';' ∧
    parse " s ; " = .ok [.identifier "s"] ∧
    parse "(s)=> \x7blet s = \";\x7d\"; s ; \x7d" =
      .ok [.function ["s"] (bindsText ++ [.identifier "s"])] := by
  have unended : lastVisible? "let s = \";\x7d\"" ≠ some ';' := by decide
  refine ⟨parse_bindsText, unended, parse_mentionsText, ?_⟩
  have header : Spells (.leftParen :: (paramTokens ["s"] ++ [.rightParen, .arrow])) "(s)=> ".toList :=
    .token [] .leftParen rfl trivial <| .token [] (.name "s") rfl rfl <|
    .token [] .rightParen rfl trivial <| .token [] .arrow rfl trivial <| .blank rfl
  have place : Place .body (fun body => [.function ["s"] body]) ("" ++ "(s)=> ") "" :=
    Place.whole.only.expression.function header
  have joined := (semicolon_joins_programs parse_bindsText unended parse_mentionsText).2 place
  have text : "" ++ "(s)=> " ++ "\x7b" ++ ("let s = \";\x7d\"" ++ ";" ++ " s ; ") ++ ("\x7d" ++ "") =
      "(s)=> \x7blet s = \";\x7d\"; s ; \x7d" := rfl
  rw [← text]
  exact joined

end LetStack
