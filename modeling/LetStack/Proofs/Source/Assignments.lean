import LetStack.Proofs.Source.Semicolons

/-!
A name, an equals sign and an expression. The statement assigns to the name, except where the name is a
declaring keyword with another name right behind it: then it declares that one.
-/

namespace LetStack

theorem bindingOf_of_word (kind : SymbolKind) {word name : String} (tree : Expr)
    (named : isName name.toList = true) (shape : word.toList = kind.word ++ name.toList) :
    bindingOf word tree = .declare kind name tree := by
  have split := splitDeclaration?_word kind named
  rw [← shape, String.ofList_toList, String.ofList_toList] at split
  rw [bindingOf, split]

theorem bindingOf_eq_assign_iff {word : String} {tree : Expr} :
    bindingOf word tree = .assign word tree ↔ ¬ OpensDeclaration word := by
  constructor
  · rintro assigns ⟨kind, name, named, shape⟩
    have split := splitDeclaration?_word kind named
    rw [← shape, String.ofList_toList] at split
    rw [bindingOf, split] at assigns
    cases assigns
  · intro clear
    cases split : splitDeclaration? word with
    | none => rw [bindingOf, split]
    | some declared => exact absurd ⟨declared.1, _, opensDeclaration_of_split split⟩ clear

theorem Writes.expr_of_single {tree : Expr} {tokens : List Token}
    (writes : Writes (.statements [tree]) tokens) (plain : tree.isBinding = false)
    (unended : ∀ before, tokens ≠ before ++ [.semicolon]) : Writes (.expr tree) tokens := by
  cases writes with
  | last statement =>
      cases statement with
      | declare _ _ _ => cases plain
      | assign _ _ => cases plain
      | expression writes => exact writes
  | @trailing _ before _ => exact absurd rfl (unended before)
  | statements _ nothing => cases nothing

theorem spelledBy_expr {source : String} {tree : Expr} (parsed : parse source = .ok [tree])
    (plain : tree.isBinding = false) (unended : lastVisible? source ≠ some ';') :
    (Phrase.expr tree).SpelledBy source := by
  obtain ⟨tokens, writes, spells, fits, printable, apart⟩ := exists_unended parsed unended
  exact ⟨tokens, writes.expr_of_single plain apart, spells, fits,
    printable.2 tree (List.mem_singleton.2 rfl), plain⟩

/-- The scanner has the name as one word. What the grammar writes may be two. -/
theorem spelledBy_binding {name gap source : String} {tree : Expr}
    (named : isName name.toList = true) (blank : gap.toList.all isLayout = true)
    (spelled : (Phrase.expr tree).SpelledBy source) :
    (Phrase.statement (bindingOf name tree)).SpelledBy (name ++ gap ++ "=" ++ source) := by
  obtain ⟨tokens, writes, spells, fits, accepted⟩ := spelled
  obtain ⟨used, written, shape, joined, writesToo, acceptedToo⟩ := binding_accounts named
    ⟨tokens, tokens, (List.append_nil _).symm, Joined.refl _, writes, accepted⟩
  rw [List.append_nil] at shape
  have scanned : Spells used (name ++ gap ++ "=" ++ source).toList := by
    have spellsWord := Spells.token [] (.name name) rfl named
      (.token gap.toList .equals blank trivial spells)
    simpa [← shape, Token.spelling] using spellsWord
  refine ⟨written, writesToo, scanned.unjoin joined, ?_, acceptedToo⟩
  rw [← joined.intError?, ← shape]
  exact fits

theorem parse_name {gap name : String} (blank : gap.toList.all isLayout = true)
    (named : isName name.toList = true) : parse (gap ++ name) = .ok [.identifier name] := by
  refine parse_ok_iff.2 ⟨_, .last (.expression (.value (.term (.factor (.identifier name))))), ?_, rfl,
    List.cons_ne_nil _ _, List.forall_mem_singleton.2 (.identifier named)⟩
  rw [String.toList_append, ← List.append_nil name.toList]
  exact .token _ (.name name) blank named (.blank rfl)

/-- What a name, an equals sign and an expression are read as, wherever a statement may stand. It is an
assignment if and only if the name is no declaring keyword that another name continues. -/
theorem binding_assigns_iff {name gap source : String} {tree : Expr}
    (named : isName name.toList = true) (blank : gap.toList.all isLayout = true)
    (parsed : parse source = .ok [tree]) (plain : tree.isBinding = false)
    (unended : lastVisible? source ≠ some ';') :
    ∃ binding, parse (name ++ gap ++ "=" ++ source) = .ok [binding] ∧
      (∀ {fill : Expr → List Expr} {opening closing : String},
        Place .statement fill opening closing →
          parse (opening ++ (name ++ gap ++ "=" ++ source) ++ closing) = .ok (fill binding)) ∧
      (binding = .assign name tree ↔ ¬ OpensDeclaration name) ∧
      ∀ (kind : SymbolKind) (rest : String), isName rest.toList = true →
        name.toList = kind.word ++ rest.toList → binding = .declare kind rest tree := by
  have spelled := spelledBy_binding named blank (spelledBy_expr parsed plain unended)
  refine ⟨bindingOf name tree, ?_, fun place => place.parse spelled, bindingOf_eq_assign_iff,
    fun kind rest namedRest shape => bindingOf_of_word kind tree namedRest shape⟩
  have alone := Place.whole.only.parse spelled
  rwa [String.empty_append, String.append_empty] at alone

theorem binding_assigns_iff_amid :
    isName "let1".toList = true ∧ parse " x" = .ok [.identifier "x"] ∧
    parse "(x)=>\x7bx;let1 = x;x\x7d" = .ok [.function ["x"]
      [.identifier "x", .assign "let1" (.identifier "x"), .identifier "x"]] := by
  have header : Spells (.leftParen :: (paramTokens ["x"] ++ [.rightParen, .arrow])) "(x)=>".toList :=
    .token [] .leftParen rfl trivial <| .token [] (.name "x") rfl rfl <|
    .token [] .rightParen rfl trivial <| .token [] .arrow rfl trivial <| .blank rfl
  have mentioned : parse "x" = .ok [.identifier "x"] := @parse_name "" "x" rfl rfl
  have spaced : parse " x" = .ok [.identifier "x"] := @parse_name " " "x" rfl rfl
  have clear : ¬ OpensDeclaration "let1" := by
    rintro ⟨kind, name, named, shape⟩
    cases kind <;> cases shape
    cases named
  have block := (Place.whole.only.expression.function header).block
  have place := (block.behind mentioned (by decide)).ahead mentioned
  obtain ⟨binding, _, anywhere, assigns, _⟩ :=
    @binding_assigns_iff "let1" " " " x" _ rfl rfl spaced rfl (by decide)
  refine ⟨rfl, spaced, ?_⟩
  have read := anywhere place
  rw [assigns.2 clear] at read
  have text : "" ++ "(x)=>" ++ "\x7b" ++ ("x" ++ ";") ++ ("let1" ++ " " ++ "=" ++ " x") ++
      (";" ++ "x" ++ ("\x7d" ++ "")) = "(x)=>\x7bx;let1 = x;x\x7d" := rfl
  rw [← text]
  exact read

theorem letter_not_assigned :
    isName "letter".toList = true ∧ parse "letter" = .ok [.identifier "letter"] ∧
    parse " x" = .ok [.identifier "x"] ∧ lastVisible? " x" ≠ some ';' ∧
    parse "letter = x" = .ok [.declare .variable "ter" (.identifier "x")] ∧
    parse "letter = x" ≠ .ok [.assign "letter" (.identifier "x")] := by
  have spaced : parse " x" = .ok [.identifier "x"] := @parse_name " " "x" rfl rfl
  have unended : lastVisible? " x" ≠ some ';' := by decide
  have spelled := @spelledBy_binding "letter" " " " x" _ rfl rfl (spelledBy_expr spaced rfl unended)
  rw [@bindingOf_of_word .variable "letter" "ter" _ rfl rfl] at spelled
  have declares : parse "letter = x" = .ok [.declare .variable "ter" (.identifier "x")] := by
    have alone := Place.whole.only.parse spelled
    have text : "" ++ ("letter" ++ " " ++ "=" ++ " x") ++ "" = "letter = x" := rfl
    rwa [text] at alone
  refine ⟨rfl, @parse_name "" "letter" rfl rfl, spaced, unended, declares, ?_⟩
  rw [declares]
  exact nofun

end LetStack
