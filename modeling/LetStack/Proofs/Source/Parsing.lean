import LetStack.Proofs.Source.Reading

/-!
Parsing undoes writing: whatever text spells a writing of a program parses to that program, if it is
printable. Only the size of a whole number can stand in the way.
-/

namespace LetStack

theorem readProgram_of_writes {program : List Expr} {tokens scanned : List Token}
    (writes : Writes (.statements program) tokens) (joined : Joined tokens scanned) :
    ∃ result, readProgram scanned = .ok result ∧ (Printable program → result = program) := by
  obtain ⟨result, read, same⟩ :=
    (writes.read joined (scanned.length + 1) List.isEmpty [] (Nat.lt_succ_self _)
      endsAt_end).sequence
  rw [List.append_nil] at read
  refine ⟨result, ?_, fun printable => same printable.2⟩
  simp only [readProgram, read, if_true, bind, Except.bind]

/-- Whole numbers are looked at once all of the text has been read. -/
theorem parse_of_writes {program : List Expr} {tokens : List Token} {source : String}
    (writes : Writes (.statements program) tokens) (spells : Spells tokens source.toList) :
    ∃ result, (Printable program → result = program) ∧
      parse source = (tokens.findSome? intError?).elim (.ok result) .error := by
  obtain ⟨read, joined⟩ := scan_spells spells writes.isChain
  obtain ⟨result, accepted, same⟩ := readProgram_of_writes writes joined
  refine ⟨result, same, ?_⟩
  simp only [parse, accepted, read, if_true, joined.intError?]
  cases tokens.findSome? intError? <;> rfl

theorem parse_of_fitting {program : List Expr} {tokens : List Token} {source : String}
    (printable : Printable program) (writes : Writes (.statements program) tokens)
    (spells : Spells tokens source.toList) (fits : tokens.findSome? intError? = none) :
    parse source = .ok program := by
  obtain ⟨result, same, parsed⟩ := parse_of_writes writes spells
  rw [parsed, fits, same printable, Option.elim_none]

def Phrase.Printable : Phrase → Prop
  | .atom tree | .product tree | .sum tree | .expr tree | .statement tree => tree.Printable
  | .args trees | .statements trees | .body trees => ∀ tree ∈ trees, tree.Printable

theorem int_not_mem_paramTokens (params : List String) (digits : List Char) :
    .int digits ∉ paramTokens params := by
  cases params with
  | nil => exact List.not_mem_nil
  | cons first params => simp [paramTokens_cons, moreParams]

theorem int_mem_around {digits : List Char} {first second : List Token} {between : Token}
    (apart : between.isWordlike = false) (member : .int digits ∈ first ++ between :: second) :
    .int digits ∈ first ∨ .int digits ∈ second := by
  rcases List.mem_append.1 member with left | right
  · exact Or.inl left
  · rcases List.mem_cons.1 right with rfl | later
    · cases apart
    · exact Or.inr later

theorem Writes.ints_fit {phrase : Phrase} {tokens : List Token} {digits : List Char}
    (writes : Writes phrase tokens) : phrase.Printable → .int digits ∈ tokens →
      (baseTen digits : Int) ≤ intMax := by
  induction writes with
  | int written =>
      rintro ⟨_, bound⟩ member
      rw [Token.int.inj (List.mem_singleton.1 member)]
      exact bound
  | call callee _ ih =>
      intro printable member
      cases printable with
      | call _ each _ => exact ih each (by simpa using member)
  | paren _ ih => exact fun printable member => ih printable (by simpa using member)
  | product _ _ _ ihLeft ihRight | sum _ _ _ ihLeft ihRight =>
      intro printable member
      cases printable with
      | binary _ left _ right _ =>
          rcases int_mem_around rfl member with first | second
          · exact ihLeft left first
          · exact ihRight right second
  | function params _ ih =>
      intro printable member
      cases printable with
      | function _ _ each => exact ih each (by simpa [int_not_mem_paramTokens] using member)
  | args _ _ ihFirst ihRest | statements _ _ ihFirst ihRest =>
      intro each member
      rcases int_mem_around rfl member with first | rest
      · exact ihFirst (each _ List.mem_cons_self) first
      · exact ihRest (fun tree later => each tree (List.mem_cons_of_mem _ later)) rest
  | declare _ _ _ ih =>
      intro printable member
      cases printable with
      | declare _ _ printable _ => exact ih printable (by simpa using member)
  | assign _ _ ih =>
      intro printable member
      cases printable with
      | assign _ _ printable _ => exact ih printable (by simpa using member)
  | arg _ ih | last _ ih | bare _ ih => exact fun each => ih (each _ List.mem_cons_self)
  | trailing _ ih =>
      exact fun each member => ih (each _ List.mem_cons_self) (by simpa using member)
  | block _ ih => exact fun each member => ih each (by simpa using member)
  | factor _ ih | term _ ih | value _ ih | expression _ ih => exact ih
  | _ => simp

theorem intError?_int_iff {digits : List Char} : intError? (.int digits) = none ↔
    digits.length ≤ intDigitLimit ∧ (baseTen digits : Int) ≤ intMax := by
  simp only [intError?, digitsValue_eq_baseTen]
  split
  · rename_i long
    exact ⟨nofun, fun fits => absurd fits.1 (Nat.not_le.2 long)⟩
  · rename_i short
    split
    · rename_i bound
      exact ⟨fun _ => ⟨Nat.not_lt.1 short, bound⟩, fun _ => rfl⟩
    · rename_i large
      exact ⟨nofun, fun fits => absurd fits.2 large⟩

theorem intError?_eq_none {tokens : List Token}
    (fits : ∀ digits, .int digits ∈ tokens →
      digits.length ≤ intDigitLimit ∧ (baseTen digits : Int) ≤ intMax) :
    tokens.findSome? intError? = none := by
  rw [List.findSome?_eq_none_iff]
  intro token member
  cases token with
  | int digits => exact intError?_int_iff.2 (fits digits member)
  | _ => rfl

/-- A printable program is read back from every text that spells a writing of it. -/
theorem parse_undoes_writing (program : List Expr) (tokens : List Token) (source : String)
    (printable : Printable program) (writes : Writes (.statements program) tokens)
    (spells : Spells tokens source.toList)
    (short : ∀ digits, .int digits ∈ tokens → digits.length ≤ intDigitLimit) :
    parse source = .ok program := by
  have fits := intError?_eq_none fun digits member =>
    ⟨short digits member, writes.ints_fit printable.2 member⟩
  exact parse_of_fitting printable writes spells fits

def sumTimes : List Expr :=
  [.declare .variable "f" (.function ["a", "b"]
      [.binary (.binary (.identifier "a") .add (.literal (.int 1))) .mul (.identifier "b")]),
    .call "f" [.literal (.int 2), .literal (.int 3)]]

theorem sumTimes_printable : Printable sumTimes := by
  have number : ∀ value : Int, (Literal.int value).Printable →
      (Expr.literal (.int value)).Printable := fun _ => .literal
  have named : ∀ name : String, isName name.toList = true → (Expr.identifier name).Printable :=
    fun _ => .identifier
  have sum := Expr.Printable.binary .add (named "a" rfl) rfl (number 1 (by decide)) rfl
  have product := Expr.Printable.binary .mul sum rfl (named "b" rfl) rfl
  have function : (Expr.function ["a", "b"] _).Printable :=
    .function (by decide) (List.cons_ne_nil _ _) (List.forall_mem_singleton.2 product)
  have args := List.forall_mem_cons.2
    ⟨number 2 (by decide), List.forall_mem_singleton.2 (number 3 (by decide))⟩
  have call : (Expr.call "f" _).Printable := .call rfl args (by simp [Expr.isBinding])
  exact ⟨List.cons_ne_nil _ _, List.forall_mem_cons.2
    ⟨.declare .variable rfl function rfl, List.forall_mem_singleton.2 call⟩⟩

theorem parse_undoes_writing_glued :
    parse "letf=(a,b)=>\x7b(a+1)*b;\x7d;\n f (2, 03)" = .ok sumTimes := by
  have operand : ∀ name : String, Writes (.product (.identifier name)) [.name name] :=
    fun name => .factor (.identifier name)
  have sum := Writes.sum (rfl : Operator.add.isFactor = false) (.term (operand "a"))
    (.factor (.int ['1']))
  have product := Writes.product (rfl : Operator.mul.isFactor = true) (.factor (.paren (.value sum)))
    (.identifier "b")
  have first := Writes.declare .variable "f" (.function ["a", "b"]
    (.block (.trailing (.expression (.value (.term product))))))
  have number : ∀ digits, Writes (.expr (.literal (.int (baseTen digits)))) [.int digits] :=
    fun digits => .value (.term (.factor (.int digits)))
  have second := Writes.call "f" (.args (number ['2']) (.arg (number ['0', '3'])))
  have writes := Writes.statements first (.last (.expression (.value (.term (.factor second)))))
  have spells : Spells _ "letf=(a,b)=>\x7b(a+1)*b;\x7d;\n f (2, 03)".toList :=
    .token [] (.keyword (.declare .variable)) rfl trivial <| .token [] (.name "f") rfl rfl <|
    .token [] .equals rfl trivial <| .token [] .leftParen rfl trivial <|
    .token [] (.name "a") rfl rfl <| .token [] .comma rfl trivial <|
    .token [] (.name "b") rfl rfl <| .token [] .rightParen rfl trivial <|
    .token [] .arrow rfl trivial <| .token [] .leftBrace rfl trivial <|
    .token [] .leftParen rfl trivial <| .token [] (.name "a") rfl rfl <|
    .token [] (.operator .add) rfl trivial <| .token [] (.int ['1']) rfl ⟨nofun, rfl⟩ <|
    .token [] .rightParen rfl trivial <| .token [] (.operator .mul) rfl trivial <|
    .token [] (.name "b") rfl rfl <| .token [] .semicolon rfl trivial <|
    .token [] .rightBrace rfl trivial <| .token [] .semicolon rfl trivial <|
    .token ['\n', ' '] (.name "f") rfl rfl <| .token [' '] .leftParen rfl trivial <|
    .token [] (.int ['2']) rfl ⟨nofun, rfl⟩ <| .token [] .comma rfl trivial <|
    .token [' '] (.int ['0', '3']) rfl ⟨nofun, rfl⟩ <| .token [] .rightParen rfl trivial <|
    .blank rfl
  refine parse_undoes_writing _ _ _ sumTimes_printable writes spells fun digits member => ?_
  have known : digits = ['1'] ∨ digits = ['2'] ∨ digits = ['0', '3'] := by
    simpa [paramTokens] using member
  rcases known with rfl | rfl | rfl <;> decide

end LetStack
