import LetStack.Proofs.Source.Printing

/-!
What the parser accepts is what the grammar has, but for numbers that are too large. These are
refused once all of the text has been read, at the first of them.
-/

namespace LetStack

theorem parse_ok_cases {source : String} {program : List Expr}
    (parsed : parse source = .ok program) :
    (scan source.toList).2 = [] ∧
      readProgram ((scan source.toList).1.map Lexeme.token) = .ok program ∧
      ((scan source.toList).1.map Lexeme.token).findSome? intError? = none := by
  simp only [parse] at parsed
  split at parsed
  · cases parsed
  · rename_i result read
    split at parsed
    · rename_i done
      split at parsed
      · cases parsed
      · rename_i fits
        cases parsed
        exact ⟨done, read, fits⟩
    · cases parsed

theorem Spells.lexical {tokens : List Token} {chars : List Char} (spells : Spells tokens chars) :
    ∀ token ∈ tokens, token.Lexical := by
  induction spells with
  | blank _ => exact nofun
  | token _ _ _ lexical _ ih => exact List.forall_mem_cons.2 ⟨lexical, ih⟩

theorem parse_accounts {source : String} {program : List Expr}
    (parsed : parse source = .ok program) : Printable program ∧ ∃ tokens,
      Writes (.statements program) tokens ∧ Spells tokens source.toList ∧
        ∀ token ∈ tokens, token.Valid := by
  obtain ⟨done, read, fits⟩ := parse_ok_cases parsed
  have spelled := spells_scan _ done
  have valid : ∀ token ∈ (scan source.toList).1.map Lexeme.token, token.Valid :=
    fun token member =>
      ⟨spelled.lexical token member, List.findSome?_eq_none_iff.1 fits token member⟩
  obtain ⟨used, tokens, shape, joined, writes, accepted⟩ := readProgram_accounts valid read
  rw [List.append_nil] at shape
  rw [shape] at spelled fits
  have spells := spelled.unjoin joined
  rw [joined.intError?] at fits
  exact ⟨accepted, tokens, writes, spells, fun token member =>
    ⟨spells.lexical token member, List.findSome?_eq_none_iff.1 fits token member⟩⟩

theorem parse_refuses_large {program : List Expr} {tokens : List Token} {source : String}
    (writes : Writes (.statements program) tokens) (spells : Spells tokens source.toList)
    (short : ∀ digits, .int digits ∈ tokens → digits.length ≤ intDigitLimit)
    (large : ∃ digits, .int digits ∈ tokens ∧ intMax < baseTen digits) :
    ∃ before digits after, tokens = before ++ .int digits :: after ∧
      (∀ earlier, .int earlier ∈ before → (baseTen earlier : Int) ≤ intMax) ∧
      intMax < baseTen digits ∧ parse source = .error (.intOutOfRange digits) := by
  obtain ⟨result, _, parsed⟩ := parse_of_writes writes spells
  cases found : tokens.findSome? intError? with
  | none =>
      obtain ⟨digits, member, exceeds⟩ := large
      have fits := intError?_int_iff.1 (List.findSome?_eq_none_iff.1 found _ member)
      omega
  | some error =>
      obtain ⟨before, token, after, shape, raised, clear⟩ := List.findSome?_eq_some_iff.1 found
      cases token with
      | int digits =>
          have few := short digits (by simp [shape])
          have exceeds : intMax < baseTen digits := by
            rw [← Int.not_le]
            intro bound
            rw [intError?_int_iff.2 ⟨few, bound⟩] at raised
            cases raised
          have same : intError? (.int digits) = some (.intOutOfRange digits) := by
            simp only [intError?, Nat.not_lt.2 few, if_false, digitsValue_eq_baseTen,
              Int.not_le.2 exceeds]
          rw [raised, Option.some.injEq] at same
          rw [found, same, Option.elim_some] at parsed
          exact ⟨before, digits, after, shape,
            fun earlier member => (intError?_int_iff.1 (clear _ member)).2, exceeds, parsed⟩
      | _ => cases raised

/-- What is accepted is printable, was written in the text, and is read back from its canonical text.
A text that the grammar has is refused for the first number in it that is too large. -/
theorem parse_keeps_to_grammar (source : String) (program : List Expr) :
    (parse source = .ok program → Printable program ∧
      (∃ tokens, Writes (.statements program) tokens ∧ Spells tokens source.toList) ∧
      ∀ floats : FloatDigits, parse (printed floats program) = .ok program) ∧
    ∀ tokens, Writes (.statements program) tokens → Spells tokens source.toList →
      (∀ digits, .int digits ∈ tokens → digits.length ≤ intDigitLimit) →
      (∃ digits, .int digits ∈ tokens ∧ intMax < digitsValue digits) →
      ∃ before digits after, tokens = before ++ .int digits :: after ∧
        (∀ earlier, .int earlier ∈ before → (digitsValue earlier : Int) ≤ intMax) ∧
        intMax < digitsValue digits ∧ parse source = .error (.intOutOfRange digits) := by
  constructor
  · intro parsed
    obtain ⟨printable, tokens, writes, spells, valid⟩ := parse_accounts parsed
    exact ⟨printable, ⟨tokens, writes, spells⟩, fun floats => parse_printed printable writes valid⟩
  · intro tokens writes spells short large
    simp only [digitsValue_eq_baseTen] at large ⊢
    exact parse_refuses_large writes spells short large

theorem parse_keeps_to_grammar_assignment :
    parse "y = 7" = .ok [.assign "y" (.literal (.int 7))] ∧
      parse "\ty=(02147483648);" = .error (.intOutOfRange "02147483648".toList) := by
  have writes : ∀ digits, Writes (.statements [.assign "y" (.literal (.int (baseTen digits)))])
      [.name "y", .equals, .leftParen, .int digits, .rightParen, .semicolon] := fun digits =>
    .trailing (.assign "y" (.value (.term (.factor (.paren (.value (.term (.factor (.int digits)))))))))
  constructor
  · have spells : Spells _ "\ty=(07);".toList :=
      .token ['\t'] (.name "y") rfl rfl <| .token [] .equals rfl trivial <|
      .token [] .leftParen rfl trivial <| .token [] (.int ['0', '7']) rfl ⟨nofun, rfl⟩ <|
      .token [] .rightParen rfl trivial <| .token [] .semicolon rfl trivial <| .blank rfl
    have opens : ¬ OpensDeclaration "y" := not_opensDeclaration (by decide)
    have seven : (Literal.int 7).Printable := by decide
    have printable : Printable [.assign "y" (.literal (.int 7))] :=
      ⟨List.cons_ne_nil _ _, List.forall_mem_singleton.2 (.assign rfl opens (.literal seven) rfl)⟩
    have parsed := parse_of_fitting printable (writes ['0', '7']) spells rfl
    obtain ⟨floats⟩ := (inferInstance : Nonempty FloatDigits)
    exact ((parse_keeps_to_grammar _ _).1 parsed).2.2 floats
  · have spells : Spells _ "\ty=(02147483648);".toList :=
      .token ['\t'] (.name "y") rfl rfl <| .token [] .equals rfl trivial <|
      .token [] .leftParen rfl trivial <|
      .token [] (.int "02147483648".toList) rfl ⟨nofun, rfl⟩ <|
      .token [] .rightParen rfl trivial <| .token [] .semicolon rfl trivial <| .blank rfl
    have only : ∀ digits, .int digits ∈ [Token.name "y", .equals, .leftParen,
        .int "02147483648".toList, .rightParen, .semicolon] → digits = "02147483648".toList := by
      simp
    obtain ⟨before, digits, after, shape, _, _, refused⟩ :=
      (parse_keeps_to_grammar _ _).2 _ (writes _) spells
        (fun digits member => only digits member ▸ by decide)
        ⟨"02147483648".toList, by simp, by decide⟩
    rw [only digits (shape ▸ by simp)] at refused
    exact refused

end LetStack
