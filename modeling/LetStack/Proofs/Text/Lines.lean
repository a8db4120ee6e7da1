import LetStack.Machine.Display

/-!
Texts that stay on one line. Numbers have no line break in their digits, and quoting writes one by
an escape.
-/

namespace LetStack

theorem splitOn_join_lines {lines : List String} (whole : ∀ line ∈ lines, '\n' ∉ line.toList) :
    (String.join (lines.map (· ++ "\n"))).toList.splitOn '\n' = (lines ++ [""]).map String.toList := by
  induction lines with
  | nil => rfl
  | cons line rest ih =>
      have alone : line.toList.splitOnP (· == '\n') = [line.toList] :=
        List.splitOnP_eq_singleton fun char member =>
          beq_eq_false_iff_ne.2 fun same => whole line List.mem_cons_self (same ▸ member)
      have others := ih fun other member => whole other (List.mem_cons_of_mem _ member)
      have shape : (String.join ((line :: rest).map (· ++ "\n"))).toList =
          line.toList ++ '\n' :: (String.join (rest.map (· ++ "\n"))).toList := by
        simp
      rw [List.splitOn] at others
      rw [shape, List.splitOn, List.splitOnP_append_cons (p := (· == '\n')) _ _
        (beq_self_eq_true '\n'), alone, others]
      rfl

theorem newline_not_mem_toDigits {base : Nat} (large : 1 < base) (number : Nat) :
    '\n' ∉ Nat.toDigits base number := by
  induction number using Nat.strongRecOn with
  | ind number ih =>
      rw [Nat.toDigits_eq_if large]
      split
      · simp
      · rename_i several
        have positive : 0 < number := by omega
        have smaller := ih (number / base) (Nat.div_lt_self positive large)
        simp [smaller]

theorem newline_not_mem_intText (number : Int) : '\n' ∉ (intText number).toList := by
  have digits := newline_not_mem_toDigits (by decide : 1 < 10) number.natAbs
  rw [intText]
  split <;> simp [digits]

section Floats

variable {digits : List Char}

theorem newline_not_mem_zeros (count : Nat) : '\n' ∉ zeros count := by simp [zeros]

theorem newline_not_mem_dropTrailingZeros (whole : '\n' ∉ digits) :
    '\n' ∉ dropTrailingZeros digits := by
  rw [dropTrailingZeros, List.mem_reverse]
  intro member
  exact whole (List.mem_reverse.1 ((List.dropWhile_sublist _).subset member))

theorem newline_not_mem_plainDecimal (whole : '\n' ∉ digits) (point : Int) :
    '\n' ∉ plainDecimal digits point := by
  have start : '\n' ∉ digits.take point.toNat := fun member => whole (List.mem_of_mem_take member)
  have rest : '\n' ∉ digits.drop point.toNat := fun member => whole (List.mem_of_mem_drop member)
  rw [plainDecimal]
  split
  · simp [newline_not_mem_zeros, whole]
  · split
    · simp [newline_not_mem_zeros, whole]
    · simp [start, rest]

theorem newline_not_mem_exponentText (style : DecimalStyle) (exponent : Int) :
    '\n' ∉ exponentText style exponent := by
  have size := newline_not_mem_toDigits (by decide : 1 < 10) exponent.natAbs
  rw [exponentText]
  split <;> simp [newline_not_mem_zeros, size]

theorem newline_not_mem_scientificDecimal (whole : '\n' ∉ digits) (style : DecimalStyle)
    (exponent : Int) : '\n' ∉ scientificDecimal style digits exponent := by
  have power := newline_not_mem_exponentText style exponent
  match digits with
  | [] => simpa [scientificDecimal] using power
  | [single] => simpa [scientificDecimal, power] using whole
  | first :: second :: rest => simpa [scientificDecimal, power] using whole

theorem newline_not_mem_finiteText (style : DecimalStyle) (steps : Nat) (exponent : Int) :
    '\n' ∉ finiteText style steps exponent := by
  rw [finiteText]
  split
  · decide
  · have whole := newline_not_mem_dropTrailingZeros
      (newline_not_mem_toDigits (by decide : 1 < 10) (shortestDecimal steps exponent).1)
    dsimp only
    split
    · exact newline_not_mem_plainDecimal whole _
    · exact newline_not_mem_scientificDecimal whole style _

theorem newline_not_mem_floatText (number : Float) : '\n' ∉ (floatText number).toList := by
  rw [floatText]
  split
  · decide
  · split <;> decide
  · rename_i negative steps exponent _
    have size := newline_not_mem_finiteText floatStyle steps exponent
    rw [String.toList_ofList]
    split <;> simp [size]

end Floats

theorem newline_not_mem_hexDigits (width code : Nat) : '\n' ∉ hexDigits width code := by
  simp [hexDigits, newline_not_mem_toDigits (by decide : 1 < 16) code]

theorem newline_not_mem_escapeChar {mark : Char} (other : mark ≠ '\n') (char : Char) :
    '\n' ∉ escapeChar mark char := by
  by_cases newline : char = '\n'
  · simp [escapeChar, newline, other.symm]
  · rw [escapeChar]
    repeat' split
    all_goals simp [newline_not_mem_hexDigits, Ne.symm newline]

theorem quoteMark_cases (chars : List Char) : quoteMark chars = '"' ∨ quoteMark chars = '\'' := by
  rw [quoteMark]
  split
  · exact Or.inl rfl
  · exact Or.inr rfl

theorem newline_not_mem_quoteChars (chars : List Char) : '\n' ∉ quoteChars chars := by
  have mark : quoteMark chars ≠ '\n' := by
    rcases quoteMark_cases chars with double | single
    · rw [double]
      decide
    · rw [single]
      decide
  simp [quoteChars, mark.symm, newline_not_mem_escapeChar mark]

theorem newline_not_mem_describe (value : Value) : '\n' ∉ value.describe.toList := by
  cases value with
  | int number => exact newline_not_mem_intText number
  | float number => exact newline_not_mem_floatText number
  | bool truth => cases truth <;> decide
  | pointer address => simp [Value.describe, Value.display, newline_not_mem_toDigits]
  | bytes content =>
      rw [Value.describe, String.toList_ofList]
      exact newline_not_mem_quoteChars _
  | closure params body env => simp [Value.describe, Value.display, newline_not_mem_toDigits]

end LetStack
