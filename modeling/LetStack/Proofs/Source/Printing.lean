import LetStack.Proofs.Source.Accounting

/-!
Programs in canonical form: parentheses only where precedence and grouping to the left need them,
every body in braces, and no semicolon behind a last statement.
-/

namespace LetStack

def MakesFloat (digits : List Char × List Char) (value : Float) : Prop :=
  (Token.float digits.1 digits.2).Lexical ∧ fixedFloat digits.1 digits.2 = value

structure FloatDigits where
  digits : Float → List Char × List Char
  makes : ∀ {some : List Char × List Char} {value : Float}, MakesFloat some value →
    MakesFloat (digits value) value

instance : Nonempty FloatDigits := by
  classical
  let digits (value : Float) :=
    if writable : ∃ some, MakesFloat some value then writable.choose else ([], [])
  refine ⟨⟨digits, fun {some value} makes => ?_⟩⟩
  have writable : ∃ some, MakesFloat some value := ⟨some, makes⟩
  have chosen : digits value = writable.choose := dif_pos writable
  rw [chosen]
  exact writable.choose_spec

variable (floats : FloatDigits)

def Literal.print : Literal → Token
  | int value => .int (Nat.toDigits 10 value.toNat)
  | float value => .float (floats.digits value).1 (floats.digits value).2
  | bool value => .keyword (.bool value)
  | text content => .text content

def Operator.level (operator : Operator) : Nat := if operator.isFactor then 1 else 2

def Expr.level : Expr → Nat
  | literal _ | identifier _ | call _ _ => 0
  | binary _ operator _ => operator.level
  | declare _ _ _ | assign _ _ | function _ _ => 3

def enclose (limit level : Nat) (tokens : List Token) : List Token :=
  if level ≤ limit then tokens else .leftParen :: (tokens ++ [.rightParen])

mutual

def Expr.print : Expr → List Token
  | .literal value => [value.print floats]
  | .identifier name => [.name name]
  | .declare kind name rhs => .keyword (.declare kind) :: .name name :: .equals :: rhs.print
  | .assign name rhs => .name name :: .equals :: rhs.print
  | .binary left operator right =>
    enclose operator.level left.level left.print ++
      .operator operator :: enclose (operator.level - 1) right.level right.print
  | .function params body =>
    .leftParen :: (paramTokens params ++ .rightParen :: .arrow :: .leftBrace ::
      (Expr.printAll .semicolon body ++ [.rightBrace]))
  | .call callee args => .name callee :: .leftParen :: (Expr.printAll .comma args ++ [.rightParen])

def Expr.printAll (between : Token) : List Expr → List Token
  | [] => []
  | [last] => last.print
  | first :: rest => first.print ++ between :: Expr.printAll between rest

end


variable {floats}

theorem digitsValue_toDigits (value : Nat) : digitsValue (Nat.toDigits 10 value) = value := by
  have read := Nat.ofDigitChars_ten_toDigits (n := value)
  rw [Nat.ofDigitChars_eq_foldl] at read
  simpa only [digitsValue, Nat.mul_comm] using read

theorem baseTen_toDigits (value : Nat) : baseTen (Nat.toDigits 10 value) = value := by
  rw [← digitsValue_eq_baseTen, digitsValue_toDigits]

theorem all_isDigit_toDigits (value : Nat) : (Nat.toDigits 10 value).all isDigit = true := by
  refine List.all_eq_true.2 fun char member => ?_
  have digit := Nat.isDigit_of_mem_toDigits (by decide) (by decide) member
  exact digit

theorem valid_toDigits {value : Nat} (bound : (value : Int) ≤ intMax) :
    (Token.int (Nat.toDigits 10 value)).Valid := by
  have few : (Nat.toDigits 10 value).length ≤ 10 := by
    refine (Nat.length_toDigits_le_iff (by decide) (by decide)).2 ?_
    rw [intMax] at bound
    omega
  have short : (Nat.toDigits 10 value).length ≤ intDigitLimit := by
    rw [intDigitLimit]
    omega
  rw [← baseTen_toDigits value] at bound
  exact ⟨⟨Nat.toDigits_ne_nil, all_isDigit_toDigits value⟩, intError?_int_iff.2 ⟨short, bound⟩⟩

def Phrase.at : Nat → Expr → Phrase
  | 0 => .atom
  | 1 => .product
  | 2 => .sum
  | _ => .expr

theorem Writes.loosen {expr : Expr} {tokens : List Token} {level limit : Nat}
    (writes : Writes (.at level expr) tokens) (looser : level ≤ limit) :
    Writes (.at limit expr) tokens := by
  induction looser with
  | refl => exact writes
  | @step limit _ ih =>
      match limit with
      | 0 => exact .factor ih
      | 1 => exact .term ih
      | 2 => exact .value ih
      | _ + 3 => exact ih

def Restates (phrase : Phrase) (tokens : List Token) : Prop :=
  Writes phrase tokens ∧ ∀ token ∈ tokens, token.Valid

theorem Expr.level_le (expr : Expr) : expr.level ≤ 3 := by
  cases expr with
  | binary _ operator _ =>
      rw [level, Operator.level]
      split <;> decide
  | _ => simp [level]

theorem Literal.restates {value : Literal} (printable : value.Printable)
    (makes : ∀ number, value = .float number → ∃ digits, MakesFloat digits number) :
    Restates (.atom (.literal value)) [value.print floats] := by
  cases value with
  | int value =>
      have whole : ((value.toNat : Nat) : Int) = value := Int.toNat_of_nonneg printable.1
      have written := Writes.int (Nat.toDigits 10 value.toNat)
      rw [baseTen_toDigits, whole] at written
      exact ⟨written, List.forall_mem_singleton.2 (valid_toDigits (whole.symm ▸ printable.2))⟩
  | float number =>
      obtain ⟨digits, made⟩ := makes number rfl
      obtain ⟨lexical, same⟩ := floats.makes made
      have written := Writes.float (floats.digits number).1 (floats.digits number).2
      rw [same] at written
      exact ⟨written, List.forall_mem_singleton.2 ⟨lexical, rfl⟩⟩
  | bool value => exact ⟨.bool value, List.forall_mem_singleton.2 ⟨trivial, rfl⟩⟩
  | text content => exact ⟨.text content, List.forall_mem_singleton.2 ⟨printable, rfl⟩⟩

theorem Restates.loosen {expr : Expr} {tokens : List Token} {level limit : Nat}
    (restates : Restates (.at level expr) tokens) (looser : level ≤ limit) :
    Restates (.at limit expr) tokens := ⟨restates.1.loosen looser, restates.2⟩

theorem Restates.enclose {expr : Expr} {tokens : List Token} (limit : Nat)
    (restates : Restates (.at expr.level expr) tokens) :
    Restates (.at limit expr) (enclose limit expr.level tokens) := by
  unfold LetStack.enclose
  split
  · rename_i holds
    exact ⟨restates.1.loosen holds, restates.2⟩
  · have whole : Writes (.expr expr) tokens := restates.1.loosen expr.level_le
    have atom : Writes (.at 0 expr) (.leftParen :: (tokens ++ [.rightParen])) := .paren whole
    refine ⟨atom.loosen (Nat.zero_le limit), ?_⟩
    exact List.forall_mem_cons.2 ⟨⟨trivial, rfl⟩, List.forall_mem_append.2
      ⟨restates.2, List.forall_mem_singleton.2 ⟨trivial, rfl⟩⟩⟩

theorem valid_around {first second : List Token} {between : Token}
    (left : ∀ token ∈ first, token.Valid) (symbol : between.Valid)
    (right : ∀ token ∈ second, token.Valid) :
    ∀ token ∈ first ++ between :: second, token.Valid :=
  List.forall_mem_append.2 ⟨left, List.forall_mem_cons.2 ⟨symbol, right⟩⟩

theorem Restates.binary {left right : Expr} {first second : List Token} (operator : Operator)
    (lefts : Restates (.at left.level left) first)
    (rights : Restates (.at right.level right) second) :
    Restates (.at operator.level (.binary left operator right))
      (LetStack.enclose operator.level left.level first ++
        .operator operator :: LetStack.enclose (operator.level - 1) right.level second) := by
  have left := lefts.enclose operator.level
  have right := rights.enclose (operator.level - 1)
  refine ⟨?_, valid_around left.2 ⟨trivial, rfl⟩ right.2⟩
  cases joins : operator.isFactor with
  | true =>
      rw [Operator.level, if_pos joins] at left right ⊢
      exact .product joins left.1 right.1
  | false =>
      rw [Operator.level, if_neg (by simp [joins])] at left right ⊢
      exact .sum joins left.1 right.1

def Phrase.Restated (floats : FloatDigits) : Phrase → Prop
  | atom tree | product tree | sum tree | expr tree =>
    Restates (.at tree.level tree) (tree.print floats)
  | statement tree => Restates (.statement tree) (tree.print floats)
  | args trees => Restates (.args trees) (Expr.printAll floats .comma trees)
  | statements trees | body trees =>
    Restates (.statements trees) (Expr.printAll floats .semicolon trees)

theorem Writes.restated {phrase : Phrase} {tokens : List Token} (writes : Writes phrase tokens) :
    (∀ token ∈ tokens, token.Valid) → phrase.Restated floats := by
  induction writes with
  | int digits =>
      intro valid
      have bound := (valid _ List.mem_cons_self).int_fits.2
      exact Literal.restates ⟨Int.natCast_nonneg _, bound⟩ nofun
  | float whole fraction =>
      intro valid
      refine Literal.restates trivial fun number same => ⟨(whole, fraction), ?_⟩
      exact ⟨(valid _ List.mem_cons_self).lexical, Literal.float.inj same⟩
  | bool value => exact fun _ => Literal.restates trivial nofun
  | text content =>
      exact fun valid => Literal.restates (valid _ List.mem_cons_self).lexical nofun
  | identifier name => exact fun valid => ⟨.identifier name, valid⟩
  | callNothing callee => exact fun valid => ⟨.callNothing callee, valid⟩
  | @call callee args tokens _ ih =>
      intro valid
      have args := ih fun token member => valid token (by simp [member])
      have named := valid (.name callee) List.mem_cons_self
      refine ⟨.call callee args.1, ?_⟩
      simp only [Expr.print, List.forall_mem_cons, List.forall_mem_append]
      exact ⟨named, ⟨trivial, rfl⟩, args.2, ⟨trivial, rfl⟩, nofun⟩
  | paren _ ih => exact fun valid => ih fun token member => valid token (by simp [member])
  | product _ _ _ ihLeft ihRight | sum _ _ _ ihLeft ihRight =>
      intro valid
      have left := ihLeft fun token member => valid token (by simp [member])
      have right := ihRight fun token member => valid token (by simp [member])
      exact left.binary _ right
  | @function params body tokens _ ih =>
      intro valid
      have body := ih fun token member => valid token (by simp [member])
      refine ⟨.function params (.block body.1), ?_⟩
      simp only [Expr.print, List.forall_mem_cons, List.forall_mem_append]
      refine ⟨⟨trivial, rfl⟩, ?_, ⟨trivial, rfl⟩, ⟨trivial, rfl⟩, ⟨trivial, rfl⟩, body.2,
        ⟨trivial, rfl⟩, nofun⟩
      exact fun token member => valid token (by simp [member])
  | @declare kind name rhs tokens _ ih =>
      intro valid
      have rhs := (ih fun token member => valid token (by simp [member])).loosen rhs.level_le
      have named := valid (.name name) (by simp)
      refine ⟨.declare kind name rhs.1, ?_⟩
      simp only [Expr.print, List.forall_mem_cons]
      exact ⟨⟨trivial, rfl⟩, named, ⟨trivial, rfl⟩, rhs.2⟩
  | @assign name rhs tokens _ ih =>
      intro valid
      have rhs := (ih fun token member => valid token (by simp [member])).loosen rhs.level_le
      have named := valid (.name name) List.mem_cons_self
      refine ⟨.assign name rhs.1, ?_⟩
      simp only [Expr.print, List.forall_mem_cons]
      exact ⟨named, ⟨trivial, rfl⟩, rhs.2⟩
  | @arg expr tokens _ ih =>
      intro valid
      have expr := (ih valid).loosen expr.level_le
      exact ⟨.arg expr.1, expr.2⟩
  | @args expr rest first second _ writes ihFirst ihRest =>
      intro valid
      have expr := (ihFirst fun token member => valid token (by simp [member])).loosen expr.level_le
      have rest := ihRest fun token member => valid token (by simp [member])
      rw [Phrase.Restated, Expr.printAll]
      exact ⟨.args expr.1 rest.1, valid_around expr.2 ⟨trivial, rfl⟩ rest.2⟩
      rintro rfl
      cases writes
  | @statements expr rest first second _ writes ihFirst ihRest =>
      intro valid
      have expr := ihFirst fun token member => valid token (by simp [member])
      have rest := ihRest fun token member => valid token (by simp [member])
      rw [Phrase.Restated, Expr.printAll]
      exact ⟨.statements expr.1 rest.1, valid_around expr.2 ⟨trivial, rfl⟩ rest.2⟩
      rintro rfl
      cases writes
  | @expression expr tokens _ ih =>
      intro valid
      have expr := (ih valid).loosen expr.level_le
      exact ⟨.expression expr.1, expr.2⟩
  | last _ ih =>
      intro valid
      have statement := ih valid
      exact ⟨.last statement.1, statement.2⟩
  | trailing _ ih =>
      intro valid
      have statement := ih fun token member => valid token (by simp [member])
      exact ⟨.last statement.1, statement.2⟩
  | @bare expr tokens _ ih =>
      intro valid
      have expr := (ih valid).loosen expr.level_le
      exact ⟨.last (.expression expr.1), expr.2⟩
  | block _ ih => exact fun valid => ih fun token member => valid token (by simp [member])
  | factor _ ih | term _ ih | value _ ih => exact ih

def spaced : List Token → String
  | [] => ""
  | first :: rest =>
    String.ofList (first.spelling ++ rest.flatMap fun token => ' ' :: token.spelling)

theorem spells_spaced {tokens : List Token} (lexical : ∀ token ∈ tokens, token.Lexical) :
    Spells tokens (spaced tokens).toList := by
  have later : ∀ rest : List Token, (∀ token ∈ rest, token.Lexical) →
      Spells rest (rest.flatMap fun token => ' ' :: token.spelling) := by
    intro rest
    induction rest with
    | nil => exact fun _ => .blank rfl
    | cons token rest ih =>
        intro lexical
        exact .token [' '] token rfl (lexical token List.mem_cons_self)
          (ih fun other member => lexical other (List.mem_cons_of_mem _ member))
  cases tokens with
  | nil => exact .blank rfl
  | cons first rest =>
      rw [spaced, String.toList_ofList]
      exact .token [] first rfl (lexical first List.mem_cons_self)
        (later rest fun other member => lexical other (List.mem_cons_of_mem _ member))

def printed (floats : FloatDigits) (program : List Expr) : String :=
  spaced (Expr.printAll floats .semicolon program)

theorem parse_printed {program : List Expr} {tokens : List Token} (printable : Printable program)
    (writes : Writes (.statements program) tokens) (valid : ∀ token ∈ tokens, token.Valid) :
    parse (printed floats program) = .ok program := by
  have restated : (Phrase.statements program).Restated floats := writes.restated valid
  exact parse_of_fitting printable restated.1
    (spells_spaced fun token member => (restated.2 token member).lexical)
    (List.findSome?_eq_none_iff.2 fun token member => (restated.2 token member).fits)

end LetStack
