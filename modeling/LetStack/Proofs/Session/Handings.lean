import LetStack.Proofs.Analysis.Ordered
import LetStack.Proofs.Session.Splitting
import LetStack.Proofs.Source.Parsing
import LetStack.Proofs.Source.Places

/-!
Ways to hand on a text: it stands in quotes, under a name, or as the argument of a function that
gives back its argument. Here is how they are written and read, and what the analysis has to say.
-/

namespace LetStack

inductive Role where
  | text
  | function

inductive Handing where
  | quoted
  | named (name : String)
  | called (function : String) (inner : Handing)

inductive Handover where
  | shows (handing : Handing)
  | names (name : String) (handing : Handing)
  | renames (name : String) (handing : Handing)
  | declares (function param : String)

namespace Handing

def source (content : String) : Handing → String
  | quoted => "\"" ++ content ++ "\""
  | named name => name
  | called function inner => function ++ "(" ++ inner.source content ++ ")"

def expr (content : String) : Handing → Expr
  | quoted => .literal (.text content)
  | named name => .identifier name
  | called function inner => .call function [inner.expr content]

def tokens (content : String) : Handing → List Token
  | quoted => [.text content]
  | named name => [.name name]
  | called function inner => .name function :: .leftParen :: (inner.tokens content ++ [.rightParen])

def Known (known : List (String × Role)) : Handing → Prop
  | quoted => True
  | named name => (name, .text) ∈ known
  | called function inner => (function, .function) ∈ known ∧ inner.Known known

end Handing

namespace Handover

def source (content : String) : Handover → String
  | shows handing => handing.source content
  | names name handing => "let " ++ name ++ " = " ++ handing.source content
  | renames name handing => name ++ " = " ++ handing.source content
  | declares function param => "let " ++ function ++ " = (" ++ param ++ ") => " ++ param

def expr (content : String) : Handover → Expr
  | shows handing => handing.expr content
  | names name handing => .declare .variable name (handing.expr content)
  | renames name handing => .assign name (handing.expr content)
  | declares function param => .declare .variable function (.function [param] [.identifier param])

def tokens (content : String) : Handover → List Token
  | shows handing => handing.tokens content
  | names name handing =>
    .keyword (.declare .variable) :: .name name :: .equals :: handing.tokens content
  | renames name handing => .name name :: .equals :: handing.tokens content
  | declares function param =>
    [.keyword (.declare .variable), .name function, .equals, .leftParen, .name param, .rightParen,
      .arrow, .name param]

def outcome (content : String) : Handover → Outcome
  | shows _ => .success (.text ("\"" ++ content ++ "\"")) []
  | names _ _ => .success .nothing []
  | renames name _ => .success .nothing [.reassigning name]
  | declares _ _ => .success .nothing []

end Handover

structure Scope.Free (scope : Scope) (known : List (String × Role)) (name : String) : Prop where
  valid : isName name.toList = true
  undeclared : scope.symbols.contains name = false
  unknown : ∀ role, (name, role) ∉ known

inductive Handover.Fits (scope : Scope) (known : List (String × Role)) :
    Handover → List (String × Role) → Prop
  | shows {handing : Handing} : handing.Known known → Fits scope known (.shows handing) known
  | names {name : String} {handing : Handing} : scope.Free known name → handing.Known known →
      Fits scope known (.names name handing) ((name, .text) :: known)
  | renames {name : String} {handing : Handing} : (name, .text) ∈ known → ¬ OpensDeclaration name →
      handing.Known known → Fits scope known (.renames name handing) known
  | declares {function param : String} : scope.Free known function → isName param.toList = true →
      Fits scope known (.declares function param) ((function, .function) :: known)

inductive HandsOn (scope : Scope) : List (String × Role) → List Handover → Prop
  | nil (known : List (String × Role)) : HandsOn scope known []
  | cons {known later : List (String × Role)} {handover : Handover} {rest : List Handover} :
      handover.Fits scope known later → HandsOn scope later rest →
      HandsOn scope known (handover :: rest)

/-! Reading -/

def Begins (source : String) : Prop :=
  ∃ first rest, source.toList = first :: rest ∧ (first = '"' ∨ isLetter first = true)

theorem Begins.append {source : String} (begins : Begins source) (rest : String) :
    Begins (source ++ rest) := by
  obtain ⟨first, more, shape, known⟩ := begins
  exact ⟨first, more ++ rest.toList, by simp [shape], known⟩

theorem begins_of_isName {name : String} (valid : isName name.toList = true) : Begins name := by
  obtain ⟨first, rest, shape, letter, _⟩ := isName_shape valid
  exact ⟨first, rest, shape, Or.inr letter⟩

theorem isBlank_of_isLetter {char : Char} (letter : isLetter char = true) :
    isBlank char = false := by
  simp only [isLetter, Bool.or_eq_true, Bool.and_eq_true, decide_eq_true_eq, Char.le_def,
    UInt32.le_iff_toNat_le] at letter
  have bounds : 65 ≤ char.toNat ∧ char.toNat ≤ 122 := by
    have codes : ('a'.val.toNat = 97 ∧ 'z'.val.toNat = 122) ∧
        'A'.val.toNat = 65 ∧ 'Z'.val.toNat = 90 := by decide
    change 65 ≤ char.val.toNat ∧ char.val.toNat ≤ 122
    omega
  simp only [isBlank, isSpace, inRanges, spaceRanges, List.any_cons, List.any_nil, Bool.or_false,
    Bool.or_eq_false_iff, Bool.and_eq_false_iff, decide_eq_false_iff_not]
  omega

theorem Begins.plain {source : String} (begins : Begins source) :
    stripBlank source ≠ Session.envCommand := by
  obtain ⟨first, rest, shape, rfl | letter⟩ := begins
  · exact stripBlank_ne_envCommand_of_cons shape (by decide) (by decide)
  · refine stripBlank_ne_envCommand_of_cons shape (isBlank_of_isLetter letter) ?_
    rintro rfl
    cases letter

variable {content : String} {known : List (String × Role)}

namespace Handing

theorem writes (content : String) (handing : Handing) :
    Writes (.atom (handing.expr content)) (handing.tokens content) := by
  induction handing with
  | quoted => exact .text content
  | named name => exact .identifier name
  | called function inner ih => exact .call function (.arg (.value (.term (.factor ih))))

theorem not_binding (content : String) (handing : Handing) :
    (handing.expr content).isBinding = false := by
  cases handing <;> rfl

theorem Known.printable (closed : '"' ∉ content.toList)
    (valid : ∀ entry ∈ known, isName entry.1.toList = true) {handing : Handing}
    (knows : handing.Known known) : (handing.expr content).Printable := by
  induction handing with
  | quoted => exact .literal closed
  | named name => exact .identifier (valid _ knows)
  | called function inner ih =>
      exact .call (valid _ knows.1) (List.forall_mem_singleton.2 (ih knows.2))
        (List.forall_mem_singleton.2 (inner.not_binding content))

theorem Known.spells (closed : '"' ∉ content.toList)
    (valid : ∀ entry ∈ known, isName entry.1.toList = true) {handing : Handing}
    (knows : handing.Known known) :
    Spells (handing.tokens content) (handing.source content).toList := by
  have ended : Spells [] [] := .blank rfl
  induction handing with
  | quoted =>
      have spells : Spells _ _ := .token [] (.text content) rfl closed ended
      simpa [tokens, source, Token.spelling] using spells
  | named name =>
      have spells : Spells _ _ := .token [] (.name name) rfl (valid _ knows) ended
      simpa [tokens, source, Token.spelling] using spells
  | called function inner ih =>
      have inside := spells_append_iff.2
        ⟨_, _, rfl, ih knows.2, .token [] .rightParen rfl trivial ended⟩
      have spells : Spells _ _ := .token [] (.name function) rfl (valid _ knows.1) <|
        .token [] .leftParen rfl trivial inside
      simpa [tokens, source, Token.spelling] using spells

theorem int_not_mem (content : String) (handing : Handing) (digits : List Char) :
    .int digits ∉ handing.tokens content := by
  induction handing with
  | quoted => simp [tokens]
  | named name => simp [tokens]
  | called function inner ih => simp [tokens, ih]

theorem Known.begins (valid : ∀ entry ∈ known, isName entry.1.toList = true) {handing : Handing}
    (knows : handing.Known known) : Begins (handing.source content) := by
  cases handing with
  | quoted => exact ⟨'"', content.toList ++ ['"'], by simp [source], Or.inl rfl⟩
  | named name => exact begins_of_isName (valid _ knows)
  | called function inner =>
      simpa [source, String.append_assoc] using (begins_of_isName (valid _ knows.1)).append _

end Handing

namespace Handover

variable {scope : Scope} {later : List (String × Role)} {handover : Handover}

theorem Fits.printable (fits : handover.Fits scope known later) (closed : '"' ∉ content.toList)
    (valid : ∀ entry ∈ known, isName entry.1.toList = true) :
    (handover.expr content).Printable := by
  cases fits with
  | shows knows => exact knows.printable closed valid
  | @names name handing free knows =>
      exact .declare .variable free.valid (knows.printable closed valid)
        (handing.not_binding content)
  | @renames name handing member opens knows =>
      exact .assign (valid _ member) opens (knows.printable closed valid)
        (handing.not_binding content)
  | declares free param =>
      exact .declare .variable free.valid (.function (List.forall_mem_singleton.2 param)
        (List.cons_ne_nil _ _) (List.forall_mem_singleton.2 (.identifier param))) rfl

theorem writes (content : String) (handover : Handover) :
    Writes (.statement (handover.expr content)) (handover.tokens content) := by
  cases handover with
  | shows handing => exact .expression (.value (.term (.factor (handing.writes content))))
  | names name handing =>
      exact .declare .variable name (.value (.term (.factor (handing.writes content))))
  | renames name handing =>
      exact .assign name (.value (.term (.factor (handing.writes content))))
  | declares function param =>
      exact .declare .variable function
        (.function [param] (.bare (.value (.term (.factor (.identifier param))))))

theorem Fits.spells (fits : handover.Fits scope known later) (closed : '"' ∉ content.toList)
    (valid : ∀ entry ∈ known, isName entry.1.toList = true) :
    Spells (handover.tokens content) (handover.source content).toList := by
  have ended : Spells [] [] := .blank rfl
  have blank : [' '].all isLayout = true := rfl
  cases fits with
  | @shows handing knows => simpa [tokens, source] using knows.spells closed valid
  | @names name handing free knows =>
      have spells : Spells _ _ := .token [] (.keyword (.declare .variable)) rfl trivial <|
        .token [' '] (.name name) rfl free.valid <| .token [' '] .equals rfl trivial <|
        (knows.spells closed valid).indent blank
      simpa [tokens, source, Token.spelling, SymbolKind.word] using spells
  | @renames name handing member opens knows =>
      have spells : Spells _ _ := .token [] (.name name) rfl (valid _ member) <|
        .token [' '] .equals rfl trivial <| (knows.spells closed valid).indent blank
      simpa [tokens, source, Token.spelling] using spells
  | @declares function param free named =>
      have spells : Spells _ _ := .token [] (.keyword (.declare .variable)) rfl trivial <|
        .token [' '] (.name function) rfl free.valid <| .token [' '] .equals rfl trivial <|
        .token [' '] .leftParen rfl trivial <| .token [] (.name param) rfl named <|
        .token [] .rightParen rfl trivial <| .token [' '] .arrow rfl trivial <|
        .token [' '] (.name param) rfl named ended
      simpa [tokens, source, Token.spelling, SymbolKind.word] using spells

theorem int_not_mem (content : String) (handover : Handover) (digits : List Char) :
    .int digits ∉ handover.tokens content := by
  cases handover with
  | shows handing => exact handing.int_not_mem content digits
  | names name handing => simp [tokens, handing.int_not_mem content digits]
  | renames name handing => simp [tokens, handing.int_not_mem content digits]
  | declares function param => simp [tokens]

theorem Fits.parse (fits : handover.Fits scope known later) (closed : '"' ∉ content.toList)
    (valid : ∀ entry ∈ known, isName entry.1.toList = true) :
    parse (handover.source content) = .ok [handover.expr content] := by
  have printable : Printable [handover.expr content] :=
    ⟨List.cons_ne_nil _ _, List.forall_mem_singleton.2 (fits.printable closed valid)⟩
  exact parse_of_fitting printable (.last (handover.writes content)) (fits.spells closed valid)
    (intError?_eq_none fun digits member => absurd member (handover.int_not_mem content digits))

theorem Fits.begins (fits : handover.Fits scope known later)
    (valid : ∀ entry ∈ known, isName entry.1.toList = true) : Begins (handover.source content) := by
  have declaration : Begins "let " := ⟨'l', _, rfl, Or.inr rfl⟩
  cases fits with
  | shows knows => exact knows.begins valid
  | @names name handing _ _ =>
      simpa [source, String.append_assoc] using declaration.append _
  | @renames name handing member _ _ =>
      simpa [source, String.append_assoc] using (begins_of_isName (valid _ member)).append _
  | @declares function param _ _ =>
      simpa [source, String.append_assoc] using declaration.append _

end Handover

/-! Analysis -/

structure Scope.Covers (scope : Scope) (known : List (String × Role)) : Prop where
  assignable : ∀ entry ∈ known, scope.symbols.get? entry.1 = some .variable
  arities : ∀ entry ∈ known, entry.2 = .function → scope.arities.get? entry.1 = some 1

theorem Scope.Covers.contains {scope : Scope} (covers : scope.Covers known)
    {entry : String × Role} (member : entry ∈ known) :
    scope.symbols.contains entry.1 = true :=
  (Table.contains_iff_exists_get? _ _).2 ⟨_, covers.assignable entry member⟩

namespace Expr

variable {scope : Scope} {rhs : Expr} {name : String}

theorem check_declare (checked : rhs.check scope = (scope, .none)) (kind : SymbolKind)
    (undeclared : scope.symbols.contains name = false) :
    (declare kind name rhs).check scope = (scope.declare kind name rhs, .none) := by
  simp [check, checked, undeclared]

theorem check_assign (checked : rhs.check scope = (scope, .none))
    (assignable : scope.symbols.get? name = some .variable) :
    (assign name rhs).check scope = (scope.recordArity name rhs, ⟨[], [.reassigning name]⟩) := by
  simp [check, checked, Scope.checkTarget, assignable, Findings.append_none]

theorem check_function_identifier (param : String) (scope : Scope) :
    (function [param] [identifier param]).check scope = (scope, .none) := by
  have inside : (scope.enter [param]).symbols.contains param = true :=
    (Table.contains_set_iff _ _ _ _).2 (Or.inl rfl)
  rw [check, checkAll_singleton, check, Scope.checkIdentifier, if_pos inside]
  rfl

end Expr

theorem Handing.Known.check (content : String) {handing : Handing} (knows : handing.Known known)
    {scope : Scope} (covers : scope.Covers known) :
    (handing.expr content).check scope = (scope, .none) := by
  induction handing with
  | quoted => rfl
  | named name =>
      have declared := covers.contains knows
      simp [Handing.expr, Expr.check, Scope.checkIdentifier, declared]
  | called function inner ih =>
      have declared := covers.contains knows.1
      have arity := covers.arities _ knows.1 rfl
      rw [Handing.expr, Expr.check, Expr.checkAll_singleton, ih knows.2]
      simp [Scope.checkCallee, declared, arity, Findings.none_append]

namespace Scope.Covers

variable {scope : Scope} {name : String}

theorem recordArity (covers : scope.Covers known) (apart : (name, .function) ∉ known)
    (rhs : Expr) : (scope.recordArity name rhs).Covers known where
  assignable entry member := by
    rw [Scope.recordArity_symbols]
    exact covers.assignable entry member
  arities := by
    rintro ⟨query, role⟩ member rfl
    rw [Scope.get?_recordArity, if_neg]
    · exact covers.arities _ member rfl
    · rintro rfl
      exact apart member

theorem declare (covers : scope.Covers known) (unknown : ∀ role, (name, role) ∉ known)
    {rhs : Expr} {role : Role} (takesOne : role = .function → scope.arityOf? rhs = some 1) :
    (scope.declare .variable name rhs).Covers ((name, role) :: known) where
  assignable := by
    rintro ⟨query, other⟩ member
    rw [Scope.declare, Scope.recordArity_symbols, Table.get?_set]
    split
    · rfl
    · rename_i apart
      rcases List.mem_cons.1 member with same | earlier
      · exact absurd (congrArg Prod.fst same) apart
      · exact covers.assignable _ earlier
  arities := by
    rintro ⟨query, other⟩ member function
    rw [Scope.declare, Scope.get?_recordArity]
    rcases List.mem_cons.1 member with same | earlier
    · cases same
      rw [if_pos rfl]
      exact takesOne function
    · rw [if_neg]
      · exact covers.arities _ earlier function
      · rintro rfl
        exact unknown _ earlier

end Scope.Covers

end LetStack
