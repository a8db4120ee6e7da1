import LetStack.Proofs.Source.Headers

/-!
Readers read what the grammar writes. The induction is on a writing, for any tokens that may come
after it; where a level of operators groups to the left, it says what is left for the chain.
-/

namespace LetStack

/-- What may come after a phrase: nothing, an operator that is not its own, or what separates or
closes. -/
def follows (operators : Operator → Bool) : List Token → Bool
  | [] | .comma :: _ | .semicolon :: _ | .rightParen :: _ | .rightBrace :: _ => true
  | .operator operator :: _ => operators operator
  | _ => false

theorem follows_mono {fewer more : Operator → Bool}
    (included : ∀ operator, fewer operator = true → more operator = true) {rest : List Token}
    (after : follows fewer rest = true) : follows more rest = true := by
  cases rest with
  | nil => rfl
  | cons token rest =>
      cases token with
      | operator operator => exact included operator after
      | _ => exact after

theorem follows_of_closes {operators : Operator → Bool} {rest : List Token}
    (after : follows (fun _ => false) rest = true) : follows operators rest = true :=
  follows_mono (fun _ impossible => absurd impossible Bool.false_ne_true) after

theorem readChain_stops {joins : Operator → Bool} {operand : Reader Expr} {rest : List Token}
    (after : follows (fun operator => !joins operator) rest = true) (fuel : Nat) (left : Expr) :
    readChain joins operand fuel left rest = .ok (left, rest) := by
  cases fuel with
  | zero => rfl
  | succ fuel =>
      cases rest with
      | nil => rfl
      | cons token rest =>
          cases token with
          | operator operator =>
              have other : joins operator = false := by simpa [follows] using after
              simp only [readChain, other, Bool.false_eq_true, if_false]
          | _ => rfl

theorem readExpr_of_sum {depth : Nat} {tokens rest : List Token} {expr : Expr}
    (read : readSum (readExpr depth) tokens = .ok (expr, rest))
    (after : follows (fun _ => false) rest = true) :
    readExpr (depth + 1) tokens = .ok (expr, rest) := by
  have noHeader : ∀ params onward, readHeader tokens ≠ .ok (params, onward) := by
    intro params onward header
    have shape := readHeader_ok header
    subst shape
    cases depth with
    | zero => cases read
    | succ depth =>
        match params with
        | [] => cases read
        | [_] =>
            cases read
            cases after
        | _ :: _ :: _ => cases read
  change readExprWith (readExpr depth) tokens = _
  unfold readExprWith
  split
  · rename_i params onward header
    exact absurd header (noHeader params onward)
  · rw [read]

def Expr.ReadAs (tree result : Expr) : Prop := tree.Printable → result = tree

theorem Expr.ReadAs.binary {left right leftResult rightResult : Expr} (operator : Operator)
    (sameLeft : left.ReadAs leftResult) (sameRight : right.ReadAs rightResult) :
    (Expr.binary left operator right).ReadAs (.binary leftResult operator rightResult) := by
  intro printable
  cases printable with
  | binary _ printableLeft _ printableRight _ =>
      rw [sameLeft printableLeft, sameRight printableRight]

def ReadsEach (item : Reader Expr) (later : Nat → Reader (List Expr)) (tokens rest : List Token)
    (trees : List Expr) : Prop :=
  ∃ first onward more, item tokens = .ok (first, onward) ∧ onward.length ≤ tokens.length ∧
    (∀ fuel, onward.length ≤ fuel → later fuel onward = .ok (more, rest)) ∧
    ((∀ tree ∈ trees, tree.Printable) → first :: more = trees)

structure EndsAt (ends : List Token → Bool) (rest : List Token) : Prop where
  here : ends rest = true
  only : ∀ tokens, ends tokens = true → tokens = [] ∨ ∃ more, tokens = .rightBrace :: more

def Phrase.ReadFrom (scanned : List Token) : Phrase → Prop
  | .atom tree => ∀ (depth : Nat) (rest : List Token), scanned.length ≤ depth →
      follows (fun _ => true) rest = true → ∃ result,
        readAtom (readExpr depth) (scanned ++ rest) = .ok (result, rest) ∧ tree.ReadAs result
  | .product tree => ∀ (depth : Nat) (rest : List Token), scanned.length ≤ depth →
      follows (fun _ => true) rest = true → ∃ result fuel, rest.length ≤ fuel ∧
        readProduct (readExpr depth) (scanned ++ rest) =
          readChain Operator.isFactor (readAtom (readExpr depth)) fuel result rest ∧
        tree.ReadAs result
  | .sum tree => ∀ (depth : Nat) (rest : List Token), scanned.length ≤ depth →
      follows (fun operator => !operator.isFactor) rest = true → ∃ result fuel,
        rest.length ≤ fuel ∧ readSum (readExpr depth) (scanned ++ rest) =
          readChain (fun operator => !operator.isFactor) (readProduct (readExpr depth)) fuel
            result rest ∧
        tree.ReadAs result
  | .expr tree => ∀ (depth : Nat) (rest : List Token), scanned.length < depth →
      follows (fun _ => false) rest = true → ∃ result,
        readExpr depth (scanned ++ rest) = .ok (result, rest) ∧ tree.ReadAs result
  | .args trees => ∀ (depth : Nat) (rest : List Token), scanned.length < depth →
      ReadsEach (readExpr depth) (readMore (readExpr depth)) (scanned ++ .rightParen :: rest)
        (.rightParen :: rest) trees
  | .statement tree => ∀ (depth : Nat) (rest : List Token), scanned.length < depth →
      follows (fun _ => false) rest = true → ∃ result,
        readStatement (readExpr depth) (scanned ++ rest) = .ok (result, rest) ∧
        tree.ReadAs result
  | .statements trees => ∀ (depth : Nat) (ends : List Token → Bool) (rest : List Token),
      scanned.length < depth → EndsAt ends rest →
      ReadsEach (readStatement (readExpr depth)) (readStatements (readExpr depth) ends)
        (scanned ++ rest) rest trees
  | .body trees => ∀ (depth : Nat) (rest : List Token), scanned.length < depth →
      follows (fun _ => false) rest = true → ∃ results,
        readBody (readExpr depth) (scanned ++ rest) = .ok (results, rest) ∧
        ((∀ tree ∈ trees, tree.Printable) → results = trees)

section

variable {tokens rest : List Token} {trees : List Expr}

theorem readAtom_name {item : Reader Expr} (name : String)
    (after : follows (fun _ => true) rest = true) :
    readAtom item (.name name :: rest) = .ok (.identifier name, rest) := by
  cases rest with
  | nil => rfl
  | cons token rest =>
      cases token with
      | leftParen => cases after
      | _ => rfl

theorem ReadsEach.listed {depth : Nat}
    (each : ReadsEach (readExpr depth) (readMore (readExpr depth)) tokens (.rightParen :: rest)
      trees) : ∃ results, readListed (readExpr depth) tokens = .ok (results, rest) ∧
        ((∀ tree ∈ trees, tree.Printable) → results = trees) := by
  obtain ⟨first, onward, more, firstRead, _, later, same⟩ := each
  refine ⟨first :: more, ?_, same⟩
  unfold readListed
  split
  · cases depth <;> cases firstRead
  · simp only [firstRead, later _ (Nat.le_refl _), readToken, bind, Except.bind, if_true]

theorem ReadsEach.sequence {depth : Nat} {ends : List Token → Bool}
    (each : ReadsEach (readStatement (readExpr depth)) (readStatements (readExpr depth) ends) tokens
      rest trees) : ∃ results, readSequence (readExpr depth) ends tokens = .ok (results, rest) ∧
        ((∀ tree ∈ trees, tree.Printable) → results = trees) := by
  obtain ⟨first, onward, more, firstRead, _, later, same⟩ := each
  refine ⟨first :: more, ?_, same⟩
  simp only [readSequence, firstRead, later _ (Nat.le_refl _), bind, Except.bind]

theorem readStatement_of_readExpr {depth : Nat} {tree : Expr}
    (read : readExpr depth tokens = .ok (tree, rest))
    (after : follows (fun _ => false) rest = true) :
    readStatement (readExpr depth) tokens = .ok (tree, rest) := by
  unfold readStatement
  split
  · cases depth <;> cases read
  · cases depth with
    | zero => cases read
    | succ depth =>
        cases read
        cases after
  · cases depth with
    | zero => cases read
    | succ depth =>
        cases read
        cases after
  · exact read

theorem readBody_of_readExpr {depth : Nat} {tree : Expr}
    (read : readExpr depth tokens = .ok (tree, rest)) :
    readBody (readExpr depth) tokens = .ok ([tree], rest) := by
  unfold readBody
  split
  · cases depth <;> cases read
  · simp only [read, bind, Except.bind]

theorem EndsAt.cases {ends : List Token → Bool} (ending : EndsAt ends rest) :
    rest = [] ∨ ∃ more, rest = .rightBrace :: more := ending.only rest ending.here

theorem EndsAt.follows {ends : List Token → Bool} (ending : EndsAt ends rest) :
    follows (fun _ => false) rest = true := by
  rcases ending.cases with rfl | ⟨more, rfl⟩ <;> rfl

theorem EndsAt.readStatements {ends : List Token → Bool} (ending : EndsAt ends rest)
    {item : Reader Expr} (fuel : Nat) : readStatements item ends fuel rest = .ok ([], rest) := by
  rcases ending.cases with rfl | ⟨more, rfl⟩ <;> cases fuel <;> rfl

theorem endsAt_end : EndsAt List.isEmpty [] where
  here := rfl
  only := fun _ ended => Or.inl (List.isEmpty_iff.1 ended)

theorem endsAt_brace (rest : List Token) : EndsAt closesBlock (.rightBrace :: rest) where
  here := rfl
  only := by
    intro tokens ended
    unfold closesBlock at ended
    split at ended
    · exact Or.inr ⟨_, rfl⟩
    · cases ended

theorem splitDeclaration?_word (kind : SymbolKind) {name : List Char} (valid : isName name = true) :
    splitDeclaration? (String.ofList (kind.word ++ name)) = some (kind, String.ofList name) := by
  unfold splitDeclaration?
  rw [String.toList_ofList]
  cases kind <;> simp [SymbolKind.word, valid]

theorem opensDeclaration_of_split {word name : String} {kind : SymbolKind}
    (split : splitDeclaration? word = some (kind, name)) : isName name.toList = true ∧
      word.toList = kind.word ++ name.toList := by
  unfold splitDeclaration? at split
  split at split
  · rename_i rest shape
    split at split
    · rename_i valid
      cases split
      rw [String.toList_ofList]
      exact ⟨valid, shape⟩
    · cases split
  · rename_i rest shape
    split at split
    · rename_i valid
      cases split
      rw [String.toList_ofList]
      exact ⟨valid, shape⟩
    · cases split
  · cases split

end

/-! One lemma for each rule of the grammar: how its phrase is read if its parts are read so. -/

namespace Phrase.ReadFrom

variable {scanned first second : List Token} {tree left right : Expr} {trees : List Expr}

theorem call (inner : (args trees).ReadFrom scanned) (callee : String) :
    (atom (.call callee trees)).ReadFrom
      (.name callee :: .leftParen :: (scanned ++ [.rightParen])) := by
  intro depth rest enough _
  simp only [List.length_cons, List.length_append] at enough
  obtain ⟨results, listed, same⟩ := (inner depth rest (by omega)).listed
  refine ⟨.call callee results, ?_, ?_⟩
  · simp only [List.cons_append, List.append_assoc, List.nil_append, readAtom, listed, bind,
      Except.bind]
  · intro printable
    cases printable with
    | call _ each _ => rw [same each]

theorem paren (inner : (expr tree).ReadFrom scanned) :
    (atom tree).ReadFrom (.leftParen :: (scanned ++ [.rightParen])) := by
  intro depth rest enough _
  simp only [List.length_cons, List.length_append] at enough
  obtain ⟨result, read, same⟩ := inner depth (.rightParen :: rest) (by omega) rfl
  refine ⟨result, ?_, same⟩
  simp only [List.cons_append, List.append_assoc, List.nil_append, readAtom, read, readToken,
    if_true, bind, Except.bind]

theorem factor (inner : (atom tree).ReadFrom scanned) : (product tree).ReadFrom scanned := by
  intro depth rest enough after
  obtain ⟨result, read, same⟩ := inner depth rest enough after
  refine ⟨result, rest.length, Nat.le_refl _, ?_, same⟩
  simp only [readProduct, read, bind, Except.bind]

theorem multiply {operator : Operator} (isFactor : operator.isFactor = true)
    (lefts : (product left).ReadFrom first) (rights : (atom right).ReadFrom second) :
    (product (.binary left operator right)).ReadFrom (first ++ .operator operator :: second) := by
  intro depth rest enough after
  simp only [List.length_cons, List.length_append] at enough
  obtain ⟨leftResult, fuel, fueled, readLeft, sameLeft⟩ :=
    lefts depth (.operator operator :: (second ++ rest)) (by omega) rfl
  obtain ⟨rightResult, readRight, sameRight⟩ := rights depth rest (by omega) after
  simp only [List.length_cons, List.length_append] at fueled
  obtain ⟨fuel, rfl⟩ : ∃ fewer, fuel = fewer + 1 := ⟨fuel - 1, by omega⟩
  refine ⟨.binary leftResult operator rightResult, fuel, by omega, ?_, ?_⟩
  · rw [List.append_assoc, List.cons_append, readLeft]
    simp only [readChain, isFactor, if_true, readRight, bind, Except.bind]
  · exact sameLeft.binary operator sameRight

theorem term (inner : (product tree).ReadFrom scanned) : (sum tree).ReadFrom scanned := by
  intro depth rest enough after
  obtain ⟨result, fuel, _, read, same⟩ :=
    inner depth rest enough (follows_mono (fun _ _ => rfl) after)
  refine ⟨result, rest.length, Nat.le_refl _, ?_, same⟩
  simp only [readSum, read, readChain_stops after, bind, Except.bind]

theorem add {operator : Operator} (notFactor : operator.isFactor = false)
    (lefts : (sum left).ReadFrom first) (rights : (product right).ReadFrom second) :
    (sum (.binary left operator right)).ReadFrom (first ++ .operator operator :: second) := by
  intro depth rest enough after
  simp only [List.length_cons, List.length_append] at enough
  obtain ⟨leftResult, fuel, fueled, readLeft, sameLeft⟩ :=
    lefts depth (.operator operator :: (second ++ rest)) (by omega) (by simp [follows, notFactor])
  obtain ⟨rightResult, chained, _, readRight, sameRight⟩ :=
    rights depth rest (by omega) (follows_mono (fun _ _ => rfl) after)
  simp only [List.length_cons, List.length_append] at fueled
  obtain ⟨fuel, rfl⟩ : ∃ fewer, fuel = fewer + 1 := ⟨fuel - 1, by omega⟩
  refine ⟨.binary leftResult operator rightResult, fuel, by omega, ?_, ?_⟩
  · rw [List.append_assoc, List.cons_append, readLeft]
    simp only [readChain, notFactor, Bool.not_false, if_true, readRight, readChain_stops after,
      bind, Except.bind]
  · exact sameLeft.binary operator sameRight

theorem value (inner : (sum tree).ReadFrom scanned) : (expr tree).ReadFrom scanned := by
  intro depth rest enough after
  obtain ⟨depth, rfl⟩ : ∃ fewer, depth = fewer + 1 := ⟨depth - 1, by omega⟩
  obtain ⟨result, fuel, _, read, same⟩ := inner depth rest (by omega) (follows_of_closes after)
  refine ⟨result, readExpr_of_sum ?_ after, same⟩
  rw [read, readChain_stops (follows_of_closes after)]

theorem function (params : List String) (inner : (body trees).ReadFrom scanned) :
    (expr (.function params trees)).ReadFrom
      (.leftParen :: (paramTokens params ++ .rightParen :: .arrow :: scanned)) := by
  intro depth rest enough after
  simp only [List.length_cons, List.length_append] at enough
  obtain ⟨depth, rfl⟩ : ∃ fewer, depth = fewer + 1 := ⟨depth - 1, by omega⟩
  obtain ⟨results, read, same⟩ := inner depth rest (by omega) after
  refine ⟨.function params results, ?_, ?_⟩
  · simp only [List.cons_append, List.append_assoc, readExpr, readExprWith, readHeader_params,
      read, bind, Except.bind]
  · intro printable
    cases printable with
    | function _ _ each => rw [same each]

theorem arg (inner : (expr tree).ReadFrom scanned) : (args [tree]).ReadFrom scanned := by
  intro depth rest enough
  obtain ⟨result, read, same⟩ := inner depth (.rightParen :: rest) enough rfl
  refine ⟨result, .rightParen :: rest, [], read, by simp, ?_, ?_⟩
  · intro fuel _
    cases fuel <;> rfl
  · intro each
    rw [same (each _ List.mem_cons_self)]

theorem moreArgs (firsts : (expr tree).ReadFrom first) (others : (args trees).ReadFrom second) :
    (args (tree :: trees)).ReadFrom (first ++ .comma :: second) := by
  intro depth rest enough
  simp only [List.length_cons, List.length_append] at enough
  obtain ⟨result, read, same⟩ :=
    firsts depth (.comma :: (second ++ .rightParen :: rest)) (by omega) rfl
  obtain ⟨next, onward, more, readNext, shorter, later, sameRest⟩ := others depth rest (by omega)
  refine ⟨result, .comma :: (second ++ .rightParen :: rest), next :: more, ?_, by simp, ?_, ?_⟩
  · rw [List.append_assoc, List.cons_append, read]
  · intro fuel fueled
    simp only [List.length_cons] at fueled
    obtain ⟨fuel, rfl⟩ : ∃ fewer, fuel = fewer + 1 := ⟨fuel - 1, by omega⟩
    simp only [readMore, readNext, later fuel (by omega), bind, Except.bind]
  · intro each
    rw [same (each _ List.mem_cons_self),
      sameRest fun tree member => each tree (List.mem_cons_of_mem _ member)]

theorem declare (kind : SymbolKind) (name : String) (inner : (expr tree).ReadFrom scanned) :
    (statement (.declare kind name tree)).ReadFrom
      (.keyword (.declare kind) :: .name name :: .equals :: scanned) := by
  intro depth rest enough after
  simp only [List.length_cons] at enough
  obtain ⟨result, read, same⟩ := inner depth rest (by omega) after
  refine ⟨.declare kind name result, ?_, ?_⟩
  · simp only [List.cons_append, readStatement, readName, readEquals, read, bind, Except.bind]
  · intro printable
    cases printable with
    | declare _ _ printable _ => rw [same printable]

theorem declareWord {word name : String} {kind : SymbolKind}
    (split : splitDeclaration? word = some (kind, name)) (inner : (expr tree).ReadFrom scanned) :
    (statement (.declare kind name tree)).ReadFrom (.name word :: .equals :: scanned) := by
  intro depth rest enough after
  simp only [List.length_cons] at enough
  obtain ⟨result, read, same⟩ := inner depth rest (by omega) after
  refine ⟨.declare kind name result, ?_, ?_⟩
  · simp only [List.cons_append, readStatement, read, bindingOf, split, bind, Except.bind]
  · intro printable
    cases printable with
    | declare _ _ printable _ => rw [same printable]

theorem assign (name : String) (inner : (expr tree).ReadFrom scanned) :
    (statement (.assign name tree)).ReadFrom (.name name :: .equals :: scanned) := by
  intro depth rest enough after
  simp only [List.length_cons] at enough
  obtain ⟨result, read, same⟩ := inner depth rest (by omega) after
  refine ⟨bindingOf name result, ?_, ?_⟩
  · simp only [List.cons_append, readStatement, read, bind, Except.bind]
  · intro printable
    cases printable with
    | assign _ clear printable _ =>
        rw [same printable, bindingOf]
        split
        · rename_i kind rest split
          exact absurd ⟨kind, _, opensDeclaration_of_split split⟩ clear
        · rfl

theorem expression (inner : (expr tree).ReadFrom scanned) : (statement tree).ReadFrom scanned := by
  intro depth rest enough after
  obtain ⟨result, read, same⟩ := inner depth rest enough after
  exact ⟨result, readStatement_of_readExpr read after, same⟩

theorem last (inner : (statement tree).ReadFrom scanned) :
    (statements [tree]).ReadFrom scanned := by
  intro depth ends rest enough ending
  obtain ⟨result, read, same⟩ := inner depth rest enough ending.follows
  refine ⟨result, rest, [], read, by simp, ?_, ?_⟩
  · intro fuel _
    exact ending.readStatements fuel
  · intro each
    rw [same (each _ List.mem_cons_self)]

theorem trailing (inner : (statement tree).ReadFrom scanned) :
    (statements [tree]).ReadFrom (scanned ++ [.semicolon]) := by
  intro depth ends rest enough ending
  simp only [List.length_append, List.length_cons] at enough
  obtain ⟨result, read, same⟩ := inner depth (.semicolon :: rest) (by omega) rfl
  refine ⟨result, .semicolon :: rest, [], ?_, by simp, ?_, ?_⟩
  · rw [List.append_assoc, List.cons_append, List.nil_append, read]
  · intro fuel fueled
    simp only [List.length_cons] at fueled
    obtain ⟨fuel, rfl⟩ : ∃ fewer, fuel = fewer + 1 := ⟨fuel - 1, by omega⟩
    simp only [readStatements, ending.here, if_true]
  · intro each
    rw [same (each _ List.mem_cons_self)]

theorem moreStatements (firsts : (statement tree).ReadFrom first)
    (others : (statements trees).ReadFrom second) :
    (statements (tree :: trees)).ReadFrom (first ++ .semicolon :: second) := by
  intro depth ends rest enough ending
  simp only [List.length_cons, List.length_append] at enough
  obtain ⟨result, read, same⟩ := firsts depth (.semicolon :: (second ++ rest)) (by omega) rfl
  obtain ⟨next, onward, more, readNext, shorter, later, sameRest⟩ :=
    others depth ends rest (by omega) ending
  have further : ends (second ++ rest) = false := by
    rw [← Bool.not_eq_true]
    intro ended
    rcases ending.only _ ended with empty | ⟨_, closing⟩
    · rw [empty] at readNext
      cases depth <;> cases readNext
    · rw [closing] at readNext
      cases depth <;> cases readNext
  refine ⟨result, .semicolon :: (second ++ rest), next :: more, ?_, by simp, ?_, ?_⟩
  · rw [List.append_assoc, List.cons_append, read]
  · intro fuel fueled
    simp only [List.length_cons] at fueled
    obtain ⟨fuel, rfl⟩ : ∃ fewer, fuel = fewer + 1 := ⟨fuel - 1, by omega⟩
    simp only [readStatements, further, Bool.false_eq_true, if_false, readNext,
      later fuel (by omega), bind, Except.bind]
  · intro each
    rw [same (each _ List.mem_cons_self),
      sameRest fun tree member => each tree (List.mem_cons_of_mem _ member)]

theorem bare (inner : (expr tree).ReadFrom scanned) : (body [tree]).ReadFrom scanned := by
  intro depth rest enough after
  obtain ⟨result, read, same⟩ := inner depth rest enough after
  refine ⟨[result], readBody_of_readExpr read, ?_⟩
  intro each
  rw [same (each _ List.mem_cons_self)]

theorem block (inner : (statements trees).ReadFrom scanned) :
    (body trees).ReadFrom (.leftBrace :: (scanned ++ [.rightBrace])) := by
  intro depth rest enough _
  simp only [List.length_cons, List.length_append] at enough
  obtain ⟨results, read, same⟩ :=
    (inner depth closesBlock (.rightBrace :: rest) (by omega) (endsAt_brace rest)).sequence
  refine ⟨results, ?_, same⟩
  simp only [List.cons_append, List.append_assoc, List.nil_append, readBody, read, readToken,
    if_true, bind, Except.bind]

end Phrase.ReadFrom

/-- What the scanner makes of the tokens of a phrase is read as that phrase. -/
theorem Writes.read {phrase : Phrase} {tokens : List Token} (writes : Writes phrase tokens) :
    ∀ {scanned : List Token}, Joined tokens scanned → phrase.ReadFrom scanned := by
  induction writes with
  | int digits =>
      rintro _ (_ | ⟨_, _ | _⟩) depth rest _ _
      rw [← digitsValue_eq_baseTen]
      exact ⟨_, rfl, fun _ => rfl⟩
  | float _ _ | bool _ | text _ =>
      rintro _ (_ | ⟨_, _ | _⟩) depth rest _ _
      exact ⟨_, rfl, fun _ => rfl⟩
  | identifier name =>
      rintro _ (_ | ⟨_, _ | _⟩) depth rest _ after
      exact ⟨_, readAtom_name name after, fun _ => rfl⟩
  | callNothing callee =>
      rintro _ (_ | ⟨_, _ | ⟨_, _ | ⟨_, _ | _⟩⟩⟩) depth rest _ _
      exact ⟨_, rfl, fun _ => rfl⟩
  | call callee _ ih =>
      rintro _ (_ | ⟨_, _ | ⟨_, joined⟩⟩)
      obtain ⟨inside, _, rfl, inner, _ | _⟩ := joined.split rfl rfl
      exact (ih inner).call callee
  | paren _ ih =>
      rintro _ (_ | ⟨_, joined⟩)
      obtain ⟨inside, _, rfl, inner, _ | _⟩ := joined.split rfl rfl
      exact (ih inner).paren
  | factor _ ih => exact fun joined => (ih joined).factor
  | product isFactor _ _ ihLeft ihRight =>
      intro _ joined
      obtain ⟨first, second, rfl, joinedLeft, joinedRight⟩ := joined.split rfl rfl
      exact (ihLeft joinedLeft).multiply isFactor (ihRight joinedRight)
  | term _ ih => exact fun joined => (ih joined).term
  | sum notFactor _ _ ihLeft ihRight =>
      intro _ joined
      obtain ⟨first, second, rfl, joinedLeft, joinedRight⟩ := joined.split rfl rfl
      exact (ihLeft joinedLeft).add notFactor (ihRight joinedRight)
  | value _ ih => exact fun joined => (ih joined).value
  | function params _ ih =>
      rintro _ (_ | ⟨_, joined⟩)
      obtain ⟨named, _, rfl, joinedParams, _ | ⟨_, joinedBody⟩⟩ := joined.split rfl rfl
      rw [Joined.eq_of_params params joinedParams]
      exact (ih joinedBody).function params
  | arg _ ih => exact fun joined => (ih joined).arg
  | args _ _ ihFirst ihRest =>
      intro _ joined
      obtain ⟨first, second, rfl, joinedFirst, joinedRest⟩ := joined.split rfl rfl
      exact (ihFirst joinedFirst).moreArgs (ihRest joinedRest)
  | declare kind name _ ih =>
      rintro _ (_ | ⟨_, _ | ⟨_, _ | ⟨_, joined⟩⟩⟩ | ⟨_, valid, _ | ⟨_, joined⟩⟩)
      · exact (ih joined).declare kind name
      · have split := splitDeclaration?_word kind valid
        rw [String.ofList_toList] at split
        exact (ih joined).declareWord split
  | assign name _ ih =>
      rintro _ (_ | ⟨_, _ | ⟨_, joined⟩⟩)
      exact (ih joined).assign name
  | expression _ ih => exact fun joined => (ih joined).expression
  | last _ ih => exact fun joined => (ih joined).last
  | trailing _ ih =>
      intro _ joined
      obtain ⟨inside, _, rfl, inner, _ | _⟩ := joined.split rfl rfl
      exact (ih inner).trailing
  | statements _ _ ihFirst ihRest =>
      intro _ joined
      obtain ⟨first, second, rfl, joinedFirst, joinedRest⟩ := joined.split rfl rfl
      exact (ihFirst joinedFirst).moreStatements (ihRest joinedRest)
  | bare _ ih => exact fun joined => (ih joined).bare
  | block _ ih =>
      rintro _ (_ | ⟨_, joined⟩)
      obtain ⟨inside, _, rfl, inner, _ | _⟩ := joined.split rfl rfl
      exact (ih inner).block

end LetStack
