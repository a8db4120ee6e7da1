import LetStack.Proofs.Source.Parsing

/-!
Nothing is read that was not written. What a reader takes from its tokens writes what it gives, and
what it gives is printable if the tokens are such as terminals match and no number is too large.
-/

namespace LetStack

structure Token.Valid (token : Token) : Prop where
  lexical : token.Lexical
  fits : intError? token = none

theorem Token.Valid.int_fits {digits : List Char} (valid : (Token.int digits).Valid) :
    digits.length ≤ intDigitLimit ∧ (baseTen digits : Int) ≤ intMax :=
  intError?_int_iff.1 valid.fits

def Phrase.Accepted : Phrase → Prop
  | .atom tree | .product tree | .sum tree | .expr tree => tree.Printable ∧ tree.isBinding = false
  | .args trees => ∀ tree ∈ trees, tree.Printable ∧ tree.isBinding = false
  | .statement tree => tree.Printable
  | .statements trees | .body trees => trees ≠ [] ∧ ∀ tree ∈ trees, tree.Printable

def Accounted (phrase : Phrase) (scanned rest : List Token) : Prop :=
  ∃ used tokens, scanned = used ++ rest ∧ Joined tokens used ∧ Writes phrase tokens ∧
    phrase.Accepted

def Reader.Accounts {α : Type} (reader : Reader α) (phrase : α → Phrase) : Prop :=
  ∀ (scanned rest : List Token) (result : α), (∀ token ∈ scanned, token.Valid) →
    reader scanned = .ok (result, rest) → Accounted (phrase result) scanned rest

namespace Accounted

variable {phrase first second : Phrase} {scanned middle rest : List Token}

theorem valid (accounted : Accounted phrase scanned rest)
    (valid : ∀ token ∈ scanned, token.Valid) : ∀ token ∈ rest, token.Valid := by
  obtain ⟨used, _, rfl, _⟩ := accounted
  exact fun token member => valid token (List.mem_append_right used member)

theorem map (accounted : Accounted first scanned rest)
    (rule : ∀ tokens, Writes first tokens → Writes phrase tokens)
    (accepted : first.Accepted → phrase.Accepted) : Accounted phrase scanned rest := by
  obtain ⟨used, tokens, rfl, joined, writes, accepts⟩ := accounted
  exact ⟨used, tokens, rfl, joined, rule tokens writes, accepted accepts⟩

theorem around {between : Token} (left : Accounted first scanned (between :: middle))
    (right : Accounted second middle rest)
    (rule : ∀ tokens others, Writes first tokens → Writes second others →
      Writes phrase (tokens ++ between :: others))
    (accepted : first.Accepted → second.Accepted → phrase.Accepted) :
    Accounted phrase scanned rest := by
  obtain ⟨used, tokens, rfl, joined, writes, accepts⟩ := left
  obtain ⟨usedToo, others, rfl, joinedToo, writesToo, acceptsToo⟩ := right
  exact ⟨used ++ between :: usedToo, tokens ++ between :: others, by simp,
    joined.append (joinedToo.same between), rule _ _ writes writesToo, accepted accepts acceptsToo⟩

theorem behind (opening : List Token) (accounted : Accounted first scanned rest)
    (rule : ∀ tokens, Writes first tokens → Writes phrase (opening ++ tokens))
    (accepted : first.Accepted → phrase.Accepted) :
    Accounted phrase (opening ++ scanned) rest := by
  obtain ⟨used, tokens, rfl, joined, writes, accepts⟩ := accounted
  exact ⟨opening ++ used, opening ++ tokens, by simp, (Joined.refl opening).append joined,
    rule tokens writes, accepted accepts⟩

theorem within (opening : List Token) {closing : Token}
    (accounted : Accounted first scanned (closing :: rest))
    (rule : ∀ tokens, Writes first tokens → Writes phrase (opening ++ (tokens ++ [closing])))
    (accepted : first.Accepted → phrase.Accepted) :
    Accounted phrase (opening ++ scanned) rest := by
  obtain ⟨used, tokens, rfl, joined, writes, accepts⟩ := accounted
  exact ⟨opening ++ (used ++ [closing]), opening ++ (tokens ++ [closing]), by simp,
    (Joined.refl opening).append (joined.append (Joined.refl [closing])), rule tokens writes,
    accepted accepts⟩

theorem closed {closing : Token} (accounted : Accounted first scanned (closing :: rest))
    (rule : ∀ tokens, Writes first tokens → Writes phrase (tokens ++ [closing]))
    (accepted : first.Accepted → phrase.Accepted) : Accounted phrase scanned rest := by
  obtain ⟨used, tokens, rfl, joined, writes, accepts⟩ := accounted
  exact ⟨used ++ [closing], tokens ++ [closing], by simp, joined.append (Joined.refl [closing]),
    rule tokens writes, accepted accepts⟩

theorem args {tree : Expr} {others : List Expr} {onward : List Token}
    (accounted : Accounted (.expr tree) scanned onward)
    (more : (others = [] ∧ onward = rest) ∨
      ∃ after, onward = .comma :: after ∧ Accounted (.args others) after rest) :
    Accounted (.args (tree :: others)) scanned rest := by
  rcases more with ⟨rfl, rfl⟩ | ⟨after, rfl, later⟩
  · exact accounted.map (fun _ => .arg) fun accepted _ member =>
      List.mem_singleton.1 member ▸ accepted
  · exact accounted.around later (fun _ _ => .args) fun accepted each =>
      List.forall_mem_cons.2 ⟨accepted, each⟩

theorem statements {tree : Expr} {others : List Expr} {onward : List Token}
    (accounted : Accounted (.statement tree) scanned onward)
    (more : (others = [] ∧ (onward = rest ∨ onward = .semicolon :: rest)) ∨
      ∃ after, onward = .semicolon :: after ∧ Accounted (.statements others) after rest) :
    Accounted (.statements (tree :: others)) scanned rest := by
  have alone : (Phrase.statement tree).Accepted → (Phrase.statements [tree]).Accepted :=
    fun accepted => ⟨List.cons_ne_nil _ _, fun _ member => List.mem_singleton.1 member ▸ accepted⟩
  rcases more with ⟨rfl, rfl | rfl⟩ | ⟨after, rfl, later⟩
  · exact accounted.map (fun _ => .last) alone
  · exact accounted.closed (fun _ => .trailing) alone
  · exact accounted.around later (fun _ _ => .statements) fun accepted each =>
      ⟨List.cons_ne_nil _ _, List.forall_mem_cons.2 ⟨accepted, each.2⟩⟩

end Accounted

section

variable {expr : Reader Expr}

theorem readMore_accounts (accounts : expr.Accounts .expr) {fuel : Nat} :
    ∀ {scanned rest : List Token} {more : List Expr}, (∀ token ∈ scanned, token.Valid) →
      readMore expr fuel scanned = .ok (more, rest) → (more = [] ∧ scanned = rest) ∨
        ∃ onward, scanned = .comma :: onward ∧ Accounted (.args more) onward rest := by
  induction fuel with
  | zero =>
      intro scanned rest more _ read
      cases read
      exact Or.inl ⟨rfl, rfl⟩
  | succ fuel ih =>
      intro scanned rest more valid read
      unfold readMore at read
      split at read
      · rename_i less onward same
        cases same
        obtain ⟨⟨tree, later⟩, firstRead, read⟩ := exists_of_bind_ok read
        obtain ⟨⟨others, final⟩, moreRead, read⟩ := exists_of_bind_ok read
        cases read
        have first := accounts onward later tree
          (fun token member => valid token (List.mem_cons_of_mem _ member)) firstRead
        have valid := first.valid fun token member => valid token (List.mem_cons_of_mem _ member)
        exact Or.inr ⟨onward, rfl, first.args (ih valid moreRead)⟩
      · cases read
        exact Or.inl ⟨rfl, rfl⟩

theorem readListed_accounts (accounts : expr.Accounts .expr) {scanned rest : List Token}
    {args : List Expr} (valid : ∀ token ∈ scanned, token.Valid)
    (read : readListed expr scanned = .ok (args, rest)) :
    (args = [] ∧ scanned = .rightParen :: rest) ∨
      Accounted (.args args) scanned (.rightParen :: rest) := by
  unfold readListed at read
  split at read
  · cases read
    exact Or.inl ⟨rfl, rfl⟩
  · obtain ⟨⟨tree, later⟩, firstRead, read⟩ := exists_of_bind_ok read
    obtain ⟨⟨others, closing⟩, moreRead, read⟩ := exists_of_bind_ok read
    obtain ⟨⟨_, final⟩, closed, read⟩ := exists_of_bind_ok read
    cases read
    rw [readToken_ok closed] at moreRead
    have first := accounts _ _ _ valid firstRead
    exact Or.inr (first.args (readMore_accounts accounts (first.valid valid) moreRead))

theorem readAtom_accounts (accounts : expr.Accounts .expr) :
    (readAtom expr).Accounts .atom := by
  have single : ∀ {token : Token} {tree : Expr} {rest : List Token},
      Writes (.atom tree) [token] → tree.Printable ∧ tree.isBinding = false →
      Accounted (.atom tree) (token :: rest) rest :=
    fun {token} _ _ writes accepted => ⟨[token], [token], rfl, Joined.refl _, writes, accepted⟩
  intro scanned rest result valid read
  have here := fun token tail (shape : scanned = token :: tail) =>
    valid token (shape ▸ List.mem_cons_self)
  unfold readAtom at read
  split at read
  · rename_i digits more
    cases read
    have bound := (here _ _ rfl).int_fits.2
    rw [digitsValue_eq_baseTen]
    exact single (.int digits) ⟨.literal ⟨Int.natCast_nonneg _, bound⟩, rfl⟩
  · cases read
    exact single (.float _ _) ⟨.literal trivial, rfl⟩
  · cases read
    exact single (.bool _) ⟨.literal trivial, rfl⟩
  · cases read
    exact single (.text _) ⟨.literal (here _ _ rfl).lexical, rfl⟩
  · rename_i name more
    obtain ⟨⟨args, onward⟩, listed, read⟩ := exists_of_bind_ok read
    cases read
    have named : isName name.toList = true := (here _ _ rfl).lexical
    have validInside : ∀ token ∈ more, token.Valid := fun token member =>
      valid token (List.mem_cons_of_mem _ (List.mem_cons_of_mem _ member))
    rcases readListed_accounts accounts validInside listed with ⟨rfl, rfl⟩ | inside
    · exact ⟨[.name name, .leftParen, .rightParen], _, rfl, Joined.refl _, .callNothing name,
        .call named nofun nofun, rfl⟩
    · exact inside.within [.name name, .leftParen] (fun _ => .call name) fun each =>
        ⟨.call named (fun arg member => (each arg member).1) fun arg member =>
          (each arg member).2, rfl⟩
  · rename_i name more _
    cases read
    exact single (.identifier _) ⟨.identifier (here _ _ rfl).lexical, rfl⟩
  · rename_i more
    obtain ⟨⟨inner, onward⟩, innerRead, read⟩ := exists_of_bind_ok read
    obtain ⟨⟨_, final⟩, closed, read⟩ := exists_of_bind_ok read
    cases read
    rw [readToken_ok closed] at innerRead
    have inside := accounts more _ _
      (fun token member => valid token (List.mem_cons_of_mem _ member)) innerRead
    exact inside.within [.leftParen] (fun _ => .paren) id
  · cases read

theorem readChain_accounts {joins : Operator → Bool} {operand : Reader Expr}
    {level below : Expr → Phrase}
    (operands : operand.Accounts below)
    (rule : ∀ {operator left right first second}, joins operator = true →
      Writes (level left) first → Writes (below right) second →
      Writes (level (.binary left operator right)) (first ++ .operator operator :: second))
    (levels : ∀ tree, (level tree).Accepted ↔ tree.Printable ∧ tree.isBinding = false)
    (belows : ∀ tree, (below tree).Accepted ↔ tree.Printable ∧ tree.isBinding = false)
    {fuel : Nat} : ∀ {left result : Expr} {scanned middle rest : List Token},
      (∀ token ∈ scanned, token.Valid) → Accounted (level left) scanned middle →
      readChain joins operand fuel left middle = .ok (result, rest) →
      Accounted (level result) scanned rest := by
  induction fuel with
  | zero =>
      intro left result scanned middle rest _ accounted read
      cases read
      exact accounted
  | succ fuel ih =>
      intro left result scanned middle rest valid accounted read
      unfold readChain at read
      split at read
      · rename_i less operator onward same
        cases same
        split at read
        · rename_i joined
          obtain ⟨⟨right, later⟩, rightRead, read⟩ := exists_of_bind_ok read
          have validMiddle := accounted.valid valid
          have operand := operands onward later right
            (fun token member => validMiddle token (List.mem_cons_of_mem _ member)) rightRead
          refine ih valid (accounted.around operand (fun _ _ leftWrites rightWrites =>
            rule joined leftWrites rightWrites) ?_) read
          intro leftAccepted rightAccepted
          obtain ⟨leftPrintable, leftPlain⟩ := (levels _).1 leftAccepted
          obtain ⟨rightPrintable, rightPlain⟩ := (belows _).1 rightAccepted
          exact (levels _).2
            ⟨.binary operator leftPrintable leftPlain rightPrintable rightPlain, rfl⟩
        · cases read
          exact accounted
      · cases read
        exact accounted

theorem readProduct_accounts (accounts : expr.Accounts .expr) :
    (readProduct expr).Accounts .product := by
  intro scanned rest result valid read
  obtain ⟨⟨tree, onward⟩, firstRead, read⟩ := exists_of_bind_ok read
  have atoms := readAtom_accounts accounts
  have first := (atoms _ _ _ valid firstRead).map (fun _ => Writes.factor) id
  exact readChain_accounts atoms .product (fun _ => Iff.rfl) (fun _ => Iff.rfl) valid first read

theorem readSum_accounts (accounts : expr.Accounts .expr) : (readSum expr).Accounts .sum := by
  intro scanned rest result valid read
  obtain ⟨⟨tree, onward⟩, firstRead, read⟩ := exists_of_bind_ok read
  have products := readProduct_accounts accounts
  have first := (products _ _ _ valid firstRead).map (fun _ => Writes.term) id
  refine readChain_accounts products (fun joined => .sum ?_) (fun _ => Iff.rfl) (fun _ => Iff.rfl)
    valid first read
  simpa using joined

theorem readEquals_ok {tokens rest : List Token} (read : readEquals tokens = .ok ((), rest)) :
    tokens = .equals :: rest := by
  unfold readEquals at read
  split at read
  · cases read
    rfl
  · cases read
  · cases read

theorem binding_accounts {word : String} {rhs : Expr} {scanned rest : List Token}
    (named : isName word.toList = true) (accounted : Accounted (.expr rhs) scanned rest) :
    Accounted (.statement (bindingOf word rhs)) (.name word :: .equals :: scanned) rest := by
  cases split : splitDeclaration? word with
  | none =>
      have clear : ¬ OpensDeclaration word := by
        rintro ⟨kind, name, valid, shape⟩
        have declares := splitDeclaration?_word kind valid
        rw [← shape, String.ofList_toList, split] at declares
        cases declares
      simp only [bindingOf, split]
      exact accounted.behind [.name word, .equals] (fun _ => .assign word) fun accepted =>
        .assign named clear accepted.1 accepted.2
  | some declared =>
      obtain ⟨kind, name⟩ := declared
      obtain ⟨valid, shape⟩ := opensDeclaration_of_split split
      obtain ⟨used, tokens, rfl, joined, writes, printable, plain⟩ := accounted
      simp only [bindingOf, split]
      refine ⟨.name word :: .equals :: used, .keyword (.declare kind) :: .name name :: .equals ::
        tokens, rfl, ?_, .declare kind name writes, .declare kind valid printable plain⟩
      have glued := Joined.glued kind valid (joined.same .equals)
      rwa [← shape, String.ofList_toList] at glued

theorem readStatement_accounts (accounts : expr.Accounts .expr) :
    (readStatement expr).Accounts .statement := by
  intro scanned rest result valid read
  unfold readStatement at read
  split at read
  · rename_i kind more
    obtain ⟨⟨name, afterName⟩, nameRead, read⟩ := exists_of_bind_ok read
    obtain ⟨⟨_, afterEquals⟩, equalsRead, read⟩ := exists_of_bind_ok read
    obtain ⟨⟨rhs, final⟩, rhsRead, read⟩ := exists_of_bind_ok read
    cases read
    rw [readEquals_ok equalsRead] at nameRead
    rw [readName_ok nameRead] at valid ⊢
    have named : isName name.toList = true := (valid (.name name) (by simp)).lexical
    have rhs := accounts afterEquals _ rhs (fun token member => valid token (by simp [member])) rhsRead
    exact rhs.behind [.keyword (.declare kind), .name name, .equals] (fun _ => .declare kind name)
      fun accepted => .declare kind named accepted.1 accepted.2
  · rename_i word more
    obtain ⟨⟨rhs, final⟩, rhsRead, read⟩ := exists_of_bind_ok read
    cases read
    have named : isName word.toList = true := (valid (.name word) (by simp)).lexical
    exact binding_accounts named
      (accounts more _ rhs (fun token member => valid token (by simp [member])) rhsRead)
  · cases read
  · exact (accounts _ _ _ valid read).map (fun _ => .expression) fun accepted => accepted.1

theorem readStatements_accounts (accounts : expr.Accounts .expr) (ends : List Token → Bool)
    {fuel : Nat} : ∀ {scanned rest : List Token} {more : List Expr},
      (∀ token ∈ scanned, token.Valid) →
      readStatements expr ends fuel scanned = .ok (more, rest) →
      (more = [] ∧ (scanned = rest ∨ scanned = .semicolon :: rest)) ∨
        ∃ onward, scanned = .semicolon :: onward ∧ Accounted (.statements more) onward rest := by
  induction fuel with
  | zero =>
      intro scanned rest more _ read
      cases read
      exact Or.inl ⟨rfl, Or.inl rfl⟩
  | succ fuel ih =>
      intro scanned rest more valid read
      unfold readStatements at read
      split at read
      · rename_i less onward same
        cases same
        split at read
        · cases read
          exact Or.inl ⟨rfl, Or.inr rfl⟩
        · obtain ⟨⟨tree, later⟩, firstRead, read⟩ := exists_of_bind_ok read
          obtain ⟨⟨others, final⟩, moreRead, read⟩ := exists_of_bind_ok read
          cases read
          have validOnward : ∀ token ∈ onward, token.Valid :=
            fun token member => valid token (List.mem_cons_of_mem _ member)
          have first := readStatement_accounts accounts _ _ _ validOnward firstRead
          exact Or.inr ⟨onward, rfl, first.statements (ih (first.valid validOnward) moreRead)⟩
      · cases read
        exact Or.inl ⟨rfl, Or.inl rfl⟩

theorem readSequence_accounts (accounts : expr.Accounts .expr) (ends : List Token → Bool) :
    (readSequence expr ends).Accounts .statements := by
  intro scanned rest result valid read
  obtain ⟨⟨tree, onward⟩, firstRead, read⟩ := exists_of_bind_ok read
  obtain ⟨⟨others, final⟩, moreRead, read⟩ := exists_of_bind_ok read
  cases read
  have first := readStatement_accounts accounts _ _ _ valid firstRead
  exact first.statements (readStatements_accounts accounts ends (first.valid valid) moreRead)

theorem readBody_accounts (accounts : expr.Accounts .expr) : (readBody expr).Accounts .body := by
  intro scanned rest result valid read
  unfold readBody at read
  split at read
  · rename_i more
    obtain ⟨⟨body, onward⟩, bodyRead, read⟩ := exists_of_bind_ok read
    obtain ⟨⟨_, final⟩, closed, read⟩ := exists_of_bind_ok read
    cases read
    rw [readToken_ok closed] at bodyRead
    have inside := readSequence_accounts accounts closesBlock more _ _
      (fun token member => valid token (List.mem_cons_of_mem _ member)) bodyRead
    exact inside.within [.leftBrace] (fun _ => .block) id
  · obtain ⟨⟨tree, onward⟩, bodyRead, read⟩ := exists_of_bind_ok read
    cases read
    exact (accounts _ _ _ valid bodyRead).map (fun _ => .bare) fun accepted =>
      ⟨List.cons_ne_nil _ _, fun _ member => List.mem_singleton.1 member ▸ accepted.1⟩

theorem isName_of_paramTokens {params : List String}
    (valid : ∀ token ∈ paramTokens params, token.Valid) :
    ∀ param ∈ params, isName param.toList = true := by
  intro param member
  refine (valid (.name param) ?_).lexical
  cases params with
  | nil => exact absurd member List.not_mem_nil
  | cons first more =>
      rw [paramTokens_cons]
      rcases List.mem_cons.1 member with rfl | later
      · exact List.mem_cons_self
      · exact List.mem_cons_of_mem _ (List.mem_flatMap.2 ⟨param, later, by simp⟩)

end

theorem readExpr_accounts (depth : Nat) : (readExpr depth).Accounts .expr := by
  induction depth with
  | zero =>
      intro scanned rest result _ read
      cases read
  | succ depth ih =>
      intro scanned rest result valid read
      change readExprWith (readExpr depth) scanned = _ at read
      unfold readExprWith at read
      split at read
      · rename_i params onward header
        obtain ⟨⟨body, final⟩, bodyRead, read⟩ := exists_of_bind_ok read
        cases read
        rw [readHeader_ok header] at valid ⊢
        have named : ∀ param ∈ params, isName param.toList = true :=
          isName_of_paramTokens fun token member => valid token (by simp [member])
        have inside := readBody_accounts ih onward rest body
          (fun token member => valid token (by simp [member])) bodyRead
        have rule : ∀ tokens, Writes (.body body) tokens → Writes (.expr (.function params body))
            ((.leftParen :: (paramTokens params ++ [.rightParen, .arrow])) ++ tokens) :=
          fun tokens writes => by simpa using Writes.function params writes
        have whole := inside.behind _ rule fun accepted =>
          ⟨.function named accepted.1 accepted.2, rfl⟩
        simpa using whole
      · split at read
        · rename_i sumRead
          cases read
          exact (readSum_accounts ih _ _ _ valid sumRead).map (fun _ => .value) id
        · cases read

theorem readProgram_accounts {scanned : List Token} {program : List Expr}
    (valid : ∀ token ∈ scanned, token.Valid) (read : readProgram scanned = .ok program) :
    Accounted (.statements program) scanned [] := by
  obtain ⟨⟨result, rest⟩, sequence, read⟩ := exists_of_bind_ok read
  simp only at read
  split at read
  · rename_i done
    cases read
    subst done
    exact readSequence_accounts (readExpr_accounts _) _ _ _ _ valid sequence
  · cases read

end LetStack
