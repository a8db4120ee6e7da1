import LetStack.Proofs.Source.Joining

/-! The head of a function is read if and only if the tokens begin with one. -/

namespace LetStack

def moreParams (params : List String) : List Token := params.flatMap fun param => [.comma, .name param]

theorem paramTokens_cons (first : String) (params : List String) :
    paramTokens (first :: params) = .name first :: moreParams params := by
  induction params generalizing first with
  | nil => rfl
  | cons param more ih =>
      change Token.name first :: .comma :: paramTokens (param :: more) = _
      rw [ih]
      rfl

theorem length_moreParams (params : List String) : params.length ≤ (moreParams params).length := by
  induction params with
  | nil => exact Nat.le_refl 0
  | cons param more ih => exact Nat.le_succ_of_le (Nat.succ_le_succ ih)

theorem readMore_params (params : List String) (rest : List Token) : ∀ {fuel : Nat},
    params.length ≤ fuel → readMore readName fuel (moreParams params ++ .rightParen :: rest) =
      .ok (params, .rightParen :: rest) := by
  induction params with
  | nil =>
      intro fuel _
      cases fuel <;> rfl
  | cons param more ih =>
      intro fuel enough
      cases fuel with
      | zero => exact absurd enough (by simp)
      | succ fuel =>
          have tail := ih (Nat.le_of_succ_le_succ enough)
          have shape : moreParams (param :: more) = .comma :: .name param :: moreParams more := rfl
          simp only [shape, List.cons_append, readMore, readName, tail, bind, Except.bind]

theorem readHeader_params (params : List String) (rest : List Token) :
    readHeader (.leftParen :: (paramTokens params ++ .rightParen :: .arrow :: rest)) =
      .ok (params, rest) := by
  cases params with
  | nil => rfl
  | cons first params =>
      rw [paramTokens_cons]
      have enough : params.length ≤ (moreParams params ++ .rightParen :: .arrow :: rest).length := by
        have bound := length_moreParams params
        rw [List.length_append]
        omega
      have later := readMore_params params (.arrow :: rest) enough
      simp only [readHeader, readToken, if_true, List.cons_append, readListed, readName, later,
        bind, Except.bind]

theorem exists_of_bind_ok {α β ε : Type} {first : Except ε α} {next : α → Except ε β} {result : β}
    (done : first >>= next = .ok result) : ∃ value, first = .ok value ∧ next value = .ok result := by
  cases first with
  | error reason => cases done
  | ok value => exact ⟨value, rfl, done⟩

theorem readToken_ok {token : Token} {tokens rest : List Token}
    (read : readToken token tokens = .ok ((), rest)) : tokens = token :: rest := by
  cases tokens with
  | nil => cases read
  | cons first more =>
      by_cases same : first = token
      · simp only [readToken, same, if_true, Except.ok.injEq, Prod.mk.injEq, true_and] at read
        rw [same, read]
      · simp [readToken, same, stuckAt] at read

theorem readName_ok {tokens rest : List Token} {name : String}
    (read : readName tokens = .ok (name, rest)) : tokens = .name name :: rest := by
  unfold readName at read
  split at read
  · cases read
    rfl
  · cases read

theorem readMore_names {fuel : Nat} : ∀ {tokens rest : List Token} {params : List String},
    readMore readName fuel tokens = .ok (params, rest) → tokens = moreParams params ++ rest := by
  induction fuel with
  | zero =>
      intro tokens rest params read
      cases read
      rfl
  | succ fuel ih =>
      intro tokens rest params read
      unfold readMore at read
      split at read
      · rename_i less more same
        cases same
        obtain ⟨⟨first, later⟩, firstRead, read⟩ := exists_of_bind_ok read
        obtain ⟨⟨others, final⟩, moreRead, read⟩ := exists_of_bind_ok read
        cases read
        rw [readName_ok firstRead, ih moreRead]
        rfl
      · cases read
        rfl

theorem readHeader_ok {tokens rest : List Token} {params : List String}
    (read : readHeader tokens = .ok (params, rest)) :
    tokens = .leftParen :: (paramTokens params ++ .rightParen :: .arrow :: rest) := by
  obtain ⟨⟨_, inside⟩, opened, read⟩ := exists_of_bind_ok read
  obtain ⟨⟨listed, onward⟩, listRead, read⟩ := exists_of_bind_ok read
  obtain ⟨⟨_, final⟩, arrow, read⟩ := exists_of_bind_ok read
  cases read
  rw [readToken_ok opened]
  rw [readToken_ok arrow] at listRead
  unfold readListed at listRead
  split at listRead
  · cases listRead
    rfl
  · obtain ⟨⟨first, later⟩, firstRead, listRead⟩ := exists_of_bind_ok listRead
    obtain ⟨⟨others, closing⟩, moreRead, listRead⟩ := exists_of_bind_ok listRead
    obtain ⟨⟨_, last⟩, closed, listRead⟩ := exists_of_bind_ok listRead
    cases listRead
    rw [readToken_ok closed] at moreRead
    rw [readName_ok firstRead, readMore_names moreRead, paramTokens_cons]
    rfl

end LetStack
