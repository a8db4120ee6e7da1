import LetStack.Proofs.Source.Scanning

/-!
The tokens of a writing. No two words or numbers stand side by side but a declaring keyword and the
name that it declares, and only these can be joined by the scanner.
-/

namespace LetStack

theorem isChain_around (first : List Token) {second : List Token} {between : Token}
    (apart : between.isWordlike = false) (left : first.IsChain Token.Beside)
    (right : second.IsChain Token.Beside) :
    (first ++ between :: second).IsChain Token.Beside := by
  refine List.isChain_append.2 ⟨left, List.isChain_cons.2 ⟨?_, right⟩, ?_⟩
  · intro next _ wordlike
    rw [apart] at wordlike
    cases wordlike
  · intro last _ next head _ wordlike
    rw [List.head?_cons, Option.mem_some_iff] at head
    rw [← head, apart] at wordlike
    cases wordlike

theorem isChain_closed {tokens : List Token} {opening closing : Token}
    (opens : opening.isWordlike = false) (closes : closing.isWordlike = false)
    (chain : tokens.IsChain Token.Beside) :
    (opening :: (tokens ++ [closing])).IsChain Token.Beside :=
  isChain_around [] opens .nil (isChain_around tokens closes chain .nil)

theorem isChain_paramTokens (params : List String) :
    (paramTokens params).IsChain Token.Beside := by
  induction params with
  | nil => exact .nil
  | cons param rest ih =>
      cases rest with
      | nil => exact .singleton _
      | cons next more => exact isChain_around [.name param] rfl (.singleton _) ih

theorem Writes.isChain {phrase : Phrase} {tokens : List Token} (writes : Writes phrase tokens) :
    tokens.IsChain Token.Beside := by
  induction writes with
  | int _ => exact .singleton _
  | float _ _ => exact .singleton _
  | bool _ => exact .singleton _
  | text _ => exact .singleton _
  | identifier _ => exact .singleton _
  | callNothing callee =>
      exact isChain_around [.name callee] rfl (.singleton _) (.singleton _)
  | @call callee _ _ _ ih =>
      exact isChain_around [.name callee] rfl (.singleton _)
        (isChain_around _ rfl ih .nil)
  | paren _ ih => exact isChain_closed rfl rfl ih
  | product _ _ _ left right => exact isChain_around _ rfl left right
  | sum _ _ _ left right => exact isChain_around _ rfl left right
  | @function params _ _ _ ih =>
      exact isChain_around [] rfl .nil (isChain_around _ rfl (isChain_paramTokens params)
        (isChain_around [] rfl .nil ih))
  | args _ _ first rest => exact isChain_around _ rfl first rest
  | @declare kind name _ _ _ ih =>
      have named : List.IsChain Token.Beside [.keyword (.declare kind), .name name] :=
        List.isChain_cons_cons.2 ⟨fun _ _ => ⟨kind, name, rfl, rfl⟩, .singleton _⟩
      exact isChain_around _ rfl named ih
  | @assign name _ _ _ ih => exact isChain_around [.name name] rfl (.singleton _) ih
  | trailing _ ih => exact isChain_around _ rfl ih .nil
  | statements _ _ first rest => exact isChain_around _ rfl first rest
  | block _ ih => exact isChain_closed rfl rfl ih
  | factor _ ih | term _ ih | value _ ih | arg _ ih | expression _ ih | last _ ih | bare _ ih =>
      exact ih

theorem Joined.split {between : Token} (apart : between.isWordlike = false)
    {second tokens scanned : List Token} (joined : Joined tokens scanned) :
    ∀ {first : List Token}, tokens = first ++ between :: second → ∃ left right,
      scanned = left ++ between :: right ∧ Joined first left ∧ Joined second right := by
  induction joined with
  | nil => exact fun shape => absurd shape (by simp)
  | @same tokens scanned token joined ih =>
      intro first shape
      cases first with
      | nil =>
          obtain ⟨rfl, rfl⟩ := List.cons.inj shape
          exact ⟨[], scanned, rfl, .nil, joined⟩
      | cons head rest =>
          obtain ⟨rfl, later⟩ := List.cons.inj shape
          obtain ⟨left, right, rfl, before, after⟩ := ih later
          exact ⟨token :: left, right, rfl, .same token before, after⟩
  | @glued tokens scanned name kind isName joined ih =>
      intro first shape
      -- What is between is neither the keyword nor the name.
      match first with
      | [] =>
          rw [← (List.cons.inj shape).1] at apart
          cases apart
      | [_] =>
          rw [← (List.cons.inj (List.cons.inj shape).2).1] at apart
          cases apart
      | _ :: _ :: rest =>
          obtain ⟨rfl, tail⟩ := List.cons.inj shape
          obtain ⟨rfl, later⟩ := List.cons.inj tail
          obtain ⟨left, right, rfl, before, after⟩ := ih later
          exact ⟨_ :: left, right, rfl, .glued kind isName before, after⟩

theorem Joined.append {first second left right : List Token} (joined : Joined first left)
    (joinedToo : Joined second right) : Joined (first ++ second) (left ++ right) := by
  induction joined with
  | nil => exact joinedToo
  | same token _ ih => exact .same token ih
  | glued kind isName _ ih => exact .glued kind isName ih

theorem Joined.eq_of_params (params : List String) : ∀ {scanned : List Token},
    Joined (paramTokens params) scanned → scanned = paramTokens params := by
  induction params with
  | nil =>
      rintro scanned ⟨⟩
      rfl
  | cons param rest ih =>
      intro scanned joined
      cases rest with
      | nil =>
          obtain _ | ⟨_, joined⟩ := joined
          cases joined
          rfl
      | cons next more =>
          obtain _ | ⟨_, joined⟩ := joined
          obtain _ | ⟨_, joined⟩ := joined
          rw [ih joined]
          rfl

theorem Joined.refl (tokens : List Token) : Joined tokens tokens := by
  induction tokens with
  | nil => exact .nil
  | cons token rest ih => exact .same token ih

theorem Joined.intError? {tokens scanned : List Token} (joined : Joined tokens scanned) :
    scanned.findSome? LetStack.intError? = tokens.findSome? LetStack.intError? := by
  induction joined with
  | nil => rfl
  | same token _ ih => simp only [List.findSome?_cons, ih]
  | glued kind _ _ ih => exact ih

end LetStack
