import LetStack.Proofs.Source.Acceptance

/-!
Places in a text where a phrase may stand. Whatever text writes the phrase is read there as it is
read by itself: no token goes over the seams.
-/

namespace LetStack

theorem Spells.indent {tokens : List Token} {layout chars : List Char}
    (blank : layout.all isLayout = true) (spells : Spells tokens chars) :
    Spells tokens (layout ++ chars) := by
  cases spells with
  | blank more => exact .blank (by rw [List.all_append, blank, more]; rfl)
  | token between token more lexical later =>
      rw [← List.append_assoc]
      exact .token _ token (by rw [List.all_append, blank, more]; rfl) lexical later

theorem spells_append_iff {first second : List Token} {chars : List Char} :
    Spells (first ++ second) chars ↔
      ∃ left right, left ++ right = chars ∧ Spells first left ∧ Spells second right := by
  constructor
  · intro spells
    induction first generalizing chars with
    | nil => exact ⟨[], chars, rfl, .blank rfl, spells⟩
    | cons token rest ih =>
        cases spells with
        | token layout _ blank lexical later =>
            obtain ⟨left, right, rfl, spellsLeft, spellsRight⟩ := ih later
            exact ⟨_, right, by simp only [List.append_assoc],
              .token layout token blank lexical spellsLeft, spellsRight⟩
  · rintro ⟨left, right, rfl, spellsLeft, spellsRight⟩
    induction spellsLeft with
    | blank blank => exact spellsRight.indent blank
    | token layout token blank lexical _ ih =>
        simpa only [List.append_assoc, List.cons_append] using
          Spells.token layout token blank lexical ih

theorem intErrors_append {first second : List Token} :
    (first ++ second).findSome? intError? = none ↔
      first.findSome? intError? = none ∧ second.findSome? intError? = none := by
  simp only [List.findSome?_eq_none_iff, List.forall_mem_append]

def Phrase.SpelledBy (phrase : Phrase) (source : String) : Prop :=
  ∃ tokens, Writes phrase tokens ∧ Spells tokens source.toList ∧
    tokens.findSome? intError? = none ∧ phrase.Accepted

theorem parse_ok_iff {source : String} {program : List Expr} :
    parse source = .ok program ↔ (Phrase.statements program).SpelledBy source := by
  constructor
  · intro parsed
    obtain ⟨printable, tokens, writes, spells, valid⟩ := parse_accounts parsed
    exact ⟨tokens, writes, spells,
      List.findSome?_eq_none_iff.2 fun token member => (valid token member).fits, printable⟩
  · rintro ⟨tokens, writes, spells, fits, printable⟩
    exact parse_of_fitting printable writes spells fits

structure Surrounds {α : Type} (hole : α → Phrase) (fill : α → List Expr)
    (before after : List Token) : Prop where
  writes : ∀ {part : α} {tokens : List Token}, Writes (hole part) tokens →
    Writes (.statements (fill part)) (before ++ (tokens ++ after))
  accepted : ∀ {part : α}, (hole part).Accepted → (Phrase.statements (fill part)).Accepted

def Place {α : Type} (hole : α → Phrase) (fill : α → List Expr) (opening closing : String) : Prop :=
  ∃ before after, Surrounds hole fill before after ∧ Spells before opening.toList ∧
    Spells after closing.toList ∧ before.findSome? intError? = none ∧
    after.findSome? intError? = none

namespace Place

variable {α β : Type} {hole : α → Phrase} {fill : α → List Expr} {opening closing : String}

theorem spelledBy (place : Place hole fill opening closing) {part : α} {source : String}
    (spelled : (hole part).SpelledBy source) :
    (Phrase.statements (fill part)).SpelledBy (opening ++ source ++ closing) := by
  obtain ⟨before, after, surrounds, spellsBefore, spellsAfter, fitsBefore, fitsAfter⟩ := place
  obtain ⟨tokens, writes, spells, fits, accepted⟩ := spelled
  refine ⟨_, surrounds.writes writes, ?_, ?_, surrounds.accepted accepted⟩
  · have later := spells_append_iff.2 ⟨_, _, rfl, spells, spellsAfter⟩
    have whole := spells_append_iff.2 ⟨_, _, rfl, spellsBefore, later⟩
    simpa only [String.toList_append, List.append_assoc] using whole
  · exact intErrors_append.2 ⟨fitsBefore, intErrors_append.2 ⟨fits, fitsAfter⟩⟩

theorem parse (place : Place hole fill opening closing) {part : α} {source : String}
    (spelled : (hole part).SpelledBy source) :
    LetStack.parse (opening ++ source ++ closing) = .ok (fill part) :=
  parse_ok_iff.2 (place.spelledBy spelled)

theorem whole : Place .statements id "" "" := by
  refine ⟨[], [], ⟨fun writes => ?_, id⟩, .blank rfl, .blank rfl, rfl, rfl⟩
  rwa [List.append_nil]

theorem inside (place : Place hole fill opening closing) (inner : β → Phrase) (step : β → α)
    {before after : List Token} {left right : String}
    (writes : ∀ {part tokens}, Writes (inner part) tokens →
      Writes (hole (step part)) (before ++ (tokens ++ after)))
    (accepted : ∀ {part}, (inner part).Accepted → (hole (step part)).Accepted)
    (spellsLeft : Spells before left.toList) (spellsRight : Spells after right.toList)
    (fitsLeft : before.findSome? intError? = none)
    (fitsRight : after.findSome? intError? = none) :
    Place inner (fun part => fill (step part)) (opening ++ left) (right ++ closing) := by
  obtain ⟨earlier, later, surrounds, spellsEarlier, spellsLater, fitsEarlier, fitsLater⟩ := place
  refine ⟨earlier ++ before, after ++ later, ⟨fun written => ?_, fun taken => ?_⟩, ?_, ?_, ?_, ?_⟩
  · simpa only [List.append_assoc] using surrounds.writes (writes written)
  · exact surrounds.accepted (accepted taken)
  · rw [String.toList_append]
    exact spells_append_iff.2 ⟨_, _, rfl, spellsEarlier, spellsLeft⟩
  · rw [String.toList_append]
    exact spells_append_iff.2 ⟨_, _, rfl, spellsRight, spellsLater⟩
  · exact intErrors_append.2 ⟨fitsEarlier, fitsLeft⟩
  · exact intErrors_append.2 ⟨fitsRight, fitsLater⟩

theorem restrict (place : Place hole fill opening closing) (inner : β → Phrase) (step : β → α)
    (writes : ∀ {part tokens}, Writes (inner part) tokens → Writes (hole (step part)) tokens)
    (accepted : ∀ {part}, (inner part).Accepted → (hole (step part)).Accepted) :
    Place inner (fun part => fill (step part)) opening closing := by
  obtain ⟨before, after, surrounds, texts⟩ := place
  exact ⟨before, after, ⟨fun written => surrounds.writes (writes written),
    fun taken => surrounds.accepted (accepted taken)⟩, texts⟩

theorem only {fill : List Expr → List Expr} (place : Place .statements fill opening closing) :
    Place .statement (fun part => fill [part]) opening closing :=
  place.restrict .statement (fun part => [part]) .last fun accepted =>
    ⟨List.cons_ne_nil _ _, List.forall_mem_singleton.2 accepted⟩

theorem expression {fill : Expr → List Expr} (place : Place .statement fill opening closing) :
    Place .expr fill opening closing := place.restrict .expr id .expression And.left

theorem block {fill : List Expr → List Expr} (place : Place .body fill opening closing) :
    Place .statements fill (opening ++ "\x7b") ("\x7d" ++ closing) :=
  place.inside .statements id .block id (.token [] .leftBrace rfl trivial (.blank rfl))
    (.token [] .rightBrace rfl trivial (.blank rfl)) rfl rfl

theorem function {fill : Expr → List Expr} (place : Place .expr fill opening closing)
    {params : List String} {header : String}
    (spells : Spells (.leftParen :: (paramTokens params ++ [.rightParen, .arrow])) header.toList) :
    Place .body (fun body => fill (.function params body)) (opening ++ header) closing := by
  have fits : (Token.leftParen :: (paramTokens params ++ [.rightParen, .arrow])).findSome?
      intError? = none :=
    intError?_eq_none fun digits member => absurd member (by simp [int_not_mem_paramTokens])
  have named : ∀ param ∈ params, isName param.toList = true :=
    isName_of_paramTokens fun token member =>
      ⟨spells.lexical token (by simp [member]),
        List.findSome?_eq_none_iff.1 fits token (by simp [member])⟩
  have rule : ∀ {body tokens}, Writes (.body body) tokens → Writes (.expr (.function params body))
      (.leftParen :: (paramTokens params ++ [.rightParen, .arrow]) ++ (tokens ++ [])) :=
    fun writes => by simpa using Writes.function params writes
  have literal := place.inside .body (.function params) rule
    (fun accepted => ⟨.function named accepted.1 accepted.2, rfl⟩)
    spells (.blank rfl : Spells [] "".toList) fits rfl
  rwa [String.empty_append] at literal

end Place

end LetStack
