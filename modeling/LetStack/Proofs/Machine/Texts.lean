import LetStack.Proofs.Machine.Literals
import LetStack.Proofs.Text.RoundTrip

/-!
Bytes are nowhere but on heaps, and pointers lead to nothing else. Texts are shown as such, and no
answer is a pointer.
-/

namespace LetStack

inductive Value.IsScalar : Value → Prop
  | int (value : Int) : IsScalar (.int value)
  | float (value : Float) : IsScalar (.float value)
  | bool (value : Bool) : IsScalar (.bool value)

/-- A value that is no pointer, or a pointer to bytes. The environment of a closure is such that
every entry points to bytes before it, if at all, and no name stands for bytes; the literals of its
body are scalars. -/
inductive Value.PointsToBytes : List Value → Value → Prop
  | int (heap : List Value) (value : Int) : PointsToBytes heap (.int value)
  | float (heap : List Value) (value : Float) : PointsToBytes heap (.float value)
  | bool (heap : List Value) (value : Bool) : PointsToBytes heap (.bool value)
  | bytes (heap : List Value) (content : List UInt8) : PointsToBytes heap (.bytes content)
  | pointer {heap : List Value} {address : Nat} {content : List UInt8} :
      heap[address]? = some (.bytes content) → PointsToBytes heap (.pointer address)
  | closure {params : List String} {body : List Instr} {env : Environment} (heap : List Value) :
      LiteralsIn IsScalar body →
      (∀ index value, env.heap[index]? = some value → PointsToBytes (env.heap.take index) value) →
      (∀ name address, env.symbols.get? name = some address → ∃ (place : Nat) (value : Value),
        address = place ∧ env.heap[place]? = some value ∧ ∀ content, value ≠ .bytes content) →
      PointsToBytes heap (.closure params body env)

def Placement.texts : Placement where
  fits heap value := value.PointsToBytes heap
  loose value := ∀ content, value ≠ .bytes content
  binds heap address := ∃ (place : Nat) (value : Value),
    address = place ∧ heap[place]? = some value ∧ ∀ content, value ≠ .bytes content

theorem Value.PointsToBytes.pointer_iff {heap : List Value} {address : Nat} :
    (Value.pointer address).PointsToBytes heap ↔
      ∃ content, heap[address]? = some (.bytes content) := by
  constructor
  · intro points
    cases points with
    | pointer found => exact ⟨_, found⟩
  · rintro ⟨content, found⟩
    exact .pointer found

theorem Value.eq_bytes_of_kind {value : Value} {content : List UInt8}
    (same : value.kind = (bytes content).kind) : ∃ other, value = .bytes other := by
  cases value with
  | bytes other => exact ⟨other, rfl⟩
  | _ => simp [kind] at same

theorem Placement.texts_lawful : texts.Lawful where
  fits_grown := by
    intro heap longer value points grown
    cases points with
    | pointer found => exact .pointer (getElem?_of_grown grown found)
    | closure _ literals entries names => exact .closure longer literals entries names
    | _ => constructor
  binds_grown := by
    rintro heap longer address ⟨place, value, same, found, notBytes⟩ grown
    exact ⟨place, value, same, getElem?_of_grown grown found, notBytes⟩
  fits_anywhere := by
    intro heap value points plain other
    cases points with
    | pointer _ => exact absurd rfl (plain _)
    | closure _ literals entries names => exact .closure other literals entries names
    | _ => constructor
  fits_copied := by
    intro heap other address place entry copy points found copied sameKind
    obtain ⟨content, bytes⟩ := Value.PointsToBytes.pointer_iff.1 points
    rw [bytes, Option.some.injEq] at found
    subst found
    obtain ⟨taken, rfl⟩ := Value.eq_bytes_of_kind sameKind
    exact .pointer copied
  fits_bytes := .bytes
  fits_allocated := .pointer
  admits_result := by
    intro operator left right result applied heap
    rcases operator.apply_ok applied with ⟨value, rfl, _⟩ | ⟨value, rfl⟩
    · exact ⟨.int heap value, nofun⟩
    · exact ⟨.float heap value, nofun⟩
  loose_of_not_bytes notBytes := notBytes
  binds_new heap value notBytes := ⟨heap.length, value, rfl, List.getElem?_concat_length, notBytes⟩
  loose_of_binds := by
    rintro env address value ⟨place, other, rfl, found, notBytes⟩ loaded
    rw [Environment.load?_natCast, found, Option.some.injEq] at loaded
    exact loaded ▸ notBytes

theorem Placement.texts_carries : texts.Carries Value.IsScalar where
  lawful := texts_lawful
  literal := by
    intro value scalar heap
    cases scalar with
    | int number => exact ⟨.int heap number, nofun⟩
    | float number => exact ⟨.float heap number, nofun⟩
    | bool truth => exact ⟨.bool heap truth, nofun⟩
  closure_iff := by
    intro params body env heap
    constructor
    · intro points
      cases points with
      | closure _ literals entries names => exact ⟨literals, entries, names⟩
    · rintro ⟨literals, entries, names⟩
      exact .closure heap literals entries names

theorem scalars_of_compileAll (program : List Expr) :
    LiteralsIn Value.IsScalar (Expr.compileAll program) := by
  apply literalsIn_compileAll
  intro expr _ literal value _ compiled
  cases literal with
  | text content => cases compiled
  | int number => cases compiled; exact .int number
  | float number => cases compiled; exact .float number
  | bool truth => cases compiled; exact .bool truth

/-- The states between runs of compiled programs, in which a run has left off or faulted, its answer
is taken or the stack is emptied for the next. -/
inductive State.Arises : State → Prop
  | empty : Arises ⟨[], .empty⟩
  | ran {depth : Nat} {program : List Expr} {before after : State} {fault : Option Fault} :
      Arises before → Ends depth (Expr.compileAll program) before fault after → Arises after
  | answered {state : State} : Arises state → Arises state.takeAnswer.2
  | emptied {state : State} : Arises state → Arises ⟨[], state.env⟩

theorem State.Arises.texts {state : State} (arises : state.Arises) : state.Placed .texts := by
  induction arises with
  | empty => exact State.Placed.empty
  | ran _ ends ih => exact ends.placed Placement.texts_carries ih (scalars_of_compileAll _)
  | answered _ ih => exact ih.takeAnswer Placement.texts_lawful
  | emptied _ ih =>
      exact ih.drop Placement.texts_lawful List.prefix_rfl ih.env (List.nil_subset _)

theorem State.Placed.answer_of_texts {state : State} {value : Value} (placed : state.Placed .texts)
    (answered : state.takeAnswer.1 = .ok (.value value)) :
    (∀ address, value ≠ .pointer address) ∧ ∀ content, value ≠ .bytes content := by
  rcases takeAnswer_value answered with ⟨member, notPointer⟩ | ⟨address, member, found, notBytes⟩
  · exact ⟨notPointer, (placed.stack value member).2⟩
  · obtain ⟨content, bytes⟩ := Value.PointsToBytes.pointer_iff.1 (placed.stack _ member).1
    rw [found, Option.some.injEq] at bytes
    exact absurd bytes (notBytes content)

/-- Between runs, at every point of one, and after every instruction there, be it with a fault: what a
pointer leads to is bytes, and bytes are neither on the stack nor behind a name. So no run answers with
either. -/
theorem pointers_lead_to_bytes (state : State) (program : List Expr) (arises : state.Arises) :
    state.Placed .texts ∧
    (∀ later before, Reaches (Expr.compileAll program) state later before →
      before.Placed .texts ∧
      ∀ instr rest depth fault after, later = instr :: rest →
        instr.Acts depth before fault after → after.Placed .texts) ∧
    ∀ depth ended, run depth (Expr.compileAll program) state.env = some ended →
      ended.state.Arises ∧ ∀ value, ended.answer = .ok (.value value) →
        (∀ address, value ≠ .pointer address) ∧ ∀ content, value ≠ .bytes content := by
  have carries := Placement.texts_carries
  have scalars := scalars_of_compileAll program
  refine ⟨arises.texts, ?_, ?_⟩
  · intro later before reached
    obtain ⟨placed, literals⟩ := reached.placed carries arises.texts scalars
    refine ⟨placed, ?_⟩
    rintro instr rest depth fault after rfl acts
    exact acts.placed_of_literals carries (fun ran => ran.placed carries) placed literals
  · intro depth ended ran
    obtain ⟨after, ⟨ends, answer, last⟩ | ⟨fault, ends, answer, last⟩⟩ := run_cases ran
    · have arisesAfter := State.Arises.ran arises.emptied ends
      refine ⟨last ▸ arisesAfter.answered, ?_⟩
      intro value answered
      exact arisesAfter.texts.answer_of_texts (answer ▸ answered)
    · refine ⟨last ▸ State.Arises.ran arises.emptied ends, ?_⟩
      intro value answered
      rw [answer] at answered
      cases answered

def handsText : List Expr :=
  [.declare .variable "s" (.literal (.text "hi")),
    .declare .variable "g" (.function ["p"]
      [.assign "s" (.identifier "p"), .binary (.literal (.int 1)) .div (.literal (.int 0))]),
    .call "g" [.literal (.text "ho")]]

theorem pointers_lead_to_bytes_merged : ∃ state : State, state.Arises ∧
    Ends 2 (Expr.compileAll handsText) ⟨[], .empty⟩ (some .divisionByZero) state ∧
    state.env.heap[5]? = some (.pointer 4) ∧ state.env.symbols.get? "s" = some 5 ∧
    state.Placed .texts ∧
    ∃ ended, run 1 (Expr.compileAll [.identifier "s"]) state.env = some ended ∧
      ended.answer = .ok (.text "\"ho\"") ∧ ended.state.Arises := by
  have ends : Ends 2 (Expr.compileAll handsText) ⟨[], .empty⟩ (some .divisionByZero) _ :=
    ⟨_, _, rfl⟩
  have arises := State.Arises.ran .empty ends
  have inPlace := pointers_lead_to_bytes _ [.identifier "s"] arises
  have shown : (.ok (.text ("\"" ++ bytesText (encodeUtf8 "ho".toList) ++ "\"")) :
      Except Fault Answer) = .ok (.text "\"ho\"") := by
    rw [bytesText_encodeUtf8]
    rfl
  exact ⟨_, arises, ends, rfl, rfl, inPlace.1, _, rfl, shown, (inPlace.2.2 1 _ rfl).1⟩

end LetStack
