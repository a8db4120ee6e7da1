import LetStack.Proofs.Machine.Arithmetic
import LetStack.Proofs.Machine.Contents
import LetStack.Proofs.Machine.Literals
import LetStack.Proofs.Schema.Reading
import LetStack.Proofs.Session.Submissions
import LetStack.Proofs.Source.Acceptance

/-!
Whole numbers stay within 32 bits. The machine checks only what arithmetic gives; what programs write
has been checked when they were read.
-/

namespace LetStack

/-- A value whose whole numbers take 32 bits with their sign: those of a closure are in its body and
on its heap. -/
inductive Value.IntsFit : Value → Prop
  | int {number : Int} : -2147483648 ≤ number → number ≤ 2147483647 → IntsFit (.int number)
  | float (number : Float) : IntsFit (.float number)
  | bool (truth : Bool) : IntsFit (.bool truth)
  | pointer (address : Nat) : IntsFit (.pointer address)
  | bytes (content : List UInt8) : IntsFit (.bytes content)
  | closure {params : List String} {body : List Instr} {env : Environment} :
      (∀ value, Pushes value body → IntsFit value) → (∀ value ∈ env.heap, IntsFit value) →
      IntsFit (.closure params body env)

theorem Value.intsFit_coversMade : CoversMade IntsFit where
  pointer := .pointer
  bytes := .bytes
  result := by
    intro operator left right result applied
    rcases operator.apply_ok applied with ⟨number, rfl, fits⟩ | ⟨number, rfl⟩
    · obtain ⟨lower, upper⟩ := fitsInt_iff.1 fits
      exact .int lower upper
    · exact .float number

theorem Placement.intsFit_carries : (everywhere Value.IntsFit).Carries Value.IntsFit where
  lawful := lawful_everywhere Value.intsFit_coversMade
  literal fits _ := ⟨fits, trivial⟩
  closure_iff := by
    intro params body env heap
    rw [Environment.placed_everywhere_iff]
    constructor
    · intro fits
      cases fits with
      | closure literals entries => exact ⟨literals, entries⟩
    · rintro ⟨literals, entries⟩
      exact .closure literals entries

theorem Expr.Printable.fits {expr : Expr} {number : Int} (printable : expr.Printable)
    (has : expr.HasLiteral (.int number)) : -2147483648 ≤ number ∧ number ≤ 2147483647 := by
  induction has with
  | here =>
      cases printable with
      | literal bounds =>
          obtain ⟨lower, upper⟩ := bounds
          rw [intMax] at upper
          exact ⟨by omega, by omega⟩
  | declare _ ih => cases printable with | declare _ _ rhs _ => exact ih rhs
  | assign _ ih => cases printable with | assign _ _ rhs _ => exact ih rhs
  | left _ ih => cases printable with | binary _ left _ _ _ => exact ih left
  | right _ ih => cases printable with | binary _ _ _ right _ => exact ih right
  | body member _ ih => cases printable with | function _ _ parts => exact ih (parts _ member)
  | arg member _ ih => cases printable with | call _ args _ => exact ih (args _ member)

def Expr.Vetted (expr : Expr) : Prop :=
  (∃ datum, Expr.read datum = .ok expr) ∨
  (∃ (kind : ExprKind) (datum : Datum),
    datum.readNamed kind.name (Expr.readFields kind) = .ok expr) ∨
  ∃ source program, parse source = .ok program ∧ expr ∈ program

theorem Expr.Vetted.fits {expr : Expr} {number : Int} (vetted : expr.Vetted)
    (has : expr.HasLiteral (.int number)) : -2147483648 ≤ number ∧ number ≤ 2147483647 := by
  rcases vetted with ⟨datum, read⟩ | ⟨kind, datum, named⟩ | ⟨source, program, parsed, member⟩
  · exact Expr.fits_of_read read number has
  · obtain ⟨fields, read⟩ := Datum.readNamed_ok named
    exact Expr.fits_of_readFields read number has
  · exact ((parse_accounts parsed).1.2 expr member).fits has

theorem literalsIn_of_vetted {program : List Expr} (vetted : ∀ expr ∈ program, expr.Vetted) :
    LiteralsIn Value.IntsFit (Expr.compileAll program) := by
  apply literalsIn_compileAll
  intro expr member literal value has compiled
  cases literal with
  | text content => cases compiled
  | float number => cases compiled; exact .float number
  | bool truth => cases compiled; exact .bool truth
  | int number =>
      cases compiled
      obtain ⟨lower, upper⟩ := (vetted expr member).fits has
      exact .int lower upper

namespace Session

inductive Fed : Session → Prop
  | empty : Fed .empty
  | submit {session after : Session} {program : List Expr} {outcome : Outcome} : Fed session →
      (∀ expr ∈ program, expr.Vetted) → session.Submits program outcome after → Fed after
  | evaluate {session after : Session} {source : String} {outcome : Outcome} : Fed session →
      session.Gives source outcome after → Fed after

variable {session : Session} {program : List Expr}

theorem start_placed (fits : ∀ value ∈ session.env.heap, value.IntsFit) :
    State.Placed (.everywhere Value.IntsFit) ⟨[], session.env⟩ :=
  State.placed_everywhere_iff.2 ⟨by simp, fits⟩

theorem Submits.heap_fits {after : Session} {outcome : Outcome}
    (submits : session.Submits program outcome after) (vetted : ∀ expr ∈ program, expr.Vetted)
    (fits : ∀ value ∈ session.env.heap, value.IntsFit) :
    ∀ value ∈ after.env.heap, value.IntsFit := by
  by_cases clean : (Expr.checkAll program session.scope).2.isClean = true
  · obtain ⟨depth, fault, last, ends, _, rfl⟩ := (submits_of_clean clean).1 submits
    have placed := ends.placed Placement.intsFit_carries (start_placed fits)
      (literalsIn_of_vetted vetted)
    exact (State.placed_everywhere_iff.1 placed).heap
  · obtain ⟨_, rfl⟩ := (submits_of_unclean clean).1 submits
    exact fits

theorem Fed.heap_fits (fed : session.Fed) : ∀ value ∈ session.env.heap, value.IntsFit := by
  induction fed with
  | empty => exact nofun
  | submit _ vetted submits ih => exact submits.heap_fits vetted ih
  | evaluate _ gives ih =>
      obtain ⟨depth, evaluation, evaluated, _, rfl⟩ := gives
      rcases evaluate_cases evaluated with same | ⟨program, parsed, submitted⟩
      · rw [same]
        exact ih
      · have submits : Submits _ program evaluation.outcome evaluation.session :=
          ⟨depth, evaluation, submitted, rfl, rfl⟩
        exact submits.heap_fits
          (fun expr member => Or.inr (Or.inr ⟨_, program, parsed, member⟩)) ih

end Session

/-- In a session of texts and vetted programs, whole numbers take 32 bits: in the session, at each point
of a further run in its state and in the code that is left, after each instruction there, be it with a
fault, and when the run has ended. -/
theorem integers_stay_in_range (session : Session) (program : List Expr) (fed : session.Fed)
    (vetted : ∀ expr ∈ program, expr.Vetted) :
    (∀ value ∈ session.env.heap, value.IntsFit) ∧
    (∀ later state, Reaches (Expr.compileAll program) ⟨[], session.env⟩ later state →
      LiteralsIn Value.IntsFit later ∧ state.Holds Value.IntsFit ∧
      ∀ instr rest depth fault after, later = instr :: rest →
        instr.Acts depth state fault after → after.Holds Value.IntsFit) ∧
    ∀ depth ended, run depth (Expr.compileAll program) session.env = some ended →
      ended.state.Holds Value.IntsFit ∧
      ∀ value, ended.answer = .ok (.value value) → value.IntsFit := by
  have carries := Placement.intsFit_carries
  have start := Session.start_placed fed.heap_fits
  have literals := literalsIn_of_vetted vetted
  refine ⟨fed.heap_fits, ?_, ?_⟩
  · intro later state reached
    obtain ⟨placed, literalsLater⟩ := reached.placed carries start literals
    refine ⟨literalsLater, State.placed_everywhere_iff.1 placed, ?_⟩
    rintro instr rest depth fault after rfl acts
    exact State.placed_everywhere_iff.1 <|
      acts.placed_of_literals carries (fun ran => ran.placed carries) placed literalsLater
  · intro depth ended ran
    obtain ⟨after, ⟨ends, answer, last⟩ | ⟨fault, ends, answer, last⟩⟩ := run_cases ran
    · have placed := ends.placed carries start literals
      have held := State.placed_everywhere_iff.1 placed
      refine ⟨State.placed_everywhere_iff.1 (last ▸ placed.takeAnswer carries.lawful), ?_⟩
      intro value answered
      rw [answer] at answered
      rcases State.takeAnswer_value answered with ⟨member, _⟩ | ⟨address, _, found, _⟩
      · exact held.stack value member
      · exact held.heap value (List.mem_of_getElem? found)
    · refine ⟨State.placed_everywhere_iff.1 (last ▸ ends.placed carries start literals), ?_⟩
      intro value answered
      rw [answer] at answered
      cases answered

def addsLargest : List Expr :=
  [.declare .constant "m" (.literal (.int 2147483647)),
    .declare .variable "f" (.function ["x"] [.binary (.identifier "x") .add (.identifier "m")])]

def overflows : List Expr := [.call "f" [.literal (.int 1)]]

theorem integers_stay_in_range_overflow : ∃ made after,
    Session.empty.Submits addsLargest (.success .nothing []) made ∧
    made.Submits overflows (.evaluationFailure (.overflow .add 1 2147483647)) after ∧
    (∀ value ∈ after.env.heap, value.IntsFit) ∧
    ∃ ended, run 2 (Expr.compileAll overflows) made.env = some ended ∧
      ended.state.Holds Value.IntsFit := by
  have vetted : ∀ expr ∈ addsLargest ++ overflows, expr.Vetted := by
    intro expr member
    refine Or.inl ⟨expr.dump, ?_⟩
    simp only [addsLargest, overflows, List.cons_append, List.nil_append, List.mem_cons,
      List.not_mem_nil, or_false] at member
    rcases member with rfl | rfl | rfl <;>
    · simp [Expr.dump, Expr.dumpAll, Expr.read, Expr.readFields, Datum.readTag, Table.lookup,
        ExprKind.ofName?, ExprKind.name, Datum.required, Datum.optional, Datum.readList,
        Datum.readItems]
      rfl
  have first : Session.empty.Submits addsLargest (.success .nothing []) _ := ⟨2, _, rfl, rfl, rfl⟩
  have made : Session.Fed _ :=
    .submit .empty (fun expr member => vetted expr (List.mem_append_left _ member)) first
  have calls : ∀ expr ∈ overflows, expr.Vetted :=
    fun expr member => vetted expr (List.mem_append_right _ member)
  refine ⟨_, _, first, ⟨2, _, rfl, rfl, rfl⟩, ?_, _, rfl, ?_⟩
  · exact (integers_stay_in_range _ [] (.submit made calls ⟨2, _, rfl, rfl, rfl⟩)
      (List.forall_mem_nil _)).1
  · exact ((integers_stay_in_range _ overflows made calls).2.2 2 _ rfl).1

end LetStack
