import LetStack.Proofs.Tree
import LetStack.Schema.Tree

/-! What has been read comes from data that was read in turn: a tree has no literal without a datum. -/

namespace LetStack

namespace Checked

variable {α β : Type}

theorem also_eq_ok_iff {made : Checked (α → β)} {checked : Checked α} {result : β} :
    made.also checked = .ok result ↔
      ∃ make value, made = .ok make ∧ checked = .ok value ∧ make value = result := by
  constructor
  · intro read
    cases made with
    | error issues => cases checked <;> cases read
    | ok make =>
        cases checked with
        | error issues => cases read
        | ok value => exact ⟨make, value, rfl, rfl, Except.ok.inj read⟩
  · rintro ⟨make, value, rfl, rfl, rfl⟩
    rfl

theorem under_eq_ok_iff {step : Step} {checked : Checked α} {value : α} :
    checked.under step = .ok value ↔ checked = .ok value := by
  cases checked with
  | ok other => exact Iff.rfl
  | error issues => exact ⟨nofun, nofun⟩

theorem next_eq_ok_iff {checked : Checked α} {use : α → Checked β} {result : β} :
    checked.next use = .ok result ↔ ∃ value, checked = .ok value ∧ use value = .ok result := by
  constructor
  · intro read
    cases checked with
    | error issues => cases read
    | ok value => exact ⟨value, rfl, read⟩
  · rintro ⟨value, rfl, read⟩
    exact read

end Checked

open Checked

namespace Datum

variable {α : Type} {fields : List (String × Datum)} {name : String} {value : α}

theorem required_ok {read : (datum : Datum) → sizeOf datum < sizeOf fields → Checked α}
    (found : required fields name read = .ok value) :
    ∃ datum smaller, read datum smaller = .ok value := by
  unfold required at found
  split at found
  · cases found
  · exact ⟨_, _, under_eq_ok_iff.1 found⟩

theorem optional_ok {fallback : α}
    {read : (datum : Datum) → sizeOf datum < sizeOf fields → Checked α}
    (found : optional fields name fallback read = .ok value) :
    value = fallback ∨ ∃ datum smaller, read datum smaller = .ok value := by
  unfold optional at found
  split at found
  · exact Or.inl (Except.ok.inj found).symm
  · exact Or.inr ⟨_, _, under_eq_ok_iff.1 found⟩

theorem readItems_ok {items : List Datum} : ∀ {position : Nat} {values : List α}
    {read : (datum : Datum) → sizeOf datum < sizeOf items → Checked α},
    readItems items position read = .ok values → value ∈ values →
      ∃ datum smaller, read datum smaller = .ok value := by
  induction items with
  | nil =>
      intro position values read found member
      rw [← Except.ok.inj found] at member
      cases member
  | cons first rest ih =>
      intro position values read found member
      rw [readItems, also_eq_ok_iff] at found
      obtain ⟨make, later, made, readLater, rfl⟩ := found
      obtain ⟨cons, head, same, readHead, rfl⟩ := also_eq_ok_iff.1 made
      cases same
      rcases List.mem_cons.1 member with rfl | inLater
      · exact ⟨first, _, under_eq_ok_iff.1 readHead⟩
      · obtain ⟨datum, smaller, here⟩ := ih readLater inLater
        exact ⟨datum, _, here⟩

theorem readList_ok {datum : Datum} {values : List α}
    {read : (item : Datum) → sizeOf item < sizeOf datum → Checked α}
    (found : readList datum read = .ok values) (member : value ∈ values) :
    ∃ item smaller, read item smaller = .ok value := by
  cases datum with
  | list items =>
      obtain ⟨item, _, here⟩ := readItems_ok found member
      exact ⟨item, _, here⟩
  | _ => cases found

theorem readNamed_ok {read : List (String × Datum) → Checked α} {datum : Datum}
    (found : readNamed name read datum = .ok value) : ∃ fields, read fields = .ok value := by
  cases datum with
  | object fields =>
      rw [readNamed, Checked.and, also_eq_ok_iff] at found
      obtain ⟨make, other, made, readFields, rfl⟩ := found
      obtain ⟨keep, tag, same, _, rfl⟩ := also_eq_ok_iff.1 made
      cases same
      exact ⟨fields, readFields⟩
  | _ => cases found

theorem readIntBetween_ok {lowest highest : Int} {datum : Datum} {number : Int}
    (found : datum.readIntBetween (some lowest) (some highest) = .ok number) :
    lowest ≤ number ∧ number ≤ highest := by
  obtain ⟨whole, _, inside⟩ := next_eq_ok_iff.1 found
  simp only [Option.any_some, decide_eq_true_eq] at inside
  split at inside
  · cases inside
  · split at inside
    · cases inside
    · cases inside
      exact ⟨by omega, by omega⟩

end Datum

theorem Literal.fits_of_readFields {kind : LiteralKind} {fields : List (String × Datum)}
    {number : Int} (read : Literal.readFields kind fields = .ok (.int number)) :
    -2147483648 ≤ number ∧ number ≤ 2147483647 := by
  cases kind with
  | int =>
      obtain ⟨make, value, same, here, made⟩ := also_eq_ok_iff.1 read
      cases same
      cases made
      obtain ⟨part, _, between⟩ := Datum.required_ok here
      exact Datum.readIntBetween_ok between
  | _ =>
      obtain ⟨make, value, same, _, made⟩ := also_eq_ok_iff.1 read
      cases same
      cases made

theorem Literal.readFields_of_read {datum : Datum} {literal : Literal}
    (found : Literal.read datum = .ok literal) :
    ∃ kind fields, Literal.readFields kind fields = .ok literal := by
  unfold Literal.read at found
  split at found
  · obtain ⟨kind, _, under⟩ := next_eq_ok_iff.1 found
    exact ⟨kind, _, under_eq_ok_iff.1 under⟩
  · cases found

theorem Literal.fits_of_read {datum : Datum} {number : Int}
    (found : Literal.read datum = .ok (.int number)) :
    -2147483648 ≤ number ∧ number ≤ 2147483647 := by
  obtain ⟨kind, fields, read⟩ := Literal.readFields_of_read found
  exact Literal.fits_of_readFields read

namespace Expr

variable {literal : Literal} {expr : Expr}

theorem literal_of_readFields {kind : ExprKind} {fields : List (String × Datum)}
    (parts : ∀ datum, sizeOf datum < sizeOf fields → ∀ part, Expr.read datum = .ok part →
      part.HasLiteral literal → ∃ source, Literal.read source = .ok literal)
    (found : Expr.readFields kind fields = .ok expr) (has : expr.HasLiteral literal) :
    ∃ source, Literal.read source = .ok literal := by
  have listed {name : String} {exprs : List Expr} {part : Expr}
      (read : Datum.optional fields name [] (fun datum _ =>
        datum.readList fun item _ => Expr.read item) = .ok exprs)
      (member : part ∈ exprs) (inside : part.HasLiteral literal) :
      ∃ source, Literal.read source = .ok literal := by
    rcases Datum.optional_ok read with rfl | ⟨datum, smaller, readDatum⟩
    · cases member
    · obtain ⟨item, within, here⟩ := Datum.readList_ok readDatum member
      exact parts item (Nat.lt_trans within smaller) part here inside
  cases kind with
  | literal =>
      rw [readFields, also_eq_ok_iff] at found
      obtain ⟨make, value, same, readValue, rfl⟩ := found
      cases same
      cases has
      obtain ⟨datum, _, here⟩ := Datum.required_ok readValue
      exact ⟨datum, here⟩
  | identifier =>
      rw [readFields, also_eq_ok_iff] at found
      obtain ⟨make, name, same, _, rfl⟩ := found
      cases same
      cases has
  | assign =>
      rw [readFields, also_eq_ok_iff] at found
      obtain ⟨make, rhs, made, readRhs, rfl⟩ := found
      obtain ⟨outer, name, same, _, rfl⟩ := also_eq_ok_iff.1 made
      cases same
      obtain ⟨datum, smaller, here⟩ := Datum.required_ok readRhs
      cases has with
      | assign inside => exact parts datum smaller rhs here inside
  | declare kind =>
      rw [readFields, also_eq_ok_iff] at found
      obtain ⟨make, rhs, made, readRhs, rfl⟩ := found
      obtain ⟨outer, name, same, _, rfl⟩ := also_eq_ok_iff.1 made
      cases same
      obtain ⟨datum, smaller, here⟩ := Datum.required_ok readRhs
      cases has with
      | declare inside => exact parts datum smaller rhs here inside
  | binary =>
      rw [readFields, also_eq_ok_iff] at found
      obtain ⟨make, right, made, readRight, rfl⟩ := found
      obtain ⟨outer, operator, madeOuter, _, rfl⟩ := also_eq_ok_iff.1 made
      obtain ⟨first, left, same, readLeft, rfl⟩ := also_eq_ok_iff.1 madeOuter
      cases same
      cases has with
      | left inside =>
          obtain ⟨datum, smaller, here⟩ := Datum.required_ok readLeft
          exact parts datum smaller left here inside
      | right inside =>
          obtain ⟨datum, smaller, here⟩ := Datum.required_ok readRight
          exact parts datum smaller right here inside
  | function =>
      rw [readFields, also_eq_ok_iff] at found
      obtain ⟨make, body, made, readBody, rfl⟩ := found
      obtain ⟨outer, params, same, _, rfl⟩ := also_eq_ok_iff.1 made
      cases same
      cases has with
      | body member inside => exact listed readBody member inside
  | call =>
      rw [readFields, also_eq_ok_iff] at found
      obtain ⟨make, args, made, readArgs, rfl⟩ := found
      obtain ⟨outer, callee, same, _, rfl⟩ := also_eq_ok_iff.1 made
      cases same
      cases has with
      | arg member inside => exact listed readArgs member inside

theorem literal_of_read (datum : Datum) : ∀ {expr : Expr}, Expr.read datum = .ok expr →
    expr.HasLiteral literal → ∃ source, Literal.read source = .ok literal := by
  induction size : sizeOf datum using Nat.strongRecOn generalizing datum with
  | _ size ih =>
      intro expr found has
      unfold Expr.read at found
      split at found
      · rename_i fields
        obtain ⟨kind, _, under⟩ := next_eq_ok_iff.1 found
        refine literal_of_readFields ?_ (under_eq_ok_iff.1 under) has
        intro part smaller expr read inside
        refine ih (sizeOf part) ?_ part rfl read inside
        rw [← size, Datum.object.sizeOf_spec]
        omega
      · cases found

theorem fits_of_read {datum : Datum} (read : Expr.read datum = .ok expr) (number : Int)
    (has : expr.HasLiteral (.int number)) : -2147483648 ≤ number ∧ number ≤ 2147483647 := by
  obtain ⟨part, found⟩ := literal_of_read datum read has
  exact Literal.fits_of_read found

theorem fits_of_readFields {kind : ExprKind} {fields : List (String × Datum)}
    (read : Expr.readFields kind fields = .ok expr) (number : Int)
    (has : expr.HasLiteral (.int number)) : -2147483648 ≤ number ∧ number ≤ 2147483647 := by
  obtain ⟨part, found⟩ := literal_of_readFields
    (fun datum _ _ inner inside => literal_of_read datum inner inside) read has
  exact Literal.fits_of_read found

end Expr

end LetStack
