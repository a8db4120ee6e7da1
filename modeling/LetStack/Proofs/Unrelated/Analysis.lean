import LetStack.Proofs.Scoping.Accepted
import LetStack.Proofs.Unrelated.Mentions

/-! The analysis of a program does not depend on a name that the program does not mention. -/

namespace LetStack

variable {name : String}

namespace Scope

structure SameBut (name : String) (left right : Scope) : Prop where
  symbols : ∀ other, other ≠ name → left.symbols.get? other = right.symbols.get? other
  arities : ∀ other, other ≠ name → left.arities.get? other = right.arities.get? other

variable {left right : Scope}

theorem SameBut.contains (same : left.SameBut name right) {other : String}
    (different : other ≠ name) : left.symbols.contains other = right.symbols.contains other := by
  rw [Table.contains, Table.contains, same.symbols other different]

theorem SameBut.recordArity (same : left.SameBut name right) {rhs : Expr}
    (unmentioned : name ∉ rhs.names) (bound : String) :
    (left.recordArity bound rhs).SameBut name (right.recordArity bound rhs) := by
  have known : left.arityOf? rhs = right.arityOf? rhs := by
    cases rhs with
    | identifier other => exact same.arities other (Ne.symm (List.ne_of_not_mem_cons unmentioned))
    | _ => rfl
  constructor
  · intro other different
    rw [Scope.recordArity, Scope.recordArity, known]
    split <;> exact same.symbols other different
  · intro other different
    rw [Scope.recordArity, Scope.recordArity, known]
    split <;> simp [same.arities other different]

theorem SameBut.declare (same : left.SameBut name right) {rhs : Expr}
    (unmentioned : name ∉ rhs.names) (kind : SymbolKind) (bound : String) :
    (left.declare kind bound rhs).SameBut name (right.declare kind bound rhs) := by
  have declared : SameBut name { left with symbols := left.symbols.set bound kind }
      { right with symbols := right.symbols.set bound kind } :=
    ⟨fun other different => by simp [same.symbols other different], same.arities⟩
  exact declared.recordArity unmentioned bound

theorem SameBut.enter (params : List String) : ∀ {left right : Scope},
    left.SameBut name right → (left.enter params).SameBut name (right.enter params) := by
  induction params with
  | nil => exact id
  | cons param rest ih =>
      intro left right same
      apply ih
      exact ⟨fun other different => by simp [addParam, same.symbols other different],
        fun other different => by simp [addParam, same.arities other different]⟩

end Scope

def Expr.ChecksAlike (name : String) (expr : Expr) : Prop :=
  ∀ left right : Scope, left.SameBut name right →
    (expr.check left).2 = (expr.check right).2 ∧
      (expr.check left).1.SameBut name (expr.check right).1

theorem checkAll_alike {parts : List Expr} (unmentioned : Unmentioned name parts)
    (each : ∀ part ∈ parts, name ∉ part.names → part.ChecksAlike name) :
    ∀ left right : Scope, left.SameBut name right →
      (Expr.checkAll parts left).2 = (Expr.checkAll parts right).2 ∧
        (Expr.checkAll parts left).1.SameBut name (Expr.checkAll parts right).1 := by
  induction parts with
  | nil => exact fun left right same => ⟨rfl, same⟩
  | cons first rest ih =>
      intro left right same
      obtain ⟨firstApart, restApart⟩ := unmentioned_cons_iff.1 unmentioned
      obtain ⟨findings, after⟩ := each first List.mem_cons_self firstApart left right same
      obtain ⟨more, final⟩ :=
        ih restApart (fun part member => each part (List.mem_cons_of_mem _ member)) _ _ after
      exact ⟨by simp only [Expr.checkAll, findings, more], final⟩

theorem Expr.checksAlike (expr : Expr) : name ∉ expr.names → expr.ChecksAlike name := by
  induction expr using Expr.induction with
  | literal value => exact fun _ left right same => ⟨rfl, same⟩
  | identifier other =>
      intro unmentioned left right same
      have different : other ≠ name := Ne.symm (List.ne_of_not_mem_cons unmentioned)
      simp only [check, Scope.checkIdentifier, same.contains different]
      exact ⟨trivial, same⟩
  | declare kind other rhs ih =>
      intro unmentioned left right same
      obtain ⟨different, apart⟩ := List.ne_and_not_mem_of_not_mem_cons unmentioned
      obtain ⟨findings, after⟩ := ih apart left right same
      simp only [check, after.contains (Ne.symm different), findings]
      split
      · exact ⟨rfl, after⟩
      · exact ⟨rfl, after.declare apart kind other⟩
  | assign other rhs ih =>
      intro unmentioned left right same
      obtain ⟨different, apart⟩ := List.ne_and_not_mem_of_not_mem_cons unmentioned
      obtain ⟨findings, after⟩ := ih apart left right same
      simp only [check, Scope.checkTarget, same.symbols other (Ne.symm different), findings]
      refine ⟨trivial, ?_⟩
      split
      · exact after.recordArity apart other
      · exact after
  | binary first operator second ihFirst ihSecond =>
      intro unmentioned left right same
      simp only [names, List.mem_append, not_or] at unmentioned
      obtain ⟨findings, middle⟩ := ihFirst unmentioned.1 left right same
      obtain ⟨more, final⟩ := ihSecond unmentioned.2 _ _ middle
      exact ⟨by simp only [check, findings, more], final⟩
  | function params body ih =>
      intro unmentioned left right same
      simp only [names, List.mem_append, not_or] at unmentioned
      obtain ⟨findings, _⟩ := checkAll_alike unmentioned.2 ih _ _ (same.enter params)
      exact ⟨by simp only [check, findings], same⟩
  | call callee args ih =>
      intro unmentioned left right same
      obtain ⟨different, apart⟩ := List.ne_and_not_mem_of_not_mem_cons unmentioned
      obtain ⟨findings, after⟩ := checkAll_alike apart ih left right same
      simp only [check, Scope.checkCallee, findings, after.contains (Ne.symm different),
        after.arities callee (Ne.symm different)]
      exact ⟨trivial, after⟩

theorem Unmentioned.checksAlike {program : List Expr} (unmentioned : Unmentioned name program)
    {left right : Scope} (same : left.SameBut name right) :
    (Expr.checkAll program left).2 = (Expr.checkAll program right).2 ∧
      (Expr.checkAll program left).1.SameBut name (Expr.checkAll program right).1 :=
  checkAll_alike unmentioned (fun part _ => part.checksAlike) left right same

def Expr.LeavesDeclared (name : String) (expr : Expr) : Prop :=
  ∀ scope : Scope, (expr.check scope).1.symbols.contains name = scope.symbols.contains name

theorem checkAll_leavesDeclared {parts : List Expr} (unmentioned : Unmentioned name parts)
    (each : ∀ part ∈ parts, name ∉ part.names → part.LeavesDeclared name) : ∀ scope : Scope,
      (Expr.checkAll parts scope).1.symbols.contains name = scope.symbols.contains name := by
  induction parts with
  | nil => exact fun _ => rfl
  | cons first rest ih =>
      intro scope
      obtain ⟨firstApart, restApart⟩ := unmentioned_cons_iff.1 unmentioned
      have before := each first List.mem_cons_self firstApart scope
      exact (ih restApart (fun part member => each part (List.mem_cons_of_mem _ member)) _).trans
        before

theorem Expr.leavesDeclared (expr : Expr) : name ∉ expr.names → expr.LeavesDeclared name := by
  induction expr using Expr.induction with
  | literal value => exact fun _ _ => rfl
  | identifier other => exact fun _ _ => rfl
  | declare kind other rhs ih =>
      intro unmentioned scope
      obtain ⟨different, apart⟩ := List.ne_and_not_mem_of_not_mem_cons unmentioned
      rw [check]
      split
      · exact ih apart scope
      · rw [Table.contains, Scope.declare, Scope.recordArity_symbols, Table.get?_set,
          if_neg different]
        exact ih apart scope
  | assign other rhs ih =>
      intro unmentioned scope
      have before := ih (List.not_mem_of_not_mem_cons unmentioned) scope
      simp only [check]
      split
      · rw [Scope.recordArity_symbols]
        exact before
      · exact before
  | binary left operator right ihLeft ihRight =>
      intro unmentioned scope
      simp only [names, List.mem_append, not_or] at unmentioned
      exact (ihRight unmentioned.2 _).trans (ihLeft unmentioned.1 scope)
  | function params body ih => exact fun _ _ => rfl
  | call callee args ih =>
      intro unmentioned scope
      exact checkAll_leavesDeclared (List.not_mem_of_not_mem_cons unmentioned) ih scope

theorem Unmentioned.leavesDeclared {program : List Expr} (unmentioned : Unmentioned name program)
    (scope : Scope) :
    (Expr.checkAll program scope).1.symbols.contains name = scope.symbols.contains name :=
  checkAll_leavesDeclared unmentioned (fun part _ => part.leavesDeclared) scope

end LetStack
