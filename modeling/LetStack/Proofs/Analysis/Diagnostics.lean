import LetStack.Proofs.Analysis.Readings
import LetStack.Proofs.Scoping.Accepted

/-!
The analysis goes through all of a program, whatever it finds. It warns of every assignment, and
reports every mention of a name that is declared nowhere.
-/

namespace LetStack

namespace Reading

def warning? : Reading → Option ScopeWarning
  | target name => some (.reassigning name)
  | _ => none

def mentioned? : Reading → Option String
  | use name => some name
  | target name => some name
  | call callee _ => some callee
  | _ => none

def introduced : Reading → List String
  | declaration name => [name]
  | params names => names
  | _ => []

end Reading

def warningsOf (readings : List (List Binding × Reading)) : List ScopeWarning :=
  readings.filterMap fun entry => entry.2.warning?

def mentionsOf (readings : List (List Binding × Reading)) : List String :=
  readings.filterMap fun entry => entry.2.mentioned?

def introducedBy (readings : List (List Binding × Reading)) : List String :=
  readings.flatMap fun entry => entry.2.introduced

section

variable (former later : List (List Binding × Reading))

theorem warningsOf_append :
    warningsOf (former ++ later) = warningsOf former ++ warningsOf later := List.filterMap_append

theorem mentionsOf_append :
    mentionsOf (former ++ later) = mentionsOf former ++ mentionsOf later := List.filterMap_append

theorem not_mem_introducedBy_append {name : String} : name ∉ introducedBy (former ++ later) ↔
    name ∉ introducedBy former ∧ name ∉ introducedBy later := by
  rw [introducedBy, List.flatMap_append, List.mem_append, not_or]
  rfl

end

/-! Warnings -/

def Expr.WarnsOfAll (expr : Expr) : Prop :=
  ∀ bindings scope, (expr.check scope).2.warnings = warningsOf (expr.readings bindings)

theorem Scope.checkIdentifier_warnings (scope : Scope) (name : String) :
    (scope.checkIdentifier name).warnings = [] := by
  unfold checkIdentifier
  split <;> rfl

theorem Scope.checkCallee_warnings (scope : Scope) (name : String) (argCount : Nat) :
    (scope.checkCallee name argCount).warnings = [] := by
  unfold checkCallee
  repeat' split
  all_goals rfl

theorem checkAll_warnings (parts : List Expr) (each : ∀ part ∈ parts, part.WarnsOfAll) :
    ∀ bindings scope, (Expr.checkAll parts scope).2.warnings =
      warningsOf (Expr.readingsOfAll parts bindings) := by
  induction parts with
  | nil => exact fun _ _ => rfl
  | cons first rest ih =>
      intro bindings scope
      have restWarns := ih fun part member => each part (List.mem_cons_of_mem _ member)
      rw [Expr.checkAll, Findings.warnings_append, each first List.mem_cons_self bindings,
        restWarns (first.bindings ++ bindings), Expr.readingsOfAll, warningsOf_append]

theorem Expr.warnsOfAll (expr : Expr) : expr.WarnsOfAll := by
  induction expr using Expr.induction with
  | literal value => exact fun _ _ => rfl
  | identifier name => exact fun _ scope => scope.checkIdentifier_warnings name
  | declare kind name rhs ih =>
      intro bindings scope
      have same : warningsOf ((Expr.declare kind name rhs).readings bindings) =
          warningsOf (rhs.readings bindings) := by simp [readings, warningsOf, Reading.warning?]
      rw [same, ← ih bindings scope, Expr.check]
      split <;> simp [Findings.error]
  | assign name rhs ih =>
      intro bindings scope
      simp only [Expr.check, Findings.warnings_append, ih bindings scope, readings, warningsOf,
        Scope.checkTarget, List.filterMap_cons, Reading.warning?, List.singleton_append]
  | binary left operator right ihLeft ihRight =>
      intro bindings scope
      simp only [Expr.check, Findings.warnings_append, ihLeft bindings scope,
        ihRight (left.bindings ++ bindings) _, readings, warningsOf, List.filterMap_append]
  | function params body ih =>
      intro bindings scope
      have inside := checkAll_warnings body ih ((params.map .param).reverse ++ bindings)
        (scope.enter params)
      simp only [Expr.check, Findings.warnings_append, inside, List.nil_append]
      rfl
  | call callee args ih =>
      intro bindings scope
      have checked := checkAll_warnings args ih bindings scope
      simp only [Expr.check, Findings.warnings_append, checked, Scope.checkCallee_warnings,
        List.append_nil, readings, warningsOf, List.filterMap_append]
      simp [Reading.warning?]

/-! Mentions of a name that is declared nowhere -/

theorem Scope.count_checkIdentifier {scope : Scope} {name : String}
    (lacks : scope.symbols.contains name = false) (other : String) :
    (scope.checkIdentifier other).errors.count (.unbound name) = [other].count name := by
  by_cases same : other = name
  · subst same
    simp [checkIdentifier, lacks, Findings.error]
  · unfold checkIdentifier
    split <;> simp [Findings.none, Findings.error, same]

theorem Scope.count_checkTarget {scope : Scope} {name : String}
    (lacks : scope.symbols.contains name = false) (other : String) :
    (scope.checkTarget other).errors.count (.unbound name) = [other].count name := by
  by_cases same : other = name
  · subst same
    simp [checkTarget, (Table.contains_eq_false_iff _ _).1 lacks]
  · unfold checkTarget
    split <;> simp [same]

theorem Scope.count_checkCallee {scope : Scope} {name : String}
    (lacks : scope.symbols.contains name = false) (other : String) (argCount : Nat) :
    (scope.checkCallee other argCount).errors.count (.unbound name) = [other].count name := by
  by_cases same : other = name
  · subst same
    simp [checkCallee, lacks, Findings.error]
  · unfold checkCallee
    repeat' split
    all_goals simp [Findings.none, Findings.error, same]

theorem count_redeclared (name : String) (params : List String) :
    (params.map ScopeError.redeclared).count (.unbound name) = 0 :=
  List.count_eq_zero.2 (by simp)

def Expr.ReportsMentions (name : String) (expr : Expr) : Prop :=
  ∀ bindings scope, scope.symbols.contains name = false →
    name ∉ introducedBy (expr.readings bindings) →
    (expr.check scope).1.symbols.contains name = false ∧
      (expr.check scope).2.errors.count (.unbound name) =
        (mentionsOf (expr.readings bindings)).count name

theorem checkAll_reportsMentions {name : String} (parts : List Expr)
    (each : ∀ part ∈ parts, part.ReportsMentions name) :
    ∀ bindings scope, scope.symbols.contains name = false →
      name ∉ introducedBy (Expr.readingsOfAll parts bindings) →
      (Expr.checkAll parts scope).1.symbols.contains name = false ∧
        (Expr.checkAll parts scope).2.errors.count (.unbound name) =
          (mentionsOf (Expr.readingsOfAll parts bindings)).count name := by
  induction parts with
  | nil => exact fun _ _ lacks _ => ⟨lacks, rfl⟩
  | cons first rest ih =>
      intro bindings scope lacks apart
      rw [Expr.readingsOfAll, not_mem_introducedBy_append] at apart
      obtain ⟨lacksThen, reported⟩ := each first List.mem_cons_self bindings scope lacks apart.1
      obtain ⟨lacksAfter, reportedRest⟩ :=
        ih (fun part member => each part (List.mem_cons_of_mem _ member)) _ _ lacksThen apart.2
      rw [Expr.checkAll, Findings.errors_append, List.count_append, reported, reportedRest,
        Expr.readingsOfAll, mentionsOf_append, List.count_append]
      exact ⟨lacksAfter, rfl⟩

theorem Expr.reportsMentions (name : String) (expr : Expr) : expr.ReportsMentions name := by
  induction expr using Expr.induction with
  | literal value => exact fun _ _ lacks _ => ⟨lacks, rfl⟩
  | identifier other => exact fun _ _ lacks _ => ⟨lacks, Scope.count_checkIdentifier lacks other⟩
  | declare kind other rhs ih =>
      intro bindings scope lacks apart
      rw [readings, not_mem_introducedBy_append] at apart
      obtain ⟨lacksThen, reported⟩ := ih bindings scope lacks apart.1
      have different : name ≠ other := by simpa [introducedBy, Reading.introduced] using apart.2
      have counted : (mentionsOf ((declare kind other rhs).readings bindings)).count name =
          (mentionsOf (rhs.readings bindings)).count name := by
        rw [readings, mentionsOf_append]
        exact congrArg (List.count name) (List.append_nil _)
      rw [counted, ← reported, Expr.check]
      split
      · refine ⟨lacksThen, ?_⟩
        simp [Findings.error]
      · refine ⟨?_, rfl⟩
        rw [Scope.declare, Scope.recordArity_symbols, Table.contains, Table.get?_set,
          if_neg different]
        exact lacksThen
  | assign other rhs ih =>
      intro bindings scope lacks apart
      obtain ⟨lacksThen, reported⟩ := ih bindings scope lacks apart
      constructor
      · rw [Expr.check]
        split
        · rw [Scope.recordArity_symbols]
          exact lacksThen
        · exact lacksThen
      · rw [Expr.check, Findings.errors_append, List.count_append, reported,
          Scope.count_checkTarget lacks, ← List.count_append]
        rfl
  | binary left operator right ihLeft ihRight =>
      intro bindings scope lacks apart
      rw [readings, not_mem_introducedBy_append] at apart
      obtain ⟨lacksThen, reportedLeft⟩ := ihLeft bindings scope lacks apart.1
      obtain ⟨lacksAfter, reportedRight⟩ := ihRight _ _ lacksThen apart.2
      refine ⟨lacksAfter, ?_⟩
      rw [Expr.check, Findings.errors_append, List.count_append, reportedLeft, reportedRight,
        readings, mentionsOf_append, List.count_append]
  | function params body ih =>
      intro bindings scope lacks apart
      have apart : name ∉ params ++ introducedBy (Expr.readingsOfAll body _) := apart
      obtain ⟨noParam, apart⟩ := not_or.1 (mt List.mem_append.2 apart)
      have lacksInside : (scope.enter params).symbols.contains name = false := by
        rw [Scope.enter_symbols, ← Bool.not_eq_true, contains_hide_iff, lacks]
        simp [noParam]
      have inside := checkAll_reportsMentions body ih _ _ lacksInside apart
      refine ⟨lacks, ?_⟩
      rw [Expr.check, Findings.errors_append, List.count_append, inside.2]
      exact (congrArg (· + _) (count_redeclared name (repeated [] params))).trans (Nat.zero_add _)
  | call callee args ih =>
      intro bindings scope lacks apart
      rw [readings, not_mem_introducedBy_append] at apart
      obtain ⟨lacksThen, reported⟩ := checkAll_reportsMentions args ih bindings scope lacks apart.1
      refine ⟨lacksThen, ?_⟩
      rw [Expr.check, Findings.errors_append, List.count_append, reported,
        Scope.count_checkCallee lacksThen, readings, mentionsOf_append, List.count_append]
      rfl

/-- Whatever else is wrong with the program. -/
theorem diagnostics_complete (scope : Scope) (program : List Expr) :
    (scope.analyze program).2.warnings = warningsOf (programReadings program) ∧
      ∀ name, scope.symbols.contains name = false →
        name ∉ introducedBy (programReadings program) →
        (scope.analyze program).2.errors.count (.unbound name) =
          (mentionsOf (programReadings program)).count name :=
  ⟨checkAll_warnings program (fun part _ => part.warnsOfAll) [] scope,
    fun name lacks apart => (checkAll_reportsMentions program
      (fun part _ => part.reportsMentions name) [] scope lacks apart).2⟩

/-- `x = (x = 1); const c = (p, p) => x(x, c)`: next to four errors for `x`, one says that `c` is not
there yet and one that `p` is repeated. -/
theorem diagnostics_complete_nested :
    let program : List Expr :=
      [.assign "x" (.assign "x" (.literal (.int 1))),
        .declare .constant "c" (.function ["p", "p"] [.call "x" [.identifier "x", .identifier "c"]])]
    Scope.empty.symbols.contains "x" = false ∧ "x" ∉ introducedBy (programReadings program) ∧
      (Scope.empty.analyze program).2.warnings = [.reassigning "x", .reassigning "x"] ∧
      (Scope.empty.analyze program).2.errors.count (.unbound "x") = 4 := by
  refine ⟨rfl, by decide, ?_, ?_⟩
  · exact (diagnostics_complete .empty _).1
  · exact (diagnostics_complete .empty _).2 "x" rfl (by decide)

end LetStack
