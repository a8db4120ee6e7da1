import LetStack.Proofs.Scoping.Accepted

/-!
Code as the analysis counts the parameters of functions: a name may be called with so many
arguments if what was stored last under it was a function literal, or came from such a name.
-/

namespace LetStack

inductive Origin where
  | function (count : Nat)
  | lookup (name : String)
  | other

namespace Origin

def arity? (arities : Table Int) : Origin → Option Int
  | function count => some count
  | lookup name => arities.get? name
  | other => none

def record (origin : Origin) (arities : Table Int) (name : String) : Table Int :=
  match origin.arity? arities with
  | some arity => arities.set name arity
  | none => arities.erase name

theorem get?_record (origin : Origin) (arities : Table Int) (name query : String) :
    (origin.record arities name).get? query =
      if query = name then origin.arity? arities else arities.get? query := by
  unfold record
  split <;> simp_all

end Origin

def Expr.origin : Expr → Origin
  | function params _ => .function params.length
  | identifier name => .lookup name
  | _ => .other

inductive Counted : Origin → Table Int → List Instr → Origin → Table Int → Prop
  | nil (origin : Origin) (arities : Table Int) : Counted origin arities [] origin arities
  | literal {origin last : Origin} {arities final : Table Int} {value : Value}
      {later : List Instr} : (∀ params body env, value ≠ .closure params body env) →
      Counted .other arities later last final →
      Counted origin arities (.pushLiteral value :: later) last final
  | bytes {origin last : Origin} {arities final : Table Int} {content : List UInt8}
      {later : List Instr} : Counted .other arities later last final →
      Counted origin arities (.allocateBytes content :: later) last final
  | arithmetic {origin last : Origin} {arities final : Table Int} {operator : Operator}
      {later : List Instr} : Counted .other arities later last final →
      Counted origin arities (.arithmetic operator :: later) last final
  | lookup {origin last : Origin} {arities final : Table Int} {name : String}
      {later : List Instr} : Counted (.lookup name) arities later last final →
      Counted origin arities (.lookup name :: later) last final
  | store {origin last : Origin} {arities final : Table Int} {name : String}
      {later : List Instr} : Counted .other (origin.record arities name) later last final →
      Counted origin arities (.store name :: later) last final
  | makeClosure {origin inner last : Origin} {arities known final : Table Int}
      {params : List String} {body later : List Instr} : Counted .other arities body inner known →
      Counted (.function params.length) arities later last final →
      Counted origin arities (.makeClosure params body :: later) last final
  | call {last : Origin} {arities final : Table Int} {callee : String} {argCount : Nat}
      {later : List Instr} : arities.get? callee = some (argCount : Int) →
      Counted .other arities later last final →
      Counted (.lookup callee) arities (.call argCount :: later) last final

theorem Counted.append {origin middle last : Origin} {arities known final : Table Int}
    {first second : List Instr} (counted : Counted origin arities first middle known)
    (more : Counted middle known second last final) :
    Counted origin arities (first ++ second) last final := by
  induction counted with
  | nil _ _ => exact more
  | literal notClosure _ ih => exact .literal notClosure (ih more)
  | bytes _ ih => exact .bytes (ih more)
  | arithmetic _ ih => exact .arithmetic (ih more)
  | lookup _ ih => exact .lookup (ih more)
  | store _ ih => exact .store (ih more)
  | makeClosure inside _ _ ih => exact .makeClosure inside (ih more)
  | call known _ ih => exact .call known (ih more)

theorem Scope.recordArity_arities (scope : Scope) (name : String) (rhs : Expr) :
    (scope.recordArity name rhs).arities = rhs.origin.record scope.arities name := by
  have same : scope.arityOf? rhs = rhs.origin.arity? scope.arities := by cases rhs <;> rfl
  rw [recordArity, Origin.record, same]
  cases rhs.origin.arity? scope.arities <;> rfl

theorem Scope.enter_counted (scope : Scope) (params : List String) :
    Counted .other scope.arities (params.map .store) .other (scope.enter params).arities := by
  induction params generalizing scope with
  | nil => exact .nil _ _
  | cons param rest ih => exact .store (ih (scope.addParam param))

theorem checkAll_counted (parts : List Expr)
    (each : ∀ part ∈ parts, ∀ (origin : Origin) (scope : Scope), (part.check scope).2.errors = [] →
      Counted origin scope.arities part.compile part.origin (part.check scope).1.arities) :
    ∀ (origin : Origin) (scope : Scope), (Expr.checkAll parts scope).2.errors = [] →
      ∃ last, Counted origin scope.arities (Expr.compileAll parts) last
        (Expr.checkAll parts scope).1.arities := by
  induction parts with
  | nil => exact fun origin scope _ => ⟨origin, .nil origin scope.arities⟩
  | cons first rest ih =>
      intro origin scope clean
      simp only [Expr.checkAll, Findings.errors_append, List.append_eq_nil_iff] at clean
      have firstCounted := each first List.mem_cons_self origin scope clean.1
      obtain ⟨last, restCounted⟩ :=
        ih (fun part member => each part (List.mem_cons_of_mem _ member)) first.origin _ clean.2
      exact ⟨last, firstCounted.append restCounted⟩

theorem Scope.checkCallee_clean {scope : Scope} {name : String} {argCount : Nat}
    (clean : (scope.checkCallee name argCount).errors = []) :
    scope.arities.get? name = some (argCount : Int) := by
  unfold checkCallee at clean
  split at clean
  · split at clean
    · simp [Findings.error] at clean
    · rename_i arity known
      split at clean
      · rename_i same
        rw [known, same]
      · simp [Findings.error] at clean
  · simp [Findings.error] at clean

theorem check_counted (expr : Expr) : ∀ (origin : Origin) (scope : Scope),
    (expr.check scope).2.errors = [] →
    Counted origin scope.arities expr.compile expr.origin (expr.check scope).1.arities := by
  induction expr using Expr.induction with
  | literal value =>
      intro origin scope _
      cases value with
      | text content => exact .bytes (.nil _ _)
      | _ => exact .literal nofun (.nil _ _)
  | identifier name => exact fun _ _ _ => .lookup (.nil _ _)
  | declare kind name rhs ih =>
      intro origin scope clean
      obtain ⟨cleanRhs, _, declared⟩ := Expr.check_declare_clean clean
      rw [declared, Scope.declare, Scope.recordArity_arities]
      exact (ih origin scope cleanRhs).append (.store (.nil _ _))
  | assign name rhs ih =>
      intro origin scope clean
      simp only [Expr.check, Findings.errors_append, List.append_eq_nil_iff] at clean
      have declared := Scope.checkTarget_clean clean.1
      simp only [Expr.check, declared, if_true]
      rw [Scope.recordArity_arities]
      exact (ih origin scope clean.2).append (.store (.nil _ _))
  | binary left operator right ihLeft ihRight =>
      intro origin scope clean
      simp only [Expr.check, Findings.errors_append, List.append_eq_nil_iff] at clean
      exact ((ihLeft origin scope clean.1).append (ihRight _ _ clean.2)).append
        (.arithmetic (.nil _ _))
  | function params body ih =>
      intro origin scope clean
      simp only [Expr.check, Findings.errors_append, List.append_eq_nil_iff] at clean
      obtain ⟨inner, inside⟩ := checkAll_counted body ih .other (scope.enter params) clean.2
      exact .makeClosure ((scope.enter_counted params).append inside) (.nil _ _)
  | call callee args ih =>
      intro origin scope clean
      simp only [Expr.check, Findings.errors_append, List.append_eq_nil_iff] at clean
      obtain ⟨last, argsCounted⟩ := checkAll_counted args ih origin scope clean.1
      have known := Scope.checkCallee_clean clean.2
      exact argsCounted.append (.lookup (.call known (.nil _ _)))

theorem program_counted {program : List Expr} {scope : Scope}
    (clean : (scope.analyze program).2.isClean = true) (origin : Origin) :
    ∃ last final, Counted origin scope.arities (Expr.compileAll program) last final := by
  obtain ⟨last, counted⟩ := checkAll_counted program (fun part _ => check_counted part) origin scope
    (List.isEmpty_iff.1 clean)
  exact ⟨last, _, counted⟩

end LetStack
