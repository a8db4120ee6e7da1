import LetStack.Analysis.Check
import LetStack.Code.Compile
import LetStack.Proofs.Tree

/-! What a program that is in order compiles to: code that looks up declared names only, and that
stores each constant once. -/

namespace LetStack

def hide (kinds : Table SymbolKind) (params : List String) : Table SymbolKind :=
  params.foldl (fun kinds param => kinds.set param .constant) kinds

inductive Accepted : Table SymbolKind → List Instr → Table SymbolKind → Prop
  | nil (kinds : Table SymbolKind) : Accepted kinds [] kinds
  | literal {kinds final : Table SymbolKind} {value : Value} {later : List Instr} :
      (∀ address, value ≠ .pointer address) → (∀ params body env, value ≠ .closure params body env) →
      Accepted kinds later final → Accepted kinds (.pushLiteral value :: later) final
  | bytes {kinds final : Table SymbolKind} {later : List Instr} (content : List UInt8) :
      Accepted kinds later final → Accepted kinds (.allocateBytes content :: later) final
  | arithmetic {kinds final : Table SymbolKind} {later : List Instr} (operator : Operator) :
      Accepted kinds later final → Accepted kinds (.arithmetic operator :: later) final
  | lookup {kinds final : Table SymbolKind} {name : String} {later : List Instr} :
      kinds.contains name = true → Accepted kinds later final →
      Accepted kinds (.lookup name :: later) final
  | declare {kinds final : Table SymbolKind} {name : String} {later : List Instr}
      (kind : SymbolKind) : kinds.contains name = false →
      Accepted (kinds.set name kind) later final → Accepted kinds (.store name :: later) final
  | assign {kinds final : Table SymbolKind} {name : String} {later : List Instr} :
      kinds.get? name = some .variable → Accepted kinds later final →
      Accepted kinds (.store name :: later) final
  | function {kinds inner final : Table SymbolKind} {params : List String}
      {body later : List Instr} : params.Nodup → Accepted (hide kinds params) body inner →
      Accepted kinds later final →
      Accepted kinds (.makeClosure params (params.map .store ++ body) :: later) final
  | call {kinds final : Table SymbolKind} {later : List Instr} (argCount : Nat) :
      Accepted kinds later final → Accepted kinds (.call argCount :: later) final

theorem get?_hide (kinds : Table SymbolKind) (params : List String) (name : String) :
    (hide kinds params).get? name = if name ∈ params then some .constant else kinds.get? name := by
  induction params generalizing kinds with
  | nil => simp [hide]
  | cons param rest ih =>
      have step := ih (kinds.set param .constant)
      simp only [hide, List.foldl_cons] at step ⊢
      rw [step]
      by_cases later : name ∈ rest
      · simp [later]
      · by_cases same : name = param
        · simp [same]
        · simp [later, same]

theorem contains_hide_iff (kinds : Table SymbolKind) (params : List String) (name : String) :
    (hide kinds params).contains name = true ↔ name ∈ params ∨ kinds.contains name = true := by
  rw [Table.contains, get?_hide]
  by_cases member : name ∈ params
  · simp [member]
  · simp [member, Table.contains]

namespace Accepted

variable {kinds middle final : Table SymbolKind} {first second later : List Instr} {name : String}

theorem append (accepted : Accepted kinds first middle) (more : Accepted middle second final) :
    Accepted kinds (first ++ second) final := by
  induction accepted with
  | nil _ => exact more
  | literal notPointer notClosure _ ih => exact .literal notPointer notClosure (ih more)
  | bytes content _ ih => exact .bytes content (ih more)
  | arithmetic operator _ ih => exact .arithmetic operator (ih more)
  | lookup declared _ ih => exact .lookup declared (ih more)
  | declare kind fresh _ ih => exact .declare kind fresh (ih more)
  | assign declared _ ih => exact .assign declared (ih more)
  | function distinct inside _ _ ih => exact .function distinct inside (ih more)
  | call argCount _ ih => exact .call argCount (ih more)

theorem keeps (accepted : Accepted kinds first final) {kind : SymbolKind}
    (declared : kinds.get? name = some kind) : final.get? name = some kind := by
  induction accepted with
  | nil _ => exact declared
  | @declare kinds final other later otherKind fresh _ ih =>
      apply ih
      have different : name ≠ other := by
        rintro rfl
        rw [(Table.contains_eq_false_iff _ _).1 fresh] at declared
        simp at declared
      rw [Table.get?_set, if_neg different]
      exact declared
  | literal _ _ _ ih => exact ih declared
  | bytes _ _ ih => exact ih declared
  | arithmetic _ _ ih => exact ih declared
  | lookup _ _ ih => exact ih declared
  | assign _ _ ih => exact ih declared
  | function _ _ _ _ ih => exact ih declared
  | call _ _ ih => exact ih declared

theorem not_store (accepted : Accepted kinds first final)
    (constant : kinds.get? name = some .constant) : .store name ∉ first := by
  induction accepted with
  | nil _ => simp
  | @declare kinds final other later kind fresh _ ih =>
      have different : name ≠ other := by
        rintro rfl
        rw [(Table.contains_eq_false_iff _ _).1 fresh] at constant
        simp at constant
      have rest := ih (by rw [Table.get?_set, if_neg different]; exact constant)
      simp [different, rest]
  | @assign kinds final other later assignable _ ih =>
      have different : name ≠ other := by
        rintro rfl
        rw [assignable] at constant
        simp at constant
      simp [different, ih constant]
  | literal _ _ _ ih => simp [ih constant]
  | bytes _ _ ih => simp [ih constant]
  | arithmetic _ _ ih => simp [ih constant]
  | lookup _ _ ih => simp [ih constant]
  | function _ _ _ _ ih => simp [ih constant]
  | call _ _ ih => simp [ih constant]

theorem not_store_again (accepted : Accepted kinds (.store name :: later) final)
    (constant : final.get? name = some .constant) : .store name ∉ later := by
  cases accepted with
  | declare kind fresh rest =>
      have declared : (kinds.set name kind).get? name = some kind := by simp
      have same := rest.keeps declared
      rw [constant, Option.some.injEq] at same
      subst same
      exact rest.not_store declared
  | assign declared rest =>
      -- It is a variable before the store, so it cannot end up constant.
      have same := rest.keeps declared
      rw [constant] at same
      simp at same

theorem names (accepted : Accepted kinds first final) (declared : final.contains name = true) :
    kinds.contains name = true ∨ .store name ∈ first := by
  induction accepted with
  | nil _ => exact Or.inl declared
  | declare kind fresh _ ih =>
      rcases ih declared with before | stored
      · rcases (Table.contains_set_iff _ _ _ _).1 before with rfl | earlier
        · exact Or.inr List.mem_cons_self
        · exact Or.inl earlier
      · exact Or.inr (List.mem_cons_of_mem _ stored)
  | literal _ _ _ ih => exact (ih declared).imp_right (List.mem_cons_of_mem _)
  | bytes _ _ ih => exact (ih declared).imp_right (List.mem_cons_of_mem _)
  | arithmetic _ _ ih => exact (ih declared).imp_right (List.mem_cons_of_mem _)
  | lookup _ _ ih => exact (ih declared).imp_right (List.mem_cons_of_mem _)
  | assign _ _ ih => exact (ih declared).imp_right (List.mem_cons_of_mem _)
  | function _ _ _ _ ih => exact (ih declared).imp_right (List.mem_cons_of_mem _)
  | call _ _ ih => exact (ih declared).imp_right (List.mem_cons_of_mem _)

end Accepted

theorem Scope.recordArity_symbols (scope : Scope) (name : String) (rhs : Expr) :
    (scope.recordArity name rhs).symbols = scope.symbols := by
  unfold recordArity
  split <;> rfl

theorem Scope.enter_symbols (scope : Scope) (params : List String) :
    (scope.enter params).symbols = hide scope.symbols params := by
  induction params generalizing scope with
  | nil => rfl
  | cons param rest ih => exact ih (scope.addParam param)

theorem Scope.checkTarget_clean {scope : Scope} {name : String}
    (clean : (scope.checkTarget name).errors = []) : scope.symbols.get? name = some .variable := by
  unfold checkTarget at clean
  split at clean <;> simp_all

theorem Expr.check_declare_clean {kind : SymbolKind} {name : String} {rhs : Expr} {scope : Scope}
    (clean : ((declare kind name rhs).check scope).2.errors = []) :
    (rhs.check scope).2.errors = [] ∧ (rhs.check scope).1.symbols.contains name = false ∧
      ((declare kind name rhs).check scope).1 = (rhs.check scope).1.declare kind name rhs := by
  cases taken : (rhs.check scope).1.symbols.contains name with
  | true => simp [check, taken, Findings.error] at clean
  | false =>
      simp only [check, taken, Bool.false_eq_true, if_false] at clean ⊢
      exact ⟨clean, trivial, trivial⟩

theorem nodup_of_repeated {params : List String} : ∀ {seen : List String},
    repeated seen params = [] → params.Nodup ∧ ∀ param ∈ params, param ∉ seen := by
  induction params with
  | nil => simp
  | cons param rest ih =>
      intro seen none
      by_cases member : param ∈ seen
      · simp [repeated, member] at none
      · rw [repeated, if_neg member] at none
        obtain ⟨distinct, apart⟩ := ih none
        constructor
        · rw [List.nodup_cons]
          exact ⟨fun later => apart param later List.mem_cons_self, distinct⟩
        · intro other here
          rcases List.mem_cons.1 here with rfl | later
          · exact member
          · exact fun seenToo => apart other later (List.mem_cons_of_mem _ seenToo)

theorem checkAll_accepted (parts : List Expr)
    (each : ∀ part ∈ parts, ∀ scope : Scope, (part.check scope).2.errors = [] →
      Accepted scope.symbols part.compile (part.check scope).1.symbols) :
    ∀ scope : Scope, (Expr.checkAll parts scope).2.errors = [] →
      Accepted scope.symbols (Expr.compileAll parts) (Expr.checkAll parts scope).1.symbols := by
  induction parts with
  | nil => exact fun scope _ => .nil scope.symbols
  | cons first rest ih =>
      intro scope clean
      simp only [Expr.checkAll, Findings.errors_append, List.append_eq_nil_iff] at clean
      have firstAccepted := each first List.mem_cons_self scope clean.1
      exact firstAccepted.append
        (ih (fun part member => each part (List.mem_cons_of_mem _ member)) _ clean.2)

theorem check_accepted (expr : Expr) : ∀ scope : Scope, (expr.check scope).2.errors = [] →
    Accepted scope.symbols expr.compile (expr.check scope).1.symbols := by
  induction expr using Expr.induction with
  | literal value =>
      intro scope _
      cases value with
      | text content => exact .bytes _ (.nil _)
      | _ => exact .literal nofun nofun (.nil _)
  | identifier name =>
      intro scope clean
      cases declared : scope.symbols.contains name with
      | true => exact .lookup declared (.nil _)
      | false =>
          simp [Expr.check, Scope.checkIdentifier, declared, Findings.error] at clean
  | declare kind name rhs ih =>
      intro scope clean
      obtain ⟨cleanRhs, fresh, declared⟩ := Expr.check_declare_clean clean
      rw [declared, Scope.declare, Scope.recordArity_symbols]
      exact (ih scope cleanRhs).append (.declare kind fresh (.nil _))
  | assign name rhs ih =>
      intro scope clean
      simp only [Expr.check, Findings.errors_append, List.append_eq_nil_iff] at clean
      have declared := Scope.checkTarget_clean clean.1
      have accepted := ih scope clean.2
      simp only [Expr.check, declared, if_true]
      rw [Scope.recordArity_symbols]
      exact accepted.append (.assign (accepted.keeps declared) (.nil _))
  | binary left operator right ihLeft ihRight =>
      intro scope clean
      simp only [Expr.check, Findings.errors_append, List.append_eq_nil_iff] at clean
      exact ((ihLeft scope clean.1).append (ihRight _ clean.2)).append
        (.arithmetic operator (.nil _))
  | function params body ih =>
      intro scope clean
      simp only [Expr.check, Findings.errors_append, List.append_eq_nil_iff,
        List.map_eq_nil_iff] at clean
      have inside := checkAll_accepted body ih _ clean.2
      rw [Scope.enter_symbols] at inside
      exact .function (nodup_of_repeated clean.1).1 inside (.nil _)
  | call callee args ih =>
      intro scope clean
      simp only [Expr.check, Findings.errors_append, List.append_eq_nil_iff] at clean
      cases declared : (Expr.checkAll args scope).1.symbols.contains callee with
      | true =>
          exact (checkAll_accepted args ih scope clean.1).append
            (.lookup declared (.call args.length (.nil _)))
      | false => simp [Scope.checkCallee, declared, Findings.error] at clean

theorem program_accepted {scope : Scope} {program : List Expr}
    (clean : (Expr.checkAll program scope).2.isClean = true) :
    Accepted scope.symbols (Expr.compileAll program)
      (Expr.checkAll program scope).1.symbols :=
  checkAll_accepted program (fun part _ => check_accepted part) scope (List.isEmpty_iff.1 clean)

end LetStack
