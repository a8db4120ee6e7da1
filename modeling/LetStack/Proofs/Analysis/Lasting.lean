import LetStack.Proofs.Analysis.Ordered
import LetStack.Proofs.Scoping.Accepted

/-!
The scope of a session. What is declared in it stays declared, as the same kind and at the same place,
what is recorded of a constant is recorded for good, and function bodies leave no trace.
-/

namespace LetStack

namespace Scope

def RecordsDeclared (scope : Scope) : Prop :=
  ∀ name, scope.arities.contains name = true → scope.symbols.contains name = true

structure Keeps (before after : Scope) : Prop where
  symbols : before.symbols.entries <+: after.symbols.entries
  constants : ∀ name, before.symbols.get? name = some .constant →
    after.arities.get? name = before.arities.get? name
  recorded : before.RecordsDeclared → after.RecordsDeclared

variable {scope first second third : Scope} {name : String}

theorem Keeps.get? {kind : SymbolKind} (keeps : first.Keeps second)
    (declared : first.symbols.get? name = some kind) : second.symbols.get? name = some kind :=
  Table.get?_of_prefix declared keeps.symbols

theorem Keeps.refl (scope : Scope) : scope.Keeps scope :=
  ⟨List.prefix_rfl, fun _ _ => rfl, id⟩

theorem Keeps.trans (keeps : first.Keeps second) (further : second.Keeps third) :
    first.Keeps third where
  symbols := keeps.symbols.trans further.symbols
  constants := fun name constant =>
    (further.constants name (keeps.get? constant)).trans (keeps.constants name constant)
  recorded := fun recorded => further.recorded (keeps.recorded recorded)

theorem RecordsDeclared.recordArity (recorded : scope.RecordsDeclared)
    (declared : scope.symbols.contains name = true) (rhs : Expr) :
    (scope.recordArity name rhs).RecordsDeclared := by
  intro query counted
  rw [recordArity_symbols]
  by_cases same : query = name
  · rw [same]
    exact declared
  · rw [Table.contains, get?_recordArity, if_neg same] at counted
    exact recorded query counted

theorem RecordsDeclared.set (recorded : scope.RecordsDeclared) (name : String) (kind : SymbolKind) :
    RecordsDeclared { scope with symbols := scope.symbols.set name kind } :=
  fun query counted => (Table.contains_set_iff _ _ _ _).2 (Or.inr (recorded query counted))

theorem RecordsDeclared.enter (recorded : scope.RecordsDeclared) (params : List String) :
    (scope.enter params).RecordsDeclared := by
  induction params generalizing scope with
  | nil => exact recorded
  | cons param rest ih =>
      apply ih
      intro query counted
      simp only [addParam, Table.contains, Table.get?_erase] at counted
      split at counted
      · cases counted
      · exact recorded.set param .constant query counted

theorem keeps_recordArity (assignable : scope.symbols.get? name = some .variable) (rhs : Expr) :
    scope.Keeps (scope.recordArity name rhs) where
  symbols := recordArity_symbols scope name rhs ▸ List.prefix_rfl
  constants := by
    intro query constant
    have different : query ≠ name := by
      rintro rfl
      rw [assignable] at constant
      cases constant
    rw [get?_recordArity, if_neg different]
  recorded := by
    intro recorded
    exact recorded.recordArity ((Table.contains_iff_exists_get? _ _).2 ⟨_, assignable⟩) rhs

theorem keeps_declare (fresh : scope.symbols.contains name = false) (kind : SymbolKind)
    (rhs : Expr) : scope.Keeps (scope.declare kind name rhs) where
  symbols := by
    rw [declare, recordArity_symbols, Table.entries_set_of_fresh _ _ _ fresh]
    exact List.prefix_append _ _
  constants := by
    intro query constant
    have different : query ≠ name := by
      rintro rfl
      rw [(Table.contains_eq_false_iff _ _).1 fresh] at constant
      cases constant
    rw [declare, get?_recordArity, if_neg different]
  recorded := by
    intro recorded
    exact (recorded.set name kind).recordArity
      ((Table.contains_set_iff _ _ _ _).2 (Or.inl rfl)) rhs

structure LeadsOn (start : Scope) (trail : List Scope) (final : Scope) : Prop where
  ordered : trail.Pairwise Keeps
  begins : ∀ scope ∈ trail, start.Keeps scope
  ends : ∀ scope ∈ trail, scope.Keeps final
  whole : start.Keeps final

namespace LeadsOn

variable {start middle final : Scope} {trail more : List Scope}

theorem nil (scope : Scope) : scope.LeadsOn [] scope :=
  ⟨.nil, List.forall_mem_nil _, List.forall_mem_nil _, .refl scope⟩

theorem step (keeps : start.Keeps final) : start.LeadsOn [final] final where
  ordered := List.pairwise_singleton _ _
  begins := List.forall_mem_singleton.2 keeps
  ends := List.forall_mem_singleton.2 (.refl final)
  whole := keeps

theorem append (leads : start.LeadsOn trail middle) (further : middle.LeadsOn more final) :
    start.LeadsOn (trail ++ more) final where
  ordered := List.pairwise_append.2 ⟨leads.ordered, further.ordered,
    fun earlier member later memberToo =>
      (leads.ends earlier member).trans (further.begins later memberToo)⟩
  begins := List.forall_mem_append.2
    ⟨leads.begins, fun later member => leads.whole.trans (further.begins later member)⟩
  ends := List.forall_mem_append.2
    ⟨fun earlier member => (leads.ends earlier member).trans further.whole, further.ends⟩
  whole := leads.whole.trans further.whole

end LeadsOn

end Scope

mutual

/-- The scopes after the parts of an expression, in the order in which these are done with, and the
scope after the whole. Function bodies do not count. -/
def Expr.trail : Expr → Scope → List Scope
  | .literal value, scope => [((Expr.literal value).check scope).1]
  | .identifier name, scope => [((Expr.identifier name).check scope).1]
  | .declare kind name rhs, scope =>
    rhs.trail scope ++ [((Expr.declare kind name rhs).check scope).1]
  | .assign name rhs, scope => rhs.trail scope ++ [((Expr.assign name rhs).check scope).1]
  | .binary left operator right, scope =>
    left.trail scope ++ right.trail (left.check scope).1 ++
      [((Expr.binary left operator right).check scope).1]
  | .function params body, scope => [((Expr.function params body).check scope).1]
  | .call callee args, scope =>
    Expr.trailAll args scope ++ [((Expr.call callee args).check scope).1]

def Expr.trailAll : List Expr → Scope → List Scope
  | [], _ => []
  | first :: rest, scope => first.trail scope ++ Expr.trailAll rest (first.check scope).1

end

theorem trailAll_leadsOn (parts : List Expr)
    (each : ∀ part ∈ parts, ∀ scope : Scope, scope.LeadsOn (part.trail scope) (part.check scope).1) :
    ∀ scope : Scope,
      scope.LeadsOn (Expr.trailAll parts scope) (Expr.checkAll parts scope).1 := by
  induction parts with
  | nil => exact .nil
  | cons first rest ih =>
      intro scope
      exact (each first List.mem_cons_self scope).append
        (ih (fun part member => each part (List.mem_cons_of_mem _ member)) _)

theorem trail_leadsOn (expr : Expr) :
    ∀ scope : Scope, scope.LeadsOn (expr.trail scope) (expr.check scope).1 := by
  induction expr using Expr.induction with
  | literal value => exact fun scope => .step (.refl scope)
  | identifier name => exact fun scope => .step (.refl scope)
  | declare kind name rhs ih =>
      intro scope
      refine (ih scope).append (.step ?_)
      rw [Expr.check]
      split
      · exact .refl _
      · rename_i fresh
        exact Scope.keeps_declare (Bool.not_eq_true _ ▸ fresh) kind rhs
  | assign name rhs ih =>
      intro scope
      refine (ih scope).append (.step ?_)
      rw [Expr.check]
      by_cases assignable : scope.symbols.get? name = some .variable
      · -- the right-hand side may declare names, but not this one
        rw [if_pos assignable]
        exact Scope.keeps_recordArity ((ih scope).whole.get? assignable) rhs
      · rw [if_neg assignable]
        exact .refl _
  | binary left operator right ihLeft ihRight =>
      exact fun scope => ((ihLeft scope).append (ihRight _)).append (.step (.refl _))
  | function params body _ => exact fun scope => .step (.refl scope)
  | call callee args ih =>
      exact fun scope => (trailAll_leadsOn args ih scope).append (.step (.refl _))

theorem program_leadsOn (program : List Expr) (scope : Scope) :
    scope.LeadsOn (Expr.trailAll program scope) (Expr.checkAll program scope).1 :=
  trailAll_leadsOn program (fun part _ => trail_leadsOn part) scope

/-! What an accepted program adds is what it declares outside function bodies. -/

def introduced (bindings : List Binding) : List (String × SymbolKind) :=
  bindings.reverse.filterMap fun binding => binding.kind?.map fun kind => (binding.name, kind)

theorem introduced_append (later earlier : List Binding) :
    introduced (later ++ earlier) = introduced earlier ++ introduced later := by
  rw [introduced, List.reverse_append, List.filterMap_append]
  rfl

theorem introduced_declared (kind : SymbolKind) (name : String) (rhs : Expr)
    (earlier : List Binding) :
    introduced (.declared kind name rhs :: earlier) = introduced earlier ++ [(name, kind)] :=
  introduced_append [.declared kind name rhs] earlier

theorem introduced_assigned (name : String) (rhs : Expr) (earlier : List Binding) :
    introduced (.assigned name rhs :: earlier) = introduced earlier := by
  have nothing : introduced [.assigned name rhs] = [] := rfl
  have split := introduced_append [.assigned name rhs] earlier
  rwa [nothing, List.append_nil] at split

theorem mem_introduced_iff {bindings : List Binding} {name : String} :
    name ∈ (introduced bindings).map Prod.fst ↔ ∃ binding ∈ bindings, binding.Introduces name := by
  simp only [introduced, List.mem_map, List.mem_filterMap, List.mem_reverse, Option.map_eq_some_iff,
    Binding.Introduces, Option.isSome_iff_exists]
  constructor
  · rintro ⟨_, ⟨binding, member, kind, same, rfl⟩, rfl⟩
    exact ⟨binding, member, rfl, kind, same⟩
  · rintro ⟨binding, member, rfl, kind, same⟩
    exact ⟨_, ⟨binding, member, kind, same, rfl⟩, rfl⟩

theorem checkAll_entries (parts : List Expr)
    (each : ∀ part ∈ parts, ∀ scope : Scope, (part.check scope).2.errors = [] →
      (part.check scope).1.symbols.entries = scope.symbols.entries ++ introduced part.bindings) :
    ∀ scope : Scope, (Expr.checkAll parts scope).2.errors = [] →
      (Expr.checkAll parts scope).1.symbols.entries =
        scope.symbols.entries ++ introduced (Expr.bindingsOfAll parts) := by
  induction parts with
  | nil => exact fun scope _ => (List.append_nil _).symm
  | cons first rest ih =>
      intro scope clean
      simp only [Expr.checkAll, Findings.errors_append, List.append_eq_nil_iff] at clean
      have restEntries := ih (fun part member => each part (List.mem_cons_of_mem _ member)) _ clean.2
      rw [Expr.checkAll, restEntries, each first List.mem_cons_self scope clean.1,
        Expr.bindingsOfAll, introduced_append, List.append_assoc]

theorem check_entries (expr : Expr) : ∀ scope : Scope, (expr.check scope).2.errors = [] →
    (expr.check scope).1.symbols.entries = scope.symbols.entries ++ introduced expr.bindings := by
  induction expr using Expr.induction with
  | literal value => exact fun scope _ => (List.append_nil _).symm
  | identifier name => exact fun scope _ => (List.append_nil _).symm
  | declare kind name rhs ih =>
      intro scope clean
      obtain ⟨cleanRhs, fresh, declared⟩ := Expr.check_declare_clean clean
      rw [declared, Scope.declare, Scope.recordArity_symbols, Table.entries_set_of_fresh _ _ _ fresh,
        ih scope cleanRhs, Expr.bindings, introduced_declared, List.append_assoc]
  | assign name rhs ih =>
      intro scope clean
      simp only [Expr.check, Findings.errors_append, List.append_eq_nil_iff] at clean
      simp only [Expr.check, Scope.checkTarget_clean clean.1, if_true]
      rw [Scope.recordArity_symbols, ih scope clean.2, Expr.bindings, introduced_assigned]
  | binary left operator right ihLeft ihRight =>
      intro scope clean
      simp only [Expr.check, Findings.errors_append, List.append_eq_nil_iff] at clean
      rw [Expr.check, ihRight _ clean.2, ihLeft scope clean.1, Expr.bindings, introduced_append,
        List.append_assoc]
  | function params body _ => exact fun scope _ => (List.append_nil _).symm
  | call callee args ih =>
      intro scope clean
      simp only [Expr.check, Findings.errors_append, List.append_eq_nil_iff] at clean
      rw [Expr.check, Expr.bindings]
      exact checkAll_entries args ih scope clean.1

/-! Programs that are handed in one after the other. -/

theorem Expr.checkItems_eq (program : List (Item Expr)) (scope : Scope) :
    checkItems program scope = (Item.allKnown program).map fun parts => checkAll parts scope := by
  induction program generalizing scope with
  | nil => rfl
  | cons item rest ih =>
      cases item with
      | unknown kind => rfl
      | known first =>
          rw [checkItems, ih, Item.allKnown]
          cases Item.allKnown rest <;> rfl

namespace Scope

theorem analyzeItems_of_error {program : List (Item Expr)} {kind : String}
    (unknown : Item.allKnown program = .error kind) (scope : Scope) :
    scope.analyzeItems program = (.error kind, scope) := by
  rw [analyzeItems, Expr.checkItems_eq, unknown]
  rfl

theorem analyzeItems_of_ok {program : List (Item Expr)} {parts : List Expr}
    (known : Item.allKnown program = .ok parts) (scope : Scope) :
    scope.analyzeItems program = (.ok (scope.analyze parts).2, (scope.analyze parts).1) := by
  rw [analyzeItems, Expr.checkItems_eq, known]
  rfl

theorem keeps_analyze (scope : Scope) (program : List Expr) :
    scope.Keeps (scope.analyze program).1 := by
  rw [analyze]
  cases (Expr.checkAll program scope).2.isClean with
  | true => exact (program_leadsOn program scope).whole
  | false => exact .refl scope

theorem keeps_analyzeItems (scope : Scope) (program : List (Item Expr)) :
    scope.Keeps (scope.analyzeItems program).2 := by
  cases known : Item.allKnown program with
  | error kind =>
      rw [analyzeItems_of_error known]
      exact .refl scope
  | ok parts =>
      rw [analyzeItems_of_ok known]
      exact scope.keeps_analyze parts

theorem analyzeItems_eq_of_rejected {scope : Scope} {program : List (Item Expr)}
    (rejected : ∀ findings, (scope.analyzeItems program).1 = .ok findings →
      findings.isClean = false) : (scope.analyzeItems program).2 = scope := by
  cases known : Item.allKnown program with
  | error kind => rw [analyzeItems_of_error known]
  | ok parts =>
      rw [analyzeItems_of_ok known] at rejected ⊢
      have wrong : (Expr.checkAll parts scope).2.isClean = false := rejected _ rfl
      simp only [analyze, wrong, Bool.false_eq_true, if_false]

def Introduces (program : List (Item Expr)) (name : String) : Prop :=
  ∃ parts, Item.allKnown program = .ok parts ∧
    ∃ binding ∈ Expr.bindingsOfAll parts, binding.Introduces name

theorem contains_analyzeItems {scope : Scope} {program : List (Item Expr)} {name : String}
    (declared : (scope.analyzeItems program).2.symbols.contains name = true) :
    scope.symbols.contains name = true ∨ Introduces program name := by
  cases known : Item.allKnown program with
  | error kind =>
      rw [analyzeItems_of_error known] at declared
      exact Or.inl declared
  | ok parts =>
      rw [analyzeItems_of_ok known] at declared
      cases clean : (Expr.checkAll parts scope).2.isClean with
      | false =>
          simp only [analyze, clean, Bool.false_eq_true, if_false] at declared
          exact Or.inl declared
      | true =>
          simp only [analyze, clean, if_true] at declared
          have entries := checkAll_entries parts (fun part _ => check_entries part) scope
            (List.isEmpty_iff.1 clean)
          rw [Table.contains_iff_mem_names, Table.names, entries, List.map_append,
            List.mem_append] at declared
          rcases declared with before | added
          · exact Or.inl ((Table.contains_iff_mem_names _ _).2 before)
          · exact Or.inr ⟨parts, known, mem_introduced_iff.1 added⟩

def analyses : List (List (Item Expr)) → Scope → List Scope
  | [], _ => []
  | program :: rest, scope =>
    (scope.analyzeItems program).2 :: analyses rest (scope.analyzeItems program).2

theorem analyses_keep (programs : List (List (Item Expr))) (start : Scope) :
    (start :: analyses programs start).Pairwise Keeps := by
  induction programs generalizing start with
  | nil => exact List.pairwise_singleton _ _
  | cons program rest ih =>
      have step := start.keeps_analyzeItems program
      have later := ih (start.analyzeItems program).2
      refine List.Pairwise.cons ?_ later
      exact List.forall_mem_cons.2
        ⟨step, fun scope member => step.trans (List.rel_of_pairwise_cons later member)⟩

theorem analyses_names (programs : List (List (Item Expr))) (start : Scope) :
    ∀ scope ∈ analyses programs start, ∀ name, scope.symbols.contains name = true →
      start.symbols.contains name = true ∨ ∃ program ∈ programs, Introduces program name := by
  induction programs generalizing start with
  | nil => exact List.forall_mem_nil _
  | cons program rest ih =>
      have step : ∀ name, (start.analyzeItems program).2.symbols.contains name = true →
          start.symbols.contains name = true ∨
            ∃ other ∈ program :: rest, Introduces other name := by
        intro name declared
        exact (contains_analyzeItems declared).imp_right
          fun introduces => ⟨program, List.mem_cons_self, introduces⟩
      refine List.forall_mem_cons.2 ⟨step, ?_⟩
      intro scope member name declared
      rcases ih _ scope member name declared with earlier | ⟨other, among, introduces⟩
      · exact step name earlier
      · exact Or.inr ⟨other, List.mem_cons_of_mem _ among, introduces⟩

end Scope

/-- Whatever programs are handed in, the scope keeps what it has from one to the next, has only names
that it had to begin with or that one of them declares outside function bodies, and is left alone by
those that are rejected. Within a program too, in function bodies or not, it keeps what it has. -/
theorem scope_only_grows (start : Scope) (recorded : start.RecordsDeclared)
    (programs : List (List (Item Expr))) :
    (∀ scope ∈ Scope.analyses programs start, scope.RecordsDeclared) ∧
    (start :: Scope.analyses programs start).Pairwise Scope.Keeps ∧
    (∀ scope ∈ Scope.analyses programs start, ∀ name, scope.symbols.contains name = true →
      start.symbols.contains name = true ∨ ∃ program ∈ programs, Scope.Introduces program name) ∧
    (∀ (scope : Scope) (program : List (Item Expr)),
      (∀ findings, (scope.analyzeItems program).1 = .ok findings → findings.isClean = false) →
        (scope.analyzeItems program).2 = scope) ∧
    ∀ (scope : Scope) (params : List String) (parts : List Expr), scope.RecordsDeclared →
      (scope.enter params).RecordsDeclared ∧
      scope.LeadsOn (Expr.trailAll parts scope) (Expr.checkAll parts scope).1 ∧
      ∀ later ∈ Expr.trailAll parts scope, later.RecordsDeclared := by
  have kept := Scope.analyses_keep programs start
  refine ⟨?_, kept, Scope.analyses_names programs start,
    fun _ _ rejected => Scope.analyzeItems_eq_of_rejected rejected, ?_⟩
  · intro scope member
    exact (List.rel_of_pairwise_cons kept member).recorded recorded
  · intro scope params parts scopeRecorded
    have leads := program_leadsOn parts scope
    exact ⟨scopeRecorded.enter params, leads,
      fun later member => (leads.begins later member).recorded scopeRecorded⟩

def functionAndVariable : Scope :=
  ⟨.ofEntries [("f", .constant), ("x", .variable)], .ofEntries [("f", 2)]⟩

def threePrograms : List (List (Item Expr)) :=
  [[.known (.declare .variable "g"
        (.function ["p"] [.declare .variable "q" (.identifier "p"), .identifier "q"])),
      .known (.declare .constant "h" (.identifier "f")),
      .known (.assign "x" (.declare .variable "y" (.literal (.int 1))))],
    [.known (.declare .variable "z" (.literal (.int 1))),
      .known (.assign "f" (.literal (.int 1)))],
    [.known (.declare .variable "z" (.literal (.int 1))), .unknown "while"]]

theorem scope_only_grows_over_three : functionAndVariable.RecordsDeclared ∧
    (functionAndVariable :: Scope.analyses threePrograms functionAndVariable).Pairwise Scope.Keeps ∧
    ∃ scope : Scope,
      Scope.analyses threePrograms functionAndVariable = [scope, scope, scope] ∧
      scope.symbols.entries = [("f", .constant), ("x", .variable), ("g", .variable),
        ("h", .constant), ("y", .variable)] ∧
      scope.arities.entries = [("f", 2), ("g", 1), ("h", 2)] ∧ scope.RecordsDeclared := by
  have recorded : functionAndVariable.RecordsDeclared := by
    intro name counted
    rw [Table.contains_iff_mem_names] at counted ⊢
    exact List.mem_cons.2 (Or.inl (List.mem_singleton.1 counted))
  have grows := scope_only_grows functionAndVariable recorded threePrograms
  exact ⟨recorded, grows.2.1, _, rfl, rfl, rfl, grows.1 _ List.mem_cons_self⟩

end LetStack
