import LetStack.Proofs.Analysis.Readings
import LetStack.Proofs.Arity.Counted

/-!
The analysis finds nothing wrong with a program just if all that one comes upon in it is in order,
given the scope to begin with and the bindings before.
-/

namespace LetStack

inductive Latest (sort : Binding → Prop) : List Binding → Binding → List Binding → Prop
  | here {binding : Binding} {earlier : List Binding} : sort binding →
      Latest sort (binding :: earlier) binding earlier
  | before {binding other : Binding} {later earlier : List Binding} : ¬ sort other →
      Latest sort later binding earlier → Latest sort (other :: later) binding earlier

theorem latest_cons_of {sort : Binding → Prop} {first binding : Binding}
    {rest earlier : List Binding} (found : sort first) :
    Latest sort (first :: rest) binding earlier ↔ binding = first ∧ earlier = rest := by
  constructor
  · intro latest
    cases latest with
    | here _ => exact ⟨rfl, rfl⟩
    | before other _ => exact absurd found other
  · rintro ⟨rfl, rfl⟩
    exact .here found

theorem latest_cons_of_not {sort : Binding → Prop} {first binding : Binding}
    {rest earlier : List Binding} (other : ¬ sort first) :
    Latest sort (first :: rest) binding earlier ↔ Latest sort rest binding earlier := by
  constructor
  · intro latest
    cases latest with
    | here found => exact absurd found other
    | before _ latest => exact latest
  · exact .before other

section

variable (scope : Scope)

def Visible (bindings : List Binding) (name : String) : Prop :=
  scope.symbols.contains name = true ∨ ∃ binding ∈ bindings, binding.Introduces name

inductive Assignable (bindings : List Binding) (name : String) : Prop
  | given : (∀ binding ∈ bindings, ¬ binding.Introduces name) →
      scope.symbols.get? name = some .variable → Assignable bindings name
  | introduced {binding : Binding} {earlier : List Binding} :
      Latest (Binding.Introduces name) bindings binding earlier → binding.kind? = some .variable →
      Assignable bindings name

inductive Takes : List Binding → String → Int → Prop
  | given {bindings : List Binding} {name : String} {count : Int} :
      (∀ binding ∈ bindings, ¬ binding.Binds name) → scope.arities.get? name = some count →
      Takes bindings name count
  | function {bindings earlier : List Binding} {binding : Binding} {name : String}
      {params : List String} {body : List Expr} :
      Latest (Binding.Binds name) bindings binding earlier →
      binding.rhs? = some (.function params body) → Takes bindings name params.length
  | renamed {bindings earlier : List Binding} {binding : Binding} {name other : String} {count : Int} :
      Latest (Binding.Binds name) bindings binding earlier →
      binding.rhs? = some (.identifier other) → Takes earlier other count →
      Takes bindings name count

def Reading.InOrder (bindings : List Binding) : Reading → Prop
  | use name => Visible scope bindings name
  | target name => Assignable scope bindings name
  | declaration name => ¬ Visible scope bindings name
  | params names => names.Nodup
  | call callee argCount => Visible scope bindings callee ∧ Takes scope bindings callee argCount

def AllInOrder (readings : List (List Binding × Reading)) : Prop :=
  ∀ entry ∈ readings, entry.2.InOrder scope entry.1

end

variable {scope : Scope} {bindings : List Binding} {first : Binding} {name : String}

theorem visible_cons_iff :
    Visible scope (first :: bindings) name ↔ first.Introduces name ∨ Visible scope bindings name := by
  simp only [Visible, List.mem_cons, exists_eq_or_imp]
  exact or_left_comm

theorem assignable_cons_of (found : first.Introduces name) :
    Assignable scope (first :: bindings) name ↔ first.kind? = some .variable := by
  constructor
  · intro assignable
    cases assignable with
    | given none _ => exact absurd found (none first List.mem_cons_self)
    | introduced latest kind =>
        obtain ⟨rfl, rfl⟩ := (latest_cons_of found).1 latest
        exact kind
  · exact .introduced (.here found)

theorem assignable_cons_of_not (other : ¬ first.Introduces name) :
    Assignable scope (first :: bindings) name ↔ Assignable scope bindings name := by
  constructor
  · intro assignable
    cases assignable with
    | given none given =>
        exact .given (fun binding member => none binding (List.mem_cons_of_mem _ member)) given
    | introduced latest kind => exact .introduced ((latest_cons_of_not other).1 latest) kind
  · intro assignable
    cases assignable with
    | given none given => exact .given (List.forall_mem_cons.2 ⟨other, none⟩) given
    | introduced latest kind => exact .introduced (.before other latest) kind

theorem takes_cons_of {count : Int} (found : first.Binds name) :
    Takes scope (first :: bindings) name count ↔
      (∃ params body, first.rhs? = some (.function params body) ∧ count = params.length) ∨
        ∃ other, first.rhs? = some (.identifier other) ∧ Takes scope bindings other count := by
  constructor
  · intro takes
    cases takes with
    | given none _ => exact absurd found (none first List.mem_cons_self)
    | function latest literal =>
        obtain ⟨rfl, rfl⟩ := (latest_cons_of found).1 latest
        exact Or.inl ⟨_, _, literal, rfl⟩
    | renamed latest identifier takes =>
        obtain ⟨rfl, rfl⟩ := (latest_cons_of found).1 latest
        exact Or.inr ⟨_, identifier, takes⟩
  · rintro (⟨params, body, literal, rfl⟩ | ⟨other, identifier, takes⟩)
    · exact .function (.here found) literal
    · exact .renamed (.here found) identifier takes

theorem takes_cons_of_not {count : Int} (other : ¬ first.Binds name) :
    Takes scope (first :: bindings) name count ↔ Takes scope bindings name count := by
  constructor
  · intro takes
    cases takes with
    | given none given =>
        exact .given (fun binding member => none binding (List.mem_cons_of_mem _ member)) given
    | function latest literal => exact .function ((latest_cons_of_not other).1 latest) literal
    | renamed latest identifier takes =>
        exact .renamed ((latest_cons_of_not other).1 latest) identifier takes
  · intro takes
    cases takes with
    | given none given => exact .given (List.forall_mem_cons.2 ⟨other, none⟩) given
    | function latest literal => exact .function (.before other latest) literal
    | renamed latest identifier takes => exact .renamed (.before other latest) identifier takes

theorem allInOrder_nil : AllInOrder scope [] := List.forall_mem_nil _

theorem allInOrder_singleton_iff {reading : Reading} :
    AllInOrder scope [(bindings, reading)] ↔ reading.InOrder scope bindings :=
  List.forall_mem_singleton

theorem allInOrder_cons_iff {reading : Reading} {later : List (List Binding × Reading)} :
    AllInOrder scope ((bindings, reading) :: later) ↔
      reading.InOrder scope bindings ∧ AllInOrder scope later :=
  List.forall_mem_cons

theorem allInOrder_append_iff {former later : List (List Binding × Reading)} :
    AllInOrder scope (former ++ later) ↔ AllInOrder scope former ∧ AllInOrder scope later :=
  List.forall_mem_append

structure Reflects (scope : Scope) (bindings : List Binding) (current : Scope) : Prop where
  visible : ∀ name, current.symbols.contains name = true ↔ Visible scope bindings name
  assignable : ∀ name, current.symbols.get? name = some .variable ↔ Assignable scope bindings name
  takes : ∀ name count, current.arities.get? name = some count ↔ Takes scope bindings name count

theorem reflects_nil (scope : Scope) : Reflects scope [] scope where
  visible name := by simp [Visible]
  assignable name := by
    constructor
    · exact .given (fun _ impossible => absurd impossible List.not_mem_nil)
    · intro assignable
      cases assignable with
      | given _ given => exact given
      | introduced latest _ => cases latest
  takes name count := by
    constructor
    · exact .given (fun _ impossible => absurd impossible List.not_mem_nil)
    · intro takes
      cases takes with
      | given _ given => exact given
      | function latest _ => cases latest
      | renamed latest _ _ => cases latest

theorem Scope.arityOf?_iff {scope : Scope} {rhs : Expr} {count : Int} :
    scope.arityOf? rhs = some count ↔
      (∃ params body, rhs = .function params body ∧ count = params.length) ∨
        ∃ other, rhs = .identifier other ∧ scope.arities.get? other = some count := by
  cases rhs <;> simp [arityOf?, eq_comm]

theorem Scope.get?_recordArity (scope : Scope) (name query : String) (rhs : Expr) :
    (scope.recordArity name rhs).arities.get? query =
      if query = name then scope.arityOf? rhs else scope.arities.get? query := by
  unfold recordArity
  split <;> simp_all

namespace Reflects

variable {current next : Scope}

theorem cons (reflects : Reflects scope bindings current)
    (symbols : ∀ query, next.symbols.get? query =
      if query = first.name then first.kind?.or (current.symbols.get? query)
      else current.symbols.get? query)
    (arities : ∀ query, next.arities.get? query =
      if query = first.name then first.rhs?.bind current.arityOf?
      else current.arities.get? query) : Reflects scope (first :: bindings) next := by
  have introduced : ∀ query, first.Introduces query →
      next.symbols.get? query = first.kind? ∧ first.kind?.isSome = true := by
    rintro query ⟨rfl, introduces⟩
    obtain ⟨kind, same⟩ := Option.isSome_iff_exists.1 introduces
    rw [symbols, if_pos rfl, same, Option.some_or]
    exact ⟨rfl, rfl⟩
  have kept : ∀ query, ¬ first.Introduces query →
      next.symbols.get? query = current.symbols.get? query := by
    intro query apart
    rw [symbols]
    split
    · rename_i same
      have none : first.kind? = none := by simpa [Binding.Introduces, same] using apart
      rw [none, Option.none_or]
    · rfl
  constructor
  · intro query
    rw [visible_cons_iff, ← reflects.visible, Table.contains, Table.contains]
    by_cases introduces : first.Introduces query
    · simp [introduces, introduced query introduces]
    · simp [introduces, kept query introduces]
  · intro query
    by_cases introduces : first.Introduces query
    · rw [assignable_cons_of introduces, (introduced query introduces).1]
    · rw [assignable_cons_of_not introduces, kept query introduces, reflects.assignable]
  · intro query count
    rw [arities]
    by_cases same : query = first.name
    · simp only [if_pos same, takes_cons_of same.symm, ← reflects.takes, Option.bind_eq_some_iff,
        Scope.arityOf?_iff]
      constructor
      · rintro ⟨rhs, bound, ⟨params, body, rfl, count⟩ | ⟨other, rfl, known⟩⟩
        · exact Or.inl ⟨params, body, bound, count⟩
        · exact Or.inr ⟨other, bound, known⟩
      · rintro (⟨params, body, bound, count⟩ | ⟨other, bound, known⟩)
        · exact ⟨_, bound, Or.inl ⟨params, body, rfl, count⟩⟩
        · exact ⟨_, bound, Or.inr ⟨other, rfl, known⟩⟩
    · rw [if_neg same, takes_cons_of_not (Ne.symm same), reflects.takes]

theorem enter (params : List String) : ∀ {bindings : List Binding} {current : Scope},
    Reflects scope bindings current →
      Reflects scope ((params.map .param).reverse ++ bindings) (current.enter params) := by
  induction params with
  | nil => exact id
  | cons param rest ih =>
      intro bindings current reflects
      rw [List.map_cons, List.reverse_cons, List.append_assoc]
      apply ih
      apply reflects.cons
      · exact fun query => Table.get?_set current.symbols param query .constant
      · exact fun query => Table.get?_erase current.arities param query

theorem declare (reflects : Reflects scope bindings current) (kind : SymbolKind) (name : String)
    (rhs : Expr) :
    Reflects scope (.declared kind name rhs :: bindings) (current.declare kind name rhs) := by
  apply reflects.cons
  · intro query
    rw [Scope.declare, Scope.recordArity_symbols, Table.get?_set]
    rfl
  · intro query
    rw [Scope.declare, Scope.get?_recordArity]
    rfl

theorem assign (reflects : Reflects scope bindings current) (name : String) (rhs : Expr) :
    Reflects scope (.assigned name rhs :: bindings) (current.recordArity name rhs) := by
  apply reflects.cons
  · intro query
    rw [Scope.recordArity_symbols]
    simp [Binding.kind?]
  · intro query
    rw [Scope.get?_recordArity]
    rfl

end Reflects

theorem repeated_of_nodup {params : List String} : ∀ {seen : List String}, params.Nodup →
    (∀ param ∈ params, param ∉ seen) → repeated seen params = [] := by
  induction params with
  | nil => exact fun _ _ => rfl
  | cons param rest ih =>
      intro seen distinct apart
      obtain ⟨single, distinct⟩ := List.nodup_cons.1 distinct
      obtain ⟨fresh, apart⟩ := List.forall_mem_cons.1 apart
      rw [repeated, if_neg fresh]
      apply ih distinct
      intro other member
      exact List.not_mem_cons_of_ne_of_not_mem (fun same => single (same ▸ member))
        (apart other member)

theorem repeated_eq_nil_iff {params : List String} : repeated [] params = [] ↔ params.Nodup :=
  ⟨fun none => (nodup_of_repeated none).1,
    fun distinct => repeated_of_nodup distinct fun _ _ => List.not_mem_nil⟩

theorem Scope.checkIdentifier_iff {current : Scope} (reflects : Reflects scope bindings current) :
    (current.checkIdentifier name).errors = [] ↔ Visible scope bindings name := by
  rw [← reflects.visible, Scope.checkIdentifier]
  split
  · rename_i declared
    exact iff_of_true rfl declared
  · rename_i undeclared
    exact iff_of_false (List.cons_ne_nil _ _) undeclared

theorem Scope.checkTarget_iff {current : Scope} (reflects : Reflects scope bindings current) :
    (current.checkTarget name).errors = [] ↔ Assignable scope bindings name := by
  rw [← reflects.assignable, Scope.checkTarget]
  split <;> simp_all

theorem Scope.checkCallee_iff {current : Scope} (reflects : Reflects scope bindings current)
    (argCount : Nat) : (current.checkCallee name argCount).errors = [] ↔
      Visible scope bindings name ∧ Takes scope bindings name argCount := by
  rw [← reflects.visible, ← reflects.takes, Scope.checkCallee]
  split
  · rename_i declared
    cases known : current.arities.get? name with
    | none => simp [Findings.error]
    | some count =>
        by_cases same : count = argCount
        · simp [same, declared, Findings.none]
        · simp [same, Findings.error]
  · rename_i undeclared
    exact iff_of_false (List.cons_ne_nil _ _) fun both => undeclared both.1

def Expr.ChecksInOrder (scope : Scope) (expr : Expr) : Prop :=
  ∀ bindings current, Reflects scope bindings current →
    ((expr.check current).2.errors = [] ↔ AllInOrder scope (expr.readings bindings)) ∧
      ((expr.check current).2.errors = [] →
        Reflects scope (expr.bindings ++ bindings) (expr.check current).1)

theorem checkAll_inOrder (parts : List Expr) (each : ∀ part ∈ parts, part.ChecksInOrder scope) :
    ∀ bindings current, Reflects scope bindings current →
      ((Expr.checkAll parts current).2.errors = [] ↔
          AllInOrder scope (Expr.readingsOfAll parts bindings)) ∧
        ((Expr.checkAll parts current).2.errors = [] →
          Reflects scope (Expr.bindingsOfAll parts ++ bindings)
            (Expr.checkAll parts current).1) := by
  induction parts with
  | nil =>
      intro bindings current reflects
      exact ⟨iff_of_true rfl allInOrder_nil, fun _ => reflects⟩
  | cons first rest ih =>
      intro bindings current reflects
      obtain ⟨firstIff, firstAfter⟩ := each first List.mem_cons_self bindings current reflects
      have restChecked := ih (fun part member => each part (List.mem_cons_of_mem _ member))
        (first.bindings ++ bindings) (first.check current).1
      simp only [Expr.checkAll, Findings.errors_append, List.append_eq_nil_iff, Expr.readingsOfAll,
        allInOrder_append_iff, ← firstIff, Expr.bindingsOfAll, List.append_assoc]
      exact ⟨and_congr_right fun clean => (restChecked (firstAfter clean)).1,
        fun clean => (restChecked (firstAfter clean.1)).2 clean.2⟩

theorem Expr.checksInOrder (scope : Scope) (expr : Expr) : expr.ChecksInOrder scope := by
  induction expr using Expr.induction with
  | literal value =>
      intro bindings current reflects
      exact ⟨iff_of_true rfl allInOrder_nil, fun _ => reflects⟩
  | identifier name =>
      intro bindings current reflects
      refine ⟨?_, fun _ => reflects⟩
      rw [Expr.readings, allInOrder_singleton_iff]
      exact Scope.checkIdentifier_iff reflects
  | declare kind name rhs ih =>
      intro bindings current reflects
      obtain ⟨rhsIff, rhsAfter⟩ := ih bindings current reflects
      rw [Expr.readings, allInOrder_append_iff, ← rhsIff, allInOrder_singleton_iff, Expr.check]
      by_cases taken : (rhs.check current).1.symbols.contains name = true
      · simp only [taken, if_true, Findings.errors_append, List.append_eq_nil_iff]
        refine ⟨and_congr_right fun clean => iff_of_false (List.cons_ne_nil _ _) ?_,
          fun impossible => absurd impossible.2 (List.cons_ne_nil _ _)⟩
        exact not_not_intro (((rhsAfter clean).visible name).1 taken)
      · simp only [taken, if_false, Bool.false_eq_true]
        refine ⟨⟨fun clean => ⟨clean, ?_⟩, And.left⟩,
          fun clean => (rhsAfter clean).declare kind name rhs⟩
        exact mt ((rhsAfter clean).visible name).2 taken
  | assign name rhs ih =>
      intro bindings current reflects
      obtain ⟨rhsIff, rhsAfter⟩ := ih bindings current reflects
      rw [Expr.readings, allInOrder_cons_iff, ← rhsIff, Reading.InOrder,
        ← Scope.checkTarget_iff reflects]
      simp only [Expr.check, Findings.errors_append, List.append_eq_nil_iff, true_and]
      rintro ⟨clean, cleanRhs⟩
      rw [if_pos (Scope.checkTarget_clean clean)]
      exact (rhsAfter cleanRhs).assign name rhs
  | binary left operator right ihLeft ihRight =>
      intro bindings current reflects
      obtain ⟨leftIff, leftAfter⟩ := ihLeft bindings current reflects
      have rightChecked := ihRight (left.bindings ++ bindings) (left.check current).1
      simp only [Expr.check, Findings.errors_append, List.append_eq_nil_iff, Expr.readings,
        allInOrder_append_iff, ← leftIff, Expr.bindings, List.append_assoc]
      exact ⟨and_congr_right fun clean => (rightChecked (leftAfter clean)).1,
        fun clean => (rightChecked (leftAfter clean.1)).2 clean.2⟩
  | function params body ih =>
      intro bindings current reflects
      refine ⟨?_, fun _ => reflects⟩
      have inside := (checkAll_inOrder body ih _ _ (reflects.enter params)).1
      rw [Expr.readings, allInOrder_cons_iff, ← inside, Reading.InOrder, ← repeated_eq_nil_iff]
      simp only [Expr.check, Findings.errors_append, List.append_eq_nil_iff, List.map_eq_nil_iff]
  | call callee args ih =>
      intro bindings current reflects
      obtain ⟨argsIff, argsAfter⟩ := checkAll_inOrder args ih bindings current reflects
      rw [Expr.readings, allInOrder_append_iff, ← argsIff, allInOrder_singleton_iff]
      simp only [Expr.check, Findings.errors_append, List.append_eq_nil_iff]
      exact ⟨and_congr_right fun clean => Scope.checkCallee_iff (argsAfter clean) args.length,
        fun clean => argsAfter clean.1⟩

theorem analysis_clean_iff (scope : Scope) (program : List Expr) :
    (scope.analyze program).2.isClean = true ↔ AllInOrder scope (programReadings program) := by
  have checked := (checkAll_inOrder program (fun part _ => part.checksInOrder scope) [] scope
    (reflects_nil scope)).1
  rw [programReadings, ← checked]
  exact List.isEmpty_iff

end LetStack
