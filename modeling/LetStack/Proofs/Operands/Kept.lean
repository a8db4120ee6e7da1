import LetStack.Analysis.Check
import LetStack.Code.Compile
import LetStack.Proofs.Machine.Points
import LetStack.Proofs.Operands.Heights
import LetStack.Proofs.Tree

/-!
What an expression finds on the stack is still there after it, unless a call among its operands has
left no value. The operator then takes what an earlier statement or an outer expression has left.
-/

namespace LetStack

namespace Expr

/-- The parts that run before an expression does what is its own, in order. -/
def operands : Expr → List Expr
  | literal _ | identifier _ | function _ _ => []
  | declare _ _ rhs | assign _ rhs => [rhs]
  | binary left _ right => [left, right]
  | call _ args => args

def closing : Expr → List Instr
  | literal value => [value.compile]
  | identifier name => [.lookup name]
  | declare _ name _ | assign name _ => [.store name]
  | binary _ operator _ => [.arithmetic operator]
  | function params body => [.makeClosure params (params.map .store ++ compileAll body)]
  | call callee args => [.lookup callee, .call args.length]

inductive IsBinding : Expr → Prop
  | declare (kind : SymbolKind) (name : String) (rhs : Expr) : IsBinding (declare kind name rhs)
  | assign (name : String) (rhs : Expr) : IsBinding (assign name rhs)

inductive KeepsToGrammar : Expr → Prop
  | intro {expr : Expr} : (∀ part ∈ expr.operands, ¬ part.IsBinding) →
      (∀ part ∈ expr.operands, part.KeepsToGrammar) → KeepsToGrammar expr

theorem isBinding_iff_stores {expr : Expr} :
    expr.IsBinding ↔ ∃ name, expr.closing = [.store name] := by
  constructor
  · rintro (⟨_, name, _⟩ | ⟨name, _⟩) <;> exact ⟨name, rfl⟩
  · rintro ⟨name, stores⟩
    cases expr with
    | declare kind query rhs => exact .declare kind query rhs
    | assign query rhs => exact .assign query rhs
    | literal value => cases value <;> cases stores
    | _ => cases stores

theorem compile_eq (expr : Expr) : expr.compile = compileAll expr.operands ++ expr.closing := by
  cases expr <;> simp [compile, compileAll, operands, closing]

theorem operands_induction {motive : Expr → Prop}
    (step : ∀ expr, (∀ part ∈ expr.operands, motive part) → motive expr) (expr : Expr) :
    motive expr := by
  induction expr using Expr.induction with
  | literal value => exact step _ nofun
  | identifier name => exact step _ nofun
  | declare kind name rhs ih => exact step _ (List.forall_mem_singleton.2 ih)
  | assign name rhs ih => exact step _ (List.forall_mem_singleton.2 ih)
  | binary left operator right ihLeft ihRight =>
      exact step _ (List.forall_mem_cons.2 ⟨ihLeft, List.forall_mem_singleton.2 ihRight⟩)
  | function params body _ => exact step _ nofun
  | call callee args ih => exact step _ ih

end Expr

variable {depth : Nat} {before after : State}

structure Expr.Closes (depth : Nat) (expr : Expr) (before after : State)
    (pushed : Option Value) : Prop where
  enough : expr.operands.length ≤ before.stack.length
  stack : after.stack = pushed.toList ++ before.stack.drop expr.operands.length
  above : ∀ floor, StaysAbove depth floor expr.closing before →
    floor + expr.operands.length ≤ before.stack.length
  silent : pushed = none ↔ expr.IsBinding ∨ ¬ Answered depth expr.closing before

theorem Expr.closes_of_one {expr : Expr} {instr : Instr} (closing : expr.closing = [instr])
    (pops : instr.pops = expr.operands.length)
    (ran : Ends (depth + 1) expr.closing before none after) :
    ∃ pushed, expr.Closes (depth + 1) before after pushed := by
  have binding : expr.IsBinding ↔ ∃ name, instr = .store name := by
    simp [isBinding_iff_stores, closing]
  rw [closing, ends_singleton_iff] at ran
  obtain ⟨pushed, ⟨enough, shape⟩, silent⟩ := ran.exchanges
  rw [pops] at enough shape
  refine ⟨pushed, enough, shape, ?_, ?_⟩
  · intro floor stays
    rwa [closing, StaysAbove, throughout_singleton_iff, pops] at stays
  · rw [binding, closing, Answered, throughout_singleton_iff, Classical.not_not]
    exact silent

theorem Expr.closes (expr : Expr) (ran : Ends (depth + 1) expr.closing before none after) :
    ∃ pushed, expr.Closes (depth + 1) before after pushed := by
  cases expr with
  | literal value => cases value <;> exact closes_of_one rfl rfl ran
  | call callee args =>
      obtain ⟨middle, looks, calls⟩ := finished_cons_iff.1 ran
      rw [ends_singleton_iff] at calls
      have looked : ¬ (Instr.lookup callee).Silent before := by
        rintro ⟨_, _, _, _, impossible, _⟩
        cases impossible
      obtain ⟨target, withCallee⟩ := looks.lookup_pushes
      obtain ⟨pushed, ⟨enough, shape⟩, silent⟩ := calls.exchanges
      simp only [Instr.pops, withCallee, List.length_cons, Nat.add_le_add_iff_right,
        List.drop_succ_cons] at enough shape
      refine ⟨pushed, enough, shape, ?_, ?_⟩
      · intro floor stays
        rw [closing, StaysAbove, throughout_cons_iff_of_acts looks,
          throughout_singleton_iff] at stays
        have above := stays.2
        simp only [Instr.pops, withCallee, List.length_cons] at above
        simp only [operands]
        omega
      · rw [silent, Answered, closing, throughout_cons_iff_of_acts looks,
          throughout_singleton_iff]
        simp [isBinding_iff_stores, closing, looked]
  | _ => exact closes_of_one rfl rfl ran

theorem Ends.height_le_of_each (parts : List Expr)
    (each : ∀ part ∈ parts, ∀ {before after : State},
      Ends (depth + 1) part.compile before none after →
      after.stack.length ≤ before.stack.length + 1) :
    ∀ {before after : State}, Ends (depth + 1) (Expr.compileAll parts) before none after →
      after.stack.length ≤ before.stack.length + parts.length := by
  induction parts with
  | nil =>
      intro before after ran
      rw [(ends_nil_iff.1 ran).2]
      exact Nat.le_refl _
  | cons first rest ih =>
      intro before after ran
      obtain ⟨middle, firstRan, restRan⟩ := finished_append_iff.1 ran
      have own := each first List.mem_cons_self firstRan
      have others := ih (fun part member => each part (List.mem_cons_of_mem _ member)) restRan
      rw [List.length_cons]
      omega

theorem Expr.exists_closes {expr : Expr} (ran : Ends (depth + 1) expr.compile before none after) :
    ∃ middle pushed, Ends (depth + 1) (compileAll expr.operands) before none middle ∧
      expr.Closes (depth + 1) middle after pushed := by
  rw [compile_eq] at ran
  obtain ⟨middle, operandsRan, closingRan⟩ := finished_append_iff.1 ran
  obtain ⟨pushed, closes⟩ := expr.closes closingRan
  exact ⟨middle, pushed, operandsRan, closes⟩

theorem Expr.Closes.height {expr : Expr} {pushed : Option Value}
    (closes : expr.Closes depth before after pushed) :
    after.stack.length + expr.operands.length = before.stack.length + pushed.toList.length := by
  have enough := closes.enough
  rw [closes.stack, List.length_append, List.length_drop]
  omega

theorem Expr.height_le (expr : Expr) : ∀ {before after : State},
    Ends (depth + 1) expr.compile before none after →
      after.stack.length ≤ before.stack.length + 1 := by
  induction expr using operands_induction with
  | step expr ih =>
      intro before after ran
      obtain ⟨middle, pushed, operandsRan, closes⟩ := exists_closes ran
      have raised := Ends.height_le_of_each expr.operands ih operandsRan
      have height := closes.height
      have single : pushed.toList.length ≤ 1 := by cases pushed <;> simp
      omega

theorem Ends.answered_iff_of_each (parts : List Expr)
    (each : ∀ part ∈ parts, ∀ {before after : State},
      Ends (depth + 1) part.compile before none after →
      (Answered (depth + 1) part.compile before ↔ after.stack.length = before.stack.length + 1)) :
    ∀ {before after : State}, Ends (depth + 1) (Expr.compileAll parts) before none after →
      (Answered (depth + 1) (Expr.compileAll parts) before ↔
        after.stack.length = before.stack.length + parts.length) := by
  induction parts with
  | nil =>
      intro before after ran
      rw [(ends_nil_iff.1 ran).2]
      exact ⟨fun _ => rfl, fun _ => throughout_nil⟩
  | cons first rest ih =>
      intro before after ran
      obtain ⟨middle, firstRan, restRan⟩ := finished_append_iff.1 ran
      have firstHeight := first.height_le firstRan
      have restHeight := Ends.height_le_of_each rest (fun part _ => part.height_le) restRan
      have firstIff := each first List.mem_cons_self firstRan
      have restIff := ih (fun part member => each part (List.mem_cons_of_mem _ member)) restRan
      rw [Expr.compileAll, Answered, throughout_append_iff_of_ends firstRan]
      refine (and_congr firstIff restIff).trans ?_
      rw [List.length_cons]
      omega

/-- An expression of the grammar adds a value if and only if all its calls leave one. -/
theorem Expr.answered_iff (expr : Expr) : expr.KeepsToGrammar → ¬ expr.IsBinding →
    ∀ {before after : State}, Ends (depth + 1) expr.compile before none after →
      (Answered (depth + 1) expr.compile before ↔
        after.stack.length = before.stack.length + 1) := by
  induction expr using operands_induction with
  | step expr ih =>
      rintro ⟨values, grammar⟩ notBinding before after ran
      obtain ⟨middle, pushed, operandsRan, closes⟩ := exists_closes ran
      have operandsHeight :=
        Ends.height_le_of_each expr.operands (fun part _ => part.height_le) operandsRan
      have operandsIff := Ends.answered_iff_of_each expr.operands
        (fun part member => ih part member (grammar part member) (values part member)) operandsRan
      have closingIff : Answered (depth + 1) expr.closing middle ↔ pushed.toList.length = 1 := by
        have silent := closes.silent
        cases pushed <;> simp_all
      have height := closes.height
      have single : pushed.toList.length ≤ 1 := by cases pushed <;> simp
      rw [compile_eq, Answered, throughout_append_iff_of_ends operandsRan]
      refine (and_congr operandsIff closingIff).trans ?_
      omega

theorem Expr.KeepsToGrammar.operands_answered_iff {expr : Expr} (grammar : expr.KeepsToGrammar)
    (ran : Ends (depth + 1) (compileAll expr.operands) before none after) :
    Answered (depth + 1) (compileAll expr.operands) before ↔
      after.stack.length = before.stack.length + expr.operands.length := by
  obtain ⟨values, parts⟩ := grammar
  exact Ends.answered_iff_of_each expr.operands
    (fun part member => part.answered_iff (parts part member) (values part member)) ran

theorem Expr.staysAbove_closing (expr : Expr) {floor : Nat}
    (enough : floor + expr.operands.length ≤ before.stack.length) :
    StaysAbove (depth + 1) floor expr.closing before := by
  cases expr with
  | literal value => cases value <;> exact throughout_singleton_iff.2 enough
  | call callee args =>
      simp only [operands] at enough
      rw [closing, StaysAbove, throughout_cons_iff]
      refine ⟨by simp only [Instr.pops]; omega, ?_⟩
      intro middle looks
      rw [throughout_singleton_iff]
      obtain ⟨target, withCallee⟩ := looks.lookup_pushes
      simp only [Instr.pops, withCallee, List.length_cons]
      omega
  | _ => exact throughout_singleton_iff.2 enough

theorem StaysAbove.of_each_answered (parts : List Expr) (values : ∀ part ∈ parts, ¬ part.IsBinding)
    (grammar : ∀ part ∈ parts, part.KeepsToGrammar)
    (each : ∀ part ∈ parts, ∀ {before : State},
      Answered (depth + 1) (Expr.compileAll part.operands) before →
      StaysAbove (depth + 1) before.stack.length part.compile before) :
    ∀ {before : State}, Answered (depth + 1) (Expr.compileAll parts) before →
      StaysAbove (depth + 1) before.stack.length (Expr.compileAll parts) before := by
  induction parts with
  | nil => exact fun _ => throughout_nil
  | cons first rest ih =>
      intro before answered
      obtain ⟨firstAnswered, restAnswered⟩ := throughout_append_iff.1 answered
      have operandsAnswered := firstAnswered
      rw [Expr.compile_eq] at operandsAnswered
      have firstStays :=
        each first List.mem_cons_self (throughout_append_iff.1 operandsAnswered).1
      refine throughout_append_iff.2 ⟨firstStays, fun middle ran => ?_⟩
      have raised := (first.answered_iff (grammar first List.mem_cons_self)
        (values first List.mem_cons_self) ran).1 firstAnswered
      have restStays := ih (fun part member => values part (List.mem_cons_of_mem _ member))
        (fun part member => grammar part (List.mem_cons_of_mem _ member))
        (fun part member => each part (List.mem_cons_of_mem _ member)) (restAnswered middle ran)
      exact restStays.lower (by omega)

theorem Expr.staysAbove_of_answered (expr : Expr) : expr.KeepsToGrammar → ∀ {before : State},
    Answered (depth + 1) (compileAll expr.operands) before →
      StaysAbove (depth + 1) before.stack.length expr.compile before := by
  induction expr using operands_induction with
  | step expr ih =>
      intro grammar before answered
      rw [compile_eq]
      refine throughout_append_iff.2 ⟨?_, fun middle ran => ?_⟩
      · obtain ⟨values, parts⟩ := grammar
        exact StaysAbove.of_each_answered expr.operands values parts
          (fun part member => ih part member (parts part member)) answered
      · have raised := (grammar.operands_answered_iff ran).1 answered
        exact expr.staysAbove_closing (by omega)

/-- As long as every call in the operands leaves a value, nothing is taken that lay on the stack
before, and a run that finishes leaves the stack as it was, or an expression adds a value to it. A
run that finishes though one has left none takes an entry that was there. -/
theorem entries_kept_iff_answered {node : Expr} (grammar : node.KeepsToGrammar) (depth : Nat)
    (before : State) :
    (Answered depth (Expr.compileAll node.operands) before →
      StaysAbove depth before.stack.length node.compile before) ∧
    ∀ after, Ends depth node.compile before none after →
      (StaysAbove depth before.stack.length node.compile before →
        Answered depth (Expr.compileAll node.operands) before) ∧
      (Answered depth (Expr.compileAll node.operands) before →
        after.stack = before.stack ∨
          ¬ node.IsBinding ∧ ∃ value, after.stack = value :: before.stack) := by
  cases depth with
  | zero =>
      refine ⟨fun _ _ _ _ _ _ ends => absurd ends not_ends_zero, ?_⟩
      exact fun after ran => absurd ran not_ends_zero
  | succ depth =>
      refine ⟨node.staysAbove_of_answered grammar, ?_⟩
      intro after ran
      obtain ⟨middle, pushed, operandsRan, closes⟩ := Expr.exists_closes ran
      have answered := grammar.operands_answered_iff operandsRan
      constructor
      · intro stays
        have operandsHeight :=
          Ends.height_le_of_each node.operands (fun part _ => part.height_le) operandsRan
        rw [Expr.compile_eq] at stays
        have above := closes.above _ ((throughout_append_iff_of_ends operandsRan).1 stays).2
        exact answered.2 (by omega)
      · intro all
        obtain ⟨left, kept⟩ := StaysAbove.keeps (node.staysAbove_of_answered grammar all) ran
          (List.nil_append _).symm
        have height := closes.height
        rw [answered.1 all, kept, List.length_append] at height
        cases pushed with
        | none =>
            simp only [Option.toList_none, List.length_nil] at height
            have nothing : left = [] := List.eq_nil_of_length_eq_zero (by omega)
            exact Or.inl (by rw [kept, nothing, List.nil_append])
        | some value =>
            have notBinding : ¬ node.IsBinding := fun binding => by
              simpa using closes.silent.2 (Or.inl binding)
            simp only [Option.toList_some, List.length_singleton] at height
            obtain ⟨top, rfl⟩ := List.length_eq_one_iff.1 (show left.length = 1 by omega)
            exact Or.inr ⟨notBinding, top, kept⟩

/-- `f(args) + 2`, with a value of an earlier statement below it. -/
def addsToCall (args : List Expr) : Expr := .binary (.call "f" args) .add (.literal (.int 2))

def callsBelowValue (params : List String) (body args : List Expr) : List Expr :=
  [.declare .variable "f" (.function params body), .literal (.int 10), addsToCall args]

def valueBelow (params : List String) (body : List Expr) : State :=
  ⟨[.int 10], Environment.empty.bind "f"
    (.closure params (params.map .store ++ Expr.compileAll body) .empty)⟩

theorem addsToCall_keepsToGrammar {args : List Expr}
    (literals : ∀ arg ∈ args, ∃ value, arg = .literal value) :
    (addsToCall args).KeepsToGrammar := by
  have plain : ∀ value : Literal, (Expr.literal value).KeepsToGrammar := fun _ => ⟨nofun, nofun⟩
  have call : (Expr.call "f" args).KeepsToGrammar := by
    constructor
    · intro arg member binding
      obtain ⟨value, rfl⟩ := literals arg member
      cases binding
    · intro arg member
      obtain ⟨value, rfl⟩ := literals arg member
      exact plain value
  constructor
  · intro part member binding
    rcases List.mem_pair.1 member with rfl | rfl <;> cases binding
  · intro part member
    rcases List.mem_pair.1 member with rfl | rfl
    · exact call
    · exact plain _

theorem entries_kept_iff_answered_identity :
    let node := addsToCall [.literal (.int 1)]
    let before := valueBelow ["x"] [.identifier "x"]
    node.KeepsToGrammar ∧ Answered 2 (Expr.compileAll node.operands) before ∧
      StaysAbove 2 1 node.compile before ∧
      ∃ after, Ends 2 node.compile before none after ∧ after.stack = [.int 3, .int 10] := by
  intro node before
  have grammar : node.KeepsToGrammar := addsToCall_keepsToGrammar (by simp)
  have operandsRan : Ends 2 (Expr.compileAll node.operands) before none
      ⟨[.int 2, .int 1, .int 10], before.env⟩ := ⟨_, _, rfl⟩
  have answered := (grammar.operands_answered_iff operandsRan).2 rfl
  have stays := (entries_kept_iff_answered grammar 2 before).1 answered
  exact ⟨grammar, answered, stays, ⟨[.int 3, .int 10], before.env⟩, ⟨_, _, rfl⟩, rfl⟩

/-- `let f = () => { let y = 1 }; 10; f() + 2` adds to the value of the statement before, where
`f() + 2` on its own has too few operands. -/
theorem earlier_value_taken :
    let body : List Expr := [.declare .variable "y" (.literal (.int 1))]
    let program := callsBelowValue [] body []
    let before := valueBelow [] body
    (Scope.empty.analyze program).2.isClean = true ∧ (addsToCall []).KeepsToGrammar ∧
      Reaches (Expr.compileAll program) ⟨[], .empty⟩ (addsToCall []).compile before ∧
      Ends 2 (addsToCall []).compile before none ⟨[.int 12], before.env⟩ ∧
      ¬ StaysAbove 2 1 (addsToCall []).compile before ∧
      Ends 2 (addsToCall []).compile ⟨[], before.env⟩ (some (.underflow "add"))
        ⟨[], before.env⟩ := by
  intro body program before
  have grammar : (addsToCall []).KeepsToGrammar := addsToCall_keepsToGrammar nofun
  have ended : Ends 2 ((Expr.compileAll program).take 3) ⟨[], .empty⟩ none before := ⟨_, _, rfl⟩
  have ran : Ends 2 (addsToCall []).compile before none ⟨[.int 12], before.env⟩ := ⟨_, _, rfl⟩
  refine ⟨rfl, grammar, .of_ends ended, ran, ?_, ⟨_, _, rfl⟩⟩
  intro stays
  obtain ⟨left, kept⟩ := @StaysAbove.keeps 2 _ before _ [] [.int 10] stays ran rfl
  have bottom := congrArg List.getLast? kept
  simp at bottom

end LetStack
