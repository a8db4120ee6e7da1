import LetStack.Code.Compile
import LetStack.Proofs.Machine.WellFormed
import LetStack.Proofs.Tree

/-!
The literals of code. They are those of the tree that it comes from, and no run pushes others, so
what holds of them carries over to everything that a run makes.
-/

namespace LetStack

def LiteralsIn (sort : Value → Prop) (code : List Instr) : Prop :=
  ∀ value, Pushes value code → sort value

structure Placement.Carries (placement : Placement) (sort : Value → Prop) : Prop where
  lawful : placement.Lawful
  literal : ∀ {value : Value}, sort value → ∀ heap, placement.Admits heap value
  closure_iff : ∀ {params : List String} {body : List Instr} {env : Environment} {heap : List Value},
    placement.fits heap (.closure params body env) ↔ LiteralsIn sort body ∧ env.Placed placement

section

variable {placement : Placement} {sort : Value → Prop} {depth : Nat} {code : List Instr}
  {before after : State} {fault : Option Fault}

theorem State.Placed.enters_body (carries : placement.Carries sort) (placed : before.Placed placement)
    {argCount : Nat} {entry : Activation} (entered : before.Enters argCount entry) :
    entry.start.Placed placement ∧ LiteralsIn sort entry.body := by
  have own : placement.fits before.env.heap
      (.closure entry.params entry.body entry.captured) := by
    obtain ⟨popped, shape, _⟩ := entered
    exact (placed.stack _ (by simp [shape])).1
  obtain ⟨literals, captured⟩ := carries.closure_iff.1 own
  exact ⟨placed.enters carries.lawful entered captured, literals⟩

theorem Instr.Acts.placed_of_literals (carries : placement.Carries sort) {instr : Instr}
    {later : List Instr} (acts : instr.Acts depth before fault after)
    (bodies : ∀ {body start ended callee}, Ends depth body start ended callee →
      start.Placed placement → LiteralsIn sort body → callee.Placed placement)
    (placed : before.Placed placement) (literals : LiteralsIn sort (instr :: later)) :
    after.Placed placement := by
  refine acts.placed carries.lawful placed ?_ ?_ ?_
  · rintro value rfl
    exact carries.literal (literals value .here) _
  · rintro params body rfl
    exact carries.closure_iff.2 ⟨fun value pushed => literals value (.inside pushed), placed.env⟩
  · rintro argCount entry ended callee rfl entered ran
    obtain ⟨startPlaced, literalsInside⟩ := placed.enters_body carries entered
    exact bodies ran startPlaced literalsInside

theorem Ends.placed {code : List Instr} {before after : State} {fault : Option Fault}
    (ends : Ends depth code before fault after) (carries : placement.Carries sort)
    (placed : before.Placed placement) (literals : LiteralsIn sort code) :
    after.Placed placement := by
  induction ends using Ends.induction with
  | nil => exact placed
  | stop _ bodies acts => exact acts.placed_of_literals carries bodies placed literals
  | next bodies acts _ ih =>
      exact ih (acts.placed_of_literals carries bodies placed literals)
        fun value pushed => literals value (.further pushed)

theorem Reaches.placed {later : List Instr} {start state : State}
    (reached : Reaches code start later state) (carries : placement.Carries sort)
    (placed : start.Placed placement) (literals : LiteralsIn sort code) :
    state.Placed placement ∧ LiteralsIn sort later := by
  induction reached with
  | start => exact ⟨placed, literals⟩
  | next _ acts ih =>
      exact ⟨acts.placed_of_literals carries (fun ran => ran.placed carries) ih.1 ih.2,
        fun value pushed => ih.2 value (.further pushed)⟩
  | enter _ entered ih => exact ih.1.enters_body carries entered

end

/-! Compiled code -/

section

variable {value : Value}

@[simp]
theorem not_pushes_nil : ¬ Pushes value [] := nofun

@[simp]
theorem pushes_cons_iff {instr : Instr} {later : List Instr} :
    Pushes value (instr :: later) ↔ instr = .pushLiteral value ∨
      (∃ params body, instr = .makeClosure params body ∧ Pushes value body) ∨
        Pushes value later := by
  constructor
  · intro pushed
    cases pushed with
    | here => exact Or.inl rfl
    | inside within => exact Or.inr (Or.inl ⟨_, _, rfl, within⟩)
    | further rest => exact Or.inr (Or.inr rest)
  · rintro (rfl | ⟨params, body, rfl, within⟩ | rest)
    · exact .here
    · exact .inside within
    · exact .further rest

@[simp]
theorem pushes_append_iff {first second : List Instr} :
    Pushes value (first ++ second) ↔ Pushes value first ∨ Pushes value second := by
  induction first with
  | nil => simp
  | cons instr rest ih => simp [ih, or_assoc]

@[simp]
theorem not_pushes_stores (params : List String) : ¬ Pushes value (params.map .store) := by
  induction params with
  | nil => simp
  | cons param rest ih => simp [ih]

theorem pushes_compileAll_iff {program : List Expr} :
    Pushes value (Expr.compileAll program) ↔ ∃ expr ∈ program, Pushes value expr.compile := by
  induction program with
  | nil => simp [Expr.compileAll]
  | cons first rest ih => simp [Expr.compileAll, ih]

theorem Expr.hasLiteral_of_pushes (expr : Expr) : Pushes value expr.compile →
    ∃ literal, expr.HasLiteral literal ∧ literal.compile = .pushLiteral value := by
  induction expr using Expr.induction with
  | literal literal =>
      intro pushed
      simp only [compile, pushes_cons_iff, not_pushes_nil, or_false] at pushed
      rcases pushed with own | ⟨_, _, made, _⟩
      · exact ⟨literal, .here, own⟩
      · cases literal <;> cases made
  | identifier name =>
      intro pushed
      simp [compile] at pushed
  | declare kind name rhs ih =>
      intro pushed
      obtain ⟨literal, inside, same⟩ := ih (by simpa [compile] using pushed)
      exact ⟨literal, .declare inside, same⟩
  | assign name rhs ih =>
      intro pushed
      obtain ⟨literal, inside, same⟩ := ih (by simpa [compile] using pushed)
      exact ⟨literal, .assign inside, same⟩
  | binary left operator right ihLeft ihRight =>
      intro pushed
      have own : Pushes value left.compile ∨ Pushes value right.compile := by
        simpa [compile] using pushed
      rcases own with ownLeft | ownRight
      · obtain ⟨literal, inside, same⟩ := ihLeft ownLeft
        exact ⟨literal, .left inside, same⟩
      · obtain ⟨literal, inside, same⟩ := ihRight ownRight
        exact ⟨literal, .right inside, same⟩
  | function params body ih =>
      intro pushed
      have own : Pushes value (compileAll body) := by simpa [compile] using pushed
      obtain ⟨part, member, pushedThere⟩ := pushes_compileAll_iff.1 own
      obtain ⟨literal, inside, same⟩ := ih part member pushedThere
      exact ⟨literal, .body member inside, same⟩
  | call callee args ih =>
      intro pushed
      have own : Pushes value (compileAll args) := by simpa [compile] using pushed
      obtain ⟨arg, member, pushedThere⟩ := pushes_compileAll_iff.1 own
      obtain ⟨literal, inside, same⟩ := ih arg member pushedThere
      exact ⟨literal, .arg member inside, same⟩

theorem literalsIn_compileAll {sort : Value → Prop} {program : List Expr}
    (written : ∀ expr ∈ program, ∀ literal value, expr.HasLiteral literal →
      literal.compile = .pushLiteral value → sort value) :
    LiteralsIn sort (Expr.compileAll program) := by
  intro value pushed
  obtain ⟨expr, member, inside⟩ := pushes_compileAll_iff.1 pushed
  obtain ⟨literal, has, same⟩ := expr.hasLiteral_of_pushes inside
  exact written expr member literal value has same

end

end LetStack
