import LetStack.Code.Compile
import LetStack.Proofs.Tree

/-! Names that a program mentions, and code that keeps apart from a name. -/

namespace LetStack

variable {name : String}

mutual

def Expr.names : Expr → List String
  | .literal _ => []
  | .identifier name => [name]
  | .declare _ name rhs => name :: rhs.names
  | .assign name rhs => name :: rhs.names
  | .binary left _ right => left.names ++ right.names
  | .function params body => params ++ Expr.namesOfAll body
  | .call callee args => callee :: Expr.namesOfAll args

def Expr.namesOfAll : List Expr → List String
  | [] => []
  | first :: rest => first.names ++ Expr.namesOfAll rest

end

def Unmentioned (name : String) (program : List Expr) : Prop := name ∉ Expr.namesOfAll program

instance (name : String) (program : List Expr) : Decidable (Unmentioned name program) :=
  inferInstanceAs (Decidable (name ∉ Expr.namesOfAll program))

theorem unmentioned_cons_iff {first : Expr} {rest : List Expr} :
    Unmentioned name (first :: rest) ↔ name ∉ first.names ∧ Unmentioned name rest := by
  simp only [Unmentioned, Expr.namesOfAll, List.mem_append, not_or]

inductive Instr.Apart (name : String) : Instr → Prop
  | int (value : Int) : Apart name (.pushLiteral (.int value))
  | float (value : Float) : Apart name (.pushLiteral (.float value))
  | bool (value : Bool) : Apart name (.pushLiteral (.bool value))
  | allocateBytes (content : List UInt8) : Apart name (.allocateBytes content)
  | arithmetic (operator : Operator) : Apart name (.arithmetic operator)
  | lookup {other : String} : other ≠ name → Apart name (.lookup other)
  | store {other : String} : other ≠ name → Apart name (.store other)
  | makeClosure {params : List String} {body : List Instr} :
      (∀ instr ∈ body, Apart name instr) → Apart name (.makeClosure params body)
  | call (argCount : Nat) : Apart name (.call argCount)

def CodeApart (name : String) (code : List Instr) : Prop := ∀ instr ∈ code, instr.Apart name

theorem CodeApart.append {first second : List Instr} (apart : CodeApart name first)
    (apartToo : CodeApart name second) : CodeApart name (first ++ second) := by
  intro instr member
  rcases List.mem_append.1 member with left | right
  · exact apart instr left
  · exact apartToo instr right

theorem CodeApart.snoc {code : List Instr} {last : Instr} (apart : CodeApart name code)
    (lastApart : last.Apart name) : CodeApart name (code ++ [last]) :=
  apart.append fun _ member => List.mem_singleton.1 member ▸ lastApart

theorem codeApart_compileAll {parts : List Expr} (unmentioned : Unmentioned name parts)
    (each : ∀ part ∈ parts, name ∉ part.names → CodeApart name part.compile) :
    CodeApart name (Expr.compileAll parts) := by
  induction parts with
  | nil => exact fun _ impossible => absurd impossible List.not_mem_nil
  | cons first rest ih =>
      obtain ⟨firstApart, restApart⟩ := unmentioned_cons_iff.1 unmentioned
      exact (each first List.mem_cons_self firstApart).append
        (ih restApart fun part member => each part (List.mem_cons_of_mem _ member))

theorem Expr.compile_apart (expr : Expr) : name ∉ expr.names → CodeApart name expr.compile := by
  induction expr using Expr.induction with
  | literal value =>
      intro _ instr member
      rw [compile, List.mem_singleton] at member
      subst member
      cases value <;> constructor
  | identifier other =>
      intro unmentioned instr member
      rw [compile, List.mem_singleton] at member
      subst member
      exact .lookup (Ne.symm (List.ne_of_not_mem_cons unmentioned))
  | declare kind other rhs ih | assign other rhs ih =>
      intro unmentioned
      obtain ⟨different, apart⟩ := List.ne_and_not_mem_of_not_mem_cons unmentioned
      exact (ih apart).snoc (.store (Ne.symm different))
  | binary left operator right ihLeft ihRight =>
      intro unmentioned
      simp only [names, List.mem_append, not_or] at unmentioned
      obtain ⟨leftApart, rightApart⟩ := unmentioned
      exact ((ihLeft leftApart).append (ihRight rightApart)).snoc (.arithmetic operator)
  | function params body ih =>
      intro unmentioned instr member
      rw [compile, List.mem_singleton] at member
      subst member
      simp only [names, List.mem_append, not_or] at unmentioned
      obtain ⟨notParam, apart⟩ := unmentioned
      have stores : CodeApart name (params.map .store) := by
        intro instr stored
        obtain ⟨param, among, rfl⟩ := List.mem_map.1 stored
        exact .store (ne_of_mem_of_not_mem among notParam)
      exact .makeClosure (stores.append (codeApart_compileAll apart ih))
  | call callee args ih =>
      intro unmentioned
      obtain ⟨different, apart⟩ := List.ne_and_not_mem_of_not_mem_cons unmentioned
      have called : CodeApart name [.lookup callee, .call args.length] := by
        intro instr member
        rcases List.mem_cons.1 member with rfl | last
        · exact .lookup (Ne.symm different)
        · rw [List.mem_singleton.1 last]
          exact .call _
      exact (codeApart_compileAll apart ih).append called

theorem Unmentioned.compile_apart {program : List Expr} (unmentioned : Unmentioned name program) :
    CodeApart name (Expr.compileAll program) :=
  codeApart_compileAll unmentioned fun part _ => part.compile_apart

end LetStack
