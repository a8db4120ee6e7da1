import LetStack.Proofs.Machine.Growth
import LetStack.Proofs.Operands.Framing
import LetStack.Proofs.Session.Submissions
import LetStack.Proofs.Text.RoundTrip

/-! Two submissions that succeed one after the other make one that succeeds, to the same session. -/

namespace LetStack

namespace Findings

theorem append_assoc (first second third : Findings) :
    first ++ second ++ third = first ++ (second ++ third) := by
  change Findings.mk _ _ = Findings.mk _ _
  simp only [errors_append, warnings_append, List.append_assoc]

theorem none_append (findings : Findings) : none ++ findings = findings := rfl

theorem append_none (findings : Findings) : findings ++ none = findings := by
  change Findings.mk _ _ = findings
  simp only [none, List.append_nil]

end Findings

theorem Expr.checkAll_append (first second : List Expr) (scope : Scope) :
    checkAll (first ++ second) scope =
      ((checkAll second (checkAll first scope).1).1,
        (checkAll first scope).2 ++ (checkAll second (checkAll first scope).1).2) := by
  induction first generalizing scope with
  | nil => simp only [List.nil_append, checkAll, Findings.none_append]
  | cons expr rest ih => simp only [List.cons_append, checkAll, ih, Findings.append_assoc]

theorem Expr.checkAll_singleton (expr : Expr) (scope : Scope) :
    checkAll [expr] scope = expr.check scope := by
  simp only [checkAll, Findings.append_none]

def Answer.or : Answer → Answer → Answer
  | nothing, earlier => earlier
  | later, _ => later

namespace State

theorem takeAnswer_grown {stack : List Value} {env longer : Environment} {answer : Answer}
    (taken : (State.mk stack env).takeAnswer.1 = .ok answer) (grown : env.heap <+: longer.heap) :
    (State.mk stack longer).takeAnswer.1 = .ok answer := by
  match stack with
  | [] => exact taken
  | .pointer address :: rest =>
      cases found : env.heap[address]? with
      | none => simp [takeAnswer, found] at taken
      | some target =>
          simp only [takeAnswer, found] at taken
          simp only [takeAnswer, getElem?_of_grown grown found]
          exact taken
  | .int _ :: _ | .float _ :: _ | .bool _ :: _ | .bytes _ :: _ | .closure _ _ _ :: _ =>
      exact taken

theorem takeAnswer_onto {state : State} {below : List Value} {env : Environment}
    {earlier later : Answer} (taken : state.takeAnswer.1 = .ok later)
    (takenBelow : (State.mk below env).takeAnswer.1 = .ok earlier)
    (grown : env.heap <+: state.env.heap) :
    (state.onto below).takeAnswer.1 = .ok (later.or earlier) := by
  obtain ⟨stack, last⟩ := state
  cases stack with
  | nil =>
      rw [← Except.ok.inj taken]
      exact takeAnswer_grown takenBelow grown
  | cons top rest =>
      have same : ((State.mk (top :: rest) last).onto below).takeAnswer.1 = .ok later := taken
      have something : later ≠ .nothing := by
        rintro rfl
        simp only [takeAnswer] at taken
        split at taken
        · split at taken <;> simp at taken
        · simp at taken
      cases later with
      | nothing => exact absurd rfl something
      | value answer => exact same
      | text shown => exact same

end State

/-- What succeeds as two submissions, one after the other, succeeds as one, with the warnings of both
and to the same session. It answers what the second answers, or the first if the second answers
nothing. -/
theorem submission_splits (session middle final : Session) (first second : List Expr)
    (earlier later : Answer) (warnings more : List ScopeWarning)
    (firstSucceeds : session.Submits first (.success earlier warnings) middle)
    (secondSucceeds : middle.Submits second (.success later more) final) :
    session.Submits (first ++ second) (.success (later.or earlier) (warnings ++ more)) final := by
  obtain ⟨findings, middleScope, depth, left, firstRan, firstAnswer, middleEnv⟩ :=
    Session.submits_success_iff.1 firstSucceeds
  obtain ⟨moreFindings, finalScope, other, last, secondRan, secondAnswer, finalEnv⟩ :=
    Session.submits_success_iff.1 secondSucceeds
  rw [middleScope] at moreFindings finalScope
  rw [middleEnv] at secondRan
  -- The second program runs on top of what the first has left.
  have onTop := secondRan.finished_onto left.stack
  have deep := firstRan.deepen (Nat.le_succ_of_le (Nat.le_max_left depth other))
  have joined := deep.append (onTop.deepen (Nat.le_succ_of_le (Nat.le_max_right depth other)))
  refine Session.submits_success_iff.2
    ⟨?_, ?_, max depth other + 1, last.onto left.stack, ?_, ?_, finalEnv⟩
  · rw [Expr.checkAll_append, findings, moreFindings]
    rfl
  · rw [Expr.checkAll_append, finalScope]
  · rw [Expr.compileAll_append]
    exact joined
  · exact State.takeAnswer_onto secondAnswer firstAnswer secondRan.grows

def answersText : List Expr :=
  [.declare .variable "x" (.literal (.text "hi")), .identifier "x"]

def answersNothing : List Expr :=
  [.declare .variable "f" (.function [] [.assign "x" (.literal (.int 3))]), .call "f" []]

theorem submission_splits_text : ∃ middle final,
    Session.empty.Submits answersText (.success (.text "\"hi\"") []) middle ∧
      middle.Submits answersNothing (.success .nothing [.reassigning "x"]) final ∧
      Session.empty.Submits (answersText ++ answersNothing)
        (.success (.text "\"hi\"") [.reassigning "x"]) final := by
  have shown : Outcome.success (.text ("\"" ++ bytesText (encodeUtf8 "hi".toList) ++ "\"")) [] =
      .success (.text "\"hi\"") [] := by rw [bytesText_encodeUtf8]; rfl
  have first : Session.empty.Submits answersText (.success (.text "\"hi\"") []) _ :=
    ⟨2, _, rfl, shown, rfl⟩
  refine ⟨_, _, first, ⟨2, _, rfl, rfl, rfl⟩, ?_⟩
  exact submission_splits _ _ _ _ _ _ .nothing _ [.reassigning "x"] first ⟨2, _, rfl, rfl, rfl⟩

end LetStack
