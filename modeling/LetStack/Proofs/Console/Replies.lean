import LetStack.Console.Lines
import LetStack.Proofs.Session.Submissions

/-!
What a line is answered with. All lines are submitted, but for blank ones and those that ask to stop,
and what a submission comes to is printed.
-/

namespace LetStack

/-! How an outcome is printed -/

structure Trimmed (text trimmed : String) : Prop where
  ended : ∃ count, text.toList = trimmed.toList ++ List.replicate count '\n'
  full : trimmed.toList.getLast? ≠ some '\n'

theorem trimmed_iff {text trimmed : String} :
    Trimmed text trimmed ↔ trimmed = Console.withoutFinalNewlines text := by
  constructor
  · rintro ⟨⟨count, shape⟩, full⟩
    have last : trimmed.toList.reverse.dropWhile (· = '\n') = trimmed.toList.reverse := by
      rw [List.getLast?_eq_head?_reverse] at full
      cases backward : trimmed.toList.reverse with
      | nil => rfl
      | cons char rest =>
          rw [backward, List.head?_cons, ne_eq, Option.some.injEq] at full
          exact List.dropWhile_cons_of_neg (by simpa using full)
    rw [Console.withoutFinalNewlines, dropRightWhile, shape, List.reverse_append,
      List.reverse_replicate, List.dropWhile_append_of_pos (by simp), last, List.reverse_reverse,
      String.ofList_toList]
  · rintro rfl
    let ending := text.toList.reverse.takeWhile (· = '\n')
    have breaks : ending = List.replicate ending.length '\n' := by
      refine List.eq_replicate_iff.2 ⟨rfl, fun char member => ?_⟩
      exact of_decide_eq_true (List.all_eq_true.1 List.all_takeWhile char member)
    constructor
    · refine ⟨ending.length, ?_⟩
      rw [← List.reverse_inj, Console.withoutFinalNewlines, dropRightWhile, String.toList_ofList,
        List.reverse_append, List.reverse_reverse, List.reverse_replicate, ← breaks]
      exact List.takeWhile_append_dropWhile.symm
    · intro last
      rw [Console.withoutFinalNewlines, dropRightWhile, String.toList_ofList,
        List.getLast?_reverse] at last
      have other := List.head?_dropWhile_not (· = '\n') text.toList.reverse
      rw [last] at other
      simp at other

def warningLine (warning : ScopeWarning) : String := "warning: " ++ warning.message ++ "\n"

inductive Prints (outcome : Outcome) : String → Prop
  | warnings : outcome.display? = none →
      Prints outcome (String.join (outcome.warnings.map warningLine))
  | result {text trimmed : String} : outcome.display? = some text → Trimmed text trimmed →
      Prints outcome (String.join (outcome.warnings.map warningLine) ++ trimmed ++ "\n")

theorem prints_iff {outcome : Outcome} {output : String} :
    Prints outcome output ↔ output = Console.printed outcome := by
  have told : Console.warningLines outcome = outcome.warnings.map warningLine := by
    cases outcome <;> rfl
  rw [Console.printed, told, Console.resultLines]
  constructor
  · intro prints
    cases prints with
    | warnings none => simp [none]
    | result shown trimmed => simp [shown, trimmed_iff.1 trimmed, String.append_assoc]
  · rintro rfl
    cases shown : outcome.display? with
    | none => simpa using .warnings shown
    | some text =>
        simpa [String.append_assoc] using Prints.result shown (trimmed_iff.2 rfl)

namespace Console

variable {depth : Nat} {session : Session} {line : String}

def IsStop (line : String) : Prop := stripBlank line = "exit" ∨ stripBlank line = "EOF"

def IsSubmission (line : String) : Prop := ¬ IsStop line ∧ stripBlank line ≠ ""

instance : DecidablePred IsStop := fun line =>
  inferInstanceAs (Decidable (stripBlank line = "exit" ∨ stripBlank line = "EOF"))

instance : DecidablePred IsSubmission := fun line =>
  inferInstanceAs (Decidable (¬ IsStop line ∧ stripBlank line ≠ ""))

inductive Reserved (line : String) : Bool × String → Prop
  | exit : stripBlank line = "exit" → Reserved line (true, "")
  | ended : stripBlank line = "EOF" → Reserved line (true, "\n")
  | blank : stripBlank line = "" → Reserved line (false, "")

theorem line_cases (line : String) : (∃ answer, Reserved line answer) ∨ IsSubmission line := by
  by_cases blank : stripBlank line = ""
  · exact Or.inl ⟨_, .blank blank⟩
  · by_cases exit : stripBlank line = "exit"
    · exact Or.inl ⟨_, .exit exit⟩
    · by_cases ended : stripBlank line = "EOF"
      · exact Or.inl ⟨_, .ended ended⟩
      · exact Or.inr ⟨not_or.2 ⟨exit, ended⟩, blank⟩

theorem Reserved.not_submission {answer : Bool × String} (reserved : Reserved line answer) :
    ¬ IsSubmission line := by
  rintro ⟨stop, blank⟩
  cases reserved with
  | exit same => exact stop (Or.inl same)
  | ended same => exact stop (Or.inr same)
  | blank same => exact blank same

theorem Reserved.stops_iff {answer : Bool × String} (reserved : Reserved line answer) :
    answer.1 = true ↔ IsStop line := by
  cases reserved with
  | exit same => simp [IsStop, same]
  | ended same => simp [IsStop, same]
  | blank same => simp [IsStop, same]

theorem Reserved.feed {answer : Bool × String} (reserved : Reserved line answer) :
    feed depth session line = some ⟨answer.1, answer.2, session, []⟩ := by
  cases reserved with
  | exit same => simp [Console.feed, same]
  | ended same => simp [Console.feed, same, endLine]
  | blank same => simp [Console.feed, same, endLine]

theorem IsSubmission.feed (submission : IsSubmission line) : feed depth session line =
    (session.evaluate depth line).map fun evaluation =>
      ⟨false, printed evaluation.outcome, evaluation.session, evaluation.log⟩ := by
  obtain ⟨stop, blank⟩ := submission
  obtain ⟨exit, ended⟩ := not_or.1 stop
  rw [Console.feed, if_neg exit, endLine, if_neg ended, if_neg blank]

theorem feed_stops_iff {reply : Reply} (fed : feed depth session line = some reply) :
    reply.stop = true ↔ IsStop line := by
  rcases line_cases line with ⟨answer, reserved⟩ | submission
  · rw [reserved.feed, Option.some.injEq] at fed
    rw [← fed, reserved.stops_iff]
  · rw [submission.feed, Option.map_eq_some_iff] at fed
    obtain ⟨evaluation, _, rfl⟩ := fed
    simp [submission.1]

/-- Lines that are fed one after the other, also after one that stops. -/
inductive Feeds : Session → List String → List (Bool × String) → Session → Prop
  | nil (session : Session) : Feeds session [] [] session
  | cons {depth : Nat} {session final : Session} {line : String} {lines : List String}
      {reply : Reply} {answers : List (Bool × String)} : feed depth session line = some reply →
      Feeds reply.session lines answers final →
      Feeds session (line :: lines) ((reply.stop, reply.output) :: answers) final

inductive Answers : List String → List Outcome → List (Bool × String) → Prop
  | nil : Answers [] [] []
  | reserved {line : String} {lines : List String} {outcomes : List Outcome}
      {answer : Bool × String} {answers : List (Bool × String)} : Reserved line answer →
      Answers lines outcomes answers → Answers (line :: lines) outcomes (answer :: answers)
  | submission {line output : String} {lines : List String} {outcome : Outcome}
      {outcomes : List Outcome} {answers : List (Bool × String)} : IsSubmission line →
      Prints outcome output → Answers lines outcomes answers →
      Answers (line :: lines) (outcome :: outcomes) ((false, output) :: answers)

theorem Reserved.unique {answer other : Bool × String} (reserved : Reserved line answer)
    (reservedToo : Reserved line other) : answer = other := by
  have fed : Console.feed 0 .empty line = some _ := reserved.feed
  rw [reservedToo.feed, Option.some.injEq, Reply.mk.injEq] at fed
  exact Prod.ext fed.1.symm fed.2.1.symm

theorem Answers.unique {lines : List String} {outcomes : List Outcome}
    {answers others : List (Bool × String)} (answered : Answers lines outcomes answers)
    (answeredToo : Answers lines outcomes others) : answers = others := by
  induction answered generalizing others with
  | nil =>
      cases answeredToo
      rfl
  | reserved reserved _ ih =>
      cases answeredToo with
      | reserved reservedToo rest => rw [reserved.unique reservedToo, ih rest]
      | submission submission _ _ => exact absurd submission reserved.not_submission
  | submission submission prints _ ih =>
      cases answeredToo with
      | reserved reserved _ => exact absurd submission reserved.not_submission
      | submission _ printsToo rest => rw [prints_iff.1 prints, prints_iff.1 printsToo, ih rest]

def submissions (lines : List String) : List String := lines.filter fun line => IsSubmission line

theorem submissions_of_reserved {answer : Bool × String} (reserved : Reserved line answer)
    (lines : List String) : submissions (line :: lines) = submissions lines :=
  List.filter_cons_of_neg (by simpa using reserved.not_submission)

theorem submissions_of_submission (submission : IsSubmission line) (lines : List String) :
    submissions (line :: lines) = line :: submissions lines :=
  List.filter_cons_of_pos (by simpa using submission)

theorem feeds_of_runs {final : Session} {lines : List String} : ∀ {session : Session}
    {outcomes : List Outcome}, session.Runs (submissions lines) outcomes final →
    ∃ answers, Answers lines outcomes answers ∧ Feeds session lines answers final := by
  induction lines with
  | nil =>
      rintro session outcomes ⟨⟩
      exact ⟨[], .nil, .nil _⟩
  | cons line rest ih =>
      intro session outcomes runs
      rcases line_cases line with ⟨answer, reserved⟩ | submission
      · rw [submissions_of_reserved reserved] at runs
        obtain ⟨answers, answered, feeds⟩ := ih runs
        have fed : feed 0 session line = some _ := reserved.feed
        exact ⟨_, .reserved reserved answered, .cons fed feeds⟩
      · rw [submissions_of_submission submission] at runs
        cases runs with
        | cons gives later =>
            obtain ⟨answers, answered, feeds⟩ := ih later
            obtain ⟨depth, evaluation, evaluated, rfl, rfl⟩ := gives
            have fed : feed depth session line = some ⟨false, printed evaluation.outcome,
                evaluation.session, evaluation.log⟩ := by
              rw [submission.feed, evaluated, Option.map_some]
            exact ⟨_, .submission submission (prints_iff.2 rfl) answered, .cons fed feeds⟩

theorem Feeds.runs {final : Session} {lines : List String} {answers : List (Bool × String)}
    (feeds : Feeds session lines answers final) : ∃ outcomes,
      session.Runs (submissions lines) outcomes final ∧ Answers lines outcomes answers := by
  induction feeds with
  | nil _ => exact ⟨[], .nil _, .nil⟩
  | @cons depth session final line lines reply answers fed _ ih =>
      obtain ⟨outcomes, runs, answered⟩ := ih
      rcases line_cases line with ⟨answer, reserved⟩ | submission
      · rw [reserved.feed, Option.some.injEq] at fed
        subst fed
        rw [submissions_of_reserved reserved]
        exact ⟨outcomes, runs, .reserved reserved answered⟩
      · rw [submission.feed, Option.map_eq_some_iff] at fed
        obtain ⟨evaluation, evaluated, rfl⟩ := fed
        rw [submissions_of_submission submission]
        exact ⟨_, .cons ⟨depth, evaluation, evaluated, rfl, rfl⟩ runs,
          .submission submission (prints_iff.2 rfl) answered⟩

end Console

end LetStack
