import LetStack.Console.CommandLine
import LetStack.Proofs.Console.Replies
import LetStack.Proofs.Session.Results
import LetStack.Proofs.Source.Acceptance

/-!
A whole conversation. The lines of an input are fed to a new session up to one that asks to stop, and
the end of the input asks for it too.
-/

namespace LetStack

/-! Deeper calls do not change what a submission comes to -/

theorem run_deepen {depth deeper : Nat} {code : List Instr} {env : Environment} {ended : Run Instr}
    (ran : run depth code env = some ended) (bound : depth ≤ deeper) : ∃ further,
      run deeper code env = some further ∧ further.answer = ended.answer ∧
        further.state.env = ended.state.env := by
  obtain ⟨fault, after, ends, answered, last⟩ := run_iff_ends.1 ⟨ended, ran, rfl, rfl⟩
  exact run_iff_ends.2 ⟨fault, after, ends.deepen bound, answered, last⟩

namespace Session

variable {session after : Session} {source : String} {outcome : Outcome}

theorem submit_deepen {depth deeper : Nat} {program : List Expr} {evaluation : Evaluation}
    (submitted : session.submit depth program = some evaluation) (bound : depth ≤ deeper) :
    ∃ log, session.submit deeper program =
      some ⟨evaluation.outcome, evaluation.session, log⟩ := by
  by_cases clean : (session.scope.analyze program).2.isClean = true
  · rw [submit, if_pos clean, runProgram, Option.map_eq_some_iff] at submitted
    obtain ⟨ended, ran, rfl⟩ := submitted
    obtain ⟨further, ranToo, answer, env⟩ := run_deepen ran bound
    rw [submit, if_pos clean, runProgram, ranToo, Option.map_some, answer, env]
    exact ⟨_, rfl⟩
  · rw [submit, if_neg clean] at submitted ⊢
    exact ⟨_, submitted⟩

theorem evaluate_deepen {depth deeper : Nat} {evaluation : Evaluation}
    (evaluated : session.evaluate depth source = some evaluation) (bound : depth ≤ deeper) :
    ∃ log, session.evaluate deeper source =
      some ⟨evaluation.outcome, evaluation.session, log⟩ := by
  by_cases plain : stripBlank source = envCommand
  · rw [evaluate, if_pos plain] at evaluated ⊢
    exact ⟨_, evaluated⟩
  · rw [evaluate, if_neg plain] at evaluated ⊢
    cases parsed : parse source with
    | error error =>
        rw [parsed] at evaluated
        exact ⟨_, evaluated⟩
    | ok program =>
        rw [parsed] at evaluated
        exact submit_deepen evaluated bound

theorem Gives.evaluates (gives : session.Gives source outcome after) :
    ∃ depth, ∀ deeper, depth ≤ deeper → ∃ log,
      session.evaluate deeper source = some ⟨outcome, after, log⟩ := by
  obtain ⟨depth, evaluation, evaluated, rfl, rfl⟩ := gives
  exact ⟨depth, fun deeper bound => evaluate_deepen evaluated bound⟩

end Session

namespace Console

/-! The lines of an input -/

theorem splitLines_pieces (chars : List Char) : ∃ (whole : List (List Char)) (last : List Char),
    splitLines chars = whole ++ [last] ∧ chars = whole.flatMap (· ++ ['\n']) ++ last ∧
      (∀ line ∈ whole, '\n' ∉ line) ∧ '\n' ∉ last := by
  induction chars with
  | nil => exact ⟨[], [], rfl, rfl, nofun, nofun⟩
  | cons char rest ih =>
      obtain ⟨whole, last, split, shape, clear, clearLast⟩ := ih
      rw [splitLines, split]
      by_cases newline : char = '\n'
      · rw [if_pos newline, newline, shape]
        exact ⟨[] :: whole, last, rfl, rfl, List.forall_mem_cons.2 ⟨nofun, clear⟩, clearLast⟩
      · rw [if_neg newline, shape]
        cases whole with
        | nil => exact ⟨[], char :: last, rfl, rfl, nofun, by simp [clearLast, Ne.symm newline]⟩
        | cons first others =>
            obtain ⟨clearFirst, clearOthers⟩ := List.forall_mem_cons.1 clear
            exact ⟨(char :: first) :: others, last, rfl, rfl, List.forall_mem_cons.2
              ⟨by simp [clearFirst, Ne.symm newline], clearOthers⟩, clearLast⟩

theorem inputLines_pieces (input : String) : ∃ (whole : List String) (last : String),
    input = String.join (whole.map (· ++ "\n")) ++ last ∧
      (∀ line ∈ whole, '\n' ∉ line.toList) ∧ '\n' ∉ last.toList ∧
      inputLines input = if last = "" then whole else whole ++ [last] := by
  obtain ⟨whole, last, split, shape, clear, clearLast⟩ := splitLines_pieces input.toList
  refine ⟨whole.map String.ofList, String.ofList last, ?_, ?_, ?_, ?_⟩
  · rw [← String.toList_inj, shape]
    simp [List.flatMap_map]
  · simpa using clear
  · simpa using clearLast
  · rw [inputLines, split]
    by_cases empty : last = []
    · simp [empty]
    · simp [empty]

variable {lines : List String}

def linesBefore (lines : List String) : List String := lines.takeWhile fun line => ¬ IsStop line

def farewell (lines : List String) : String :=
  match lines.find? fun line => IsStop line with
  | none => "\n"
  | some line => if stripBlank line = "exit" then "" else "\n"

theorem linesBefore_of_stop {line : String} (stop : IsStop line) (rest : List String) :
    linesBefore (line :: rest) = [] :=
  List.takeWhile_cons_of_neg (by simpa using stop)

theorem linesBefore_of_other {line : String} (other : ¬ IsStop line) (rest : List String) :
    linesBefore (line :: rest) = line :: linesBefore rest :=
  List.takeWhile_cons_of_pos (by simpa using other)

theorem farewell_of_stop {line output : String} (reserved : Reserved line (true, output))
    (rest : List String) : farewell (line :: rest) = output := by
  have stop : IsStop line := reserved.stops_iff.1 rfl
  rw [farewell, List.find?_cons_of_pos (by simpa using stop)]
  cases reserved with
  | exit same => exact if_pos same
  | ended same => simp [same]

theorem farewell_of_other {line : String} (other : ¬ IsStop line) (rest : List String) :
    farewell (line :: rest) = farewell rest := by
  rw [farewell, List.find?_cons_of_neg (by simpa using other), farewell]

theorem converse_of_runs (prompt : String) {final : Session} : ∀ {session : Session}
    {outcomes : List Outcome}, session.Runs (submissions (linesBefore lines)) outcomes final →
    ∃ answers depth, Answers (linesBefore lines) outcomes answers ∧
      ∀ deeper, depth ≤ deeper → ∃ log, converse deeper prompt lines session = some
        ((answers.flatMap fun answer => [prompt, answer.2]) ++ [prompt, farewell lines], log) := by
  induction lines with
  | nil =>
      rintro session outcomes ⟨⟩
      exact ⟨[], 0, .nil, fun deeper _ => ⟨[], rfl⟩⟩
  | cons line rest ih =>
      intro session outcomes runs
      rcases line_cases line with ⟨⟨stops, output⟩, reserved⟩ | submission
      · cases stops with
        | true =>
            have stop : IsStop line := reserved.stops_iff.1 rfl
            rw [linesBefore_of_stop stop] at runs ⊢
            cases runs
            refine ⟨[], 0, .nil, fun deeper _ => ⟨[], ?_⟩⟩
            rw [converse, reserved.feed, farewell_of_stop reserved]
            rfl
        | false =>
            have other : ¬ IsStop line := fun stop => nomatch reserved.stops_iff.2 stop
            rw [linesBefore_of_other other, submissions_of_reserved reserved] at runs
            obtain ⟨answers, depth, answered, talks⟩ := ih runs
            rw [linesBefore_of_other other]
            refine ⟨_, depth, .reserved reserved answered, fun deeper bound => ?_⟩
            obtain ⟨log, talked⟩ := talks deeper bound
            simp only [converse, reserved.feed, talked, farewell_of_other other]
            exact ⟨_, rfl⟩
      · rw [linesBefore_of_other submission.1, submissions_of_submission submission] at runs
        cases runs with
        | @cons _ middle _ _ _ outcome outcomes gives later =>
            obtain ⟨depth, evaluates⟩ := gives.evaluates
            obtain ⟨answers, more, answered, talks⟩ := ih later
            rw [linesBefore_of_other submission.1]
            refine ⟨_, max depth more, .submission submission (prints_iff.2 rfl) answered, ?_⟩
            intro deeper bound
            obtain ⟨log, evaluated⟩ := evaluates deeper (by omega)
            obtain ⟨further, talked⟩ := talks deeper (by omega)
            simp only [converse, submission.feed, evaluated, Option.map_some, talked,
              farewell_of_other submission.1]
            exact ⟨_, rfl⟩

theorem runs_of_converse {depth : Nat} {prompt : String} : ∀ {session : Session}
    {talk : List String × List LogEntry}, converse depth prompt lines session = some talk →
      ∃ outcomes final, session.Runs (submissions (linesBefore lines)) outcomes final := by
  induction lines with
  | nil => exact fun _ => ⟨_, _, .nil _⟩
  | cons line rest ih =>
      intro session talk talked
      rcases line_cases line with ⟨answer, reserved⟩ | submission
      · by_cases stop : IsStop line
        · rw [linesBefore_of_stop stop]
          exact ⟨_, _, .nil _⟩
        · have goesOn : answer.1 = false :=
            Bool.eq_false_iff.2 fun stops => stop (reserved.stops_iff.1 stops)
          simp only [converse, reserved.feed, goesOn, Bool.false_eq_true, if_false,
            Option.map_eq_some_iff] at talked
          obtain ⟨_, talkedOn, _⟩ := talked
          rw [linesBefore_of_other stop, submissions_of_reserved reserved]
          exact ih talkedOn
      · cases evaluated : session.evaluate depth line with
        | none => simp [converse, submission.feed, evaluated] at talked
        | some evaluation =>
            simp only [converse, submission.feed, evaluated, Option.map_some, Bool.false_eq_true,
              if_false, Option.map_eq_some_iff] at talked
            obtain ⟨_, talkedOn, _⟩ := talked
            obtain ⟨outcomes, final, runs⟩ := ih talkedOn
            rw [linesBefore_of_other submission.1, submissions_of_submission submission]
            exact ⟨_, _, .cons ⟨depth, evaluation, evaluated, rfl, rfl⟩ runs⟩

end Console

namespace CommandLine

theorem classify_prompt (prompt : String) :
    classify ("--prompt=" ++ prompt) = .ok (.option "--prompt" .prompt (some prompt)) := by
  have shape : ("--prompt=" ++ prompt).toList = "--prompt".toList ++ '=' :: prompt.toList := by simp
  have before : beforeEquals ("--prompt=" ++ prompt) = "--prompt".toList := by
    rw [beforeEquals, shape]
    exact (span_append (by decide) (by rintro char ⟨⟩; rfl)).1
  have behind : fromEquals ("--prompt=" ++ prompt) = '=' :: prompt.toList := by
    rw [fromEquals, shape]
    exact (span_append (by decide) (by rintro char ⟨⟩; rfl)).2
  have notAlone : spellings.find? (isOption ("--prompt=" ++ prompt).toList) = none := by
    rw [shape]
    simp [spellings, isOption]
  have full : fullOption? ("--prompt=" ++ prompt) =
      some (.option "--prompt" .prompt (some prompt)) := by
    rw [fullOption?, notAlone, before, behind, attachedOf?, String.ofList_toList]
    rfl
  have dashed : ¬ (("--prompt=" ++ prompt).toList.head? ≠ some '-' ∨ "--prompt=" ++ prompt = "-") := by
    rw [← String.toList_inj, shape]
    simp
  rw [classify, if_neg dashed, full]

/-- Any prompt can be asked for but for one, which is taken for something else. -/
theorem request_prompt {prompt : String} (other : prompt ≠ "--") :
    request ["--prompt=" ++ prompt] = .start ⟨false, prompt⟩ := by
  have word : "--prompt=" ++ prompt ≠ "--" := by
    rw [ne_eq, ← String.toList_inj]
    simp
  simp [request, classifyAll, word, classify_prompt, Bind.bind, Except.bind, follow, attachedPrompt,
    other]

variable {words : List String} {prompt input : String}

theorem complete_of_talk {depth : Nat} {output : List String} {log : List LogEntry}
    (asked : request words = .start ⟨false, prompt⟩)
    (talked : Console.converse depth prompt (Console.inputLines input) .empty = some (output, log)) :
    complete depth words input = some ⟨0, String.join (Console.introduction :: output), ""⟩ := by
  simp [complete, asked, talked, logText]

theorem talk_of_complete {depth : Nat} {completion : Completion}
    (asked : request words = .start ⟨false, prompt⟩)
    (completed : complete depth words input = some completion) :
    ∃ talk, Console.converse depth prompt (Console.inputLines input) .empty = some talk := by
  simp only [complete, asked, Option.map_eq_some_iff] at completed
  obtain ⟨talk, talked, _⟩ := completed
  exact ⟨talk, talked⟩

end CommandLine

namespace Console

/-- A shell evaluates the lines that are neither blank nor ask to stop, in order, and answers each
line by itself. The program does so for the lines of its input before the first that asks to stop,
with a prompt before each answer, whenever all that it evaluates comes to an end. -/
theorem shell_fronts_session (session final : Session) (lines words : List String)
    (prompt input : String) (asked : CommandLine.request words = .start ⟨false, prompt⟩) :
    (∀ outcomes, session.Runs (submissions lines) outcomes final →
      ∃ answers, Answers lines outcomes answers ∧ Feeds session lines answers final) ∧
    (∀ answers, Feeds session lines answers final → ∃ outcomes,
      session.Runs (submissions lines) outcomes final ∧ Answers lines outcomes answers) ∧
    (∀ depth line reply, feed depth session line = some reply →
      (reply.stop = true ↔ IsStop line)) ∧
    (∀ outcomes last,
      Session.empty.Runs (submissions (linesBefore (inputLines input))) outcomes last →
      ∃ answers depth, Answers (linesBefore (inputLines input)) outcomes answers ∧
        ∀ deeper, depth ≤ deeper → CommandLine.complete deeper words input = some ⟨0,
          introduction ++ String.join (answers.map fun answer => prompt ++ answer.2) ++ prompt ++
            farewell (inputLines input), ""⟩) ∧
    (∀ depth completion, CommandLine.complete depth words input = some completion →
      ∃ outcomes last,
        Session.empty.Runs (submissions (linesBefore (inputLines input))) outcomes last) ∧
    (∃ (whole : List String) (last : String),
      input = String.join (whole.map (· ++ "\n")) ++ last ∧
      (∀ line ∈ whole, '\n' ∉ line.toList) ∧ '\n' ∉ last.toList ∧
      inputLines input = if last = "" then whole else whole ++ [last]) ∧
    ∀ other, other ≠ "--" →
      CommandLine.request ["--prompt=" ++ other] = .start ⟨false, other⟩ := by
  refine ⟨fun outcomes => feeds_of_runs, fun answers => Feeds.runs, fun _ _ _ => feed_stops_iff, ?_,
    ?_, inputLines_pieces input, fun other => CommandLine.request_prompt⟩
  · intro outcomes last runs
    obtain ⟨answers, depth, answered, talks⟩ := converse_of_runs prompt runs
    refine ⟨answers, depth, answered, fun deeper bound => ?_⟩
    obtain ⟨log, talked⟩ := talks deeper bound
    rw [CommandLine.complete_of_talk asked talked]
    simp [← String.toList_inj, List.flatMap_assoc, List.flatMap_map]
  · intro depth completion completed
    obtain ⟨talk, talked⟩ := CommandLine.talk_of_complete asked completed
    exact runs_of_converse talked

def declaresSeven : List Expr := [.declare .variable "x" (.literal (.int 7))]

def assignsSeven : List Expr := [.assign "x" (.literal (.int 7)), .identifier "x"]

theorem parse_declaresSeven : parse "let x = 7" = .ok declaresSeven := by
  have writes := Writes.last (.declare .variable "x" (.value (.term (.factor (.int ['7'])))))
  have spells : Spells _ "let x = 7".toList :=
    .token [] (.keyword (.declare .variable)) rfl trivial <| .token [' '] (.name "x") rfl rfl <|
    .token [' '] .equals rfl trivial <| .token [' '] (.int ['7']) rfl ⟨nofun, rfl⟩ <| .blank rfl
  have seven : (Literal.int 7).Printable := by decide
  have printable : Printable declaresSeven :=
    ⟨List.cons_ne_nil _ _, List.forall_mem_singleton.2 (.declare _ rfl (.literal seven) rfl)⟩
  exact parse_of_fitting printable writes spells rfl

theorem parse_assignsSeven : parse "x = 7;x" = .ok assignsSeven := by
  have writes := Writes.statements (.assign "x" (.value (.term (.factor (.int ['7'])))))
    (.last (.expression (.value (.term (.factor (.identifier "x"))))))
  have spells : Spells _ "x = 7;x".toList :=
    .token [] (.name "x") rfl rfl <| .token [' '] .equals rfl trivial <|
    .token [' '] (.int ['7']) rfl ⟨nofun, rfl⟩ <| .token [] .semicolon rfl trivial <|
    .token [] (.name "x") rfl rfl <| .blank rfl
  have seven : (Literal.int 7).Printable := by decide
  have opens : ¬ OpensDeclaration "x" := not_opensDeclaration (by decide)
  have printable : Printable assignsSeven := ⟨List.cons_ne_nil _ _, List.forall_mem_cons.2
    ⟨.assign rfl opens (.literal seven) rfl, List.forall_mem_singleton.2 (.identifier rfl)⟩⟩
  exact parse_of_fitting printable writes spells rfl

theorem listing_empty : Environment.empty.listing = .ok "symbols:\nheap:\n" := by
  have none : Environment.empty.symbols.entries.mergeSort Environment.nameBefore = [] :=
    List.mergeSort_nil
  rw [Environment.listing, none]
  rfl

/-- The same line is in error before the declaration, and warns after it. -/
def assignedTwice : List Outcome :=
  [.success (.text "symbols:\nheap:\n") [], .analysisFailure [.unbound "x", .unbound "x"],
    .success .nothing [], .success (.value (.int 7)) [.reassigning "x"]]

theorem runs_assignedTwice : ∃ final, Session.empty.Runs
    [" :env\u2003", "x = 7;x", "let x = 7", "x = 7;x"] assignedTwice final := by
  have shows : Session.empty.Gives " :env\u2003" (.success (.text "symbols:\nheap:\n") []) .empty :=
    (Session.gives_of_env (by decide) listing_empty).2 ⟨rfl, rfl⟩
  have unclean : ¬ (Expr.checkAll assignsSeven Session.empty.scope).2.isClean = true := by decide
  have early : Session.empty.Gives "x = 7;x" (.analysisFailure [.unbound "x", .unbound "x"]) .empty :=
    (Session.gives_of_ok (by decide) parse_assignsSeven).2
      ((Session.submits_of_unclean unclean).2 ⟨rfl, rfl⟩)
  let bound : Session :=
    ⟨⟨Table.empty.set "x" .variable, .empty⟩, Environment.empty.bind "x" (.int 7)⟩
  have declares : Session.empty.Gives "let x = 7" (.success .nothing []) bound :=
    (Session.gives_of_ok (by decide) parse_declaresSeven).2 ⟨2, _, rfl, rfl, rfl⟩
  have assigns : bound.Gives "x = 7;x" (.success (.value (.int 7)) [.reassigning "x"]) _ :=
    (Session.gives_of_ok (by decide) parse_assignsSeven).2 ⟨2, _, rfl, rfl, rfl⟩
  exact ⟨_, .cons shows <| .cons early <| .cons declares <| .cons assigns <| .nil _⟩

theorem answers_assignedTwice : Answers [" :env\u2003", "", "x = 7;x", "let x = 7", "x = 7;x"]
    assignedTwice [(false, "symbols:\nheap:\n"), (false, ""),
      (false, "error: 'x' is not declared\nerror: 'x' is not declared\n"), (false, ""),
      (false, "warning: reassigning 'x'\n7\n")] :=
  .submission (by decide) (prints_iff.2 (by decide)) <| .reserved (.blank (by decide)) <|
  .submission (by decide) (prints_iff.2 (by decide)) <|
  .submission (by decide) (prints_iff.2 (by decide)) <|
  .submission (by decide) (prints_iff.2 (by decide)) .nil

theorem shell_fronts_session_unread : ∃ depth, ∀ deeper, depth ≤ deeper →
    CommandLine.complete deeper ["--prompt=? "]
        " :env\u2003\n\nx = 7;x\nlet x = 7\nx = 7;x\n exit \nunread" = some ⟨0,
      "exprvm interactive shell\nType ':env' to inspect the environment, 'exit' to quit.\n" ++
        ("? symbols:\nheap:\n? ? error: 'x' is not declared\nerror: 'x' is not declared\n" ++
          "? ? warning: reassigning 'x'\n7\n? "), ""⟩ := by
  have asked : CommandLine.request ["--prompt=? "] = .start ⟨false, "? "⟩ := by decide
  let input := " :env\u2003\n\nx = 7;x\nlet x = 7\nx = 7;x\n exit \nunread"
  have before : linesBefore (inputLines input) =
      [" :env\u2003", "", "x = 7;x", "let x = 7", "x = 7;x"] := by decide
  have evaluated : submissions (linesBefore (inputLines input)) =
      [" :env\u2003", "x = 7;x", "let x = 7", "x = 7;x"] := by decide
  obtain ⟨final, runs⟩ := runs_assignedTwice
  obtain ⟨_, _, _, converses, _⟩ := shell_fronts_session .empty .empty [] _ _ input asked
  obtain ⟨answers, depth, answered, completed⟩ := converses _ _ (evaluated ▸ runs)
  rw [before] at answered
  obtain rfl := answered.unique answers_assignedTwice
  have silent : farewell (inputLines input) = "" := by decide
  rw [silent, String.append_empty, String.append_assoc] at completed
  -- The introduction and the answers are compared one after the other.
  exact ⟨depth, fun deeper enough => (completed deeper enough).trans (by congr 2)⟩

end Console

end LetStack
