import LetStack.Proofs.Machine.Faults
import LetStack.Proofs.Session.Submissions
import LetStack.Proofs.Source.Parsing

/-!
What a text can come to. Only faults that a program can bring about are ever told, and what is bound
can always be shown.
-/

namespace LetStack

variable {rule : Rule}

/-- The faults of programs. The others would be faults of the machine. -/
inductive Fault.OfProgram : Fault → Prop
  | missingVariable (name : String) : OfProgram (.missingVariable name)
  | underflow (kind : String) : OfProgram (.underflow kind)
  | operandKinds (operator : Operator) (left right : String) :
      OfProgram (.operandKinds operator left right)
  | overflow (operator : Operator) (left right : Int) : OfProgram (.overflow operator left right)
  | divisionByZero : OfProgram .divisionByZero
  | notCallable (kind : String) : OfProgram (.notCallable kind)
  | argumentCount (expected actual : Nat) : OfProgram (.argumentCount expected actual)

theorem Instr.Raises.ofProgram {instr : Instr} {before : State} {fault : Fault}
    (raises : instr.Raises before fault) : fault.OfProgram := by
  cases raises with
  | operands ofOperands => cases ofOperands <;> constructor
  | _ => constructor

theorem run_ofProgram (closed : rule.Closed) {depth : Nat} {code : List Instr} {env : Environment}
    {ended : Run Instr} {fault : Fault} (ran : run depth code env = some ended)
    (failed : ended.answer = .error fault) (sound : env.Sound rule)
    (allowed : rule code env.symbols) : fault.OfProgram := by
  have start : State.Sound rule ⟨[], env⟩ := ⟨by simp, sound⟩
  obtain ⟨after, ⟨ends, answer, _⟩ | ⟨stop, ends, answer, _⟩⟩ := run_cases ran
  · obtain ⟨shown, taken⟩ := (ends.sound closed start allowed).takeAnswer_ok
    rw [answer, taken] at failed
    cases failed
  · rw [answer] at failed
    cases failed
    obtain ⟨_, _, _, _, raises⟩ := ends.raised closed start allowed
    exact raises.ofProgram

namespace Environment

theorem symbolLines_ok {env : Environment} (entries : List (String × Int))
    (listed : ∀ entry ∈ entries, ∃ value, env.load? entry.2 = some value) :
    ∃ lines, env.symbolLines entries = .ok lines := by
  induction entries with
  | nil => exact ⟨[], rfl⟩
  | cons entry rest ih =>
      obtain ⟨value, loaded⟩ := listed entry List.mem_cons_self
      obtain ⟨lines, shown⟩ := ih fun other member => listed other (List.mem_cons_of_mem _ member)
      obtain ⟨name, address⟩ := entry
      simp only [symbolLines, loaded, shown, Except.map]
      exact ⟨_, rfl⟩

theorem Sound.listing_ok {env : Environment} (sound : env.Sound rule) :
    ∃ text, env.listing = .ok text := by
  obtain ⟨lines, shown⟩ := env.symbolLines_ok (env.symbols.entries.mergeSort nameBefore) (by
    intro entry member
    have found := Table.lookup_of_mem _ env.symbols.distinct entry (List.mem_mergeSort.1 member)
    obtain ⟨place, same, inside⟩ := sound.symbols entry.1 entry.2 found
    exact ⟨env.heap[place], by rw [same, load?_natCast, List.getElem?_eq_getElem inside]⟩)
  simp only [listing, shown, Bind.bind, Except.bind]
  exact ⟨_, rfl⟩

end Environment

/-! Instructions that are handed in from outside, all of them known -/

theorem drain_known {step : State → Instr → Option Effect}
    {stepItem : State → Item Instr → Option Effect}
    (same : ∀ state instr, stepItem state (.known instr) = step state instr) (code : List Instr) :
    ∀ state, drain stepItem Item.kind (code.map .known) state =
      (drain step Instr.kind code state).map fun ending =>
        ⟨ending.state, ending.fault, ending.pending.map .known, ending.events⟩ := by
  induction code with
  | nil => exact fun _ => rfl
  | cons instr rest ih =>
      intro state
      simp only [List.map_cons, drain, same, Item.kind, List.length_map]
      split
      · rfl
      · rfl
      · rw [ih, Option.map_map, Option.map_map]
        rfl

theorem runItems_known {depth : Nat} {code : List Instr} {env : Environment}
    {ended : Run (Item Instr)} (ran : runItems depth (code.map .known) env = some ended) :
    ∃ known, run (depth + 1) code env = some known ∧ ended.answer = known.answer := by
  have same : ∀ state instr, Item.step (execute depth) state (.known instr) =
      Instr.step (execute depth) state instr := fun _ _ => rfl
  rw [runItems, executeItems, drain_known same, Option.map_map] at ran
  obtain ⟨ending, drained, rfl⟩ := Option.map_eq_some_iff.1 ran
  refine ⟨ending.toRun, by rw [run, execute, drained, Option.map_some], ?_⟩
  obtain ⟨state, fault, pending, events⟩ := ending
  cases fault <;> rfl

namespace Session

variable {session : Session} {source : String}

theorem Runs.reached {start final : Session} {sources : List String} {outcomes : List Outcome}
    (runs : start.Runs sources outcomes final) (reached : Reached (fun _ => True) start) :
    Reached (fun _ => True) final := by
  induction runs with
  | nil _ => exact reached
  | cons gives _ ih =>
      obtain ⟨depth, evaluation, evaluated, _, rfl⟩ := gives
      exact ih (.evaluate reached evaluated trivial)

def Finishes (session : Session) (source : String) : Prop :=
  ∀ program, parse source = .ok program → (session.scope.analyze program).2.isClean = true →
    ∃ depth ended, run depth (Expr.compileAll program) session.env = some ended

theorem Finishes.gives (finishes : session.Finishes source) :
    ∃ outcome after, session.Gives source outcome after := by
  by_cases plain : stripBlank source = envCommand
  · exact ⟨_, _, 0, _, by rw [evaluate, if_pos plain], rfl, rfl⟩
  · cases parsed : parse source with
    | error error => exact ⟨_, _, (gives_of_error plain parsed).2 ⟨rfl, rfl⟩⟩
    | ok program =>
        simp only [gives_of_ok plain parsed]
        by_cases clean : (Expr.checkAll program session.scope).2.isClean = true
        · obtain ⟨depth, ended, ran⟩ := finishes program parsed clean
          obtain ⟨fault, after, ends, _⟩ := run_ends ran
          exact ⟨_, _, (submits_of_clean clean).2 ⟨depth, fault, after, ends, rfl, rfl⟩⟩
        · exact ⟨_, _, (submits_of_unclean clean).2 ⟨rfl, rfl⟩⟩

theorem gives_of_env {outcome : Outcome} {after : Session} {text : String}
    (asked : stripBlank source = envCommand) (shown : session.env.listing = .ok text) :
    session.Gives source outcome after ↔ outcome = .success (.text text) [] ∧ after = session := by
  rw [gives_of_asked asked, showEnv, shown]

theorem Sound.ofProgram {bound : Prop} (sound : session.Sound bound) {after : Session} {fault : Fault}
    (gives : session.Gives source (.evaluationFailure fault) after) : fault.OfProgram := by
  by_cases plain : stripBlank source = envCommand
  · obtain ⟨text, shown⟩ := sound.env.listing_ok
    obtain ⟨impossible, _⟩ := (gives_of_env plain shown).1 gives
    cases impossible
  · cases parsed : parse source with
    | error error =>
        obtain ⟨impossible, _⟩ := (gives_of_error plain parsed).1 gives
        cases impossible
    | ok program =>
        have submits := (gives_of_ok plain parsed).1 gives
        by_cases clean : (session.scope.analyze program).2.isClean = true
        · obtain ⟨depth, evaluation, submitted, told, _⟩ := submits
          obtain ⟨ended, ran, _, failed⟩ := submit_of_clean clean submitted
          exact run_ofProgram (allowed_closed bound) ran ((failed fault).1 told) sound.env
            (sound.allowed clean)
        · obtain ⟨impossible, _⟩ := (submits_of_unclean clean).1 submits
          cases impossible

end Session

/-- After any texts, the names and the heap can be shown; any further text whose run ends comes to an
outcome; and no fault is told, or raised by the machine where it is given the instructions one by one,
that is not of the program. -/
theorem texts_come_to_results (session : Session) (sources : List String) (outcomes : List Outcome)
    (source : String) (runs : Session.empty.Runs sources outcomes session) :
    (∃ text, session.env.listing = .ok text ∧
      (stripBlank source = Session.envCommand → ∀ outcome after,
        session.Gives source outcome after ↔
          outcome = .success (.text text) [] ∧ after = session)) ∧
    (session.Finishes source → ∃ outcome after, session.Gives source outcome after) ∧
    (∀ fault after, session.Gives source (.evaluationFailure fault) after → fault.OfProgram) ∧
    ∀ program, parse source = .ok program → Item.allKnown (program.map .known) = .ok program ∧
      ((session.scope.analyze program).2.isClean = true → ∀ depth ended fault,
        runItems depth ((Expr.compileAll program).map .known) session.env = some ended →
        ended.answer = .error fault → fault.OfProgram) := by
  have sound : session.Sound False := (runs.reached .empty).sound False.elim
  refine ⟨?_, Session.Finishes.gives, fun fault after => sound.ofProgram, ?_⟩
  · obtain ⟨text, shown⟩ := sound.env.listing_ok
    exact ⟨text, shown, fun asked outcome after => Session.gives_of_env asked shown⟩
  · intro program _
    refine ⟨Item.allKnown_map_known program, ?_⟩
    intro clean depth ended fault ran failed
    obtain ⟨known, knownRan, answer⟩ := runItems_known ran
    exact run_ofProgram (allowed_closed False) knownRan (answer ▸ failed) sound.env
      (sound.allowed clean)

def addsToText : List Expr :=
  [.declare .variable "t" (.literal (.text "hi")),
    .binary (.identifier "t") .add (.literal (.int 1))]

theorem parse_addsToText : parse "let t=\"hi\";t+1" = .ok addsToText := by
  have sum := Writes.sum (rfl : Operator.add.isFactor = false)
    (.term (.factor (.identifier "t"))) (.factor (.int ['1']))
  have writes := Writes.statements
    (.declare .variable "t" (.value (.term (.factor (.text "hi"))))) (.last (.expression (.value sum)))
  have closed : '"' ∉ "hi".toList := by decide
  have spells : Spells _ "let t=\"hi\";t+1".toList :=
    .token [] (.keyword (.declare .variable)) rfl trivial <| .token [' '] (.name "t") rfl rfl <|
    .token [] .equals rfl trivial <| .token [] (.text "hi") rfl closed <|
    .token [] .semicolon rfl trivial <| .token [] (.name "t") rfl rfl <|
    .token [] (.operator .add) rfl trivial <| .token [] (.int ['1']) rfl ⟨nofun, rfl⟩ <|
    .blank rfl
  have text : (Literal.text "hi").Printable := by decide
  have one : (Literal.int 1).Printable := by decide
  have printable : Printable addsToText := ⟨List.cons_ne_nil _ _, List.forall_mem_cons.2
    ⟨.declare .variable rfl (.literal text) rfl, List.forall_mem_singleton.2
      (.binary .add (.identifier rfl) rfl (.literal one) rfl)⟩⟩
  exact parse_of_fitting printable writes spells rfl

def afterAddsToText : Session :=
  ⟨⟨Table.empty.set "t" .variable, .empty⟩,
    (Environment.empty.allocate (.bytes [104, 105])).bind "t" (.pointer 0)⟩

theorem runs_addsToText : Session.empty.Runs ["let t=\"hi\";t+1"]
    [.evaluationFailure (.operandKinds .add "pointer" "int")] afterAddsToText := by
  have plain : stripBlank "let t=\"hi\";t+1" ≠ Session.envCommand := by decide
  exact .cons ((Session.gives_of_ok plain parse_addsToText).2 ⟨2, _, rfl, rfl, rfl⟩) (.nil _)

theorem texts_come_to_results_shown : ∃ session text,
    Session.empty.Runs ["let t=\"hi\";t+1"]
      [.evaluationFailure (.operandKinds .add "pointer" "int")] session ∧
    session.Gives " :env\n" (.success (.text text) []) session := by
  obtain ⟨⟨text, _, shown⟩, _⟩ := texts_come_to_results _ _ _ " :env\n" runs_addsToText
  exact ⟨_, text, runs_addsToText, (shown (by decide) _ _).2 ⟨rfl, rfl⟩⟩

end LetStack
