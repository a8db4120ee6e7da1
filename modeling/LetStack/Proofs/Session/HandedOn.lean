import LetStack.Proofs.Scoping.Declared
import LetStack.Proofs.Session.Handings
import LetStack.Proofs.Session.Results

/-!
A text that is handed on stays the same. Each call copies its bytes to another heap and back, and
rebinds the names of the caller to what the function has captured, so all environments have to agree
on what known names stand for.
-/

namespace LetStack

/-! Machine -/

def givesBack (param : String) : List Instr := [.store param, .lookup param]

/-- The argument crosses to the heap of the function, and from there to that of the caller. -/
theorem acts_call_givesBack {env captured : Environment} {param : String} {arg target : Value}
    {hops : Nat} (below : List Value) (readable : captured.Readable)
    (leads : Leads env.heap arg hops target) : ∃ result after inner heap,
      captured.heap <+: heap ∧ Leads heap inner hops target ∧
      (Instr.call 1).Acts 1 ⟨.closure [param] (givesBack param) captured :: arg :: below, env⟩ none
        ⟨result :: below, after⟩ ∧
      env.Absorbs [param] (({ captured with heap := heap } : Environment).bind param inner) after ∧
      Leads after.heap result hops target := by
  obtain ⟨inner, heap, transferred, grown, copied⟩ := Environment.transfer_of_leads leads captured
  have entered : State.Enters ⟨.closure [param] (givesBack param) captured :: arg :: below, env⟩ 1
      ⟨[param], givesBack param, captured, ⟨below, env⟩, ⟨[inner], { captured with heap := heap }⟩⟩ :=
    ⟨[arg], rfl, rfl, rfl, rfl, by simp [State.seed, transferred, Bind.bind, Except.bind]⟩
  have binds : (({ captured with heap := heap } : Environment).bind param inner).Binds param hops
      target := Environment.binds_bind_self param copied
  obtain ⟨found, looked, foundLeads⟩ := Instr.acts_lookup_of_binds 0 [] binds
  have ran : Ends 1 (givesBack param) ⟨[inner], { captured with heap := heap }⟩ none
      ⟨[found], ({ captured with heap := heap } : Environment).bind param inner⟩ :=
    finished_cons_iff.2 ⟨_, Instr.acts_store_iff.2 ⟨rfl, rfl⟩, ends_singleton_iff.2 looked⟩
  obtain ⟨result, after, left, absorbed, resultLeads⟩ := State.leaves_of_result ⟨below, env⟩ [param]
    ((readable.grow grown).bind copied param) [] foundLeads
  exact ⟨result, after, inner, heap, grown, copied, Instr.acts_call_of_enters entered ran left,
    absorbed, resultLeads⟩

abbrev Sense : Type := String → Nat × Value

structure Environment.Agrees (names : List String) (known : List (String × Role)) (sense : Sense)
    (env : Environment) : Prop where
  readable : env.Readable
  within : env.symbols.names ⊆ names
  binds : ∀ entry ∈ known, env.symbols.contains entry.1 = true →
    env.Binds entry.1 (sense entry.1).1 (sense entry.1).2

inductive Role.Means (content : String) (captures : Environment → Prop) : Role → Nat × Value → Prop
  | text : Means content captures .text (1, .bytes (encodeUtf8 content.toList))
  | function (param : String) {captured : Environment} : captures captured →
      Means content captures .function (0, .closure [param] (givesBack param) captured)

theorem Role.Means.imp {content : String} {captures also : Environment → Prop} {role : Role}
    {meaning : Nat × Value} (means : role.Means content captures meaning)
    (all : ∀ env, captures env → also env) : role.Means content also meaning := by
  cases means with
  | text => exact .text
  | function param captured => exact .function param (all _ captured)

namespace Environment.Agrees

variable {names longer : List String} {known : List (String × Role)} {sense : Sense}
  {env : Environment} {name : String}

theorem grow (agrees : env.Agrees names known sense) {heap : List Value}
    (grown : env.heap <+: heap) :
    ({ env with heap := heap } : Environment).Agrees names known sense where
  readable := agrees.readable.grow grown
  within := agrees.within
  binds entry member bound := (agrees.binds entry member bound).keep grown rfl

theorem extend (agrees : env.Agrees names known sense) (grown : names ⊆ longer)
    (fresh : name ∉ names) (role : Role) (meaning : Nat × Value) :
    env.Agrees longer ((name, role) :: known) (Function.update sense name meaning) where
  readable := agrees.readable
  within := List.Subset.trans agrees.within grown
  binds := by
    rintro ⟨query, other⟩ member bound
    have apart : query ≠ name := by
      rintro rfl
      exact fresh (agrees.within ((Table.contains_iff_mem_names _ _).1 bound))
    rw [Function.update_of_ne apart]
    rcases List.mem_cons.1 member with same | earlier
    · exact absurd (congrArg Prod.fst same) apart
    · exact agrees.binds _ earlier bound

theorem bind (agrees : env.Agrees names known sense) (member : name ∈ names) {value : Value}
    (leads : Leads env.heap value (sense name).1 (sense name).2) :
    (env.bind name value).Agrees names known sense where
  readable := agrees.readable.bind leads name
  within query bound := by
    rcases (Table.contains_set_iff _ _ _ _).1 ((Table.contains_iff_mem_names _ _).2 bound) with
      rfl | earlier
    · exact member
    · exact agrees.within ((Table.contains_iff_mem_names _ _).1 earlier)
  binds := by
    rintro ⟨query, role⟩ listed bound
    by_cases same : query = name
    · subst same
      exact binds_bind_self query leads
    · have unchanged := env.get?_bind_of_ne value same
      rw [Table.contains, unchanged] at bound
      exact (agrees.binds _ listed bound).keep (env.heap_prefix_bind name value) unchanged

theorem absorb {captured after : Environment} {heap : List Value} {param : String}
    {inner target : Value} {hops : Nat} (agrees : env.Agrees names known sense)
    (capturedAgrees : captured.Agrees names known sense) (grown : captured.heap <+: heap)
    (leads : Leads heap inner hops target)
    (absorbed : env.Absorbs [param]
      (({ captured with heap := heap } : Environment).bind param inner) after) :
    after.Agrees names known sense := by
  have calleeReadable := (capturedAgrees.readable.grow grown).bind leads param
  refine ⟨absorbed.readable agrees.readable calleeReadable, ?_, ?_⟩
  · rw [absorbed.names]
    exact agrees.within
  · intro entry member bound
    have before := agrees.binds entry member ((absorbed.contains_iff _).1 bound)
    refine (absorbed.binds_iff calleeReadable before).2 ?_
    by_cases same : entry.1 = param
    · exact Or.inl (List.mem_singleton.2 same)
    · have unchanged := ({ captured with heap := heap } : Environment).get?_bind_of_ne inner same
      cases inside : captured.symbols.contains entry.1 with
      | false =>
          refine Or.inr (Or.inl ?_)
          rw [Table.contains, unchanged]
          exact inside
      | true =>
          exact Or.inr (Or.inr (((capturedAgrees.grow grown).binds entry member inside).keep
            (Environment.heap_prefix_bind _ param inner) unchanged))

end Environment.Agrees

variable {content : String} {names : List String} {known : List (String × Role)} {sense : Sense}

theorem Handing.Known.ends {handing : Handing} (knows : handing.Known known)
    (means : ∀ entry ∈ known,
      entry.2.Means content (Environment.Agrees names known sense) (sense entry.1))
    {env : Environment} (below : List Value) (agrees : env.Agrees names known sense)
    (bound : ∀ entry ∈ known, env.symbols.contains entry.1 = true) : ∃ value last,
      Ends 2 (handing.expr content).compile ⟨below, env⟩ none ⟨value :: below, last⟩ ∧
      Leads last.heap value 1 (.bytes (encodeUtf8 content.toList)) ∧
      last.Agrees names known sense := by
  induction handing with
  | quoted =>
      refine ⟨.pointer env.heap.length, env.allocate (.bytes (encodeUtf8 content.toList)),
        ends_singleton_iff.2 (Instr.acts_allocateBytes_iff.2 ⟨rfl, rfl⟩), ?_,
        agrees.grow (List.prefix_append _ _)⟩
      exact .hop (by simp [Environment.allocate]) (.here nofun)
  | named name =>
      obtain ⟨value, acts, leads⟩ := Instr.acts_lookup_of_binds 1 below
        (agrees.binds _ knows (bound _ knows))
      have asText := means _ knows
      generalize sense name = meaning at leads asText
      cases asText
      exact ⟨value, env, ends_singleton_iff.2 acts, leads, agrees⟩
  | called function inner ih =>
      obtain ⟨arg, middle, ran, argLeads, middleAgrees⟩ := ih knows.2
      obtain ⟨callee, acts, leads⟩ := Instr.acts_lookup_of_binds 1 (arg :: below)
        (middleAgrees.binds _ knows.1 (ran.contains_of_before (bound _ knows.1)))
      have closure := means _ knows.1
      generalize sense function = meaning at leads closure
      cases closure with
      | @function param captured capturedAgrees =>
          cases leads
          obtain ⟨result, after, _, heap, grown, copied, called, absorbed, resultLeads⟩ :=
            acts_call_givesBack below capturedAgrees.readable argLeads
          have code : (Handing.expr content (.called function inner)).compile =
              (inner.expr content).compile ++ [.lookup function, .call 1] := by
            simp [Handing.expr, Expr.compile, Expr.compileAll]
          refine ⟨result, after, ?_, resultLeads,
            middleAgrees.absorb capturedAgrees grown copied absorbed⟩
          rw [code]
          exact ran.append (finished_cons_iff.2 ⟨_, acts, ends_singleton_iff.2 called⟩)

theorem State.takeAnswer_text {env : Environment} {value : Value} (below : List Value)
    (leads : Leads env.heap value 1 (.bytes (encodeUtf8 content.toList))) :
    (State.takeAnswer ⟨value :: below, env⟩).1 = .ok (.text ("\"" ++ content ++ "\"")) := by
  cases leads with
  | hop found rest =>
      cases rest
      simp only [takeAnswer, found, bytesText_encodeUtf8]

/-! Sessions -/

/-- Beyond the known names it has declared no more than the scope says. -/
structure Session.Passes (scope : Scope) (content : String) (known : List (String × Role))
    (sense : Sense) (session : Session) : Prop where
  valid : ∀ entry ∈ known, isName entry.1.toList = true
  fresh : ∀ name, session.scope.symbols.contains name = true →
    scope.symbols.contains name = true ∨ ∃ role, (name, role) ∈ known
  covers : session.scope.Covers known
  bound : ∀ entry ∈ known, session.env.symbols.contains entry.1 = true
  agrees : session.env.Agrees session.scope.symbols.names known sense
  means : ∀ entry ∈ known, entry.2.Means content
    (Environment.Agrees session.scope.symbols.names known sense) (sense entry.1)

namespace Session.Passes

variable {scope : Scope} {session : Session} {name : String}

theorem undeclared (passes : session.Passes scope content known sense)
    (free : scope.Free known name) : session.scope.symbols.contains name = false := by
  rw [← Bool.not_eq_true]
  intro declared
  rcases passes.fresh name declared with before | ⟨role, member⟩
  · rw [free.undeclared] at before
    cases before
  · exact free.unknown role member

theorem ends (passes : session.Passes scope content known sense) {handing : Handing}
    (knows : handing.Known known) : ∃ value last,
      Ends 2 (handing.expr content).compile ⟨[], session.env⟩ none ⟨[value], last⟩ ∧
      Leads last.heap value 1 (.bytes (encodeUtf8 content.toList)) ∧
      (⟨session.scope, last⟩ : Session).Passes scope content known sense := by
  obtain ⟨value, last, ran, leads, agrees⟩ :=
    knows.ends passes.means [] passes.agrees passes.bound
  exact ⟨value, last, ran, leads, passes.valid, passes.fresh, passes.covers,
    fun entry member => ran.contains_of_before (passes.bound entry member), agrees, passes.means⟩

theorem renames (passes : session.Passes scope content known sense) (member : (name, .text) ∈ known)
    {value : Value} (leads : Leads session.env.heap value 1 (.bytes (encodeUtf8 content.toList)))
    (rhs : Expr) : (⟨session.scope.recordArity name rhs, session.env.bind name value⟩ :
      Session).Passes scope content known sense := by
  have asText := passes.means _ member
  have apart : (name, .function) ∉ known := by
    intro asFunction
    have closure := passes.means _ asFunction
    generalize sense name = meaning at asText closure
    cases asText
    cases closure
  have same : (session.scope.recordArity name rhs).symbols = session.scope.symbols :=
    Scope.recordArity_symbols _ _ _
  refine { valid := passes.valid, fresh := ?fresh, covers := passes.covers.recordArity apart rhs,
           bound := ?bound, agrees := ?agrees, means := ?means }
  case fresh =>
    rw [same]
    exact passes.fresh
  case bound =>
    intro entry listed
    exact (Table.contains_set_iff _ _ _ _).2 (Or.inr (passes.bound entry listed))
  case agrees =>
    rw [same]
    refine passes.agrees.bind ?_ ?_
    · exact (Table.contains_iff_mem_names _ _).1 (passes.covers.contains member)
    · generalize sense name = meaning at asText
      cases asText
      exact leads
  case means =>
    rw [same]
    exact passes.means

theorem declares (passes : session.Passes scope content known sense) (free : scope.Free known name)
    {role : Role} {value target : Value} {hops : Nat} {rhs : Expr}
    (leads : Leads session.env.heap value hops target)
    (means : role.Means content
      (Environment.Agrees session.scope.symbols.names known sense) (hops, target))
    (takesOne : role = .function → session.scope.arityOf? rhs = some 1) :
    (⟨session.scope.declare .variable name rhs, session.env.bind name value⟩ :
      Session).Passes scope content ((name, role) :: known)
        (Function.update sense name (hops, target)) := by
  have symbols : (session.scope.declare .variable name rhs).symbols =
      session.scope.symbols.set name .variable := Scope.recordArity_symbols _ _ _
  have grown : session.scope.symbols.names ⊆
      (session.scope.declare .variable name rhs).symbols.names := by
    intro query declared
    rw [symbols, ← Table.contains_iff_mem_names, Table.contains_set_iff]
    exact Or.inr ((Table.contains_iff_mem_names _ _).2 declared)
  have unknown : name ∉ session.scope.symbols.names := by
    rw [← Table.contains_iff_mem_names, passes.undeclared free]
    exact Bool.false_ne_true
  have extended : ∀ env : Environment,
      env.Agrees session.scope.symbols.names known sense →
      env.Agrees (session.scope.declare .variable name rhs).symbols.names ((name, role) :: known)
        (Function.update sense name (hops, target)) :=
    fun env agrees => agrees.extend grown unknown role (hops, target)
  refine { valid := List.forall_mem_cons.2 ⟨free.valid, passes.valid⟩, fresh := ?fresh,
           covers := passes.covers.declare free.unknown takesOne,
           bound := List.forall_mem_cons.2 ⟨?bound, ?boundBefore⟩, agrees := ?agrees,
           means := List.forall_mem_cons.2 ⟨?means, ?meansBefore⟩ }
  case fresh =>
    intro query declared
    rw [symbols, Table.contains_set_iff] at declared
    rcases declared with rfl | before
    · exact Or.inr ⟨role, List.mem_cons_self⟩
    · exact (passes.fresh query before).imp_right fun ⟨other, member⟩ =>
        ⟨other, List.mem_cons_of_mem _ member⟩
  case bound => exact (Table.contains_set_iff _ _ _ _).2 (Or.inl rfl)
  case boundBefore =>
    intro entry listed
    exact (Table.contains_set_iff _ _ _ _).2 (Or.inr (passes.bound entry listed))
  case agrees =>
    refine (extended _ passes.agrees).bind ?_ ?_
    · rw [symbols, ← Table.contains_iff_mem_names, Table.contains_set_iff]
      exact Or.inl rfl
    · rw [Function.update_self]
      exact leads
  case means =>
    rw [Function.update_self]
    exact means.imp extended
  case meansBefore =>
    intro entry listed
    have apart : entry.1 ≠ name := by
      rintro rfl
      exact free.unknown _ listed
    rw [Function.update_of_ne apart]
    exact (passes.means entry listed).imp extended

end Session.Passes

theorem Session.gives_of_finished {session : Session} {source : String} {expr : Expr}
    {answer : Answer} {warnings : List ScopeWarning} {declared : Scope} {depth : Nat} {last : State}
    (plain : stripBlank source ≠ envCommand) (parsed : parse source = .ok [expr])
    (checked : expr.check session.scope = (declared, ⟨[], warnings⟩))
    (ran : Ends depth expr.compile ⟨[], session.env⟩ none last)
    (taken : last.takeAnswer.1 = .ok answer) :
    session.Gives source (.success answer warnings) ⟨declared, last.env⟩ := by
  refine (gives_of_ok plain parsed).2 (submits_success_iff.2 ?_)
  rw [Expr.checkAll_singleton, checked]
  refine ⟨rfl, rfl, depth, last, ?_, taken, rfl⟩
  rwa [Expr.compileAll, Expr.compileAll, List.append_nil]

theorem Session.Reached.passes {session : Session} (reached : Reached (fun _ => True) session)
    (content : String) (sense : Sense) : session.Passes session.scope content [] sense where
  valid := List.forall_mem_nil _
  fresh _ declared := Or.inl declared
  covers := ⟨List.forall_mem_nil _, List.forall_mem_nil _⟩
  bound := List.forall_mem_nil _
  agrees :=
    have sound : session.Sound False := reached.sound nofun
    ⟨sound.env.readable, reached.names_subset, List.forall_mem_nil _⟩
  means := List.forall_mem_nil _

variable {scope : Scope} {later : List (String × Role)} {session : Session}

theorem Handover.Fits.gives {handover : Handover} (fits : handover.Fits scope known later)
    (closed : '"' ∉ content.toList) (passes : session.Passes scope content known sense) :
    ∃ after sense, session.Gives (handover.source content) (handover.outcome content) after ∧
      after.Passes scope content later sense := by
  have plain : stripBlank (handover.source content) ≠ Session.envCommand :=
    (fits.begins passes.valid).plain
  have parsed := fits.parse closed passes.valid
  cases fits with
  | @shows handing knows =>
      obtain ⟨value, last, ran, leads, after⟩ := passes.ends knows
      exact ⟨_, sense, Session.gives_of_finished plain parsed (knows.check content passes.covers) ran
        (State.takeAnswer_text [] leads), after⟩
  | @names name handing free knows =>
      obtain ⟨value, last, ran, leads, after⟩ := passes.ends knows
      have checked := Expr.check_declare (knows.check content passes.covers) .variable
        (passes.undeclared free)
      exact ⟨_, _, Session.gives_of_finished plain parsed checked (ran.store name) rfl,
        after.declares free leads .text nofun⟩
  | @renames name handing member _ knows =>
      obtain ⟨value, last, ran, leads, after⟩ := passes.ends knows
      have checked := Expr.check_assign (knows.check content passes.covers)
        (passes.covers.assignable _ member)
      exact ⟨_, _, Session.gives_of_finished plain parsed checked (ran.store name) rfl,
        after.renames member leads _⟩
  | @declares function param free _ =>
      have checked := Expr.check_declare (Expr.check_function_identifier param session.scope)
        .variable (passes.undeclared free)
      have made : Ends 2 (Expr.function [param] [.identifier param]).compile ⟨[], session.env⟩ none
          ⟨[.closure [param] (givesBack param) session.env], session.env⟩ :=
        ends_singleton_iff.2 (Instr.acts_makeClosure_iff.2 ⟨rfl, rfl⟩)
      exact ⟨_, _, Session.gives_of_finished plain parsed checked (made.store function) rfl,
        passes.declares free (.here nofun) (.function param passes.agrees) fun _ => rfl⟩

theorem HandsOn.runs {handovers : List Handover} (hands : HandsOn scope known handovers)
    (closed : '"' ∉ content.toList) : ∀ {session : Session} {sense : Sense},
      session.Passes scope content known sense → ∃ final,
        session.Runs (handovers.map (Handover.source content))
          (handovers.map (Handover.outcome content)) final := by
  induction hands with
  | nil known => exact fun _ => ⟨_, .nil _⟩
  | cons fits _ ih =>
      intro session sense passes
      obtain ⟨after, _, gives, passesAfter⟩ := fits.gives closed passes
      obtain ⟨final, runs⟩ := ih passesAfter
      exact ⟨final, .cons gives runs⟩

/-- In whatever state a session is, a text without quotes can be handed on, by names and by functions
that give back their argument, and comes out as it went in: in quotes, character by character. -/
theorem text_survives_handing {sources : List String} {outcomes : List Outcome} {session : Session}
    (runs : Session.empty.Runs sources outcomes session) {content : String}
    (closed : '"' ∉ content.toList) {handovers : List Handover}
    (hands : HandsOn session.scope [] handovers) :
    (∃ final, session.Runs (handovers.map (Handover.source content))
      (handovers.map (Handover.outcome content)) final) ∧
      ∀ chars, decodeUtf8 (encodeUtf8 chars) = chars :=
  ⟨hands.runs closed ((runs.reached .empty).passes content fun _ => (0, .bool false)),
    decodeUtf8_encodeUtf8⟩

/-- Names and functions that a text with a line break and characters of two, three and four bytes goes
through. The parameter of `g` is called like the name that the text has. -/
def handsAbout : List Handover :=
  [.shows .quoted, .names "s" .quoted, .shows (.named "s"), .declares "f" "x",
    .shows (.called "f" .quoted), .declares "g" "s",
    .renames "s" (.called "g" (.called "f" (.named "s"))), .shows (.called "f" (.named "s"))]

theorem text_survives_handing_reassigned : ∃ session final,
    Session.empty.Runs ["let t=\"hi\";t+1"]
      [.evaluationFailure (.operandKinds .add "pointer" "int")] session ∧
    session.Runs ["\"é\n€😀\"", "let s = \"é\n€😀\"", "s", "let f = (x) => x", "f(\"é\n€😀\")",
        "let g = (s) => s", "s = g(f(s))", "f(s)"]
      [.success (.text "\"é\n€😀\"") [], .success .nothing [], .success (.text "\"é\n€😀\"") [],
        .success .nothing [], .success (.text "\"é\n€😀\"") [], .success .nothing [],
        .success .nothing [.reassigning "s"], .success (.text "\"é\n€😀\"") []] final ∧
    decodeUtf8 (encodeUtf8 "é\n€😀".toList) = "é\n€😀".toList := by
  have closed : '"' ∉ "é\n€😀".toList := by decide
  have opens : ¬ OpensDeclaration "s" := not_opensDeclaration (by decide)
  have hands : ∀ scope : Scope, scope.symbols.contains "s" = false →
      scope.symbols.contains "f" = false → scope.symbols.contains "g" = false →
      HandsOn scope [] handsAbout := by
    intro scope text first second
    exact .cons (.shows trivial) <| .cons (.names ⟨rfl, text, by simp⟩ trivial) <|
      .cons (.shows (.head _)) <| .cons (.declares ⟨rfl, first, by simp⟩ rfl) <|
      .cons (.shows ⟨.head _, trivial⟩) <| .cons (.declares ⟨rfl, second, by simp⟩ rfl) <|
      .cons (.renames (.tail _ (.tail _ (.head _))) opens
        ⟨.head _, .tail _ (.head _), .tail _ (.tail _ (.head _))⟩) <|
      .cons (.shows ⟨.tail _ (.head _), .tail _ (.tail _ (.head _))⟩) <| .nil _
  obtain ⟨⟨final, handed⟩, decoded⟩ := text_survives_handing runs_addsToText closed
    (hands _ rfl rfl rfl)
  exact ⟨_, final, runs_addsToText, handed, decoded _⟩

end LetStack
