import LetStack.Proofs.Unrelated.Sessions

/-! A session with one more submission, which binds a literal to a name of its own. -/

namespace LetStack

variable {hidden : String}

theorem stripBlank_ne_envCommand {source : String} {rest : List Char}
    (letter : source.toList = 'l' :: rest) : stripBlank source ≠ Session.envCommand :=
  stripBlank_ne_envCommand_of_cons letter (by decide) (by decide)

def binding (name : String) (value : Literal) : List Expr :=
  [.declare .variable name (.literal value)]

theorem parse_binding (floats : FloatDigits) {value : Literal}
    (named : isName hidden.toList = true) (printable : value.Printable)
    (plain : ∀ number, value ≠ .float number) :
    parse (printed floats (binding hidden value)) = .ok (binding hidden value) := by
  have restates : Restates (.atom (.literal value)) [value.print floats] :=
    value.restates printable fun number same => absurd same (plain number)
  have writes := Writes.last (.declare .variable hidden (.value (.term (.factor restates.1))))
  refine parse_printed ⟨List.cons_ne_nil _ _, List.forall_mem_singleton.2
    (.declare .variable named (.literal printable) rfl)⟩ writes ?_
  simp only [List.forall_mem_cons]
  exact ⟨⟨trivial, rfl⟩, ⟨named, rfl⟩, ⟨trivial, rfl⟩, restates.2 _ List.mem_cons_self, nofun⟩

example (floats : FloatDigits) :
    printed floats (binding "z" (.text "hi")) = "let z = \"hi\"" := rfl

theorem Scope.sameBut_declare (scope : Scope) (kind : SymbolKind) (rhs : Expr) :
    scope.SameBut hidden (scope.declare kind hidden rhs) := by
  constructor
  · intro other different
    rw [declare, recordArity_symbols, Table.get?_set, if_neg different]
  · intro other different
    rw [declare, recordArity]
    split <;> simp [different]

theorem Environment.AlikeBut.exists_bound {left right : Environment}
    (alike : left.AlikeBut hidden right) (value : Literal) : ∃ bound,
      Ends 2 (Expr.compileAll (binding hidden value)) ⟨[], right⟩ none ⟨[], bound⟩ ∧
        left.AlikeBut hidden bound := by
  have pushed : ∀ pushed : Value, (∀ address, pushed ≠ .pointer address) →
      ∃ bound, Ends 2 [.pushLiteral pushed, .store hidden] ⟨[], right⟩ none ⟨[], bound⟩ ∧
        left.AlikeBut hidden bound :=
    fun pushed notPointer => ⟨right.bind hidden pushed, ⟨[], _, rfl⟩, alike.hide (.here notPointer)⟩
  cases value with
  | int number => exact pushed (.int number) nofun
  | float number => exact pushed (.float number) nofun
  | bool truth => exact pushed (.bool truth) nofun
  | text content =>
      obtain ⟨heap, symbols⟩ := left
      have grown := alike.grow List.prefix_rfl
        (List.prefix_append right.heap [.bytes (encodeUtf8 content.toList)])
      have leads : Leads (right.heap ++ [.bytes (encodeUtf8 content.toList)])
          (.pointer right.heap.length) 1 (.bytes (encodeUtf8 content.toList)) :=
        .hop List.getElem?_concat_length (.here nofun)
      exact ⟨_, ⟨[], _, rfl⟩, grown.hide leads⟩

namespace Session

theorem AlikeBut.exists_bound {session : Session} (alike : session.AlikeBut hidden session)
    (fresh : session.scope.symbols.contains hidden = false) (value : Literal) : ∃ bound,
      session.Submits (binding hidden value) (.success .nothing []) bound ∧
        session.AlikeBut hidden bound := by
  obtain ⟨bound, ends, envs⟩ := alike.env.exists_bound value
  have checked : Expr.checkAll (binding hidden value) session.scope =
      (session.scope.declare .variable hidden (.literal value), .none) := by
    simp only [binding, Expr.checkAll, Expr.check, fresh, Bool.false_eq_true, if_false]
    rfl
  have clean : (Expr.checkAll (binding hidden value) session.scope).2.isClean = true := by
    rw [checked]
    rfl
  refine ⟨_, (submits_of_clean clean).2 ⟨2, none, ⟨[], bound⟩, ends, ?_, rfl⟩, ?_, envs⟩
  · rw [checked]
    rfl
  · rw [checked]
    exact session.scope.sameBut_declare .variable (.literal value)

variable {session final : Session} {sources : List String} {outcomes : List Outcome}

theorem Gives.leavesDeclared {after : Session} {source : String} {outcome : Outcome}
    (gives : session.Gives source outcome after) (apart : LeavesOut hidden source) :
    after.scope.symbols.contains hidden = session.scope.symbols.contains hidden := by
  cases parsed : parse source with
  | error error =>
      obtain ⟨_, rfl⟩ := (gives_of_error apart.1 parsed).1 gives
      rfl
  | ok program =>
      have submits := (gives_of_ok apart.1 parsed).1 gives
      by_cases clean : (Expr.checkAll program session.scope).2.isClean = true
      · obtain ⟨_, _, _, _, _, rfl⟩ := (submits_of_clean clean).1 submits
        exact (apart.2 program parsed).leavesDeclared session.scope
      · obtain ⟨_, rfl⟩ := (submits_of_unclean clean).1 submits
        rfl

theorem Runs.leavesDeclared (runs : session.Runs sources outcomes final) :
    (∀ source ∈ sources, LeavesOut hidden source) →
      final.scope.symbols.contains hidden = session.scope.symbols.contains hidden := by
  induction runs with
  | nil _ => exact fun _ => rfl
  | cons gives _ ih =>
      intro apart
      exact (ih fun source member => apart source (List.mem_cons_of_mem _ member)).trans
        (gives.leavesDeclared (apart _ List.mem_cons_self))

end Session

/-- With one more submission that binds an unmentioned name to a literal, a session finishes
too, and all that is shown for the others is as before. -/
theorem unmentioned_binding_not_shown (floats : FloatDigits) (hidden : String) (value : Literal)
    (before after : List String) (outcomes : List Outcome) (final : Session)
    (named : isName hidden.toList = true) (printable : value.Printable)
    (plain : ∀ number, value ≠ .float number)
    (runs : Session.empty.Runs (before ++ after) outcomes final)
    (apart : ∀ source ∈ before ++ after, LeavesOut hidden source) :
    (∃ others last, Session.empty.Runs
        (before ++ printed floats (binding hidden value) :: after) others last) ∧
      ∀ others last, Session.empty.Runs
        (before ++ printed floats (binding hidden value) :: after) others last →
        ∃ earlier later laterToo, outcomes = earlier ++ later ∧ earlier.length = before.length ∧
          others = earlier ++ .success .nothing [] :: laterToo ∧
          List.Forall₂ Outcome.ShownAlike later laterToo := by
  obtain ⟨earlier, later, middle, rfl, count, first, second⟩ := runs.split
  have firstApart : ∀ source ∈ before, LeavesOut hidden source :=
    fun source member => apart source (List.mem_append_left after member)
  have secondApart : ∀ source ∈ after, LeavesOut hidden source :=
    fun source member => apart source (List.mem_append_right before member)
  -- What the session has come to before the binding is alike to itself.
  have start : Session.empty.AlikeBut hidden .empty :=
    ⟨⟨fun _ _ => rfl, fun _ _ => rfl⟩, Environment.alikeBut_empty⟩
  obtain ⟨_, _, again, _, alike⟩ := Session.AlikeBut.runs first start firstApart
  obtain ⟨_, rfl⟩ := first.unique again
  have fresh : middle.scope.symbols.contains hidden = false := first.leavesDeclared firstApart
  obtain ⟨bound, submits, alikeToo⟩ := alike.exists_bound fresh value
  have parsed := parse_binding floats named printable plain
  obtain ⟨rest, letter⟩ : ∃ rest, (printed floats (binding hidden value)).toList = 'l' :: rest := by
    simp only [printed, binding, Expr.printAll, Expr.print, spaced, String.toList_ofList]
    exact ⟨_, rfl⟩
  have gives := (Session.gives_of_ok (stripBlank_ne_envCommand letter) parsed).2 submits
  obtain ⟨laterToo, finalToo, secondToo, shown, _⟩ :=
    Session.AlikeBut.runs second alikeToo secondApart
  have whole := first.append (.cons gives secondToo)
  refine ⟨⟨_, _, whole⟩, fun others last also => ?_⟩
  obtain ⟨rfl, rfl⟩ := whole.unique also
  exact ⟨earlier, later, laterToo, rfl, count, rfl, shown⟩

def captures : List Expr :=
  [.declare .variable "f" (.function [] [.identifier "x"]), .call "f" []]

theorem parse_captures : parse "let f=()=>x;f()" = .ok captures := by
  have body := Writes.bare (.value (.term (.factor (.identifier "x"))))
  have writes := Writes.statements (.declare .variable "f" (.function [] body))
    (.last (.expression (.value (.term (.factor (.callNothing "f"))))))
  have spells : Spells _ "let f=()=>x;f()".toList :=
    .token [] (.keyword (.declare .variable)) rfl trivial <| .token [' '] (.name "f") rfl rfl <|
    .token [] .equals rfl trivial <| .token [] .leftParen rfl trivial <|
    .token [] .rightParen rfl trivial <| .token [] .arrow rfl trivial <|
    .token [] (.name "x") rfl rfl <| .token [] .semicolon rfl trivial <|
    .token [] (.name "f") rfl rfl <| .token [] .leftParen rfl trivial <|
    .token [] .rightParen rfl trivial <| .blank rfl
  have function : (Expr.function [] [.identifier "x"]).Printable :=
    .function nofun (List.cons_ne_nil _ _) (List.forall_mem_singleton.2 (.identifier rfl))
  have printable : Printable captures := ⟨List.cons_ne_nil _ _, List.forall_mem_cons.2
    ⟨.declare .variable rfl function rfl, List.forall_mem_singleton.2 (.call rfl nofun nofun)⟩⟩
  exact parse_of_fitting printable writes spells rfl

theorem unmentioned_binding_not_shown_captured : ∃ shown last,
    Session.empty.Runs ["let x = 1", "let z = \"hi\"", "let f=()=>x;f()"]
        [.success .nothing [], .success .nothing [], shown] last ∧
      Outcome.ShownAlike (.success (.value (.int 1)) []) shown := by
  obtain ⟨floats⟩ := (inferInstance : Nonempty FloatDigits)
  have text : printed floats (binding "x" (.int 1)) = "let x = 1" := rfl
  have bound : parse "let x = 1" = .ok (binding "x" (.int 1)) := by
    rw [← text]
    exact parse_binding floats rfl (by decide) nofun
  have plain : ∀ source ∈ ["let x = 1", "let f=()=>x;f()"],
      stripBlank source ≠ Session.envCommand := by
    intro source member
    rcases List.mem_pair.1 member with rfl | rfl <;> exact stripBlank_ne_envCommand rfl
  have first : Session.empty.Gives "let x = 1" (.success .nothing []) _ :=
    (Session.gives_of_ok (plain _ (by simp)) bound).2 ⟨2, _, rfl, rfl, rfl⟩
  have session : Session.empty.Runs ["let x = 1", "let f=()=>x;f()"]
      [.success .nothing [], .success (.value (.int 1)) []] _ :=
    .cons first (.cons ((Session.gives_of_ok (plain _ (by simp)) parse_captures).2
      ⟨3, _, rfl, rfl, rfl⟩) (.nil _))
  have apart : ∀ source ∈ ["let x = 1"] ++ ["let f=()=>x;f()"], LeavesOut "z" source := by
    intro source member
    refine ⟨plain source member, fun program parsed => ?_⟩
    rcases List.mem_pair.1 member with rfl | rfl
    · rw [bound, Except.ok.injEq] at parsed
      subst parsed
      decide
    · rw [parse_captures, Except.ok.injEq] at parsed
      subst parsed
      decide
  obtain ⟨⟨others, last, runs⟩, same⟩ := unmentioned_binding_not_shown floats "z" (.text "hi")
    ["let x = 1"] ["let f=()=>x;f()"] _ _ rfl (by decide) nofun session apart
  obtain ⟨earlier, later, laterToo, shape, count, rfl, shown⟩ := same others last runs
  match earlier, count with
  | [only], _ =>
      obtain ⟨rfl, rfl⟩ := List.cons.inj shape
      cases shown with
      | cons alike rest =>
          cases rest
          exact ⟨_, last, runs, alike⟩

end LetStack
