import LetStack.Proofs.Scoping.Sessions

/-! What a call does to names of its caller that the closure did not capture. -/

namespace LetStack

/-- Every name of the caller has a value. One that the closure has not captured keeps it exactly if
it is a parameter, or the callee ends without it or with the same value; so it does if the body does
not store it. -/
theorem call_keeps_uncaptured_iff (session : Session) (program : List Expr)
    (reached : Session.Reached (fun _ => True) session)
    (clean : (session.scope.analyze program).2.isClean = true) {argCount depth : Nat}
    {later : List Instr} {before callee : State} {entry : Activation} {ended : Option Fault}
    (point : Reaches (Expr.compileAll program) ⟨[], session.env⟩ (.call argCount :: later) before)
    (entered : before.Enters argCount entry) (ran : Ends depth entry.body entry.start ended callee) :
    before.env.Readable ∧ ∃ after, (Instr.call argCount).Acts depth before ended after ∧
      ∀ (name : String) (hops : Nat) (target : Value),
        entry.captured.symbols.contains name = false → before.env.Binds name hops target →
        (after.env.Binds name hops target ↔ name ∈ entry.params ∨
          callee.env.symbols.contains name = false ∨ callee.env.Binds name hops target) ∧
        (name ∈ entry.params ∨ .store name ∉ entry.body → after.env.Binds name hops target) := by
  have sound : session.Sound False := reached.sound nofun
  have closed := allowed_closed False
  obtain ⟨beforeSound, _⟩ := point.sound closed sound.start (sound.allowed clean)
  have calleeSound := beforeSound.callee closed entered ran
  obtain ⟨same, absorbed, _⟩ := beforeSound.returns entered calleeSound ⟨rfl, rfl⟩
  have acts := Instr.acts_call_of_enters entered ran ⟨same, rfl⟩
  refine ⟨beforeSound.env.readable, _, acts, ?_⟩
  intro name hops target uncaptured binds
  have keeps := absorbed.binds_iff calleeSound.env.readable binds
  refine ⟨keeps, ?_⟩
  rintro (param | notStored)
  · exact keeps.2 (Or.inl param)
  · apply keeps.2
    refine Or.inr (Or.inl ?_)
    cases bound : callee.env.symbols.contains name with
    | false => rfl
    | true =>
        rcases ran.contains_cases bound with boundAtStart | stored
        · rw [(beforeSound.enters entered).2.1, uncaptured] at boundAtStart
          simp at boundAtStart
        · exact absurd stored notStored

def sharesName (params : List String) (body args : List Expr) : List Expr :=
  [.declare .variable "f" (.function params body),
    .declare .variable "y" (.literal (.int 1)),
    .call "f" args]

def sharingEntry (params : List String) (body : List Expr) (args : List Value) : Activation :=
  let code := params.map .store ++ Expr.compileAll body
  ⟨params, code, .empty,
    ⟨[], (Environment.empty.bind "f" (.closure params code .empty)).bind "y" (.int 1)⟩,
    ⟨args, .empty⟩⟩

def sharingCall (entry : Activation) : State :=
  { entry.caller with
    stack := .closure entry.params entry.body .empty :: entry.start.stack.reverse }

theorem call_keeps_uncaptured_parameter :
    let program := sharesName ["y"] [.identifier "y"] [.literal (.int 7)]
    let entry := sharingEntry ["y"] [.identifier "y"] [.int 7]
    Reaches (Expr.compileAll program) ⟨[], .empty⟩ [.call 1] (sharingCall entry) ∧
      (sharingCall entry).Enters 1 entry ∧
      ∃ after, (Instr.call 1).Acts 1 (sharingCall entry) none after ∧
        after.env.Binds "y" 0 (.int 1) := by
  intro program entry
  have ended : Ends 1 ((Expr.compileAll program).take 6) ⟨[], .empty⟩ none (sharingCall entry) :=
    ⟨_, _, rfl⟩
  have point : Reaches (Expr.compileAll program) ⟨[], .empty⟩ [.call 1] (sharingCall entry) :=
    .of_ends ended
  have entered : (sharingCall entry).Enters 1 entry := ⟨[.int 7], rfl, rfl, rfl, rfl, rfl⟩
  have ran : Ends 1 entry.body entry.start none ⟨[.int 7], Environment.empty.bind "y" (.int 7)⟩ :=
    ⟨_, _, rfl⟩
  obtain ⟨_, after, acts, kept⟩ :=
    call_keeps_uncaptured_iff .empty program .empty rfl point entered ran
  exact ⟨point, entered, after, acts,
    (kept "y" 0 (.int 1) rfl ⟨1, .int 1, rfl, rfl, .here nofun⟩).2 (Or.inl (by decide))⟩

theorem local_reaches_caller :
    let program := sharesName [] [.declare .variable "y" (.literal (.int 5))] []
    let entry := sharingEntry [] [.declare .variable "y" (.literal (.int 5))] []
    (Session.empty.scope.analyze program).2.isClean = true ∧
      Reaches (Expr.compileAll program) ⟨[], .empty⟩ [.call 0] (sharingCall entry) ∧
      (sharingCall entry).Enters 0 entry ∧ entry.captured.symbols.contains "y" = false ∧
      (sharingCall entry).env.Binds "y" 0 (.int 1) ∧
      ∃ after, (Instr.call 0).Acts 1 (sharingCall entry) none after ∧
        after.env.Binds "y" 0 (.int 5) ∧ ¬ after.env.Binds "y" 0 (.int 1) := by
  intro program entry
  have ended : Ends 1 ((Expr.compileAll program).take 5) ⟨[], .empty⟩ none (sharingCall entry) :=
    ⟨_, _, rfl⟩
  have point : Reaches (Expr.compileAll program) ⟨[], .empty⟩ [.call 0] (sharingCall entry) :=
    .of_ends ended
  have entered : (sharingCall entry).Enters 0 entry := ⟨[], rfl, rfl, rfl, rfl, rfl⟩
  have taken : (((sharingCall entry).env).bind "y" (.int 5)).Binds "y" 0 (.int 5) :=
    ⟨2, .int 5, rfl, rfl, .here nofun⟩
  refine ⟨rfl, point, entered, rfl, ⟨1, .int 1, rfl, rfl, .here nofun⟩,
    ⟨[], ((sharingCall entry).env).bind "y" (.int 5)⟩, ⟨_, rfl⟩, taken, ?_⟩
  intro still
  have same := (still.unique taken).2
  simp at same

end LetStack
