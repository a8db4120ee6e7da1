import LetStack.Proofs.Scoping.Sessions

/-!
The names that a session has declared and those that it has bound. The analysis finds the former on
the tree, runs bring about the latter by their stores, and both come to the same, in the same order,
until a run fails.
-/

namespace LetStack

variable {kinds final : Table SymbolKind} {code : List Instr} {name : String} {depth : Nat}
  {before after : State} {fault : Option Fault}

theorem Accepted.contains_of_store (accepted : Accepted kinds code final)
    (stored : .store name ∈ code) : final.contains name = true := by
  have found : ∀ {kind}, final.get? name = some kind → final.contains name = true :=
    fun declared => (Table.contains_iff_exists_get? _ _).2 ⟨_, declared⟩
  induction accepted with
  | nil _ => simp at stored
  | @declare kinds final other later kind fresh rest ih =>
      rcases List.mem_cons.1 stored with same | further
      · cases same
        exact found (rest.keeps ((Table.get?_set _ _ _ kind).trans (if_pos rfl)))
      · exact ih further found
  | assign declared rest ih =>
      rcases List.mem_cons.1 stored with same | further
      · cases same
        exact found (rest.keeps declared)
      · exact ih further found
  | literal _ _ _ ih => exact ih (by simpa using stored) found
  | bytes _ _ ih => exact ih (by simpa using stored) found
  | arithmetic _ _ ih => exact ih (by simpa using stored) found
  | lookup _ _ ih => exact ih (by simpa using stored) found
  | function _ _ _ _ ih => exact ih (by simpa using stored) found
  | call _ _ ih => exact ih (by simpa using stored) found

theorem Ends.names_subset (ends : Ends depth code before fault after)
    (accepted : Accepted kinds code final)
    (within : before.env.symbols.names ⊆ kinds.names) :
    after.env.symbols.names ⊆ final.names := by
  intro name bound
  rw [← Table.contains_iff_mem_names] at bound ⊢
  rcases ends.contains_cases bound with earlier | stored
  · have declared : kinds.contains name = true := by
      rw [Table.contains_iff_mem_names] at earlier ⊢
      exact within earlier
    obtain ⟨kind, found⟩ := (Table.contains_iff_exists_get? _ _).1 declared
    exact (Table.contains_iff_exists_get? _ _).2 ⟨kind, accepted.keeps found⟩
  · exact accepted.contains_of_store stored

theorem Instr.Acts.names_of_store (acts : (Instr.store name).Acts depth before none after)
    (same : before.env.symbols.names = kinds.names) (kind : SymbolKind) :
    after.env.symbols.names = (kinds.set name kind).names := by
  obtain ⟨finished, rfl⟩ := acts_store_iff.1 acts
  obtain ⟨stack, env⟩ := before
  cases stack with
  | nil => cases finished
  | cons value rest => exact Table.names_set_eq same name _ kind

theorem Accepted.next_names {instr : Instr} {later : List Instr}
    (accepted : Accepted kinds (instr :: later) final) (acts : instr.Acts depth before none after)
    (same : before.env.symbols.names = kinds.names) :
    ∃ next, Accepted next later final ∧ after.env.symbols.names = next.names := by
  have unchanged (notStore : ∀ name, instr ≠ .store name) :
      after.env.symbols.names = kinds.names := (acts.names_eq notStore).trans same
  cases accepted with
  | declare kind _ rest => exact ⟨_, rest, acts.names_of_store same kind⟩
  | assign declared rest =>
      refine ⟨_, rest, (acts.names_of_store same .variable).trans ?_⟩
      exact Table.names_set_of_contains _ _ _
        ((Table.contains_iff_exists_get? _ _).2 ⟨_, declared⟩)
  | literal _ _ rest => exact ⟨_, rest, unchanged nofun⟩
  | bytes _ rest => exact ⟨_, rest, unchanged nofun⟩
  | arithmetic _ rest => exact ⟨_, rest, unchanged nofun⟩
  | lookup _ rest => exact ⟨_, rest, unchanged nofun⟩
  | function _ _ rest => exact ⟨_, rest, unchanged nofun⟩
  | call _ rest => exact ⟨_, rest, unchanged nofun⟩

theorem Ends.names_eq (finished : Ends depth code before none after)
    (accepted : Accepted kinds code final)
    (same : before.env.symbols.names = kinds.names) : after.env.symbols.names = final.names := by
  induction finished using Ends.finished_induction generalizing kinds with
  | nil =>
      cases accepted
      exact same
  | next acts _ ih =>
      obtain ⟨next, acceptedRest, sameNext⟩ := accepted.next_names acts same
      exact ih acceptedRest sameNext

theorem Session.Reached.names_subset {keep : Outcome → Prop} {session : Session}
    (reached : Session.Reached keep session) :
    session.env.symbols.names ⊆ session.scope.symbols.names := by
  refine reached.invariant (fun session =>
    session.env.symbols.names ⊆ session.scope.symbols.names) (List.Subset.refl _) ?_
  intro session program depth fault last within clean ends _
  exact ends.names_subset (program_accepted clean) within

/-- Whatever has been submitted, all bound names are declared; and while no run has failed, the
declared names are bound in the order in which they were declared. -/
theorem session_names_declared (session : Session) :
    (Session.Reached (fun _ => True) session →
      session.env.symbols.names ⊆ session.scope.symbols.names) ∧
    (Session.Reached Outcome.Unfailing session →
      session.env.symbols.names = session.scope.symbols.names) := by
  refine ⟨fun reached => reached.names_subset, fun reached => ?_⟩
  refine reached.invariant (fun session =>
    session.env.symbols.names = session.scope.symbols.names) rfl ?_
  intro session program depth fault last same clean ends unfailing
  have finished : fault = none := by
    cases fault with
    | none => rfl
    | some stop => exact absurd rfl (unfailing stop rfl stop)
  subst finished
  exact ends.names_eq (program_accepted clean) same

/-- `let a = 1 / 0; let b = 2` declares two names and binds none. -/
def failsEarly : List Expr :=
  [.declare .variable "a" (.binary (.literal (.int 1)) .div (.literal (.int 0))),
    .declare .variable "b" (.literal (.int 2))]

def assignsBackward : List Expr :=
  [.assign "b" (.literal (.int 3)), .assign "a" (.literal (.int 4))]

def declaresWithin : List Expr :=
  [.literal (.int 5), .declare .variable "x" (.declare .constant "y" (.literal (.int 6))),
    .declare .variable "f" (.function ["p"] [.declare .variable "z" (.identifier "p")]),
    .call "f" [.literal (.int 7)]]

theorem session_names_declared_late :
    (∃ first second, Session.empty.submit 2 failsEarly = some first ∧
      first.outcome = .evaluationFailure .divisionByZero ∧
      first.session.submit 2 assignsBackward = some second ∧
      second.session.scope.symbols.names = ["a", "b"] ∧
      second.session.env.symbols.names = ["b", "a"] ∧
      second.session.env.symbols.names ⊆ second.session.scope.symbols.names) ∧
    ∃ only, Session.empty.submit 2 declaresWithin = some only ∧ only.outcome.Unfailing ∧
      only.session.scope.symbols.names = ["y", "x", "f"] ∧
      only.session.env.symbols.names = only.session.scope.symbols.names := by
  constructor
  · have failed : Session.Reached (fun _ => True) _ := .submit .empty
      (show Session.empty.submit 2 failsEarly = some _ from rfl) trivial
    exact ⟨_, _, rfl, rfl, rfl, rfl, rfl, (session_names_declared _).1
      (failed.submit (show Session.submit _ 2 assignsBackward = some _ from rfl) trivial)⟩
  · have unfailing : Outcome.Unfailing (.success .nothing []) := fun _ => nofun
    have declared : Session.Reached Outcome.Unfailing _ := .submit .empty
      (show Session.empty.submit 2 declaresWithin = some _ from rfl) unfailing
    exact ⟨_, rfl, unfailing, rfl, (session_names_declared _).2 declared⟩

end LetStack
