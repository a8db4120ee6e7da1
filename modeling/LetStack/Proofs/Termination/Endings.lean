import LetStack.Proofs.Session.Results
import LetStack.Proofs.Termination.Ranks

/-!
A run of a program that is in order comes to its end just if the calls of strayed names do not nest
without bound. All other calls are of functions with smaller and smaller ranks.
-/

namespace LetStack

section

variable {code : List Instr} {start : State}

def EndsSecure (code : List Instr) (start : State) (total : Nat) (later : List Instr)
    (state : State) : Prop :=
  ∃ depth fault after, Ends depth later state fault after ∧
    (fault = none → ∃ rank trail, rank ≤ total ∧ Secure code start rank trail [] after)

theorem Instr.acts_of_not_call {instr : Instr} (notCall : ∀ argCount, instr ≠ .call argCount)
    (depth : Nat) (before : State) : ∃ fault after, instr.Acts depth before fault after := by
  cases instr with
  | call argCount => exact absurd rfl (notCall argCount)
  | _ => exact ⟨_, _, _, rfl⟩

theorem EndsSecure.nil {rank total : Nat} {trail : Trail} {state : State}
    (secure : Secure code start rank trail [] state) (fits : rank ≤ total) :
    EndsSecure code start total [] state :=
  ⟨1, none, state, ends_nil_iff.2 ⟨rfl, rfl⟩, fun _ => ⟨rank, trail, fits, secure⟩⟩

theorem EndsSecure.cons {depth total : Nat} {instr : Instr} {later : List Instr}
    {before after : State} {fault : Option Fault} (acts : instr.Acts depth before fault after)
    (rest : fault = none → EndsSecure code start total later after) :
    EndsSecure code start total (instr :: later) before := by
  cases fault with
  | some stop => exact ⟨depth + 1, some stop, after, ends_cons_iff.2 (Or.inl ⟨rfl, acts⟩), nofun⟩
  | none =>
      obtain ⟨more, fault, last, ends, secure⟩ := rest rfl
      -- Both have to fit into the depth that is taken.
      refine ⟨max depth more + 1, fault, last, ends_cons_iff.2 (Or.inr ⟨after, ?_, ?_⟩), secure⟩
      · exact acts.deepen (Nat.le_max_left _ _)
      · exact ends.deepen (Nat.le_succ_of_le (Nat.le_max_right _ _))

variable {rule : Rule} (closed : rule.Closed)
  (soundAt : ∀ later state, Reaches code start later state → state.Sound rule)
  (countedAt : ∀ trail later state, Follows code start trail later state →
    ∃ last final, Counted trail.origin trail.arities later last final)

include closed soundAt countedAt

theorem Secure.ends_of_bodies {total nested : Nat}
    (bodies : ∀ {rank below : Nat} {trail made : Trail} {entry : Activation}, rank ≤ total →
      trail.nested = nested →
      Secure code start below (trail.inside made) entry.body entry.start →
      (trail.topStrays = false → below + closuresIn entry.body < rank) →
      EndsSecure code start (below + closuresIn entry.body) entry.body entry.start) :
    ∀ {later : List Instr} {rank : Nat} {trail : Trail} {state : State},
      rank + closuresIn later ≤ total → trail.nested = nested →
      Secure code start rank trail later state → EndsSecure code start total later state := by
  intro later
  induction later with
  | nil => exact fun fits _ secure => .nil secure fits
  | cons instr later ih =>
      intro rank trail state fits same secure
      obtain ⟨last, final, counted⟩ := countedAt _ _ _ secure.follows
      have sound := soundAt _ _ secure.follows.reaches
      rw [closuresIn] at fits
      by_cases isCall : ∃ argCount, instr = .call argCount
      · obtain ⟨argCount, rfl⟩ := isCall
        rcases state.refuses_or_enters argCount with ⟨stop, stopped, refused⟩ | ⟨entry, entered⟩
        · have acts : (Instr.call argCount).Acts 0 state (some stop) stopped :=
            Instr.acts_call_of_refuses refused
          exact .cons acts nofun
        · obtain ⟨below, made, inside, less⟩ := secure.enter sound counted entered
          obtain ⟨depth, ended, callee, ran, atEnd⟩ :=
            bodies (Nat.le_of_add_right_le fits) same inside less
          obtain ⟨after, acts, _⟩ := sound.calls closed entered ran
          refine .cons acts ?_
          rintro rfl
          obtain ⟨inner, endTrail, fitsInside, secureInside⟩ := atEnd rfl
          have secureAfter := secure.back closed sound counted entered ran secureInside
            (fun strays => fitsInside.trans (less strays).le) acts
          have sameAfter : (trail.back endTrail (entry.handsBack callee)).nested = nested := same
          exact ih (by omega) sameAfter secureAfter
      · have notCall := not_exists.1 isCall
        obtain ⟨fault, after, acts⟩ := Instr.acts_of_not_call notCall 0 state
        refine .cons acts ?_
        rintro rfl
        refine ih ?_ ((trail.nested_after instr).trans same) (secure.next counted notCall acts)
        rwa [Nat.add_assoc]

/-- Every call leads into a smaller rank or, if its name has strayed, one call nearer to the bound. -/
theorem Secure.ends {bound : Nat}
    (nests : ∀ trail later state, Follows code start trail later state → trail.nested ≤ bound)
    (left : Nat) : ∀ (total : Nat) {rank : Nat} {trail : Trail} {later : List Instr}
      {state : State}, bound ≤ trail.nested + left → rank + closuresIn later ≤ total →
      Secure code start rank trail later state → EndsSecure code start total later state := by
  induction left using Nat.strongRecOn with
  | _ left ihLeft =>
      intro total
      induction total using Nat.strongRecOn with
      | _ total ihTotal =>
          intro rank trail later state near fits secure
          refine Secure.ends_of_bodies closed soundAt countedAt ?_ fits rfl secure
          intro rank below trail made entry fits same inside less
          have within := nests _ _ _ inside.follows
          cases strays : trail.topStrays with
          | false =>
              have nested : (trail.inside made).nested = trail.nested := by
                simp [Trail.inside, strays]
              exact ihTotal _ (Nat.lt_of_lt_of_le (less strays) fits) (by omega) (Nat.le_refl _) inside
          | true =>
              have nested : (trail.inside made).nested = trail.nested + 1 := by
                simp [Trail.inside, strays]
              exact ihLeft (left - 1) (by omega) _ (by omega) (Nat.le_refl _) inside

end

theorem Secure.initial (code : List Instr) :
    Secure code ⟨[], .empty⟩ 0 .initial code ⟨[], .empty⟩ where
  follows := .start
  names _ vouched := absurd vouched (by simp [Trail.vouches, Trail.initial, Table.contains])
  top := nofun
  values := ⟨nofun, nofun⟩

/-- A run on an empty environment ends, with a result or with a fault of the program, just if there is
a bound to how many calls of names that have strayed lie in each other. -/
theorem accepted_run_ends_iff (program : List Expr)
    (clean : (Scope.empty.analyze program).2.isClean = true) :
    let code := Expr.compileAll program
    (∃ depth ended, run depth code .empty = some ended ∧
        ∀ fault, ended.answer = .error fault → fault.OfProgram) ↔
      ∃ bound, ∀ trail later state, Follows code ⟨[], .empty⟩ trail later state →
        trail.nested ≤ bound := by
  intro code
  have closed := allowed_closed False
  constructor
  · rintro ⟨depth, ended, ran, _⟩
    obtain ⟨fault, final, ends, _⟩ := run_ends ran
    refine ⟨depth, fun trail later state follows => ?_⟩
    obtain ⟨left, _, _, _, within⟩ := follows.nested_lt ends
    omega
  · rintro ⟨bound, nests⟩
    obtain ⟨last, final, counted⟩ := program_counted clean .other
    obtain ⟨depth, fault, after, ⟨pending, events, executed⟩, _⟩ :=
      Secure.ends closed (fun _ _ => reached_sound clean)
        (fun _ _ _ follows => follows.counted counted) nests bound (closuresIn code)
        (Nat.le_add_left _ _) (Nat.zero_add _).le (.initial code)
    have ran : run depth code .empty = some (Ending.toRun ⟨after, fault, pending, events⟩) := by
      rw [run, executed, Option.map_some]
    exact ⟨depth, _, ran, fun fault failed => run_ofProgram closed ran failed
      Environment.sound_empty (program_allowed clean)⟩

/-- `let n = (a) => 0; let c = (x) => { n = x }; c((b) => b); n(1)`: under the name `n` comes back what
is no function as far as the analysis of `c` knows. -/
def callsStrayed : List Expr :=
  [.declare .variable "n" (.function ["a"] [.literal (.int 0)]),
    .declare .variable "c" (.function ["x"] [.assign "n" (.identifier "x")]),
    .call "c" [.function ["b"] [.identifier "b"]],
    .call "n" [.literal (.int 1)]]

/-- `let w = (x) => { let n = (a) => 0; let c = () => { n = x }; c(); n(x) }; w(w)`: what comes back
under the name `n` is `w` itself. -/
def callsItself : List Expr :=
  [.declare .variable "w" (.function ["x"]
      [.declare .variable "n" (.function ["a"] [.literal (.int 0)]),
        .declare .variable "c" (.function [] [.assign "n" (.identifier "x")]),
        .call "c" [],
        .call "n" [.identifier "x"]]),
    .call "w" [.identifier "w"]]

def untilItself : List Instr :=
  [.store "x", .makeClosure ["a"] [.store "a", .pushLiteral (.int 0)], .store "n",
    .makeClosure [] [.lookup "x", .store "n"], .store "c", .lookup "c", .call 0, .lookup "x",
    .lookup "n"]

def itself : Value := .closure ["x"] (untilItself ++ [.call 1]) .empty

theorem enters_itself (env : Environment) : State.Enters ⟨[itself, itself], env⟩ 1
    ⟨["x"], untilItself ++ [.call 1], .empty, ⟨[], env⟩, ⟨[itself], .empty⟩⟩ := by
  have moved : relocate env.heap env.heap.length itself [] = .ok (itself, []) :=
    relocate_of_not_pointer nofun
  have seeded : State.seed env [itself] ⟨[], .empty⟩ = .ok ⟨[itself], .empty⟩ := by
    simp [State.seed, Environment.transfer, Environment.empty, moved, Bind.bind, Except.bind]
  exact ⟨[itself], rfl, rfl, rfl, rfl, seeded⟩

/-- The body comes to a call that starts it anew in the same state. -/
theorem itself_never_ends (depth : Nat) : ∀ fault after,
    ¬ Ends depth (untilItself ++ [.call 1]) ⟨[itself], .empty⟩ fault after := by
  induction depth using Nat.strongRecOn with
  | _ depth ih =>
      intro fault after ends
      obtain ⟨env, finished⟩ : ∃ env,
        Ends 2 untilItself ⟨[itself], .empty⟩ none ⟨[itself, itself], env⟩ := ⟨_, _, _, rfl⟩
      obtain ⟨fewer, stop, last, less, again⟩ := (ends.rest finished).body (enters_itself env)
      exact ih fewer less stop last again

theorem callsItself_never_ends (depth : Nat) :
    run depth (Expr.compileAll callsItself) .empty = none := by
  by_contra some
  obtain ⟨ended, ran⟩ := Option.ne_none_iff_exists'.1 some
  obtain ⟨fault, after, ends, _⟩ := run_ends ran
  have split : Expr.compileAll callsItself =
      [.makeClosure ["x"] (untilItself ++ [.call 1]), .store "w", .lookup "w", .lookup "w"] ++
        [.call 1] := rfl
  rw [split] at ends
  obtain ⟨env, finished⟩ : ∃ env, Ends 1 [.makeClosure ["x"] (untilItself ++ [.call 1]), .store "w",
    .lookup "w", .lookup "w"] ⟨[], .empty⟩ none ⟨[itself, itself], env⟩ := ⟨_, _, _, rfl⟩
  obtain ⟨_, _, _, _, inside⟩ := (ends.rest finished).body (enters_itself env)
  exact itself_never_ends _ _ _ inside

/-- A program may be in order and yet call itself for ever. -/
theorem accepted_run_never_ends :
    (Scope.empty.analyze callsItself).2.isClean = true ∧
      ∀ depth, run depth (Expr.compileAll callsItself) .empty = none :=
  ⟨rfl, callsItself_never_ends⟩

theorem accepted_run_ends_iff_strayed :
    (Scope.empty.analyze callsStrayed).2.isClean = true ∧
    (Scope.empty.analyze callsItself).2.isClean = true ∧
    (∃ bound, ∀ trail later state,
      Follows (Expr.compileAll callsStrayed) ⟨[], .empty⟩ trail later state →
        trail.nested ≤ bound) ∧
    ¬ ∃ bound, ∀ trail later state,
      Follows (Expr.compileAll callsItself) ⟨[], .empty⟩ trail later state →
        trail.nested ≤ bound := by
  refine ⟨rfl, rfl, (accepted_run_ends_iff callsStrayed rfl).1 ⟨2, _, rfl, nofun⟩, ?_⟩
  intro bounded
  obtain ⟨depth, ended, ran, _⟩ := (accepted_run_ends_iff callsItself rfl).2 bounded
  rw [callsItself_never_ends] at ran
  cases ran

end LetStack
