import Mathlib.Tactic.Choose
import LetStack.Proofs.Termination.Trails

/-!
Closures have ranks. A closure can call, other than under names that have strayed, only what it has
captured and what its own body makes, and the rank is large enough to leave those behind.
-/

namespace LetStack

mutual

def Instr.closures : Instr → Nat
  | .makeClosure _ body => closuresIn body + 1
  | _ => 0

def closuresIn : List Instr → Nat
  | [] => 0
  | instr :: later => instr.closures + closuresIn later

end

namespace Trail

def vouchesTop (trail : Trail) : Bool :=
  match trail.origin with
  | .function _ => true
  | .lookup name => trail.vouches name
  | .other => false

theorem vouches_after_store (trail : Trail) (name query : String) :
    (trail.after (.store name)).vouches query =
      if query = name then trail.vouchesTop else trail.vouches query := by
  obtain ⟨nested, origin, arities, strays⟩ := trail
  simp only [vouches, after, Table.contains, Origin.get?_record]
  by_cases same : query = name
  · simp only [same, if_true]
    cases origin with
    | function count => rfl
    | lookup source => rfl
    | other => rfl
  · simp only [same, if_false]

theorem vouches_after {trail : Trail} {instr : Instr} {name : String}
    (notStore : ∀ name, instr ≠ .store name) :
    (trail.after instr).vouches name = trail.vouches name := by
  cases instr with
  | store name => exact absurd rfl (notStore name)
  | _ => rfl

theorem vouches_back (trail ended : Trail) (handed : String → Bool) (name : String) :
    (trail.back ended handed).vouches name = true ↔
      if handed name then trail.arities.contains name = true ∧ trail.topStrays = false ∧
        ended.vouches name = true
      else trail.vouches name = true := by
  simp only [vouches, back]
  cases handed name <;> simp

end Trail

theorem Activation.handsBack_iff {entry : Activation} {env : Environment}
    (sameEnv : entry.caller.env = env) {callee : State} {name : String} :
    entry.handsBack callee name = true ↔ callee.env.symbols.contains name = true ∧
      env.symbols.contains name = true ∧ name ∉ entry.params := by
  simp [handsBack, sameEnv, and_assoc]

section

variable (code : List Instr) (start : State)

/-- What is vouched for where a closure is made has a rank there, and the rank of the closure is above
that by more than the number of closures that its body makes. All else that it has captured has some
rank too. -/
inductive Value.Ranked : Nat → Value → Prop
  | plain {rank : Nat} {value : Value} : value.IsPlain → Ranked rank value
  | closure {rank below : Nat} {trail : Trail} {params : List String} {body later : List Instr}
      {made : State} {ranks : Value → Nat} :
      Follows code start trail (.makeClosure params body :: later) made →
      (∀ name, trail.vouches name = true → ∃ target, made.env.Binds name 0 target) →
      (∀ name target, trail.vouches name = true → made.env.Binds name 0 target →
        Ranked below target) →
      below + closuresIn body < rank → (∀ value ∈ made.env.heap, Ranked (ranks value) value) →
      Ranked rank (.closure params body made.env)

def Environment.BindsRanked (env : Environment) (rank : Nat) (name : String) : Prop :=
  ∃ target, env.Binds name 0 target ∧ target.Ranked code start rank

structure Secure (rank : Nat) (trail : Trail) (later : List Instr) (state : State) : Prop where
  follows : Follows code start trail later state
  names : ∀ name, trail.vouches name = true → state.env.BindsRanked code start rank name
  top : trail.vouchesTop = true → ∃ value below, state.stack = value :: below ∧
    (∀ address, value ≠ .pointer address) ∧ value.Ranked code start rank
  values : state.Holds fun value => ∃ rank, value.Ranked code start rank

end

variable {code : List Instr} {start : State}

namespace Value.Ranked

theorem mono {rank more : Nat} {value : Value} (ranked : value.Ranked code start rank)
    (bound : rank ≤ more) : value.Ranked code start more := by
  cases ranked with
  | plain isPlain => exact .plain isPlain
  | closure follows binds ranked less entries =>
      exact .closure follows binds ranked (Nat.lt_of_lt_of_le less bound) entries

theorem closure_inv {rank : Nat} {params : List String} {body : List Instr} {captured : Environment}
    (ranked : (Value.closure params body captured).Ranked code start rank) :
    ∃ below trail later made, Follows code start trail (.makeClosure params body :: later) made ∧
      made.env = captured ∧ below + closuresIn body < rank ∧
      (∀ name, trail.vouches name = true → captured.BindsRanked code start below name) ∧
      ∀ value ∈ captured.heap, ∃ rank, value.Ranked code start rank := by
  generalize same : Value.closure params body captured = value at ranked
  cases ranked with
  | plain isPlain => exact absurd same.symm (isPlain params body captured)
  | @closure _ below trail _ _ later made ranks follows binds ranked less entries =>
      cases same
      refine ⟨below, trail, later, made, follows, rfl, less, ?_,
        fun value member => ⟨_, entries value member⟩⟩
      intro name vouched
      obtain ⟨target, bound⟩ := binds name vouched
      exact ⟨target, bound, ranked name target vouched bound⟩

end Value.Ranked

theorem coversMade_ranked : CoversMade fun value => ∃ rank, value.Ranked code start rank :=
  coversMade_of_plain fun _ isPlain => ⟨0, .plain isPlain⟩

namespace Environment.BindsRanked

variable {env after : Environment} {rank more : Nat} {name : String}

theorem mono (binds : env.BindsRanked code start rank name) (bound : rank ≤ more) :
    env.BindsRanked code start more name := by
  obtain ⟨target, binds, ranked⟩ := binds
  exact ⟨target, binds, ranked.mono bound⟩

theorem keep (binds : env.BindsRanked code start rank name) (grown : env.heap <+: after.heap)
    (same : after.symbols.get? name = env.symbols.get? name) :
    after.BindsRanked code start rank name := by
  obtain ⟨target, binds, ranked⟩ := binds
  exact ⟨target, binds.keep grown same, ranked⟩

end Environment.BindsRanked

namespace Secure

variable {rule : Rule} {depth rank : Nat} {trail : Trail} {instr : Instr} {later : List Instr}
  {before after : State}

theorem ranks_made {params : List String} {body : List Instr}
    (secure : Secure code start rank trail (.makeClosure params body :: later) before) :
    (Value.closure params body before.env).Ranked code start (rank + closuresIn body + 1) := by
  have entries := secure.values.heap
  choose! ranks entries using entries
  refine .closure secure.follows ?_ ?_ (Nat.lt_succ_self _) entries
  · intro name vouched
    obtain ⟨target, binds, _⟩ := secure.names name vouched
    exact ⟨target, binds⟩
  · intro name target vouched binds
    obtain ⟨other, bindsToo, ranked⟩ := secure.names name vouched
    obtain ⟨_, rfl⟩ := binds.unique bindsToo
    exact ranked

theorem stored {name : String} (secure : Secure code start rank trail (.store name :: later) before)
    (vouched : trail.vouchesTop = true) (acts : (Instr.store name).Acts depth before none after) :
    after.env.BindsRanked code start rank name := by
  obtain ⟨value, below, shape, notPointer, ranked⟩ := secure.top vouched
  rw [(Instr.acts_store_iff.1 acts).2, State.store, shape]
  exact ⟨value, Environment.binds_bind_self name (.here notPointer), ranked⟩

theorem names_next (secure : Secure code start rank trail (instr :: later) before)
    (notCall : ∀ argCount, instr ≠ .call argCount) (acts : instr.Acts depth before none after)
    (name : String) (vouched : (trail.after instr).vouches name = true) :
    after.env.BindsRanked code start rank name := by
  by_cases isStore : ∃ query, instr = .store query
  · obtain ⟨query, rfl⟩ := isStore
    rw [Trail.vouches_after_store] at vouched
    split at vouched
    · rename_i same
      exact same ▸ secure.stored vouched acts
    · rename_i different
      have notStore : Instr.store query ≠ .store name := by
        rintro ⟨⟩
        exact different rfl
      obtain ⟨grown, kept⟩ := acts.keeps notStore notCall
      exact (secure.names name vouched).keep grown kept
  · have notStore := not_exists.1 isStore
    rw [Trail.vouches_after notStore] at vouched
    obtain ⟨grown, kept⟩ := acts.keeps (notStore name) notCall
    exact (secure.names name vouched).keep grown kept

theorem top_next (secure : Secure code start rank trail (instr :: later) before)
    (acts : instr.Acts depth before none after) (vouched : (trail.after instr).vouchesTop = true) :
    ∃ value below, after.stack = value :: below ∧ (∀ address, value ≠ .pointer address) ∧
      value.Ranked code start (rank + instr.closures) := by
  cases instr with
  | lookup name =>
      obtain ⟨stack, env⟩ := before
      obtain ⟨value, binds, ranked⟩ := secure.names name vouched
      obtain ⟨found, same, leads⟩ := State.lookup_of_binds stack binds
      obtain ⟨_, rfl⟩ := Instr.acts_lookup_iff.1 acts
      cases leads with
      | here notPointer => exact ⟨value, stack, by rw [same]; rfl, notPointer, ranked⟩
  | makeClosure params body =>
      obtain ⟨_, rfl⟩ := Instr.acts_makeClosure_iff.1 acts
      exact ⟨_, before.stack, rfl, nofun, secure.ranks_made⟩
  | _ => cases vouched

theorem values_after {last : Origin} {final : Table Int}
    (secure : Secure code start rank trail (instr :: later) before)
    (counted : Counted trail.origin trail.arities (instr :: later) last final)
    (acts : instr.Acts depth before none after)
    (bodies : ∀ argCount entry ended callee, instr = .call argCount →
      before.Enters argCount entry → Ends depth entry.body entry.start ended callee →
      callee.Holds fun value => ∃ rank, value.Ranked code start rank) :
    after.Holds fun value => ∃ rank, value.Ranked code start rank := by
  refine acts.after_holds coversMade_ranked secure.values ?_ ?_ bodies
  · rintro value rfl
    obtain ⟨nested, origin, arities, strays⟩ := trail
    cases counted with
    | literal isPlain _ => exact ⟨0, .plain isPlain⟩
  · rintro params body rfl
    exact ⟨_, secure.ranks_made⟩

theorem next {last : Origin} {final : Table Int}
    (secure : Secure code start rank trail (instr :: later) before)
    (counted : Counted trail.origin trail.arities (instr :: later) last final)
    (notCall : ∀ argCount, instr ≠ .call argCount) (acts : instr.Acts depth before none after) :
    Secure code start (rank + instr.closures) (trail.after instr) later after where
  follows := .next secure.follows notCall acts
  names name vouched := (secure.names_next notCall acts name vouched).mono (Nat.le_add_right _ _)
  top := secure.top_next acts
  values := secure.values_after counted acts fun argCount _ _ _ call => absurd call (notCall argCount)

theorem callee_ranked {argCount : Nat} {last : Origin} {final : Table Int} {entry : Activation}
    {popped : List Value} (secure : Secure code start rank trail (.call argCount :: later) before)
    (counted : Counted trail.origin trail.arities (.call argCount :: later) last final)
    (shape : before.stack = .closure entry.params entry.body entry.captured :: popped) :
    ∃ own, (Value.closure entry.params entry.body entry.captured).Ranked code start own ∧
      (trail.topStrays = false → own = rank) := by
  cases strays : trail.topStrays with
  | true =>
      obtain ⟨own, ranked⟩ := secure.values.stack _ (shape ▸ List.mem_cons_self)
      exact ⟨own, ranked, nofun⟩
  | false =>
      obtain ⟨callee, origin, known, _⟩ := counted.of_call
      rw [Trail.topStrays, origin] at strays
      have vouched : trail.vouchesTop = true := by
        simp [Trail.vouchesTop, origin, Trail.vouches, Table.contains, known, strays]
      obtain ⟨value, below, shapeToo, _, ranked⟩ := secure.top vouched
      rw [shape, List.cons.injEq] at shapeToo
      exact ⟨rank, shapeToo.1 ▸ ranked, fun _ => rfl⟩

theorem enter {argCount : Nat} {last : Origin} {final : Table Int} {entry : Activation}
    (sound : before.Sound rule)
    (secure : Secure code start rank trail (.call argCount :: later) before)
    (counted : Counted trail.origin trail.arities (.call argCount :: later) last final)
    (entered : before.Enters argCount entry) :
    ∃ below made, Secure code start below (trail.inside made) entry.body entry.start ∧
      (trail.topStrays = false → below + closuresIn entry.body < rank) := by
  obtain ⟨args, shape, _, grown, _⟩ := sound.args entered
  obtain ⟨_, symbols, _⟩ := sound.enters entered
  obtain ⟨own, ranked, same⟩ := secure.callee_ranked counted shape
  obtain ⟨below, made, rest, maker, makes, env, less, names, entries⟩ := ranked.closure_inv
  refine ⟨below, made, ⟨.enter secure.follows entered makes env, ?_, nofun, ?_⟩,
    fun strays => same strays ▸ less⟩
  · intro name vouched
    exact (names name vouched).keep grown (by rw [symbols])
  · exact entered.start_holds coversMade_ranked secure.values entries

theorem back {argCount inner : Nat} {last : Origin} {final : Table Int} {entry : Activation}
    {ended : Trail} {callee : State} (closed : rule.Closed) (sound : before.Sound rule)
    (secure : Secure code start rank trail (.call argCount :: later) before)
    (counted : Counted trail.origin trail.arities (.call argCount :: later) last final)
    (entered : before.Enters argCount entry) (ran : Ends depth entry.body entry.start none callee)
    (atEnd : Secure code start inner ended [] callee)
    (smaller : trail.topStrays = false → inner ≤ rank)
    (acts : (Instr.call argCount).Acts depth before none after) :
    Secure code start rank (trail.back ended (entry.handsBack callee)) later after := by
  obtain ⟨returned, called, absorbed⟩ := sound.calls closed entered ran
  obtain ⟨_, rfl⟩ := acts.unique called
  have sameEnv : entry.caller.env = before.env := by
    obtain ⟨_, _, _, _, sameEnv, _⟩ := entered
    exact sameEnv
  refine ⟨.back secure.follows entered ran atEnd.follows acts, ?_, nofun, ?_⟩
  · intro name vouched
    rw [Trail.vouches_back] at vouched
    split at vouched
    · rename_i handed
      obtain ⟨_, bound, notParam⟩ := (Activation.handsBack_iff sameEnv).1 handed
      obtain ⟨_, kept, vouchedInside⟩ := vouched
      obtain ⟨target, binds, ranked⟩ := atEnd.names name vouchedInside
      exact ⟨target, absorbed.shared name 0 target bound notParam binds,
        ranked.mono (smaller kept)⟩
    · rename_i kept
      have binds := secure.names name vouched
      refine binds.keep absorbed.heap (absorbed.kept name ?_)
      obtain ⟨_, bound, _⟩ := binds
      rw [Activation.handsBack_iff sameEnv] at kept
      by_contra apart
      obtain ⟨notParam, calleeBound⟩ := not_or.1 apart
      exact kept ⟨Bool.not_eq_false _ ▸ calleeBound, bound.contains, notParam⟩
  · apply secure.values_after counted acts
    intro otherCount other stop last call also ranToo
    cases call
    obtain rfl := entered.unique also
    obtain ⟨_, rfl⟩ := ran.unique ranToo
    exact atEnd.values

end Secure

end LetStack
