import LetStack.Proofs.Arity.Calls
import LetStack.Proofs.Machine.Depth

/-!
Ways to the points of a run, and what they make of the names for which the analysis knows a number of
parameters. A call may hand back something else under such a name. From there on the name has strayed,
also in the closures that are made there and under the names that it is stored under.
-/

namespace LetStack

/-- What the analysis knows at a point, the names that have strayed from that on the way there, and
the number of calls of strayed names that the point lies in. -/
structure Trail where
  nested : Nat
  origin : Origin
  arities : Table Int
  strays : String → Bool

namespace Trail

def initial : Trail := ⟨0, .other, .empty, fun _ => false⟩

def topStrays (trail : Trail) : Bool :=
  match trail.origin with
  | .lookup name => trail.strays name
  | _ => false

def vouches (trail : Trail) (name : String) : Bool :=
  trail.arities.contains name && !trail.strays name

def after (trail : Trail) : Instr → Trail
  | .lookup name => { trail with origin := .lookup name }
  | .makeClosure params _ => { trail with origin := .function params.length }
  | .store name =>
    { trail with
      origin := .other
      arities := trail.origin.record trail.arities name
      strays := fun other => if other = name then trail.topStrays else trail.strays other }
  | _ => { trail with origin := .other }

def inside (trail made : Trail) : Trail :=
  ⟨trail.nested + trail.topStrays.toNat, .other, made.arities, made.strays⟩

/-- After a call that has handed back some names, where the other trail has led to the end of the
body. Such a name has strayed if the callee had, or if it is not vouched for at that end. -/
def back (trail ended : Trail) (handed : String → Bool) : Trail :=
  { trail with
    origin := .other
    strays := fun name =>
      if handed name then trail.topStrays || !ended.vouches name else trail.strays name }

end Trail

def Activation.handsBack (entry : Activation) (callee : State) (name : String) : Bool :=
  callee.env.symbols.contains name && entry.caller.env.symbols.contains name &&
    !entry.params.contains name

inductive Follows (code : List Instr) (start : State) : Trail → List Instr → State → Prop
  | start : Follows code start .initial code start
  | next {trail : Trail} {depth : Nat} {instr : Instr} {later : List Instr}
      {before after : State} : Follows code start trail (instr :: later) before →
      (∀ argCount, instr ≠ .call argCount) → instr.Acts depth before none after →
      Follows code start (trail.after instr) later after
  | enter {trail made : Trail} {argCount : Nat} {later rest : List Instr} {before maker : State}
      {entry : Activation} : Follows code start trail (.call argCount :: later) before →
      before.Enters argCount entry →
      Follows code start made (.makeClosure entry.params entry.body :: rest) maker →
      maker.env = entry.captured → Follows code start (trail.inside made) entry.body entry.start
  | back {trail ended : Trail} {depth argCount : Nat} {later : List Instr}
      {before callee after : State} {entry : Activation} :
      Follows code start trail (.call argCount :: later) before →
      before.Enters argCount entry → Ends depth entry.body entry.start none callee →
      Follows code start ended [] callee → (Instr.call argCount).Acts depth before none after →
      Follows code start (trail.back ended (entry.handsBack callee)) later after

variable {code : List Instr} {start : State}

theorem Follows.reaches {trail : Trail} {later : List Instr} {state : State}
    (follows : Follows code start trail later state) : Reaches code start later state := by
  induction follows with
  | start => exact .start
  | next _ _ acts ih => exact .next ih acts
  | enter _ entered _ _ ih _ => exact .enter ih entered
  | back _ _ _ _ acts ih _ => exact .next ih acts

theorem Counted.of_call {origin last : Origin} {arities final : Table Int} {argCount : Nat}
    {later : List Instr} (counted : Counted origin arities (.call argCount :: later) last final) :
    ∃ callee, origin = .lookup callee ∧ arities.get? callee = some (argCount : Int) ∧
      Counted .other arities later last final := by
  cases counted with
  | call known rest => exact ⟨_, rfl, known, rest⟩

namespace Trail

theorem nested_after (trail : Trail) (instr : Instr) :
    (trail.after instr).nested = trail.nested := by
  cases instr <;> rfl

theorem counted_after {trail : Trail} {instr : Instr} {later : List Instr} {last : Origin}
    {final : Table Int} (counted : Counted trail.origin trail.arities (instr :: later) last final)
    (notCall : ∀ argCount, instr ≠ .call argCount) :
    Counted (trail.after instr).origin (trail.after instr).arities later last final := by
  obtain ⟨nested, origin, arities, strays⟩ := trail
  cases counted with
  | call _ _ => exact absurd rfl (notCall _)
  | literal _ rest => exact rest
  | bytes rest => exact rest
  | arithmetic rest => exact rest
  | lookup rest => exact rest
  | store rest => exact rest
  | makeClosure _ rest => exact rest

end Trail

theorem Follows.counted {last : Origin} {final : Table Int}
    (counted : Counted .other .empty code last final) {trail : Trail} {later : List Instr}
    {state : State} (follows : Follows code start trail later state) :
    ∃ last final, Counted trail.origin trail.arities later last final := by
  induction follows with
  | start => exact ⟨last, final, counted⟩
  | next _ notCall _ ih =>
      obtain ⟨last, final, countedBefore⟩ := ih
      exact ⟨last, final, Trail.counted_after countedBefore notCall⟩
  | @enter _ made _ _ _ _ _ _ _ _ _ _ _ ihMade =>
      obtain ⟨_, _, countedMade⟩ := ihMade
      obtain ⟨nested, origin, arities, strays⟩ := made
      cases countedMade with
      | makeClosure inside _ => exact ⟨_, _, inside⟩
  | back _ _ _ _ _ ih _ =>
      obtain ⟨last, final, countedBefore⟩ := ih
      obtain ⟨_, _, _, countedAfter⟩ := countedBefore.of_call
      exact ⟨last, final, countedAfter⟩

theorem Follows.nested_lt {depth : Nat} {fault : Option Fault} {final : State}
    (ends : Ends depth code start fault final) {trail : Trail} {later : List Instr} {state : State}
    (follows : Follows code start trail later state) :
    ∃ left stop last, Ends left later state stop last ∧ left + trail.nested ≤ depth := by
  induction follows with
  | start => exact ⟨depth, fault, final, ends, Nat.le_refl _⟩
  | @next trail _ instr _ _ _ _ _ acts ih =>
      obtain ⟨left, stop, last, ended, bound⟩ := ih
      exact ⟨left, stop, last, ended.next acts, trail.nested_after instr ▸ bound⟩
  | @enter trail made _ _ _ _ _ _ _ entered _ _ ih _ =>
      obtain ⟨left, stop, last, ended, bound⟩ := ih
      obtain ⟨fewer, stop, callee, less, ran⟩ := ended.body entered
      have nested : trail.topStrays.toNat ≤ 1 := Bool.toNat_le _
      refine ⟨fewer, stop, callee, ran, ?_⟩
      simp only [Trail.inside]
      omega
  | back _ _ _ _ acts ih _ =>
      obtain ⟨left, stop, last, ended, bound⟩ := ih
      exact ⟨left, stop, last, ended.next acts, bound⟩

end LetStack
