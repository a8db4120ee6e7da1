import LetStack.Proofs.Machine.Depth
import LetStack.Proofs.Machine.Returns
import LetStack.Proofs.Machine.Texts

/-!
What a call depends on. A body starts in a state that the closure and its arguments determine, so two
callers may differ in all else, and where their arguments lie does not matter either.
-/

namespace LetStack

def MeetsIn (left right : List Value) (value other : Value) : Prop :=
  ∃ hops count target, Leads left value hops target ∧ Leads right other count target

def MatchesIn (left right : List Value) (value other : Value) : Prop :=
  ∃ hops target, Leads left value hops target ∧ Leads right other hops target

theorem MatchesIn.symm {left right : List Value} {value other : Value}
    (pair : MatchesIn left right value other) : MatchesIn right left other value := by
  obtain ⟨hops, target, leads, leadsToo⟩ := pair
  exact ⟨hops, target, leadsToo, leads⟩

theorem relocate_eq_of_leads {left right heap : List Value} {value other target : Value}
    {hops : Nat} (leads : Leads left value hops target) (leadsToo : Leads right other hops target) :
    ∀ {limit bound : Nat}, hops ≤ limit → hops ≤ bound →
      relocate left limit value heap = relocate right bound other heap := by
  induction leads generalizing other with
  | here plain =>
      intro limit bound _ _
      cases leadsToo with
      | here _ => rw [relocate_of_not_pointer plain, relocate_of_not_pointer plain]
  | hop found _ ih =>
      intro limit bound enough enoughToo
      cases leadsToo with
      | hop foundToo rest =>
          cases limit with
          | zero => omega
          | succ limit =>
              cases bound with
              | zero => omega
              | succ bound =>
                  have same := ih rest (Nat.le_of_succ_le_succ enough)
                    (Nat.le_of_succ_le_succ enoughToo)
                  simp [relocate, found, foundToo, same]

theorem Environment.transfer_eq_of_matches {left right : Environment} {value other : Value}
    (pair : MatchesIn left.heap right.heap value other) (onto : Environment) :
    left.transfer value onto = right.transfer other onto := by
  obtain ⟨hops, target, leads, leadsToo⟩ := pair
  simp only [transfer, relocate_eq_of_leads leads leadsToo leads.hops_le leadsToo.hops_le]

theorem State.seed_eq_of_matches {left right : Environment} {args others : List Value}
    (pairs : List.Forall₂ (MatchesIn left.heap right.heap) args others) :
    ∀ callee : State, seed left args callee = seed right others callee := by
  induction pairs with
  | nil => exact fun _ => rfl
  | cons pair _ ih =>
      intro callee
      simp only [seed, Environment.transfer_eq_of_matches pair callee.env, ih]

structure State.CallsAlike (argCount : Nat) (params : List String) (below under : List Value)
    (first second : State) : Prop where
  ends : ∀ depth fault, (∃ after, (Instr.call argCount).Acts depth first fault after) ↔
    ∃ after, (Instr.call argCount).Acts depth second fault after
  results : ∀ {depth fault after afterToo}, (Instr.call argCount).Acts depth first fault after →
    (Instr.call argCount).Acts depth second fault afterToo →
    (after.stack = below ∧ afterToo.stack = under) ∨ ∃ result other,
      fault = none ∧ after.stack = result :: below ∧ afterToo.stack = other :: under ∧
        MatchesIn after.env.heap afterToo.env.heap result other
  starts : ∀ entry, first.Enters argCount entry → ∃ other, second.Enters argCount other ∧
    other.params = entry.params ∧ other.body = entry.body ∧ other.start = entry.start
  names : ∀ {depth fault after afterToo entry callee},
    (Instr.call argCount).Acts depth first fault after →
    (Instr.call argCount).Acts depth second fault afterToo → first.Enters argCount entry →
    Ends depth entry.body entry.start fault callee → ∀ name, name ∉ params →
    callee.env.symbols.contains name = true → first.env.symbols.contains name = true →
    second.env.symbols.contains name = true → ∃ hops target, callee.env.Binds name hops target ∧
      after.env.Binds name hops target ∧ afterToo.env.Binds name hops target

section

variable {rule : Rule} {first second : State} {argCount depth : Nat} {params : List String}
  {body : List Instr} {captured : Environment} {args others below under : List Value}
  {fault : Option Fault} {after afterToo : State}

theorem State.Enters.of_shape {entry : Activation} (entered : first.Enters argCount entry)
    (shape : first.stack = .closure params body captured :: (args ++ below))
    (count : args.length = argCount) : ∃ start,
      entry = ⟨params, body, captured, ⟨below, first.env⟩, start⟩ ∧ argCount = params.length ∧
        seed first.env args ⟨[], captured⟩ = .ok start := by
  obtain ⟨entryParams, entryBody, entryCaptured, ⟨stack, env⟩, start⟩ := entry
  obtain ⟨popped, also, countToo, arity, sameEnv, seeded⟩ := entered
  simp only at also arity sameEnv seeded
  rw [shape, List.cons.injEq, Value.closure.injEq] at also
  obtain ⟨⟨rfl, rfl, rfl⟩, operands⟩ := also
  obtain ⟨rfl, rfl⟩ := List.append_inj operands (count.trans countToo.symm)
  exact ⟨start, by rw [sameEnv], arity, seeded⟩

theorem Instr.Acts.closure_cases (closed : rule.Closed) (sound : first.Sound rule)
    (shape : first.stack = .closure params body captured :: (args ++ below))
    (count : args.length = argCount) (acts : (call argCount).Acts depth first fault after) :
    (argCount ≠ params.length ∧ fault = some (.argumentCount params.length argCount) ∧
      after.stack = below) ∨
    ∃ start callee, first.Enters argCount ⟨params, body, captured, ⟨below, first.env⟩, start⟩ ∧
      Ends depth body start fault callee ∧
      State.TakesBack ⟨below, first.env⟩ params fault callee after := by
  rcases acts_call_cases acts with ⟨stop, rfl, refused⟩ | ⟨entry, ended, callee, entered, ran, left⟩
  · left
    cases refused with
    | underflow few =>
        rw [shape, List.length_cons, List.length_append, count] at few
        omega
    | notCallable other _ notClosure =>
        rw [shape, List.cons.injEq] at other
        exact absurd other.1.symm (notClosure params body captured)
    | argumentCount other countToo wrong =>
        rw [shape, List.cons.injEq, Value.closure.injEq] at other
        obtain ⟨⟨rfl, _, _⟩, operands⟩ := other
        obtain ⟨rfl, rfl⟩ := List.append_inj operands (count.trans countToo.symm)
        exact ⟨wrong, rfl, rfl⟩
    | lostArgument other _ _ lost =>
        obtain ⟨_, start, seeded, _⟩ := sound.seeds other
        rw [seeded] at lost
        cases lost
  · right
    have calleeSound := sound.callee closed entered ran
    obtain ⟨rfl, _⟩ := sound.returns entered calleeSound left
    have takesBack := (sound.caller entered).takesBack calleeSound left
    obtain ⟨start, rfl, _⟩ := entered.of_shape shape count
    exact ⟨start, callee, entered, ran, takesBack⟩

section

variable (shape : first.stack = .closure params body captured :: (args ++ below))
  (shapeToo : second.stack = .closure params body captured :: (others ++ under))
  (count : args.length = argCount)
  (pairs : List.Forall₂ (MatchesIn first.env.heap second.env.heap) args others)

include shape shapeToo count pairs

theorem State.Enters.of_matches {entry : Activation} (entered : first.Enters argCount entry) :
    second.Enters argCount ⟨params, body, captured, ⟨under, second.env⟩, entry.start⟩ := by
  obtain ⟨start, rfl, arity, seeded⟩ := entered.of_shape shape count
  exact ⟨others, shapeToo, pairs.length_eq.symm.trans count, arity, rfl,
    (State.seed_eq_of_matches pairs _).symm.trans seeded⟩

theorem Instr.Acts.of_matches (closed : rule.Closed) (sound : first.Sound rule)
    (soundToo : second.Sound rule) (acts : (call argCount).Acts depth first fault after) :
    ∃ afterToo, (call argCount).Acts depth second fault afterToo := by
  rcases acts.closure_cases closed sound shape count with
    ⟨wrong, rfl, _⟩ | ⟨start, callee, entered, ran, _⟩
  · exact ⟨_, acts_call_of_refuses
      (.argumentCount shapeToo (pairs.length_eq.symm.trans count) wrong)⟩
  · obtain ⟨afterToo, actsToo, _⟩ :=
      soundToo.calls closed (entered.of_matches shape shapeToo count pairs) ran
    exact ⟨afterToo, actsToo⟩

theorem Instr.Acts.both_cases (closed : rule.Closed) (sound : first.Sound rule)
    (soundToo : second.Sound rule) (acts : (call argCount).Acts depth first fault after)
    (actsToo : (call argCount).Acts depth second fault afterToo) :
    (argCount ≠ params.length ∧ after.stack = below ∧ afterToo.stack = under) ∨
    ∃ start callee, first.Enters argCount ⟨params, body, captured, ⟨below, first.env⟩, start⟩ ∧
      Ends depth body start fault callee ∧
      State.TakesBack ⟨below, first.env⟩ params fault callee after ∧
      State.TakesBack ⟨under, second.env⟩ params fault callee afterToo := by
  have countToo := pairs.length_eq.symm.trans count
  rcases acts.closure_cases closed sound shape count with
    ⟨wrong, _, kept⟩ | ⟨start, callee, entered, ran, takesBack⟩
  · rcases actsToo.closure_cases closed soundToo shapeToo countToo with
      ⟨_, _, keptToo⟩ | ⟨_, _, ⟨_, _, _, arity, _⟩, _⟩
    · exact Or.inl ⟨wrong, kept, keptToo⟩
    · exact absurd arity wrong
  · rcases actsToo.closure_cases closed soundToo shapeToo countToo with
      ⟨wrong, _⟩ | ⟨startToo, calleeToo, enteredToo, ranToo, takesBackToo⟩
    · obtain ⟨_, _, _, arity, _⟩ := entered
      exact absurd arity wrong
    · have again := entered.of_matches shape shapeToo count pairs
      obtain rfl : startToo = start := congrArg Activation.start (enteredToo.unique again)
      obtain ⟨_, rfl⟩ := ran.unique ranToo
      exact Or.inr ⟨startToo, callee, entered, ran, takesBack, takesBackToo⟩

theorem State.Sound.callsAlike (closed : rule.Closed) (sound : first.Sound rule)
    (soundToo : second.Sound rule) : CallsAlike argCount params below under first second where
  ends := by
    intro depth fault
    have countToo := pairs.length_eq.symm.trans count
    have pairsToo := (pairs.imp fun _ _ pair => pair.symm).flip
    constructor
    · rintro ⟨after, acts⟩
      exact acts.of_matches shape shapeToo count pairs closed sound soundToo
    · rintro ⟨after, acts⟩
      exact acts.of_matches shapeToo shape countToo pairsToo closed soundToo sound
  results := by
    intro depth fault after afterToo acts actsToo
    rcases acts.both_cases shape shapeToo count pairs closed sound soundToo actsToo with
      ⟨_, kept, keptToo⟩ | ⟨_, callee, _, _, takesBack, takesBackToo⟩
    · exact Or.inl ⟨kept, keptToo⟩
    · by_cases nothing : fault ≠ none ∨ callee.stack = []
      · exact Or.inl ⟨takesBack.nothing nothing, takesBackToo.nothing nothing⟩
      · obtain ⟨finished, answered⟩ := not_or.1 nothing
        rw [ne_eq, not_not] at finished
        obtain ⟨top, rest, stacked⟩ := List.exists_cons_of_ne_nil answered
        obtain ⟨result, hops, target, left, leads, copied⟩ :=
          takesBack.result top rest finished stacked
        obtain ⟨other, count, same, leftToo, leadsToo, copiedToo⟩ :=
          takesBackToo.result top rest finished stacked
        obtain ⟨rfl, rfl⟩ := leads.unique leadsToo
        exact Or.inr ⟨result, other, finished, left, leftToo, hops, target, copied, copiedToo⟩
  starts := by
    intro entry entered
    have enteredToo := entered.of_matches shape shapeToo count pairs
    obtain ⟨start, rfl, _⟩ := entered.of_shape shape count
    exact ⟨_, enteredToo, rfl, rfl, rfl⟩
  names := by
    intro depth fault after afterToo entry callee acts actsToo entered ran name notParam bound
      known knownToo
    rcases acts.both_cases shape shapeToo count pairs closed sound soundToo actsToo with
      ⟨wrong, _⟩ | ⟨start, same, also, ranToo, takesBack, takesBackToo⟩
    · obtain ⟨_, _, arity, _⟩ := entered.of_shape shape count
      exact absurd arity wrong
    · obtain rfl := entered.unique also
      obtain ⟨_, rfl⟩ := ran.unique ranToo
      obtain ⟨hops, target, binds, taken⟩ := takesBack.shared name bound known notParam
      obtain ⟨_, _, bindsToo, takenToo⟩ := takesBackToo.shared name bound knownToo notParam
      obtain ⟨rfl, rfl⟩ := binds.unique bindsToo
      exact ⟨_, _, binds, taken, takenToo⟩

end

end

theorem Value.PointsToBytes.leads_cases {heap : List Value} {value target : Value} {hops : Nat}
    (points : value.PointsToBytes heap) (leads : Leads heap value hops target) :
    (hops = 0 ∧ target = value) ∨ hops = 1 ∧ ∃ content, target = .bytes content := by
  cases leads with
  | here _ => exact Or.inl ⟨rfl, rfl⟩
  | hop found rest =>
      obtain ⟨content, bytes⟩ := pointer_iff.1 points
      rw [found, Option.some.injEq] at bytes
      subst bytes
      cases rest with
      | here _ => exact Or.inr ⟨rfl, content, rfl⟩

/-- Where pointers lead to bytes, and only pointers do, it is clear how many are to be followed. -/
theorem MeetsIn.matches_of_texts {first second : State} {value other : Value}
    (pair : MeetsIn first.env.heap second.env.heap value other) (placed : first.Placed .texts)
    (placedToo : second.Placed .texts) (member : value ∈ first.stack)
    (memberToo : other ∈ second.stack) :
    MatchesIn first.env.heap second.env.heap value other := by
  obtain ⟨hops, count, target, leads, leadsToo⟩ := pair
  obtain ⟨points, notBytes⟩ := placed.stack value member
  obtain ⟨pointsToo, notBytesToo⟩ := placedToo.stack other memberToo
  rcases points.leads_cases leads with ⟨rfl, rfl⟩ | ⟨rfl, content, rfl⟩
  · rcases pointsToo.leads_cases leadsToo with ⟨rfl, _⟩ | ⟨_, content, bytes⟩
    · exact ⟨0, _, leads, leadsToo⟩
    · exact absurd bytes (notBytes content)
  · rcases pointsToo.leads_cases leadsToo with ⟨_, bytes⟩ | ⟨rfl, _⟩
    · exact absurd bytes.symm (notBytesToo content)
    · exact ⟨1, _, leads, leadsToo⟩

theorem matches_of_texts {first second : State} {args others : List Value}
    (pairs : List.Forall₂ (MeetsIn first.env.heap second.env.heap) args others)
    (placed : first.Placed .texts) (placedToo : second.Placed .texts) (members : args ⊆ first.stack)
    (membersToo : others ⊆ second.stack) :
    List.Forall₂ (MatchesIn first.env.heap second.env.heap) args others := by
  induction pairs with
  | nil => exact .nil
  | cons pair _ ih =>
      obtain ⟨member, further⟩ := List.cons_subset.1 members
      obtain ⟨memberToo, furtherToo⟩ := List.cons_subset.1 membersToo
      exact .cons (pair.matches_of_texts placed placedToo member memberToo)
        (ih further furtherToo)

theorem State.Sound.put_onto {rule : Rule} {first later : State} {operands below : List Value}
    (sound : first.Sound rule) (shape : first.stack = operands ++ below)
    (laterSound : later.Sound rule) (grown : first.env.heap <+: later.env.heap) :
    State.Sound rule ⟨operands ++ later.stack, later.env⟩ := by
  refine ⟨?_, laterSound.env⟩
  intro value member
  rcases List.mem_append.1 member with operand | rest
  · have onStack : value ∈ first.stack := by simp [shape, operand]
    exact (sound.stack value onStack).extend grown
  · exact laterSound.stack value rest

theorem State.Sound.matches_itself {rule : Rule} {state : State} {value : Value}
    {longer : List Value} (sound : state.Sound rule) (member : value ∈ state.stack)
    (grown : state.env.heap <+: longer) : MatchesIn state.env.heap longer value value := by
  obtain ⟨hops, target, leads⟩ := sound.env.leads (sound.stack value member)
  exact ⟨hops, target, leads, leads.extend grown⟩

/-- A call depends on the closure and on the targets of its arguments, if as many pointers lead there
in both states or if pointers lead to nothing but bytes. Whatever runs before, a call ends as it would
have ended then. -/
theorem calls_depend_on_closure_and_arguments {first second : State} {argCount : Nat}
    {params : List String} {body : List Instr} {captured : Environment}
    {args others below under : List Value} (wellFormed : first.WellFormed)
    (wellFormedToo : second.WellFormed)
    (shape : first.stack = .closure params body captured :: (args ++ below))
    (shapeToo : second.stack = .closure params body captured :: (others ++ under))
    (count : args.length = argCount)
    (same : List.Forall₂ (MatchesIn first.env.heap second.env.heap) args others ∨
      first.Placed .texts ∧ second.Placed .texts ∧
        List.Forall₂ (MeetsIn first.env.heap second.env.heap) args others) :
    State.CallsAlike argCount params below under first second ∧
    ∀ (depth : Nat) (code : List Instr) (stack : List Value) (fault : Option Fault) (after : State),
      LiteralsWellFormed code → State.WellFormed ⟨stack, first.env⟩ →
      Ends depth code ⟨stack, first.env⟩ fault after →
        State.CallsAlike argCount params below after.stack first
          ⟨.closure params body captured :: (args ++ after.stack), after.env⟩ := by
  have closed := literalsRule_closed
  have sound := State.wellFormed_iff_sound.1 wellFormed
  constructor
  · have pairs : List.Forall₂ (MatchesIn first.env.heap second.env.heap) args others := by
      rcases same with pairs | ⟨placed, placedToo, pairs⟩
      · exact pairs
      · have members : args ⊆ first.stack := by simp [shape]
        have membersToo : others ⊆ second.stack := by simp [shapeToo]
        exact matches_of_texts pairs placed placedToo members membersToo
    exact sound.callsAlike shape shapeToo count pairs closed
      (State.wellFormed_iff_sound.1 wellFormedToo)
  · intro depth code stack fault after literals startWellFormed ends
    have grown : first.env.heap <+: after.env.heap := ends.grows
    have afterSound := ends.sound closed (State.wellFormed_iff_sound.1 startWellFormed) literals
    have itself : ∀ value ∈ args, MatchesIn first.env.heap after.env.heap value value := by
      intro value member
      exact sound.matches_itself (by simp [shape, member]) grown
    have operands : first.stack = (.closure params body captured :: args) ++ below := shape
    exact sound.callsAlike shape rfl count (List.forall₂_same.2 itself) closed
      (sound.put_onto operands afterSound grown)

def handed (body : List Instr) (argument : Value) (env : Environment) : State :=
  ⟨[.closure ["x"] body .empty, argument], env⟩

theorem handed_wellFormed {body : List Instr} {argument : Value} {env : Environment}
    (literals : LiteralsWellFormed body) (fits : argument.WellFormed env.heap)
    (wellFormed : env.WellFormed) : (handed body argument env).WellFormed := by
  have closure : (Value.closure ["x"] body .empty).Sound literalsRule env.heap :=
    Value.Sound.closure_iff.2 ⟨literals, Environment.sound_empty⟩
  refine ⟨?_, wellFormed⟩
  intro value member
  simp only [handed, List.mem_cons, List.not_mem_nil, or_false] at member
  rcases member with rfl | rfl
  · exact Value.wellFormed_iff_sound.2 closure
  · exact fits

def keepsArgument : List Instr := [.store "x", .lookup "x", .store "y", .lookup "x"]

def textFirst : Environment := (Environment.empty.allocate (.bytes [104])).bind "y" (.int 1)

def textLast : Environment := (Environment.empty.bind "y" (.bool true)).allocate (.bytes [104])

theorem calls_depend_on_closure_and_arguments_text :
    (handed keepsArgument (.pointer 0) textFirst).WellFormed ∧
    (handed keepsArgument (.pointer 1) textLast).WellFormed ∧
    State.CallsAlike 1 ["x"] [] [] (handed keepsArgument (.pointer 0) textFirst)
      (handed keepsArgument (.pointer 1) textLast) ∧
    ∃ after afterToo,
      (Instr.call 1).Acts 1 (handed keepsArgument (.pointer 0) textFirst) none after ∧
      (Instr.call 1).Acts 1 (handed keepsArgument (.pointer 1) textLast) none afterToo ∧
      after.env.Binds "y" 1 (.bytes [104]) ∧ afterToo.env.Binds "y" 1 (.bytes [104]) := by
  have literals : LiteralsWellFormed keepsArgument := by
    intro value pushed
    simp [keepsArgument] at pushed
  have wellFormed : (handed keepsArgument (.pointer 0) textFirst).WellFormed :=
    handed_wellFormed literals (.pointer (by decide)) (Environment.wellFormed_iff_sound.2
      ((Environment.sound_empty.allocate (.bytes _ _)).bind (.int _ _) "y"))
  have wellFormedToo : (handed keepsArgument (.pointer 1) textLast).WellFormed :=
    handed_wellFormed literals (.pointer (by decide)) (Environment.wellFormed_iff_sound.2
      ((Environment.sound_empty.bind (.bool _ _) "y").allocate (.bytes _ _)))
  have pairs : List.Forall₂ (MatchesIn textFirst.heap textLast.heap) [.pointer 0] [.pointer 1] :=
    .cons ⟨1, .bytes [104], .hop rfl (.here nofun), .hop rfl (.here nofun)⟩ .nil
  exact ⟨wellFormed, wellFormedToo,
    (calls_depend_on_closure_and_arguments wellFormed wellFormedToo rfl rfl rfl (Or.inl pairs)).1,
    _, _, ⟨_, rfl⟩, ⟨_, rfl⟩, ⟨3, .pointer 2, rfl, rfl, .hop rfl (.here nofun)⟩,
    ⟨3, .pointer 2, rfl, rfl, .hop rfl (.here nofun)⟩⟩

def doubles : List Instr := [.store "x", .lookup "x", .lookup "x", .arithmetic .add]

def closesOver : List Instr := [.store "x", .makeClosure [] [.lookup "x"]]

def pointedAt : Environment := ⟨[.bytes [104], .pointer 0, .int 5], .empty⟩

theorem pointedAt_wellFormed : pointedAt.WellFormed := by
  refine Environment.wellFormed_iff_sound.2 ?_
  exact ((Environment.sound_empty.allocate (.bytes _ _)).allocate (.pointer (by decide))).allocate
    (.int _ _)

/-- It matters how many pointers lead to an argument. Arithmetic takes an integer but no pointer to
it, and a closure keeps all the pointers to what it captures. -/
theorem pointers_on_the_way_matter :
    ((handed doubles (.int 5) pointedAt).WellFormed ∧
      (handed doubles (.pointer 2) pointedAt).WellFormed ∧
      MeetsIn pointedAt.heap pointedAt.heap (.int 5) (.pointer 2) ∧
      (∃ after, (Instr.call 1).Acts 1 (handed doubles (.int 5) pointedAt) none after) ∧
      ∀ depth after, ¬ (Instr.call 1).Acts depth (handed doubles (.pointer 2) pointedAt) none after) ∧
    (handed closesOver (.pointer 0) pointedAt).WellFormed ∧
      (handed closesOver (.pointer 1) pointedAt).WellFormed ∧
      MeetsIn pointedAt.heap pointedAt.heap (.pointer 0) (.pointer 1) ∧
      ∃ after afterToo result other,
        (Instr.call 1).Acts 1 (handed closesOver (.pointer 0) pointedAt) none after ∧
        (Instr.call 1).Acts 1 (handed closesOver (.pointer 1) pointedAt) none afterToo ∧
        after.stack = [result] ∧ afterToo.stack = [other] ∧
        ¬ MeetsIn after.env.heap afterToo.env.heap result other := by
  have wellFormed := pointedAt_wellFormed
  constructor
  · have literals : LiteralsWellFormed doubles := by
      intro value pushed
      simp [doubles] at pushed
    have same : MeetsIn pointedAt.heap pointedAt.heap (.int 5) (.pointer 2) :=
      ⟨0, 1, .int 5, .here nofun, .hop rfl (.here nofun)⟩
    have failed : (Instr.call 1).Acts 1 (handed doubles (.pointer 2) pointedAt)
      (some (.operandKinds .add "pointer" "pointer")) _ := ⟨_, rfl⟩
    refine ⟨handed_wellFormed literals (.int _ _) wellFormed,
      handed_wellFormed literals (.pointer (by decide)) wellFormed, same, ⟨_, _, rfl⟩, ?_⟩
    intro depth after acts
    cases (Ends.unique (ends_singleton_iff.2 acts) (ends_singleton_iff.2 failed)).1
  · have literals : LiteralsWellFormed closesOver := by
      intro value pushed
      simp [closesOver] at pushed
    have same : MeetsIn pointedAt.heap pointedAt.heap (.pointer 0) (.pointer 1) :=
      ⟨1, 2, .bytes [104], .hop rfl (.here nofun), .hop rfl (.hop rfl (.here nofun))⟩
    refine ⟨handed_wellFormed literals (.pointer (by decide)) wellFormed,
      handed_wellFormed literals (.pointer (by decide)) wellFormed, same,
      _, _, _, _, ⟨_, rfl⟩, ⟨_, rfl⟩, rfl, rfl, ?_⟩
    -- the captured heaps are of different lengths
    rintro ⟨_, _, target, leads, leadsToo⟩
    cases leads with
    | here _ => cases leadsToo

end LetStack
