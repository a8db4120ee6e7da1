import LetStack.Proofs.Machine.Depth

/-! How high the stack of operands is while code runs, and how far down instructions reach. -/

namespace LetStack

def Instr.pops : Instr → Nat
  | arithmetic _ => 2
  | store _ => 1
  | call argCount => argCount + 1
  | _ => 0

def Instr.Silent (instr : Instr) (before : State) : Prop :=
  ∃ argCount entry depth callee, instr = .call argCount ∧ before.Enters argCount entry ∧
    Ends depth entry.body entry.start none callee ∧ callee.stack = []

/-- What holds of each instruction of some code, in the state in which its turn comes. -/
def Throughout (depth : Nat) (code : List Instr) (before : State)
    (holds : Instr → State → Prop) : Prop :=
  ∀ (done : List Instr) (instr : Instr) (later : List Instr) (middle : State),
    code = done ++ instr :: later → Ends depth done before none middle → holds instr middle

/-- No instruction takes an entry that lies below this height. -/
def StaysAbove (depth floor : Nat) (code : List Instr) (before : State) : Prop :=
  Throughout depth code before fun instr state => floor + instr.pops ≤ state.stack.length

def Answered (depth : Nat) (code : List Instr) (before : State) : Prop :=
  Throughout depth code before fun instr state => ¬ instr.Silent state

section

variable {depth : Nat} {before middle : State} {holds : Instr → State → Prop}

theorem throughout_nil : Throughout depth [] before holds := by
  intro done instr later state code
  simp at code

theorem throughout_cons_iff {instr : Instr} {later : List Instr} :
    Throughout (depth + 1) (instr :: later) before holds ↔ holds instr before ∧
      ∀ middle, instr.Acts depth before none middle →
        Throughout (depth + 1) later middle holds := by
  constructor
  · intro all
    refine ⟨all [] instr later before rfl (ends_nil_iff.2 ⟨rfl, rfl⟩), ?_⟩
    intro middle acts done other rest state code ends
    exact all (instr :: done) other rest state (by rw [code]; rfl)
      (finished_cons_iff.2 ⟨middle, acts, ends⟩)
  · rintro ⟨first, rest⟩ done other left state code ends
    cases done with
    | nil =>
        obtain ⟨rfl, _⟩ := List.cons.inj code
        rw [(ends_nil_iff.1 ends).2]
        exact first
    | cons head done =>
        obtain ⟨rfl, same⟩ := List.cons.inj code
        obtain ⟨middle, acts, restEnds⟩ := finished_cons_iff.1 ends
        exact rest middle acts done other left state same restEnds

theorem throughout_singleton_iff {instr : Instr} :
    Throughout (depth + 1) [instr] before holds ↔ holds instr before := by
  rw [throughout_cons_iff]
  exact ⟨And.left, fun own => ⟨own, fun _ _ => throughout_nil⟩⟩

theorem throughout_append_iff {first second : List Instr} :
    Throughout (depth + 1) (first ++ second) before holds ↔
      Throughout (depth + 1) first before holds ∧
        ∀ middle, Ends (depth + 1) first before none middle →
          Throughout (depth + 1) second middle holds := by
  induction first generalizing before with
  | nil => simp only [List.nil_append, throughout_nil, true_and, ends_nil_iff, forall_eq]
  | cons instr rest ih =>
      simp only [List.cons_append, throughout_cons_iff, ih, finished_cons_iff]
      constructor
      · rintro ⟨own, all⟩
        refine ⟨⟨own, fun middle acts => (all middle acts).1⟩, ?_⟩
        rintro last ⟨middle, acts, ends⟩
        exact (all middle acts).2 last ends
      · rintro ⟨⟨own, all⟩, later⟩
        exact ⟨own, fun middle acts => ⟨all middle acts,
          fun last ends => later last ⟨middle, acts, ends⟩⟩⟩

theorem throughout_append_iff_of_ends {first second : List Instr}
    (finished : Ends (depth + 1) first before none middle) :
    Throughout (depth + 1) (first ++ second) before holds ↔
      Throughout (depth + 1) first before holds ∧
        Throughout (depth + 1) second middle holds := by
  rw [throughout_append_iff]
  refine and_congr_right fun _ => ⟨fun all => all middle finished, ?_⟩
  intro own other ends
  rwa [(ends.unique finished).2]

theorem throughout_cons_iff_of_acts {instr : Instr} {later : List Instr}
    (acts : instr.Acts depth before none middle) :
    Throughout (depth + 1) (instr :: later) before holds ↔
      holds instr before ∧ Throughout (depth + 1) later middle holds := by
  rw [throughout_cons_iff]
  refine and_congr_right fun _ => ⟨fun all => all middle acts, ?_⟩
  intro own other actsToo
  rwa [(actsToo.unique acts).2]

theorem StaysAbove.lower {floor lower : Nat} {code : List Instr}
    (stays : StaysAbove depth floor code before) (below : lower ≤ floor) :
    StaysAbove depth lower code before := by
  intro done instr later state code ends
  have above := stays done instr later state code ends
  omega

end

theorem State.Leaves.stack {caller callee after : State} {params : List String}
    {ended : Option Fault} (left : caller.Leaves params ended callee none after) :
    ended = none ∧ (callee.stack = [] ∧ after.stack = caller.stack ∨
      callee.stack ≠ [] ∧ ∃ copy, after.stack = copy :: caller.stack) := by
  obtain ⟨noFault, rfl⟩ := left
  let merged := merge params callee.env callee.env.symbols.entries caller.env
  have quiet : merged.fault.or ended = none := by
    cases stopped : merged.fault.or ended with
    | none => rfl
    | some fault => simp [leaveCall, merged, stopped] at noFault
  obtain ⟨_, rfl⟩ := Option.or_eq_none_iff.1 quiet
  refine ⟨rfl, ?_⟩
  cases results : callee.stack with
  | nil => exact Or.inl ⟨rfl, by simp [leaveCall, merged, quiet, results]⟩
  | cons result rest =>
      refine Or.inr ⟨List.cons_ne_nil _ _, ?_⟩
      cases transferred : callee.env.transfer result merged.env with
      | error fault => simp [leaveCall, merged, quiet, results, transferred] at noFault
      | ok moved => exact ⟨moved.1, by simp [leaveCall, merged, quiet, results, transferred]⟩

namespace Instr

variable {depth : Nat} {instr : Instr} {before after : State}

def Exchanges (instr : Instr) (before after : State) (pushed : Option Value) : Prop :=
  instr.pops ≤ before.stack.length ∧
    after.stack = pushed.toList ++ before.stack.drop instr.pops

theorem Exchanges.value {value : Value} (enough : instr.pops ≤ before.stack.length)
    (shape : after.stack = value :: before.stack.drop instr.pops)
    (notStore : ∀ name, instr ≠ .store name) (notCall : ∀ argCount, instr ≠ .call argCount) :
    ∃ pushed, instr.Exchanges before after pushed ∧
      (pushed = none ↔ (∃ name, instr = .store name) ∨ instr.Silent before) := by
  refine ⟨some value, ⟨enough, shape⟩, ?_⟩
  simp only [reduceCtorEq, false_iff, not_or, not_exists]
  refine ⟨notStore, ?_⟩
  rintro ⟨argCount, _, _, _, same, _⟩
  exact notCall argCount same

theorem Acts.exchanges (acts : instr.Acts depth before none after) :
    ∃ pushed, instr.Exchanges before after pushed ∧
      (pushed = none ↔ (∃ name, instr = .store name) ∨ instr.Silent before) := by
  cases instr with
  | pushLiteral value =>
      obtain ⟨_, rfl⟩ := acts_pushLiteral_iff.1 acts
      exact Exchanges.value (Nat.zero_le _) rfl (by simp) (by simp)
  | allocateBytes content =>
      obtain ⟨_, rfl⟩ := acts_allocateBytes_iff.1 acts
      exact Exchanges.value (Nat.zero_le _) rfl (by simp) (by simp)
  | makeClosure params body =>
      obtain ⟨_, rfl⟩ := acts_makeClosure_iff.1 acts
      exact Exchanges.value (Nat.zero_le _) rfl (by simp) (by simp)
  | arithmetic operator =>
      obtain ⟨finished, rfl⟩ := acts_arithmetic_iff.1 acts
      obtain ⟨stack, env⟩ := before
      match stack with
      | [] => simp [State.arithmetic, State.underflow, State.fail] at finished
      | [_] => simp [State.arithmetic, State.underflow, State.fail] at finished
      | right :: left :: rest =>
          cases applied : operator.apply left right with
          | error stop => simp [State.arithmetic, applied, State.fail] at finished
          | ok result =>
              have shape : ((⟨right :: left :: rest, env⟩ : State).arithmetic operator).state.stack =
                  result :: rest := by simp only [State.arithmetic, applied, State.done]
              exact Exchanges.value (by simp [pops]) shape (by simp) (by simp)
  | lookup name =>
      obtain ⟨finished, rfl⟩ := acts_lookup_iff.1 acts
      unfold State.lookup at finished ⊢
      split at finished
      · simp [State.fail] at finished
      · split at finished
        · simp [State.fail] at finished
        · exact Exchanges.value (Nat.zero_le _) rfl (by simp) (by simp)
  | store name =>
      obtain ⟨finished, rfl⟩ := acts_store_iff.1 acts
      obtain ⟨stack, env⟩ := before
      cases stack with
      | nil => simp [State.store, State.underflow, State.fail] at finished
      | cons value rest => exact ⟨none, ⟨by simp [pops], rfl⟩, by simp⟩
  | call argCount =>
      rcases acts_call_cases acts with ⟨_, impossible, _⟩ |
        ⟨entry, ended, callee, entered, ran, left⟩
      · simp at impossible
      · obtain ⟨rfl, taken⟩ := left.stack
        obtain ⟨popped, shape, count, _⟩ := id entered
        have enough : (call argCount).pops ≤ before.stack.length := by
          simp only [pops, shape, List.length_cons, List.length_append]
          omega
        have below : before.stack.drop (call argCount).pops = entry.caller.stack := by
          simp only [pops, shape, List.drop_succ_cons, ← count, List.drop_left]
        have silent : (call argCount).Silent before ↔ callee.stack = [] := by
          constructor
          · rintro ⟨_, other, _, ending, same, enteredToo, ranToo, empty⟩
            cases same
            obtain rfl := entered.unique enteredToo
            rwa [(ran.unique ranToo).2]
          · exact fun empty => ⟨argCount, entry, depth, callee, rfl, entered, ran, empty⟩
        simp only [reduceCtorEq, exists_false, false_or, silent]
        rcases taken with ⟨empty, same⟩ | ⟨some, copy, same⟩
        · exact ⟨none, ⟨enough, by rw [below, same]; rfl⟩, by simp [empty]⟩
        · exact ⟨.some copy, ⟨enough, by rw [below, same]; rfl⟩, by simp [some]⟩

theorem Acts.lookup_pushes {name : String} (acts : (lookup name).Acts depth before none after) :
    ∃ value, after.stack = value :: before.stack := by
  obtain ⟨pushed, ⟨_, shape⟩, silent⟩ := acts.exchanges
  cases pushed with
  | some value => exact ⟨value, shape⟩
  | none => rcases silent.1 rfl with ⟨_, impossible⟩ | ⟨_, _, _, _, impossible, _⟩ <;>
      cases impossible

end Instr

theorem StaysAbove.keeps {depth : Nat} {code : List Instr} {before after : State}
    {top below : List Value} (stays : StaysAbove depth below.length code before)
    (finished : Ends depth code before none after) (shape : before.stack = top ++ below) :
    ∃ left, after.stack = left ++ below := by
  induction finished using Ends.finished_induction generalizing top with
  | nil => exact ⟨top, shape⟩
  | @next _ instr _ _ _ _ acts _ ih =>
      obtain ⟨above, later⟩ := (throughout_cons_iff_of_acts acts).1 stays
      obtain ⟨pushed, ⟨_, taken⟩, _⟩ := acts.exchanges
      have inTop : instr.pops ≤ top.length := by
        rw [shape, List.length_append] at above
        omega
      rw [shape, List.drop_append_of_le_length inTop, ← List.append_assoc] at taken
      exact ih later taken

end LetStack
