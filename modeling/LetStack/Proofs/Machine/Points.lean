import LetStack.Proofs.Machine.Preservation

/-! The points that a run gets to, in its own code and in the bodies that it enters. -/

namespace LetStack

/-- What is left of some code, with the state in which it goes on. -/
inductive Reaches (code : List Instr) (start : State) : List Instr → State → Prop
  | start : Reaches code start code start
  | next {depth : Nat} {instr : Instr} {later : List Instr} {before after : State} :
      Reaches code start (instr :: later) before → instr.Acts depth before none after →
      Reaches code start later after
  | enter {argCount : Nat} {later : List Instr} {before : State} {entry : Activation} :
      Reaches code start (.call argCount :: later) before → before.Enters argCount entry →
      Reaches code start entry.body entry.start

theorem Reaches.trans {code later last : List Instr} {start state final : State}
    (first : Reaches code start later state) (second : Reaches later state last final) :
    Reaches code start last final := by
  induction second with
  | start => exact first
  | next _ acts ih => exact .next ih acts
  | enter _ entered ih => exact .enter ih entered

theorem Reaches.of_ends {depth : Nat} {done later : List Instr} {start state : State}
    (finished : Ends depth done start none state) :
    Reaches (done ++ later) start later state := by
  induction finished using Ends.finished_induction with
  | nil => exact .start
  | next acts _ ih => exact (Reaches.next .start acts).trans ih

variable {rule : Rule}

theorem Reaches.sound {code later : List Instr} {start state : State} (closed : rule.Closed)
    (reached : Reaches code start later state) (sound : start.Sound rule)
    (allowed : rule code start.env.symbols) : state.Sound rule ∧ rule later state.env.symbols := by
  induction reached with
  | start => exact ⟨sound, allowed⟩
  | next _ acts ih =>
      obtain ⟨soundBefore, allowedBefore⟩ := ih
      have soundAfter := acts.sound closed (fun ran => ran.sound closed) soundBefore allowedBefore
      exact ⟨soundAfter, acts.rest closed allowedBefore⟩
  | enter _ entered ih =>
      obtain ⟨soundStart, symbols, allowedBody⟩ := ih.1.enters entered
      exact ⟨soundStart, symbols ▸ allowedBody⟩

end LetStack
