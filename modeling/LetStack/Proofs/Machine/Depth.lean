import LetStack.Proofs.Machine.Calls

/-! How deep calls may nest decides whether a run comes to its end, and never how it ends. -/

namespace LetStack

variable {depth : Nat} {before after : State} {fault : Option Fault}

theorem Instr.Acts.deeper {instr : Instr}
    (bodies : ∀ {body start ended callee}, Ends depth body start ended callee →
      Ends (depth + 1) body start ended callee)
    (acts : instr.Acts depth before fault after) : instr.Acts (depth + 1) before fault after := by
  cases instr with
  | call argCount =>
      rcases acts_call_cases acts with ⟨stop, rfl, refused⟩ |
        ⟨entry, ended, callee, entered, ran, left⟩
      · exact acts_call_of_refuses refused
      · exact acts_call_of_enters entered (bodies ran) left
  | _ => exact acts

theorem Ends.deeper {code : List Instr} (ends : Ends depth code before fault after) :
    Ends (depth + 1) code before fault after := by
  induction ends using Ends.induction with
  | nil => exact ends_nil_iff.2 ⟨rfl, rfl⟩
  | stop _ bodies acts => exact ends_cons_iff.2 (Or.inl ⟨rfl, acts.deeper bodies⟩)
  | next bodies acts _ ih => exact ends_cons_iff.2 (Or.inr ⟨_, acts.deeper bodies, ih⟩)

theorem Ends.deepen {deeper : Nat} {code : List Instr} (ends : Ends depth code before fault after)
    (bound : depth ≤ deeper) : Ends deeper code before fault after := by
  induction bound with
  | refl => exact ends
  | step _ ih => exact ih.deeper

theorem Ends.unique {other : Nat} {code : List Instr} {also : State} {stop : Option Fault}
    (ends : Ends depth code before fault after) (endsToo : Ends other code before stop also) :
    fault = stop ∧ after = also := by
  obtain ⟨pending, events, executed⟩ := ends.deepen (Nat.le_max_left depth other)
  obtain ⟨otherPending, otherEvents, executedToo⟩ := endsToo.deepen (Nat.le_max_right depth other)
  rw [executed, Option.some.injEq, Ending.mk.injEq] at executedToo
  exact ⟨executedToo.2.1, executedToo.1⟩

theorem Instr.Acts.deepen {instr : Instr} {other : Nat} (acts : instr.Acts depth before fault after)
    (bound : depth ≤ other) : instr.Acts other before fault after :=
  ends_singleton_iff.1 ((ends_singleton_iff.2 acts).deepen (Nat.succ_le_succ bound))

/-- What a run has done so far does not depend on how deep its calls may nest. -/
theorem Ends.rest {other : Nat} {first second : List Instr} {middle : State}
    (ends : Ends depth (first ++ second) before fault after)
    (finished : Ends other first before none middle) : Ends depth second middle fault after := by
  cases depth with
  | zero => exact absurd ends not_ends_zero
  | succ depth =>
      rcases ends_append_iff.1 ends with ⟨failed, stopped⟩ | ⟨reached, began, rest⟩
      · obtain ⟨rfl, _⟩ := stopped.unique finished
        cases failed
      · obtain ⟨_, rfl⟩ := began.unique finished
        exact rest

theorem Ends.next {other : Nat} {instr : Instr} {later : List Instr} {middle : State}
    (ends : Ends depth (instr :: later) before fault after)
    (acts : instr.Acts other before none middle) : Ends depth later middle fault after := by
  have whole : Ends depth ([instr] ++ later) before fault after := ends
  exact whole.rest (ends_singleton_iff.2 acts)

theorem Ends.body {argCount : Nat} {later : List Instr} {entry : Activation}
    (ends : Ends depth (.call argCount :: later) before fault after)
    (entered : before.Enters argCount entry) :
    ∃ fewer ended callee, fewer < depth ∧ Ends fewer entry.body entry.start ended callee := by
  cases depth with
  | zero => exact absurd ends not_ends_zero
  | succ depth =>
      obtain ⟨ended, left, acts⟩ :
          ∃ ended left, (Instr.call argCount).Acts depth before ended left := by
        rcases ends_cons_iff.1 ends with ⟨_, acts⟩ | ⟨_, acts, _⟩ <;> exact ⟨_, _, acts⟩
      rcases Instr.acts_call_cases acts with ⟨stop, _, refused⟩ | ⟨other, _, _, also, ran, _⟩
      · exact absurd refused entered.not_refuses
      · obtain rfl := entered.unique also
        exact ⟨depth, _, _, Nat.lt_succ_self _, ran⟩

end LetStack
