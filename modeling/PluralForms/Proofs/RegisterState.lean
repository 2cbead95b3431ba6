import PluralForms.Optimizer.RegisterState
import PluralForms.Proofs.Machine

/-! What a register state tells: the registers that it describes, the weaker states that it refines,
and what instructions make of it. A part of a run that leads back to a known state leaves the
register as it is. -/

namespace PluralForms

namespace RegisterState

variable {n r : Int64} {a b state state' : RegisterState} {instruction : Instruction}

/-- The register holds what the state tells for the count `n`. -/
def Describes (n r : Int64) : RegisterState → Prop
  | .known operators => r = Chain.apply operators.reverse n
  | .unknown => True

/-- The state tells all that `weaker` tells. -/
def Refines (state weaker : RegisterState) : Prop := weaker = .unknown ∨ weaker = state

theorem Refines.refl (state : RegisterState) : state.Refines state := .inr rfl

theorem Refines.trans {a b c : RegisterState} (hab : a.Refines b) (hbc : b.Refines c) :
    a.Refines c := by
  rcases hbc with rfl | rfl
  · exact .inl rfl
  · exact hab

theorem Refines.describes (h : state.Refines state') (hd : state.Describes n r) :
    state'.Describes n r := by
  rcases h with rfl | rfl
  · trivial
  · exact hd

/-- Instructions have the same effect on the states as on the register. -/
theorem describes_after (h : state.Describes n r) (instruction : Instruction) :
    (state.after instruction).Describes n (instruction.register n r) := by
  cases instruction with
  | arith op operand =>
    cases state with
    | known operators =>
      obtain rfl : r = Chain.apply operators.reverse n := h
      simp [after, Describes, Instruction.register, Chain.apply]
    | unknown => trivial
  | load _ | loadMod _ =>
    simp [after, initial, Describes, Instruction.register, Chain.apply]
  | ret _ | jump _ _ | test _ _ => exact h

theorem describes_foldl {run : Program} (h : state.Describes n r) :
    (run.foldl after state).Describes n (run.foldl (fun r i => i.register n r) r) := by
  induction run generalizing state r with
  | nil => exact h
  | cons instruction run ih => exact ih (describes_after h instruction)

/-- Two registers that the same known state describes are equal. -/
theorem Describes.unique {r' : Int64} (hk : state.isKnown = true) (h : state.Describes n r)
    (h' : state.Describes n r') : r = r' := by
  cases state with
  | known operators => exact h.trans h'.symm
  | unknown => simp [isKnown] at hk

theorem longestTo?_spec {goal : RegisterState} {run : Program} {length : Nat}
    (h : longestTo? goal state run = some length) :
    0 < length ∧ length ≤ run.length ∧ (run.take length).foldl after state = goal := by
  induction run generalizing state length with
  | nil => simp [longestTo?] at h
  | cons instruction rest ih =>
    simp only [longestTo?] at h
    split at h
    · next k hk =>
      obtain rfl := Option.some.inj h
      obtain ⟨-, hle, hgoal⟩ := ih hk
      exact ⟨by omega, by simp; omega, by simpa using hgoal⟩
    · split at h
      · next hgoal =>
        obtain rfl := Option.some.inj h
        exact ⟨by omega, by simp, by simpa using hgoal⟩
      · simp at h

theorem redundantLength?_pos {run : Program} {length : Nat}
    (h : state.redundantLength? run = some length) : 0 < length := by
  simp only [redundantLength?, Option.ite_none_right_eq_some] at h
  exact (longestTo?_spec h.2).1

theorem redundantLength?_le {run : Program} {length : Nat}
    (h : state.redundantLength? run = some length) : length ≤ run.length := by
  simp only [redundantLength?, Option.ite_none_right_eq_some] at h
  exact (longestTo?_spec h.2).2.1

theorem isKnown_of_redundantLength? {run : Program} {length : Nat}
    (h : state.redundantLength? run = some length) : state.isKnown = true := by
  rw [redundantLength?, Option.ite_none_right_eq_some] at h
  exact h.1

/-- A redundant part of a run leads back to the state where it starts. -/
theorem redundantLength?_foldl {run : Program} {length : Nat}
    (h : state.redundantLength? run = some length) :
    (run.take length).foldl after state = state := by
  rw [redundantLength?, Option.ite_none_right_eq_some] at h
  exact (longestTo?_spec h.2).2.2

/-- A redundant part of a run leaves the register as it is. -/
theorem redundantLength?_spec {run : Program} {length : Nat}
    (h : state.redundantLength? run = some length) (hd : state.Describes n r) :
    0 < length ∧ length ≤ run.length ∧
      (run.take length).foldl (fun r i => i.register n r) r = r := by
  simp only [redundantLength?, Option.ite_none_right_eq_some] at h
  obtain ⟨hk, h⟩ := h
  obtain ⟨hpos, hle, hgoal⟩ := longestTo?_spec h
  have hrun : state.Describes n ((run.take length).foldl (fun r i => i.register n r) r) :=
    hgoal ▸ describes_foldl hd
  exact ⟨hpos, hle, hrun.unique hk hd⟩

/-- What is redundant at the start of a calculation stays so if the calculation goes on. -/
theorem longestTo?_append_ne_none {goal : RegisterState} {run rest : Program}
    (h : longestTo? goal state run ≠ none) :
    longestTo? goal state (run ++ rest) ≠ none := by
  induction run generalizing state with
  | nil => exact absurd rfl h
  | cons instruction run ih =>
    rw [List.cons_append, longestTo?]
    split
    · exact Option.some_ne_none _
    · next hnone =>
      have hnone' : longestTo? goal (state.after instruction) run = none :=
        by_contra fun hne => ih hne hnone
      rw [longestTo?, hnone'] at h
      exact h

theorem redundantLength?_append_ne_none {run rest : Program} {length : Nat}
    (h : state.redundantLength? run = some length) :
    state.redundantLength? (run ++ rest) ≠ none := by
  rw [redundantLength?, Option.ite_none_right_eq_some] at h
  rw [redundantLength?, if_pos h.1]
  exact longestTo?_append_ne_none (by rw [h.2]; exact Option.some_ne_none _)

/-! ### States before and after an instruction -/

theorem isKnown_after (h : state.isKnown = true) (instruction : Instruction) :
    (state.after instruction).isKnown = true := by
  cases state with
  | known operators => cases instruction <;> rfl
  | unknown => simp [isKnown] at h

theorem after_eq_of_resets (h : instruction.opcode.resetsRegister = true) (a b : RegisterState) :
    a.after instruction = b.after instruction := by
  cases instruction with
  | load | loadMod => rfl
  | ret | jump | test | arith => simp [Instruction.opcode, Opcode.resetsRegister] at h

theorem after_unknown_of_keeps (h : instruction.opcode.resetsRegister = false) :
    unknown.after instruction = unknown := by
  cases instruction with
  | load | loadMod => simp [Instruction.opcode, Opcode.resetsRegister] at h
  | ret | jump | test | arith => rfl

/-- What is known stays apart under an instruction that does not reset the register. -/
theorem eq_of_after_eq (h : instruction.opcode.resetsRegister = false) (ha : a.isKnown = true)
    (hb : b.isKnown = true) (heq : a.after instruction = b.after instruction) : a = b := by
  cases instruction with
  | load | loadMod => simp [Instruction.opcode, Opcode.resetsRegister] at h
  | ret | jump | test => exact heq
  | arith op operand =>
    cases a with
    | unknown => simp [isKnown] at ha
    | known first =>
      cases b with
      | unknown => simp [isKnown] at hb
      | known second =>
        obtain ⟨-, rfl⟩ := List.cons.inj (known.inj heq)
        rfl

theorem Refines.after (h : a.Refines b) (instruction : Instruction) :
    (a.after instruction).Refines (b.after instruction) := by
  rcases h with rfl | rfl
  · cases hresets : instruction.opcode.resetsRegister with
    | true => exact .inr (after_eq_of_resets hresets _ _)
    | false => exact .inl (after_unknown_of_keeps hresets)
  · exact .refl _

end RegisterState

end PluralForms
