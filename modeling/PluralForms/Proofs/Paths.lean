import PluralForms.Optimizer.Analysis
import PluralForms.Proofs.Landing
import PluralForms.Proofs.RegisterState

/-! Paths through a program, from its start along the order of the instructions and along the jumps.
Each path leaves a register state behind, and the paths to a place are merged to the state that they
have in common, or to an unknown one if two of them differ. -/

namespace PluralForms

open Relation

namespace Program

variable {p : Program} {i t : Nat} {instruction : Instruction} {state state' : RegisterState}

/-- Control may pass from the instruction at an index to a place: to the one behind it, unless the
instruction returns, and to the place where it lands as a jump. -/
inductive Edge (p : Program) : Nat → Nat → Prop
  | behind {i : Nat} {instruction : Instruction} : p[i]? = some instruction →
      (∀ value, instruction ≠ .ret value) → Edge p i (i + 1)
  | landing {i t : Nat} : p.landing? i = some t → Edge p i t

/-- A path leads from the start of the program to the place. -/
def Reachable (p : Program) (i : Nat) : Prop := ReflTransGen p.Edge 0 i

/-- A path leads from the start of the program to the place, and its instructions make of the count
what the state tells. -/
inductive Reaches (p : Program) : Nat → RegisterState → Prop
  | start : Reaches p 0 .initial
  | next {i t : Nat} {state : RegisterState} {instruction : Instruction} : Reaches p i state →
      p[i]? = some instruction → p.Edge i t → Reaches p t (state.after instruction)

theorem Edge.getElem? (h : p.Edge i t) : ∃ instruction, p[i]? = some instruction := by
  cases h with
  | behind hget _ => exact ⟨_, hget⟩
  | landing hlands =>
    obtain ⟨instruction, hget, -⟩ := Option.bind_eq_some_iff.mp hlands
    exact ⟨instruction, hget⟩

theorem landing?_eq_some_iff :
    p.landing? i = some t ↔
      ∃ on offset, p[i]? = some (.jump on offset) ∧
        (Instruction.jump on offset).landing? p.length i = some t := by
  rw [landing?, Option.bind_eq_some_iff]
  constructor
  · rintro ⟨instruction, hget, hlands⟩
    obtain ⟨on, offset, rfl, -⟩ := Instruction.landing?_eq_some_iff.mp hlands
    exact ⟨on, offset, hget, hlands⟩
  · rintro ⟨on, offset, hget, hlands⟩
    exact ⟨_, hget, hlands⟩

theorem mem_successors_of_edge (hget : p[i]? = some instruction) (h : p.Edge i t) :
    t ∈ instruction.successors p.length i := by
  cases h with
  | @behind found hget' hret =>
    obtain rfl := Option.some.inj (hget'.symm.trans hget)
    cases found with
    | ret value => exact absurd rfl (hret value)
    | load | arith | loadMod | jump | test => exact List.mem_cons_self
  | landing hlands =>
    obtain ⟨on, offset, hjump, hlands⟩ := landing?_eq_some_iff.mp hlands
    obtain rfl := Option.some.inj (hjump.symm.trans hget)
    simp [Instruction.successors, hlands]

theorem edge_of_mem_successors (hget : p[i]? = some instruction)
    (h : t ∈ instruction.successors p.length i) (ht : t < p.length) : p.Edge i t := by
  cases instruction with
  | ret value => simp [Instruction.successors] at h
  | load | arith | loadMod | test =>
    obtain rfl := List.mem_singleton.mp h
    exact .behind hget nofun
  | jump on offset =>
    rcases List.mem_pair.mp h with rfl | rfl
    · exact .behind hget nofun
    · refine .landing (landing?_eq_some_iff.mpr ⟨on, offset, hget, ?_⟩)
      cases hlands : (Instruction.jump on offset).landing? p.length i with
      | none => simp [hlands] at ht
      | some target => rw [Option.getD_some]

theorem Reaches.isKnown (h : p.Reaches i state) : state.isKnown = true := by
  induction h with
  | start => rfl
  | next _ _ _ ih => exact RegisterState.isKnown_after ih _

theorem Reaches.reachable (h : p.Reaches i state) : p.Reachable i := by
  induction h with
  | start => exact .refl
  | next _ _ hedge ih => exact .tail ih hedge

theorem reachable_iff_reaches : p.Reachable i ↔ ∃ state, p.Reaches i state := by
  refine ⟨fun h => ?_, fun ⟨_, h⟩ => h.reachable⟩
  induction h with
  | refl => exact ⟨_, .start⟩
  | tail _ hedge ih =>
    obtain ⟨state, hstate⟩ := ih
    obtain ⟨instruction, hget⟩ := hedge.getElem?
    exact ⟨_, .next hstate hget hedge⟩

/-- Paths to the place bear out the state: one leaves it behind, or two differ if it is unknown. -/
def Justifies (p : Program) (i : Nat) : RegisterState → Prop
  | .known operators => p.Reaches i (.known operators)
  | .unknown => ∃ a b, a ≠ b ∧ p.Reaches i a ∧ p.Reaches i b

theorem Reaches.justifies (h : p.Reaches i state) : p.Justifies i state := by
  cases state with
  | known operators => exact h
  | unknown => exact absurd h.isKnown (by simp [RegisterState.isKnown])

theorem Justifies.reachable (h : p.Justifies i state) : p.Reachable i := by
  cases state with
  | known operators => exact Reaches.reachable h
  | unknown =>
    obtain ⟨_, _, -, ha, -⟩ := h
    exact ha.reachable

theorem Justifies.next (h : p.Justifies i state) (hget : p[i]? = some instruction)
    (hedge : p.Edge i t) : p.Justifies t (state.after instruction) := by
  cases state with
  | known operators => exact (Reaches.next h hget hedge).justifies
  | unknown =>
    obtain ⟨a, b, hne, ha, hb⟩ := h
    cases hresets : instruction.opcode.resetsRegister with
    | true =>
      rw [← RegisterState.after_eq_of_resets hresets a]
      exact (ha.next hget hedge).justifies
    | false =>
      rw [RegisterState.after_unknown_of_keeps hresets]
      exact ⟨_, _, fun heq => hne (RegisterState.eq_of_after_eq hresets ha.isKnown hb.isKnown heq),
        ha.next hget hedge, hb.next hget hedge⟩

/-- Two different states make the register unknown. -/
theorem Justifies.merge (h : p.Justifies i state) (h' : p.Justifies i state')
    (hne : state ≠ state') :
    p.Justifies i .unknown := by
  cases state with
  | unknown => exact h
  | known operators =>
    cases state' with
    | unknown => exact h'
    | known operators' => exact ⟨_, _, hne, h, h'⟩

/-- The state is the one that all paths to the place leave behind, or unknown if two differ. -/
def MergesTo (p : Program) (i : Nat) (state : RegisterState) : Prop :=
  p.Justifies i state ∧ ∀ left, p.Reaches i left → left.Refines state

theorem MergesTo.unique (h : p.MergesTo i state) (h' : p.MergesTo i state') : state = state' := by
  obtain ⟨hjustified, hcovers⟩ := h
  obtain ⟨hjustified', hcovers'⟩ := h'
  cases state with
  | known operators =>
    rcases hcovers' _ hjustified with rfl | rfl
    · obtain ⟨a, b, hne, ha, hb⟩ := hjustified'
      rcases hcovers a ha with h | rfl
      · cases h
      rcases hcovers b hb with h | rfl
      · cases h
      · exact absurd rfl hne
    · rfl
  | unknown =>
    obtain ⟨a, b, hne, ha, hb⟩ := hjustified
    rcases hcovers' a ha with rfl | rfl
    · rfl
    rcases hcovers' b hb with rfl | rfl
    · rfl
    · exact absurd rfl hne

end Program

end PluralForms
