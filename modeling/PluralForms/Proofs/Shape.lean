import PluralForms.Proofs.Reachability
import PluralForms.Proofs.Validity

/-! The shape of programs that calculate, test and jump by turns: where the register is altered, it
is calculated with and tested next, and a jump stands behind a test. In such a program each
instruction that does not alter the register can be reached, and the removal of others keeps the
shape. -/

namespace PluralForms

/-- What an instruction is for: it starts the register anew, calculates with it, tests it, jumps or
returns. -/
inductive Kind where
  | reset | arith | test | jump | ret
  deriving DecidableEq

/-- Whether instructions of the kind write the register. -/
def Kind.alters : Kind → Bool
  | .reset | .arith => true
  | .test | .jump | .ret => false

namespace Instruction

variable {instruction : Instruction}

def kind : Instruction → Kind
  | .load _ | .loadMod _ => .reset
  | .arith _ _ => .arith
  | .test _ _ => .test
  | .jump _ _ => .jump
  | .ret _ => .ret

theorem altersRegister_eq (instruction : Instruction) :
    instruction.altersRegister = instruction.kind.alters := by
  cases instruction <;> rfl

theorem kind_eq_ret_iff : instruction.kind = .ret ↔ ∃ value, instruction = .ret value := by
  cases instruction <;> simp [kind]

theorem kind_relocate (removed : List Bool) (size index : Nat) (instruction : Instruction) :
    (Program.relocate removed size index instruction).kind = instruction.kind := by
  rw [Program.relocate]
  split
  · cases instruction <;> rfl
  · rfl

/-- An instruction that is moved with a removal does the same to the register. -/
theorem after_relocate (removed : List Bool) (size index : Nat) (state : RegisterState) :
    state.after (Program.relocate removed size index instruction) = state.after instruction := by
  rw [Program.relocate]
  split
  · cases instruction <;> rfl
  · rfl

end Instruction

namespace Program

open Relation

variable {p q : Program} {removed : List Bool} {i j t : Nat} {kind : Kind}
  {state : RegisterState} {instruction : Instruction}

/-- The kind of the instruction at an index. -/
def kind? (p : Program) (i : Nat) : Option Kind := (p[i]?).map Instruction.kind

theorem kind?_of_getElem? (h : p[i]? = some instruction) : p.kind? i = some instruction.kind := by
  rw [kind?, h, Option.map_some]

theorem kind?_eq_some_iff :
    p.kind? i = some kind ↔ ∃ instruction, p[i]? = some instruction ∧ instruction.kind = kind :=
  Option.map_eq_some_iff

theorem lt_of_kind? (h : p.kind? i = some kind) : i < p.length := by
  obtain ⟨instruction, hget, -⟩ := kind?_eq_some_iff.mp h
  exact (List.getElem?_eq_some_iff.mp hget).1

theorem kind?_of_landing (h : p.landing? i = some t) : p.kind? i = some .jump := by
  obtain ⟨on, offset, hget, -⟩ := landing?_eq_some_iff.mp h
  exact kind?_of_getElem? hget

/-- The instruction at the index writes the register. -/
def Alters (p : Program) (i : Nat) : Prop := ∃ kind, p.kind? i = some kind ∧ kind.alters = true

theorem alters_iff :
    p.Alters i ↔ ∃ instruction, p[i]? = some instruction ∧ instruction.altersRegister = true := by
  simp only [Alters, kind?_eq_some_iff, Instruction.altersRegister_eq]
  constructor
  · rintro ⟨-, ⟨instruction, hget, rfl⟩, halters⟩
    exact ⟨instruction, hget, halters⟩
  · rintro ⟨instruction, hget, halters⟩
    exact ⟨_, ⟨instruction, hget, rfl⟩, halters⟩

/-- There is an instruction at the index that does not write the register. -/
def Keeps (p : Program) (i : Nat) : Prop := ∃ kind, p.kind? i = some kind ∧ kind.alters = false

theorem Keeps.not_alters (h : p.Keeps i) : ¬p.Alters i := by
  rintro ⟨kind, hkind, halters⟩
  obtain ⟨kind', hkind', hkeeps⟩ := h
  obtain rfl := Option.some.inj (hkind.symm.trans hkind')
  simp [halters] at hkeeps

theorem keeps_iff :
    p.Keeps i ↔ ∃ instruction, p[i]? = some instruction ∧ instruction.altersRegister = false := by
  simp only [Keeps, kind?_eq_some_iff, Instruction.altersRegister_eq]
  constructor
  · rintro ⟨-, ⟨instruction, hget, rfl⟩, hkeeps⟩
    exact ⟨instruction, hget, hkeeps⟩
  · rintro ⟨instruction, hget, hkeeps⟩
    exact ⟨_, ⟨instruction, hget, rfl⟩, hkeeps⟩

theorem alters_or_keeps (h : i < p.length) : p.Alters i ∨ p.Keeps i := by
  have hkind := kind?_of_getElem? (List.getElem?_eq_getElem h)
  cases halters : p[i].kind.alters with
  | true => exact .inl ⟨_, hkind, halters⟩
  | false => exact .inr ⟨_, hkind, halters⟩

theorem Alters.lt (h : p.Alters i) : i < p.length := by
  obtain ⟨kind, hkind, -⟩ := h
  exact lt_of_kind? hkind

theorem Keeps.lt (h : p.Keeps i) : i < p.length := by
  obtain ⟨kind, hkind, -⟩ := h
  exact lt_of_kind? hkind

theorem keeps_of_landing (h : p.landing? i = some t) : p.Keeps i :=
  ⟨.jump, kind?_of_landing h, rfl⟩

theorem Alters.edge (h : p.Alters i) : p.Edge i (i + 1) := by
  obtain ⟨instruction, hget, halters⟩ := alters_iff.mp h
  refine .behind hget fun value heq => ?_
  subst heq
  cases halters

/-- Control passes on from an instruction that writes the register to the next one only. -/
theorem Alters.eq_of_edge (h : p.Alters i) (hedge : p.Edge i t) : t = i + 1 := by
  cases hedge with
  | behind => rfl
  | landing hlands => exact absurd h (keeps_of_landing hlands).not_alters

/-- Only calculations stand from the index up to a later place where a jump lands. -/
def Passed (p : Program) (i : Nat) : Prop :=
  ∃ t, i < t ∧ p.isTarget t = true ∧ ∀ u, i ≤ u → u < t → p.Alters u

theorem Passed.alters (h : p.Passed i) : p.Alters i := by
  obtain ⟨t, ht, -, hall⟩ := h
  exact hall i le_rfl ht

/-- The program calculates, tests and jumps by turns. Each jump passes over an instruction that is
no part of a calculation, and what stands behind a return is reached by another jump. -/
structure Shaped (p : Program) : Prop where
  valid : p.invalidJump? = none
  forward : p.isForward = true
  alters : ∀ {i}, p.Alters i → p.kind? (i + 1) = some .arith ∨ p.kind? (i + 1) = some .test
  jumps : ∀ {i}, p.kind? i = some .jump → ∃ j, i = j + 1 ∧ p.kind? j = some .test
  passes : ∀ {i t}, p.landing? i = some t → ∃ k, i < k ∧ k < t ∧ p.Keeps k
  lands : ∀ {i t}, p.landing? i = some t → p.kind? t ≠ some .jump
  returns : ∀ {i}, p.kind? i = some .ret → i + 1 < p.length →
    ∃ t, i < t ∧ p.isTarget t = true ∧ ∀ u, i < u → u < t → p.Alters u

namespace Shaped

theorem lt_of_alters (h : p.Shaped) (halters : p.Alters i) : i + 1 < p.length := by
  rcases h.alters halters with hnext | hnext <;> exact lt_of_kind? hnext

theorem ne_reset (h : p.Shaped) (halters : p.Alters i) : p.kind? (i + 1) ≠ some .reset := by
  rcases h.alters halters with hnext | hnext <;> simp [hnext]

theorem lt_of_landing (h : p.Shaped) (hlands : p.landing? i = some t) : i < t := by
  obtain ⟨k, hi, ht, -⟩ := h.passes hlands
  omega

/-- No jump leads to the instruction behind it only. -/
theorem not_idle (h : p.Shaped) : p.landing? i ≠ some (i + 1) := by
  intro hlands
  obtain ⟨k, hi, ht, -⟩ := h.passes hlands
  omega

/-- Where the register is started anew, control comes from an instruction that leaves it as it is.
-/
theorem keeps_of_edge (h : p.Shaped) (hedge : p.Edge i t) (hreset : p.kind? t = some .reset) :
    p.Keeps i := by
  obtain ⟨instruction, hget⟩ := hedge.getElem?
  refine (alters_or_keeps (List.getElem?_eq_some_iff.mp hget).1).resolve_left fun halters => ?_
  obtain rfl := halters.eq_of_edge hedge
  exact h.ne_reset halters hreset

/-- Control comes to a jump from the test before it. -/
theorem test_of_edge (h : p.Shaped) (hedge : p.Edge i t) (hjump : p.kind? t = some .jump) :
    t = i + 1 ∧ p.kind? i = some .test := by
  cases hedge with
  | behind hget =>
    obtain ⟨j, hj, htest⟩ := h.jumps hjump
    obtain rfl := Nat.succ.inj hj
    exact ⟨rfl, htest⟩
  | landing hlands => exact absurd hjump (h.lands hlands)

theorem reachable_of_landing (hfrom : p.Reachable i ∨ p.Passed i) (hlands : p.landing? i = some t) :
    p.Reachable t := by
  rcases hfrom with hreachable | hpassed
  · exact .tail hreachable (.landing hlands)
  · exact absurd hpassed.alters (keeps_of_landing hlands).not_alters

/-- A path leads to each instruction, unless all jumps go past it and the calculation that it is
part of. -/
theorem reachable_or_passed (h : p.Shaped) (hi : i < p.length) : p.Reachable i ∨ p.Passed i := by
  induction i using Nat.strong_induction_on with
  | _ i ih =>
    have of_target : ∀ t, i ≤ t → p.isTarget t = true → (∀ u, i ≤ u → u < t → p.Alters u) →
        p.Reachable i ∨ p.Passed i := by
      intro t hle htarget hall
      rcases Nat.lt_or_eq_of_le hle with hlt | rfl
      · exact .inr ⟨t, hlt, htarget, hall⟩
      · obtain ⟨j, hlands⟩ := isTarget_iff.mp htarget
        have hj := h.lt_of_landing hlands
        exact .inl (reachable_of_landing (ih j hj (by omega)) hlands)
    cases i with
    | zero => exact .inl .refl
    | succ i =>
      have hget := List.getElem?_eq_getElem (show i < p.length by omega)
      rcases ih i (Nat.lt_succ_self i) (by omega) with hreachable | ⟨t, ht, htarget, hall⟩
      · by_cases hret : p[i].kind = .ret
        · obtain ⟨t, ht, htarget, hall⟩ := h.returns (hret ▸ kind?_of_getElem? hget) hi
          exact of_target t ht htarget fun u hu => hall u hu
        · refine .inl (.tail hreachable (.behind hget fun value heq => hret ?_))
          rw [heq, Instruction.kind]
      · exact of_target t ht htarget fun u hu => hall u (by omega)

/-- A path leads to each instruction that does not write the register. -/
theorem reachable (h : p.Shaped) (hkeeps : p.Keeps i) : p.Reachable i :=
  (h.reachable_or_passed hkeeps.lt).resolve_right fun hpassed => hkeeps.not_alters hpassed.alters

end Shaped

/-! ### Removal -/

theorem kind?_remove (hlen : removed.length = p.length) (hkept : removed[i]? = some false) :
    (p.remove removed).kind? (place removed i) = p.kind? i := by
  rw [kind?, kind?, remove_getElem? hlen hkept, Option.map_map]
  exact Option.map_congr fun instruction _ => Instruction.kind_relocate ..

/-- An instruction after the removal is one that stays. -/
theorem exists_of_kind?_remove (hlen : removed.length = p.length)
    (h : (p.remove removed).kind? j = some kind) :
    ∃ i, removed[i]? = some false ∧ place removed i = j ∧ p.kind? i = some kind := by
  obtain ⟨i, hkept, rfl⟩ := exists_kept (length_remove hlen ▸ lt_of_kind? h)
  exact ⟨i, hkept, rfl, (kind?_remove hlen hkept).symm.trans h⟩

/-- An instruction that is no jump stays as it is. -/
theorem remove_getElem?_of_not_jump (hlen : removed.length = p.length)
    (hkept : removed[i]? = some false) (hget : p[i]? = some instruction)
    (hjump : instruction.kind ≠ .jump) :
    (p.remove removed)[place removed i]? = some instruction := by
  rw [remove_getElem? hlen hkept, hget, Option.map_some, relocate_of_not_jump]
  cases instruction with
  | jump => exact absurd rfl hjump
  | load | arith | loadMod | ret | test => rfl

/-- An instruction after the removal that is no jump stood in the program before. -/
theorem exists_of_remove_getElem? (hlen : removed.length = p.length)
    (hget : (p.remove removed)[j]? = some instruction) (hjump : instruction.kind ≠ .jump) :
    ∃ i, removed[i]? = some false ∧ place removed i = j ∧ p[i]? = some instruction := by
  obtain ⟨i, hkept, rfl, hkind⟩ := exists_of_kind?_remove hlen (kind?_of_getElem? hget)
  obtain ⟨found, hfound, hkind'⟩ := kind?_eq_some_iff.mp hkind
  rw [remove_getElem?_of_not_jump hlen hkept hfound (hkind' ▸ hjump)] at hget
  exact ⟨i, hkept, rfl, Option.some.inj hget ▸ hfound⟩

theorem lt_of_place_lt (h : place removed i < place removed j) : i < j := by
  by_contra hle
  have := (place_mono removed (Nat.le_of_not_lt hle)).1
  omega

theorem kept_of_not_gone (hlen : removed.length = p.length) (hi : i < p.length)
    (h : removed[i]? ≠ some true) : removed[i]? = some false := by
  rw [List.getElem?_eq_getElem (hlen ▸ hi)] at h ⊢
  simpa using h

/-- Only instructions that write the register are removed. -/
structure RemovesAltering (p : Program) (removed : List Bool) : Prop where
  length : removed.length = p.length
  alters : ∀ {i}, removed[i]? = some true → p.Alters i

namespace RemovesAltering

variable (h : p.RemovesAltering removed)

include h

theorem kept_of_keeps (hkeeps : p.Keeps i) : removed[i]? = some false :=
  kept_of_not_gone h.length hkeeps.lt fun hgone => hkeeps.not_alters (h.alters hgone)

theorem keeps_remove (hkeeps : p.Keeps i) : (p.remove removed).Keeps (place removed i) := by
  obtain ⟨kind, hkind, hkeep⟩ := hkeeps
  exact ⟨kind, (kind?_remove h.length (h.kept_of_keeps ⟨kind, hkind, hkeep⟩)).trans hkind, hkeep⟩

theorem kept_of_landing (hlands : p.landing? i = some t) : removed[i]? = some false :=
  h.kept_of_keeps (keeps_of_landing hlands)

theorem isTarget_remove (htarget : p.isTarget t = true) :
    (p.remove removed).isTarget (place removed t) = true := by
  obtain ⟨i, hlands⟩ := isTarget_iff.mp htarget
  exact isTarget_iff.mpr ⟨_, landing?_remove_of_kept h.length (h.kept_of_landing hlands) hlands⟩

/-- Where a calculation goes on or ends in a test, it does so after the removal. -/
theorem kind?_remove_place (hshaped : p.Shaped)
    (hnext : p.kind? t = some .arith ∨ p.kind? t = some .test) :
    (p.remove removed).kind? (place removed t) = some .arith ∨
      (p.remove removed).kind? (place removed t) = some .test := by
  have hlt : t < p.length := by
    rcases hnext with hkind | hkind <;> exact lt_of_kind? hkind
  induction hleft : p.length - t generalizing t with
  | zero => omega
  | succ left ih =>
    by_cases hgone : removed[t]? = some true
    · have hnext' := hshaped.alters (h.alters hgone)
      rw [← place_succ_of_gone hgone]
      exact ih hnext' (hshaped.lt_of_alters (h.alters hgone)) (by omega)
    · rw [kind?_remove h.length (kept_of_not_gone h.length hlt hgone)]
      exact hnext

/-- A removal of instructions that write the register keeps the shape of the program. -/
theorem shaped_remove (hshaped : p.Shaped) : (p.remove removed).Shaped where
  valid := (keepsForm_remove h.length).valid hshaped.valid
  forward := (keepsForm_remove h.length).forward hshaped.valid hshaped.forward
  alters := by
    rintro j ⟨kind, hkind, halters⟩
    obtain ⟨i, hkept, rfl, hkind'⟩ := exists_of_kind?_remove h.length hkind
    rw [← place_succ_of_kept hkept]
    exact h.kind?_remove_place hshaped (hshaped.alters ⟨kind, hkind', halters⟩)
  jumps := by
    intro j hjump
    obtain ⟨i, -, rfl, hjump'⟩ := exists_of_kind?_remove h.length hjump
    obtain ⟨k, rfl, htest⟩ := hshaped.jumps hjump'
    have hkept := h.kept_of_keeps ⟨.test, htest, rfl⟩
    exact ⟨place removed k, place_succ_of_kept hkept, (kind?_remove h.length hkept).trans htest⟩
  passes := by
    intro j t hlands
    obtain ⟨i, t, hkept, rfl, hlands', rfl⟩ :=
      exists_landing_of_remove h.length hshaped.valid hlands
    obtain ⟨k, hi, ht, hkeeps⟩ := hshaped.passes hlands'
    exact ⟨place removed k, place_lt_of_kept hkept hi,
      place_lt_of_kept (h.kept_of_keeps hkeeps) ht, h.keeps_remove hkeeps⟩
  lands := by
    intro j t hlands hjump
    obtain ⟨i, t, -, -, hlands', rfl⟩ := exists_landing_of_remove h.length hshaped.valid hlands
    by_cases hgone : removed[t]? = some true
    · rw [← place_succ_of_gone hgone] at hjump
      rcases h.kind?_remove_place hshaped (hshaped.alters (h.alters hgone)) with hnext | hnext <;>
        simp [hnext] at hjump
    · have hlt : t < p.length := lt_of_place_lt (length_remove h.length ▸ lt_of_kind? hjump)
      rw [kind?_remove h.length (kept_of_not_gone h.length hlt hgone)] at hjump
      exact hshaped.lands hlands' hjump
  returns := by
    intro j hret hj
    obtain ⟨i, hkept, rfl, hret'⟩ := exists_of_kind?_remove h.length hret
    rw [← place_succ_of_kept hkept, length_remove h.length] at hj
    obtain ⟨t, ht, htarget, hall⟩ := hshaped.returns hret' (lt_of_place_lt hj)
    refine ⟨place removed t, place_lt_of_kept hkept ht, h.isTarget_remove htarget,
      fun u hu hu' => ?_⟩
    obtain ⟨k, hkept', rfl⟩ := exists_kept hu'
    obtain ⟨kind, hkind, halters⟩ := hall k (lt_of_place_lt hu) (lt_of_place_lt hu')
    exact ⟨kind, (kind?_remove h.length hkept').trans hkind, halters⟩

end RemovesAltering

end Program

end PluralForms
