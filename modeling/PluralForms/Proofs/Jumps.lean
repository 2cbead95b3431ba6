import PluralForms.Proofs.Passes

/-! The passes that aim jumps anew keep the meaning of a program and make no run of it longer. Where
the old program takes a chain of jumps, or a jump and the loads past which the new one goes, the new
program takes a single step. -/

namespace PluralForms.Machine

open Relation Program Analysis

variable {p q : Program} {n : Int64} {s : State}

/-! ### Chains of jumps -/

/-- A run that comes to `target` goes on over jumps to the place where it comes to rest. -/
theorem steps_settle {on : Bool} {fuel target place : Nat} {r : Int64}
    (h : settle? p.toArray on fuel target = some place) (hle : target ≤ p.length) :
    place ≤ p.length ∧ ReflTransGen (system p n).Next ⟨target, r, on⟩ ⟨place, r, on⟩ := by
  induction fuel generalizing target with
  | zero => simp [settle?] at h
  | succ fuel ih =>
    simp only [settle?, List.getElem?_toArray, List.size_toArray] at h
    split at h
    · next other offset hinst =>
      have hstep := step_jump (n := n) (s := ⟨target, r, on⟩) hinst
      split at h
      · next heq =>
        subst heq
        obtain ⟨first, hfirst, hsettle⟩ := Option.bind_eq_some_iff.mp h
        obtain ⟨hplace, hsteps⟩ := ih hsettle (Instruction.landing?_le hfirst)
        rw [if_pos rfl, Instruction.jumpIndex_of_landing hfirst] at hstep
        exact ⟨hplace, .head (next_iff.mpr hstep) hsteps⟩
      · next hne =>
        obtain ⟨hplace, hsteps⟩ := ih h (List.getElem?_eq_some_iff.mp hinst).1
        rw [if_neg (Ne.symm hne)] at hstep
        exact ⟨hplace, .head (next_iff.mpr hstep) hsteps⟩
    · obtain rfl := Option.some.inj h
      exact ⟨hle, .refl⟩

/-- A jump with a shortcut, the place where it lands, and the place where it ends up. -/
theorem shortcut?_eq_some {index place : Nat} (h : shortcut? p.toArray index = some place) :
    ∃ on offset first, p[index]? = some (.jump on offset) ∧
      (Instruction.jump on offset).landing? p.length index = some first ∧
      settle? p.toArray on (p.length + 1) first = some place := by
  simp only [shortcut?, List.getElem?_toArray, List.size_toArray, Option.bind_eq_bind] at h
  split at h
  · next on offset hinst =>
    obtain ⟨first, hfirst, hfilter⟩ := Option.bind_eq_some_iff.mp h
    exact ⟨on, offset, first, hinst, hfirst, (Option.filter_eq_some_iff.mp hfilter).1⟩
  · simp at h

theorem improvedBy_shortcut {index place : Nat} (h : shortcut? p.toArray index = some place) :
    p.ImprovedBy (p.modify index (Instruction.aim index place)) := by
  obtain ⟨on, offset, first, hinst, hfirst, hsettle⟩ := shortcut?_eq_some h
  have hlen : (p.modify index (Instruction.aim index place)).length = p.length :=
    List.length_modify ..
  refine .of_follows fun n => ⟨fun _ => True, id, ⟨trivial, rfl⟩, fun s _ => ?_⟩
  by_cases hindex : s.index = index
  · subst hindex
    have hnew : (p.modify s.index (Instruction.aim s.index place))[s.index]? =
        some ((Instruction.jump on offset).aim s.index place) := by
      simp [hinst]
    obtain ⟨hplace, hsteps⟩ :=
      steps_settle (n := n) (r := s.register) hsettle (Instruction.landing?_le hfirst)
    have hstep := step_aim (n := n) hnew (hlen.symm ▸ hplace)
    have hold := step_jump (n := n) hinst
    rw [Instruction.jumpIndex_of_landing hfirst] at hold
    obtain ⟨i, r, status⟩ := s
    by_cases hs : status = on
    · subst hs
      refine .inr ⟨⟨place, r, status⟩, ?_, trivial, .inl (by simpa using hstep)⟩
      exact .head' (next_iff.mpr hold) (by simpa using hsteps)
    · simp only [hs, if_false] at hstep hold
      exact .inr ⟨_, .single (next_iff.mpr hold), trivial, .inl hstep⟩
  · have hsame : step (p.modify index (Instruction.aim index place)) n s = step p n s :=
      step_congr hlen (by simp [Ne.symm hindex])
    cases hp : step p n s with
    | done v =>
      exact .inl ⟨v, rfl, hsame.trans hp, fun hlt => hlen ▸ hlt⟩
    | next s' => exact .inr ⟨s', .single (next_iff.mpr hp), trivial, .inl (hsame.trans hp)⟩

/-- What `collapseJumps` does for the jump at one index. -/
def collapseAt : Array Instruction × Nat → Nat → Array Instruction × Nat
  | (code, count), index =>
    match shortcut? code index with
    | some target => (code.modify index (Instruction.aim index target), count + 1)
    | none => (code, count)

/-- What holds between a program and the same with one jump aimed at the place where it ends up,
holds of the whole pass. -/
theorem collapseJumps_related {R : Program → Program → Prop} (refl : ∀ p, R p p)
    (trans : ∀ {p q r}, R p q → R q r → R p r)
    (shortcut : ∀ {p : Program} {index place : Nat}, shortcut? p.toArray index = some place →
      R p (p.modify index (Instruction.aim index place)))
    (p : Program) : R p p.collapseJumps.1 := by
  have related_collapseAt (search : Array Instruction × Nat) (index : Nat) :
      R search.1.toList (collapseAt search index).1.toList := by
    obtain ⟨code, count⟩ := search
    simp only [collapseAt]
    cases hs : shortcut? code index with
    | none => exact refl _
    | some place =>
      simp only [Array.toList_modify]
      exact shortcut (by simpa using hs)
  have related_foldl (indices : List Nat) (search : Array Instruction × Nat) :
      R search.1.toList (indices.foldl collapseAt search).1.toList := by
    induction indices generalizing search with
    | nil => exact refl _
    | cons index indices ih => exact trans (related_collapseAt search index) (ih _)
  exact related_foldl (List.range p.length) (p.toArray, 0)

theorem improvedBy_collapseJumps (p : Program) : p.ImprovedBy p.collapseJumps.1 :=
  collapseJumps_related .refl .trans improvedBy_shortcut p

theorem equivalent_collapseJumps (p : Program) : p.Equivalent p.collapseJumps.1 :=
  (improvedBy_collapseJumps p).equivalent

/-! ### Jumps past loads -/

theorem pastLoads?_eq_some {instruction : Instruction} {index place : Nat}
    (h : pastLoads? p p.length (Analysis.of p) instruction index = some place) :
    ∃ on offset target state length, instruction = .jump on offset ∧
      instruction.landing? p.length index = some target ∧
      (Analysis.of p).state? index = some state ∧
      state.redundantLength? ((p.drop target).takeWhile (·.altersRegister)) = some length ∧
      place = target + length := by
  simp only [pastLoads?, Option.bind_eq_bind, Option.pure_def, Option.bind_eq_some_iff,
    Option.some.injEq] at h
  obtain ⟨target, htarget, state, hstate, length, hlength, rfl⟩ := h
  obtain ⟨on, offset, hjump, -, -⟩ := Instruction.landing?_eq_some_iff.mp htarget
  exact ⟨on, offset, target, state, length, hjump, htarget, hstate, hlength, rfl⟩

theorem improvedBy_elideLoads (p : Program) : p.ImprovedBy p.elideLoads.1 := by
  obtain ⟨elided, helided⟩ : ∃ elided, elided = p.elideLoads.1 := ⟨_, rfl⟩
  have hlen : elided.length = p.length := by
    rw [helided, elideLoads, List.length_mapIdx]
  have hget : ∀ i : Nat, elided[i]? = (p[i]?).map fun instruction =>
      match pastLoads? p p.length (Analysis.of p) instruction i with
      | some place => instruction.aim i place
      | none => instruction := by
    intro i
    rw [helided]
    exact List.getElem?_mapIdx
  rw [← helided]
  refine .of_follows fun n => ⟨Sound p n, id, ⟨sound_start p n, rfl⟩, fun s hs => ?_⟩
  have same (hsame : step elided n s = step p n s) :
      (∃ v, step p n s = .done v ∧ step elided n s = .done v ∧
        (s.index < elided.length → s.index < p.length)) ∨
      ∃ s', TransGen (system p n).Next s s' ∧ Sound p n s' ∧
        (step elided n s = .next s' ∨ s = s' ∧ s.index < s'.index) := by
    cases hp : step p n s with
    | done v => exact .inl ⟨v, rfl, hsame.trans hp, fun hlt => hlen ▸ hlt⟩
    | next s' =>
      have hn := next_iff.mpr hp
      exact .inr ⟨s', .single hn, sound_next hs hn, .inl (hsame.trans hp)⟩
  cases hinst : p[s.index]? with
  | none => exact same (step_congr hlen (by rw [hget, hinst]; rfl))
  | some instruction =>
    cases hpast : pastLoads? p p.length (Analysis.of p) instruction s.index with
    | none => exact same (step_congr hlen (by simp [hget, hinst, hpast]))
    | some place =>
      obtain ⟨on, offset, target, state, length, rfl, htarget, hstate, hlength, rfl⟩ :=
        pastLoads?_eq_some hpast
      obtain ⟨state', hstate', hd⟩ := hs (List.getElem?_eq_some_iff.mp hinst).1
      obtain rfl := Option.some.inj (hstate.symm.trans hstate')
      have hnew : elided[s.index]? =
          some ((Instruction.jump on offset).aim s.index (target + length)) := by
        simp [hget, hinst, hpast]
      obtain ⟨hsteps, hplace⟩ := steps_redundant (p := p) (s := { s with index := target })
        hlength hd (List.all_eq_true.mp List.all_takeWhile) (List.takeWhile_prefix _)
      have hstep := step_aim (n := n) hnew (hlen.symm ▸ hplace)
      have hold := step_jump (n := n) hinst
      rw [Instruction.jumpIndex_of_landing htarget] at hold
      by_cases hon : s.status = on
      · simp only [hon, if_true] at hstep hold
        have hall := TransGen.head (next_iff.mpr (hold)) (by simpa [hon] using hsteps)
        exact .inr ⟨_, hall, sound_steps hs hall.to_reflTransGen, .inl hstep⟩
      · simp only [hon, if_false] at hstep hold
        have hn := next_iff.mpr hold
        exact .inr ⟨_, .single hn, sound_next hs hn, .inl hstep⟩

theorem equivalent_elideLoads (p : Program) : p.Equivalent p.elideLoads.1 :=
  (improvedBy_elideLoads p).equivalent

end PluralForms.Machine
