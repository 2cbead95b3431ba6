import Mathlib.Algebra.Order.BigOperators.Group.Finset
import PluralForms.Proofs.Reachability
import PluralForms.Proofs.Validity

/-! The potential of a program, and what the passes do to it. Each counted change removes an
instruction or aims a jump of a program whose jumps go forward nearer to the end, so the length of
the program and the distances of its landings from the end together fall; and a pass that counts no
change leaves the program as it is. -/

namespace PluralForms

open Finset

namespace Instruction

variable {instruction : Instruction} {size index target : Nat}

/-- A jump that is aimed at the place where it lands is the same jump. -/
theorem aim_of_landing (h : instruction.landing? size index = some target) :
    instruction.aim index target = instruction := by
  obtain ⟨on, offset, rfl, hplace, -⟩ := landing?_eq_some_iff.mp h
  rw [aim, withOffset, ← hplace, add_sub_cancel_left]

end Instruction

namespace Program

variable {p q r : Program} {removed : List Bool} {i j t : Nat} {changes : Nat}

/-! ### Removals and counts -/

theorem place_of_kept (h : ∀ j < i, removed[j]? = some false) : place removed i = i := by
  induction i with
  | zero => exact place_zero removed
  | succ i ih =>
    rw [place_succ_of_kept (h i (Nat.lt_succ_self i)), ih fun j hj => h j (Nat.lt_succ_of_lt hj)]

/-- A program from which nothing is removed stays as it is. -/
theorem remove_eq_self (hlen : removed.length = p.length)
    (h : ∀ i < p.length, removed[i]? = some false) : p.remove removed = p := by
  have hplace : ∀ i ≤ p.length, place removed i = i := fun i hi =>
    place_of_kept fun j hj => h j (by omega)
  refine List.ext_getElem? fun i => ?_
  by_cases hi : i < p.length
  · have hget := remove_getElem? hlen (h i hi)
    rw [hplace i hi.le] at hget
    rw [hget, List.getElem?_eq_getElem hi, Option.map_some, relocate]
    cases hlands : p[i].landing? p.length i with
    | none => rfl
    | some target =>
      simp only [hplace i hi.le, hplace target (Instruction.landing?_le hlands),
        Instruction.aim_of_landing hlands]
  · have hlength : (p.remove removed).length = p.length := by
      rw [length_remove hlen, hplace _ le_rfl]
    rw [List.getElem?_eq_none (by omega), List.getElem?_eq_none (by omega)]

theorem removeWhere_eq_self {gone : Instruction → Nat → Bool}
    (h : ∀ i instruction, p[i]? = some instruction → gone instruction i = false) :
    p.removeWhere gone = p := by
  rw [removeWhere_eq]
  refine remove_eq_self (length_marks gone) fun i hi => ?_
  have hget := List.getElem?_eq_getElem hi
  rw [marks_getElem?, hget, Option.map_some, h i _ hget]

theorem countWhere_pos_iff {holds : Instruction → Nat → Bool} :
    0 < p.countWhere holds ↔ ∃ i instruction, p[i]? = some instruction ∧
      holds instruction i = true := by
  simp only [countWhere, List.countP_pos_iff, Prod.exists, List.mk_mem_zipIdx_iff_getElem?]
  exact exists_comm

theorem countWhere_eq_zero {holds : Instruction → Nat → Bool}
    (h : ∀ (i : Nat) instruction, p[i]? = some instruction → holds instruction i = false) :
    p.countWhere holds = 0 := by
  refine Nat.eq_zero_of_not_pos fun hpos => ?_
  obtain ⟨i, instruction, hget, hholds⟩ := countWhere_pos_iff.mp hpos
  rw [h i instruction hget] at hholds
  cases hholds

theorem eq_false_of_countWhere {holds : Instruction → Nat → Bool} (h : p.countWhere holds = 0)
    (i : Nat) (instruction : Instruction) (hget : p[i]? = some instruction) :
    holds instruction i = false := by
  by_contra hne
  have hpos := countWhere_pos_iff.mpr ⟨i, instruction, hget, Bool.of_not_eq_false hne⟩
  omega

/-! ### The potential -/

/-- How far before the end of the program the jump at the index lands. -/
def distance (p : Program) (i : Nat) : Nat := ((p.landing? i).map (p.length - ·)).getD 0

/-- How much the passes can still take from the program: its instructions, and the distances of its
landings from the end. -/
def potential (p : Program) : Nat := p.length + ∑ i ∈ range p.length, p.distance i

theorem distance_of_landing (h : p.landing? i = some t) : p.distance i = p.length - t := by
  rw [distance, h, Option.map_some, Option.getD_some]

theorem distance_of_none (h : p.landing? i = none) : p.distance i = 0 := by
  rw [distance, h, Option.map_none, Option.getD_none]

theorem distance_le (p : Program) (i : Nat) : p.distance i ≤ p.length := by
  cases h : p.landing? i with
  | none => exact (distance_of_none h).le.trans (Nat.zero_le _)
  | some t => exact (distance_of_landing h).le.trans (Nat.sub_le _ _)

theorem potential_le (p : Program) : p.potential ≤ p.length * p.length + p.length := by
  have hsum : ∑ i ∈ range p.length, p.distance i ≤ ∑ i ∈ range p.length, p.length :=
    sum_le_sum fun i _ => p.distance_le i
  rw [sum_const_nat fun _ _ => rfl, card_range] at hsum
  rw [potential]
  omega

/-- The second program has the jump at the index aimed at a later place. -/
def AimedLater (p q : Program) (i : Nat) : Prop :=
  ∃ t place, p.landing? i = some t ∧ q.landing? i = some place ∧ t < place

theorem AimedLater.distance_lt (hlen : q.length = p.length) (h : p.AimedLater q i) :
    q.distance i < p.distance i := by
  obtain ⟨t, place, hlands, hplace, hlater⟩ := h
  obtain ⟨_, _, -, hinside⟩ := landing?_eq_some_iff.mp hplace
  have hle := Instruction.landing?_le hinside
  rw [distance_of_landing hlands, distance_of_landing hplace]
  omega

/-- Where some jumps are aimed at later places, and the others land as before, the potential
falls. -/
theorem potential_lt_of_aimedLater (hlen : q.length = p.length)
    (hall : ∀ i < p.length, q.landing? i = p.landing? i ∨ p.AimedLater q i)
    (hsome : ∃ i < p.length, p.AimedLater q i) : q.potential < p.potential := by
  obtain ⟨i, hi, hlater⟩ := hsome
  rw [potential, potential, hlen]
  refine Nat.add_lt_add_left (sum_lt_sum (fun j hj => ?_)
    ⟨i, mem_range.mpr hi, hlater.distance_lt hlen⟩) _
  rcases hall j (mem_range.mp hj) with hsame | hlater
  · rw [distance, distance, hsame, hlen]
  · exact (hlater.distance_lt hlen).le

theorem potential_eq_of_landing (hlen : q.length = p.length)
    (h : ∀ i, q.landing? i = p.landing? i) : q.potential = p.potential := by
  simp only [potential, distance, hlen, h]

/-- An instruction that stays is no jump that lands farther from the end. -/
theorem distance_remove_le (hlen : removed.length = p.length) (hvalid : p.invalidJump? = none)
    (hkept : removed[i]? = some false) :
    (p.remove removed).distance (place removed i) ≤ p.distance i := by
  cases hnew : (p.remove removed).landing? (place removed i) with
  | none => exact (distance_of_none hnew).le.trans (Nat.zero_le _)
  | some t =>
    obtain ⟨i', t', hkept', hplace, hlands, rfl⟩ := exists_landing_of_remove hlen hvalid hnew
    obtain rfl := eq_of_place_eq hkept' hkept hplace
    obtain ⟨_, _, -, hinside⟩ := landing?_eq_some_iff.mp hlands
    have hmono := place_mono removed (Instruction.landing?_le hinside)
    rw [distance_of_landing hlands, distance_of_landing hnew, length_remove hlen]
    omega

/-- The landings of the instructions that stay are the only ones after a removal. -/
theorem sum_distance_remove_le (hlen : removed.length = p.length)
    (hvalid : p.invalidJump? = none) :
    ∑ j ∈ range (p.remove removed).length, (p.remove removed).distance j ≤
      ∑ i ∈ range p.length, p.distance i := by
  let kept := (range p.length).filter fun i => removed[i]? = some false
  have himage : range (p.remove removed).length = kept.image (place removed) := by
    ext j
    simp only [kept, mem_range, mem_image, mem_filter, length_remove hlen]
    constructor
    · intro hj
      obtain ⟨i, hkept, rfl⟩ := exists_kept hj
      exact ⟨i, ⟨hlen ▸ (List.getElem?_eq_some_iff.mp hkept).1, hkept⟩, rfl⟩
    · rintro ⟨i, ⟨hi, hkept⟩, rfl⟩
      exact place_lt_of_kept hkept hi
  have hinjective : Set.InjOn (place removed) kept := by
    intro i hi j hj hij
    exact eq_of_place_eq (mem_filter.mp hi).2 (mem_filter.mp hj).2 hij
  rw [himage, sum_image hinjective]
  calc ∑ i ∈ kept, (p.remove removed).distance (place removed i)
      ≤ ∑ i ∈ kept, p.distance i :=
        sum_le_sum fun i hi => distance_remove_le hlen hvalid (mem_filter.mp hi).2
    _ ≤ ∑ i ∈ range p.length, p.distance i :=
        sum_le_sum_of_subset (filter_subset _ _)

theorem potential_remove_lt (hlen : removed.length = p.length) (hvalid : p.invalidJump? = none)
    (hgone : removed[i]? = some true) : (p.remove removed).potential < p.potential := by
  have hi : i < p.length := hlen ▸ (List.getElem?_eq_some_iff.mp hgone).1
  have hle := place_le removed i
  have hmono := (place_mono removed (show i + 1 ≤ p.length from hi)).2
  have hsum := sum_distance_remove_le hlen hvalid
  rw [place_succ_of_gone hgone] at hmono
  rw [potential, potential]
  have hlength := length_remove hlen
  omega

theorem potential_removeWhere_lt {gone : Instruction → Nat → Bool} {instruction : Instruction}
    (hvalid : p.invalidJump? = none) (hget : p[i]? = some instruction)
    (hgone : gone instruction i = true) : (p.removeWhere gone).potential < p.potential := by
  have hmark : (p.marks gone)[i]? = some true := by
    rw [marks_getElem?, hget, Option.map_some, hgone]
  exact potential_remove_lt (length_marks gone) hvalid hmark

/-! ### Counted changes -/

/-- What a pass makes of a program with a number of counted changes. The program keeps its form, it
is the same if there is no change, and otherwise it has less potential if its jumps go forward. -/
structure Lowers (p q : Program) (changes : Nat) : Prop where
  keeps : p.KeepsForm q
  same : changes = 0 → q = p
  lower : p.invalidJump? = none → p.isForward = true → 0 < changes → q.potential < p.potential

namespace Lowers

variable {more : Nat}

theorem refl (p : Program) : p.Lowers p 0 :=
  ⟨.refl p, fun _ => rfl, fun _ _ h => absurd h (Nat.lt_irrefl 0)⟩

/-- A pass that counts no change returns the program. -/
theorem pair_eq {outcome : Program × Nat} (h : p.Lowers outcome.1 outcome.2)
    (hzero : outcome.2 = 0) : outcome = (p, 0) :=
  Prod.ext (h.same hzero) hzero

theorem le (h : p.Lowers q changes) (hvalid : p.invalidJump? = none)
    (hforward : p.isForward = true) : q.potential ≤ p.potential := by
  rcases Nat.eq_zero_or_pos changes with hzero | hpos
  · rw [h.same hzero]
  · exact (h.lower hvalid hforward hpos).le

theorem trans (hpq : p.Lowers q changes) (hqr : q.Lowers r more) :
    p.Lowers r (changes + more) where
  keeps := hpq.keeps.trans hqr.keeps
  same hzero := (hqr.same (Nat.eq_zero_of_add_eq_zero_left hzero)).trans
    (hpq.same (Nat.eq_zero_of_add_eq_zero_right hzero))
  lower hvalid hforward hpos := by
    have hvalid' := hpq.keeps.valid hvalid
    have hforward' := hpq.keeps.forward hvalid hforward
    have hle := hpq.le hvalid hforward
    have hle' := hqr.le hvalid' hforward'
    rcases Nat.eq_zero_or_pos changes with hzero | hpos'
    · exact (hqr.lower hvalid' hforward' (by omega)).trans_le hle
    · exact hle'.trans_lt (hpq.lower hvalid hforward hpos')

/-- A removal that counts what it removes, or at least tells whether it removes anything. -/
theorem of_removeWhere {gone : Instruction → Nat → Bool}
    (h : 0 < changes ↔ ∃ i instruction, p[i]? = some instruction ∧ gone instruction i = true) :
    p.Lowers (p.removeWhere gone) changes where
  keeps := keepsForm_removeWhere gone
  same hzero := removeWhere_eq_self fun i instruction hget => by
    by_contra hne
    have hpos := h.mpr ⟨i, instruction, hget, Bool.of_not_eq_false hne⟩
    omega
  lower hvalid _ hpos := by
    obtain ⟨i, instruction, hget, hgone⟩ := h.mp hpos
    exact potential_removeWhere_lt hvalid hget hgone

end Lowers

/-! ### The passes -/

theorem lowers_eliminatePrefixes (p : Program) :
    p.Lowers p.eliminatePrefixes.1 p.eliminatePrefixes.2 := by
  simp only [eliminatePrefixes]
  refine .of_removeWhere ?_
  simp only [List.length_pos_iff_exists_mem, Prod.exists, List.any_eq_true, Bool.and_eq_true,
    decide_eq_true_eq]
  constructor
  · rintro ⟨start, length, hmem⟩
    have hcut : Machine.Cut p start length := Machine.cut_of_mem_prefixes rfl (by simp) hmem
    obtain ⟨state, run, -, hlength, hrun, -, -⟩ := hcut.spec
    have hpos := RegisterState.redundantLength?_pos hlength
    obtain ⟨instruction, hget, -⟩ := (hcut.getElem? le_rfl (by omega)).1
    exact ⟨start, instruction, hget, start, length, hmem, le_rfl, by omega⟩
  · rintro ⟨-, -, -, start, length, hmem, -⟩
    exact ⟨start, length, hmem⟩

theorem lowers_eliminateLoads (p : Program) :
    p.Lowers p.eliminateLoads.1 p.eliminateLoads.2 := by
  simp only [eliminateLoads]
  exact .of_removeWhere countWhere_pos_iff

theorem lowers_removeLeadingLoad (p : Program) :
    p.Lowers p.removeLeadingLoad.1 p.removeLeadingLoad.2 := by
  simp only [removeLeadingLoad]
  split
  · next unused rest =>
    split
    · dsimp only
      exact .of_removeWhere
        ⟨fun _ => ⟨0, .load unused, rfl, decide_eq_true rfl⟩, fun _ => Nat.one_pos⟩
    · exact .refl _
  · exact .refl _

theorem lowers_eliminateDead (p : Program) :
    p.Lowers p.eliminateDead.1 (p.eliminateDead.2.dead + p.eliminateDead.2.idle) := by
  simp only [eliminateDead]
  refine .of_removeWhere ?_
  rw [Nat.add_pos_iff_pos_or_pos, countWhere_pos_iff, countWhere_pos_iff]
  simp only [← exists_or, ← and_or_left, Bool.or_eq_true]

/-! ### Remainders -/

/-- The program with the first instruction of each remainder that is fused in its new form. -/
def fused (p : Program) : Program :=
  p.mapIdx fun index instruction =>
    ((fusible? p.toArray (Analysis.of p) index).map Instruction.loadMod).getD instruction

theorem fuseMods_eq (p : Program) :
    p.fuseMods.1 = p.fused.removeWhere fun _ index =>
      index != 0 && (fusible? p.toArray (Analysis.of p) (index - 1)).isSome := rfl

theorem length_fused (p : Program) : p.fused.length = p.length := List.length_mapIdx ..

theorem fused_getElem?_of_fusible {operand : Int64}
    (h : fusible? p.toArray (Analysis.of p) i = some operand) :
    p.fused[i]? = some (.loadMod operand) := by
  obtain ⟨unused, hload, -, -⟩ := Machine.fusible?_eq_some h
  rw [fused, List.getElem?_mapIdx, hload, h]
  rfl

theorem fused_getElem?_of_none (h : fusible? p.toArray (Analysis.of p) i = none) :
    p.fused[i]? = p[i]? := by
  rw [fused, List.getElem?_mapIdx, h]
  exact Option.map_id_apply

theorem landing?_fused (p : Program) (i : Nat) : p.fused.landing? i = p.landing? i := by
  rw [landing?, landing?, length_fused]
  cases hf : fusible? p.toArray (Analysis.of p) i with
  | none => rw [fused_getElem?_of_none hf]
  | some operand =>
    obtain ⟨unused, hload, -, -⟩ := Machine.fusible?_eq_some hf
    rw [fused_getElem?_of_fusible hf, hload]
    rfl

theorem invalidJump?_fused (hvalid : p.invalidJump? = none) : p.fused.invalidJump? = none := by
  rw [invalidJump?_eq_none_iff] at hvalid ⊢
  intro i on offset hget
  cases hf : fusible? p.toArray (Analysis.of p) i with
  | none =>
    rw [fused_getElem?_of_none hf] at hget
    rw [length_fused]
    exact hvalid i on offset hget
  | some operand =>
    rw [fused_getElem?_of_fusible hf] at hget
    cases hget

theorem isForward_fused (hforward : p.isForward = true) : p.fused.isForward = true := by
  rw [isForward_iff] at hforward ⊢
  intro i on offset hget
  cases hf : fusible? p.toArray (Analysis.of p) i with
  | none =>
    rw [fused_getElem?_of_none hf] at hget
    exact hforward i on offset hget
  | some operand =>
    rw [fused_getElem?_of_fusible hf] at hget
    cases hget

/-- The landings are the same where a load and a remainder become one instruction, and then the
second of the two goes. -/
theorem lowers_fuseMods (p : Program) : p.Lowers p.fuseMods.1 p.fuseMods.2 := by
  have hkeeps := keepsForm_fuseMods p
  rw [fuseMods_eq] at hkeeps ⊢
  simp only [fuseMods]
  refine ⟨hkeeps, fun hzero => ?_, fun hvalid _ hpos => ?_⟩
  · have hnone : ∀ i, fusible? p.toArray (Analysis.of p) i = none := by
      intro i
      by_contra hne
      obtain ⟨operand, hsome⟩ := Option.ne_none_iff_exists'.mp hne
      obtain ⟨unused, hload, -, -⟩ := Machine.fusible?_eq_some hsome
      have hfalse := eq_false_of_countWhere hzero i _ hload
      simp [hsome] at hfalse
    have hsame : p.fused = p := List.ext_getElem? fun i => fused_getElem?_of_none (hnone i)
    rw [hsame]
    exact removeWhere_eq_self fun i instruction _ => by simp [hnone]
  · obtain ⟨i, instruction, hinst, hisSome⟩ := countWhere_pos_iff.mp hpos
    obtain ⟨operand, hsome⟩ := Option.isSome_iff_exists.mp hisSome
    obtain ⟨unused, hload, hmod, -⟩ := Machine.fusible?_eq_some hsome
    have hlt : i + 1 < p.fused.length :=
      p.length_fused.symm ▸ (List.getElem?_eq_some_iff.mp hmod).1
    have hgone : (i + 1 != 0 &&
        (fusible? p.toArray (Analysis.of p) (i + 1 - 1)).isSome) = true := by
      simp [hsome]
    calc (p.fused.removeWhere _).potential < p.fused.potential :=
          potential_removeWhere_lt (invalidJump?_fused hvalid) (List.getElem?_eq_getElem hlt) hgone
      _ = p.potential := potential_eq_of_landing p.length_fused p.landing?_fused

/-! ### Jumps -/

/-- A place where a jump ends up is not the one where it lands. -/
theorem ne_of_shortcut {on : Bool} {offset : Int} {first place : Nat}
    (h : shortcut? p.toArray i = some place) (hget : p[i]? = some (.jump on offset))
    (hfirst : (Instruction.jump on offset).landing? p.length i = some first) : place ≠ first := by
  simp only [shortcut?, List.getElem?_toArray, List.size_toArray, hget, hfirst, Option.bind_eq_bind,
    Option.bind_some, Option.filter_eq_some_iff, decide_eq_true_eq] at h
  exact h.2

theorem lowers_shortcut {place : Nat} (h : shortcut? p.toArray i = some place) :
    p.Lowers (p.modify i (Instruction.aim i place)) 1 := by
  refine ⟨keepsForm_shortcut h, fun hzero => absurd hzero Nat.one_ne_zero,
    fun hvalid hforward _ => ?_⟩
  obtain ⟨on, offset, first, hget, hfirst, hsettle⟩ := Machine.shortcut?_eq_some h
  have hfirstLe := Instruction.landing?_le hfirst
  obtain ⟨hplace, hsteps⟩ := Machine.steps_settle (n := 0) (r := 0) hsettle hfirstLe
  have hle : first ≤ place := Machine.index_le_of_steps hforward hvalid hsteps
  have hne := ne_of_shortcut h hget hfirst
  have hlen : (p.modify i (Instruction.aim i place)).length = p.length := List.length_modify ..
  have hlater : p.AimedLater (p.modify i (Instruction.aim i place)) i := by
    refine ⟨first, place, landing?_eq_some_iff.mpr ⟨on, offset, hget, hfirst⟩, ?_, by omega⟩
    rw [landing?, hlen, List.getElem?_modify_eq, hget]
    exact Instruction.landing?_aim on offset hplace
  refine potential_lt_of_aimedLater hlen (fun j _ => ?_)
    ⟨i, (List.getElem?_eq_some_iff.mp hget).1, hlater⟩
  by_cases hji : j = i
  · exact .inr (hji ▸ hlater)
  · refine .inl ?_
    rw [landing?, landing?, hlen, List.getElem?_modify_ne _ _ (Ne.symm hji)]

theorem lowers_collapseJumps (p : Program) :
    p.Lowers p.collapseJumps.1 p.collapseJumps.2 := by
  have lowers_foldl : ∀ (indices : List Nat) (search : Array Instruction × Nat),
      ∃ changes, (indices.foldl Machine.collapseAt search).2 = search.2 + changes ∧
        Lowers search.1.toList (indices.foldl Machine.collapseAt search).1.toList changes := by
    intro indices
    induction indices with
    | nil => exact fun search => ⟨0, rfl, .refl _⟩
    | cons index indices ih =>
      intro ⟨code, count⟩
      rw [List.foldl_cons, Machine.collapseAt]
      cases hs : shortcut? code index with
      | none => exact ih (code, count)
      | some place =>
        obtain ⟨changes, hcount, hlowers⟩ :=
          ih (code.modify index (Instruction.aim index place), count + 1)
        rw [Array.toList_modify] at hlowers
        have hshortcut : shortcut? code.toList.toArray index = some place := by simpa using hs
        exact ⟨1 + changes, by rw [hcount]; omega, (lowers_shortcut hshortcut).trans hlowers⟩
  obtain ⟨changes, hcount, hlowers⟩ := lowers_foldl (List.range p.length) (p.toArray, 0)
  rw [Nat.zero_add] at hcount
  exact hcount ▸ hlowers

theorem length_elideLoads (p : Program) : p.elideLoads.1.length = p.length :=
  List.length_mapIdx ..

theorem elideLoads_getElem? (p : Program) (i : Nat) :
    p.elideLoads.1[i]? = (p[i]?).map fun instruction =>
      match pastLoads? p p.length (Analysis.of p) instruction i with
      | some place => instruction.aim i place
      | none => instruction := by
  rw [elideLoads]
  exact List.getElem?_mapIdx

theorem elideLoads_getElem?_of_none (h : ∀ instruction, p[i]? = some instruction →
    pastLoads? p p.length (Analysis.of p) instruction i = none) :
    p.elideLoads.1[i]? = p[i]? := by
  rw [elideLoads_getElem?]
  cases hget : p[i]? with
  | none => rfl
  | some instruction => rw [Option.map_some, h instruction hget]

theorem landing?_elideLoads_of_none (h : ∀ instruction, p[i]? = some instruction →
    pastLoads? p p.length (Analysis.of p) instruction i = none) :
    p.elideLoads.1.landing? i = p.landing? i := by
  rw [landing?, landing?, length_elideLoads, elideLoads_getElem?_of_none h]

/-- A jump past loads lands behind them. -/
theorem landing?_elideLoads_of_some {instruction : Instruction} {place : Nat}
    (hget : p[i]? = some instruction)
    (hpast : pastLoads? p p.length (Analysis.of p) instruction i = some place) :
    p.elideLoads.1.landing? i = some place := by
  obtain ⟨on, offset, t, state, length, rfl, hlands, -, hlength, rfl⟩ :=
    Machine.pastLoads?_eq_some hpast
  have hle := RegisterState.redundantLength?_le hlength
  have hrun := (List.takeWhile_prefix (l := p.drop t) (·.altersRegister)).length_le
  have hend := Instruction.landing?_le hlands
  rw [List.length_drop] at hrun
  rw [landing?, elideLoads_getElem?, hget, Option.map_some, hpast, length_elideLoads]
  exact Instruction.landing?_aim on offset (by omega)

theorem aimedLater_elideLoads {instruction : Instruction} {place : Nat}
    (hget : p[i]? = some instruction)
    (hpast : pastLoads? p p.length (Analysis.of p) instruction i = some place) :
    p.AimedLater p.elideLoads.1 i := by
  have hplace := landing?_elideLoads_of_some hget hpast
  obtain ⟨on, offset, t, state, length, rfl, hlands, -, hlength, rfl⟩ :=
    Machine.pastLoads?_eq_some hpast
  exact ⟨t, t + length, landing?_eq_some_iff.mpr ⟨on, offset, hget, hlands⟩, hplace,
    Nat.lt_add_of_pos_right (RegisterState.redundantLength?_pos hlength)⟩

theorem lowers_elideLoads (p : Program) : p.Lowers p.elideLoads.1 p.elideLoads.2 := by
  refine ⟨keepsForm_elideLoads p, fun hzero => ?_, fun _ _ hpos => ?_⟩
  · simp only [elideLoads] at hzero
    refine List.ext_getElem? fun i => elideLoads_getElem?_of_none fun instruction hget => ?_
    exact Option.not_isSome_iff_eq_none.mp
      (Bool.eq_false_iff.mp (eq_false_of_countWhere hzero i instruction hget))
  · simp only [elideLoads] at hpos
    obtain ⟨i, instruction, hget, hisSome⟩ := countWhere_pos_iff.mp hpos
    obtain ⟨place, hpast⟩ := Option.isSome_iff_exists.mp hisSome
    refine potential_lt_of_aimedLater p.length_elideLoads (fun j hj => ?_)
      ⟨i, (List.getElem?_eq_some_iff.mp hget).1, aimedLater_elideLoads hget hpast⟩
    have hgetj := List.getElem?_eq_getElem hj
    cases hpastj : pastLoads? p p.length (Analysis.of p) p[j] j with
    | some place => exact .inr (aimedLater_elideLoads hgetj hpastj)
    | none =>
      refine .inl (landing?_elideLoads_of_none fun instruction hget => ?_)
      exact Option.some.inj (hgetj.symm.trans hget) ▸ hpastj

end Program

end PluralForms
