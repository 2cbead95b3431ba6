import PluralForms.Proofs.Forward
import PluralForms.Proofs.Fusion
import PluralForms.Proofs.Selection

/-! The shape of the programs of selections. A comparison loads the count, calculates and tests, a
jump behind it passes over one instruction or more, and each jump lands where a comparison or a
return starts. So the program of a selection is tidy, and no jump leads into a calculation. -/

namespace PluralForms

namespace Program

open Machine

variable {p : Program} {i j b m e t : Nat} {instruction : Instruction} {kind : Kind}

/-- A comparison or a return starts at the place, or the program ends there. -/
def StartsAt (p : Program) (t : Nat) : Prop :=
  p.kind? t = some .reset ∨ p.kind? t = some .ret ∨ t = p.length

/-- What surrounds the instruction at an index in the program of a selection. -/
structure LaidAt (p : Program) (i : Nat) : Prop where
  alters : p.Alters i → p.kind? (i + 1) = some .arith ∨ p.kind? (i + 1) = some .test
  follows : p.kind? i = some .arith ∨ p.kind? i = some .test → ∃ j, i = j + 1 ∧ p.Alters j
  jumps : p.kind? i = some .jump → (∃ j, i = j + 1 ∧ p.kind? j = some .test) ∧
    ∃ t, p.landing? i = some t ∧ i + 1 < t ∧ p.StartsAt t
  returns : p.kind? i = some .ret → i + 1 < p.length → p.isTarget (i + 1) = true

/-- The instructions from one index up to another are laid out as in the program of a selection. -/
def LaidOn (p : Program) (b e : Nat) : Prop := ∀ i, b ≤ i → i < e → p.LaidAt i

theorem LaidOn.append (hfirst : p.LaidOn b m) (hsecond : p.LaidOn m e) : p.LaidOn b e := by
  intro i hb he
  rcases Nat.lt_or_ge i m with hlt | hge
  · exact hfirst i hb hlt
  · exact hsecond i hge he

theorem LaidAt.on (h : p.LaidAt b) : p.LaidOn b (b + 1) := by
  intro i hb he
  obtain rfl : i = b := by omega
  exact h

theorem StartsAt.le (h : p.StartsAt t) : t ≤ p.length := by
  rcases h with hkind | hkind | rfl
  · exact (lt_of_kind? hkind).le
  · exact (lt_of_kind? hkind).le
  · exact le_rfl

theorem StartsAt.not_next (h : p.StartsAt (i + 1)) : p.kind? (i + 1) ≠ some .arith ∧
    p.kind? (i + 1) ≠ some .test ∧ p.kind? (i + 1) ≠ some .jump := by
  rcases h with hkind | hkind | hend
  · simp [hkind]
  · simp [hkind]
  · have hnone : p.kind? (i + 1) = none := by
      rw [kind?, List.getElem?_eq_none (by omega), Option.map_none]
    simp [hnone]

theorem landing?_of_jump {on : Bool} {distance : Nat}
    (hget : p[i]? = some (.jump on distance)) (hle : i + 1 + distance ≤ p.length) :
    p.landing? i = some (i + 1 + distance) :=
  landing?_eq_some_iff.mpr ⟨on, distance, hget,
    Instruction.landing?_jump_eq_some_iff.mpr ⟨by omega, hle⟩⟩

theorem LaidAt.of_jump {on : Bool} {distance : Nat} (hget : p[i]? = some (.jump on distance))
    (htest : ∃ j, i = j + 1 ∧ p.kind? j = some .test) (hpos : 1 ≤ distance)
    (hstarts : p.StartsAt (i + 1 + distance)) : p.LaidAt i := by
  have hkind : p.kind? i = some .jump := kind?_of_getElem? hget
  refine ⟨?_, by simp [hkind], fun _ => ⟨htest, _, landing?_of_jump hget hstarts.le, by omega,
    hstarts⟩, by simp [hkind]⟩
  exact fun halters => absurd halters (Keeps.not_alters ⟨.jump, hkind, rfl⟩)

theorem LaidAt.of_ret (hkind : p.kind? i = some .ret)
    (hnext : i + 1 < p.length → p.isTarget (i + 1) = true) : p.LaidAt i := by
  refine ⟨?_, by simp [hkind], by simp [hkind], fun _ => hnext⟩
  exact fun halters => absurd halters (Keeps.not_alters ⟨.ret, hkind, rfl⟩)

/-- The instructions from one index up to another start with a comparison and end with a test. -/
structure ComparesOn (p : Program) (b e : Nat) : Prop where
  laid : p.LaidOn b e
  starts : p.kind? b = some .reset
  ends : ∃ last, e = last + 1 ∧ p.kind? last = some .test

/-- A load, operators and a test. -/
theorem ComparesOn.of_kinds {size : Nat} (hload : p.kind? b = some .reset)
    (hchain : ∀ k < size, p.kind? (b + 1 + k) = some .arith)
    (htest : p.kind? (b + 1 + size) = some .test) : p.ComparesOn b (b + 1 + size + 1) := by
  have halters : ∀ k ≤ size, p.Alters (b + k) := by
    intro k hk
    cases k with
    | zero => exact ⟨.reset, hload, rfl⟩
    | succ k =>
      rw [Nat.add_comm k, ← Nat.add_assoc]
      exact ⟨.arith, hchain k hk, rfl⟩
  have hnext : ∀ k ≤ size,
      p.kind? (b + 1 + k) = some .arith ∨ p.kind? (b + 1 + k) = some .test := by
    intro k hk
    rcases Nat.lt_or_eq_of_le hk with hlt | rfl
    · exact .inl (hchain k hlt)
    · exact .inr htest
  refine ⟨fun i hb he => ?_, hload, _, rfl, htest⟩
  obtain ⟨k, rfl⟩ := Nat.exists_eq_add_of_le hb
  rcases Nat.lt_or_ge size k with hlt | hle
  · obtain rfl : k = 1 + size := by omega
    rw [← Nat.add_assoc]
    refine ⟨fun h => absurd h (Keeps.not_alters ⟨.test, htest, rfl⟩),
      fun _ => ⟨b + size, by omega, halters size le_rfl⟩, by simp [htest], by simp [htest]⟩
  · have hat := halters k hle
    have hkeeps : ∀ {kind}, kind.alters = false → p.kind? (b + k) ≠ some kind :=
      fun hkeep hkind => (Keeps.not_alters ⟨_, hkind, hkeep⟩) hat
    refine ⟨fun _ => ?_, fun hfollows => ?_, fun hjump => absurd hjump (hkeeps rfl),
      fun hret => absurd hret (hkeeps rfl)⟩
    · rw [Nat.add_right_comm]
      exact hnext k hle
    · cases k with
      | zero => simp [hload] at hfollows
      | succ k => exact ⟨b + k, rfl, halters k (by omega)⟩

/-- Two conditions with a jump between them. -/
theorem ComparesOn.joined {on : Bool} {past : Nat} (hfirst : p.ComparesOn b m)
    (hjump : p[m]? = some (.jump on past)) (hpos : 1 ≤ past) (hlands : p.StartsAt (m + 1 + past))
    (hsecond : p.ComparesOn (m + 1) e) : p.ComparesOn b e where
  laid := (hfirst.laid.append (LaidAt.of_jump hjump hfirst.ends hpos hlands).on).append hsecond.laid
  starts := hfirst.starts
  ends := hsecond.ends

/-- The code of two conditions with a jump between them. The first goes on to the second or to the
place where the jump lands. -/
theorem ComparesOn.of_joined {on : Bool} {past : Nat} {first second : Program}
    (hcode : first ++ .jump on past :: second <+: p.drop b) (hpos : 1 ≤ past)
    (hlands : p.StartsAt (b + first.length + 1 + past))
    (hsecond : second <+: p.drop (b + first.length + 1) →
      p.ComparesOn (b + first.length + 1) (b + first.length + 1 + second.length))
    (hfirst : first <+: p.drop b → p.StartsAt (b + first.length + 1) →
      p.StartsAt (b + first.length + (1 + past)) → p.ComparesOn b (b + first.length)) :
    p.ComparesOn b (b + (first.length + (second.length + 1))) := by
  obtain ⟨hfirstCode, hrest⟩ := prefix_of_append hcode
  have hright := hsecond (prefix_of_cons hrest)
  have hleft := hfirst hfirstCode (.inl hright.starts) (by rwa [← Nat.add_assoc])
  rw [show b + (first.length + (second.length + 1)) =
    b + first.length + 1 + second.length by omega]
  exact hleft.joined (getElem?_of_cons_part hrest) hpos hlands hright

/-! ### Tidiness -/

section Laid

variable (h : ∀ i < p.length, p.LaidAt i)

include h

theorem startsAt_of_landing (hlands : p.landing? i = some t) : i + 1 < t ∧ p.StartsAt t := by
  have hjump := kind?_of_landing hlands
  obtain ⟨-, t', ht', hlt, hstarts⟩ := (h i (lt_of_kind? hjump)).jumps hjump
  obtain rfl := Option.some.inj (hlands.symm.trans ht')
  exact ⟨hlt, hstarts⟩

theorem landsApart_of_laidAt : p.LandsApart := by
  intro i t hlands
  obtain ⟨hlt, hstarts⟩ := startsAt_of_landing h hlands
  obtain ⟨k, rfl⟩ := Nat.exists_eq_succ_of_ne_zero (Nat.ne_of_gt (Nat.zero_lt_of_lt hlt))
  have hk : k < p.length := hstarts.le
  refine ⟨k, rfl, (alters_or_keeps hk).resolve_left fun halters => ?_⟩
  obtain ⟨harith, htest, -⟩ := hstarts.not_next
  exact ((h k hk).alters halters).elim harith htest

theorem shaped_of_laidAt (hvalid : p.invalidJump? = none) (hforward : p.isForward = true) :
    p.Shaped where
  valid := hvalid
  forward := hforward
  alters halters := (h _ halters.lt).alters halters
  jumps hjump := ((h _ (lt_of_kind? hjump)).jumps hjump).1
  passes := by
    intro i t hlands
    obtain ⟨k, rfl, hkeeps⟩ := landsApart_of_laidAt h hlands
    have := (startsAt_of_landing h hlands).1
    exact ⟨k, by omega, Nat.lt_succ_self k, hkeeps⟩
  lands := by
    intro i t hlands
    obtain ⟨k, rfl, -⟩ := landsApart_of_laidAt h hlands
    exact (startsAt_of_landing h hlands).2.not_next.2.2
  returns hret hlt :=
    ⟨_, Nat.lt_succ_self _, (h _ (lt_of_kind? hret)).returns hret hlt, fun u hu hu' => by omega⟩

/-- All paths into a calculation come to its start, so they leave the same state behind in it. -/
theorem unique_of_laidAt {a a' : RegisterState}
    (hkind : p.kind? i = some .arith ∨ p.kind? i = some .test) (ha : p.Reaches i a)
    (ha' : p.Reaches i a') : a = a' := by
  induction i generalizing a a' with
  | zero =>
    obtain ⟨j, hj, -⟩ := (h 0 (hkind.elim lt_of_kind? lt_of_kind?)).follows hkind
    cases hj
  | succ i ih =>
    obtain ⟨j, hj, halters⟩ := (h _ (hkind.elim lt_of_kind? lt_of_kind?)).follows hkind
    obtain rfl := Nat.succ.inj hj
    obtain ⟨instruction, hget, hwrites⟩ := alters_iff.mp halters
    have behind : ∀ {a}, p.Reaches (i + 1) a →
        ∃ state, p.Reaches i state ∧ a = state.after instruction := by
      intro a ha
      generalize ht : i + 1 = t at ha
      cases ha with
      | start => cases ht
      | @next k _ state found hpath hfound hedge =>
        cases hedge with
        | behind =>
          obtain rfl := Nat.succ.inj ht
          exact ⟨state, hpath, by rw [Option.some.inj (hget.symm.trans hfound)]⟩
        | landing hlands =>
          have hnot := LandsApart.eq_false_of_alters (landsApart_of_laidAt h) halters
          rw [ht, isTarget_iff.mpr ⟨k, hlands⟩] at hnot
          cases hnot
    obtain ⟨state, hpath, rfl⟩ := behind ha
    obtain ⟨state', hpath', rfl⟩ := behind ha'
    cases instruction with
    | load | loadMod => rfl
    | arith => rw [ih (.inl (kind?_of_getElem? hget)) hpath hpath']
    | ret | jump | test => cases hwrites

end Laid

end Program

open Program Machine

namespace Condition

variable {p : Program} {b onTrue onFalse : Nat}

/-- The code of a condition starts with a comparison and ends with a test wherever it stands. -/
theorem comparesOn_code (condition : Condition)
    (hcode : condition.code onTrue onFalse <+: p.drop b)
    (htrue : p.StartsAt (b + (condition.code onTrue onFalse).length + onTrue))
    (hfalse : p.StartsAt (b + (condition.code onTrue onFalse).length + onFalse)) :
    p.ComparesOn b (b + (condition.code onTrue onFalse).length) := by
  induction condition generalizing b onTrue onFalse with
  | compare chain comparison operand =>
    have hlength : ((compare chain comparison operand).code onTrue onFalse).length =
        1 + chain.length + 1 := by
      simp only [code, Chain.code, List.length_append, List.length_cons, List.length_map,
        List.length_nil]
      omega
    rw [hlength, ← Nat.add_assoc, ← Nat.add_assoc]
    obtain ⟨hchain, htest⟩ := prefix_of_append (prefix_of_cons hcode)
    rw [List.length_map] at htest
    refine .of_kinds (kind?_of_getElem? (getElem?_of_cons_part hcode)) (fun k hk => ?_)
      (kind?_of_getElem? (getElem?_of_cons_part htest))
    have hget := getElem?_of_part hchain (k := k) (by simpa using hk)
    rw [List.getElem?_map, List.getElem?_eq_getElem hk] at hget
    exact kind?_of_getElem? hget
  | and left right ihLeft ihRight =>
    have hpos := right.length_code_pos onTrue onFalse
    simp only [code, List.length_append, List.length_cons] at hcode htrue hfalse ⊢
    refine .of_joined hcode (by omega) ?_ (fun hsecond => ihRight hsecond ?_ ?_) ihLeft
    · convert hfalse using 1
      omega
    · convert htrue using 1
      omega
    · convert hfalse using 1
      omega
  | or left right ihLeft ihRight =>
    have hpos := right.length_code_pos onTrue onFalse
    simp only [code, List.length_append, List.length_cons] at hcode htrue hfalse ⊢
    refine .of_joined hcode (by omega) ?_ (fun hsecond => ihRight hsecond ?_ ?_)
      fun hfirst hnext hpast => ihLeft hfirst hpast hnext
    · convert htrue using 1
      omega
    · convert htrue using 1
      omega
    · convert hfalse using 1
      omega

end Condition

namespace Selection

variable {p : Program} {b : Nat}

/-- The code of a selection starts with a comparison or a return wherever it stands, and what stands
behind its last return is reached by a jump. -/
theorem laidOn_code (selection : Selection) (hcode : selection.code <+: p.drop b)
    (hend : b + selection.code.length < p.length → p.isTarget (b + selection.code.length) = true) :
    p.LaidOn b (b + selection.code.length) ∧ p.StartsAt b := by
  induction selection generalizing b with
  | constant value =>
    have hret : p.kind? b = some .ret := kind?_of_getElem? (getElem?_of_cons_part hcode)
    exact ⟨(LaidAt.of_ret hret hend).on, .inr (.inl hret)⟩
  | test condition =>
    simp only [code, List.length_append, List.length_cons, List.length_nil] at hcode hend ⊢
    generalize hfirst : condition.code 1 2 = first at *
    obtain ⟨hfirstCode, hrest⟩ := prefix_of_append hcode
    have hjump : p[b + first.length]? = some (.jump false (1 : Nat)) := getElem?_of_cons_part hrest
    have hyes : p.kind? (b + first.length + 1) = some .ret :=
      kind?_of_getElem? (getElem?_of_cons_part (prefix_of_cons hrest))
    have hno : p.kind? (b + first.length + 1 + 1) = some .ret :=
      kind?_of_getElem? (getElem?_of_cons_part (prefix_of_cons (prefix_of_cons hrest)))
    have hcompares := condition.comparesOn_code (hfirst ▸ hfirstCode)
      (by rw [hfirst]; exact .inr (.inl hyes)) (by rw [hfirst]; exact .inr (.inl hno))
    rw [hfirst] at hcompares
    have hlands := landing?_of_jump hjump (lt_of_kind? hno).le
    rw [show b + (first.length + (0 + 1 + 1 + 1)) = b + first.length + 1 + 1 + 1 by omega] at hend ⊢
    refine ⟨?_, .inl hcompares.starts⟩
    refine (((hcompares.laid.append (LaidAt.on ?_)).append (LaidAt.on ?_)).append (LaidAt.on ?_))
    · exact .of_jump hjump hcompares.ends le_rfl (.inr (.inl hno))
    · exact .of_ret hyes fun _ => isTarget_iff.mpr ⟨_, hlands⟩
    · exact .of_ret hno hend
  | choose condition yes no ihYes ihNo =>
    simp only [code, List.length_append, List.length_cons] at hcode hend ⊢
    generalize hfirst : condition.code 1 (1 + yes.code.length) = first at *
    have hpos := yes.length_code_pos
    obtain ⟨hfirstCode, hrest⟩ := prefix_of_append hcode
    obtain ⟨hyes, hno⟩ := prefix_of_append (prefix_of_cons hrest)
    have hjump := getElem?_of_cons_part hrest
    rw [show b + (first.length + (yes.code.length + no.code.length + 1)) =
      b + first.length + 1 + yes.code.length + no.code.length by omega] at hend ⊢
    obtain ⟨hlaidNo, hstartsNo⟩ := ihNo hno hend
    have hlands := landing?_of_jump hjump hstartsNo.le
    obtain ⟨hlaidYes, hstartsYes⟩ := ihYes hyes fun _ => isTarget_iff.mpr ⟨_, hlands⟩
    have hcompares := condition.comparesOn_code (hfirst ▸ hfirstCode)
      (by rw [hfirst]; exact hstartsYes)
      (by rw [hfirst, ← Nat.add_assoc]; exact hstartsNo)
    rw [hfirst] at hcompares
    refine ⟨?_, .inl hcompares.starts⟩
    exact ((hcompares.laid.append (LaidAt.of_jump hjump hcompares.ends hpos hstartsNo).on).append
      hlaidYes).append hlaidNo

theorem laidAt_program (selection : Selection) {i : Nat} (hi : i < selection.program.length) :
    selection.program.LaidAt i := by
  cases selection with
  | test condition =>
    have hcompares := condition.comparesOn_code (p := condition.code 0 0) (b := 0)
      (List.prefix_refl _) (.inr (.inr (by simp))) (.inr (.inr (by simp)))
    exact hcompares.laid i (Nat.zero_le i) (by rwa [Nat.zero_add])
  | constant | choose =>
    exact (laidOn_code _ (b := 0) (List.prefix_refl _) (by simp)).1 i (Nat.zero_le i)
      (by rwa [Nat.zero_add])

theorem tidy_program (selection : Selection) : selection.program.Tidy := by
  obtain ⟨hvalid, hforward⟩ := selection.jumpsWithin_program.valid
  have hlaid := fun i hi => selection.laidAt_program (i := i) hi
  exact ⟨shaped_of_laidAt hlaid hvalid hforward, fun htest => unique_of_laidAt hlaid (.inr htest)⟩

theorem landsApart_program (selection : Selection) : selection.program.LandsApart :=
  landsApart_of_laidAt fun _ hi => selection.laidAt_program hi

end Selection

end PluralForms
