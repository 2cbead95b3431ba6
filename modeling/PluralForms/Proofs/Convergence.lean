import PluralForms.Proofs.Potential

/-! The rounds of the optimizer converge where all jumps go forward. A round with a change lowers
the potential of the program, so more rounds than the potential end with one that changes nothing;
and all passes leave the program at rest then. -/

namespace PluralForms

namespace Optimizer

open Program

variable {p : Program} {limit limit' : Nat} {stats : Stats}

/-- No pass changes anything. -/
structure AtRest (p : Program) : Prop where
  eliminatePrefixes : p.eliminatePrefixes = (p, 0)
  eliminateLoads : p.eliminateLoads = (p, 0)
  fuseMods : p.fuseMods = (p, 0)
  collapseJumps : p.collapseJumps = (p, 0)
  elideLoads : p.elideLoads = (p, 0)
  removeLeadingLoad : p.removeLeadingLoad = (p, 0)
  eliminateDead : p.eliminateDead = (p, ⟨0, 0⟩)

/-- The optimizer stopped because its last round changed nothing. -/
def Outcome.Converged (outcome : Outcome) : Prop :=
  ∃ number size, outcome.reports.getLast? = some (.round number 0 size)

/-! ### Rounds -/

theorem AtRest.round (h : AtRest p) (stats : Stats) :
    Optimizer.round p stats = (p, { stats with rounds := stats.rounds + 1 }) := by
  simp only [Optimizer.round, h.eliminatePrefixes, h.eliminateLoads, h.fuseMods, h.collapseJumps,
    h.elideLoads, h.removeLeadingLoad, h.eliminateDead, Nat.add_zero]

/-- A round adds up the changes of its passes, and without one the program was at rest. -/
theorem round_changes (p : Program) (stats : Stats) :
    ∃ changes, (round p stats).2.total = stats.total + changes ∧
      p.Lowers (round p stats).1 changes ∧ (changes = 0 → AtRest p) := by
  obtain ⟨p₁, prefixes, h₁⟩ : ∃ q n, p.eliminatePrefixes = (q, n) := ⟨_, _, rfl⟩
  obtain ⟨p₂, loads, h₂⟩ : ∃ q n, p₁.eliminateLoads = (q, n) := ⟨_, _, rfl⟩
  obtain ⟨p₃, mods, h₃⟩ : ∃ q n, p₂.fuseMods = (q, n) := ⟨_, _, rfl⟩
  obtain ⟨p₄, collapsed, h₄⟩ : ∃ q n, p₃.collapseJumps = (q, n) := ⟨_, _, rfl⟩
  obtain ⟨p₅, elided, h₅⟩ : ∃ q n, p₄.elideLoads = (q, n) := ⟨_, _, rfl⟩
  obtain ⟨p₆, leading, h₆⟩ : ∃ q n, p₅.removeLeadingLoad = (q, n) := ⟨_, _, rfl⟩
  obtain ⟨p₇, gone, h₇⟩ : ∃ q n, p₆.eliminateDead = (q, n) := ⟨_, _, rfl⟩
  have hround : round p stats = (p₇,
      { stats with
        prefixes := stats.prefixes + prefixes
        loads := stats.loads + loads
        mods := stats.mods + mods
        collapsed := stats.collapsed + collapsed
        elided := stats.elided + elided
        leading := stats.leading + leading
        dead := stats.dead + gone.dead
        idle := stats.idle + gone.idle
        rounds := stats.rounds + 1 }) := by
    simp only [round, h₁, h₂, h₃, h₄, h₅, h₆, h₇]
  have lowers₁ : p.Lowers p₁ prefixes := by simpa only [h₁] using p.lowers_eliminatePrefixes
  have lowers₂ : p₁.Lowers p₂ loads := by simpa only [h₂] using p₁.lowers_eliminateLoads
  have lowers₃ : p₂.Lowers p₃ mods := by simpa only [h₃] using p₂.lowers_fuseMods
  have lowers₄ : p₃.Lowers p₄ collapsed := by simpa only [h₄] using p₃.lowers_collapseJumps
  have lowers₅ : p₄.Lowers p₅ elided := by simpa only [h₅] using p₄.lowers_elideLoads
  have lowers₆ : p₅.Lowers p₆ leading := by simpa only [h₆] using p₅.lowers_removeLeadingLoad
  have lowers₇ : p₆.Lowers p₇ (gone.dead + gone.idle) := by
    simpa only [h₇] using p₆.lowers_eliminateDead
  rw [hround]
  refine ⟨prefixes + (loads + (mods + (collapsed + (elided + (leading +
    (gone.dead + gone.idle)))))), ?_, ?_, fun hzero => ?_⟩
  · simp only [Stats.total]
    omega
  · exact lowers₁.trans <| lowers₂.trans <| lowers₃.trans <| lowers₄.trans <| lowers₅.trans <|
      lowers₆.trans lowers₇
  · have hnone : prefixes = 0 ∧ loads = 0 ∧ mods = 0 ∧ collapsed = 0 ∧ elided = 0 ∧ leading = 0 ∧
        gone.dead + gone.idle = 0 := by omega
    obtain ⟨rfl, rfl, rfl, rfl, rfl, rfl, hgone⟩ := hnone
    obtain ⟨dead, idle⟩ := gone
    obtain ⟨rfl, rfl⟩ : dead = 0 ∧ idle = 0 := by
      dsimp only at hgone
      omega
    obtain rfl := lowers₁.same rfl
    obtain rfl := lowers₂.same rfl
    obtain rfl := lowers₃.same rfl
    obtain rfl := lowers₄.same rfl
    obtain rfl := lowers₅.same rfl
    obtain rfl := lowers₆.same rfl
    obtain rfl := lowers₇.same rfl
    exact ⟨h₁, h₂, h₃, h₄, h₅, h₆, h₇⟩

theorem rounds_of_atRest (h : AtRest p) (left : Nat) (stats : Stats) :
    rounds (left + 1) p stats = ⟨p, { stats with rounds := stats.rounds + 1 },
      [.round (stats.rounds + 1) 0 p.length]⟩ := by
  have htotal : Stats.total { stats with rounds := stats.rounds + 1 } - stats.total = 0 :=
    Nat.sub_self _
  rw [rounds, h.round]
  simp only [htotal, if_true]

/-- Where the program is not at rest, a round is reported and the others follow. -/
theorem rounds_of_not_atRest (h : ¬AtRest p) (stats : Stats) :
    ∃ changes, 0 < changes ∧ p.Lowers (round p stats).1 changes ∧ ∀ left,
      rounds (left + 1) p stats =
        { rounds left (round p stats).1 (round p stats).2 with
          reports := .round (round p stats).2.rounds changes (round p stats).1.length ::
            (rounds left (round p stats).1 (round p stats).2).reports } := by
  obtain ⟨changes, htotal, hlowers, hrest⟩ := round_changes p stats
  have hne : changes ≠ 0 := fun hzero => h (hrest hzero)
  refine ⟨changes, Nat.pos_of_ne_zero hne, hlowers, fun left => ?_⟩
  rw [rounds]
  generalize round p stats = after at htotal
  have hsub : after.2.total - stats.total = changes := by omega
  simp only [hsub, if_neg hne]

theorem Outcome.Converged.cons {outcome : Outcome} (h : outcome.Converged) (report : Report) :
    Outcome.Converged { outcome with reports := report :: outcome.reports } := by
  obtain ⟨number, size, hlast⟩ := h
  refine ⟨number, size, ?_⟩
  rw [List.getLast?_cons, hlast]
  rfl

/-- With more rounds than the potential of the program, the last one changes nothing, and more of
them do not matter. -/
theorem rounds_converge (stats : Stats) (hvalid : p.invalidJump? = none)
    (hforward : p.isForward = true) (hlimit : p.potential < limit) :
    AtRest (rounds limit p stats).program ∧ (rounds limit p stats).Converged ∧
      ∀ limit', p.potential < limit' → rounds limit' p stats = rounds limit p stats := by
  induction limit generalizing p stats with
  | zero => omega
  | succ left ih =>
    by_cases hrest : AtRest p
    · rw [rounds_of_atRest hrest]
      refine ⟨hrest, ⟨_, _, rfl⟩, fun limit' hlimit' => ?_⟩
      obtain ⟨left', rfl⟩ := Nat.exists_eq_add_of_le' (Nat.zero_lt_of_lt hlimit')
      exact rounds_of_atRest hrest left' stats
    · obtain ⟨changes, hpos, hlowers, hnext⟩ := rounds_of_not_atRest hrest stats
      have hfewer := hlowers.lower hvalid hforward hpos
      obtain ⟨hrest', hconverged, hsame⟩ := ih (round p stats).2
        (hlowers.keeps.valid hvalid) (hlowers.keeps.forward hvalid hforward) (by omega)
      rw [hnext]
      refine ⟨hrest', hconverged.cons _, fun limit' hlimit' => ?_⟩
      obtain ⟨left', rfl⟩ := Nat.exists_eq_add_of_le' (Nat.zero_lt_of_lt hlimit')
      rw [hnext, hsame left' (by omega)]

/-- From whatever statistics, `limit` rounds end with one that changes nothing, after `most` of them
at the latest. -/
def Settles (limit most : Nat) (p : Program) : Prop :=
  ∀ stats, AtRest (rounds limit p stats).program ∧ (rounds limit p stats).Converged ∧
    (rounds limit p stats).stats.rounds ≤ stats.rounds + most

theorem settles_of_atRest (h : AtRest p) (left : Nat) : Settles (left + 1) 1 p := by
  intro stats
  rw [rounds_of_atRest h]
  exact ⟨h, ⟨_, _, rfl⟩, le_rfl⟩

theorem Settles.of_round {left most : Nat} (h : ∀ stats, Settles left most (round p stats).1) :
    Settles (left + 1) (most + 1) p := by
  intro stats
  by_cases hrest : AtRest p
  · obtain ⟨hrest', hconverged, hrounds⟩ := settles_of_atRest hrest left stats
    exact ⟨hrest', hconverged, by omega⟩
  · obtain ⟨changes, -, -, hnext⟩ := rounds_of_not_atRest hrest stats
    obtain ⟨hrest', hconverged, hrounds⟩ := h stats (round p stats).2
    have hround : (round p stats).2.rounds = stats.rounds + 1 := by simp only [round]
    rw [hnext]
    refine ⟨hrest', hconverged.cons _, ?_⟩
    dsimp only
    omega

/-- On a valid program whose jumps go forward, the optimizer with a limit above the square of the
length and the length stops after a round that changed nothing. All passes leave its program as it
is and count nothing, and a higher limit has the same outcome. -/
theorem optimize_converges (limit : Nat) (p : Program) (hvalid : p.isValid = true)
    (hforward : p.isForward = true) (hlimit : p.length * p.length + p.length < limit) :
    AtRest (optimize limit p).program ∧ (optimize limit p).Converged ∧
      ∀ limit' > p.length * p.length + p.length, optimize limit' p = optimize limit p := by
  have hnone : p.invalidJump? = none := Option.isNone_iff_eq_none.mp hvalid
  have hpotential := p.potential_le
  obtain ⟨hrest, hconverged, hsame⟩ :=
    rounds_converge {} hnone hforward (hpotential.trans_lt hlimit)
  simp only [optimize, hnone]
  refine ⟨hrest, hconverged, fun limit' hlimit' => ?_⟩
  rw [hsame limit' (hpotential.trans_lt hlimit')]

theorem optimize_converges_remainder :
    AtRest (optimize 57 [.load 0, .arith .mod 10, .test .eq 1, .jump false 2, .load 0,
        .arith .mod 10, .ret 7]).program ∧
      optimize 80 [.load 0, .arith .mod 10, .test .eq 1, .jump false 2, .load 0, .arith .mod 10,
          .ret 7] =
        optimize 57 [.load 0, .arith .mod 10, .test .eq 1, .jump false 2, .load 0, .arith .mod 10,
          .ret 7] := by
  obtain ⟨hrest, -, hsame⟩ := optimize_converges 57 [.load 0, .arith .mod 10, .test .eq 1,
    .jump false 2, .load 0, .arith .mod 10, .ret 7] (by decide) (by decide) (by decide)
  exact ⟨hrest, hsame 80 (by decide)⟩

end Optimizer

end PluralForms
