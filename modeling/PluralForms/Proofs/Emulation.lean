import PluralForms.Proofs.StraightCode

/-! Native code does what its program does. If the code of each opcode does what the opcode does,
the processor follows the machine from the place of each instruction to that of the next and ends
with the same value. -/

namespace PluralForms.Native

open Relation

variable {ι τ : Type}

/-- Where the states of a processor have what a state of the machine has. -/
structure View (τ : Type) where
  /-- The count stands where a function finds its argument. -/
  Enters : Int64 → τ → Prop
  /-- The registers hold the count, `R` and `S`. -/
  Holds : Int64 → Int64 → Bool → τ → Prop
  /-- Whether the flags tell that a relation holds. -/
  tells : τ → Comparison → Bool

/-- The byte offset is that of a place between instructions. -/
def IsPlace (isa : Isa ι) (offset : Nat) : Prop := ∃ code : List ι, offset = isa.size code

/-- The code of each step of a program does in the registers and the flags what the step does. -/
structure Emulates (core : Core ι τ) (view : View τ) : Prop where
  keepsSize : KeepsSize core.isa
  tells_inverse : ∀ t relation, view.tells t relation.inverse = !view.tells t relation
  prologue : ∀ {n : Int64} {t : τ}, view.Enters n t →
    ∃ t', core.Passes core.isa.prologue t t' ∧ view.Holds n n false t'
  prologue_ne_nil : core.isa.prologue ≠ []
  arith : ∀ {op : Opcode} {value n r : Int64} {status : Bool} {code : List ι} {t : τ},
    op.altersRegister = true → (core.isa.arith op value).complete = .ok code →
    view.Holds n r status t →
    code ≠ [] ∧ ∃ t', core.Passes code t t' ∧ view.Holds n (op.apply r value n) status t'
  compare : ∀ {relation : Comparison} {value n r : Int64} {status : Bool} {code : List ι} {t : τ},
    (core.isa.compare relation value).complete = .ok code → view.Holds n r status t →
    code ≠ [] ∧ ∃ t', core.Passes code t t' ∧ view.Holds n r (relation.holds r value) t' ∧
      view.tells t' relation = relation.holds r value
  branchOnFlags : ∀ {relation : Comparison} {n r : Int64} {status : Bool} {last : ι} {target : Nat}
    {t : τ},
    core.isa.aim (core.isa.branchOnFlags relation)
      (target - (core.position t + core.isa.origin : Nat)) = .ok last →
    IsPlace core.isa (core.position t) → IsPlace core.isa target → view.Holds n r status t →
    ∃ t', core.run last t = some (.inl t') ∧ view.Holds n r status t' ∧
      view.tells t' = view.tells t ∧ core.position t' = if view.tells t relation then target
        else core.position t + (core.isa.encode last).length
  branchOnStatus : ∀ {on : Bool} {n r : Int64} {status : Bool} {last : ι} {target : Nat} {t : τ},
    core.isa.aim (core.isa.branchOnStatus on).2
      (target - (core.position t + core.isa.size (core.isa.branchOnStatus on).1 +
        core.isa.origin : Nat)) = .ok last →
    IsPlace core.isa (core.position t) → IsPlace core.isa target → view.Holds n r status t →
    ∃ t₁ t', core.Passes (core.isa.branchOnStatus on).1 t t₁ ∧ core.run last t₁ = some (.inl t') ∧
      view.Holds n r status t' ∧ core.position t' = if status = on then target
        else core.position t₁ + (core.isa.encode last).length
  ret : ∀ (value : Int64) (t : τ), ∃ before last t₁, core.isa.ret value = before ++ [last] ∧
    core.Passes before t t₁ ∧ core.run last t₁ = some (.inr value)
  retStatus : ∀ {n r : Int64} {status : Bool} {t : τ}, view.Holds n r status t →
    ∃ before last t₁, core.isa.retStatus = before ++ [last] ∧
      core.Passes before t t₁ ∧ core.run last t₁ = some (.inr (wordOfBool status))

/-- The processor stands where the code of the machine's next instruction is, and its registers, and
the flags if they are trusted, hold what the machine's do. -/
structure Related (core : Core ι τ) (view : View τ) (program : Program) (places : Array Nat)
    (n : Int64) (s : Machine.State) (t : τ) : Prop where
  inside : s.index < program.length ∨
    s.index = program.length ∧ finalPiece core.isa program = .plain core.isa.retStatus
  position : core.position t = places.getD s.index 0
  holds : view.Holds n s.register s.status t
  flags : ∀ relation, flagsAt program s.index = some relation → view.tells t relation = s.status

variable {core : Core ι τ} {view : View τ} {program : Program} {whole code : List ι}
  {places : Array Nat} {n r : Int64} {status : Bool} {s s' : Machine.State} {t t' : τ}
  {instruction : Instruction}

theorem CodeAt.isPlace {isa : Isa ι} {offset : Nat} (h : CodeAt isa whole offset code) :
    IsPlace isa offset := by
  obtain ⟨before, _, -, hoffset⟩ := h
  exact ⟨before, hoffset⟩

/-- The place of each instruction, and the one behind them all, is a place between instructions. -/
theorem Layout.isPlace {isa : Isa ι} (h : Layout isa program whole places) {index : Nat}
    (hle : index ≤ program.length) : IsPlace isa (places.getD index 0) := by
  rcases Nat.lt_or_eq_of_le hle with hlt | rfl
  · obtain ⟨_, _, -, -, hcode, -⟩ := h.piece index _ (List.getElem?_eq_getElem hlt)
    exact hcode.isPlace
  · exact h.final.isPlace

/-- Behind an instruction that goes on, the flags are trusted as far as they were set or kept. -/
theorem related_next (hget : program[s.index]? = some instruction)
    (hret : ∀ value, instruction ≠ .ret value)
    (hposition : core.position t = places.getD (s.index + 1) 0) (hholds : view.Holds n r status t)
    (hflags : ∀ relation, flagsAfter (flagsAt program s.index) instruction = some relation →
      view.tells t relation = status) :
    Related core view program places n ⟨s.index + 1, r, status⟩ t where
  inside := by
    have hlt := (List.getElem?_eq_some_iff.mp hget).1
    rcases Nat.lt_or_eq_of_le (Nat.succ_le_of_lt hlt) with hlt | hlast
    · exact .inl hlt
    · exact .inr ⟨hlast, finalPiece_of_getElem? hget hlast hret⟩
  position := hposition
  holds := hholds
  flags := by
    intro relation hrelation
    rw [flagsAt_succ hget] at hrelation
    split at hrelation
    · simp at hrelation
    · exact hflags relation hrelation

/-- Where a jump lands, nothing is trusted about the flags. -/
theorem related_landing {index landing : Nat} (hlanding : program.landing? index = some landing)
    (hposition : core.position t = places.getD landing 0) (hholds : view.Holds n r status t) :
    Related core view program places n ⟨landing, r, status⟩ t := by
  have htarget : program.isTarget landing = true := Program.isTarget_iff.mpr ⟨index, hlanding⟩
  obtain ⟨_, -, hle⟩ := Option.bind_eq_some_iff.mp hlanding
  refine ⟨?_, hposition, hholds, ?_⟩
  · rcases Nat.lt_or_eq_of_le (Instruction.landing?_le hle) with hlt | rfl
    · exact .inl hlt
    · exact .inr ⟨rfl, finalPiece_of_isTarget htarget⟩
  · simp [flagsAt_of_isTarget htarget]

section Advance

variable (hemulates : Emulates core view)
include hemulates

/-- The code of a jump goes where the jump goes, if the flags that are trusted tell `S`. -/
theorem Emulates.jump {flags : Option Comparison} {on : Bool} {offset : Int} {landing : Nat}
    {piece : Piece ι} (hpiece : pieceOf core.isa flags landing (.jump on offset) = .ok piece)
    (haimed : piece.aimed core.isa places (core.position t) = .ok code)
    (hcode : CodeAt core.isa whole (core.position t) code)
    (hplace : IsPlace core.isa (places.getD landing 0)) (h : view.Holds n r status t)
    (hflags : ∀ relation, flags = some relation → view.tells t relation = status) :
    ∃ t', core.Arrives whole t t' ∧ view.Holds n r status t' ∧
      (∀ relation, flags = some relation → view.tells t' relation = status) ∧
      core.position t' = if status = on then places.getD landing 0
        else core.position t + core.isa.size code := by
  cases flags with
  | some relation =>
    obtain rfl := Except.ok.inj hpiece
    obtain ⟨last, haim, rfl⟩ := aimed_branch_eq_ok haimed
    obtain ⟨t', hrun, hholds, htells, hposition⟩ :=
      hemulates.branchOnFlags haim hcode.isPlace hplace h
    have htaken : view.tells t (if on then relation else relation.inverse) = (status == on) := by
      cases on
      · simp [hemulates.tells_inverse, hflags relation rfl]
      · simp [hflags relation rfl]
    refine ⟨t', Core.Passes.nil.branches hcode hrun, hholds, ?_, ?_⟩
    · rwa [htells]
    · rw [hposition, htaken, List.nil_append, core.isa.size_cons, core.isa.size_nil]
      simp
  | none =>
    obtain rfl := Except.ok.inj hpiece
    obtain ⟨last, haim, rfl⟩ := aimed_branch_eq_ok haimed
    obtain ⟨t₁, t', hpasses, hrun, hholds, hposition⟩ :=
      hemulates.branchOnStatus haim hcode.isPlace hplace h
    refine ⟨t', hpasses.branches hcode hrun, hholds, by simp, ?_⟩
    rw [hposition, hpasses.position, core.isa.size_append, core.isa.size_cons, core.isa.size_nil,
      Nat.add_zero, Nat.add_assoc]

variable (hlayout : Layout core.isa program whole places)
  (h : Related core view program places n s t)
include hlayout h

theorem Related.advance_jump {on : Bool} {offset : Int}
    (hget : program[s.index]? = some (.jump on offset)) :
    ∃ s' t', Machine.step program n s = .next s' ∧ core.Arrives whole t t' ∧
      Related core view program places n s' t' := by
  obtain ⟨piece, code, hpiece, haimed, hcode, hnext⟩ := hlayout.piece s.index _ hget
  rw [← h.position] at haimed hcode hnext
  obtain ⟨landing, hlanding⟩ := Option.isSome_iff_exists.mp
    (Program.invalidJump?_eq_none_iff.mp hlayout.valid s.index on offset hget)
  rw [hlanding, Option.getD_some] at hpiece
  have hplace := hlayout.isPlace (Instruction.landing?_le hlanding)
  obtain ⟨t', harrives, hholds, hflags, hposition⟩ :=
    hemulates.jump hpiece haimed hcode hplace h.holds h.flags
  refine ⟨_, t', Machine.step_jump hget, harrives, ?_⟩
  by_cases htaken : s.status = on
  · rw [if_pos htaken] at hposition ⊢
    rw [Instruction.jumpIndex_of_landing hlanding]
    have hlands : program.landing? s.index = some landing := by
      rw [Program.landing?, hget, Option.bind_some, hlanding]
    exact related_landing hlands hposition hholds
  · rw [if_neg htaken] at hposition ⊢
    exact related_next hget (by simp) (hposition.trans hnext.symm) hholds hflags

theorem Related.advance_test {relation : Comparison} {value : Int64}
    (hget : program[s.index]? = some (.test relation value)) :
    ∃ s' t', Machine.step program n s = .next s' ∧ core.Arrives whole t t' ∧
      Related core view program places n s' t' := by
  obtain ⟨piece, code, hpiece, haimed, hcode, hnext⟩ := hlayout.piece s.index _ hget
  rw [← h.position] at haimed hcode hnext
  obtain ⟨_, hcomplete, rfl⟩ := plain_eq_ok hpiece
  obtain rfl := Except.ok.inj haimed
  obtain ⟨hne, t', hpasses, hholds, hflags⟩ := hemulates.compare hcomplete h.holds
  refine ⟨_, t', Machine.step_test hget, hpasses.arrives hcode hne, ?_⟩
  refine related_next hget (by simp) (hpasses.position.trans hnext.symm) hholds ?_
  intro relation' hrelation
  obtain rfl := Option.some.inj hrelation
  exact hflags

theorem Related.advance_alter (hget : program[s.index]? = some instruction)
    (halters : instruction.altersRegister = true) :
    ∃ s' t', Machine.step program n s = .next s' ∧ core.Arrives whole t t' ∧
      Related core view program places n s' t' := by
  obtain ⟨piece, code, hpiece, haimed, hcode, hnext⟩ := hlayout.piece s.index _ hget
  rw [← h.position] at haimed hcode hnext
  obtain ⟨value, hof, hregister⟩ := pieceOf_of_alters halters
  rw [hof] at hpiece
  obtain ⟨_, hcomplete, rfl⟩ := plain_eq_ok hpiece
  obtain rfl := Except.ok.inj haimed
  obtain ⟨hne, t', hpasses, hholds⟩ := hemulates.arith halters hcomplete h.holds
  rw [hregister] at hholds
  refine ⟨_, t', Machine.step_alter hget halters, hpasses.arrives hcode hne, ?_⟩
  refine related_next hget ?_ (hpasses.position.trans hnext.symm) hholds ?_
  · rintro value rfl
    simp [Instruction.altersRegister, Instruction.opcode, Opcode.altersRegister] at halters
  · cases instruction <;> simp_all [flagsAfter, Instruction.altersRegister, Instruction.opcode,
      Opcode.altersRegister]

/-- The code of an instruction does what a step of the machine does. -/
theorem Related.advance :
    (∃ v, Machine.step program n s = .done v ∧ core.Returns whole t v) ∨
    ∃ s' t', Machine.step program n s = .next s' ∧ core.Arrives whole t t' ∧
      Related core view program places n s' t' := by
  rcases h.inside with hlt | ⟨hend, hfinal⟩
  · obtain ⟨instruction, hget⟩ : ∃ instruction, program[s.index]? = some instruction :=
      ⟨_, List.getElem?_eq_getElem hlt⟩
    cases instruction with
    | ret value =>
      obtain ⟨piece, code, hpiece, haimed, hcode, -⟩ := hlayout.piece s.index _ hget
      obtain rfl := Except.ok.inj hpiece
      obtain rfl := Except.ok.inj haimed
      obtain ⟨before, last, t₁, hret, hpasses, hrun⟩ := hemulates.ret value t
      rw [← h.position, hret] at hcode
      exact .inl ⟨value, Machine.step_ret hget, hpasses.returns hcode hrun⟩
    | jump on offset => exact .inr (h.advance_jump hemulates hlayout hget)
    | test relation value => exact .inr (h.advance_test hemulates hlayout hget)
    | load | arith | loadMod => exact .inr (h.advance_alter hemulates hlayout hget rfl)
  · obtain ⟨before, last, t₁, hret, hpasses, hrun⟩ := hemulates.retStatus h.holds
    have hcode := hlayout.final
    rw [hfinal, ← hend, ← h.position, Piece.code, hret] at hcode
    exact .inl ⟨_, Machine.step_end hend.ge, hpasses.returns hcode hrun⟩

theorem Related.ends_iff {v : Int64} :
    (Machine.system program n).Ends s v ↔ (core.system (core.isa.bytes whole)).Ends t v := by
  have hsimulates : System.Simulates (Machine.system program n)
      (core.system (core.isa.bytes whole)) (Related core view program places n) (fun _ => 0) := by
    intro s t h
    rcases h.advance hemulates hlayout with ⟨v, hdone, hreturns⟩ | ⟨s', t', hstep, harrives, h'⟩
    · exact .inl ⟨v, Machine.ends_of_done hdone, hreturns.ends⟩
    · exact .inr (.inl ⟨s', t', .single (Machine.next_iff.mpr hstep),
        TransGen.mono (System.goodNext_le _ _) _ _ harrives, h'⟩)
  exact hsimulates.ends_iff h

end Advance

section Assemble

variable (hemulates : Emulates core view)
include hemulates

/-- The prologue leads from the start of the code to the code of the first instruction. -/
theorem Emulates.arrives_start (hlayout : Layout core.isa program whole places)
    (hposition : core.position t = 0) (henters : view.Enters n t) :
    ∃ t', core.Arrives whole t t' ∧ Related core view program places n (.start n) t' := by
  have hcode := hlayout.prologue
  rw [← hposition] at hcode
  obtain ⟨t', hpasses, hholds⟩ := hemulates.prologue henters
  have hat : core.position t' = places.getD 0 0 := by
    rw [hpasses.position, hposition, hlayout.start, Nat.zero_add]
  exact ⟨t', hpasses.arrives hcode hemulates.prologue_ne_nil,
    .inl (List.length_pos_iff.mpr hlayout.nonempty), hat, hholds,
    fun _ hrelation => absurd hrelation.symm (Option.some_ne_none _)⟩

/-- The machine code of a program, entered at its start, returns the value of the program, and
returns only if the program has one. On the way the processor proceeds. -/
theorem Emulates.ends_iff {bytes : List UInt8} (h : assemble core.isa program = .ok bytes)
    (hposition : core.position t = 0) (henters : view.Enters n t) :
    (∀ v, (core.system bytes).Ends t v ↔ Machine.exec program n = some v) ∧
      ∀ t', ReflTransGen (core.system bytes).Next t t' → core.Proceeds bytes t' := by
  obtain ⟨whole, hwhole, rfl⟩ := assemble_eq_ok h
  obtain ⟨places, hlayout⟩ := layout_of_assembleCode hemulates.keepsSize hwhole
  obtain ⟨t₁, harrives, hrelated⟩ := hemulates.arrives_start hlayout hposition henters
  constructor
  · intro v
    rw [Machine.exec_eq_some_iff, hrelated.ends_iff hemulates hlayout]
    exact System.ends_iff_of_steps (TransGen.mono (System.goodNext_le _ _) _ _ harrives)
  · intro t' hsteps
    let synced (u : τ) : Prop := u = t ∨ ∃ s, Related core view program places n s u
    have hsynced : ∀ u, synced u → (∃ v, core.Returns whole u v) ∨
        ∃ u', core.Arrives whole u u' ∧ synced u' := by
      rintro u (rfl | ⟨s, hs⟩)
      · exact .inr ⟨t₁, harrives, .inr ⟨_, hrelated⟩⟩
      · rcases hs.advance hemulates hlayout with ⟨v, -, hreturns⟩ | ⟨s', u', -, harrives, hs'⟩
        · exact .inl ⟨v, hreturns⟩
        · exact .inr ⟨u', harrives, .inr ⟨s', hs'⟩⟩
    exact System.good_of_reachable hsynced (.inl rfl) hsteps

end Assemble

end PluralForms.Native
