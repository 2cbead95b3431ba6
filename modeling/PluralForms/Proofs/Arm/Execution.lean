import PluralForms.Proofs.Arm.Encoding
import PluralForms.Proofs.Arm.Words
import PluralForms.Proofs.Emulation

/-! Native code for AArch64 does what its program does: the code of each opcode does in `x9` and
`x10` what the opcode does in `R` and `S`. -/

namespace PluralForms.Arm

open Native (CodeAt IsPlace)
open Native.Arm (Register isa loadConstant halfword operand quotient status value count result)

/-! ### Instructions in their places -/

theorem size_eq (code : List Native.Arm.Instruction) : isa.size code = 4 * code.length := by
  induction code with
  | nil => rfl
  | cons instruction code ih =>
    have hlength : (isa.encode instruction).length = 4 := rfl
    rw [isa.size_cons, ih, hlength, List.length_cons]
    omega

theorem aligned_of_isPlace {offset : Nat} (h : IsPlace isa offset) : offset % 4 = 0 := by
  obtain ⟨code, rfl⟩ := h
  rw [size_eq]
  omega

section Core

variable {whole code : List Native.Arm.Instruction} {instruction : Native.Arm.Instruction}
  {t : State}

theorem step_of_codeAt (h : CodeAt isa whole t.position (instruction :: code)) :
    (processor (isa.bytes whole)).step t = (operation instruction).run t := by
  obtain ⟨rest, hrest⟩ := h.bytes
  have hfirst : isa.bytes (instruction :: code) ++ rest =
      instruction.encode ++ (isa.bytes code ++ rest) := by
    rw [Native.Isa.bytes, List.flatMap_cons, List.append_assoc]
    rfl
  have hfetch := fetch_encode instruction (aligned_of_isPlace h.isPlace) (hrest.trans hfirst)
  simp only [processor, hfetch, Option.bind_eq_bind, Option.bind_some, decode_word]

theorem proceeds_of_codeAt (h : CodeAt isa whole t.position (instruction :: code))
    (hrun : (operation instruction).run t ≠ none) : Proceeds (isa.bytes whole) t where
  aligned := aligned_of_isPlace h.isPlace
  inside := by
    obtain ⟨before, after, rfl, hposition⟩ := h
    have hlength : (isa.bytes (before ++ (instruction :: code ++ after))).length =
        isa.size (before ++ (instruction :: code ++ after)) := rfl
    rw [hlength, hposition, size_eq, size_eq]
    simp only [List.length_append, List.length_cons]
    omega
  step := by rwa [step_of_codeAt h]

end Core

def core : Native.Core Native.Arm.Instruction State where
  isa := isa
  position := State.position
  run instruction t := (operation instruction).run t
  system := processor
  Proceeds := Proceeds
  step_of_codeAt := step_of_codeAt
  proceeds_of_codeAt := proceeds_of_codeAt

variable {before code after : List Native.Arm.Instruction} {instruction : Native.Arm.Instruction}
  {target other : Register} {v w : BitVec 64} {t t₁ t₂ : State} {n r constant : Int64}
  {status : Bool} {relation : Comparison}

/-! ### Registers -/

theorem read_write (htarget : target ≠ xzr) :
    (t.write target v).read other = if other = target then v else t.read other := by
  by_cases heq : other = target
  · subst heq
    simp [State.read, State.write, htarget]
  · simp [State.read, State.write, heq]

theorem read_zero (t : State) : t.read xzr = 0#64 := rfl

theorem write_zero (t : State) (v : BitVec 64) : t.write xzr v = t := by
  simp [State.write]

/-- The second state differs from the first in its position and in one register. -/
structure Sets (target : Register) (v : BitVec 64) (t t' : State) : Prop where
  read : t'.read target = v
  others : ∀ other, other ≠ target → t'.read other = t.read other
  flags : t'.flags = t.flags

theorem Sets.trans (h : Sets target v t t₁) (h' : Sets target w t₁ t₂) : Sets target w t t₂ where
  read := h'.read
  others other hne := (h'.others other hne).trans (h.others other hne)
  flags := h'.flags.trans h.flags

theorem passes_write (htarget : target ≠ xzr)
    (hrun : (operation instruction).run t = some (.inl (t.next.write target v))) :
    ∃ t', core.Passes [instruction] t t' ∧ Sets target v t t' := by
  refine ⟨_, .cons hrun rfl .nil, ?_, fun other hne => ?_, rfl⟩
  · rw [read_write htarget, if_pos rfl]
  · rw [read_write htarget, if_neg hne]
    rfl

theorem run_mov (t : State) (target source : Register) : (operation (.mov target source)).run t =
    some (.inl (t.next.write target (t.read source))) := by
  simp only [operation, Operation.run, read_zero, BitVec.zero_or]

/-! ### Constants -/

/-- The first move clears the register, and each place of the word is written at most once. -/
theorem exists_loadConstant (target : Register) (constant : Int64) :
    ∃ first rest, (first :: rest).Nodup ∧
      loadConstant target constant = .movz target first (halfword constant first) ::
        rest.map fun half => .movk target half (halfword constant half) := by
  have hnodup : ([0, 1, 2, 3].filter fun half => halfword constant half != 0).Nodup :=
    List.Nodup.filter _ (by decide)
  rw [loadConstant]
  split
  next hnone =>
    have hzero : halfword constant 0 = 0 := by simpa using List.filter_eq_nil_iff.mp hnone 0
    exact ⟨0, [], by simp, by rw [hzero, List.map_nil]⟩
  next first rest hhalves => exact ⟨first, rest, hhalves ▸ hnodup, rfl⟩

theorem passes_moveKeep (htarget : target ≠ xzr) (halves : List (Fin 4)) (t : State) :
    ∃ t', core.Passes (halves.map fun half => .movk target half (halfword constant half)) t t' ∧
      Sets target (halves.foldl (fun x half => insert x half (halfword constant half).toBitVec)
        (t.read target)) t t' := by
  induction halves generalizing t with
  | nil => exact ⟨t, .nil, rfl, fun _ _ => rfl, rfl⟩
  | cons half rest ih =>
    have hrun : (operation (.movk target half (halfword constant half))).run t =
      some (.inl (t.next.write target
        (insert (t.read target) half (halfword constant half).toBitVec))) := rfl
    obtain ⟨t₁, hfirst, hsets⟩ := passes_write htarget hrun
    obtain ⟨t', hrest, hsets'⟩ := ih t₁
    rw [hsets.read] at hsets'
    exact ⟨t', hfirst.append hrest, hsets.trans hsets'⟩

theorem quarter_foldl (halves : List (Fin 4)) (x : BitVec 64) (other : Fin 4) :
    quarter (halves.foldl (fun x half => insert x half (halfword constant half).toBitVec) x) other =
      if other ∈ halves then quarter constant.toBitVec other else quarter x other := by
  induction halves generalizing x with
  | nil => rfl
  | cons half rest ih =>
    rw [List.foldl_cons, ih, quarter_insert, toBitVec_halfword]
    by_cases hrest : other ∈ rest
    · simp [hrest]
    · by_cases heq : other = half
      · simp [heq]
      · simp [hrest, heq]

/-- The halves that are written make up the constant, as the others are zero. -/
theorem foldl_insert_eq {halves : List (Fin 4)}
    (h : ([0, 1, 2, 3].filter fun half => halfword constant half != 0) = halves) :
    halves.foldl (fun x half => insert x half (halfword constant half).toBitVec) 0 =
      constant.toBitVec := by
  apply eq_of_quarter_eq
  intro other
  rw [quarter_foldl]
  by_cases hmem : other ∈ halves
  · rw [if_pos hmem]
  · have hzero : halfword constant other = 0 := by
      rw [← h, List.mem_filter] at hmem
      have hall : other ∈ [0, 1, 2, 3] := by
        match other with
        | 0 | 1 | 2 | 3 => simp
      by_contra hne
      exact hmem ⟨hall, by simpa using hne⟩
    rw [if_neg hmem, ← toBitVec_halfword, hzero]
    match other with
    | 0 | 1 | 2 | 3 => rfl

theorem passes_loadConstant (htarget : target ≠ xzr) (constant : Int64) (t : State) :
    ∃ t', core.Passes (loadConstant target constant) t t' ∧
      Sets target constant.toBitVec t t' := by
  rw [loadConstant]
  split
  next hhalves =>
    have hvalue : (0 : BitVec 64) = constant.toBitVec := foldl_insert_eq hhalves
    rw [← hvalue]
    exact passes_write htarget rfl
  next first rest hhalves =>
    have hrun : (operation (.movz target first (halfword constant first))).run t =
        some (.inl (t.next.write target
          (insert 0 first (halfword constant first).toBitVec))) := by
      rw [insert_zero]
      rfl
    obtain ⟨t₁, hfirst, hsets⟩ := passes_write htarget hrun
    obtain ⟨t', hrest, hsets'⟩ := passes_moveKeep htarget rest t₁
    rw [hsets.read, ← List.foldl_cons, foldl_insert_eq hhalves] at hsets'
    exact ⟨t', hfirst.append hrest, hsets.trans hsets'⟩

/-! ### The code of opcodes -/

/-- The registers hold the count, `R` and `S`. -/
structure Holds (n r : Int64) (status : Bool) (t : State) : Prop where
  count : t.read Native.Arm.count = n.toBitVec
  register : t.read Native.Arm.value = r.toBitVec
  status : t.read Native.Arm.status = (wordOfBool status).toBitVec

theorem Holds.of_sets_register (h : Holds n r status t) {r' : Int64}
    (hsets : Sets value r'.toBitVec t t₁) : Holds n r' status t₁ where
  count := (hsets.others _ (by decide)).trans h.count
  register := hsets.read
  status := (hsets.others _ (by decide)).trans h.status

theorem Holds.of_sets_other (h : Holds n r status t) (hsets : Sets target v t t₁)
    (hother : target = operand ∨ target = quotient) : Holds n r status t₁ := by
  have hkeeps : ∀ other, other ≠ operand → other ≠ quotient → t₁.read other = t.read other := by
    intro other hoperand hquotient
    exact hsets.others other (by rcases hother with rfl | rfl <;> assumption)
  exact ⟨(hkeeps _ (by decide) (by decide)).trans h.count,
    (hkeeps _ (by decide) (by decide)).trans h.register,
    (hkeeps _ (by decide) (by decide)).trans h.status⟩

theorem passes_loadCount (h : t.read count = n.toBitVec) :
    ∃ t', core.Passes Native.Arm.loadCount t t' ∧ Sets value n.toBitVec t t' := by
  rw [← h]
  exact passes_write (by decide) (run_mov t value count)

theorem Holds.passes_register (h : Holds n r status t) {r' : Int64}
    (hrun : (operation instruction).run t = some (.inl (t.next.write value r'.toBitVec))) :
    ∃ t', core.Passes [instruction] t t' ∧ Holds n r' status t' := by
  have hvalue : value ≠ xzr := by decide
  obtain ⟨t', hpasses, hsets⟩ := passes_write hvalue hrun
  exact ⟨t', hpasses, h.of_sets_register hsets⟩

theorem Holds.passes_loadCount (h : Holds n r status t) :
    ∃ t', core.Passes Native.Arm.loadCount t t' ∧ Holds n n status t' := by
  obtain ⟨t', hpasses, hsets⟩ := Arm.passes_loadCount h.count
  exact ⟨t', hpasses, h.of_sets_register hsets⟩

theorem Holds.passes_operand (h : Holds n r status t) (constant : Int64) :
    ∃ t', core.Passes (loadConstant operand constant) t t' ∧ Holds n r status t' ∧
      t'.read operand = constant.toBitVec := by
  have hoperand : operand ≠ xzr := by decide
  obtain ⟨t', hpasses, hsets⟩ := passes_loadConstant hoperand constant t
  exact ⟨t', hpasses, h.of_sets_other hsets (.inl rfl), hsets.read⟩

theorem Holds.passes_withOperand (h : Holds n r status t) {r' : Int64}
    (hrun : ∀ t', t'.read value = r.toBitVec → t'.read operand = constant.toBitVec →
      (operation instruction).run t' = some (.inl (t'.next.write value r'.toBitVec))) :
    ∃ t', core.Passes (loadConstant operand constant ++ [instruction]) t t' ∧
      Holds n r' status t' := by
  obtain ⟨t₁, hload, hholds, hoperand⟩ := h.passes_operand constant
  obtain ⟨t', hlast, hholds'⟩ := hholds.passes_register (hrun t₁ hholds.register hoperand)
  exact ⟨t', hload.append hlast, hholds'⟩

theorem run_sdiv (hconstant : constant ≠ 0) (hvalue : t.read value = r.toBitVec)
    (hoperand : t.read operand = constant.toBitVec) (target : Register) :
    (operation (.sdiv target value operand)).run t =
      some (.inl (t.next.write target (r / constant).toBitVec)) := by
  rw [← ofInt_quotient hconstant, ← hvalue, ← hoperand]
  rfl

theorem Holds.passes_remainder (h : Holds n r status t) (hconstant : constant ≠ 0) :
    ∃ t', core.Passes (loadConstant operand constant ++ Native.Arm.remainder) t t' ∧
      Holds n (r % constant) status t' := by
  obtain ⟨t₁, hload, hholds₁, hoperand⟩ := h.passes_operand constant
  have hquotient : quotient ≠ xzr := by decide
  obtain ⟨t₂, hdivide, hsets⟩ :=
    passes_write hquotient (run_sdiv hconstant hholds₁.register hoperand quotient)
  have hholds₂ := hholds₁.of_sets_other hsets (.inr rfl)
  have hoperand₂ : t₂.read operand = constant.toBitVec :=
    (hsets.others operand (by decide)).trans hoperand
  have hrun : (operation (.msub value quotient operand value)).run t₂ =
      some (.inl (t₂.next.write value (r % constant).toBitVec)) := by
    rw [← sub_div_mul, ← hsets.read, ← hoperand₂, ← hholds₂.register]
    rfl
  obtain ⟨t', hsubtract, hholds'⟩ := hholds₂.passes_register hrun
  exact ⟨t', hload.append (hdivide.append hsubtract), hholds'⟩

theorem divide_eq_ok (h : (Native.Arm.divide before constant after).complete = .ok code) :
    constant ≠ 0 ∧ code = before ++ loadConstant operand constant ++ after := by
  rw [Native.Arm.divide] at h
  split at h
  · simp [Native.Emission.complete] at h
  next hconstant => exact ⟨hconstant, (Except.ok.inj h).symm⟩

/-- The code of an opcode that alters `R` does so, and leaves the count and `S` as they are. -/
theorem Holds.passes_arith (h : Holds n r status t) {op : Opcode}
    (halters : op.altersRegister = true)
    (hcode : (Native.Arm.arith op constant).complete = .ok code) :
    code ≠ [] ∧ ∃ t', core.Passes code t t' ∧ Holds n (op.apply r constant n) status t' := by
  cases op with
  | ret | jump | test => simp [Opcode.altersRegister] at halters
  | load =>
    obtain rfl := Except.ok.inj hcode
    exact ⟨List.cons_ne_nil _ _, h.passes_loadCount⟩
  | loadMod =>
    obtain ⟨hconstant, rfl⟩ := divide_eq_ok hcode
    obtain ⟨t₁, hcount, hholds⟩ := h.passes_loadCount
    obtain ⟨t', hrest, hholds'⟩ := hholds.passes_remainder hconstant
    refine ⟨by simp [Native.Arm.remainder], t', ?_, ?_⟩
    · rw [List.append_assoc]
      exact hcount.append hrest
    · rwa [Opcode.apply, Arithmetic.apply, if_neg hconstant]
  | arith op =>
    cases op with
    | add | sub | mul =>
      obtain rfl := Except.ok.inj hcode
      refine ⟨List.append_ne_nil_of_right_ne_nil _ (List.cons_ne_nil _ _),
        h.passes_withOperand fun t' hvalue hoperand => ?_⟩
      simp only [operation, Operation.run, hvalue, hoperand, read_zero, BitVec.zero_add]
      rfl
    | div =>
      obtain ⟨hconstant, rfl⟩ := divide_eq_ok hcode
      rw [Opcode.apply, Arithmetic.apply, if_neg hconstant]
      exact ⟨by simp, h.passes_withOperand fun t' hvalue hoperand =>
        run_sdiv hconstant hvalue hoperand value⟩
    | mod =>
      obtain ⟨hconstant, rfl⟩ := divide_eq_ok hcode
      rw [Opcode.apply, Arithmetic.apply, if_neg hconstant]
      exact ⟨by simp [Native.Arm.remainder], h.passes_remainder hconstant⟩

/-! ### Comparisons -/

/-- `S` is set from the flags. The code has the opposite condition, under which it is cleared. -/
theorem Holds.passes_cset (h : Holds n r status t) (relation : Comparison) :
    ∃ t', core.Passes [.cset Native.Arm.status relation] t t' ∧
      Holds n r (t.flags.holds (conditionOf relation)) t' ∧ t'.flags = t.flags := by
  have hrun : (operation (.cset Native.Arm.status relation)).run t =
      some (.inl (t.next.write Native.Arm.status
        (wordOfBool (t.flags.holds (conditionOf relation))).toBitVec)) := by
    simp only [operation, Operation.run, holds_opposite]
    cases t.flags.holds (conditionOf relation) <;> rfl
  obtain ⟨t', hpasses, hsets⟩ := passes_write (by decide) hrun
  exact ⟨t', hpasses, ⟨(hsets.others _ (by decide)).trans h.count,
    (hsets.others _ (by decide)).trans h.register, hsets.read⟩, hsets.flags⟩

theorem Holds.passes_compared (h : Holds n r status t)
    (hrun : (operation instruction).run t = some (.inl { t.next with
      flags := compareFlags r.toBitVec constant.toBitVec })) (relation : Comparison) :
    ∃ t', core.Passes [instruction, .cset Native.Arm.status relation] t t' ∧
      Holds n r (relation.holds r constant) t' ∧
      t'.flags.holds (conditionOf relation) = relation.holds r constant := by
  let t₁ : State := { t.next with flags := compareFlags r.toBitVec constant.toBitVec }
  have hholds₁ : Holds n r status t₁ := ⟨h.count, h.register, h.status⟩
  have houtcome : t₁.flags.holds (conditionOf relation) = relation.holds r constant :=
    holds_compareFlags relation r constant
  obtain ⟨t', hset, hholds', hflags⟩ := hholds₁.passes_cset relation
  rw [houtcome] at hholds'
  refine ⟨t', .cons hrun rfl hset, hholds', ?_⟩
  rw [hflags, houtcome]

theorem Holds.passes_compare (h : Holds n r status t)
    (hcode : (Native.Arm.compare relation constant).complete = .ok code) :
    code ≠ [] ∧ ∃ t', core.Passes code t t' ∧ Holds n r (relation.holds r constant) t' ∧
      t'.flags.holds (conditionOf relation) = relation.holds r constant := by
  rw [Native.Arm.compare] at hcode
  split at hcode
  next hsmall =>
    simp only [Bool.and_eq_true, decide_eq_true_eq] at hsmall
    obtain rfl := Except.ok.inj hcode
    have hvalue : t.register value = r.toBitVec := h.register
    refine ⟨List.cons_ne_nil _ _, h.passes_compared ?_ relation⟩
    simp only [operation, Operation.run, write_zero, setWidth_ofInt hsmall, hvalue]
  · obtain rfl := Except.ok.inj hcode
    obtain ⟨t₁, hload, hholds, hoperand⟩ := h.passes_operand constant
    have hrun : (operation (.cmp value operand)).run t₁ =
        some (.inl { t₁.next with flags := compareFlags r.toBitVec constant.toBitVec }) := by
      simp only [operation, Operation.run, write_zero, hholds.register, hoperand]
    obtain ⟨t', hcompare, hrest⟩ := hholds.passes_compared hrun relation
    exact ⟨by simp, t', hload.append hcompare, hrest⟩

/-! ### Branches and returns -/

/-- A branch with another displacement. -/
def withDisplacement (displacement : Int32) : Native.Arm.Instruction → Native.Arm.Instruction
  | .branch relation _ => .branch relation displacement
  | .branchZero source _ => .branchZero source displacement
  | .branchNonzero source _ => .branchNonzero source displacement
  | other => other

theorem aim_eq_ok {branch last : Native.Arm.Instruction} {distance : Int}
    (h : isa.aim branch distance = .ok last) (haligned : distance % 4 = 0) :
    ∃ displacement : Int32, 4 * (displacement.toBitVec.setWidth 19).toInt = distance ∧
      last = withDisplacement displacement branch := by
  simp only [isa, Native.Arm.aim] at h
  split at h
  next hreach =>
    simp only [Native.Arm.reach] at hreach
    refine ⟨Int32.ofInt (distance.tdiv 4), ?_, ?_⟩
    · rw [toInt_setWidth (by omega) (by omega)]
      exact Int.mul_tdiv_cancel' (Int.dvd_of_emod_eq_zero haligned)
    · cases branch <;> exact (Except.ok.inj h).symm
  · simp at h

theorem keepsSize_isa : Native.KeepsSize isa := by
  intro branch distance aimed _
  rfl

/-- A branch between places goes to its target or to the instruction behind it. -/
theorem branch_eq {displacement : Int} {target : Nat} (taken : Bool)
    (h : (t.position : Int) + displacement = target) :
    t.branch taken displacement =
      some (.inl { t with position := if taken then target else t.position + 4 }) := by
  cases taken with
  | false => rfl
  | true => simp [State.branch, h]

/-- The distance between places counts whole instructions. -/
theorem distance_aligned {target : Nat} (hplace : IsPlace isa t.position)
    (htarget : IsPlace isa target) : (target - (t.position + isa.origin : Nat) : Int) % 4 = 0 := by
  have horigin : isa.origin = 0 := rfl
  have hposition := aligned_of_isPlace hplace
  have htarget' := aligned_of_isPlace htarget
  omega

/-- A branch that is aimed at a place goes there if it is taken, and leaves the registers. -/
theorem Holds.passes_aimed (h : Holds n r status t) {branch last : Native.Arm.Instruction}
    {target : Nat} {taken : Bool}
    (haim : isa.aim branch (target - (t.position + isa.origin : Nat)) = .ok last)
    (hplace : IsPlace isa t.position) (htarget : IsPlace isa target)
    (hrun : ∀ displacement : Int32, (operation (withDisplacement displacement branch)).run t =
      t.branch taken (4 * (displacement.toBitVec.setWidth 19).toInt)) :
    ∃ t', (operation last).run t = some (.inl t') ∧ Holds n r status t' ∧ t'.flags = t.flags ∧
      t'.position = if taken then target else t.position + 4 := by
  obtain ⟨displacement, hdistance, rfl⟩ := aim_eq_ok haim (distance_aligned hplace htarget)
  have horigin : isa.origin = 0 := rfl
  have hsum : (t.position : Int) + 4 * (displacement.toBitVec.setWidth 19).toInt = target := by
    rw [hdistance, horigin]
    omega
  rw [hrun, branch_eq taken hsum]
  exact ⟨_, rfl, ⟨h.count, h.register, h.status⟩, rfl, rfl⟩

theorem Holds.passes_branchOnStatus (h : Holds n r status t) {on : Bool}
    {last : Native.Arm.Instruction} {target : Nat}
    (haim : isa.aim (isa.branchOnStatus on).2 (target - (t.position + isa.origin : Nat)) =
      .ok last)
    (hplace : IsPlace isa t.position) (htarget : IsPlace isa target) :
    ∃ t', (operation last).run t = some (.inl t') ∧ Holds n r status t' ∧
      t'.position = if status = on then target else t.position + 4 := by
  have hrun : ∀ displacement : Int32,
      (operation (withDisplacement displacement (isa.branchOnStatus on).2)).run t =
        t.branch (status == on) (4 * (displacement.toBitVec.setWidth 19).toInt) := by
    intro displacement
    have hstatus := h.status
    cases on with
    | false =>
      show t.branch (t.read Native.Arm.status = 0) _ = _
      rw [hstatus]
      cases status <;> rfl
    | true =>
      show t.branch (t.read Native.Arm.status ≠ 0) _ = _
      rw [hstatus]
      cases status <;> rfl
  obtain ⟨t', hlast, hholds, -, hposition⟩ := h.passes_aimed haim hplace htarget hrun
  refine ⟨t', hlast, hholds, ?_⟩
  rw [hposition]
  simp

theorem run_ret (h : t.read result = constant.toBitVec) :
    (operation .ret).run t = some (.inr constant) := by
  rw [← constant.ofBitVec_toBitVec, ← h]
  rfl

theorem Holds.passes_retStatus (h : Holds n r status t) :
    ∃ t₁, core.Passes [.mov result Native.Arm.status] t t₁ ∧
      (operation .ret).run t₁ = some (.inr (wordOfBool status)) := by
  have hresult : result ≠ xzr := by decide
  obtain ⟨t₁, hpasses, hsets⟩ := passes_write hresult (run_mov t result Native.Arm.status)
  exact ⟨t₁, hpasses, run_ret (hsets.read.trans h.status)⟩

theorem passes_prologue (h : t.read count = n.toBitVec) :
    ∃ t', core.Passes isa.prologue t t' ∧ Holds n n false t' := by
  have hstatus : Native.Arm.status ≠ xzr := by decide
  have hrun (t : State) : (operation (.movz Native.Arm.status 0 0)).run t =
      some (.inl (t.next.write Native.Arm.status 0)) := rfl
  obtain ⟨t₁, hfirst, hsets₁⟩ := passes_loadCount h
  obtain ⟨t', hlast, hsets'⟩ := passes_write hstatus (hrun t₁)
  refine ⟨t', hfirst.append hlast, ?_, ?_, hsets'.read⟩
  · rw [hsets'.others _ (by decide), hsets₁.others _ (by decide), h]
  · rw [hsets'.others _ (by decide), hsets₁.read]

end PluralForms.Arm
