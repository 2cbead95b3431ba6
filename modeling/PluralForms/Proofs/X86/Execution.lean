import PluralForms.Proofs.Emulation
import PluralForms.Proofs.X86.Encoding
import PluralForms.Proofs.X86.Words

/-! Native code for x86-64 on the processor: the instructions of native code are executed in their
places, and the code of each opcode does in `rax` and `r8` what the opcode does in `R` and `S`. -/

namespace PluralForms.X86

open Native (CodeAt)
open Native.X86 (isa int32?)

/-! ### Instructions in their places -/

/-- The state after the bytes of an instruction are read. -/
def State.past (t : State) (instruction : Native.X86.Instruction) : State :=
  { t with position := t.position + instruction.encode.length, clock := t.clock + 1 }

section Places

variable {whole code : List Native.X86.Instruction} {instruction : Native.X86.Instruction}
  {undefined : Nat → Flags} {t : State} {place : Nat}

theorem decode_of_codeAt (h : CodeAt isa whole place (instruction :: code)) :
    decode ((isa.bytes whole).drop place) =
      some (operation instruction, instruction.encode.length) := by
  obtain ⟨rest, hrest⟩ := h.bytes
  rw [hrest, Native.Isa.bytes, List.flatMap_cons, List.append_assoc]
  exact decode_encode instruction _

/-- Where code stands, an instruction starts. -/
theorem starts_of_codeAt (h : CodeAt isa whole place code) :
    Starts (isa.bytes whole) place := by
  obtain ⟨before, after, rfl, rfl⟩ := h
  induction before using List.reverseRecOn generalizing code after with
  | nil => exact .zero
  | append_singleton before instruction ih =>
    have hcode : CodeAt isa (before ++ ([instruction] ++ (code ++ after))) (isa.size before)
        (instruction :: code) := ⟨before, after, by simp, rfl⟩
    have hnext := Starts.next (@ih [instruction] (code ++ after)) (decode_of_codeAt hcode)
    rw [isa.size_append, List.append_assoc]
    simpa [Native.Isa.size, Native.Isa.bytes, isa] using hnext

theorem step_of_codeAt (h : CodeAt isa whole t.position (instruction :: code)) :
    (processor (isa.bytes whole) undefined).step t =
      (operation instruction).run (undefined t.clock) (t.past instruction) := by
  simp only [processor, decode_of_codeAt h]
  rfl

/-- The processor stands at the start of an instruction that lies in the code as a whole, and
executes it without an exception. -/
structure Proceeds (bytes : List UInt8) (undefined : Nat → Flags) (t : State) : Prop where
  starts : Starts bytes t.position
  inside : ∃ operation size, decode (bytes.drop t.position) = some (operation, size) ∧
    t.position + size ≤ bytes.length
  step : (processor bytes undefined).step t ≠ none

theorem proceeds_of_codeAt (h : CodeAt isa whole t.position (instruction :: code))
    (hrun : (operation instruction).run (undefined t.clock) (t.past instruction) ≠ none) :
    Proceeds (isa.bytes whole) undefined t where
  starts := starts_of_codeAt h
  inside := by
    refine ⟨_, _, decode_of_codeAt h, ?_⟩
    obtain ⟨before, after, rfl, hposition⟩ := h
    rw [hposition, isa.bytes_append, List.length_append]
    simp [Native.Isa.size, Native.Isa.bytes, isa]
  step := by rwa [step_of_codeAt h]

end Places

/-- The processor, with the flags that are left undefined. -/
def core (undefined : Nat → Flags) : Native.Core Native.X86.Instruction State where
  isa := isa
  position := State.position
  run instruction t := (operation instruction).run (undefined t.clock) (t.past instruction)
  system bytes := processor bytes undefined
  Proceeds bytes := Proceeds bytes undefined
  step_of_codeAt := step_of_codeAt
  proceeds_of_codeAt := proceeds_of_codeAt

variable {before code after : List Native.X86.Instruction} {undefined : Nat → Flags}
  {t t₁ : State} {n r value : Int64} {status : Bool} {relation : Comparison}

/-! ### The code of opcodes -/

/-- The registers hold the count, `R` and `S`. -/
structure Holds (n r : Int64) (status : Bool) (t : State) : Prop where
  count : t.register .rdi = n.toBitVec
  register : t.register .rax = r.toBitVec
  status : t.register .r8 = (wordOfBool status).toBitVec

theorem immediate_eq_ok {build : Int32 → Native.X86.Instruction}
    (h : (Native.X86.immediate build value).complete = .ok code) :
    ∃ small : Int32, small.toBitVec.signExtend 64 = value.toBitVec ∧ code = [build small] := by
  rw [Native.X86.immediate] at h
  split at h
  next small hsmall => exact ⟨small, signExtend_of_int32? hsmall, (Except.ok.inj h).symm⟩
  · simp [Native.Emission.complete] at h

theorem divide_eq_ok (h : (Native.X86.divide before value after).complete = .ok code) :
    value ≠ 0 ∧ value ≠ -1 ∧
      code = before ++ [Native.X86.loadOperand value, .cqo, .idivR11] ++ after := by
  rw [Native.X86.divide] at h
  split at h
  · simp [Native.Emission.complete] at h
  next hvalue =>
    simp only [Bool.or_eq_true, decide_eq_true_eq, not_or] at hvalue
    exact ⟨hvalue.1, hvalue.2, (Except.ok.inj h).symm⟩

theorem operation_loadOperand :
    operation (Native.X86.loadOperand value) = .moveImmediate .r11 value.toBitVec := by
  rw [Native.X86.loadOperand]
  split
  next small hsmall => rw [operation, signExtend_of_int32? hsmall]
  · rfl

theorem run_divide {flags : Flags} (hzero : value ≠ 0) (hminus : value ≠ -1)
    (hrax : t.register .rax = r.toBitVec)
    (hrdx : t.register .rdx = if r.toBitVec.msb then -1 else 0)
    (hr11 : t.register .r11 = value.toBitVec) :
    (Operation.divide .r11).run flags t =
      some (.inl { (t.set .rax (r / value).toBitVec).set .rdx (r % value).toBitVec with
        flags }) := by
  obtain ⟨hdivisor, hlow, hhigh⟩ := tdiv_bounds (a := r) hzero hminus
  simp only [Operation.run, hrax, hrdx, hr11, dividend_eq, Int64.toInt_toBitVec, ofInt_tdiv,
    ofInt_tmod]
  rw [if_neg (by omega)]

section Opcodes

variable (undefined)

theorem passes_divide (hzero : value ≠ 0) (hminus : value ≠ -1) (h : Holds n r status t) :
    ∃ t', (core undefined).Passes [Native.X86.loadOperand value, .cqo, .idivR11] t t' ∧
      Holds n (r / value) status t' ∧ t'.register .rdx = (r % value).toBitVec := by
  have hload : (operation (Native.X86.loadOperand value)).run (undefined t.clock)
      (t.past (Native.X86.loadOperand value)) =
        some (.inl ((t.past (Native.X86.loadOperand value)).set .r11 value.toBitVec)) := by
    rw [operation_loadOperand]
    rfl
  have hsign : (if (t.register .rax).msb then -1 else 0 : BitVec 64) =
      if r.toBitVec.msb then -1 else 0 := by
    rw [h.register]
  exact ⟨_, .cons hload rfl (.cons rfl rfl
    (.cons (run_divide hzero hminus h.register hsign rfl) rfl .nil)),
    ⟨h.count, rfl, h.status⟩, rfl⟩

theorem passes_remainder (hzero : value ≠ 0) (hminus : value ≠ -1) (h : Holds n r status t) :
    ∃ t', (core undefined).Passes [Native.X86.loadOperand value, .cqo, .idivR11, .movRaxRdx] t t' ∧
      Holds n (r % value) status t' := by
  obtain ⟨t', hpasses, hholds, hrdx⟩ := passes_divide undefined hzero hminus h
  exact ⟨_, hpasses.append (.cons rfl rfl .nil), hholds.count, hrdx, hholds.status⟩

theorem passes_loadCount (h : Holds n r status t) :
    ∃ t', (core undefined).Passes [.movRaxRdi] t t' ∧ Holds n n status t' :=
  ⟨_, .cons rfl rfl .nil, h.count, h.count, h.status⟩

/-- The code of an opcode that alters `R` does so, and leaves the count and `S` as they are. -/
theorem passes_arith {op : Opcode} (halters : op.altersRegister = true)
    (hcode : (Native.X86.arith op value).complete = .ok code) (h : Holds n r status t) :
    code ≠ [] ∧
      ∃ t', (core undefined).Passes code t t' ∧ Holds n (op.apply r value n) status t' := by
  cases op with
  | ret | jump | test => simp [Opcode.altersRegister] at halters
  | load =>
    obtain rfl := Except.ok.inj hcode
    exact ⟨List.cons_ne_nil _ _, passes_loadCount undefined h⟩
  | loadMod =>
    obtain ⟨hzero, hminus, rfl⟩ := divide_eq_ok hcode
    obtain ⟨t₁, hfirst, hholds⟩ := passes_loadCount undefined h
    obtain ⟨t', hrest, hholds⟩ := passes_remainder undefined hzero hminus hholds
    refine ⟨List.cons_ne_nil _ _, t', hfirst.append hrest, ?_⟩
    rwa [Opcode.apply, Arithmetic.apply, if_neg hzero]
  | arith op =>
    cases op with
    | add =>
      obtain ⟨small, hsmall, rfl⟩ := immediate_eq_ok hcode
      refine ⟨List.cons_ne_nil _ _, _, .cons rfl rfl .nil, h.count, ?_, h.status⟩
      show t.register .rax + small.toBitVec.signExtend 64 = _
      rw [h.register, hsmall]
      rfl
    | sub =>
      obtain ⟨small, hsmall, rfl⟩ := immediate_eq_ok hcode
      refine ⟨List.cons_ne_nil _ _, _, .cons rfl rfl .nil, h.count, ?_, h.status⟩
      show t.register .rax - small.toBitVec.signExtend 64 = _
      rw [h.register, hsmall]
      rfl
    | mul =>
      obtain ⟨small, hsmall, rfl⟩ := immediate_eq_ok hcode
      refine ⟨List.cons_ne_nil _ _, _, .cons rfl rfl .nil, h.count, ?_, h.status⟩
      show t.register .rax * small.toBitVec.signExtend 64 = _
      rw [h.register, hsmall]
      rfl
    | div =>
      obtain ⟨hzero, hminus, rfl⟩ := divide_eq_ok hcode
      obtain ⟨t', hpasses, hholds, -⟩ := passes_divide undefined hzero hminus h
      refine ⟨List.cons_ne_nil _ _, t', hpasses, ?_⟩
      rwa [Opcode.apply, Arithmetic.apply, if_neg hzero]
    | mod =>
      obtain ⟨hzero, hminus, rfl⟩ := divide_eq_ok hcode
      rw [Opcode.apply, Arithmetic.apply, if_neg hzero]
      exact ⟨List.cons_ne_nil _ _, passes_remainder undefined hzero hminus h⟩

theorem compare_eq_ok (h : (Native.X86.compare relation value).complete = .ok code) :
    ∃ small : Int32, small.toBitVec.signExtend 64 = value.toBitVec ∧
      code = [.cmpRax small, .setR8 relation, .movzxR8] := by
  simp only [Native.X86.compare, Native.X86.immediate] at h
  cases hsmall : int32? value.toInt with
  | none => simp [hsmall, Native.Emission.complete] at h
  | some small =>
    simp only [hsmall] at h
    exact ⟨small, signExtend_of_int32? hsmall, (Except.ok.inj h).symm⟩

/-- The code of a comparison leaves its outcome in the flags and in `S`. -/
theorem passes_compare (hcode : (Native.X86.compare relation value).complete = .ok code)
    (h : Holds n r status t) :
    code ≠ [] ∧ ∃ t', (core undefined).Passes code t t' ∧ Holds n r (relation.holds r value) t' ∧
      t'.flags.holds relation = relation.holds r value := by
  obtain ⟨small, hsmall, rfl⟩ := compare_eq_ok hcode
  have hflags : (compareFlags (t.register .rax) (small.toBitVec.signExtend 64)).holds relation =
      relation.holds r value := by
    rw [h.register, hsmall, holds_compareFlags]
  refine ⟨List.cons_ne_nil _ _, _, .cons rfl rfl (.cons rfl rfl (.cons rfl rfl .nil)),
    ⟨h.count, h.register, ?_⟩, hflags⟩
  rw [← hflags]
  exact setWidth_setByte (t.register .r8) _

end Opcodes

/-! ### Branches and returns -/

theorem aim_eq_ok {last : Native.X86.Instruction} {displacement : Int32} {distance : Int}
    (h : isa.aim (.jump relation displacement) distance = .ok last) :
    ∃ displacement : Int32, displacement.toInt = distance ∧ last = .jump relation displacement := by
  simp only [isa, Native.X86.aim] at h
  split at h
  next displacement hdisplacement =>
    exact ⟨displacement, toInt_of_int32? hdisplacement, (Except.ok.inj h).symm⟩
  · simp at h

theorem keepsSize_isa : Native.KeepsSize isa := by
  intro branch distance aimed h
  cases branch with
  | jump relation displacement =>
    obtain ⟨displacement, -, rfl⟩ := aim_eq_ok h
    rfl
  | _ =>
    obtain rfl := Except.ok.inj h
    rfl

theorem run_jump (flags : Flags) (relation : Comparison) {displacement : Int} {target : Nat}
    (h : (t.position : Int) + displacement = target) :
    (Operation.jump relation displacement).run flags t =
      some (.inl { t with position := if t.flags.holds relation then target else t.position }) := by
  simp only [Operation.run, h]
  cases t.flags.holds relation
  · rfl
  · simp

/-- A branch that is aimed at a place goes there if its relation holds, and leaves the registers. -/
theorem Holds.passes_aimed (h : Holds n r status t) {last : Native.X86.Instruction}
    {displacement : Int32} {target : Nat}
    (haim : isa.aim (.jump relation displacement) (target - (t.position + isa.origin : Nat)) =
      .ok last) :
    ∃ t', (core undefined).run last t = some (.inl t') ∧ Holds n r status t' ∧
      t'.flags = t.flags ∧ t'.position = if t.flags.holds relation then target
        else t.position + last.encode.length := by
  obtain ⟨displacement, hdistance, rfl⟩ := aim_eq_ok haim
  have hsum : ((t.past (.jump relation displacement)).position : Int) + displacement.toInt =
      target := by
    rw [hdistance]
    show ((t.position + 6 : Nat) : Int) + (target - (t.position + 6 : Nat)) = target
    omega
  exact ⟨_, run_jump (undefined t.clock) relation hsum, ⟨h.count, h.register, h.status⟩, rfl, rfl⟩

/-- A branch on `S` tests it and branches where the flags tell the value. -/
theorem Holds.passes_branchOnStatus (h : Holds n r status t) {on : Bool}
    {last : Native.X86.Instruction} {target : Nat}
    (haim : isa.aim (isa.branchOnStatus on).2
      (target - (t.position + isa.size [.testR8] + isa.origin : Nat)) = .ok last) :
    ∃ t₁ t', (core undefined).Passes [.testR8] t t₁ ∧
      (core undefined).run last t₁ = some (.inl t') ∧ Holds n r status t' ∧
      t'.position = if status = on then target else t₁.position + last.encode.length := by
  let t₁ : State := { t.past .testR8 with
    flags := resultFlags (t.register .r8 &&& t.register .r8) false }
  have hpasses : (core undefined).Passes [.testR8] t t₁ := .cons rfl rfl .nil
  have hholds₁ : Holds n r status t₁ := ⟨h.count, h.register, h.status⟩
  have htells : t₁.flags.holds (if on then .ne else .eq) = (status == on) := by
    rw [← holds_test, ← h.status]
  obtain ⟨t', hrun, hholds', -, hposition⟩ := hholds₁.passes_aimed haim
  refine ⟨t₁, t', hpasses, hrun, hholds', ?_⟩
  rw [hposition, htells]
  simp

theorem run_ret (h : t.register .rax = value.toBitVec) :
    (core undefined).run .ret t = some (.inr value) := by
  rw [← value.ofBitVec_toBitVec, ← h]
  rfl

theorem passes_ret (value : Int64) (t : State) :
    ∃ before last t₁, isa.ret value = before ++ [last] ∧ (core undefined).Passes before t t₁ ∧
      (core undefined).run last t₁ = some (.inr value) := by
  simp only [isa]
  split
  next small hsmall =>
    exact ⟨[.movRax small], .ret, _, rfl, .cons rfl rfl .nil,
      run_ret (signExtend_of_int32? hsmall)⟩
  · exact ⟨[.movabsRax value], .ret, _, rfl, .cons rfl rfl .nil, run_ret rfl⟩

theorem passes_prologue (h : t.register .rdi = n.toBitVec) :
    ∃ t', (core undefined).Passes isa.prologue t t' ∧ Holds n n false t' := by
  refine ⟨_, .cons rfl rfl (.cons rfl rfl .nil), h, h, ?_⟩
  show ((t.register .r8).setWidth 32 ^^^ (t.register .r8).setWidth 32).setWidth 64 = _
  rw [BitVec.xor_self]
  rfl

end PluralForms.X86
