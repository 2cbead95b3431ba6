import PluralForms.Proofs.Reach

/-! Programs without native code. Assembly fails for an empty program, else at the first jump that
leaves the program, else at the first instruction whose constant the instruction set cannot take,
and in no other case as long as each branch reaches its target. -/

namespace PluralForms

/-- The jump at `index` leaves a program of `size` instructions. -/
def Instruction.Escapes (size index : Nat) : Instruction → Prop
  | .jump _ offset => ¬(0 ≤ (index : Int) + 1 + offset ∧ (index : Int) + 1 + offset ≤ size)
  | _ => False

namespace Program

/-! ### First instructions -/

/-- The instruction at `index` is the first one with the property. -/
structure FirstAt (program : Program) (property : Nat → Instruction → Prop) (index : Nat)
    (instruction : Instruction) : Prop where
  getElem? : program[index]? = some instruction
  holds : property index instruction
  before : ∀ i < index, ∀ other, program[i]? = some other → ¬property i other

variable {program : Program} {property : Nat → Instruction → Prop} {index : Nat}
  {instruction : Instruction}

theorem exists_firstAt (hget : program[index]? = some instruction)
    (h : property index instruction) : ∃ i first, program.FirstAt property i first := by
  induction index using Nat.strong_induction_on generalizing instruction with
  | _ index ih =>
    by_cases hbefore : ∃ i < index, ∃ other, program[i]? = some other ∧ property i other
    · obtain ⟨i, hlt, other, hother, hi⟩ := hbefore
      exact ih i hlt hother hi
    · exact ⟨index, instruction, hget, h, fun i hlt other hother hi =>
        hbefore ⟨i, hlt, other, hother, hi⟩⟩

theorem landing?_eq_none_iff {on : Bool} {offset : Int} {size : Nat} :
    (Instruction.jump on offset).landing? size index = none ↔
      (Instruction.jump on offset).Escapes size index := by
  simp [Instruction.landing?, Instruction.target?, Instruction.Escapes]

theorem not_escapes_of_valid (hvalid : program.invalidJump? = none)
    (hget : program[index]? = some instruction) : ¬instruction.Escapes program.length index := by
  cases instruction with
  | jump on offset =>
    obtain ⟨target, htarget⟩ := exists_landing hvalid hget
    simp [← landing?_eq_none_iff, htarget]
  | _ => exact id

theorem FirstAt.unique {index' : Nat} {instruction' : Instruction}
    (h : program.FirstAt property index instruction)
    (h' : program.FirstAt property index' instruction') :
    index = index' ∧ instruction = instruction' := by
  obtain rfl : index = index' := by
    rcases Nat.lt_trichotomy index index' with hlt | heq | hlt
    · exact absurd h.holds (h'.before index hlt instruction h.getElem?)
    · exact heq
    · exact absurd h'.holds (h.before index' hlt instruction' h'.getElem?)
  exact ⟨rfl, Option.some.inj (h.getElem?.symm.trans h'.getElem?)⟩

theorem FirstAt.isEmpty (h : program.FirstAt property index instruction) :
    program.isEmpty = false := by
  cases program with
  | nil => simpa using h.getElem?
  | cons first rest => rfl

theorem firstAt_of_invalidJump? {jump : InvalidJump} (h : program.invalidJump? = some jump) :
    ∃ on, program.FirstAt (Instruction.Escapes program.length) jump.index
      (.jump on jump.offset) := by
  obtain ⟨before, ⟨instruction, index⟩, after, hzip, hfound, hbefore⟩ :=
    List.findSome?_eq_some_iff.mp h
  have hplace (i : Nat) : (before ++ (instruction, index) :: after)[i]? =
      (program[i]?).map fun other => (other, i) := by
    rw [← hzip, List.getElem?_zipIdx, Nat.zero_add]
  obtain ⟨other, hget, heq⟩ : ∃ other, program[before.length]? = some other ∧
      (other, before.length) = (instruction, index) := by
    have hat := hplace before.length
    rw [List.getElem?_append_right le_rfl, Nat.sub_self] at hat
    exact Option.map_eq_some_iff.mp hat.symm
  obtain ⟨rfl, rfl⟩ := Prod.mk.inj heq
  have hearlier : ∀ i < before.length, ∀ other, program[i]? = some other →
      ¬other.Escapes program.length i := by
    intro i hlt other hother hescapes
    have hat := hplace i
    rw [List.getElem?_append_left hlt, hother] at hat
    have hnone := hbefore _ (List.mem_of_getElem? hat)
    cases other with
    | jump on offset => simp [landing?_eq_none_iff.mpr hescapes] at hnone
    | _ => exact hescapes
  cases other with
  | jump on offset =>
    cases hlands : (Instruction.jump on offset).landing? program.length before.length with
    | some target => simp [hlands] at hfound
    | none =>
      obtain rfl : ⟨before.length, offset⟩ = jump := by simpa [hlands] using hfound
      exact ⟨on, hget, landing?_eq_none_iff.mp hlands, hearlier⟩
  | _ => simp at hfound

end Program

namespace Native

variable {ι : Type} {isa : Isa ι} {program rest : Program} {index : Nat}
  {instruction : Instruction} {error : Error} {bytes : List UInt8}

/-! ### Constants without code -/

/-- The constants that an instruction set has no code for. -/
structure Limits where
  /-- The constant is too wide for sums, differences, products and comparisons. -/
  wide : Int64 → Prop
  /-- The division traps, or gives another value than the machine. -/
  divisor : Int64 → Prop

/-- Why there is no code for an instruction. -/
def Limits.Refuses (limits : Limits) : Instruction → Error → Prop
  | .arith op value, error =>
    if op.divides then limits.divisor value ∧ error = .unsupportedDivisor value
    else limits.wide value ∧ error = .immediateOutOfRange value
  | .loadMod value, error => limits.divisor value ∧ error = .unsupportedDivisor value
  | .test _ value, error => limits.wide value ∧ error = .immediateOutOfRange value
  | _, _ => False

def Limits.Refused (limits : Limits) (instruction : Instruction) : Prop :=
  ∃ error, limits.Refuses instruction error

/-- The instruction set has code for the instructions that are not refused and for no others, and
its branches go anywhere within their reach. -/
structure Isa.Obeys (isa : Isa ι) (limits : Limits) : Prop where
  pieceOf_eq_error_iff : ∀ flags landing instruction error,
    pieceOf isa flags landing instruction = .error error ↔ limits.Refuses instruction error
  displacement_of_aim : ∀ branch distance error, isa.aim branch distance = .error error →
    ∃ displacement, error = .displacementOutOfRange displacement

theorem map_plain_eq_error_iff {emission : Emission ι} :
    emission.complete.map Piece.plain = .error error ↔ emission.error? = some error := by
  obtain ⟨code, error?⟩ := emission
  cases error? <;> simp [Emission.complete, Except.map]

/-! ### Pieces -/

section Obeys

variable {limits : Limits} (h : isa.Obeys limits)
include h

theorem Isa.Obeys.exists_piece (hnone : ¬limits.Refused instruction) (flags : Option Comparison)
    (landing : Nat) : ∃ piece, pieceOf isa flags landing instruction = .ok piece := by
  cases hpiece : pieceOf isa flags landing instruction with
  | ok piece => exact ⟨piece, rfl⟩
  | error error => exact absurd ⟨error, (h.pieceOf_eq_error_iff ..).mp hpiece⟩ hnone

theorem Isa.Obeys.exists_piecesFrom (hnone : ∀ instruction ∈ rest, ¬limits.Refused instruction)
    (size : Nat) (targets : Array Bool) (index : Nat) (flags : Option Comparison) :
    ∃ pieces, piecesFrom isa size targets index flags rest = .ok pieces := by
  induction rest generalizing index flags with
  | nil => exact ⟨[], rfl⟩
  | cons first rest ih =>
    obtain ⟨hfirst, hrest⟩ := List.forall_mem_cons.mp hnone
    simp only [piecesFrom]
    generalize (if targets.getD index false then none else flags) = flags
    obtain ⟨piece, hpiece⟩ := h.exists_piece hfirst flags ((first.landing? size index).getD 0)
    obtain ⟨others, hothers⟩ := ih hrest (index + 1) (flagsAfter flags first)
    exact ⟨piece :: others, by rw [hpiece, hothers]; rfl⟩

/-- The error is that of the first instruction without code. -/
theorem Isa.Obeys.piecesFrom_of_firstAt {k : Nat}
    (hfirst : rest.FirstAt (fun _ => limits.Refused) k instruction)
    (herror : limits.Refuses instruction error) (size : Nat) (targets : Array Bool) (index : Nat)
    (flags : Option Comparison) :
    piecesFrom isa size targets index flags rest = .error error := by
  induction rest generalizing k index flags with
  | nil => simpa using hfirst.getElem?
  | cons first rest ih =>
    simp only [piecesFrom]
    generalize (if targets.getD index false then none else flags) = flags
    cases k with
    | zero =>
      obtain rfl := Option.some.inj hfirst.getElem?
      rw [(h.pieceOf_eq_error_iff ..).mpr herror]
      rfl
    | succ k =>
      have hrest : Program.FirstAt rest (fun _ => limits.Refused) k instruction :=
        ⟨hfirst.getElem?, hfirst.holds, fun i hlt other =>
          hfirst.before (i + 1) (Nat.succ_lt_succ hlt) other⟩
      obtain ⟨piece, hpiece⟩ := h.exists_piece (hfirst.before 0 (Nat.succ_pos k) first rfl) flags
        ((first.landing? size index).getD 0)
      rw [hpiece, ih hrest]
      rfl

end Obeys

/-! ### Branches -/

theorem exists_of_mapM_eq_error {α β ε : Type} {f : α → Except ε β} {xs : List α} {e : ε}
    (h : xs.mapM f = .error e) : ∃ x ∈ xs, f x = .error e := by
  induction xs with
  | nil => simp [pure, Except.pure] at h
  | cons x xs ih =>
    rw [List.mapM_cons] at h
    simp only [bind, Except.bind] at h
    split at h
    · next hx =>
      obtain rfl := Except.error.inj h
      exact ⟨x, List.mem_cons_self, hx⟩
    · split at h
      · next hxs =>
        obtain rfl := Except.error.inj h
        obtain ⟨y, hy, herror⟩ := ih hxs
        exact ⟨y, List.mem_cons_of_mem x hy, herror⟩
      · simp [pure, Except.pure] at h

/-- Where the pieces of a program cannot all be aimed, some branch cannot. -/
theorem exists_branch_of_mapM {pieces : List (Piece ι)}
    (h : ((pieces ++ [finalPiece isa program]).zip (starts isa program pieces)).mapM
      (fun (piece, start) => piece.aimed isa (starts isa program pieces).toArray start) =
        .error error) :
    ∃ (index : Nat) (before : List ι) (branch : ι) (target start : Nat),
      pieces[index]? = some (.branch before branch target) ∧
      (starts isa program pieces)[index]? = some start ∧
      isa.aim branch ((starts isa program pieces).getD target 0 -
        (start + isa.size before + isa.origin : Nat)) = .error error := by
  obtain ⟨⟨piece, start⟩, hmem, haimed⟩ := exists_of_mapM_eq_error h
  obtain ⟨index, hzip⟩ := List.mem_iff_getElem?.mp hmem
  obtain ⟨hpiece, hstart⟩ := List.getElem?_zip_eq_some.mp hzip
  cases piece with
  | plain code => simp [Piece.aimed] at haimed
  | branch before branch target =>
    have hindex : index < pieces.length := by
      by_contra hge
      rw [List.getElem?_append_right (Nat.not_lt.mp hge)] at hpiece
      have hfinal := List.mem_singleton.mp (List.mem_of_getElem? hpiece)
      simp [finalPiece] at hfinal
    rw [List.getElem?_append_left hindex] at hpiece
    refine ⟨index, before, branch, target, start, hpiece, hstart, ?_⟩
    simp only [Piece.aimed, bind, Except.bind] at haimed
    split at haimed
    · next haim =>
      obtain rfl := Except.error.inj haimed
      simpa [List.getD_eq_getElem?_getD] using haim
    · simp [pure, Except.pure] at haimed

/-! ### Programs -/

/-- Why there is no code for a program, as long as its branches can be encoded. -/
inductive Limits.Rejects (limits : Limits) (program : Program) : Error → Prop
  | empty : program = [] → Rejects limits program .emptyProgram
  | jump {index : Nat} {on : Bool} {offset : Int} :
      program.FirstAt (Instruction.Escapes program.length) index (.jump on offset) →
      Rejects limits program (.invalidJump ⟨index, offset⟩)
  | instruction {index : Nat} {instruction : Instruction} {error : Error} :
      (∀ (i : Nat) other, program[i]? = some other → ¬other.Escapes program.length i) →
      program.FirstAt (fun _ => limits.Refused) index instruction →
      limits.Refuses instruction error → Rejects limits program error

theorem assemble_error_iff :
    assemble isa program = .error error ↔ assembleCode isa program = .error error := by
  rw [assemble]
  cases assembleCode isa program <;> simp [Except.map]

section Obeys

variable {limits : Limits} (h : isa.Obeys limits)
include h

/-- Assembly fails for no other reason but that a branch does not reach its target. -/
theorem Isa.Obeys.rejects_of_assembleCode (herror : assembleCode isa program = .error error) :
    limits.Rejects program error ∨
      (∃ displacement, error = .displacementOutOfRange displacement) ∧ ¬Encodable isa program := by
  simp only [assembleCode, bind, Except.bind] at herror
  split at herror
  · next hempty =>
    obtain rfl := Except.error.inj herror
    exact .inl (.empty (List.isEmpty_iff.mp hempty))
  next hne =>
  split at herror
  · next jump hjump =>
    obtain rfl := Except.error.inj herror
    obtain ⟨on, hfirst⟩ := Program.firstAt_of_invalidJump? hjump
    exact .inl (.jump hfirst)
  next hvalid =>
  replace hvalid := Option.eq_none_iff_forall_ne_some.mpr hvalid
  split at herror
  · next hpieces =>
    obtain rfl := Except.error.inj herror
    obtain ⟨index, instruction, hget, hrefused⟩ :
        ∃ (index : Nat) (instruction : Instruction), program[index]? = some instruction ∧
          limits.Refused instruction := by
      by_contra hnone
      obtain ⟨pieces, hok⟩ := h.exists_piecesFrom (fun instruction hmem hrefused => hnone
        ((List.mem_iff_getElem?.mp hmem).imp fun _ hget => ⟨instruction, hget, hrefused⟩))
        program.length program.targets 0 none
      rw [hok] at hpieces
      cases hpieces
    obtain ⟨i, first, hfirst⟩ : ∃ i first, program.FirstAt (fun _ => limits.Refused) i first :=
      Program.exists_firstAt hget hrefused
    obtain ⟨reason, hreason⟩ := hfirst.holds
    rw [h.piecesFrom_of_firstAt hfirst hreason] at hpieces
    obtain rfl := Except.error.inj hpieces
    exact .inl (.instruction (fun i other hother => Program.not_escapes_of_valid hvalid hother)
      hfirst hreason)
  next pieces hpieces =>
  split at herror
  · next hcodes =>
    obtain rfl := Except.error.inj herror
    obtain ⟨index, before, branch, target, start, hpiece, hstart, haim⟩ :=
      exists_branch_of_mapM hcodes
    refine .inr ⟨h.displacement_of_aim _ _ _ haim, fun hencodable => ?_⟩
    obtain ⟨aimed, haimed⟩ :=
      hencodable pieces hpieces index before branch target start hpiece hstart
    rw [haimed] at haim
    cases haim
  · simp [pure, Except.pure] at herror

/-- A valid program fails for a constant or for a branch. -/
theorem Isa.Obeys.refuses_of_assemble (hne : program ≠ []) (hvalid : program.invalidJump? = none)
    (herror : assemble isa program = .error error) :
    (∃ instruction ∈ program, limits.Refuses instruction error) ∨
      (∃ displacement, error = .displacementOutOfRange displacement) ∧
        ¬Encodable isa program := by
  refine (h.rejects_of_assembleCode (assemble_error_iff.mp herror)).imp_left fun hrejects => ?_
  cases hrejects with
  | empty hempty => exact absurd hempty hne
  | jump hfirst => exact absurd hfirst.holds (Program.not_escapes_of_valid hvalid hfirst.getElem?)
  | instruction _ hfirst hrefuses => exact ⟨_, List.mem_of_getElem? hfirst.getElem?, hrefuses⟩

end Obeys

end Native

namespace X86

open Native

/-- Immediates are signed words of 32 bits. The division traps for the divisor 0 and may trap for
-1. -/
def limits : Limits where
  wide value := ¬(-0x80000000 ≤ value.toInt ∧ value.toInt < 0x80000000)
  divisor value := value = 0 ∨ value = -1

theorem int32?_eq_none_iff (value : Int64) :
    Native.X86.int32? value.toInt = none ↔ limits.wide value := by
  rw [Native.X86.int32?, ite_eq_right_iff]
  exact ⟨fun h hfits => absurd (h hfits) (Option.some_ne_none _), fun h hfits => absurd hfits h⟩

theorem error?_immediate (instruction : Int32 → Native.X86.Instruction) (value : Int64)
    (error : Error) :
    (Native.X86.immediate instruction value).error? = some error ↔
      limits.wide value ∧ error = .immediateOutOfRange value := by
  rw [← int32?_eq_none_iff, Native.X86.immediate]
  cases Native.X86.int32? value.toInt with
  | none => simpa using eq_comm
  | some small => simp

theorem error?_divide (before after : List Native.X86.Instruction) (value : Int64) (error : Error) :
    (Native.X86.divide before value after).error? = some error ↔
      limits.divisor value ∧ error = .unsupportedDivisor value := by
  rw [Native.X86.divide]
  by_cases h : value = 0 ∨ value = -1
  · simpa [h, limits] using eq_comm
  · simp [h, limits]

theorem error?_compare (relation : Comparison) (value : Int64) :
    (Native.X86.compare relation value).error? = (Native.X86.immediate .cmpRax value).error? := by
  rw [Native.X86.compare]
  split <;> rfl

theorem obeys_limits : Native.X86.isa.Obeys limits where
  pieceOf_eq_error_iff flags landing instruction error := by
    cases instruction with
    | load unused =>
      rw [pieceOf, map_plain_eq_error_iff]
      simp [Native.X86.isa, Native.X86.arith, Limits.Refuses]
    | arith op value =>
      rw [pieceOf, map_plain_eq_error_iff]
      cases op with
      | add | sub | mul => exact error?_immediate _ value error
      | div | mod => exact error?_divide _ _ value error
    | loadMod value => exact map_plain_eq_error_iff.trans (error?_divide _ _ value error)
    | test relation value =>
      rw [pieceOf, map_plain_eq_error_iff]
      rw [show Native.X86.isa.compare = Native.X86.compare from rfl, error?_compare]
      exact error?_immediate _ value error
    | ret value => simp [pieceOf, Limits.Refuses]
    | jump on offset => cases flags <;> simp [pieceOf, Limits.Refuses]
  displacement_of_aim branch distance error h := by
    cases branch with
    | jump relation displacement =>
      simp only [Native.X86.isa, Native.X86.aim] at h
      split at h
      · simp at h
      · exact ⟨distance, (Except.error.inj h).symm⟩
    | _ => simp [Native.X86.isa, Native.X86.aim] at h

end X86

namespace Arm

open Native

/-- A constant of any width is put together in a register. The processor divides by zero without a
trap. -/
def limits : Limits where
  wide _ := False
  divisor value := value = 0

theorem error?_divide (before code : List Native.Arm.Instruction) (value : Int64) (error : Error) :
    (Native.Arm.divide before value code).error? = some error ↔
      limits.divisor value ∧ error = .unsupportedDivisor value := by
  rw [Native.Arm.divide]
  by_cases h : value = 0
  · simpa [h, limits] using eq_comm
  · simp [h, limits]

theorem error?_compare (relation : Comparison) (value : Int64) :
    (Native.Arm.compare relation value).error? = none := by
  rw [Native.Arm.compare]
  split <;> rfl

theorem obeys_limits : Native.Arm.isa.Obeys limits where
  pieceOf_eq_error_iff flags landing instruction error := by
    cases instruction with
    | load unused =>
      rw [pieceOf, map_plain_eq_error_iff]
      simp [Native.Arm.isa, Native.Arm.arith, Limits.Refuses]
    | arith op value =>
      rw [pieceOf, map_plain_eq_error_iff]
      cases op with
      | add | sub | mul =>
        simp [Native.Arm.isa, Native.Arm.arith, Native.Arm.withOperand, Limits.Refuses, limits,
          Arithmetic.divides]
      | div | mod => exact error?_divide _ _ value error
    | loadMod value => exact map_plain_eq_error_iff.trans (error?_divide _ _ value error)
    | test relation value =>
      rw [pieceOf, map_plain_eq_error_iff]
      rw [show Native.Arm.isa.compare = Native.Arm.compare from rfl, error?_compare]
      simp [Limits.Refuses, limits]
    | ret value => simp [pieceOf, Limits.Refuses]
    | jump on offset => cases flags <;> simp [pieceOf, Limits.Refuses]
  displacement_of_aim branch distance error h := by
    simp only [Native.Arm.isa, Native.Arm.aim] at h
    split at h
    · cases branch <;> simp at h
    · exact ⟨distance.tdiv 4, (Except.error.inj h).symm⟩

end Arm

namespace Native

end Native

end PluralForms
