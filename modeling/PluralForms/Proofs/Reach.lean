import PluralForms.Native.X86
import PluralForms.Proofs.Arm.Execution
import PluralForms.Proofs.Lexing

/-! The reach of branches. A branch can be encoded if its target is not too far away, and in the
code of a short program no target is. -/

namespace PluralForms

namespace Native

variable {ι : Type} {isa : Isa ι} {program rest : Program} {index : Nat}
  {instruction : Instruction}

/-- The byte offsets of the pieces of a program, the final one included. -/
def starts (isa : Isa ι) (program : Program) (pieces : List (Piece ι)) : List Nat :=
  startsFrom isa (isa.size isa.prologue) (pieces ++ [finalPiece isa program])

/-- Each branch in the code of the program can be encoded with the displacement that it has. -/
def Encodable (isa : Isa ι) (program : Program) : Prop :=
  ∀ pieces, piecesFrom isa program.length program.targets 0 none program = .ok pieces →
    ∀ (index : Nat) before branch target start,
      pieces[index]? = some (.branch before branch target) →
      (starts isa program pieces)[index]? = some start →
      ∃ aimed, isa.aim branch ((starts isa program pieces).getD target 0 -
        (start + isa.size before + isa.origin : Nat)) = .ok aimed

/-! ### Short programs -/

/-- Pieces take at most `most` bytes, and a branch goes up to `reach` bytes far. -/
structure Isa.Spans (isa : Isa ι) (most reach : Nat) : Prop where
  prologue : isa.size isa.prologue ≤ most
  origin : isa.origin ≤ most
  piece : ∀ flags landing instruction piece, pieceOf isa flags landing instruction = .ok piece →
    isa.size piece.code ≤ most
  aim : ∀ branch (distance : Int), -reach ≤ distance → distance ≤ reach →
    ∃ aimed, isa.aim branch distance = .ok aimed

theorem size_le_of_piecesFrom {most size : Nat} {targets : Array Bool} {flags : Option Comparison}
    {pieces : List (Piece ι)}
    (hpiece : ∀ flags landing instruction piece, pieceOf isa flags landing instruction = .ok piece →
      isa.size piece.code ≤ most)
    (h : piecesFrom isa size targets index flags rest = .ok pieces) :
    pieces.length = rest.length ∧ ∀ piece ∈ pieces, isa.size piece.code ≤ most := by
  induction rest generalizing index flags pieces with
  | nil =>
    obtain rfl := Except.ok.inj h
    exact ⟨rfl, by simp⟩
  | cons first rest ih =>
    simp only [piecesFrom, bind_eq_ok_iff] at h
    obtain ⟨piece, hfirst, others, hothers, heq⟩ := h
    obtain rfl := Except.ok.inj heq
    obtain ⟨hlength, hsizes⟩ := ih hothers
    exact ⟨congrArg (· + 1) hlength, List.forall_mem_cons.mpr ⟨hpiece _ _ _ _ hfirst, hsizes⟩⟩

/-- A piece starts behind those before it. -/
theorem startsFrom_le {most start place k : Nat} {pieces : List (Piece ι)}
    (hsizes : ∀ piece ∈ pieces.take k, isa.size piece.code ≤ most)
    (h : (startsFrom isa start pieces)[k]? = some place) : place ≤ start + most * k := by
  induction pieces generalizing start k with
  | nil => simp [startsFrom] at h
  | cons first rest ih =>
    cases k with
    | zero =>
      obtain rfl := Option.some.inj h
      exact Nat.le_add_right start _
    | succ k =>
      rw [List.take_succ_cons, List.forall_mem_cons] at hsizes
      have hplace := ih hsizes.2 h
      have hfirst := hsizes.1
      rw [Nat.mul_succ]
      omega

theorem length_startsFrom (start : Nat) (pieces : List (Piece ι)) :
    (startsFrom isa start pieces).length = pieces.length := by
  induction pieces generalizing start with
  | nil => rfl
  | cons first rest ih => exact congrArg (· + 1) (ih _)

/-- The branches of a short program reach their targets. -/
theorem Isa.Spans.encodable {most reach : Nat} (h : isa.Spans most reach)
    (hlength : most * (program.length + 3) ≤ reach) : Encodable isa program := by
  intro pieces hpieces index before branch target start hpiece hstart
  obtain ⟨hcount, hsizes⟩ := size_le_of_piecesFrom h.piece hpieces
  have hplace : ∀ (k place : Nat), (starts isa program pieces)[k]? = some place →
      place ≤ most + most * program.length := by
    intro k place hget
    have hk := (List.getElem?_eq_some_iff.mp hget).1
    rw [starts, length_startsFrom, List.length_append, List.length_singleton, hcount] at hk
    have htake : (pieces ++ [finalPiece isa program]).take k = pieces.take k :=
      List.take_append_of_le_length (by omega)
    have hle := startsFrom_le
      (fun piece hmem => hsizes piece (List.mem_of_mem_take (htake ▸ hmem))) hget
    have hmul : most * k ≤ most * program.length := Nat.mul_le_mul_left most (by omega)
    have := h.prologue
    omega
  have htarget : (starts isa program pieces).getD target 0 ≤ most + most * program.length := by
    rw [List.getD_eq_getElem?_getD]
    cases hget : (starts isa program pieces)[target]? with
    | none => exact Nat.zero_le _
    | some place => exact hplace target place hget
  have hbefore : isa.size before ≤ most := by
    have hsize := hsizes _ (List.mem_of_getElem? hpiece)
    rw [Piece.code, isa.size_append] at hsize
    omega
  have horigin := h.origin
  have hstart' := hplace index start hstart
  rw [Nat.mul_add] at hlength
  exact h.aim branch _ (by omega) (by omega)

/-- Pieces are as long as the code that the instruction set has for the steps of a program. -/
theorem length_code_of_pieceOf {most : Nat} {flags : Option Comparison} {landing : Nat}
    {piece : Piece ι} (harith : ∀ opcode value, (isa.arith opcode value).code.length ≤ most)
    (hcompare : ∀ relation value, (isa.compare relation value).code.length ≤ most)
    (hstatus : ∀ on, (isa.branchOnStatus on).1.length + 1 ≤ most)
    (hret : ∀ value, (isa.ret value).length ≤ most)
    (h : pieceOf isa flags landing instruction = .ok piece) : piece.code.length ≤ most := by
  have hplain : ∀ {emission : Emission ι}, emission.code.length ≤ most →
      emission.complete.map .plain = .ok piece → piece.code.length ≤ most := by
    rintro ⟨code, error?⟩ hcode hpiece
    obtain ⟨code', hcomplete, rfl⟩ := plain_eq_ok hpiece
    cases error? with
    | none => exact (Except.ok.inj hcomplete) ▸ hcode
    | some error => simp [Emission.complete] at hcomplete
  cases instruction with
  | load unused => exact hplain (harith _ _) h
  | arith op value => exact hplain (harith _ _) h
  | loadMod value => exact hplain (harith _ _) h
  | test relation value => exact hplain (hcompare _ _) h
  | ret value =>
    obtain rfl := Except.ok.inj h
    exact hret value
  | jump on offset =>
    have hon := hstatus on
    cases flags with
    | some relation =>
      obtain rfl := Except.ok.inj h
      simp only [Piece.code, List.length_append, List.length_singleton, List.length_nil]
      omega
    | none =>
      obtain rfl := Except.ok.inj h
      simpa only [Piece.code, List.length_append, List.length_singleton] using hon

end Native

namespace X86

open Native

theorem size_le (code : List Native.X86.Instruction) :
    Native.X86.isa.size code ≤ 10 * code.length := by
  induction code with
  | nil => exact Nat.le_refl 0
  | cons instruction code ih =>
    have hlength : (Native.X86.isa.encode instruction).length ≤ 10 := by
      cases instruction <;>
        simp [Native.X86.isa, Native.X86.Instruction.encode, littleEndian32, littleEndian64]
    rw [Native.X86.isa.size_cons, List.length_cons]
    omega

theorem length_immediate_le (instruction : Int32 → Native.X86.Instruction) (value : Int64) :
    (Native.X86.immediate instruction value).code.length ≤ 1 := by
  rw [Native.X86.immediate]
  split <;> simp

theorem length_divide_le (before after : List Native.X86.Instruction) (value : Int64) :
    (Native.X86.divide before value after).code.length ≤ before.length + 3 + after.length := by
  rw [Native.X86.divide]
  split
  · dsimp only
    omega
  · simp only [List.length_append, List.length_cons, List.length_nil]
    omega

theorem length_arith_le (opcode : Opcode) (value : Int64) :
    (Native.X86.arith opcode value).code.length ≤ 5 := by
  cases opcode with
  | arith op =>
    cases op with
    | add | sub | mul => exact (length_immediate_le _ value).trans (by decide)
    | div | mod => exact (length_divide_le _ _ value).trans (by decide)
  | loadMod => exact length_divide_le _ _ value
  | _ => simp [Native.X86.arith]

theorem length_compare_le (relation : Comparison) (value : Int64) :
    (Native.X86.compare relation value).code.length ≤ 3 := by
  have hle := length_immediate_le .cmpRax value
  rw [Native.X86.compare]
  split
  · exact hle.trans (by decide)
  · simpa using hle

theorem spans : Native.X86.isa.Spans 50 0x7FFFFFFF where
  prologue := by decide
  origin := by decide
  piece flags landing instruction piece h := by
    have hlength : piece.code.length ≤ 5 := by
      refine length_code_of_pieceOf length_arith_le
        (fun relation value => (length_compare_le relation value).trans (by decide))
        (fun on => by cases on <;> decide) (fun value => ?_) h
      simp only [Native.X86.isa]
      split <;> simp
    have := size_le piece.code
    omega
  aim branch distance hlow hhigh := by
    cases branch with
    | jump relation displacement =>
      refine ⟨.jump relation (Int32.ofInt distance), ?_⟩
      have hfits : -0x80000000 ≤ distance ∧ distance < 0x80000000 := by omega
      simp only [Native.X86.isa, Native.X86.aim, Native.X86.int32?, if_pos hfits]
    | _ => exact ⟨_, rfl⟩

end X86

namespace Arm

open Native

theorem length_loadConstant_le (target : Native.Arm.Register) (value : Int64) :
    (Native.Arm.loadConstant target value).length ≤ 4 := by
  obtain ⟨first, rest, hnodup, hcode⟩ := exists_loadConstant target value
  have hle : (first :: rest).length ≤ 4 := hnodup.length_le_card
  rwa [hcode, List.length_cons, List.length_map]

theorem length_arith_le (opcode : Opcode) (value : Int64) :
    (Native.Arm.arith opcode value).code.length ≤ 7 := by
  have hle := length_loadConstant_le Native.Arm.operand value
  have hdivide (before code : List Native.Arm.Instruction) :
      (Native.Arm.divide before value code).code.length ≤ before.length + 4 + code.length := by
    rw [Native.Arm.divide]
    split
    · simp
    · simp only [List.length_append]
      omega
  cases opcode with
  | arith op =>
    cases op with
    | add | sub | mul =>
      simp only [Native.Arm.arith, Native.Arm.withOperand, List.length_append,
        List.length_singleton]
      omega
    | div | mod => exact (hdivide _ _).trans (by decide)
  | loadMod => exact hdivide _ _
  | _ => simp [Native.Arm.arith, Native.Arm.loadCount]

theorem length_compare_le (relation : Comparison) (value : Int64) :
    (Native.Arm.compare relation value).code.length ≤ 6 := by
  have hle := length_loadConstant_le Native.Arm.operand value
  rw [Native.Arm.compare]
  split
  · simp
  · simp only [List.length_append, List.length_cons, List.length_nil]
    omega

theorem spans : Native.Arm.isa.Spans 28 0xFFFFC where
  prologue := by decide
  origin := by decide
  piece flags landing instruction piece h := by
    have hlength : piece.code.length ≤ 7 := by
      refine length_code_of_pieceOf length_arith_le
        (fun relation value => (length_compare_le relation value).trans (by decide))
        (fun on => by cases on <;> decide) (fun value => ?_) h
      have hle := length_loadConstant_le Native.Arm.result value
      simp only [Native.Arm.isa, List.length_append, List.length_singleton]
      omega
    rw [size_eq]
    omega
  aim branch distance hlow hhigh := by
    have hreach : -Native.Arm.reach - 1 ≤ distance.tdiv 4 ∧ distance.tdiv 4 ≤ Native.Arm.reach := by
      have hwords : (distance.tdiv 4).natAbs = distance.natAbs / 4 := Int.natAbs_tdiv distance 4
      simp only [Native.Arm.reach]
      omega
    simp only [Native.Arm.isa, Native.Arm.aim, if_pos hreach]
    cases branch <;> exact ⟨_, rfl⟩

end Arm

namespace Native

variable {program : Program}

/-- The code of a program of up to 37,000 instructions is small enough for both instruction sets. -/
theorem encodable_of_length (h : program.length ≤ 37000) :
    Encodable X86.isa program ∧ Encodable Arm.isa program :=
  ⟨X86.spans.encodable (by omega), Arm.spans.encodable (by omega)⟩

end Native

end PluralForms
