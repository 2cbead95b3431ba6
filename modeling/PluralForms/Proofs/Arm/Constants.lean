import PluralForms.Proofs.Arm.Execution

/-! Constants in registers of AArch64. The words that set a register to a constant are a move that
clears the register and others that keep what they do not write, each for a quarter of its own. The
processor leaves the constant in the register, whatever it held before. -/

namespace PluralForms.Arm

open Native (CodeAt)
open Native.Arm (Register isa loadConstant)
open Relation

/-! ### Reading words -/

/-- The operations that the words of machine code stand for, if each stands for one. -/
def operations? : List UInt8 → Option (List Operation)
  | [] => some []
  | first :: second :: third :: fourth :: rest => do
    let word ← fetch [first, second, third, fourth] 0
    let operation ← decode word
    let others ← operations? rest
    return operation :: others
  | _ => none

/-- The bytes of code are read as the operations of its instructions. -/
theorem operations?_bytes (code : List Native.Arm.Instruction) :
    operations? (isa.bytes code) = some (code.map operation) := by
  induction code with
  | nil => rfl
  | cons instruction code ih =>
    have hfetch : fetch instruction.encode 0 = some instruction.word.toNat :=
      fetch_encode instruction rfl (List.append_nil _).symm
    have hbytes : isa.bytes (instruction :: code) = instruction.encode ++ isa.bytes code :=
      List.flatMap_cons
    rw [hbytes]
    simp only [Native.Arm.Instruction.encode, Native.littleEndian32] at hfetch ⊢
    simp only [List.cons_append, List.nil_append, operations?, hfetch, decode_word, ih,
      Option.bind_eq_bind, Option.bind_some, List.map_cons]
    rfl

/-! ### Words of a constant -/

/-- The code sets the register to the constant. -/
structure Loads (target : Register) (constant : Int64) (code : List Native.Arm.Instruction) :
    Prop where
  /-- Its words are a move that clears the register and others that keep what they do not write,
  each with the part of the constant that belongs to its place. -/
  words : ∃ first rest, (first :: rest).Nodup ∧ rest.length ≤ 3 ∧
    operations? (isa.bytes code) =
      some (.moveZero target first (quarter constant.toBitVec first) ::
        rest.map fun half => .moveKeep target half (quarter constant.toBitVec half))
  /-- Wherever the code stands, the processor comes to its end with the constant in the register. -/
  executes : ∀ (before after : List Native.Arm.Instruction) (t : State),
    t.position = isa.size before →
    ∃ t', ReflTransGen (processor (isa.bytes (before ++ (code ++ after)))).Next t t' ∧
      t'.position = isa.size (before ++ code) ∧ Sets target constant.toBitVec t t'

/-- Each constant can be set in each register that has a value of its own. -/
theorem loads_loadConstant {target : Register} (htarget : target.val < 31) (constant : Int64) :
    Loads target constant (loadConstant target constant) where
  words := by
    obtain ⟨first, rest, hnodup, hcode⟩ := exists_loadConstant target constant
    have hlength : (first :: rest).length ≤ 4 := hnodup.length_le_card
    refine ⟨first, rest, hnodup, Nat.le_of_succ_le_succ hlength, ?_⟩
    rw [operations?_bytes, hcode, List.map_cons, List.map_map]
    simp only [operation, toBitVec_halfword, Function.comp_def]
  executes before after t hposition := by
    have hne : target ≠ xzr := by
      rintro rfl
      exact absurd htarget (by decide)
    obtain ⟨t', hpasses, hsets⟩ := passes_loadConstant hne constant t
    have hcode : CodeAt isa (before ++ (loadConstant target constant ++ after)) t.position
        (loadConstant target constant) := ⟨before, after, rfl, hposition⟩
    refine ⟨t', ReflTransGen.mono (System.goodNext_le _ _) _ _ (hpasses.steps hcode), ?_, hsets⟩
    have hend : t'.position = t.position + isa.size (loadConstant target constant) :=
      hpasses.position
    rw [hend, hposition, isa.size_append]

/-- A negative constant whose lowest quarter and third quarter are zero. -/
theorem loads_loadConstant_sparse :
    ((30 : Register).val < 31) ∧ loadConstant 30 (-0x7FFFFFFF00010000) =
        [.movz 30 1 0xFFFF, .movk 30 3 0x8000] ∧
      Loads 30 (-0x7FFFFFFF00010000) (loadConstant 30 (-0x7FFFFFFF00010000)) :=
  ⟨by decide, by decide, loads_loadConstant (by decide) _⟩

example : (loadConstant 11 (-1)).map Native.Arm.Instruction.word =
    [0xD29FFFEB, 0xF2BFFFEB, 0xF2DFFFEB, 0xF2FFFFEB] := by
  decide

end PluralForms.Arm
