import PluralForms.Proofs.Arm.Execution

/-! Native code for AArch64 does what its program does: the processor ends with the value of the
program, and on the way never leaves the code. -/

namespace PluralForms.Arm

open Native.Arm (isa result count)
open Relation

/-- Where the registers hold the count, `R` and `S`, and what the flags tell. -/
def view : Native.View State where
  Enters n t := t.read count = n.toBitVec
  Holds := Holds
  tells t relation := t.flags.holds (conditionOf relation)

theorem emulates : Native.Emulates core view where
  keepsSize := keepsSize_isa
  tells_inverse t relation := holds_inverse t.flags relation
  prologue := passes_prologue
  prologue_ne_nil := List.cons_ne_nil _ _
  arith halters hcode h := Holds.passes_arith h halters hcode
  compare hcode h := Holds.passes_compare h hcode
  branchOnFlags haim hplace htarget h := by
    obtain ⟨t', hrun, hholds, hflags, hposition⟩ :=
      Holds.passes_aimed h haim hplace htarget fun _ => rfl
    exact ⟨t', hrun, hholds, funext fun relation => congrArg (Flags.holds · _) hflags, hposition⟩
  branchOnStatus haim hplace htarget h := by
    obtain ⟨t', hrun, hholds, hposition⟩ := Holds.passes_branchOnStatus h haim hplace htarget
    exact ⟨_, t', .nil, hrun, hholds, hposition⟩
  ret constant t := by
    have hresult : result ≠ xzr := by decide
    obtain ⟨t₁, hpasses, hsets⟩ := passes_loadConstant hresult constant t
    exact ⟨_, _, t₁, rfl, hpasses, run_ret hsets.read⟩
  retStatus h := by
    obtain ⟨t₁, hpasses, hrun⟩ := Holds.passes_retStatus h
    exact ⟨[.mov result Native.Arm.status], .ret, t₁, rfl, hpasses, hrun⟩

/-- The machine code of a program, entered at its start with the count in `x0`, returns the value of
the program, and returns only if the program has one. It never leaves its words. -/
theorem returns_assemble_iff {program : Program} {bytes : List UInt8} {n : Int64} {t : State}
    (h : Native.assemble isa program = .ok bytes) (hposition : t.position = 0)
    (hcount : t.read 0 = n.toBitVec) :
    (∀ v, (processor bytes).Ends t v ↔ Machine.exec program n = some v) ∧
      ∀ t', ReflTransGen (processor bytes).Next t t' → Proceeds bytes t' :=
  emulates.ends_iff h hposition hcount

/-- A program that takes the remainder of the least count, does not take its branch, and falls off
its end. -/
theorem returns_assemble_iff_least :
    let program : Program := [.loadMod (-1), .test .lt 70000, .jump false 1, .test .eq 0]
    let bytes : List UInt8 :=
      [0xE9, 0x03, 0x00, 0xAA, 0x0A, 0x00, 0x80, 0xD2, 0xE9, 0x03, 0x00, 0xAA, 0xEB, 0xFF, 0x9F,
        0xD2, 0xEB, 0xFF, 0xBF, 0xF2, 0xEB, 0xFF, 0xDF, 0xF2, 0xEB, 0xFF, 0xFF, 0xF2, 0x2C, 0x0D,
        0xCB, 0x9A, 0x89, 0xA5, 0x0B, 0x9B, 0x0B, 0x2E, 0x82, 0xD2, 0x2B, 0x00, 0xA0, 0xF2, 0x3F,
        0x01, 0x0B, 0xEB, 0xEA, 0xA7, 0x9F, 0x9A, 0x6A, 0x00, 0x00, 0x54, 0x3F, 0x01, 0x00, 0xF1,
        0xEA, 0x17, 0x9F, 0x9A, 0xE0, 0x03, 0x0A, 0xAA, 0xC0, 0x03, 0x5F, 0xD6]
    let start : State :=
      ⟨0, fun register => if register = 0 then (Int64.minValue).toBitVec else 0,
        ⟨false, false, false, false⟩⟩
    Native.assemble isa program = .ok bytes ∧ start.position = 0 ∧
      start.read 0 = Int64.minValue.toBitVec ∧
      (∀ v, (processor bytes).Ends start v ↔ Machine.exec program Int64.minValue = some v) ∧
      ∀ t, ReflTransGen (processor bytes).Next start t → Proceeds bytes t := by
  intro program bytes start
  have hassemble : Native.assemble isa program = .ok bytes := by decide +kernel
  exact ⟨hassemble, rfl, rfl, returns_assemble_iff hassemble rfl rfl⟩

end PluralForms.Arm
