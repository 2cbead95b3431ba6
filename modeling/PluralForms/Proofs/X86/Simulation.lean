import PluralForms.Proofs.X86.Execution

/-! Native code for x86-64 does what its program does: the processor ends with the value of the
program, and on the way never leaves the code, never comes between two instructions, and never
raises an exception. -/

namespace PluralForms.X86

open Native.X86 (isa)
open Relation

/-- Where the registers hold the count, `R` and `S`, and what the flags tell. -/
def view : Native.View State where
  Enters n t := t.register .rdi = n.toBitVec
  Holds := Holds
  tells t relation := t.flags.holds relation

theorem emulates (undefined : Nat → Flags) : Native.Emulates (core undefined) view where
  keepsSize := keepsSize_isa
  tells_inverse t relation := holds_inverse t.flags relation
  prologue := passes_prologue
  prologue_ne_nil := List.cons_ne_nil _ _
  arith := passes_arith undefined
  compare := passes_compare undefined
  branchOnFlags haim _ _ h := by
    obtain ⟨t', hrun, hholds, hflags, hposition⟩ := Holds.passes_aimed h haim
    exact ⟨t', hrun, hholds, funext fun relation => congrArg (Flags.holds · relation) hflags,
      hposition⟩
  branchOnStatus haim _ _ h := Holds.passes_branchOnStatus h haim
  ret := passes_ret
  retStatus h := ⟨[.movRaxR8], .ret, _, rfl, .cons rfl rfl .nil, run_ret h.status⟩

variable {program : Program} {n : Int64} {t : State}

/-- The machine code of a program, entered at its start with the count in `rdi`, returns the value
of the program, and returns only if the program has one. It never leaves its bytes, each place that
it comes to is the start of an instruction, and no instruction raises an exception. -/
theorem ends_assemble_iff {bytes : List UInt8} (h : Native.assemble isa program = .ok bytes)
    (undefined : Nat → Flags) (hposition : t.position = 0)
    (hcount : t.register .rdi = n.toBitVec) :
    (∀ v, (processor bytes undefined).Ends t v ↔ Machine.exec program n = some v) ∧
      ∀ t', ReflTransGen (processor bytes undefined).Next t t' → Proceeds bytes undefined t' :=
  (emulates undefined).ends_iff h hposition hcount

/-- A program that takes a branch, divides, and falls off its end. -/
theorem ends_assemble_iff_remainder :
    let program : Program :=
      [.loadMod 10, .test .lt 5, .jump true 2, .arith .div 3, .ret 7, .test .eq 1]
    let bytes : List UInt8 :=
      [0x48, 0x89, 0xF8, 0x45, 0x31, 0xC0, 0x48, 0x89, 0xF8, 0x49, 0xC7, 0xC3, 0x0A, 0x00, 0x00,
        0x00, 0x48, 0x99, 0x49, 0xF7, 0xFB, 0x48, 0x89, 0xD0, 0x48, 0x3D, 0x05, 0x00, 0x00, 0x00,
        0x41, 0x0F, 0x9C, 0xC0, 0x45, 0x0F, 0xB6, 0xC0, 0x0F, 0x8C, 0x14, 0x00, 0x00, 0x00, 0x49,
        0xC7, 0xC3, 0x03, 0x00, 0x00, 0x00, 0x48, 0x99, 0x49, 0xF7, 0xFB, 0x48, 0xC7, 0xC0, 0x07,
        0x00, 0x00, 0x00, 0xC3, 0x48, 0x3D, 0x01, 0x00, 0x00, 0x00, 0x41, 0x0F, 0x94, 0xC0, 0x45,
        0x0F, 0xB6, 0xC0, 0x4C, 0x89, 0xC0, 0xC3]
    let flags : Flags := ⟨false, false, false⟩
    let start : State := ⟨0, fun register => if register = .rdi then 21 else 0, flags, 0⟩
    Native.assemble isa program = .ok bytes ∧ start.position = 0 ∧
      start.register .rdi = (21 : Int64).toBitVec ∧
      (∀ v, (processor bytes fun _ => flags).Ends start v ↔ Machine.exec program 21 = some v) ∧
      ∀ t, ReflTransGen (processor bytes fun _ => flags).Next start t →
        Proceeds bytes (fun _ => flags) t := by
  intro program bytes flags start
  have hassemble : Native.assemble isa program = .ok bytes := by decide +kernel
  exact ⟨hassemble, rfl, rfl, ends_assemble_iff hassemble _ rfl rfl⟩

end PluralForms.X86
