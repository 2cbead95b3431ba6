import PluralForms.Program

/-! Programs under construction. A forward jump is written before its target is known; the label
that it leaves behind aims it later. -/

namespace PluralForms

/-- The instructions written so far. -/
structure Program.Builder where
  code : Program := []

/-- The index of a jump that awaits its target. -/
structure Program.Label where
  index : Nat
  deriving DecidableEq

namespace Program.Builder

def next (builder : Builder) : Nat := builder.code.length

def last? (builder : Builder) : Option Instruction := builder.code.getLast?

def emit (builder : Builder) (instruction : Instruction) : Builder :=
  ⟨builder.code ++ [instruction]⟩

/-- Writes a jump on the value `on` of the status, which falls through until it is aimed. -/
def emitJump (builder : Builder) (on : Bool) : Builder × Label :=
  (builder.emit (.jump on 0), ⟨builder.next⟩)

/-- Aims the jump of a label at the instruction with index `target`. The offset is a word of 64
bits, so an index of 2⁶³ and more lies before the program. -/
def aim (builder : Builder) (label : Label) (target : UInt64) : Builder :=
  let offset := target.toInt64 - Int64.ofNat (label.index + 1)
  ⟨builder.code.modify label.index (Instruction.withOffset offset.toInt)⟩

/-- Aims the jump of a label at the next instruction to be written. -/
def aimHere (builder : Builder) (label : Label) : Builder :=
  ⟨builder.code.modify label.index (Instruction.aim label.index builder.next)⟩

def aimAll (builder : Builder) (labels : List Label) : Builder := labels.foldl aimHere builder

end Program.Builder

end PluralForms
