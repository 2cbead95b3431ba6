import PluralForms.Native.Isa

/-! The memory of native code: regions of whole pages that are filled one after the other. Code that
is installed stays where it is, and starts at a multiple of 16 bytes. -/

namespace PluralForms.Native

/-- A region of memory that is mapped. Its first `used` bytes, up to the end of the last code, are
in use. -/
structure Region where
  memory : List UInt8
  used : Nat
  deriving DecidableEq, Repr

/-- Code starts at multiples of this number. -/
def alignment : Nat := 16

/-- The size of a page unless the system has another. -/
def pageSize : Nat := 4096

/-- The least multiple of `unit` that is not less than `n`. -/
def roundUp (n unit : Nat) : Nat := (n + unit - 1) / unit * unit

namespace Region

def size (region : Region) : Nat := region.memory.length

/-- A region as the system maps it: its bytes are zero. -/
def mapped (size : Nat) : Region := ⟨List.replicate size 0, 0⟩

/-- The first place behind the code of a region at which other code may start. -/
def free (region : Region) : Nat := roundUp region.used alignment

def hasRoom (region : Region) (code : List UInt8) : Bool := region.free + code.length ≤ region.size

/-- Writes code over the bytes from `start` on. -/
def copy (region : Region) (start : Nat) (code : List UInt8) : Region where
  memory := region.memory.take start ++ code ++ region.memory.drop (start + code.length)
  used := start + code.length

end Region

/-- The regions in use, in the order of their mapping, and the size of a page. -/
structure Arena where
  regions : List Region := []
  page : Nat := pageSize
  deriving DecidableEq, Repr

/-- Where code is installed: a region and the offset of the first byte in it. -/
structure Placement where
  region : Nat
  offset : Nat
  deriving DecidableEq, Repr

namespace Arena

/-- The number of bytes up to the end of the last code of each region. -/
def bytesUsed (arena : Arena) : Nat :=
  arena.regions.foldl (fun used region => used + region.used) 0

/-- Installs code in the last region, or in a fresh one of whole pages if there is no room. -/
def install (arena : Arena) (code : List UInt8) : Except Error (Placement × Arena) :=
  if code.isEmpty then .error .emptyProgram
  else
    let count := arena.regions.length
    match arena.regions.getLast?.filter (·.hasRoom code) with
    | some last =>
      .ok (⟨count - 1, last.free⟩,
        { arena with regions := arena.regions.set (count - 1) (last.copy last.free code) })
    | none =>
      let fresh := Region.mapped (roundUp code.length arena.page)
      .ok (⟨count, 0⟩, { arena with regions := arena.regions ++ [fresh.copy 0 code] })

def debug (arena : Arena) : String :=
  s!"CodeArena \x7b pages: {arena.regions.length}, bytes_used: {arena.bytesUsed} \x7d"

end Arena

end PluralForms.Native
