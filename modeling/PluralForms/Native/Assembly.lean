import PluralForms.Native.Isa

/-! Assembly of programs: each instruction becomes a piece of native code, and each jump a branch
that is aimed once the places of all pieces are known. Falling off the end goes to a piece that
returns `S`. -/

namespace PluralForms.Native

variable {ι : Type}

/-- The code of one instruction. A jump has code before its branch, which goes to the piece with the
index `target`. -/
inductive Piece (ι : Type) where
  | plain (code : List ι)
  | branch (before : List ι) (branch : ι) (target : Nat)

namespace Piece

/-- The instructions of a piece, whose branch has no displacement yet. -/
def code : Piece ι → List ι
  | .plain code => code
  | .branch before last _ => before ++ [last]

/-- The instructions of a piece that starts at the byte offset `start`, with its branch aimed;
`starts` are the byte offsets of all pieces. -/
def aimed (isa : Isa ι) (starts : Array Nat) (start : Nat) : Piece ι → Except Error (List ι)
  | .plain code => .ok code
  | .branch before last target => do
    let site := start + isa.size before
    let last ← isa.aim last ((starts.getD target 0 : Nat) - (site + isa.origin : Nat))
    return before ++ [last]

end Piece

/-- The comparison whose outcome the flags still hold after an instruction. Branches leave the flags
alone. -/
def flagsAfter (flags : Option Comparison) : PluralForms.Instruction → Option Comparison
  | .test relation _ => some relation
  | .jump _ _ => flags
  | _ => none

/-- The piece of one instruction; `flags` is the comparison whose outcome the flags hold, and
`landing` the index where the instruction goes if it jumps. -/
def pieceOf (isa : Isa ι) (flags : Option Comparison) (landing : Nat) :
    PluralForms.Instruction → Except Error (Piece ι)
  | .ret value => .ok (.plain (isa.ret value))
  | .jump on _ =>
    match flags with
    | some relation =>
      .ok (.branch [] (isa.branchOnFlags (if on then relation else relation.inverse)) landing)
    | none =>
      let (before, last) := isa.branchOnStatus on
      .ok (.branch before last landing)
  | .test relation value => (isa.compare relation value).complete.map .plain
  | .load unused => (isa.arith .load unused).complete.map .plain
  | .arith op value => (isa.arith (.arith op) value).complete.map .plain
  | .loadMod value => (isa.arith .loadMod value).complete.map .plain

/-- The pieces of instructions, of which the first has the index `index` in a program of `size`
instructions. Where a jump lands, as `targets` tells, nothing is known about the flags. -/
def piecesFrom (isa : Isa ι) (size : Nat) (targets : Array Bool) (index : Nat)
    (flags : Option Comparison) : Program → Except Error (List (Piece ι))
  | [] => .ok []
  | instruction :: rest => do
    let flags := if targets.getD index false then none else flags
    let piece ← pieceOf isa flags ((instruction.landing? size index).getD 0) instruction
    let others ← piecesFrom isa size targets (index + 1) (flagsAfter flags instruction) rest
    return piece :: others

/-- The piece after all instructions, which is empty if no run comes there. -/
def finalPiece (isa : Isa ι) (program : Program) : Piece ι :=
  .plain (if program.endsWithRet && !program.isTarget program.length then [] else isa.retStatus)

/-- The byte offsets of pieces, of which the first starts at `start`. -/
def startsFrom (isa : Isa ι) (start : Nat) : List (Piece ι) → List Nat
  | [] => []
  | piece :: rest => start :: startsFrom isa (start + isa.size piece.code) rest

def assembleCode (isa : Isa ι) (program : Program) : Except Error (List ι) := do
  if program.isEmpty then throw .emptyProgram
  if let some jump := program.invalidJump? then throw (.invalidJump jump)
  let pieces ← piecesFrom isa program.length program.targets 0 none program
  let pieces := pieces ++ [finalPiece isa program]
  let starts := startsFrom isa (isa.size isa.prologue) pieces
  let places := starts.toArray
  let code ← (pieces.zip starts).mapM fun (piece, start) => piece.aimed isa places start
  return isa.prologue ++ code.flatten

def assemble (isa : Isa ι) (program : Program) : Except Error (List UInt8) :=
  (assembleCode isa program).map isa.bytes

end PluralForms.Native
