import PluralForms.Native.Assembly
import PluralForms.Proofs.Landing

/-! The layout of native code: the code of each instruction of a program stands at its place behind
the prologue, with its branch aimed at the place of the instruction where the program's jump lands,
and the final piece stands behind them all. -/

namespace PluralForms.Native

variable {ι : Type} {isa : Isa ι}

/-! ### Sizes -/

theorem Isa.bytes_append (isa : Isa ι) (first second : List ι) :
    isa.bytes (first ++ second) = isa.bytes first ++ isa.bytes second :=
  List.flatMap_append

theorem Isa.size_append (isa : Isa ι) (first second : List ι) :
    isa.size (first ++ second) = isa.size first + isa.size second := by
  rw [size, bytes_append, List.length_append]
  rfl

/-- The code stands at the byte offset `offset` of the whole. -/
def CodeAt (isa : Isa ι) (whole : List ι) (offset : Nat) (code : List ι) : Prop :=
  ∃ before after, whole = before ++ (code ++ after) ∧ offset = isa.size before

theorem CodeAt.append {whole first second : List ι} {offset : Nat}
    (h : CodeAt isa whole offset (first ++ second)) :
    CodeAt isa whole offset first ∧ CodeAt isa whole (offset + isa.size first) second := by
  obtain ⟨before, after, rfl, rfl⟩ := h
  refine ⟨⟨before, second ++ after, by simp, rfl⟩, ⟨before ++ first, after, by simp, ?_⟩⟩
  rw [isa.size_append]

/-- Where code stands, its bytes stand in the bytes of the whole. -/
theorem CodeAt.bytes {whole code : List ι} {offset : Nat} (h : CodeAt isa whole offset code) :
    ∃ rest, (isa.bytes whole).drop offset = isa.bytes code ++ rest := by
  obtain ⟨before, after, rfl, rfl⟩ := h
  exact ⟨isa.bytes after, by rw [isa.bytes_append, isa.bytes_append, Isa.size, List.drop_left]⟩

/-! ### Pieces -/

/-- The comparison whose outcome the flags are known to hold when a run comes to `index`. -/
def flagsAt (program : Program) : Nat → Option Comparison
  | 0 => none
  | index + 1 =>
    if program.isTarget (index + 1) then none
    else (program[index]?).bind (flagsAfter (flagsAt program index))

theorem flagsAt_of_isTarget {program : Program} {index : Nat} (h : program.isTarget index = true) :
    flagsAt program index = none := by
  cases index with
  | zero => rfl
  | succ index => rw [flagsAt, if_pos h]

/-- The piece of an instruction that alters `R` is plain code of its opcode. -/
theorem pieceOf_of_alters {instruction : Instruction} {flags : Option Comparison} {landing : Nat}
    (h : instruction.altersRegister = true) :
    ∃ value, pieceOf isa flags landing instruction =
        (isa.arith instruction.opcode value).complete.map .plain ∧
      ∀ r n, instruction.opcode.apply r value n = instruction.register n r := by
  cases instruction with
  | load unused => exact ⟨unused, rfl, fun _ _ => rfl⟩
  | arith op value => exact ⟨value, rfl, fun _ _ => rfl⟩
  | loadMod value => exact ⟨value, rfl, fun _ _ => rfl⟩
  | ret | jump | test => simp [Instruction.altersRegister, Instruction.opcode,
      Opcode.altersRegister] at h

theorem plain_eq_ok {emission : Emission ι} {piece : Piece ι}
    (h : emission.complete.map .plain = .ok piece) :
    ∃ code, emission.complete = .ok code ∧ piece = .plain code := by
  cases hcode : emission.complete with
  | error error => simp [hcode, Except.map] at h
  | ok code =>
    rw [hcode] at h
    exact ⟨code, rfl, (Except.ok.inj h).symm⟩

theorem flagsAt_succ {program : Program} {index : Nat} {instruction : Instruction}
    (h : program[index]? = some instruction) :
    flagsAt program (index + 1) =
      if program.isTarget (index + 1) then none
      else flagsAfter (flagsAt program index) instruction := by
  rw [flagsAt, h, Option.bind_some]

/-- Each instruction has the piece that its flags and its landing ask for. -/
theorem piece_of_piecesFrom {program rest : Program} {index : Nat} {flags : Option Comparison}
    {pieces : List (Piece ι)} (hrest : program.drop index = rest)
    (hflags : (if program.isTarget index then none else flags) = flagsAt program index)
    (h : piecesFrom isa program.length program.targets index flags rest = .ok pieces) :
    pieces.length = rest.length ∧ ∀ k instruction, rest[k]? = some instruction →
      ∃ piece, pieces[k]? = some piece ∧
        pieceOf isa (flagsAt program (index + k))
          ((instruction.landing? program.length (index + k)).getD 0) instruction = .ok piece := by
  induction rest generalizing index flags pieces with
  | nil =>
    obtain rfl := Except.ok.inj h
    exact ⟨rfl, by simp⟩
  | cons first rest ih =>
    have hget : program[index]? = some first := by
      rw [← List.head?_drop, hrest]
      rfl
    have htail : program.drop (index + 1) = rest := by
      rw [← List.tail_drop, hrest]
      rfl
    rw [piecesFrom, Program.getD_targets, hflags] at h
    simp only [bind, Except.bind] at h
    split at h
    · simp at h
    next piece hpiece =>
      split at h
      · simp at h
      next others hothers =>
        obtain rfl := Except.ok.inj h
        obtain ⟨hlength, hpieces⟩ := ih htail (flagsAt_succ hget).symm hothers
        refine ⟨congrArg (· + 1) hlength, ?_⟩
        rintro (_ | k) instruction hk
        · obtain rfl := Option.some.inj hk
          exact ⟨piece, rfl, hpiece⟩
        · rw [show index + (k + 1) = index + 1 + k by omega]
          exact hpieces k instruction hk

theorem finalPiece_of_isTarget {program : Program}
    (h : program.isTarget program.length = true) :
    finalPiece isa program = .plain isa.retStatus := by
  rw [finalPiece, h, Bool.not_true, Bool.and_false, if_neg Bool.false_ne_true]

/-- Behind an instruction that does not return there is a piece that returns `S`. -/
theorem finalPiece_of_getElem? {program : Program} {index : Nat} {instruction : Instruction}
    (hget : program[index]? = some instruction) (hlast : index + 1 = program.length)
    (hret : ∀ value, instruction ≠ .ret value) : finalPiece isa program = .plain isa.retStatus := by
  have hgetLast : program.getLast? = some instruction := by
    rw [List.getLast?_eq_getElem?, ← hlast, Nat.add_sub_cancel, hget]
  have hends : program.endsWithRet = false := by
    rw [Program.endsWithRet, hgetLast]
    cases instruction with
    | ret value => exact absurd rfl (hret value)
    | _ => rfl
  rw [finalPiece, hends, Bool.false_and, if_neg Bool.false_ne_true]

/-! ### Places -/

/-- The code of a piece whose branch is aimed is as long as before. -/
def KeepsSize (isa : Isa ι) : Prop :=
  ∀ branch distance aimed, isa.aim branch distance = .ok aimed →
    (isa.encode aimed).length = (isa.encode branch).length

theorem aimed_branch_eq_ok {places : Array Nat} {start target : Nat} {before code : List ι}
    {last : ι} (h : (Piece.branch before last target).aimed isa places start = .ok code) :
    ∃ last', isa.aim last (places.getD target 0 - (start + isa.size before + isa.origin : Nat)) =
      .ok last' ∧ code = before ++ [last'] := by
  simp only [Piece.aimed, bind, Except.bind] at h
  split at h
  · simp at h
  next last' hlast => exact ⟨last', hlast, (Except.ok.inj h).symm⟩

theorem size_aimed (hsize : KeepsSize isa) {places : Array Nat} {start : Nat} {piece : Piece ι}
    {code : List ι} (h : piece.aimed isa places start = .ok code) :
    isa.size code = isa.size piece.code := by
  cases piece with
  | plain code =>
    obtain rfl := Except.ok.inj h
    rfl
  | branch before last target =>
    obtain ⟨last', haim, rfl⟩ := aimed_branch_eq_ok h
    rw [Piece.code, isa.size_append, isa.size_append]
    simp [Isa.size, Isa.bytes, hsize last _ last' haim]

theorem aimed_cons_eq_ok {places : Array Nat} {start : Nat} {first : Piece ι}
    {rest : List (Piece ι)} {codes : List (List ι)}
    (h : ((first :: rest).zip (startsFrom isa start (first :: rest))).mapM
      (fun (piece, start) => piece.aimed isa places start) = .ok codes) :
    ∃ code others, first.aimed isa places start = .ok code ∧
      (rest.zip (startsFrom isa (start + isa.size first.code) rest)).mapM
        (fun (piece, start) => piece.aimed isa places start) = .ok others ∧
      codes = code :: others := by
  rw [startsFrom, List.zip_cons_cons, List.mapM_cons] at h
  simp only [bind, Except.bind] at h
  split at h
  · simp at h
  next code hcode =>
    split at h
    · simp at h
    next others hothers => exact ⟨code, others, hcode, hothers, (Except.ok.inj h).symm⟩

/-- Each piece starts behind the codes of those before it. -/
theorem code_of_aimed (hsize : KeepsSize isa) {places : Array Nat} {start : Nat}
    {pieces : List (Piece ι)} {codes : List (List ι)}
    (h : (pieces.zip (startsFrom isa start pieces)).mapM
      (fun (piece, start) => piece.aimed isa places start) = .ok codes) :
    ∀ k piece, pieces[k]? = some piece → ∃ code, codes[k]? = some code ∧
      (startsFrom isa start pieces)[k]? = some (start + isa.size (codes.take k).flatten) ∧
      piece.aimed isa places (start + isa.size (codes.take k).flatten) = .ok code := by
  induction pieces generalizing start codes with
  | nil => simp
  | cons first rest ih =>
    obtain ⟨code, others, hcode, hothers, rfl⟩ := aimed_cons_eq_ok h
    rintro (_ | k) piece hk
    · obtain rfl := Option.some.inj hk
      exact ⟨code, rfl, rfl, hcode⟩
    · obtain ⟨later, hget, hstart, haimed⟩ := ih hothers k piece hk
      have hplace : start + isa.size ((code :: others).take (k + 1)).flatten =
          start + isa.size first.code + isa.size (others.take k).flatten := by
        rw [List.take_succ_cons, List.flatten_cons, isa.size_append, size_aimed hsize hcode]
        omega
      rw [hplace]
      exact ⟨later, hget, hstart, haimed⟩

theorem codeAt_flatten {before code : List ι} {codes : List (List ι)} {k : Nat}
    (h : codes[k]? = some code) :
    CodeAt isa (before ++ codes.flatten) (isa.size before + isa.size (codes.take k).flatten)
      code := by
  obtain ⟨hlt, rfl⟩ := List.getElem?_eq_some_iff.mp h
  have hsplit : codes.flatten =
      (codes.take k).flatten ++ (codes[k] ++ (codes.drop (k + 1)).flatten) := by
    rw [← List.flatten_cons, ← List.drop_eq_getElem_cons hlt, ← List.flatten_append,
      List.take_append_drop]
  refine ⟨before ++ (codes.take k).flatten, (codes.drop (k + 1)).flatten, ?_, ?_⟩
  · rw [hsplit, List.append_assoc]
  · rw [isa.size_append]

/-! ### The layout of a program -/

/-- How the code of a program is laid out: `places` are the byte offsets of its pieces. -/
structure Layout (isa : Isa ι) (program : Program) (whole : List ι) (places : Array Nat) :
    Prop where
  nonempty : program ≠ []
  valid : program.invalidJump? = none
  prologue : CodeAt isa whole 0 isa.prologue
  start : places.getD 0 0 = isa.size isa.prologue
  piece : ∀ index instruction, program[index]? = some instruction → ∃ piece code,
    pieceOf isa (flagsAt program index)
      ((instruction.landing? program.length index).getD 0) instruction = .ok piece ∧
    piece.aimed isa places (places.getD index 0) = .ok code ∧
    CodeAt isa whole (places.getD index 0) code ∧
    places.getD (index + 1) 0 = places.getD index 0 + isa.size code
  final : CodeAt isa whole (places.getD program.length 0) (finalPiece isa program).code

variable {program : Program} {whole : List ι} {bytes : List UInt8}

theorem assembleCode_eq_ok (h : assembleCode isa program = .ok whole) :
    program ≠ [] ∧ program.invalidJump? = none ∧ ∃ pieces codes,
      piecesFrom isa program.length program.targets 0 none program = .ok pieces ∧
      ((pieces ++ [finalPiece isa program]).zip
          (startsFrom isa (isa.size isa.prologue) (pieces ++ [finalPiece isa program]))).mapM
        (fun (piece, start) => piece.aimed isa
          (startsFrom isa (isa.size isa.prologue) (pieces ++ [finalPiece isa program])).toArray
          start) = .ok codes ∧
      whole = isa.prologue ++ codes.flatten := by
  simp only [assembleCode, bind, Except.bind] at h
  split at h
  · simp at h
  next hnonempty =>
  split at h
  · simp at h
  next hvalid =>
  split at h
  · simp at h
  next pieces hpieces =>
  split at h
  · simp at h
  next codes hcodes =>
  exact ⟨by simpa using hnonempty, Option.eq_none_iff_forall_ne_some.mpr hvalid, pieces, codes,
    hpieces, hcodes, (Except.ok.inj h).symm⟩

theorem layout_of_assembleCode (hsize : KeepsSize isa) (h : assembleCode isa program = .ok whole) :
    ∃ places, Layout isa program whole places := by
  obtain ⟨hnonempty, hvalid, pieces, codes, hpieces, hcodes, rfl⟩ := assembleCode_eq_ok h
  obtain ⟨hlength, hpiece⟩ := piece_of_piecesFrom List.drop_zero (by simp [flagsAt]) hpieces
  have hcode := code_of_aimed hsize hcodes
  generalize hplaces : (startsFrom isa (isa.size isa.prologue)
    (pieces ++ [finalPiece isa program])).toArray = places at hcode
  -- The codes tell each place, up to that of the final piece.
  have hplace : ∀ k ≤ program.length,
      places.getD k 0 = isa.size isa.prologue + isa.size (codes.take k).flatten := by
    intro k hk
    have hlt : k < (pieces ++ [finalPiece isa program]).length := by
      simp only [List.length_append, List.length_singleton]
      omega
    obtain ⟨code, -, hstart, -⟩ := hcode k _ (List.getElem?_eq_getElem hlt)
    rw [← hplaces, Array.getD_eq_getD_getElem?, List.getElem?_toArray, hstart, Option.getD_some]
  refine ⟨places, hnonempty, hvalid, ⟨[], codes.flatten, rfl, rfl⟩, ?_, ?_, ?_⟩
  · rw [hplace 0 (Nat.zero_le _), List.take_zero]
    rfl
  · intro index instruction hget
    have hlt := (List.getElem?_eq_some_iff.mp hget).1
    obtain ⟨piece, hpieceAt, hof⟩ := hpiece index instruction hget
    obtain ⟨code, hcodeAt, -, haimed⟩ := hcode index piece
      (by rw [List.getElem?_append_left (by omega), hpieceAt])
    rw [Nat.zero_add] at hof
    rw [hplace index hlt.le, hplace (index + 1) hlt]
    refine ⟨piece, code, hof, haimed, codeAt_flatten hcodeAt, ?_⟩
    rw [List.take_add_one, hcodeAt, Option.toList_some, List.flatten_append, isa.size_append,
      List.flatten_singleton, Nat.add_assoc]
  · obtain ⟨code, hcodeAt, -, haimed⟩ := hcode program.length (finalPiece isa program)
      (by rw [← hlength]; simp)
    obtain rfl := Except.ok.inj haimed
    rw [hplace _ (Nat.le_refl _)]
    exact codeAt_flatten hcodeAt

theorem assemble_eq_ok (h : assemble isa program = .ok bytes) :
    ∃ whole, assembleCode isa program = .ok whole ∧ bytes = isa.bytes whole := by
  cases hwhole : assembleCode isa program with
  | error error => simp [assemble, hwhole, Except.map] at h
  | ok whole =>
    rw [assemble, hwhole] at h
    exact ⟨whole, rfl, (Except.ok.inj h).symm⟩

end PluralForms.Native
