import PluralForms.Proofs.ErrorPlaces
import PluralForms.Proofs.Spacing

/-! Places of faults in a text. The reader of syntax trees stops before an operand, where it has
passed over all blanks, or behind one, where it has passed over a gap only. In the second case it
counts the bytes of the other blanks up to the place of the error, so the position is past that
place if one of them takes several bytes. -/

namespace PluralForms

namespace Text

/-! ### Bytes of characters -/

/-- How many bytes the characters take in UTF-8. -/
def byteSize : List Char → Nat
  | [] => 0
  | c :: rest => c.utf8Size + byteSize rest

variable {text : List Char}

theorem byteSize_append (text rest : List Char) :
    byteSize (text ++ rest) = byteSize text + byteSize rest := by
  induction text with
  | nil => rw [List.nil_append, byteSize, Nat.zero_add]
  | cons c text ih => rw [List.cons_append, byteSize, byteSize, ih, Nat.add_assoc]

theorem byteSize_eq_length (h : ∀ c ∈ text, c.utf8Size = 1) : byteSize text = text.length := by
  induction text with
  | nil => rfl
  | cons c rest ih =>
    have hc := h c List.mem_cons_self
    have hrest := ih fun c hc => h c (List.mem_cons_of_mem _ hc)
    rw [byteSize, hc, hrest, Nat.add_comm, List.length_cons]

theorem foldl_utf8Size (text : List Char) (n : Nat) :
    text.foldl (fun size c => size + c.utf8Size) n = n + byteSize text := by
  induction text generalizing n with
  | nil => rfl
  | cons c rest ih =>
    rw [List.foldl_cons, ih, byteSize, Nat.add_assoc]

end Text

namespace SyntaxTree

/-! ### Where a text stands -/

/-- The part `text` stands at the end of the text `whole`, behind an operand and a gap, or behind
blanks and no operand. -/
def Stands (whole : List Char) (behind : Bool) (text : List Char) : Prop :=
  ∃ before blanks, whole = before ++ blanks ++ text ∧
    (∀ c ∈ before.getLast?, Text.isBlank c = false) ∧
    before.getLast?.any endsOperand = behind ∧
    ∀ c ∈ blanks, Text.isBlank c = true ∧ (behind = true → isGap c = true)

variable {whole text rest : List Char} {behind : Bool} {c : Char}

theorem stands_self (text : List Char) : Stands text false text :=
  ⟨[], [], by simp⟩

theorem Stands.dropWhile {p : Char → Bool} (h : Stands whole behind text)
    (hp : ∀ c, p c = true → Text.isBlank c = true ∧ (behind = true → isGap c = true)) :
    Stands whole behind (text.dropWhile p) := by
  obtain ⟨before, blanks, hwhole, hlast, hbehind, hblanks⟩ := h
  refine ⟨before, blanks ++ text.takeWhile p, ?_, hlast, hbehind, fun c hc => ?_⟩
  · rw [hwhole, List.append_assoc, List.append_assoc, List.append_assoc,
      List.takeWhile_append_dropWhile]
  · rcases List.mem_append.mp hc with hc | hc
    · exact hblanks c hc
    · exact hp c (List.mem_takeWhile_imp hc)

theorem Stands.skipGap (h : Stands whole behind text) : Stands whole behind (skipGap text) :=
  h.dropWhile fun _ hc => ⟨isBlank_of_isGap hc, fun _ => hc⟩

theorem Stands.trimStart (h : Stands whole false text) : Stands whole false (Text.trimStart text) :=
  h.dropWhile fun _ hc => ⟨hc, by simp⟩

/-- Behind more characters the text stands as the last of them tells. -/
theorem Stands.after {passed : List Char} (h : Stands whole behind (passed ++ c :: rest))
    (hc : Text.isBlank c = false) : Stands whole (endsOperand c) rest := by
  obtain ⟨before, blanks, hwhole, -⟩ := h
  exact ⟨before ++ blanks ++ passed ++ [c], [], by simp [hwhole], by simp [hc], by simp, by simp⟩

/-- The last character of a token that is no number tells whether an operand ends with the token. -/
theorem exists_last (token : Token) (hinteger : ∀ value, token ≠ .integer value) :
    ∃ passed c, token.text.toList = passed ++ [c] ∧ Text.isBlank c = false ∧
      endsOperand c = token.endsOperand := by
  have hany : token.text.toList.getLast?.any
      (fun c => !Text.isBlank c && endsOperand c == token.endsOperand) = true := by
    cases token with
    | integer value => exact absurd rfl (hinteger value)
    | arith op => cases op <;> decide
    | compare comparison => cases comparison <;> decide
    | _ => decide
  obtain ⟨c, hlast, hc⟩ := (Option.any_eq_true ..).mp hany
  obtain ⟨passed, hpassed⟩ := List.getLast?_eq_some_iff.mp hlast
  simp only [Bool.and_eq_true, Bool.not_eq_true', beq_iff_eq] at hc
  exact ⟨passed, c, hpassed, hc⟩

/-- Behind a token that is no number the text stands as the token tells. -/
theorem Stands.token (token : Token) (hinteger : ∀ value, token ≠ .integer value)
    (h : Stands whole behind (token.text.toList ++ rest)) :
    Stands whole token.endsOperand rest := by
  obtain ⟨passed, c, htext, hc, hends⟩ := exists_last token hinteger
  rw [htext, List.append_assoc] at h
  exact hends ▸ h.after hc

/-- Behind all digits of a number the text stands behind an operand. -/
theorem Stands.number (h : Stands whole behind (c :: rest)) (hdigit : c.isDigit = true) :
    Stands whole true (rest.drop (rest.takeWhile Char.isDigit).length) := by
  obtain ⟨passed, last, hdigits⟩ :
      ∃ passed last, c :: rest.takeWhile Char.isDigit = passed ++ [last] :=
    ⟨_, _, (List.dropLast_concat_getLast (List.cons_ne_nil _ _)).symm⟩
  have hlast : last.isDigit = true := by
    have hmem : last ∈ c :: rest.takeWhile Char.isDigit := by simp [hdigits]
    rcases List.mem_cons.mp hmem with rfl | hmem
    · exact hdigit
    · exact List.mem_takeWhile_imp hmem
  have hends : endsOperand last = true := by simp [endsOperand, hlast]
  have htext : c :: rest =
      passed ++ last :: rest.drop (rest.takeWhile Char.isDigit).length := by
    calc c :: rest
      _ = (c :: rest.takeWhile Char.isDigit) ++ rest.drop (rest.takeWhile Char.isDigit).length := by
        rw [List.cons_append, List.prefix_iff_eq_append.mp (List.takeWhile_prefix _)]
      _ = _ := by rw [hdigits, List.append_assoc, List.singleton_append]
  rw [htext] at h
  exact hends ▸ h.after (Text.isBlank_of_isDigit hlast)

/-! ### Located faults -/

/-- A fault arises before an operand, or behind one and without a cause of its own. -/
inductive Located (whole : List Char) (fault : Fault) : Prop
  | needed : Stands whole false fault.rest → (∀ c ∈ fault.rest.head?, Text.isBlank c = false) →
      (∀ cause, fault.cause = some cause → cause.namesPlace = false) → Located whole fault
  | met : Stands whole true fault.rest → fault.cause = none → Located whole fault

/-- What an attempt on the text leaves stands behind an operand. -/
def Leaves (whole text rest : List Char) : Prop :=
  Stands whole true rest ∧ rest.length ≤ text.length

theorem Leaves.mono {text' : List Char} (h : Leaves whole text rest)
    (hle : text.length ≤ text'.length) : Leaves whole text' rest :=
  ⟨h.1, h.2.trans hle⟩

/-- Where an operand is needed before less than `limit` characters, the reader leaves what stands
behind one or fails with a located fault. -/
def Locates (whole : List Char) (limit : Nat) (reader : Reader SyntaxTree) : Prop :=
  ∀ text, Stands whole false text → text.length < limit →
    Meets (Located whole) (fun read => Leaves whole text read.2) (reader text)

variable {inner next : Reader SyntaxTree} {table : List (String × BinaryOp)} {k limit : Nat}
  {tree : SyntaxTree}

theorem located_trimStart {cause : ParseError.Cause} (h : Stands whole false text)
    (hcause : cause.namesPlace = false) : Located whole ⟨Text.trimStart text, some cause⟩ :=
  .needed h.trimStart (eq_false_of_head?_dropWhile Text.isBlank text) fun _ heq =>
    Option.some.inj heq ▸ hcause

theorem meets_toExpr (h : Stands whole false text) (tree : SyntaxTree) :
    Meets (Located whole) (fun _ => True) (tree.toExpr (Text.trimStart text)) := by
  cases tree with
  | result value => exact .of_ok trivial
  | choose condition yes no => exact .of_error (located_trimStart h rfl)

/-- Behind an operand, a mark is met or a fault arises there. -/
theorem meets_expect {mark : Char} (token : Token) (h : Stands whole true text)
    (htoken : token.text.toList = [mark]) (hinteger : ∀ value, token ≠ .integer value) :
    Meets (Located whole)
      (fun rest => Stands whole token.endsOperand rest ∧ rest.length < text.length)
      (expect mark text) := by
  have hgap := h.skipGap
  have hle := length_skipGap_le text
  simp only [expect]
  split
  · next c rest heq =>
    rw [heq] at hgap hle
    split
    · next hc =>
      subst hc
      have hrest := length_skipGap_le rest
      rw [List.length_cons] at hle
      refine .of_ok ⟨(Stands.token token hinteger (by rwa [htoken])).skipGap, by omega⟩
    · exact .of_error (.met hgap rfl)
  · next heq =>
    rw [heq] at hgap
    exact .of_error (.met hgap rfl)

theorem meets_primary (hinner : Locates whole limit inner) (h : Stands whole false text)
    (hhead : ∀ c ∈ text.head?, Text.isBlank c = false) (hlength : text.length ≤ limit) :
    Meets (Located whole) (fun read => Leaves whole text read.2) (primary inner text) := by
  cases text with
  | nil => exact .of_error (.needed h hhead (by simp))
  | cons c rest =>
    have hc : Text.isBlank c = false := hhead c rfl
    simp only [primary]
    split
    · next hopening =>
      subst hopening
      have hgap := length_skipGap_le rest
      rw [List.length_cons] at hlength
      have hready : Stands whole false (skipGap rest) :=
        (h.token .opening (by simp)).skipGap
      refine (hinner _ hready (by omega)).bind ?_
      rintro ⟨tree, after⟩ ⟨hafter, hle⟩
      refine (meets_expect .closing hafter rfl (by simp)).bind ?_
      rintro last ⟨hlast, hlt⟩
      refine .of_ok ⟨hlast, ?_⟩
      simp only [List.length_cons] at hle hlt ⊢
      omega
    · split
      · next hdigit =>
        split
        · refine .of_ok ⟨?_, by simp⟩
          rw [List.takeWhile_cons, if_pos hdigit, List.length_cons, List.drop_succ_cons]
          exact h.number hdigit
        · exact .of_error (.needed h hhead (by simp [ParseError.Cause.namesPlace]))
      · split
        · split
          · next hname =>
            refine .of_ok ⟨?_, by simp⟩
            rw [List.takeWhile_cons] at hname
            split at hname
            · obtain ⟨rfl, -⟩ := List.cons.inj hname
              exact h.token .count (by simp)
            · simp at hname
          · exact .of_error (.needed h hhead (by simp [ParseError.Cause.namesPlace]))
        · exact .of_error (.needed h hhead (by simp))

theorem meets_unary (hinner : Locates whole limit inner) (fuel : Nat) (h : Stands whole false text)
    (hlength : text.length ≤ limit) (hfuel : text.length < fuel) :
    Meets (Located whole) (fun read => Leaves whole text read.2) (unary inner fuel text) := by
  induction fuel generalizing text with
  | zero => exact absurd hfuel (Nat.not_lt_zero _)
  | succ fuel ih =>
    have htrim := length_trimStart_le text
    simp only [unary]
    split
    · have hhead := eq_false_of_head?_dropWhile Text.isBlank text
      exact (meets_primary hinner h.trimStart hhead (htrim.trans hlength)).imp
        fun _ hleaves => hleaves.mono htrim
    · next op rest hsign =>
      have hready := h.trimStart
      rw [(signAt_eq_some hsign).1] at hready
      have hrest : Stands whole false (skipGap rest) := by
        have hafter := (hready.token op.token (sign_ne_integer op)).skipGap
        rwa [op.endsOperand_token] at hafter
      have hshort := length_of_signAt hsign
      refine (ih hrest (by omega) (by omega)).bind ?_
      rintro ⟨tree, after⟩ ⟨hafter, hle⟩
      refine (meets_toExpr hrest tree).bind fun operand _ => ?_
      exact .of_ok ⟨hafter, hle.trans hshort.le⟩

/-- What a step leaves, if it finds an operator, stands behind an operand. -/
def StepLeaves (whole text : List Char) (found : Option (SyntaxTree × List Char)) : Prop :=
  ∀ read, found = some read → Leaves whole text read.2

theorem meets_operation {start : List Char} {left : SyntaxTree}
    (hk : precedence[k]? = some table) (hnext : Locates whole limit next)
    (hstart : Stands whole false start) (h : Stands whole true text)
    (hlength : text.length ≤ limit) :
    Meets (Located whole) (StepLeaves whole text) (operation table next start left text) := by
  simp only [operation]
  split
  · exact .of_ok (by simp [StepLeaves])
  · next op rest hop =>
    have hgap := h.skipGap
    rw [(operatorAt_eq_some hk hop).2] at hgap
    have hrest : Stands whole false (skipGap rest) := by
      have hafter := (hgap.token op.token (token_ne_integer op)).skipGap
      rwa [op.endsOperand_token] at hafter
    have hshort : (skipGap rest).length < text.length :=
      (length_skipGap_le rest).trans_lt (length_of_operatorAt hk hop)
    refine (meets_toExpr hstart left).bind fun first _ => ?_
    refine (hnext _ hrest (by omega)).bind ?_
    rintro ⟨right, after⟩ ⟨hafter, hle⟩
    refine (meets_toExpr hrest right).bind fun second _ => ?_
    dsimp only
    split
    · exact .of_error (located_trimStart hrest rfl)
    · refine .of_ok ?_
      rintro _ ⟨⟩
      exact ⟨hafter, hle.trans hshort.le⟩

theorem meets_repeated
    {step : SyntaxTree → List Char → Except Fault (Option (SyntaxTree × List Char))}
    (hstep : ∀ left text, Stands whole true text → text.length ≤ limit →
      Meets (Located whole) (StepLeaves whole text) (step left text))
    (fuel : Nat) (left : SyntaxTree) (h : Stands whole true text) (hlength : text.length ≤ limit) :
    Meets (Located whole) (fun read => Leaves whole text read.2)
      (repeated step fuel left text) := by
  induction fuel generalizing left text with
  | zero => exact .of_ok ⟨h, Nat.le_refl _⟩
  | succ fuel ih =>
    refine (hstep left text h hlength).bind fun found hfound => ?_
    cases found with
    | none => exact .of_ok ⟨h, Nat.le_refl _⟩
    | some read =>
      obtain ⟨hafter, hle⟩ := hfound read rfl
      exact (ih read.1 hafter (hle.trans hlength)).imp fun _ hleaves => hleaves.mono hle

theorem locates_joined (hk : precedence[k]? = some table) (hnext : Locates whole limit next) :
    Locates whole limit (joined table next) := by
  intro text h hlength
  refine (hnext text h hlength).bind ?_
  rintro ⟨first, rest⟩ ⟨hrest, hle⟩
  have hstep : ∀ left rest, Stands whole true rest → rest.length ≤ limit →
      Meets (Located whole) (StepLeaves whole rest) (operation table next text left rest) :=
    fun _ _ => meets_operation hk hnext h
  exact (meets_repeated hstep rest.length first hrest (hle.trans hlength.le)).imp
    fun _ hleaves => hleaves.mono hle

theorem locates_operations (hinner : Locates whole limit inner) :
    Locates whole (limit + 1) (operations inner) :=
  operations_induction (P := fun _ => Locates whole (limit + 1))
    (fun text h hlength => meets_unary hinner (text.length + 1) h (Nat.le_of_lt_succ hlength)
      (Nat.lt_succ_self _))
    fun _ _ _ => locates_joined

theorem locates_conditional (depth : Nat) : Locates whole depth (conditional depth) := by
  induction depth with
  | zero => exact fun text _ hlength => absurd hlength (Nat.not_lt_zero _)
  | succ depth ih =>
    intro text h hlength
    refine (locates_operations ih text h hlength).bind ?_
    rintro ⟨head, rest⟩ ⟨hrest, hle⟩
    dsimp only at hrest hle ⊢
    split
    · next after hquestion =>
      have hgap := length_skipGap_le rest
      have hgap' := length_skipGap_le after
      have hyes := hrest.skipGap
      rw [hquestion] at hyes hgap
      rw [List.length_cons] at hgap
      have hready : Stands whole false (skipGap after) :=
        (hyes.token .question (by simp)).skipGap
      refine (meets_toExpr h head).bind fun condition _ => ?_
      refine (ih _ hready (by omega)).bind ?_
      rintro ⟨yes, mid⟩ ⟨hmid, hle'⟩
      refine (meets_expect .colon hmid rfl (by simp)).bind ?_
      rintro last ⟨hlast, hlt⟩
      dsimp only at hle' hlt
      refine (ih last hlast (by omega)).bind ?_
      rintro ⟨no, after'⟩ ⟨hafter, hle''⟩
      dsimp only at hle''
      exact .of_ok ⟨hafter, show after'.length ≤ text.length by omega⟩
    · exact .of_ok ⟨hrest, hle⟩

/-! ### Positions of errors -/

/-- An error but that of a blank text is due to a located fault. -/
theorem exists_located {error : ParseError} (h : parse text = .error error)
    (hcause : error.cause ≠ .empty) :
    ∃ fault, Located text fault ∧ error = fault.toParseError text := by
  have hmeets := locates_conditional (text.length + 1) text (stands_self text) (Nat.lt_succ_self _)
  simp only [parse] at h
  split at h
  · obtain rfl := Except.error.inj h
    exact absurd rfl hcause
  · split at h
    · next fault hread => exact ⟨fault, hmeets.error fault hread, (Except.error.inj h).symm⟩
    · next tree rest hread =>
      split at h
      · simp at h
      · exact ⟨_, .met (hmeets.ok _ hread).1.skipGap rfl, (Except.error.inj h).symm⟩

theorem utf8Size_of_isGap (h : isGap c = true) : c.utf8Size = 1 := by
  simp only [isGap, Bool.or_eq_true, decide_eq_true_eq] at h
  rcases h with ((rfl | rfl) | rfl) | rfl <;> decide

/-- The position of an error counts the characters before the fault and the bytes of the blanks
there. -/
theorem position_toParseError {before : List Char} {fault : Fault}
    (h : text = before ++ fault.rest) :
    (fault.toParseError text).position =
      before.length + Text.byteSize (fault.rest.takeWhile Text.isBlank) := by
  have hlength : text.length - fault.rest.length = before.length := by simp [h]
  simp only [Fault.toParseError, Text.foldl_utf8Size, hlength, Nat.zero_add]
  split <;> rfl

/-- What the error names stands behind the blanks. -/
theorem points_toParseError {before : List Char} {fault : Fault}
    (h : text = before ++ fault.rest)
    (hcause : ∀ cause, fault.cause = some cause → cause.namesPlace = false) :
    ParseError.Points text
      ⟨before.length + (fault.rest.takeWhile Text.isBlank).length,
        (fault.toParseError text).cause⟩ := by
  have hsplit :
      text = before ++ fault.rest.takeWhile Text.isBlank ++ Text.trimStart fault.rest := by
    rw [List.append_assoc, Text.trimStart, List.takeWhile_append_dropWhile, h]
  have hle : before.length + (fault.rest.takeWhile Text.isBlank).length ≤ text.length := by
    rw [hsplit, List.length_append, List.length_append]
    exact Nat.le_add_right _ _
  simp only [Fault.toParseError]
  split
  · next heq => exact ParseError.points_of_le hle (hcause _ heq)
  · next c _ _ htrim =>
    refine ⟨hle, ?_, by simp⟩
    rintro _ ⟨⟩
    rw [hsplit, htrim, ← List.length_append, List.getElem?_append_right (Nat.le_refl _)]
    simp
  · next htrim =>
    refine ⟨hle, by simp, fun _ _ => ?_⟩
    rw [hsplit, htrim, List.append_nil, List.length_append]

/-- The blanks are all those between what stands before them and after them. -/
structure Parts (text before blanks after : List Char) : Prop where
  text_eq : text = before ++ blanks ++ after
  last : ∀ c ∈ before.getLast?, Text.isBlank c = false
  blank : ∀ c ∈ blanks, Text.isBlank c = true
  head : ∀ c ∈ after.head?, Text.isBlank c = false

/-- The place of an error stands behind blanks, and its position counts their bytes if an operand
stands before them, and their number otherwise. -/
theorem exists_place {error : ParseError} (h : parse text = .error error)
    (hcause : error.cause ≠ .empty) :
    ∃ before blanks after, Parts text before blanks after ∧
      ParseError.Points text ⟨before.length + blanks.length, error.cause⟩ ∧
      error.position = before.length +
        if before.getLast?.any endsOperand then Text.byteSize blanks else blanks.length := by
  obtain ⟨fault, hlocated, rfl⟩ := exists_located h hcause
  cases hlocated with
  | needed hstands hhead hnames =>
    obtain ⟨before, blanks, htext, hlast, hbehind, hblanks⟩ := hstands
    have hnone : fault.rest.takeWhile Text.isBlank = [] := by
      cases hrest : fault.rest with
      | nil => rfl
      | cons c rest =>
        rw [hrest] at hhead
        simp [hhead c rfl]
    have hposition := position_toParseError htext
    have hpoints := points_toParseError htext hnames
    rw [hnone, List.length_append] at hposition hpoints
    refine ⟨before, blanks, fault.rest, ⟨htext, hlast, fun c hc => (hblanks c hc).1, hhead⟩,
      hpoints, ?_⟩
    rw [hposition, hbehind]
    rfl
  | met hstands hnames =>
    obtain ⟨before, gap, htext, hlast, hbehind, hgap⟩ := hstands
    have hposition := position_toParseError htext
    have hpoints := points_toParseError htext (by simp [hnames])
    have hsize : Text.byteSize gap = gap.length :=
      Text.byteSize_eq_length fun c hc => utf8Size_of_isGap ((hgap c hc).2 rfl)
    refine ⟨before, gap ++ fault.rest.takeWhile Text.isBlank, Text.trimStart fault.rest,
      ⟨?_, hlast, fun c hc => ?_, eq_false_of_head?_dropWhile Text.isBlank fault.rest⟩, ?_, ?_⟩
    · rw [Text.trimStart, List.append_assoc, List.append_assoc, List.takeWhile_append_dropWhile,
        ← List.append_assoc, ← htext]
    · rcases List.mem_append.mp hc with hc | hc
      · exact (hgap c hc).1
      · exact List.mem_takeWhile_imp hc
    · rwa [List.length_append, Nat.add_assoc, ← List.length_append] at hpoints
    · rw [hposition, hbehind, if_pos rfl, Text.byteSize_append, hsize, List.length_append,
        Nat.add_assoc]

end SyntaxTree

/-- Each error points to its place, but for the reader of syntax trees the position is past the
place if between an operand and the place a blank of several bytes stands. -/
theorem points_of_error (text : List Char) :
    (∀ error, Program.compile text = .error error → error.Points text) ∧
      (∀ error, SyntaxTree.parse text = .error error → error.cause ≠ .empty →
        ∃ before blanks after, SyntaxTree.Parts text before blanks after ∧
          ParseError.Points text ⟨before.length + blanks.length, error.cause⟩ ∧
          error.position = before.length + if before.getLast?.any SyntaxTree.endsOperand
            then Text.byteSize blanks else blanks.length) ∧
      ∀ error, SyntaxTree.parse text = .error error → error.cause ≠ .empty →
        (∀ c ∈ text, Text.isBlank c = true → c.utf8Size = 1) → error.Points text := by
  refine ⟨fun _ => points_of_compile, fun _ => SyntaxTree.exists_place, ?_⟩
  intro error h hcause hone
  obtain ⟨before, blanks, after, hparts, hpoints, hposition⟩ := SyntaxTree.exists_place h hcause
  have hsize : Text.byteSize blanks = blanks.length := by
    refine Text.byteSize_eq_length fun c hc => hone c ?_ (hparts.blank c hc)
    simp [hparts.text_eq, hc]
  rw [hsize, ite_self] at hposition
  rwa [← hposition] at hpoints

/-- The reader of selections and the one of syntax trees point to the dollar sign behind a space.
Behind an ideographic space, which has three bytes, the position is past it. -/
theorem points_of_error_ideographic :
    let error : ParseError := ⟨2, .unexpectedChar '$'⟩
    (Program.compile "n $".toList = .error error ∧ error.Points "n $".toList) ∧
      (SyntaxTree.parse "n $".toList = .error error ∧ error.Points "n $".toList) ∧
      SyntaxTree.parse "n\u3000$".toList = .error ⟨4, .unexpectedChar '$'⟩ ∧
      ∃ before blanks after, SyntaxTree.Parts "n\u3000$".toList before blanks after ∧
        ParseError.Points "n\u3000$".toList
          ⟨before.length + blanks.length, .unexpectedChar '$'⟩ ∧
        4 = before.length + if before.getLast?.any SyntaxTree.endsOperand
          then Text.byteSize blanks else blanks.length := by
  intro error
  have hcompile : Program.compile "n $".toList = .error error := by decide +kernel
  have hnarrow : SyntaxTree.parse "n $".toList = .error error := by decide +kernel
  have hwide : SyntaxTree.parse "n\u3000$".toList = .error ⟨4, .unexpectedChar '$'⟩ := by
    decide +kernel
  have hcause : ParseError.Cause.unexpectedChar '$' ≠ .empty := by simp
  have hone : ∀ c ∈ "n $".toList, Text.isBlank c = true → c.utf8Size = 1 := by
    have hall : ("n $".toList.all fun c => !Text.isBlank c || c.utf8Size == 1) = true := by decide
    intro c hc hblank
    simpa [hblank] using List.all_eq_true.mp hall c hc
  obtain ⟨hfirst, -, hbytes⟩ := points_of_error "n $".toList
  obtain ⟨-, hplace, -⟩ := points_of_error "n\u3000$".toList
  exact ⟨⟨hcompile, hfirst _ hcompile⟩, ⟨hnarrow, hbytes _ hnarrow hcause hone⟩, hwide,
    hplace _ hwide hcause⟩

/-- The place of the dollar sign is 2, but the no-break space before it counts twice. -/
theorem points_past_place :
    SyntaxTree.parse "n\u00a0$".toList = .error ⟨3, .unexpectedChar '$'⟩ ∧
      ¬ParseError.Points "n\u00a0$".toList ⟨3, .unexpectedChar '$'⟩ ∧
      ParseError.Points "n\u00a0$".toList ⟨2, .unexpectedChar '$'⟩ := by
  refine ⟨by decide +kernel, fun h => ?_, by decide, ?_, by simp⟩
  · exact absurd (h.char_eq '$' rfl) (by decide)
  · rintro _ ⟨⟩
    decide

end PluralForms
