import PluralForms.Header
import PluralForms.Proofs.Letters

/-! The layouts of a `Plural-Forms` field. Blanks, the case of the letters, the name of the field,
a last semicolon and continued lines are free, and every layout is read as the same header. -/

namespace PluralForms.Header

open Text (Blanks isBlank)

variable {name : String} {mark : Char} {front plain lines expression : List Char} {count : Nat}

/-! ### Layouts -/

/-- The letters of `name`, small or capital. -/
def Spelling (name : String) := { text : List Char // text.map Char.toLower = name.toList }

/-- The name of a part and its equals sign. -/
structure Label (name : String) where
  name : Spelling name
  blanks : Blanks

def Label.text (label : Label name) : List Char := label.name.val ++ label.blanks.val ++ ['=']

/-- What a field is free to choose: the blanks at each place, the case of the letters, whether the
name of the field stands first, and whether a semicolon closes the expression. -/
structure Layout where
  before : Blanks
  field : Option (Spelling "plural-forms:" × Blanks)
  nplurals : Label "nplurals"
  beforeCount : Blanks
  afterCount : Blanks
  beforePlural : Blanks
  plural : Label "plural"
  beforeExpression : Blanks
  afterExpression : Blanks
  closed : Bool
  after : Blanks

namespace Layout

def fieldText (layout : Layout) : List Char :=
  match layout.field with
  | some (name, blanks) => name.val ++ blanks.val
  | none => []

/-- What stands before the semicolon after the count. -/
def countText (layout : Layout) (count : Nat) : List Char :=
  layout.beforeCount.val ++ Nat.toDigits 10 count ++ layout.afterCount.val

/-- What stands after the last label. -/
def expressionText (layout : Layout) (expression : List Char) : List Char :=
  layout.beforeExpression.val ++ expression ++ layout.afterExpression.val ++
    (if layout.closed then [';'] else []) ++ layout.after.val

/-- The field with this number of plural forms and this expression. -/
def text (layout : Layout) (count : Nat) (expression : List Char) : List Char :=
  layout.before.val ++ (layout.fieldText ++ layout.nplurals.text ++ layout.countText count ++
    ';' :: (layout.beforePlural.val ++ layout.plural.text ++ layout.expressionText expression))

end Layout

/-- The second text is the first one with lines continued at any places. -/
inductive Continued : List Char → List Char → Prop where
  | nil : Continued [] []
  | cons (c : Char) {plain lines : List Char} :
      Continued plain lines → Continued (c :: plain) (c :: lines)
  | line {plain lines : List Char} : Continued plain lines → Continued plain ('\\' :: '\n' :: lines)

theorem Continued.refl (plain : List Char) : Continued plain plain := by
  induction plain with
  | nil => exact .nil
  | cons c _ ih => exact .cons c ih

/-- A line is continued between two parts of a text. -/
theorem continued_append (front back : List Char) :
    Continued (front ++ back) (front ++ '\\' :: '\n' :: back) := by
  induction front with
  | nil => exact .line (.refl back)
  | cons c _ ih => exact .cons c ih

/-- The first text holds no backslash, so each backslash of the second continues a line. -/
theorem Continued.joinLines_eq (h : Continued plain lines) (hplain : ∀ c ∈ plain, c ≠ '\\') :
    joinLines lines = plain := by
  induction h with
  | nil => rfl
  | cons c _ ih =>
    obtain ⟨hc, hrest⟩ := List.forall_mem_cons.mp hplain
    rw [joinLines, ih hrest]
    exact fun _ hc' => absurd hc' hc
  | line _ ih => rw [joinLines, ih hplain]

/-! ### Parts of a field -/

theorem after?_append (name : String) (rest : List Char) :
    after? name (name.toList ++ rest) = some rest := by
  rw [after?, if_pos (by simp), ← String.length_toList, List.drop_left]

/-- The name of the field in small letters with blanks behind it, if it is named. -/
def namedField : Option Blanks → List Char
  | some blanks => "plural-forms:".toList ++ blanks.val
  | none => []

/-- The name of the field is passed over. -/
theorem skip_namedField (field : Option Blanks) (rest : List Char) :
    ((after? "plural-forms:" (namedField field ++ ("nplurals".toList ++ rest))).map
      Text.trimStart).getD (namedField field ++ ("nplurals".toList ++ rest)) =
        "nplurals".toList ++ rest := by
  have hstart : Text.trimStart ("nplurals".toList ++ rest) = "nplurals".toList ++ rest :=
    Text.trimStart_cons (by decide) _
  cases field with
  | some blanks =>
    have hfield : namedField (some blanks) = "plural-forms:".toList ++ blanks.val := rfl
    rw [hfield, List.append_assoc, after?_append, Option.map_some, Text.trimStart_append, hstart,
      Option.getD_some]
  | none =>
    have hfield : namedField none = [] := rfl
    have hafter : after? "plural-forms:" ("nplurals".toList ++ rest) = none := rfl
    rw [hfield, List.nil_append, hafter, Option.map_none, Option.getD_none]

theorem value?_label (name : String) (blanks : Blanks) (rest : List Char) :
    value? name (name.toList ++ (blanks.val ++ '=' :: rest)) = some rest := by
  have hafter : (after? name (name.toList ++ (blanks.val ++ '=' :: rest))).map Text.trimStart =
      some ('=' :: rest) := by
    rw [after?_append, Option.map_some, Text.trimStart_append,
      Text.trimStart_cons (by decide)]
  rw [value?, hafter]
  rfl

/-- The blanks around a field are no part of its value. -/
theorem value?_trim (before blanks : Blanks) (value : List Char) :
    value? "plural" (Text.trim (before.val ++ ("plural".toList ++ (blanks.val ++ '=' :: value)))) =
      some (Text.trimEnd value) := by
  have hstart (rest : List Char) :
      Text.trimStart ("plural".toList ++ rest) = "plural".toList ++ rest :=
    Text.trimStart_cons (by decide) _
  rw [Text.trim, Text.trimStart_append, hstart, ← List.append_assoc,
    Text.trimEnd_append_cons (by decide), List.append_assoc, value?_label]

theorem splitAt?_append (h : ∀ c ∈ front, c ≠ mark) (rest : List Char) :
    splitAt? mark (front ++ mark :: rest) = some (front, rest) := by
  induction front with
  | nil => rw [List.nil_append, splitAt?, if_pos rfl]
  | cons c front ih =>
    obtain ⟨hc, hfront⟩ := List.forall_mem_cons.mp h
    rw [List.cons_append, splitAt?, if_neg hc, ih hfront, Option.map_some]

/-! ### Characters of a layout -/

/-- Lowered on its own, and no backslash. -/
def isPlain (c : Char) : Bool := c != '\\' && (c.toNat < 128 || isBlank c)

theorem isPlain_of_isBlank {c : Char} (h : isBlank c = true) : isPlain c = true := by
  rw [isPlain, h, Bool.or_true, Bool.and_true, bne_iff_ne]
  rintro rfl
  exact absurd h (by decide)

theorem isPlain_of_isDigit {c : Char} (h : c.isDigit = true) : isPlain c = true := by
  rw [Char.isDigit_iff_toNat] at h
  have : '\\'.toNat = 92 := rfl
  have : '9'.toNat = 57 := rfl
  have hne : c ≠ '\\' := fun hc => by subst hc; omega
  simp [isPlain, hne]
  omega

theorem isPlain_of_toLower {c : Char} (h : isPlain c.toLower = true) : isPlain c = true :=
  Text.toLower_rel (R := fun c lower => isPlain lower = true → isPlain c = true) (by decide)
    (fun _ => id) c h

theorem all_isPlain_blanks (blanks : Blanks) : blanks.val.all isPlain = true :=
  List.all_eq_true.mpr fun c hc => isPlain_of_isBlank (blanks.forall_isBlank c hc)

theorem Spelling.all_isPlain (spelling : Spelling name) (h : name.toList.all isPlain = true) :
    spelling.val.all isPlain = true := by
  rw [← spelling.2, List.all_map] at h
  exact List.all_eq_true.mpr fun c hc => isPlain_of_toLower (List.all_eq_true.mp h c hc)

theorem Label.all_isPlain (label : Label name) (h : name.toList.all isPlain = true) :
    label.text.all isPlain = true := by
  rw [text, List.all_append, List.all_append, label.name.all_isPlain h, all_isPlain_blanks]
  rfl

theorem Label.map_toLower (label : Label name) :
    label.text.map Char.toLower = name.toList ++ label.blanks.val ++ ['='] := by
  rw [text, List.map_append, List.map_append, label.name.2, label.blanks.map_toLower]
  rfl

namespace Layout

variable (layout : Layout)

theorem trim_countText (count : Nat) :
    Text.trim (layout.countText count) = Nat.toDigits 10 count := by
  rw [countText, Text.trim_blanks, Text.trim_of_forall]
  exact fun c hc => Text.isBlank_of_isDigit (Text.isDigit_of_mem_toDigits c hc)

theorem ne_semicolon_of_mem_countText (count : Nat) : ∀ c ∈ layout.countText count, c ≠ ';' := by
  have hblanks {blanks : Blanks} : ∀ c ∈ blanks.val, c ≠ ';' := by
    rintro c hc rfl
    exact absurd (blanks.forall_isBlank _ hc) (by decide)
  intro c hc
  rcases List.mem_append.mp hc with hc | hc
  · rcases List.mem_append.mp hc with hc | hc
    · exact hblanks c hc
    · rintro rfl
      exact absurd (Text.isDigit_of_mem_toDigits _ hc) (by decide)
  · exact hblanks c hc

/-- The semicolon that closes a field is no part of the expression. -/
theorem trim_expressionText
    (h : layout.closed = true ∨ (Text.trim expression).getLast? ≠ some ';') :
    Text.trim (dropLastMark ';' (Text.trimEnd (layout.expressionText expression))) =
      Text.trim expression := by
  cases hclosed : layout.closed with
  | false =>
    have htrim : Text.trim (layout.expressionText expression) = Text.trim expression := by
      rw [← Text.trim_blanks layout.beforeExpression expression
        (layout.afterExpression.append layout.after)]
      simp [expressionText, hclosed, Blanks.append]
    have hexpression := h.resolve_left (by simp [hclosed])
    rw [dropLastMark, if_neg, Text.trim_trimEnd, htrim]
    exact fun hlast => hexpression (htrim ▸ Text.getLast?_trim (by decide) hlast)
  | true =>
    have htext : layout.expressionText expression = layout.beforeExpression.val ++ expression ++
        layout.afterExpression.val ++ ';' :: layout.after.val := by
      simp [expressionText, hclosed]
    have hafter : Text.trimEnd layout.after.val = [] := Text.trimEnd_append [] layout.after
    rw [htext, Text.trimEnd_append_cons (by decide), hafter, dropLastMark, if_pos (by simp),
      List.dropLast_concat, Text.trim_blanks]

/-! ### The lower case of a layout -/

theorem all_isPlain_text (count : Nat) (h : expression.all isPlain = true) :
    (layout.text count expression).all isPlain = true := by
  have hfield : layout.fieldText.all isPlain = true := by
    rw [fieldText]
    split
    · next name blanks _ =>
      rw [List.all_append, name.all_isPlain (by decide), all_isPlain_blanks]
      rfl
    · rfl
  have hcount : (Nat.toDigits 10 count).all isPlain = true :=
    List.all_eq_true.mpr fun c hc => isPlain_of_isDigit (Text.isDigit_of_mem_toDigits c hc)
  have hclosing : (if layout.closed then [';'] else []).all isPlain = true := by
    split <;> decide
  have hsemicolon : isPlain ';' = true := by decide
  have hnplurals := layout.nplurals.all_isPlain (by decide)
  have hplural := layout.plural.all_isPlain (by decide)
  simp only [text, countText, expressionText, List.all_append, List.all_cons, all_isPlain_blanks,
    hfield, hcount, hclosing, hsemicolon, hnplurals, hplural, h, Bool.and_self]

theorem map_fieldText :
    layout.fieldText.map Char.toLower = namedField (layout.field.map Prod.snd) := by
  rw [fieldText]
  cases layout.field with
  | none => rfl
  | some named =>
    obtain ⟨name, blanks⟩ := named
    exact (List.map_append).trans (by rw [name.2, blanks.map_toLower]; rfl)

theorem trimStart_fieldText (rest : List Char) :
    Text.trimStart (layout.fieldText.map Char.toLower ++ ("nplurals".toList ++ rest)) =
      layout.fieldText.map Char.toLower ++ ("nplurals".toList ++ rest) := by
  rw [map_fieldText]
  cases layout.field <;> exact Text.trimStart_cons (by decide) _

theorem skip_fieldText (rest : List Char) :
    ((after? "plural-forms:" (layout.fieldText.map Char.toLower ++ ("nplurals".toList ++ rest))).map
      Text.trimStart).getD (layout.fieldText.map Char.toLower ++ ("nplurals".toList ++ rest)) =
        "nplurals".toList ++ rest := by
  rw [map_fieldText, skip_namedField]

theorem map_countText (count : Nat) :
    (layout.countText count).map Char.toLower = layout.countText count := by
  have hdigits : (Nat.toDigits 10 count).map Char.toLower = Nat.toDigits 10 count := by
    conv_rhs => rw [← List.map_id (Nat.toDigits 10 count)]
    exact List.map_congr_left fun c hc =>
      Text.toLower_of_isDigit (Text.isDigit_of_mem_toDigits c hc)
  simp [countText, hdigits, Blanks.map_toLower]

theorem map_expressionText (expression : List Char) :
    (layout.expressionText expression).map Char.toLower =
      layout.expressionText (expression.map Char.toLower) := by
  have hclosing : (if layout.closed then [';'] else []).map Char.toLower =
      if layout.closed then [';'] else [] := by
    split <;> rfl
  simp [expressionText, hclosing, Blanks.map_toLower]

/-- The field after the label of the count, in lower case and with no blank at the end. -/
def valueText (count : Nat) (expression : List Char) : List Char :=
  layout.countText count ++ ';' :: (layout.beforePlural.val ++ ("plural".toList ++
    (layout.plural.blanks.val ++ '=' :: Text.trimEnd (layout.expressionText expression))))

theorem trim_lower (count : Nat) (expression : List Char) :
    Text.trim ((layout.text count expression).map Char.toLower) =
      layout.fieldText.map Char.toLower ++ ("nplurals".toList ++ (layout.nplurals.blanks.val ++
        '=' :: layout.valueText count (expression.map Char.toLower))) := by
  have hlower : (layout.text count expression).map Char.toLower = layout.before.val ++
      (layout.fieldText.map Char.toLower ++ ("nplurals".toList ++ (layout.nplurals.blanks.val ++
        '=' :: (layout.countText count ++ ';' :: (layout.beforePlural.val ++ ("plural".toList ++
          (layout.plural.blanks.val ++
            '=' :: layout.expressionText (expression.map Char.toLower)))))))) := by
    have hmark : ';'.toLower = ';' := rfl
    simp only [text, List.map_append, List.map_cons, Label.map_toLower, map_countText,
      map_expressionText, Blanks.map_toLower, List.append_assoc, List.cons_append, List.nil_append,
      hmark]
  have hequals : isBlank '=' = false := by decide
  have hsemicolon : isBlank ';' = false := by decide
  rw [hlower, Text.trim, Text.trimStart_append, trimStart_fieldText]
  simp only [valueText, ← List.append_assoc, Text.trimEnd_append_cons hequals,
    Text.trimEnd_append_cons hsemicolon]

theorem value?_rest (expression : List Char) :
    value? "plural" (Text.trim (layout.beforePlural.val ++ ("plural".toList ++
      (layout.plural.blanks.val ++ '=' :: Text.trimEnd (layout.expressionText expression))))) =
        some (Text.trimEnd (layout.expressionText expression)) := by
  rw [value?_trim, Text.trimEnd_trimEnd]

theorem closed_map_toLower
    (h : layout.closed = true ∨ (Text.trim expression).getLast? ≠ some ';') :
    layout.closed = true ∨ (Text.trim (expression.map Char.toLower)).getLast? ≠ some ';' := by
  refine h.imp_right fun hlast hlower => hlast ?_
  rw [Text.trim_map_toLower, List.getLast?_map, Option.map_eq_some_iff] at hlower
  obtain ⟨c, hc, hsemicolon⟩ := hlower
  rw [hc, Text.toLower_rel (R := fun c lower => lower = ';' → c = ';') (by decide) (fun _ => id) c
    hsemicolon]

end Layout

/-- Every layout of a field is read as its number of plural forms and its expression in lower case,
without the blanks and the pair of parentheses around it. Without a closing semicolon the expression
ends in none. -/
theorem parse_layout (layout : Layout) (count : Nat) (expression : List Char)
    (hpositive : 0 < count) (hcount : count < UInt64.size)
    (hexpression : ∀ c ∈ expression, c.toNat < 128 ∧ c ≠ '\\')
    (hclosed : layout.closed = true ∨ (Text.trim expression).getLast? ≠ some ';')
    {lines : List Char} (hlines : Continued (layout.text count expression) lines) :
    parse lines =
      .ok ⟨count, Text.trim (stripParens (Text.trim (Text.lowercase expression)))⟩ := by
  have hplain : ∀ c ∈ layout.text count expression,
      c ≠ '\\' ∧ (c.toNat < 128 ∨ isBlank c = true) := by
    have hall : expression.all isPlain = true := by
      refine List.all_eq_true.mpr fun c hc => ?_
      simp [isPlain, hexpression c hc]
    intro c hc
    simpa [isPlain] using List.all_eq_true.mp (layout.all_isPlain_text count hall) c hc
  have hlowered : Text.lowercase (Text.trim (joinLines lines)) =
      Text.trim ((layout.text count expression).map Char.toLower) := by
    rw [hlines.joinLines_eq fun c hc => (hplain c hc).1, Text.trim_map_toLower]
    exact Text.lowercase_eq_map fun c hc => (hplain c (Text.mem_of_mem_trim hc)).2
  have hlower : Text.lowercase expression = expression.map Char.toLower :=
    Text.lowercase_eq_map fun c hc => .inl (hexpression c hc).1
  have hsplit := splitAt?_append (layout.ne_semicolon_of_mem_countText count)
  have hnonzero : count ≠ 0 := by omega
  rw [Layout.trim_lower] at hlowered
  simp only [parse, hlowered, layout.skip_fieldText, value?_label, Layout.valueText, hsplit,
    layout.trim_countText, Text.unsigned64?_toDigits hcount, if_neg hnonzero, layout.value?_rest,
    layout.trim_expressionText (layout.closed_map_toLower hclosed), hlower]
  rfl

/-- Capitals, wide blanks and a count in two lines. -/
def capitals : Layout where
  before := ⟨['\u2003'], by decide⟩
  field := some (⟨"PLURAL-Forms:".toList, by decide⟩, ⟨['\t'], by decide⟩)
  nplurals := ⟨⟨"NPlurals".toList, by decide⟩, ⟨[' '], by decide⟩⟩
  beforeCount := ⟨['\u00A0'], by decide⟩
  afterCount := ⟨[' '], by decide⟩
  beforePlural := ⟨[' '], by decide⟩
  plural := ⟨⟨"Plural".toList, by decide⟩, ⟨[], by decide⟩⟩
  beforeExpression := ⟨[' '], by decide⟩
  afterExpression := ⟨[' '], by decide⟩
  closed := true
  after := ⟨['\n'], by decide⟩

theorem parse_layout_capitals :
    parse ("\u2003PLURAL-Forms:\tNPlurals =\u00A01".toList ++
      '\\' :: '\n' :: "2 ; Plural= (N != 1) ;\n".toList) = .ok ⟨12, "n != 1".toList⟩ := by
  have htext : capitals.text 12 "(N != 1)".toList =
      "\u2003PLURAL-Forms:\tNPlurals =\u00A01".toList ++ "2 ; Plural= (N != 1) ;\n".toList := by
    decide
  have hexpression : Text.trim (stripParens (Text.trim (Text.lowercase "(N != 1)".toList))) =
      "n != 1".toList := by
    decide
  rw [← hexpression]
  exact parse_layout capitals 12 "(N != 1)".toList (by decide) (by decide) (by simp) (.inl rfl)
    (htext ▸ continued_append _ _)

end PluralForms.Header
