import PluralForms.Proofs.HeaderLayout
import PluralForms.Proofs.Parentheses

/-! Headers taken apart. A text is read as a header exactly if, with its lines joined, without
blanks at its ends and in lower case, it consists of the parts of a field in their order. What is
appended to such a text belongs to the expression. -/

namespace PluralForms.Header

open Text (Blanks isBlank)

/-! ### Parts found by the reader -/

section

variable {name : String} {mark : Char} {text front rest : List Char}

theorem after?_eq_some (h : after? name text = some rest) : text = name.toList ++ rest := by
  rw [after?] at h
  split at h
  · next hstarts =>
    obtain ⟨more, rfl⟩ := List.isPrefixOf_iff_prefix.mp hstarts
    rw [← String.length_toList, List.drop_left] at h
    rw [Option.some.inj h]
  · simp at h

theorem value?_eq_some (h : value? name text = some rest) :
    ∃ blanks : Blanks, text = name.toList ++ (blanks.val ++ '=' :: rest) := by
  rw [value?] at h
  split at h
  · next found hfound =>
    obtain ⟨behind, hbehind, hequals⟩ := Option.map_eq_some_iff.mp hfound
    obtain ⟨blanks, hblanks⟩ := Text.exists_append_trimStart behind
    rw [hequals] at hblanks
    exact ⟨blanks, by rw [after?_eq_some hbehind, hblanks, Option.some.inj h]⟩
  · simp at h

/-- The blanks around a field with a value are those before its name and those behind the value. -/
theorem exists_value_of_trim {value : List Char}
    (h : value? "plural" (Text.trim rest) = some value) :
    ∃ (before blanks : Blanks) (whole : List Char),
      rest = before.val ++ ("plural".toList ++ (blanks.val ++ '=' :: whole)) ∧
        Text.trimEnd whole = value := by
  obtain ⟨blanks, hvalue⟩ := value?_eq_some h
  obtain ⟨front, back, hrest⟩ := Text.exists_append_trim rest
  refine ⟨front, blanks, value ++ back.val, by rw [hrest, hvalue]; simp, ?_⟩
  have htrim : Text.trimEnd (Text.trim rest) = Text.trim rest := Text.trimEnd_trimEnd _
  rw [hvalue, ← List.append_assoc, Text.trimEnd_append_cons (by decide)] at htrim
  rw [Text.trimEnd_append]
  simpa using htrim

theorem splitAt?_eq_some (h : splitAt? mark text = some (front, rest)) :
    text = front ++ mark :: rest ∧ ∀ c ∈ front, c ≠ mark := by
  induction text generalizing front with
  | nil => simp [splitAt?] at h
  | cons c text ih =>
    rw [splitAt?] at h
    split at h
    · next hc =>
      obtain ⟨rfl, rfl⟩ := Prod.mk.inj (Option.some.inj h)
      exact ⟨by rw [hc, List.nil_append], by simp⟩
    · next hc =>
      obtain ⟨⟨others, rest'⟩, hsplit, heq⟩ := Option.map_eq_some_iff.mp h
      obtain ⟨rfl, rfl⟩ := Prod.mk.inj heq
      obtain ⟨rfl, hothers⟩ := ih hsplit
      exact ⟨rfl, List.forall_mem_cons.mpr ⟨hc, hothers⟩⟩

/-- The name of the field stands in front, if anything is passed over. -/
theorem exists_namedField (text : List Char) :
    ∃ field, text = namedField field ++
      ((after? "plural-forms:" text).map Text.trimStart).getD text := by
  cases hafter : after? "plural-forms:" text with
  | none => exact ⟨none, rfl⟩
  | some behind =>
    obtain ⟨blanks, hblanks⟩ := Text.exists_append_trimStart behind
    refine ⟨some blanks, ?_⟩
    have hfield : namedField (some blanks) = "plural-forms:".toList ++ blanks.val := rfl
    rw [after?_eq_some hafter, hfield, Option.map_some, Option.getD_some, List.append_assoc,
      ← hblanks]

/-- A last character that is no closing parenthesis keeps the parentheses. -/
theorem stripParens_of_getLast? (h : text.getLast? ≠ some ')') : stripParens text = text := by
  by_contra hne
  obtain ⟨inner, rfl, -⟩ := stripParens_ne_iff.mp hne
  exact h (by rw [← List.cons_append, List.getLast?_concat])

end

/-! ### Fields -/

/-- The parts of a field in lower case, with the blanks between them. -/
structure Parts where
  field : Option Blanks
  nplurals : Blanks
  count : List Char
  beforePlural : Blanks
  plural : Blanks
  value : List Char
  count_ne : ∀ c ∈ count, c ≠ ';'

namespace Parts

variable (parts : Parts)

/-- The text from the count on. -/
def countText : List Char :=
  parts.count ++ ';' :: (parts.beforePlural.val ++
    ("plural".toList ++ (parts.plural.val ++ '=' :: parts.value)))

def text : List Char :=
  namedField parts.field ++ ("nplurals".toList ++ (parts.nplurals.val ++ '=' :: parts.countText))

def expression : List Char :=
  Text.trim (stripParens (Text.trim (dropLastMark ';' (Text.trimEnd parts.value))))

/-- The field states the number of plural forms and the expression. -/
structure Denotes (parts : Parts) (header : Header) : Prop where
  nplurals_eq : Text.unsigned64? (Text.trim parts.count) = some header.nplurals
  nplurals_ne : header.nplurals ≠ 0
  expression_eq : header.expression = parts.expression

/-- The field with more behind it. -/
def append (more : List Char) : Parts := { parts with value := parts.value ++ more }

theorem text_append (more : List Char) : (parts.append more).text = parts.text ++ more := by
  simp [text, countText, append]

/-- The count of a field does not depend on what comes behind it. -/
theorem denotes_append {header : Header} (h : parts.Denotes header) (more : List Char) :
    (parts.append more).Denotes ⟨header.nplurals, (parts.append more).expression⟩ :=
  ⟨h.nplurals_eq, h.nplurals_ne, rfl⟩

theorem exists_text_eq : ∃ front, parts.text = front ++ '=' :: parts.value :=
  ⟨namedField parts.field ++ ("nplurals".toList ++ (parts.nplurals.val ++ '=' ::
    (parts.count ++ ';' :: (parts.beforePlural.val ++ ("plural".toList ++ parts.plural.val))))),
    by simp [text, countText]⟩

theorem head?_text : parts.text.head? = some 'p' ∨ parts.text.head? = some 'n' := by
  rw [text]
  cases parts.field with
  | some blanks => exact .inl rfl
  | none => exact .inr rfl

theorem semicolon_mem_text : ';' ∈ parts.text := by
  simp [text, countText]

/-- A backslash at the end of a field ends its expression. -/
theorem getLast?_expression (h : parts.text.getLast? = some '\\') :
    parts.expression.getLast? = some '\\' := by
  have hback : isBlank '\\' = false := by decide
  have hvalue : parts.value.getLast? = some '\\' := by
    obtain ⟨front, hfront⟩ := parts.exists_text_eq
    rcases List.eq_nil_or_concat parts.value with hnil | ⟨init, last, hlast⟩
    · rw [hfront, hnil, List.getLast?_concat] at h
      cases h
    · rw [hfront, hlast, List.concat_eq_append, ← List.cons_append, ← List.append_assoc,
        List.getLast?_concat] at h
      rw [hlast, List.concat_eq_append, List.getLast?_concat, h]
  obtain ⟨front, hfront⟩ := List.getLast?_eq_some_iff.mp hvalue
  have hend : Text.trimEnd parts.value = parts.value := by
    rw [hfront, Text.trimEnd_append_cons hback]
    rfl
  have hmark : dropLastMark ';' parts.value = parts.value := by
    rw [dropLastMark, hvalue, if_neg (by decide)]
  have htrim := Text.getLast?_trim hback (hend.symm ▸ hvalue)
  have hagain : Text.trimEnd (Text.trim parts.value) = Text.trim parts.value :=
    Text.trimEnd_trimEnd _
  rw [expression, hend, hmark, stripParens_of_getLast? (by rw [htrim]; decide)]
  exact Text.getLast?_trim hback (hagain.symm ▸ htrim)

end Parts

/-- A text with its lines joined, without blanks at its ends and in lower case. -/
def lowered (text : List Char) : List Char := Text.lowercase (Text.trim (joinLines text))

/-- A text is read as a header exactly if it consists of the parts of a field that states it. -/
theorem parse_eq_ok_iff {text : List Char} {header : Header} :
    parse text = .ok header ↔
      ∃ parts : Parts, lowered text = parts.text ∧ parts.Denotes header := by
  have hlowered : Text.lowercase (Text.trim (joinLines text)) = lowered text := rfl
  constructor
  · intro h
    simp only [parse, hlowered, bind, Except.bind, pure, Except.pure, throw, throwThe,
      MonadExceptOf.throw] at h
    obtain ⟨field, hfield⟩ := exists_namedField (lowered text)
    split at h
    · next form hform =>
      obtain ⟨nplurals, hnplurals⟩ := value?_eq_some hform
      split at h
      · next count rest hsplit =>
        obtain ⟨rfl, hcount⟩ := splitAt?_eq_some hsplit
        split at h
        · next number hnumber =>
          split at h
          · simp at h
          next hpositive =>
          split at h
          · next value hvalue =>
            obtain rfl := Except.ok.inj h
            obtain ⟨front, plural, whole, hrest, hend⟩ := exists_value_of_trim hvalue
            refine ⟨⟨field, nplurals, count, front, plural, whole, hcount⟩, ?_,
              ⟨hnumber, hpositive, ?_⟩⟩
            · rw [hfield, hnplurals, hrest, Parts.text, Parts.countText]
            · rw [Parts.expression, hend]
          · simp at h
        · simp at h
      · simp at h
    · simp at h
  · rintro ⟨parts, htext, hnplurals, hne, hexpression⟩
    have hsplit := splitAt?_append parts.count_ne
    simp only [parse, hlowered, htext, Parts.text, skip_namedField, value?_label, Parts.countText,
      hsplit, hnplurals, if_neg hne, value?_trim]
    exact congrArg (fun expression => Except.ok (Header.mk header.nplurals expression))
      hexpression.symm

end PluralForms.Header
