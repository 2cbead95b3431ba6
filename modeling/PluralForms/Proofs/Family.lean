import PluralForms.Family
import PluralForms.Proofs.Blanks
import PluralForms.Proofs.FrontEnds

/-! What stands behind the key of a family. The spellings of a family have one to three selections,
whose value is the direct calculation for every count, and an expression with the key of a family
is, without its blanks, a text of one of these selections. -/

namespace PluralForms

/-! ### Keys -/

namespace Header

open Text (isBlank)

variable {text : List Char}

theorem registryKey_dropWhile (text : List Char) :
    registryKey (text.dropWhile isBlank) = registryKey text := by
  induction text with
  | nil => rfl
  | cons c rest ih =>
    rw [List.dropWhile_cons]
    split
    · next hblank => rw [ih, registryKey, registryKey, List.filter_cons_of_neg (by simp [hblank])]
    · rfl

theorem registryKey_reverse (text : List Char) :
    registryKey text.reverse = (registryKey text).reverse := List.filter_reverse

theorem registryKey_trim (text : List Char) : registryKey (Text.trim text) = registryKey text := by
  rw [Text.trim, Text.trimEnd, registryKey_reverse, registryKey_dropWhile, registryKey_reverse,
    List.reverse_reverse, Text.trimStart, registryKey_dropWhile]

theorem stripParens_eq (text : List Char) :
    text = stripParens text ∨ text = '(' :: stripParens text ++ [')'] := by
  simp only [stripParens]
  split
  · next rest =>
    split
    · next hpair =>
      have hlast : rest.getLast? = some ')' := by
        simp only [Bool.and_eq_true, decide_eq_true_eq] at hpair
        exact hpair.1
      right
      rw [List.cons_append, List.dropLast_append_getLast? ')' hlast]
    · exact .inl rfl
  · exact .inl rfl

end Header

namespace Family

variable {family : Family} {selection : Selection} {expression : List Char}

/-- An expression without its blanks is its key, or its key in parentheses. -/
theorem registryKey_eq_key (expression : List Char) :
    Header.registryKey expression = key expression ∨
      Header.registryKey expression = '(' :: key expression ++ [')'] := by
  rw [← Header.registryKey_trim, key]
  rcases Header.stripParens_eq (Text.trim expression) with heq | heq
  · exact .inl (congrArg Header.registryKey heq)
  · right
    conv_lhs => rw [heq]
    rw [Header.registryKey, List.filter_append, List.filter_cons_of_pos (by decide)]
    rfl

theorem exists_spelling (h : lookup? expression = some family) :
    ∃ spelling ∈ family.spellings, key spelling.toList = key expression := by
  have hkey := List.find?_some h
  rw [hasKey, List.any_eq_true] at hkey
  obtain ⟨spelling, hmem, heq⟩ := hkey
  exact ⟨spelling, hmem, by simpa using heq⟩

/-! ### Selections -/

/-- The count compared with a constant. -/
def whole (comparison : Comparison) (operand : Int64) : Condition := .compare [] comparison operand

/-- A remainder of the count compared with a constant. -/
def remainder (divisor : Int64) (comparison : Comparison) (operand : Int64) : Condition :=
  .compare [(.mod, divisor)] comparison operand

theorem holds_whole (comparison : Comparison) (operand n : Int64) :
    (whole comparison operand).holds n = comparison.holds n operand := rfl

theorem holds_remainder {divisor : Int64} (hdivisor : divisor ≠ 0) (comparison : Comparison)
    (operand n : Int64) :
    (remainder divisor comparison operand).holds n = comparison.holds (n % divisor) operand := by
  simp only [remainder, Condition.holds, Chain.apply, List.foldl_cons, List.foldl_nil,
    Arithmetic.apply, if_neg hdivisor]

/-- The last two digits are no number from 10 to 19. -/
def noTeens : Condition := .or (remainder 100 .lt 10) (remainder 100 .ge 20)

/-- A number that ends in 1, but not in 11. -/
def endsInOne : Condition := .and (remainder 10 .eq 1) (remainder 100 .ne 11)

/-- A number that ends in 2, 3 or 4, but not in 12, 13 or 14. -/
def endsInFew : Condition := .and (.and (remainder 10 .ge 2) (remainder 10 .le 4)) noTeens

/-- The selections that the spellings of the family are read as. -/
def selections : Family → List Selection
  | .asian => [.constant 0]
  | .romance => [.test (whole .ne 1), .choose (whole .eq 1) (.constant 0) (.constant 1)]
  | .brazilianFrench =>
    [.test (whole .gt 1), .choose (whole .gt 1) (.constant 1) (.constant 0),
      .choose (whole .le 1) (.constant 0) (.constant 1)]
  | .latvian =>
    [.choose endsInOne (.constant 0) (.choose (whole .ne 0) (.constant 1) (.constant 2))]
  | .celtic =>
    [.choose (whole .eq 1) (.constant 0) (.choose (whole .eq 2) (.constant 1) (.constant 2))]
  | .romanian =>
    [.choose (whole .eq 1) (.constant 0)
      (.choose (.or (whole .eq 0) (.and (remainder 100 .gt 0) (remainder 100 .lt 20)))
        (.constant 1) (.constant 2))]
  | .lithuanian =>
    [.choose endsInOne (.constant 0)
      (.choose (.and (remainder 10 .ge 2) noTeens) (.constant 1) (.constant 2))]
  | .russian => [.choose endsInOne (.constant 0) (.choose endsInFew (.constant 1) (.constant 2))]
  | .czech =>
    [.choose (whole .eq 1) (.constant 0)
      (.choose (.and (whole .ge 2) (whole .le 4)) (.constant 1) (.constant 2))]
  | .polish =>
    [.choose (whole .eq 1) (.constant 0) (.choose endsInFew (.constant 1) (.constant 2))]
  | .slovenian =>
    [.choose (remainder 100 .eq 1) (.constant 0) (.choose (remainder 100 .eq 2) (.constant 1)
      (.choose (.or (remainder 100 .eq 3) (remainder 100 .eq 4)) (.constant 2) (.constant 3)))]
  | .icelandic =>
    [.test (.or (remainder 10 .ne 1) (remainder 100 .eq 11)),
      .choose endsInOne (.constant 0) (.constant 1)]
  | .macedonian => [.choose (.or (whole .eq 1) (remainder 10 .eq 1)) (.constant 0) (.constant 1)]
  | .arabic =>
    [.choose (whole .eq 0) (.constant 0) (.choose (whole .eq 1) (.constant 1)
      (.choose (whole .eq 2) (.constant 2)
        (.choose (.and (remainder 100 .ge 3) (remainder 100 .le 10)) (.constant 3)
          (.choose (remainder 100 .ge 11) (.constant 4) (.constant 5)))))]

/-- The key of a spelling is read as a selection of the family, and so is the key in parentheses. -/
theorem parse_spelling (family : Family) : ∀ spelling ∈ family.spellings,
    ∃ selection ∈ family.selections, Selection.parse (key spelling.toList) = .ok selection ∧
      Selection.parse ('(' :: key spelling.toList ++ [')']) = .ok selection := by
  cases family <;> simp only [spellings, canonical, variants, List.forall_mem_cons]
  -- It takes the kernel long to decode strings, so each becomes a list of characters first.
  all_goals repeat rw [String.toList_ofList]
  all_goals decide +kernel

/-- The selections of a family have its value for every count. -/
theorem eval_of_mem_selections (h : selection ∈ family.selections) (n : Int64) :
    selection.eval n = family.eval n := by
  have hten : (10 : Int64) ≠ 0 := by decide
  have hhundred : (100 : Int64) ≠ 0 := by decide
  have hle : n ≤ 1 ↔ ¬1 < n := Int64.not_lt.symm
  cases family <;> simp only [selections, List.mem_cons, List.not_mem_nil, or_false] at h
  all_goals
    rcases h with rfl | rfl | rfl <;>
      simp only [Selection.eval, Condition.holds, endsInOne, endsInFew, noTeens, holds_whole,
        holds_remainder hten, holds_remainder hhundred, Comparison.holds, Family.eval]
  all_goals grind [wordOfBool]

/-- An expression with the key of a family is, without its blanks, a text of a selection of the
family. -/
theorem parse_of_lookup? (h : lookup? expression = some family) :
    ∃ selection ∈ family.selections,
      Selection.parse (Header.registryKey expression) = .ok selection := by
  obtain ⟨spelling, hspelling, hkey⟩ := exists_spelling h
  obtain ⟨selection, hmem, hbare, hparens⟩ := parse_spelling family spelling hspelling
  rw [hkey] at hbare hparens
  rcases registryKey_eq_key expression with heq | heq
  · exact ⟨selection, hmem, heq ▸ hbare⟩
  · exact ⟨selection, hmem, heq ▸ hparens⟩

end Family

end PluralForms
