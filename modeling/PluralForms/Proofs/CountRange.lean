import Mathlib.Data.List.DropRight
import PluralForms.CountRange
import PluralForms.Proofs.Letters

/-! Ranges of counts as they are written. Both bounds are read back from their decimal text, and the
range holds exactly the counts between them. A range that stops before its end reaches no further
than the greatest word, so with that word as its last count it holds all but that one. -/

namespace PluralForms.CountRange

open Text (Blanks decimal isBlank)

variable {first last n : Int64}

/-! ### The counts of a range -/

/-- A sum that stays below the bound of the words does not wrap. -/
theorem toInt_add_ofNat {x : Int64} {k : Nat} (h : x.toInt + k ≤ Int64.maxValue.toInt) :
    (x + Int64.ofNat k).toInt = x.toInt + k := by
  have hmax : Int64.maxValue.toInt = 2 ^ 63 - 1 := Int64.toInt_maxValue
  have hlow := x.le_toInt
  rw [← Int64.ofInt_eq_ofNat, ← Int64.ofInt_toInt x, ← Int64.ofInt_add, Int64.ofInt_toInt,
    Int64.toInt_ofInt_of_le (by omega) (by omega)]

theorem mem_counts_iff {range : CountRange} :
    n ∈ range.counts ↔ range.start ≤ n ∧ n < range.stop := by
  have hhigh := range.stop.toInt_le
  rw [counts, List.mem_map, Int64.le_iff_toInt_le, Int64.lt_iff_toInt_lt]
  constructor
  · rintro ⟨step, hstep, rfl⟩
    have hstep := List.mem_range.mp hstep
    rw [toInt_add_ofNat (by omega)]
    omega
  · rintro ⟨hlow, hhigh⟩
    refine ⟨(n.toInt - range.start.toInt).toNat, List.mem_range.mpr (by omega),
      Int64.toInt_inj.mp ?_⟩
    rw [toInt_add_ofNat (by omega)]
    omega

theorem toInt_next (x : Int64) : (next x).toInt = min (x.toInt + 1) Int64.maxValue.toInt := by
  have hhigh := x.toInt_le
  rw [next]
  split
  · next hx =>
    subst hx
    omega
  · next hx =>
    rw [← Int64.toInt_inj] at hx
    have hsucc : (x + 1).toInt = x.toInt + 1 := toInt_add_ofNat (k := 1) (by omega)
    omega

theorem le_next (x : Int64) : x ≤ next x := by
  have hhigh := x.toInt_le
  rw [Int64.le_iff_toInt_le, toInt_next]
  omega

/-- What is less than the next word is not greater than the word, and not the greatest word. -/
theorem lt_next_iff : n < next last ↔ n ≤ last ∧ n ≠ Int64.maxValue := by
  have hn := n.toInt_le
  rw [Int64.lt_iff_toInt_lt, Int64.le_iff_toInt_le, ne_eq, ← Int64.toInt_inj (x := n), toInt_next]
  omega

/-! ### Written ranges -/

/-- A number with blanks around it. -/
structure Bound where
  before : Blanks
  value : Int64
  after : Blanks

namespace Bound

variable (bound : Bound)

def text : List Char := bound.before.val ++ (decimal bound.value.toInt).toList ++ bound.after.val

theorem trim_text : Text.trim bound.text = (decimal bound.value.toInt).toList := by
  rw [text, Text.trim_blanks, Text.trim_of_forall Text.isBlank_of_mem_decimal]

theorem bound?_trimStart : bound? (Text.trimStart bound.text) = some bound.value := by
  rw [bound?, Text.trim, Text.trimStart, Text.trimStart, List.dropWhile_idempotent,
    ← Text.trimStart, ← Text.trim, trim_text, Text.signed64?_decimal]

theorem bound?_trimEnd : bound? (Text.trimEnd bound.text) = some bound.value := by
  rw [bound?, Text.trim_trimEnd, trim_text, Text.signed64?_decimal]

/-- A number with its blanks holds no mark. -/
theorem ne_mark_of_mem {c : Char} (h : c ∈ bound.text) : c ≠ '.' ∧ c ≠ '=' := by
  have hblank {blanks : Blanks} (hc : c ∈ blanks.val) : c ≠ '.' ∧ c ≠ '=' := by
    have hc := blanks.forall_isBlank c hc
    constructor <;> rintro rfl <;> exact absurd hc (by decide)
  rcases List.mem_append.mp h with h | h
  · rcases List.mem_append.mp h with h | h
    · exact hblank h
    · rcases Text.isDigit_of_mem_decimal c h with hdigit | rfl
      · constructor <;> rintro rfl <;> exact absurd hdigit (by decide)
      · decide
  · exact hblank h

end Bound

theorem splitAtDots?_append {front : List Char} (h : ∀ c ∈ front, c ≠ '.') (rest : List Char) :
    splitAtDots? (front ++ '.' :: '.' :: rest) = some (front, rest) := by
  induction front with
  | nil => rfl
  | cons c front ih =>
    obtain ⟨hc, hfront⟩ := List.forall_mem_cons.mp h
    rw [List.cons_append, splitAtDots?, ih hfront, Option.map_some]
    exact fun _ hdot => absurd hdot hc

/-- The dots stay where they are when the blanks at the ends are removed. -/
theorem splitAtDots?_trim (bound : Bound) (rest : List Char) :
    splitAtDots? (Text.trim (bound.text ++ '.' :: '.' :: rest)) =
      some (Text.trimStart bound.text, Text.trimEnd rest) := by
  have hdot : isBlank '.' = false := by decide
  have hend : Text.trimEnd ('.' :: rest) = '.' :: Text.trimEnd rest :=
    Text.trimEnd_append_cons hdot [] rest
  rw [Text.trim, Text.trimStart_append_cons hdot, Text.trimEnd_append_cons hdot, hend]
  refine splitAtDots?_append (fun c hc => ?_) _
  exact (bound.ne_mark_of_mem ((List.dropWhile_suffix _).mem hc)).1

theorem parse?_open (first last : Bound) :
    parse? (first.text ++ '.' :: '.' :: last.text) =
      if last.value < first.value then none else some ⟨first.value, last.value⟩ := by
  have hmark : ∀ rest, Text.trimEnd last.text ≠ '=' :: rest := by
    intro rest hrest
    have hmem : '=' ∈ Text.trimEnd last.text := hrest ▸ List.mem_cons_self
    have hmem := (List.dropWhile_suffix _).mem (List.mem_reverse.mp hmem)
    exact (last.ne_mark_of_mem (List.mem_reverse.mp hmem)).2 rfl
  simp only [parse?, splitAtDots?_trim, Option.bind_eq_bind, Option.bind_some,
    first.bound?_trimStart, last.bound?_trimEnd]

theorem parse?_closed (first last : Bound) :
    parse? (first.text ++ '.' :: '.' :: '=' :: last.text) =
      if next last.value < first.value then none else some ⟨first.value, next last.value⟩ := by
  have hend : Text.trimEnd ('=' :: last.text) = '=' :: Text.trimEnd last.text :=
    Text.trimEnd_append_cons (by decide) [] _
  simp only [parse?, splitAtDots?_trim, Option.bind_eq_bind, Option.bind_some,
    first.bound?_trimStart, hend, last.bound?_trimEnd, Option.map_some]

/-- A range that is written from one number to another that is not less holds exactly the counts
from the first to the second, without the second or, after an equals sign, with it. No range holds
the greatest word. -/
theorem mem_counts_parse? (first last : Bound) (h : first.value ≤ last.value) :
    (∃ range, parse? (first.text ++ '.' :: '.' :: last.text) = some range ∧
        ∀ n, n ∈ range.counts ↔ first.value ≤ n ∧ n < last.value) ∧
      ∃ range, parse? (first.text ++ '.' :: '.' :: '=' :: last.text) = some range ∧
        ∀ n, n ∈ range.counts ↔ first.value ≤ n ∧ n ≤ last.value ∧ n ≠ Int64.maxValue := by
  have hnext : first.value ≤ next last.value := Int64.le_trans h (le_next last.value)
  refine ⟨⟨⟨first.value, last.value⟩, ?_, fun n => mem_counts_iff⟩,
    ⟨first.value, next last.value⟩, ?_, fun n => ?_⟩
  · rw [parse?_open, if_neg (Int64.not_lt.mpr h)]
  · rw [parse?_closed, if_neg (Int64.not_lt.mpr hnext)]
  · rw [mem_counts_iff, lt_next_iff]

theorem mem_counts_parse?_least :
    let first : Bound := ⟨⟨[' '], by decide⟩, Int64.minValue, ⟨[], by decide⟩⟩
    let last : Bound := ⟨⟨['\u00A0'], by decide⟩, Int64.maxValue, ⟨['\t'], by decide⟩⟩
    first.value ≤ last.value ∧
      first.text ++ '.' :: '.' :: last.text =
        " -9223372036854775808..\u00A09223372036854775807\t".toList ∧
      ∃ range, parse? (first.text ++ '.' :: '.' :: last.text) = some range ∧
        ∀ n, n ∈ range.counts ↔ Int64.minValue ≤ n ∧ n < Int64.maxValue := by
  intro first last
  have hle : first.value ≤ last.value := by decide
  exact ⟨hle, by decide +kernel, (mem_counts_parse? first last hle).1⟩

/-- The range from the greatest word to itself, with it, is empty. -/
theorem greatest_left_out :
    parse? "9223372036854775807..=9223372036854775807".toList =
        some ⟨Int64.maxValue, Int64.maxValue⟩ ∧
      Int64.maxValue ∉ (⟨Int64.maxValue, Int64.maxValue⟩ : CountRange).counts := by
  decide +kernel

end PluralForms.CountRange
