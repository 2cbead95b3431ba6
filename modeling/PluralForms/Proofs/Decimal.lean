import PluralForms.Proofs.Blanks

/-! Decimal notation and numbers of 64 bits: the text of a number denotes it, a number that is not
negative is read back from its text as one token, and no token of a text is a negative number. -/

namespace PluralForms.Text

variable {text rest : List Char} {tokens : List Token} {value : Int64} {x : Int}

/-! ### The text of a number -/

theorem digitsValue_toDigits (n : Nat) : digitsValue (Nat.toDigits 10 n) = n := by
  rw [digitsValue, ← Nat.ofDigitChars_eq_foldl, Nat.ofDigitChars_ten_toDigits]

theorem isDigit_of_mem_toDigits {n : Nat} : ∀ c ∈ Nat.toDigits 10 n, c.isDigit = true :=
  fun _ => Nat.isDigit_of_mem_toDigits (by decide) (by decide)

theorem exists_toDigits_eq_cons (n : Nat) :
    ∃ c digits, Nat.toDigits 10 n = c :: digits ∧ c.isDigit = true := by
  obtain ⟨c, digits, h⟩ := List.exists_cons_of_ne_nil (Nat.toDigits_ne_nil (n := n) (b := 10))
  exact ⟨c, digits, h, isDigit_of_mem_toDigits (n := n) c (h ▸ List.mem_cons_self)⟩

theorem natural?_toDigits (n : Nat) : natural? (Nat.toDigits 10 n) = some n := by
  have hall : (Nat.toDigits 10 n).all Char.isDigit = true :=
    List.all_eq_true.mpr isDigit_of_mem_toDigits
  rw [natural?, hall, Bool.and_true, if_pos (by simp [Nat.toDigits_ne_nil]), digitsValue_toDigits]

theorem unsigned64?_toDigits {n : Nat} (h : n < UInt64.size) :
    unsigned64? (Nat.toDigits 10 n) = some n := by
  have hvalue : digits64? (Nat.toDigits 10 n) = some n := by
    rw [digits64?, natural?_toDigits, Option.filter_some, if_pos (decide_eq_true h)]
  obtain ⟨c, digits, hdigits, hc⟩ := exists_toDigits_eq_cons n
  rw [hdigits] at hvalue ⊢
  rw [unsigned64?, hvalue]
  rintro _ ⟨⟩
  simp [Char.isDigit] at hc

theorem toList_decimal_of_nonneg (h : 0 ≤ x) : (decimal x).toList = Nat.toDigits 10 x.toNat := by
  obtain ⟨n, rfl⟩ := Int.eq_ofNat_of_zero_le h
  exact String.toList_ofList

theorem toList_decimal_of_neg (h : x < 0) :
    (decimal x).toList = '-' :: (decimal (-x)).toList := by
  obtain ⟨n, rfl⟩ := Int.eq_negSucc_of_lt_zero h
  change (decimal (.negSucc n)).toList = '-' :: (decimal (.ofNat (n + 1))).toList
  rw [decimal, decimal, String.toList_ofList, String.toList_ofList]

theorem isDigit_of_mem_decimal : ∀ c ∈ (decimal x).toList, c.isDigit = true ∨ c = '-' := by
  have hdigits {x : Int} (hx : 0 ≤ x) : ∀ c ∈ (decimal x).toList, c.isDigit = true := by
    rw [toList_decimal_of_nonneg hx]
    exact isDigit_of_mem_toDigits
  rcases Int.lt_or_le x 0 with hneg | hnonneg
  · rw [toList_decimal_of_neg hneg]
    intro c hc
    rcases List.mem_cons.mp hc with rfl | hc
    · exact .inr rfl
    · exact .inl (hdigits (by omega) c hc)
  · exact fun c hc => .inl (hdigits hnonneg c hc)

theorem isBlank_of_mem_decimal : ∀ c ∈ (decimal x).toList, isBlank c = false := by
  intro c hc
  rcases isDigit_of_mem_decimal c hc with hdigit | rfl
  · exact isBlank_of_isDigit hdigit
  · decide

theorem int64?_toInt (value : Int64) : int64? value.toInt = some value := by
  rw [int64?, if_pos ⟨value.le_toInt, value.toInt_lt⟩, Int64.ofInt_toInt]

theorem toInt_of_int64? (h : int64? x = some value) : value.toInt = x := by
  rw [int64?] at h
  split at h
  · next hx =>
    obtain rfl := Option.some.inj h
    exact Int64.toInt_ofInt_of_le hx.1 hx.2
  · simp at h

/-- The text of a number of 64 bits denotes it. -/
theorem signed64?_decimal (value : Int64) :
    signed64? (decimal value.toInt).toList = some value := by
  have hread {x : Int} (hx : 0 ≤ x) : natural? (decimal x).toList = some x.toNat := by
    rw [toList_decimal_of_nonneg hx, natural?_toDigits]
  rcases Int.lt_or_le value.toInt 0 with hneg | hnonneg
  · have hsign : -((-value.toInt).toNat : Int) = value.toInt := by omega
    rw [toList_decimal_of_neg hneg, signed64?, hread (by omega), Option.bind_some, hsign,
      int64?_toInt]
  · obtain ⟨c, digits, hdigits, hc⟩ := exists_toDigits_eq_cons value.toInt.toNat
    rw [← toList_decimal_of_nonneg hnonneg] at hdigits
    have hvalue := hread hnonneg
    rw [hdigits] at hvalue ⊢
    rw [signed64?, hvalue, Option.bind_some, Int.toNat_of_nonneg hnonneg, int64?_toInt]
    all_goals
      rintro _ ⟨⟩
      simp [Char.isDigit] at hc

/-! ### Numbers as tokens -/

/-- A number that is not negative is scanned from its text, if no digit follows. -/
theorem scannedBefore_integer (hvalue : 0 ≤ value.toInt)
    (hends : (Token.integer value).EndsBefore rest) :
    (Token.integer value).ScannedBefore rest := by
  obtain ⟨c, digits, hdigits, hc⟩ := exists_toDigits_eq_cons value.toInt.toNat
  have hall : ∀ c' ∈ digits, c'.isDigit = true := fun c' hc' =>
    isDigit_of_mem_toDigits (n := value.toInt.toNat) c' (hdigits ▸ List.mem_cons_of_mem c hc')
  have hstop : (digits ++ rest).takeWhile Char.isDigit = digits := takeWhile_append hall hends
  have hread : int64? (digitsValue (c :: digits)) = some value := by
    rw [← hdigits, digitsValue_toDigits, Int.toNat_of_nonneg hvalue, int64?_toInt]
  refine ⟨c, digits, (toList_decimal_of_nonneg hvalue).trans hdigits, isBlank_of_isDigit hc, ?_⟩
  simp only [Lexed.scan, hc, if_true, hstop, hread]

theorem tokens?_decimal (hvalue : 0 ≤ value.toInt)
    (hends : (Token.integer value).EndsBefore rest) :
    tokens? ((decimal value.toInt).toList ++ rest) = (tokens? rest).map (.integer value :: ·) := by
  have htokens := tokens?_of_scannedBefore (scannedBefore_integer hvalue hends)
  rwa [Token.text] at htokens

/-- The sign of a number is no part of its token. -/
theorem nonneg_of_mem_all? {position skip : Nat}
    (h : (Lexed.ofCharsFrom position skip text).all? = some tokens)
    (hmem : .integer value ∈ tokens) : 0 ≤ value.toInt := by
  induction text generalizing position skip tokens with
  | nil =>
    obtain rfl := Option.some.inj h
    simp at hmem
  | cons c rest ih =>
    cases skip with
    | succ skip => exact ih h hmem
    | zero =>
      simp only [Lexed.ofCharsFrom] at h
      split at h
      · exact ih h hmem
      · split at h
        · next head more hscan =>
          obtain ⟨others, hothers, rfl⟩ := Option.map_eq_some_iff.mp h
          rcases List.mem_cons.mp hmem with rfl | hmem
          · obtain ⟨-, -, hvalue⟩ := number_of_scan hscan
            rw [toInt_of_int64? hvalue]
            exact Int.natCast_nonneg _
          · exact ih hothers hmem
        · simp [Lexed.all?] at h

theorem nonneg_of_mem_tokens? (h : tokens? text = some tokens) (hmem : .integer value ∈ tokens) :
    0 ≤ value.toInt :=
  nonneg_of_mem_all? h hmem

end PluralForms.Text
