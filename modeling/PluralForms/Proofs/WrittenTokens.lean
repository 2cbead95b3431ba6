import PluralForms.Proofs.Letters

/-! Texts in which tokens are written one after another with blanks around them. The lexer reads
each token back at the place where it was written, and behind the last of them the end of the
text. -/

namespace PluralForms

open Text (Blanks isBlank)

/-! ### Texts of tokens -/

/-- The text of tokens with the blanks behind each. -/
def Token.spelled (words : List (Token × Blanks)) : List Char :=
  words.flatMap fun (token, blanks) => token.text.toList ++ blanks.val

/-- Tokens with blanks before the first and behind each of them, which may be missing at both ends
only. No number is negative, as a minus sign is a token of its own. -/
structure Writing where
  before : Blanks
  words : List (Token × Blanks)
  apart : ∀ word ∈ words.dropLast, word.2.val ≠ []
  nonneg : ∀ word ∈ words, ∀ value, word.1 = .integer value → 0 ≤ value

namespace Writing

variable (writing : Writing)

def text : List Char := writing.before.val ++ Token.spelled writing.words

/-- The place of the token with the given number: the number of characters written before it. -/
def position (number : Nat) : Nat :=
  (writing.before.val ++ Token.spelled (writing.words.take number)).length

end Writing

/-! ### The end of a written token -/

namespace Text

variable {c : Char} {rest : List Char} {token : Token}

/-- No token goes on with a blank. -/
theorem goesOn_of_isBlank (h : isBlank c = true) : Lexed.goesOn c = false := by
  rcases Nat.lt_or_ge c.toNat 128 with hnarrow | hwide
  · have hascii : ∀ n < 128, isBlank (Char.ofNat n) = true →
        Lexed.goesOn (Char.ofNat n) = false := by
      decide
    rw [← Char.ofNat_toNat c] at h ⊢
    exact hascii c.toNat hnarrow h
  · have hletter : isAlphanumeric c = false := by
      rw [isAlphanumeric, if_neg (Nat.not_lt.mpr hwide), inRanges_apart (by decide +kernel) h,
        inRanges_apart (by decide +kernel) h]
      rfl
    have hdigit : c.isDigit = false := by
      rw [← Bool.not_eq_true]
      intro hdigit
      exact absurd h (by simp [isBlank_of_isDigit hdigit])
    have hne (sign : Char) (hsign : isBlank sign = false) : c ≠ sign := by
      rintro rfl
      exact absurd h (by simp [hsign])
    simp [Lexed.goesOn, Lexed.isWordChar, hletter, hdigit, hne '_' (by decide), hne '=' (by decide)]

theorem scannedBefore_of_nonneg (hnonneg : ∀ value, token = .integer value → 0 ≤ value)
    (h : token.EndsBefore rest) : token.ScannedBefore rest := by
  by_cases hinteger : ∃ value, token = .integer value
  · obtain ⟨value, rfl⟩ := hinteger
    exact scannedBefore_integer (Int64.le_iff_toInt_le.mp (hnonneg value rfl)) h
  · exact scannedBefore_of_endsBefore (not_exists.mp hinteger) h

/-- A token is read from its text before blanks, and at the end of the text. -/
theorem scannedBefore_blanks (blanks : Blanks)
    (hnonneg : ∀ value, token = .integer value → 0 ≤ value)
    (h : blanks.val = [] → rest = []) : token.ScannedBefore (blanks.val ++ rest) := by
  refine scannedBefore_of_nonneg hnonneg (token.endsBefore_of_head? fun c hc => ?_)
  have hmem : c ∈ blanks.val := by
    cases hblanks : blanks.val with
    | nil => simp [hblanks, h hblanks] at hc
    | cons first others =>
      rw [hblanks] at hc
      obtain rfl := Option.some.inj hc
      exact List.mem_cons_self
  exact goesOn_of_isBlank (blanks.forall_isBlank c hmem)

end Text

/-! ### Places of tokens -/

namespace Lexed

variable {token : Token} {words : List (Token × Blanks)}

/-- The characters that belong to the token before are passed over. -/
theorem ofCharsFrom_skip (position : Nat) (written rest : List Char) :
    ofCharsFrom position written.length (written ++ rest) =
      ofCharsFrom (position + written.length) 0 rest := by
  induction written generalizing position with
  | nil => rfl
  | cons c written ih =>
    rw [List.cons_append, List.length_cons, ofCharsFrom, ih, Nat.add_assoc, Nat.add_comm 1]

theorem ofCharsFrom_append {blanks : List Char} (hblanks : ∀ c ∈ blanks, isBlank c = true)
    (position : Nat) (rest : List Char) :
    ofCharsFrom position 0 (blanks ++ rest) = ofCharsFrom (position + blanks.length) 0 rest := by
  induction blanks generalizing position with
  | nil => rfl
  | cons c blanks ih =>
    obtain ⟨hc, hrest⟩ := List.forall_mem_cons.mp hblanks
    rw [List.cons_append, List.length_cons, ofCharsFrom, if_pos hc, ih hrest, Nat.add_assoc,
      Nat.add_comm 1]

theorem ofCharsFrom_text {rest : List Char} (h : token.ScannedBefore rest) (position : Nat) :
    ofCharsFrom position 0 (token.text.toList ++ rest) =
      .token token position (ofCharsFrom (position + token.text.toList.length) 0 rest) := by
  obtain ⟨c, written, htext, hc, hscan⟩ := h
  rw [htext, List.cons_append, List.length_cons, ofCharsFrom, if_neg (by simp [hc]), hscan]
  simp only [ofCharsFrom_skip, Nat.add_assoc, Nat.add_comm 1]

/-- The tokens that are written from `position` on are read at their places, up to the end. -/
theorem ofCharsFrom_spelled (hapart : ∀ word ∈ words.dropLast, word.2.val ≠ [])
    (hnonneg : ∀ word ∈ words, ∀ value, word.1 = .integer value → 0 ≤ value) (position : Nat) :
    (ofCharsFrom position 0 (Token.spelled words)).tokens = words.mapIdx (fun number word =>
        (word.1, position + (Token.spelled (words.take number)).length)) ∧
      (ofCharsFrom position 0 (Token.spelled words)).ending =
        .ok (position + (Token.spelled words).length) := by
  induction words generalizing position with
  | nil => exact ⟨rfl, rfl⟩
  | cons word rest ih =>
    obtain ⟨token, blanks⟩ := word
    obtain ⟨hfirst, hrest⟩ := List.forall_mem_cons.mp hnonneg
    have hend : blanks.val = [] → Token.spelled rest = [] := by
      cases rest with
      | nil => exact fun _ => rfl
      | cons => exact fun hnone => absurd hnone (hapart _ List.mem_cons_self)
    have hothers : ∀ word ∈ rest.dropLast, word.2.val ≠ [] := by
      cases rest with
      | nil => simp
      | cons => exact fun word hword => hapart word (List.mem_cons_of_mem _ hword)
    have hspelled (words : List (Token × Blanks)) : Token.spelled ((token, blanks) :: words) =
        token.text.toList ++ (blanks.val ++ Token.spelled words) := by
      rw [Token.spelled, List.flatMap_cons, List.append_assoc]
      rfl
    obtain ⟨htokens, hending⟩ := ih hothers hrest
      (position + token.text.toList.length + blanks.val.length)
    rw [hspelled, ofCharsFrom_text (Text.scannedBefore_blanks blanks hfirst hend),
      ofCharsFrom_append blanks.forall_isBlank, tokens, ending, htokens, hending, List.mapIdx_cons]
    simp only [List.take_succ_cons, hspelled, List.length_append, Nat.add_assoc, and_true]
    rfl

end Lexed

namespace Writing

/-- Lexing undoes writing: the tokens of the text are those that are written in it, each with the
place where it is written, and behind them the text ends. -/
theorem ofChars_text (writing : Writing) :
    (Lexed.ofChars writing.text).tokens =
        writing.words.mapIdx (fun number word => (word.1, writing.position number)) ∧
      (Lexed.ofChars writing.text).ending = .ok writing.text.length := by
  obtain ⟨htokens, hending⟩ :=
    Lexed.ofCharsFrom_spelled writing.apart writing.nonneg writing.before.val.length
  rw [Lexed.ofChars, text, Lexed.ofCharsFrom_append writing.before.forall_isBlank, Nat.zero_add]
  simp only [position, List.length_append]
  exact ⟨htokens, hending⟩

/-- Two blanks in front, an ideographic space of three bytes behind the first token, and none behind
the last one. -/
theorem ofChars_text_ideographic :
    let writing : Writing :=
      { before := ⟨"  ".toList, by decide⟩
        words := [(.count, ⟨['\u3000'], by decide⟩), (.compare .le, ⟨[' '], by decide⟩),
          (.integer 4, ⟨[], rfl⟩)]
        apart := by simp
        nonneg := by simp }
    writing.text = "  n\u3000<= 4".toList ∧
      (Lexed.ofChars writing.text).tokens = [(.count, 2), (.compare .le, 4), (.integer 4, 7)] ∧
      (Lexed.ofChars writing.text).ending = .ok 8 := by
  intro writing
  have htext : writing.text = "  n\u3000<= 4".toList := by decide +kernel
  obtain ⟨htokens, hending⟩ := writing.ofChars_text
  exact ⟨htext, htokens.trans (by decide +kernel), hending.trans (by rw [htext]; rfl)⟩

end Writing

end PluralForms
