import PluralForms.Token.Lexer
import PluralForms.Proofs.Grammar

/-! The tokens of a text as a plain list, which exists if the text has no place that starts no
token: how the list arises from the first characters, and which characters a token stands for. -/

namespace PluralForms

theorem bind_eq_ok_iff {ε α β : Type} {x : Except ε α} {f : α → Except ε β} {b : β} :
    (x >>= f) = .ok b ↔ ∃ a, x = .ok a ∧ f a = .ok b := by
  cases x <;> simp [bind, Except.bind]

/-- All tokens, if the end of the text is reached. -/
def Lexed.all? : Lexed → Option (List Token)
  | .eof _ => some []
  | .broken _ => none
  | .token head _ rest => rest.all?.map (head :: ·)

/-- The tokens of a text. -/
def Text.tokens? (text : List Char) : Option (List Token) := (Lexed.ofChars text).all?

/-- The text after a token does not go on with it. -/
def Token.EndsBefore (rest : List Char) : Token → Prop
  | .count => ∀ c ∈ rest.head?, Lexed.isWordChar c = false
  | .integer _ => ∀ c ∈ rest.head?, c.isDigit = false
  | .compare .lt | .compare .gt | .not => rest.head? ≠ some '='
  | _ => True

/-- Some token may go on with the character. -/
def Lexed.goesOn (c : Char) : Bool := isWordChar c || c.isDigit || c = '='

/-- Every token ends before a character with which none goes on. -/
theorem Token.endsBefore_of_head? {rest : List Char} (token : Token)
    (h : ∀ c ∈ rest.head?, Lexed.goesOn c = false) : token.EndsBefore rest := by
  simp only [Lexed.goesOn, Bool.or_eq_false_iff, decide_eq_false_iff_not] at h
  have hsign : rest.head? ≠ some '=' := fun hc => (h '=' hc).2 rfl
  cases token with
  | count => exact fun c hc => (h c hc).1.1
  | integer value => exact fun c hc => (h c hc).1.2
  | compare comparison =>
    cases comparison with
    | lt | gt => exact hsign
    | _ => trivial
  | not => exact hsign
  | _ => trivial

/-- The text of the token is scanned as the token if `rest` follows. -/
def Token.ScannedBefore (rest : List Char) (token : Token) : Prop :=
  ∃ c written, token.text.toList = c :: written ∧ Text.isBlank c = false ∧
    Lexed.scan c (written ++ rest) = .ok (token, written.length)

namespace Lexed

theorem all?_ofCharsFrom (position position' skip : Nat) (text : List Char) :
    (ofCharsFrom position skip text).all? = (ofCharsFrom position' skip text).all? := by
  induction text generalizing position position' skip with
  | nil => rfl
  | cons c rest ih =>
    cases skip with
    | succ skip => exact ih _ _ skip
    | zero =>
      simp only [ofCharsFrom]
      split
      · exact ih _ _ 0
      · split
        · next head more _ =>
          simp only [all?]
          rw [ih _ (position' + 1)]
        · rfl

theorem all?_ofCharsFrom_skip (position skip : Nat) (text : List Char) :
    (ofCharsFrom position skip text).all? = Text.tokens? (text.drop skip) := by
  induction text generalizing position skip with
  | nil => rw [List.drop_nil]; rfl
  | cons c rest ih =>
    cases skip with
    | zero => exact all?_ofCharsFrom ..
    | succ skip => exact ih _ skip

end Lexed

namespace Text

open Lexed (scan)

variable {c : Char} {rest text : List Char} {token : Token} {more : Nat} {tokens : List Token}

@[simp] theorem tokens?_nil : tokens? [] = some [] := rfl

theorem tokens?_blank (h : isBlank c = true) : tokens? (c :: rest) = tokens? rest := by
  rw [tokens?, Lexed.ofChars, Lexed.ofCharsFrom, if_pos h]
  exact Lexed.all?_ofCharsFrom ..

theorem tokens?_of_scan (more : Nat) (hc : isBlank c = false)
    (h : scan c rest = .ok (token, more)) :
    tokens? (c :: rest) = (tokens? (rest.drop more)).map (token :: ·) := by
  rw [tokens?, Lexed.ofChars, Lexed.ofCharsFrom, if_neg (by simp [hc]), h]
  simp only [Lexed.all?, Lexed.all?_ofCharsFrom_skip]

theorem tokens?_of_scannedBefore (h : token.ScannedBefore rest) :
    tokens? (token.text.toList ++ rest) = (tokens? rest).map (token :: ·) := by
  obtain ⟨c, written, htext, hc, hscan⟩ := h
  rw [htext, List.cons_append, tokens?_of_scan _ hc hscan, List.drop_left]

/-- A character that is not blank and starts a list of tokens starts the first of them. -/
theorem scan_of_tokens? (hc : isBlank c = false) (h : tokens? (c :: rest) = some tokens) :
    ∃ token more others, scan c rest = .ok (token, more) ∧ tokens = token :: others ∧
      tokens? (rest.drop more) = some others := by
  cases hs : scan c rest with
  | ok found =>
    obtain ⟨token, more⟩ := found
    rw [tokens?_of_scan more hc hs, Option.map_eq_some_iff] at h
    obtain ⟨others, hothers, rfl⟩ := h
    exact ⟨token, more, others, rfl, rfl, hothers⟩
  | error cause =>
    rw [tokens?, Lexed.ofChars, Lexed.ofCharsFrom, if_neg (by simp [hc]), hs] at h
    simp [Lexed.all?] at h

/-- Induction along the tokens of a text, of which one may take several characters. -/
@[elab_as_elim]
theorem scan_induction {motive : List Char → Prop} (nil : motive [])
    (blank : ∀ c rest, isBlank c = true → motive rest → motive (c :: rest))
    (token : ∀ c rest, isBlank c = false →
      (∀ token more, scan c rest = .ok (token, more) → motive (rest.drop more)) →
        motive (c :: rest))
    (text : List Char) : motive text := by
  induction hlength : text.length using Nat.strongRecOn generalizing text with
  | _ length ih =>
    subst hlength
    cases text with
    | nil => exact nil
    | cons c rest =>
      cases hc : isBlank c with
      | true => exact blank c rest hc (ih rest.length (Nat.lt_succ_self _) rest rfl)
      | false =>
        refine token c rest hc fun _ more _ => ih _ ?_ (rest.drop more) rfl
        rw [List.length_drop, List.length_cons]
        omega

theorem tokens?_dropWhile {p : Char → Bool} (hp : ∀ c, p c = true → isBlank c = true)
    (text : List Char) : tokens? (text.dropWhile p) = tokens? text := by
  induction text with
  | nil => rfl
  | cons c rest ih =>
    rw [List.dropWhile_cons]
    split
    · next h => rw [ih, tokens?_blank (hp c h)]
    · rfl

/-- The characters of one kind go on to the first of another kind. -/
theorem takeWhile_append {p : Char → Bool} {front : List Char} (hfront : ∀ c ∈ front, p c = true)
    (hrest : ∀ c ∈ rest.head?, p c = false) : (front ++ rest).takeWhile p = front := by
  rw [List.takeWhile_append_of_pos hfront]
  cases rest with
  | nil => simp
  | cons c rest => simp [hrest c rfl]

/-! ### Numbers -/

theorem isBlank_of_isDigit (h : c.isDigit = true) : isBlank c = false := by
  have hzero : '0'.toNat = 48 := rfl
  have hnine : '9'.toNat = 57 := rfl
  rw [Char.isDigit_iff_toNat] at h
  rw [← Bool.not_eq_true]
  simp only [isBlank, inRanges, blankRanges, List.any_cons, List.any_nil, Bool.or_eq_true,
    Bool.and_eq_true, decide_eq_true_eq, Bool.false_eq_true, or_false]
  omega

/-- A number is read from all digits that follow its first one. -/
theorem tokens?_number {value : Int64} (hdigit : c.isDigit = true)
    (hvalue : int64? (digitsValue (c :: rest.takeWhile Char.isDigit)) = some value) :
    tokens? (c :: rest) =
      (tokens? (rest.drop (rest.takeWhile Char.isDigit).length)).map (.integer value :: ·) := by
  refine tokens?_of_scan _ (isBlank_of_isDigit hdigit) ?_
  simp only [scan, hdigit, if_true, hvalue]

/-! ### Signs -/

theorem pair_single {second : Char} {double : Token} {single : Except ParseError.Cause Token}
    (h : rest.head? ≠ some second) :
    Lexed.pair second double single rest = single.map (·, 0) := by
  cases rest with
  | nil => rfl
  | cons c rest => rw [Lexed.pair, if_neg (by simpa using h)]

/-- A token that is no number is scanned from its text. -/
theorem scannedBefore_of_endsBefore (hinteger : ∀ value, token ≠ .integer value)
    (h : token.EndsBefore rest) : token.ScannedBefore rest := by
  cases token with
  | integer value => exact absurd rfl (hinteger value)
  | count =>
    have hword : rest.takeWhile Lexed.isWordChar = [] :=
      takeWhile_append (List.forall_mem_nil _) h
    exact ⟨'n', [], rfl, by decide, by simp [scan, hword, isAlphabetic]⟩
  | arith op => cases op <;> exact ⟨_, [], rfl, by decide, rfl⟩
  | compare comparison =>
    cases comparison with
    | lt | gt => exact ⟨_, [], rfl, by decide, pair_single h⟩
    | _ => exact ⟨_, ['='], rfl, by decide, rfl⟩
  | not => exact ⟨_, [], rfl, by decide, pair_single h⟩
  | and => exact ⟨_, ['&'], rfl, by decide, rfl⟩
  | or => exact ⟨_, ['|'], rfl, by decide, rfl⟩
  | question | colon | opening | closing => exact ⟨_, [], rfl, by decide, rfl⟩

/-- A token that is no number is read from its text. -/
theorem tokens?_text (token : Token) (hinteger : ∀ value, token ≠ .integer value)
    (h : token.EndsBefore rest) :
    tokens? (token.text.toList ++ rest) = (tokens? rest).map (token :: ·) :=
  tokens?_of_scannedBefore (scannedBefore_of_endsBefore hinteger h)

theorem pair_eq_ok {second : Char} {double : Token} {single : Except ParseError.Cause Token}
    (h : Lexed.pair second double single rest = .ok (token, more)) :
    (token = double ∧ more = 1 ∧ rest.head? = some second) ∨ (single = .ok token ∧ more = 0) := by
  cases rest with
  | nil => cases single <;> simp_all [Lexed.pair, Except.map]
  | cons c rest =>
    simp only [Lexed.pair] at h
    split at h
    · simp_all
    · cases single <;> simp_all [Except.map]

/-- A sign that may be doubled stands for its text. -/
theorem text_of_pair {second : Char} {double : Token} {single : Except ParseError.Cause Token}
    (hdouble : double.text.toList = [c, second])
    (hsingle : ∀ token, single = .ok token → token.text.toList = [c])
    (h : Lexed.pair second double single rest = .ok (token, more)) :
    token.text.toList ++ rest.drop more = c :: rest := by
  rcases pair_eq_ok h with ⟨rfl, rfl, hrest⟩ | ⟨hfound, rfl⟩
  · obtain ⟨tail, rfl⟩ := List.head?_eq_some_iff.mp hrest
    rw [hdouble]
    rfl
  · rw [hsingle token hfound]
    rfl

/-- A token that is no number stands for its text. -/
theorem text_of_scan (h : scan c rest = .ok (token, more))
    (hinteger : ∀ value, token ≠ .integer value) :
    token.text.toList ++ rest.drop more = c :: rest := by
  simp only [scan] at h
  split at h
  · split at h
    · obtain ⟨rfl, -⟩ := Prod.mk.inj (Except.ok.inj h)
      exact absurd rfl (hinteger _)
    · simp at h
  · split at h
    · split at h
      · next hword =>
        obtain ⟨rfl, rfl⟩ := Prod.mk.inj (Except.ok.inj h)
        simp [(List.cons.inj hword).1, Token.text]
      · simp at h
    · split at h
      all_goals first
        | (obtain ⟨rfl, rfl⟩ := Prod.mk.inj (Except.ok.inj h); rfl)
        | exact text_of_pair rfl (by rintro _ ⟨⟩ <;> rfl) h
        | simp at h

/-- A text that does not start with a blank starts with its first token, if that is no number. -/
theorem text_of_tokens? (hhead : ∀ c ∈ text.head?, isBlank c = false)
    (h : tokens? text = some (token :: tokens)) (hinteger : ∀ value, token ≠ .integer value) :
    ∃ rest, text = token.text.toList ++ rest ∧ tokens? rest = some tokens := by
  cases text with
  | nil => simp at h
  | cons c rest =>
    obtain ⟨token', more, others, hscan, heq, hothers⟩ := scan_of_tokens? (hhead c rfl) h
    obtain ⟨rfl, rfl⟩ := List.cons.inj heq
    exact ⟨rest.drop more, (text_of_scan hscan hinteger).symm, hothers⟩

/-- No token starts with a character past ASCII. -/
theorem scan_ne_ok (h : ¬c.toNat < 128) : scan c rest ≠ .ok (token, more) := by
  intro hscan
  simp only [scan] at hscan
  split at hscan
  · next hdigit =>
    have hnine : '9'.toNat < 128 := by decide
    rw [Char.isDigit_iff_toNat] at hdigit
    omega
  · split at hscan
    · split at hscan
      · next hword =>
        obtain rfl := (List.cons.inj hword).1
        exact h (by decide)
      · simp at hscan
    · split at hscan
      all_goals first
        | exact h (by decide)
        | simp at hscan

end Text

end PluralForms
