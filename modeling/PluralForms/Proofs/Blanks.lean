import Mathlib.Data.List.Chain
import Mathlib.Data.List.TakeWhile
import PluralForms.Header
import PluralForms.Proofs.Lexing

/-! Blanks between tokens. A text that loses all its blanks keeps its tokens if no two neighbours
run together, and the tokens of a formula never do: no operand follows another, and no comparison
starts an operand. -/

namespace PluralForms

namespace Token

def isOperand : Token → Bool
  | .count | .integer _ => true
  | _ => false

/-- The tokens stay two when nothing stands between them. -/
def Apart (first next : Token) : Prop :=
  match first with
  | .count => next.isOperand = false
  | .integer _ => ∀ value, next ≠ .integer value
  | .compare comparison => comparison = .lt ∨ comparison = .gt → next ≠ .compare .eq
  | .not => next ≠ .compare .eq
  | .arith _ | .and | .or | .question | .colon | .opening | .closing => True

variable {first next : Token}

theorem apart_of_not_isOperand (hfirst : first.isOperand = true) (hnext : next.isOperand = false) :
    first.Apart next := by
  cases first with
  | count => exact hnext
  | integer value =>
    rintro value' rfl
    simp [isOperand] at hnext
  | _ => simp [isOperand] at hfirst

/-- Nothing but `==` can run together with what is no operand. -/
theorem apart_of_ne_eq (hfirst : first.isOperand = false) (hnext : next ≠ .compare .eq) :
    first.Apart next := by
  cases first with
  | compare comparison => exact fun _ => hnext
  | not => exact hnext
  | count | integer => simp [isOperand] at hfirst
  | _ => trivial

/-- The characters of the tokens that are no numbers. -/
def signs : List Char :=
  ['n', '+', '-', '*', '/', '%', '=', '!', '<', '>', '&', '|', '?', ':', '(', ')']

theorem mem_signs_of_mem_text {token : Token} {c : Char}
    (hinteger : ∀ value, token ≠ .integer value) (hc : c ∈ token.text.toList) : c ∈ signs := by
  have hall : (token.text.toList.all fun c => signs.contains c) = true := by
    cases token with
    | integer value => exact absurd rfl (hinteger value)
    | arith op => cases op <;> decide
    | compare comparison => cases comparison <;> decide
    | _ => decide
  exact List.contains_iff_mem.mp (List.all_eq_true.mp hall c hc)

end Token

theorem BinaryOp.isOperand_token (op : BinaryOp) : op.token.isOperand = false := by
  cases op <;> rfl

theorem UnaryOp.isOperand_token (op : UnaryOp) : op.token.isOperand = false := by
  cases op <;> rfl

namespace Text

open Lexed (scan isWordChar)

variable {c : Char} {rest text after : List Char} {token first : Token} {more : Nat}
  {tokens : List Token} {value : Int64}

/-! ### The first character of a token -/

/-- Only a digit starts a number, which has all digits that follow. -/
theorem number_of_scan (h : scan c rest = .ok (.integer value, more)) :
    c.isDigit = true ∧ more = (rest.takeWhile Char.isDigit).length ∧
      int64? (digitsValue (c :: rest.takeWhile Char.isDigit)) = some value := by
  simp only [scan] at h
  split at h
  · next hdigit =>
    split at h
    · next value' hvalue =>
      obtain ⟨htoken, rfl⟩ := Prod.mk.inj (Except.ok.inj h)
      obtain rfl := Token.integer.inj htoken
      exact ⟨hdigit, rfl, hvalue⟩
    · simp at h
  · split at h
    · split at h <;> simp at h
    · split at h
      all_goals first
        | (rcases pair_eq_ok h with ⟨hfound, -⟩ | ⟨hfound, -⟩ <;> simp at hfound)
        | simp at h

/-- Only `n` stands for the count, and no identifier goes on behind it. -/
theorem count_of_scan (h : scan c rest = .ok (.count, more)) :
    c = 'n' ∧ more = 0 ∧ rest.takeWhile isWordChar = [] := by
  simp only [scan] at h
  split at h
  · split at h <;> simp at h
  · split at h
    · split at h
      · next hword =>
        obtain ⟨-, rfl⟩ := Prod.mk.inj (Except.ok.inj h)
        obtain ⟨rfl, hrest⟩ := List.cons.inj hword
        exact ⟨rfl, rfl, hrest⟩
      · simp at h
    · split at h
      all_goals first
        | (rcases pair_eq_ok h with ⟨hfound, -⟩ | ⟨hfound, -⟩ <;> simp at hfound)
        | simp at h

theorem integer_of_scan (h : scan c rest = .ok (token, more)) (hdigit : c.isDigit = true) :
    ∃ value, token = .integer value := by
  simp only [scan, hdigit, if_true] at h
  split at h
  · next value _ =>
    obtain ⟨rfl, -⟩ := Prod.mk.inj (Except.ok.inj h)
    exact ⟨value, rfl⟩
  · simp at h

/-- A number stands for digits, and every other token for its text. -/
theorem chars_of_scan (h : scan c rest = .ok (token, more)) :
    (∃ value, token = .integer value) ∧ (∀ d ∈ c :: rest.take more, d.isDigit = true) ∨
      (∀ value, token ≠ .integer value) ∧ token.text.toList = c :: rest.take more := by
  by_cases hinteger : ∃ value, token = .integer value
  · obtain ⟨value, rfl⟩ := hinteger
    obtain ⟨hdigit, rfl, -⟩ := number_of_scan h
    rw [← List.prefix_iff_eq_take.mp (List.takeWhile_prefix _)]
    exact .inl ⟨⟨value, rfl⟩,
      List.forall_mem_cons.mpr ⟨hdigit, fun d hd => List.mem_takeWhile_imp hd⟩⟩
  · rw [not_exists] at hinteger
    refine .inr ⟨hinteger, (List.append_left_inj (rest.drop more)).mp ?_⟩
    rw [List.cons_append, List.take_append_drop]
    exact text_of_scan h hinteger

theorem isOperand_of_scan (h : scan c rest = .ok (token, more)) (hword : isWordChar c = true) :
    token.isOperand = true := by
  by_cases hdigit : c.isDigit = true
  · obtain ⟨value, rfl⟩ := integer_of_scan h hdigit
    rfl
  · have hascii : c.toNat < 128 := by
      by_contra hlarge
      exact scan_ne_ok hlarge h
    have hletter : (isAlphabetic c || decide (c = '_')) = true := by
      rw [isWordChar, isAlphanumeric, if_pos hascii, Char.isAlphanum,
        Bool.eq_false_iff.mpr hdigit, Bool.or_false] at hword
      rw [isAlphabetic, if_pos hascii]
      exact hword
    simp only [scan, if_neg hdigit, if_pos hletter] at h
    split at h
    · obtain ⟨rfl, -⟩ := Prod.mk.inj (Except.ok.inj h)
      rfl
    · simp at h

theorem eq_of_scan (h : scan '=' rest = .ok (token, more)) : token = .compare .eq := by
  rcases pair_eq_ok h with ⟨rfl, -⟩ | ⟨hfound, -⟩
  · rfl
  · simp at hfound

/-- A token ends before a text whose first token does not run together with it. -/
theorem endsBefore_of_apart (hblank : ∀ c ∈ text.head?, isBlank c = false)
    (htext : tokens? text = some tokens) (hapart : ∀ next ∈ tokens.head?, first.Apart next) :
    first.EndsBefore text := by
  cases text with
  | nil => exact first.endsBefore_of_head? (by simp)
  | cons c rest =>
    obtain ⟨token, more, others, hscan, rfl, -⟩ := scan_of_tokens? (hblank c rfl) htext
    have hapart : first.Apart token := hapart token rfl
    have heq (h : token ≠ .compare .eq) : (c :: rest).head? ≠ some '=' := by
      intro hc
      obtain rfl := Option.some.inj hc
      exact h (eq_of_scan hscan)
    cases first with
    | count =>
      intro c' hc'
      obtain rfl : c = c' := Option.some.inj hc'
      rw [← Bool.not_eq_true]
      intro hword
      have hoperand := isOperand_of_scan hscan hword
      have hother : token.isOperand = false := hapart
      simp [hother] at hoperand
    | integer value =>
      intro c' hc'
      obtain rfl : c = c' := Option.some.inj hc'
      rw [← Bool.not_eq_true]
      intro hdigit
      obtain ⟨value', rfl⟩ := integer_of_scan hscan hdigit
      exact hapart value' rfl
    | compare comparison =>
      cases comparison with
      | lt => exact heq (hapart (.inl rfl))
      | gt => exact heq (hapart (.inr rfl))
      | _ => trivial
    | not => exact heq hapart
    | _ => trivial

/-! ### Texts without blanks -/

theorem isBlank_of_mem_text (hinteger : ∀ value, token ≠ .integer value) :
    ∀ c ∈ token.text.toList, isBlank c = false := by
  intro c hc
  have hsigns : (Token.signs.all fun sign => !isBlank sign) = true := by decide
  simpa using List.all_eq_true.mp hsigns c (Token.mem_signs_of_mem_text hinteger hc)

/-- The characters of a token are no blanks, and they are read as the token before each text where
it ends. -/
theorem exists_written (hc : isBlank c = false) (h : scan c rest = .ok (token, more)) :
    ∃ written, written ++ rest.drop more = c :: rest ∧ (∀ c ∈ written, isBlank c = false) ∧
      ∀ after, token.EndsBefore after →
        tokens? (written ++ after) = (tokens? after).map (token :: ·) := by
  by_cases hinteger : ∃ value, token = .integer value
  · obtain ⟨value, rfl⟩ := hinteger
    obtain ⟨hdigit, rfl, hvalue⟩ := number_of_scan h
    refine ⟨c :: rest.takeWhile Char.isDigit, ?_, ?_, fun after hends => ?_⟩
    · have hdigits : rest.takeWhile Char.isDigit <+: rest := List.takeWhile_prefix _
      rw [List.cons_append, List.prefix_iff_eq_append.mp hdigits]
    · intro c' hc'
      rcases List.mem_cons.mp hc' with rfl | hmem
      · exact hc
      · exact isBlank_of_isDigit (List.mem_takeWhile_imp hmem)
    · have hstop : (rest.takeWhile Char.isDigit ++ after).takeWhile Char.isDigit =
          rest.takeWhile Char.isDigit :=
        takeWhile_append (fun _ => List.mem_takeWhile_imp) hends
      rw [List.cons_append, tokens?_number hdigit (hstop.symm ▸ hvalue), hstop, List.drop_left]
  · rw [not_exists] at hinteger
    exact ⟨token.text.toList, text_of_scan h hinteger, isBlank_of_mem_text hinteger,
      fun after hends => tokens?_text token hinteger hends⟩

theorem isBlank_of_mem_registryKey (h : c ∈ Header.registryKey text) : isBlank c = false := by
  simpa using (List.mem_filter.mp h).2

/-- A text with tokens consists of blanks, the digits of numbers and the characters of other
tokens. -/
theorem mem_of_tokens? (h : tokens? text = some tokens) (hc : c ∈ text) :
    isBlank c = true ∨ c.isDigit = true ∨ c ∈ Token.signs := by
  induction text using scan_induction generalizing tokens with
  | nil => cases hc
  | blank d rest hd ih =>
    rw [tokens?_blank hd] at h
    rcases List.mem_cons.mp hc with rfl | hc
    · exact .inl hd
    · exact ih h hc
  | token d rest hd ih =>
    obtain ⟨token, more, others, hscan, rfl, hothers⟩ := scan_of_tokens? hd h
    rw [← List.take_append_drop more rest, ← List.cons_append] at hc
    rcases List.mem_append.mp hc with hc | hc
    · rcases chars_of_scan hscan with ⟨-, hdigits⟩ | ⟨hinteger, htext⟩
      · exact .inr (.inl (hdigits c hc))
      · exact .inr (.inr (Token.mem_signs_of_mem_text hinteger (htext ▸ hc)))
    · exact ih token more hscan hothers hc

/-- Without its blanks the text has the same tokens: none stands inside a token. -/
def KeepsTokens (text : List Char) : Prop := tokens? (Header.registryKey text) = tokens? text

instance (text : List Char) : Decidable (KeepsTokens text) := decEq _ _

/-- A text whose tokens stay apart has the same tokens without its blanks. -/
theorem tokens?_registryKey (h : tokens? text = some tokens) (hchain : tokens.IsChain Token.Apart) :
    tokens? (Header.registryKey text) = some tokens := by
  induction text using scan_induction generalizing tokens with
  | nil => exact h
  | blank c rest hc ih =>
    rw [tokens?_blank hc] at h
    have hkey : Header.registryKey (c :: rest) = Header.registryKey rest :=
      List.filter_cons_of_neg (by simp [hc])
    rw [hkey]
    exact ih h hchain
  | token c rest hc ih =>
    obtain ⟨token, more, others, hscan, rfl, hothers⟩ := scan_of_tokens? hc h
    obtain ⟨hapart, hchain⟩ := List.isChain_cons.mp hchain
    have hrest := ih token more hscan hothers hchain
    obtain ⟨written, hwritten, hblanks, hread⟩ := exists_written hc hscan
    have hkey : Header.registryKey (c :: rest) =
        written ++ Header.registryKey (rest.drop more) := by
      rw [← hwritten, Header.registryKey, List.filter_append,
        List.filter_eq_self.mpr fun c hc => by simp [hblanks c hc]]
      rfl
    have hends : token.EndsBefore (Header.registryKey (rest.drop more)) :=
      endsBefore_of_apart (fun c hc => isBlank_of_mem_registryKey (List.mem_of_mem_head? hc))
        hrest hapart
    rw [hkey, hread _ hends, hrest]
    rfl

end Text

namespace SyntaxTree

/-- How the tokens of a goal start: what follows an operand is no operand, and an operand does not
start with a comparison. -/
def Goal.Starts (tokens : List Token) : Goal → Prop
  | .more _ _ => ∀ next ∈ tokens.head?, next.isOperand = false
  | _ => ∀ next ∈ tokens.head?, next ≠ .compare .eq

variable {goal : Goal} {tokens rest : List Token} {tree : SyntaxTree} {token : Token}

theorem isChain_cons_mark (token : Token) (hmark : ∀ next, token.Apart next)
    (hchain : rest.IsChain Token.Apart) : (token :: rest).IsChain Token.Apart :=
  hchain.cons fun next _ => hmark next

theorem isChain_cons_operand (hoperand : token.isOperand = true)
    (hchain : rest.IsChain Token.Apart) (hrest : ∀ next ∈ rest.head?, next.isOperand = false) :
    (token :: rest).IsChain Token.Apart :=
  hchain.cons fun next hnext => Token.apart_of_not_isOperand hoperand (hrest next hnext)

theorem isChain_cons_operator (hoperator : token.isOperand = false)
    (hchain : rest.IsChain Token.Apart) (hrest : ∀ next ∈ rest.head?, next ≠ .compare .eq) :
    (token :: rest).IsChain Token.Apart :=
  hchain.cons fun next hnext => Token.apart_of_ne_eq hoperator (hrest next hnext)

/-- The tokens that a goal reads stay apart if those after them do and do not start with an
operand. -/
theorem Derives.isChain_apart (h : Derives goal tokens tree rest)
    (hchain : rest.IsChain Token.Apart) (hrest : ∀ next ∈ rest.head?, next.isOperand = false) :
    tokens.IsChain Token.Apart ∧ goal.Starts tokens := by
  induction h with
  | count => exact ⟨isChain_cons_operand rfl hchain hrest, by simp [Goal.Starts]⟩
  | integer => exact ⟨isChain_cons_operand rfl hchain hrest, by simp [Goal.Starts]⟩
  | parens _ ih =>
    have hclosing := isChain_cons_mark .closing (fun _ => trivial) hchain
    obtain ⟨hinside, -⟩ := ih hclosing (by simp [Token.isOperand])
    exact ⟨isChain_cons_mark .opening (fun _ => trivial) hinside, by simp [Goal.Starts]⟩
  | @unary op _ _ _ _ htoken _ ih =>
    subst htoken
    obtain ⟨hoperand, hstarts⟩ := ih hchain hrest
    refine ⟨isChain_cons_operator (UnaryOp.isOperand_token op) hoperand hstarts, ?_⟩
    cases op <;> simp [Goal.Starts, UnaryOp.token]
  | level _ _ ihFirst ihMore =>
    obtain ⟨hmore, hstarts⟩ := ihMore hchain hrest
    exact ihFirst hmore hstarts
  | stop _ => exact ⟨hchain, hrest⟩
  | @binary _ op _ _ _ _ _ _ _ _ htoken _ _ _ ihRight ihMore =>
    subst htoken
    have hop := BinaryOp.isOperand_token op
    obtain ⟨hmore, hstarts⟩ := ihMore hchain hrest
    obtain ⟨hright, hstarts⟩ := ihRight hmore hstarts
    refine ⟨isChain_cons_operator hop hright hstarts, ?_⟩
    intro next hnext
    obtain rfl := Option.some.inj hnext
    exact hop
  | plain _ _ ih => exact ih hchain hrest
  | choose _ _ _ ihCondition ihYes ihNo =>
    obtain ⟨hno, -⟩ := ihNo hchain hrest
    have hcolon := isChain_cons_mark .colon (fun _ => trivial) hno
    obtain ⟨hyes, -⟩ := ihYes hcolon (by simp [Token.isOperand])
    have hquestion := isChain_cons_mark .question (fun _ => trivial) hyes
    exact ihCondition hquestion (by simp [Token.isOperand])

theorem Derives.keepsTokens {text : List Char} (htext : Text.tokens? text = some tokens)
    (h : Derives .conditional tokens tree []) : Text.KeepsTokens text := by
  obtain ⟨hchain, -⟩ := h.isChain_apart .nil (by simp)
  exact (Text.tokens?_registryKey htext hchain).trans htext.symm

end SyntaxTree

end PluralForms
