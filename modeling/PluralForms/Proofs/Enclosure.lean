import PluralForms.Proofs.Parentheses
import PluralForms.Proofs.SelectionCompleteness
import PluralForms.Proofs.TreePhrases

/-! Expressions in parentheses. A phrase that stands in parentheses of which the first matches the
last is a phrase in parentheses, so both readers make the same of it with them and without. -/

namespace PluralForms

variable {tokens : List Token}

theorem Header.Encloses.nested {expression inner : List Char}
    (h : Header.Encloses expression inner) (htokens : Text.tokens? inner = some tokens) :
    Token.Nested tokens := by
  rintro front back rfl
  obtain ⟨k, hk⟩ := Text.exists_depth_eq htokens
  obtain ⟨-, hbalanced⟩ := Header.encloses_iff.mp h
  have := ((Header.isBalanced_iff 0 inner).mp hbalanced).1 k
  omega

theorem Header.Encloses.tokens? {expression inner : List Char}
    (h : Header.Encloses expression inner) :
    Text.tokens? expression =
      (Text.tokens? inner).map fun tokens => .opening :: (tokens ++ [.closing]) := by
  rw [h.1]
  exact Text.tokens?_enclosed inner

/-! ### Selections -/

namespace Selection

variable {part : Part}

theorem Phrase.depth_tokens (phrase : Phrase part) : Token.depth phrase.tokens = 0 := by
  induction phrase with
  | count | integer => rfl
  | parens inner ih =>
    rw [tokens, Token.depth_cons, Token.depth_append, ih]
    rfl
  | primary _ ih | arithmetic _ ih | operand _ _ ih | plain _ ih => exact ih
  | operator left op value ih | compare left op value ih =>
    rw [tokens, Token.depth_append, ih]
    rfl
  | join connective left right ihLeft ihRight =>
    rw [tokens, Token.depth_append, Token.depth_cons, ihLeft, ihRight]
    cases connective <;> rfl
  | choose condition yes no ihCondition ihYes ihNo =>
    rw [tokens, Token.depth_append, Token.depth_cons, Token.depth_append,
      Token.depth_cons .colon, ihCondition, ihYes, ihNo]
    rfl

/-- A phrase whose first and last tokens are matching parentheses stands in parentheses. -/
theorem Phrase.exists_inner (phrase : Phrase part) (hnested : Token.Nested tokens)
    (h : phrase.tokens = .opening :: (tokens ++ [.closing])) (hallowed : phrase.Allowed) :
    ∃ inner : Phrase .expression, inner.tokens = tokens ∧ inner.Allowed ∧
      ∀ operand : Operand, operand.Fits phrase →
        ∃ found : Operand, found.Fits inner ∧ operand = found.enclosed := by
  induction phrase with
  | count | integer => simp [Phrase.tokens] at h
  | parens inner =>
    obtain ⟨-, htokens⟩ := List.cons.inj h
    refine ⟨inner, (List.append_inj' htokens rfl).1, hallowed, fun operand hfits => ?_⟩
    cases hfits with
    | parens hfits => exact ⟨_, hfits, rfl⟩
  | primary _ ih | arithmetic _ ih | operand _ _ ih | plain _ ih =>
    obtain ⟨inner, htokens, hallowed, hfits⟩ := ih h hallowed
    refine ⟨inner, htokens, hallowed, fun operand hfits' => ?_⟩
    cases hfits'
    exact hfits _ ‹_›
  | operator | compare | join | choose =>
    exact absurd hnested (Token.not_nested (depth_tokens _) (tokens_ne_nil _) (by simp) h)

/-- The phrase in parentheses, as the whole of an expression. -/
def Phrase.enclosed (inner : Phrase .expression) : Phrase .expression :=
  .plain (.operand .or (.operand .and (.arithmetic (.primary (.parens inner)))))

theorem selection?_enclosed (operand : Operand) :
    operand.enclosed.selection? = operand.selection? := by
  cases operand <;> rfl

variable {expression inner : List Char} {selection : Selection}

theorem parse_of_encloses (h : Header.Encloses expression inner) :
    parse expression = .ok selection ↔ parse inner = .ok selection := by
  rw [parse_eq_ok_iff, parse_eq_ok_iff, h.tokens?]
  constructor
  · rintro ⟨phrase, htokens, hallowed, operand, hfits, hselection⟩
    obtain ⟨tokens, htokens, heq⟩ := Option.map_eq_some_iff.mp htokens
    obtain ⟨found, rfl, hallowed', hfound⟩ :=
      phrase.exists_inner (h.nested htokens) heq.symm hallowed
    obtain ⟨operand', hfits', rfl⟩ := hfound operand hfits
    rw [selection?_enclosed] at hselection
    exact ⟨found, htokens, hallowed', operand', hfits', hselection⟩
  · rintro ⟨phrase, htokens, hallowed, operand, hfits, hselection⟩
    refine ⟨phrase.enclosed, by rw [htokens]; rfl, hallowed, operand.enclosed,
      .plain (.operand (.operand (.arithmetic (.primary (.parens hfits))))), ?_⟩
    rw [selection?_enclosed]
    exact hselection

end Selection

theorem compile_of_encloses {expression inner : List Char} {program : Program}
    (h : Header.Encloses expression inner) :
    Program.compile expression = .ok program ↔ Program.compile inner = .ok program := by
  have hmap (text : List Char) : Program.compile text = .ok program ↔
      ∃ selection, Selection.parse text = .ok selection ∧ selection.emitted = program := by
    rw [Program.compile]
    cases Selection.parse text <;> simp [Except.map]
  rw [hmap, hmap]
  exact exists_congr fun _ => and_congr_left fun _ => Selection.parse_of_encloses h

/-! ### Syntax trees -/

namespace SyntaxTree

variable {part : Part}

theorem Phrase.balanced_tokens (phrase : Phrase part) : Token.Balanced phrase.tokens := by
  induction phrase with
  | count => exact Token.balanced_nil.cons rfl
  | integer value => exact Token.balanced_nil.cons rfl
  | parens inner ih => exact ih.enclosed
  | unary op operand ih => exact ih.cons (by cases op <;> rfl)
  | first _ ih | plain _ ih => exact ih
  | binary op hlevel left right ihLeft ihRight =>
    exact ihLeft.append (ihRight.cons (by cases op <;> rfl))
  | choose condition yes no ihCondition ihYes ihNo =>
    exact ihCondition.append (.cons rfl (ihYes.append (ihNo.cons rfl)))

theorem Phrase.depth_tokens (phrase : Phrase part) : Token.depth phrase.tokens = 0 :=
  phrase.balanced_tokens.depth_eq

theorem Phrase.tokens_ne_nil (phrase : Phrase part) : phrase.tokens ≠ [] := by
  induction phrase with
  | count | integer | parens | unary => simp [tokens]
  | first _ ih | plain _ ih => exact ih
  | binary | choose => simp [tokens]

theorem Phrase.exists_inner (phrase : Phrase part) (hnested : Token.Nested tokens)
    (h : phrase.tokens = .opening :: (tokens ++ [.closing])) (hallowed : phrase.Allowed) :
    ∃ inner : Phrase .conditional, inner.tokens = tokens ∧ inner.Allowed := by
  induction phrase with
  | count | integer => simp [Phrase.tokens] at h
  | unary op =>
    obtain ⟨hop, -⟩ := List.cons.inj h
    cases op <;> cases hop
  | parens inner =>
    obtain ⟨-, htokens⟩ := List.cons.inj h
    exact ⟨inner, (List.append_inj' htokens rfl).1, hallowed⟩
  | first _ ih | plain _ ih => exact ih h hallowed
  | binary | choose =>
    exact absurd hnested (Token.not_nested (depth_tokens _) (tokens_ne_nil _) (by simp) h)

/-- In parentheses a phrase derives the tree that it derives alone. -/
theorem Phrase.derives_enclosed {phrase : Phrase .conditional} (hallowed : phrase.Allowed) :
    ∃ tree, Derives .conditional phrase.tokens tree [] ∧
      Derives .conditional (.opening :: (phrase.tokens ++ [.closing])) tree [] := by
  obtain ⟨tree, -, hderived⟩ := phrase.derived hallowed
  have hparens : Derives (.level 0) (.opening :: (phrase.tokens ++ [.closing])) tree [] :=
    .parens (hderived _ (closed_closing []))
  have hinner := hderived [] closed_nil
  rw [List.append_nil] at hinner
  exact ⟨tree, hinner, .plain (hparens.raise (Nat.zero_le 6) (by simp)) (by simp)⟩

theorem spaced_closing {behind : Bool} (text : List Char) :
    spaced behind (text ++ [')']) = spaced behind text := by
  induction text generalizing behind with
  | nil => rfl
  | cons c rest ih => simp only [List.cons_append, spaced, ih]

variable {expression inner : List Char} {tree : SyntaxTree}

theorem parse_of_encloses (h : Header.Encloses expression inner) :
    parse expression = .ok tree ↔ parse inner = .ok tree := by
  have hspaced : spaced false expression = spaced false inner := by
    rw [h.1, spaced_cons (by decide), spaced_closing]
    rfl
  rw [parse_eq_ok_iff, parse_eq_ok_iff, hspaced, h.tokens?]
  constructor
  · rintro ⟨all, hall, hderives, hsp⟩
    obtain ⟨tokens, htokens, rfl⟩ := Option.map_eq_some_iff.mp hall
    obtain ⟨phrase, hallowed, -, heq⟩ := hderives.covered
    rw [List.append_nil] at heq
    obtain ⟨found, rfl, hallowed'⟩ := phrase.exists_inner (h.nested htokens) heq.symm hallowed
    obtain ⟨tree', hinner, henclosed⟩ := Phrase.derives_enclosed hallowed'
    obtain ⟨rfl, -⟩ := hderives.unique henclosed
    exact ⟨_, htokens, hinner, hsp⟩
  · rintro ⟨tokens, htokens, hderives, hsp⟩
    obtain ⟨phrase, hallowed, -, heq⟩ := hderives.covered
    rw [List.append_nil] at heq
    subst heq
    obtain ⟨tree', hinner, henclosed⟩ := Phrase.derives_enclosed hallowed
    obtain ⟨rfl, -⟩ := hderives.unique hinner
    exact ⟨_, by rw [htokens]; rfl, henclosed, hsp⟩

end SyntaxTree

namespace Header

/-- Exactly the parentheses around a whole expression of which the first matches the last are
dropped. What is left has a program exactly if the expression has one, and then the same, and so it
is with the tree. -/
theorem stripParens_exact (expression : List Char) :
    (stripParens expression ≠ expression ↔ ∃ inner, Encloses expression inner) ∧
      ∀ inner, Encloses expression inner →
        stripParens expression = inner ∧
          (∀ program,
            Program.compile expression = .ok program ↔ Program.compile inner = .ok program) ∧
          ∀ tree, SyntaxTree.parse expression = .ok tree ↔ SyntaxTree.parse inner = .ok tree :=
  ⟨stripParens_ne_iff, fun _ h => ⟨stripParens_of_encloses h, fun _ => compile_of_encloses h,
    fun _ => SyntaxTree.parse_of_encloses h⟩⟩

/-- In the first expression the parentheses at the ends match, and in the second they do not. -/
theorem stripParens_exact_disjunction :
    Encloses "((n % 10 == 1) || (n == 2))".toList "(n % 10 == 1) || (n == 2)".toList ∧
      stripParens "((n % 10 == 1) || (n == 2))".toList = "(n % 10 == 1) || (n == 2)".toList ∧
      Program.compile "((n % 10 == 1) || (n == 2))".toList = .ok [.load 0, .arith .mod 10,
        .test .eq 1, .jump true 2, .load 0, .test .eq 2] ∧
      (∃ tree, SyntaxTree.parse "((n % 10 == 1) || (n == 2))".toList = .ok tree) ∧
      ¬∃ inner, Encloses "(n == 1) ? 0 : (n == 2)".toList inner := by
  have hencloses : Encloses "((n % 10 == 1) || (n == 2))".toList
      "(n % 10 == 1) || (n == 2)".toList := encloses_iff.mpr (by decide +kernel)
  obtain ⟨hstrip, hcompile, hparse⟩ := (stripParens_exact _).2 _ hencloses
  refine ⟨hencloses, hstrip, (hcompile _).mpr (by decide +kernel), ?_, ?_⟩
  · exact ⟨.result (.binary .or
      (.binary (.compare .eq) (.binary (.arith .mod) .count (.literal 10)) (.literal 1))
      (.binary (.compare .eq) .count (.literal 2))), (hparse _).mpr (by decide +kernel)⟩
  · exact fun hinner => (stripParens_exact _).1.mpr hinner (by decide +kernel)

end Header

end PluralForms
