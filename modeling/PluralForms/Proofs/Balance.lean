import PluralForms.Balance
import PluralForms.Proofs.Enclosure
import PluralForms.Proofs.FaultPlaces

/-! The balance of parentheses in a line. It is told by how deep the parts at the start of the line
are, and it never keeps a formula back: the tokens of a formula are balanced, and so is its text. -/

namespace PluralForms

/-! ### Depths -/

namespace Text

/-- No part at the start of the text closes more parentheses than are open before it and in it, if
`opened` are open before the text. -/
def Nested (opened : Nat) (text : List Char) : Prop := ∀ k, 0 ≤ opened + depth (text.take k)

variable {opened : Nat} {c : Char} {text rest front back : List Char}

theorem nested_nil : Nested opened [] := fun k => by
  rw [List.take_nil, depth_nil]
  omega

theorem nested_cons {opened' : Nat} (h : (opened' : Int) = opened + depth [c]) :
    Nested opened (c :: rest) ↔ Nested opened' rest := by
  rw [Nested, Nested, nonneg_cons_iff, h]

/-- The closing parenthesis at the byte `position` is the first with which more are closed than
opened. -/
def ExceededAt (text : List Char) (position : Nat) : Prop :=
  ∃ front back, text = front ++ ')' :: back ∧ Nested 0 front ∧ depth front = 0 ∧
    position = byteSize front

/-- A parenthesis closed where none is open stands in no part at the start of a nested text. -/
theorem Nested.length_le (h : Nested opened text) (hparts : text <+: front ++ ')' :: back)
    (hclosed : opened + depth front = 0) : text.length ≤ front.length := by
  by_contra hlonger
  obtain ⟨more, hmore⟩ := hparts
  have hpart : text.take (front.length + 1) = (text ++ more).take (front.length + 1) :=
    (List.take_append_of_le_length (by omega)).symm
  have hdeep := h (front.length + 1)
  rw [hpart, hmore, List.take_length_add_append, List.take_succ_cons, List.take_zero, depth_append,
    show depth [')'] = -1 from rfl] at hdeep
  omega

/-- The text of balanced tokens is nested, and closes all that it opens. -/
theorem nested_of_tokens? {tokens : List Token} (htokens : tokens? text = some tokens)
    (h : Token.Balanced tokens) : Nested 0 text ∧ depth text = 0 := by
  refine ⟨fun k => ?_, (depth_of_tokens? htokens).trans h.depth_eq⟩
  obtain ⟨front, back, heq, hdepth⟩ := exists_depth_take htokens k
  have hfront := h.nested front back heq
  omega

end Text

namespace Balance

open Text (Nested depth byteSize ExceededAt)

/-- What is said of a text at the byte `position`, before which `opened` parentheses are open. -/
inductive Describes (position opened : Nat) (text : List Char) : Balance → Prop
  | complete : Nested opened text → opened + depth text = 0 →
      Describes position opened text .complete
  | incomplete {lacking : Nat} : Nested opened text → 0 < lacking → opened + depth text = lacking →
      Describes position opened text (.incomplete lacking)
  | unmatched {front back : List Char} : text = front ++ ')' :: back → Nested opened front →
      opened + depth front = 0 →
        Describes position opened text (.unmatched (position + byteSize front))

variable {position opened : Nat} {c : Char} {text rest : List Char} {balance balance' : Balance}

theorem Describes.cons {opened' : Nat} (hopened : (opened' : Int) = opened + depth [c])
    (h : Describes (position + c.utf8Size) opened' rest balance) :
    Describes position opened (c :: rest) balance := by
  have hdepth (text : List Char) : opened + depth (c :: text) = opened' + depth text := by
    rw [Text.depth_cons]
    omega
  cases h with
  | complete hnested hclosed =>
    exact .complete ((Text.nested_cons hopened).mpr hnested) ((hdepth rest).trans hclosed)
  | incomplete hnested hpos hlacking =>
    exact .incomplete ((Text.nested_cons hopened).mpr hnested) hpos ((hdepth rest).trans hlacking)
  | @unmatched front back heq hnested hclosed =>
    have hfound : Describes position opened (c :: rest)
        (.unmatched (position + byteSize (c :: front))) :=
      .unmatched (congrArg (c :: ·) heq) ((Text.nested_cons hopened).mpr hnested)
        ((hdepth front).trans hclosed)
    rwa [byteSize, ← Nat.add_assoc] at hfound

theorem describes_ofCharsFrom (position opened : Nat) (text : List Char) :
    Describes position opened text (ofCharsFrom position opened text) := by
  induction text generalizing position opened with
  | nil =>
    rw [ofCharsFrom]
    split
    · next hopened => exact .complete Text.nested_nil (by simp [hopened])
    · exact .incomplete Text.nested_nil (by omega) (by simp)
  | cons c rest ih =>
    unfold ofCharsFrom
    split
    · next hc =>
      subst hc
      exact (ih _ _).cons rfl
    split
    · next hc =>
      subst hc
      cases opened with
      | zero =>
        have hfound : Describes position 0 (')' :: rest) (.unmatched (position + byteSize [])) :=
          .unmatched rfl Text.nested_nil rfl
        exact hfound
      | succ opened => exact (ih _ _).cons (by rw [show depth [')'] = -1 from rfl]; omega)
    · next hopening hclosing =>
      have hzero : depth [c] = 0 :=
        Text.depth_eq_zero fun d hd => List.mem_singleton.mp hd ▸ ⟨hopening, hclosing⟩
      exact (ih _ _).cons (by rw [hzero]; omega)

theorem Describes.unique (h : Describes position opened text balance)
    (h' : Describes position opened text balance') : balance = balance' := by
  -- A text that is nested up to its end has no place where too much is closed.
  have hapart {front back : List Char} (hnested : Nested opened text)
      (heq : text = front ++ ')' :: back) (hclosed : opened + depth front = 0) : False := by
    have hle := hnested.length_le ⟨[], (List.append_nil text).trans heq⟩ hclosed
    rw [heq, List.length_append, List.length_cons] at hle
    omega
  cases h with
  | complete hnested hclosed =>
    cases h' with
    | complete => rfl
    | incomplete _ hpos hlacking => omega
    | unmatched heq _ hclosed' => exact (hapart hnested heq hclosed').elim
  | incomplete hnested hpos hlacking =>
    cases h' with
    | complete _ hclosed => omega
    | incomplete _ _ hlacking' => exact congrArg _ (by omega)
    | unmatched heq _ hclosed' => exact (hapart hnested heq hclosed').elim
  | @unmatched front back heq hnested hclosed =>
    cases h' with
    | complete hnested' => exact (hapart hnested' heq hclosed).elim
    | incomplete hnested' => exact (hapart hnested' heq hclosed).elim
    | @unmatched front' back' heq' hnested' hclosed' =>
      have hfront : front <+: text := heq ▸ List.prefix_append ..
      have hfront' : front' <+: text := heq' ▸ List.prefix_append ..
      have hle := hnested.length_le (heq' ▸ hfront) hclosed'
      have hle' := hnested'.length_le (heq ▸ hfront') hclosed
      rw [(List.prefix_of_prefix_length_le hfront hfront' hle).eq_of_length (by omega)]

theorem ofChars_eq_iff : ofChars text = balance ↔ Describes 0 0 text balance :=
  ⟨fun h => h ▸ describes_ofCharsFrom 0 0 text, fun h => (describes_ofCharsFrom 0 0 text).unique h⟩

theorem ofChars_eq_complete_iff :
    ofChars text = .complete ↔ Nested 0 text ∧ depth text = 0 := by
  rw [ofChars_eq_iff]
  constructor
  · rintro (⟨hnested, hclosed⟩ | - | -)
    exact ⟨hnested, by simpa using hclosed⟩
  · rintro ⟨hnested, hclosed⟩
    exact .complete hnested (by simpa using hclosed)

theorem ofChars_eq_incomplete_iff {lacking : Nat} :
    ofChars text = .incomplete lacking ↔ Nested 0 text ∧ 0 < lacking ∧ depth text = lacking := by
  rw [ofChars_eq_iff]
  constructor
  · rintro (- | ⟨hnested, hpos, hlacking⟩ | -)
    exact ⟨hnested, hpos, by simpa using hlacking⟩
  · rintro ⟨hnested, hpos, hlacking⟩
    exact .incomplete hnested hpos (by simpa using hlacking)

theorem ofChars_eq_unmatched_iff :
    ofChars text = .unmatched position ↔ ExceededAt text position := by
  rw [ofChars_eq_iff]
  constructor
  · rintro (- | - | ⟨heq, hnested, hclosed⟩)
    exact ⟨_, _, heq, hnested, by simpa using hclosed, Nat.zero_add _⟩
  · rintro ⟨front, back, heq, hnested, hclosed, rfl⟩
    rw [← Nat.zero_add (byteSize front)]
    exact .unmatched heq hnested (by simpa using hclosed)

theorem invalidReason?_eq_some_iff {reason : String} :
    balance.invalidReason? = some reason ↔
      ∃ position, balance = .unmatched position ∧ s!"unmatched ')' at {position}" = reason := by
  cases balance <;> simp [invalidReason?]

theorem ofChars_of_derives {tokens : List Token} {tree : SyntaxTree}
    (htokens : Text.tokens? text = some tokens)
    (h : SyntaxTree.Derives .conditional tokens tree []) : ofChars text = .complete := by
  obtain ⟨phrase, -, -, heq⟩ := h.covered
  rw [List.append_nil] at heq
  exact ofChars_eq_complete_iff.mpr (Text.nested_of_tokens? htokens (heq ▸ phrase.balanced_tokens))

/-- The balance of a formula is complete. It is complete for exactly the texts that are nested and
close all that they open, tells how many parentheses a nested text leaves open, and otherwise names
the byte of the first closing parenthesis that has none to match. -/
theorem ofChars_spec (text : List Char) :
    ((∃ program, Program.compile text = .ok program) ∨
        (∃ tree, SyntaxTree.parse text = .ok tree) → ofChars text = .complete) ∧
      (ofChars text = .complete ↔ Nested 0 text ∧ depth text = 0) ∧
      (∀ lacking, ofChars text = .incomplete lacking ↔
        Nested 0 text ∧ 0 < lacking ∧ depth text = lacking) ∧
      (∀ position, ofChars text = .unmatched position ↔ ExceededAt text position) ∧
      ∀ reason, (ofChars text).invalidReason? = some reason ↔
        ∃ position, ExceededAt text position ∧ s!"unmatched ')' at {position}" = reason := by
  refine ⟨?_, ofChars_eq_complete_iff, fun _ => ofChars_eq_incomplete_iff,
    fun _ => ofChars_eq_unmatched_iff, fun reason => ?_⟩
  · rintro (⟨program, hcompile⟩ | ⟨tree, hparse⟩)
    · obtain ⟨selection, hselection, -⟩ := compile_eq_ok hcompile
      obtain ⟨tokens, tree, htokens, hderives, -⟩ := Selection.derives_of_parse hselection
      exact ofChars_of_derives htokens hderives
    · obtain ⟨tokens, htokens, hderives⟩ := SyntaxTree.derives_of_parse hparse
      exact ofChars_of_derives htokens hderives
  · rw [invalidReason?_eq_some_iff]
    exact exists_congr fun _ => and_congr_left fun _ => ofChars_eq_unmatched_iff

/-- A formula in parentheses, and a text whose last byte closes what is not open. -/
theorem ofChars_spec_wide :
    (∃ tree, SyntaxTree.parse "((n + 1) % 10) ? 0 : (n)".toList = .ok tree) ∧
      ofChars "((n + 1) % 10) ? 0 : (n)".toList = .complete ∧
      ExceededAt "(é))".toList 4 ∧ ofChars "(é))".toList = .unmatched 4 := by
  have hexceeded : ofChars "(é))".toList = .unmatched 4 := by decide
  have hparse : SyntaxTree.parse "((n + 1) % 10) ? 0 : (n)".toList =
      .ok (.choose (.binary (.arith .mod) (.binary (.arith .add) .count (.literal 1)) (.literal 10))
        (.result (.literal 0)) (.result .count)) := by
    decide +kernel
  exact ⟨⟨_, hparse⟩, (ofChars_spec _).1 (.inr ⟨_, hparse⟩),
    ((ofChars_spec _).2.2.2.1 4).mp hexceeded, hexceeded⟩

end Balance

end PluralForms
