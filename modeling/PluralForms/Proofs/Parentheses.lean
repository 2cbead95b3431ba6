import PluralForms.Proofs.Blanks

/-! Parentheses in texts and among tokens. Of a header's expression exactly those around all of it
are dropped of which the first matches the last, and the tokens of what is left are those of the
expression without the two. -/

namespace PluralForms

/-! ### Matching parentheses -/

namespace Text

/-- How many more parentheses are opened in the text than closed. -/
def depth (text : List Char) : Int := text.count '(' - text.count ')'

/-- The opening parenthesis at `i` matches the closing one at `j`: all places between them are
deeper than the one before `i`, and the one behind `j` is just as deep. -/
structure Matching (text : List Char) (i j : Nat) : Prop where
  opening : text[i]? = some '('
  closing : text[j]? = some ')'
  inside : ∀ k, i < k → k ≤ j → depth (text.take i) < depth (text.take k)
  closed : depth (text.take (j + 1)) = depth (text.take i)

variable {text rest : List Char} {c : Char}

@[simp] theorem depth_nil : depth [] = 0 := rfl

theorem depth_cons (c : Char) (text : List Char) : depth (c :: text) = depth [c] + depth text := by
  simp only [depth, List.count_cons, List.count_nil, Nat.zero_add]
  omega

theorem depth_append (text rest : List Char) : depth (text ++ rest) = depth text + depth rest := by
  simp only [depth, List.count_append]
  omega

/-- A text with a character in front never closes more than is open if what follows the character
never does. -/
theorem nonneg_cons_iff (unclosed : Nat) (c : Char) (rest : List Char) :
    (∀ k, 0 ≤ unclosed + depth ((c :: rest).take k)) ↔
      ∀ k, 0 ≤ unclosed + depth [c] + depth (rest.take k) := by
  refine ⟨fun h k => ?_, fun h k => ?_⟩
  · have hk := h (k + 1)
    rw [List.take_succ_cons, depth_cons] at hk
    omega
  · cases k with
    | zero => simp
    | succ k =>
      have hk := h k
      rw [List.take_succ_cons, depth_cons]
      omega

theorem depth_eq_zero (h : ∀ c ∈ text, c ≠ '(' ∧ c ≠ ')') : depth text = 0 := by
  have hopening : text.count '(' = 0 := List.count_eq_zero.mpr fun hmem => (h _ hmem).1 rfl
  have hclosing : text.count ')' = 0 := List.count_eq_zero.mpr fun hmem => (h _ hmem).2 rfl
  rw [depth, hopening, hclosing]
  rfl

end Text

namespace Header

open Text (depth depth_cons depth_append Matching)

variable {expression inner : List Char}

/-- No more parentheses are closed than opened before, where `unclosed` are open at the start, and
all are closed in the end. -/
theorem isBalanced_iff (unclosed : Nat) (text : List Char) :
    isBalanced unclosed text = true ↔
      (∀ k, 0 ≤ unclosed + depth (text.take k)) ∧ unclosed + depth text = 0 := by
  induction text generalizing unclosed with
  | nil => simp [isBalanced]
  | cons c rest ih =>
    rw [Text.nonneg_cons_iff, depth_cons c rest, ← Int.add_assoc]
    unfold isBalanced
    split
    · next hc =>
      subst hc
      rw [ih, show depth ['('] = 1 from rfl]
      rfl
    split
    · next hc =>
      subst hc
      rw [show depth [')'] = -1 from rfl]
      cases unclosed with
      | zero =>
        refine ⟨nofun, fun h => ?_⟩
        have hzero := h.1 0
        simp at hzero
      | succ unclosed =>
        have heq : ((unclosed + 1 : Nat) : Int) + -1 = unclosed := by omega
        simp only [ih, heq]
    · next hopening hclosing =>
      have hzero : depth [c] = 0 :=
        Text.depth_eq_zero fun d hd => List.mem_singleton.mp hd ▸ ⟨hopening, hclosing⟩
      rw [ih, hzero, Int.add_zero]

/-- In parentheses, an expression is balanced exactly if the two match. -/
theorem isBalanced_iff_matching (inner : List Char) :
    isBalanced 0 inner = true ↔ Matching ('(' :: (inner ++ [')'])) 0 (inner.length + 1) := by
  have hwhole : depth ('(' :: (inner ++ [')'])) = depth inner := by
    rw [depth_cons, depth_append, show depth ['('] = 1 from rfl, show depth [')'] = -1 from rfl]
    omega
  have htake (k : Nat) (hk : k ≤ inner.length) :
      depth (('(' :: (inner ++ [')'])).take (k + 1)) = 1 + depth (inner.take k) := by
    rw [List.take_succ_cons, List.take_append_of_le_length hk, depth_cons]
    rfl
  have hall : ('(' :: (inner ++ [')'])).take (inner.length + 1 + 1) = '(' :: (inner ++ [')']) :=
    List.take_of_length_le (by simp)
  rw [isBalanced_iff]
  constructor
  · rintro ⟨hnonneg, htotal⟩
    refine ⟨rfl, by simp, fun k hpos hk => ?_, ?_⟩
    · obtain ⟨k, rfl⟩ : ∃ m, k = m + 1 := ⟨k - 1, by omega⟩
      have := hnonneg k
      rw [htake k (by omega), List.take_zero, Text.depth_nil]
      omega
    · rw [hall, hwhole, List.take_zero, Text.depth_nil]
      simpa using htotal
  · rintro ⟨-, -, hinside, hclosed⟩
    rw [hall, hwhole, List.take_zero, Text.depth_nil] at hclosed
    refine ⟨fun k => ?_, by simpa using hclosed⟩
    have hle : min k inner.length ≤ inner.length := Nat.min_le_right ..
    have hdeep := hinside (min k inner.length + 1) (Nat.succ_pos _) (by omega)
    rw [htake _ hle, List.take_zero, Text.depth_nil, ← List.take_take, List.take_length] at hdeep
    omega

/-- The expression is another one in parentheses, of which the first matches the last. -/
def Encloses (expression inner : List Char) : Prop :=
  expression = '(' :: (inner ++ [')']) ∧ Matching expression 0 (expression.length - 1)

theorem encloses_iff :
    Encloses expression inner ↔
      expression = '(' :: (inner ++ [')']) ∧ isBalanced 0 inner = true := by
  rw [Encloses, isBalanced_iff_matching]
  refine and_congr_right fun heq => ?_
  subst heq
  simp

theorem stripParens_of_encloses (h : Encloses expression inner) :
    stripParens expression = inner := by
  obtain ⟨rfl, hbalanced⟩ := encloses_iff.mp h
  simp [stripParens, hbalanced]

theorem stripParens_ne_iff : stripParens expression ≠ expression ↔
    ∃ inner, Encloses expression inner := by
  constructor
  · intro hne
    simp only [stripParens] at hne
    split at hne
    · next rest =>
      split at hne
      · next hpair =>
        have ⟨hlast, hbalanced⟩ :
            rest.getLast? = some ')' ∧ isBalanced 0 rest.dropLast = true := by
          simpa using hpair
        refine ⟨rest.dropLast, encloses_iff.mpr ⟨?_, hbalanced⟩⟩
        rw [List.dropLast_append_getLast? ')' hlast]
      · exact absurd rfl hne
    · exact absurd rfl hne
  · rintro ⟨inner, h⟩ heq
    rw [stripParens_of_encloses h] at heq
    have hlength := congrArg List.length (heq.trans h.1)
    simp at hlength
    omega

end Header

/-! ### Tokens -/

/-- How many more parentheses the tokens open than close. -/
def Token.depth (tokens : List Token) : Int := tokens.count .opening - tokens.count .closing

namespace Token

theorem depth_cons (token : Token) (tokens : List Token) :
    depth (token :: tokens) = depth [token] + depth tokens := by
  simp only [depth, List.count_cons, List.count_nil, Nat.zero_add]
  omega

theorem depth_append (tokens rest : List Token) :
    depth (tokens ++ rest) = depth tokens + depth rest := by
  simp only [depth, List.count_append]
  omega

/-- No part at the start of the tokens closes more parentheses than it opens. -/
def Nested (tokens : List Token) : Prop := ∀ front back, tokens = front ++ back → 0 ≤ depth front

/-- The tokens close all parentheses that they open, each behind its own. -/
structure Balanced (tokens : List Token) : Prop where
  nested : Nested tokens
  depth_eq : depth tokens = 0

theorem Balanced.append {tokens rest : List Token} (h : Balanced tokens) (hrest : Balanced rest) :
    Balanced (tokens ++ rest) where
  nested := by
    intro front back heq
    rcases List.append_eq_append_iff.mp heq with ⟨more, rfl, hback⟩ | ⟨more, hfront, -⟩
    · rw [depth_append, h.depth_eq, Int.zero_add]
      exact hrest.nested more back hback
    · exact h.nested front more hfront
  depth_eq := by
    rw [depth_append, h.depth_eq, hrest.depth_eq]
    rfl

theorem Balanced.cons {token : Token} {tokens : List Token} (htoken : depth [token] = 0)
    (h : Balanced tokens) : Balanced (token :: tokens) := by
  have hnested : Nested [token] := by
    intro front back heq
    rcases List.append_eq_singleton_iff.mp heq.symm with ⟨rfl, -⟩ | ⟨rfl, -⟩
    · exact Int.le_refl 0
    · exact Int.le_of_eq htoken.symm
  exact Balanced.append ⟨hnested, htoken⟩ h

theorem balanced_nil : Balanced [] where
  nested front back heq := by
    obtain ⟨rfl, -⟩ := List.append_eq_nil_iff.mp heq.symm
    exact Int.le_refl 0
  depth_eq := rfl

theorem Balanced.enclosed {tokens : List Token} (h : Balanced tokens) :
    Balanced (.opening :: (tokens ++ [.closing])) where
  nested := by
    intro front back heq
    cases front with
    | nil => exact Int.le_refl 0
    | cons first front =>
      obtain ⟨rfl, hrest⟩ := List.cons.inj heq
      rw [depth_cons, show depth [.opening] = 1 from rfl]
      rcases List.append_eq_append_iff.mp hrest with ⟨more, rfl, hmore⟩ | ⟨more, hfront, -⟩
      · rw [depth_append, h.depth_eq]
        rcases List.append_eq_singleton_iff.mp hmore.symm with ⟨rfl, -⟩ | ⟨rfl, -⟩ <;> decide
      · have := h.nested front more hfront
        omega
  depth_eq := by
    rw [depth_cons, depth_append, h.depth_eq]
    rfl

/-- Where a part closes what it opens and more follows, a parenthesis at the start is closed before
one at the end. -/
theorem not_nested {part more tokens : List Token} (hdepth : depth part = 0) (hpart : part ≠ [])
    (hmore : more ≠ []) (h : part ++ more = .opening :: (tokens ++ [.closing])) :
    ¬Nested tokens := by
  intro hnested
  obtain ⟨first, front, rfl⟩ := List.exists_cons_of_ne_nil hpart
  obtain ⟨rfl, hrest⟩ := List.cons.inj h
  obtain ⟨back, last, rfl⟩ := (List.eq_nil_or_concat more).resolve_left hmore
  replace hrest : front ++ back ++ [last] = tokens ++ [.closing] := by
    rw [← hrest, List.append_assoc, ← List.concat_eq_append]
    rfl
  have hfront := hnested front back (List.append_inj' hrest rfl).1.symm
  rw [depth_cons, show depth [.opening] = 1 from rfl] at hdepth
  omega

end Token

namespace Text

open Lexed (scan isWordChar)

variable {token : Token} {more : Nat} {tokens front back : List Token} {text rest : List Char}
  {c : Char}

theorem length_of_scan (h : scan c rest = .ok (token, more)) : more ≤ rest.length := by
  simp only [scan] at h
  split at h
  · split at h
    · obtain ⟨-, rfl⟩ := Prod.mk.inj (Except.ok.inj h)
      exact (List.takeWhile_prefix _).length_le
    · simp at h
  · split at h
    · split at h
      · obtain ⟨-, rfl⟩ := Prod.mk.inj (Except.ok.inj h)
        exact Nat.zero_le _
      · simp at h
    · split at h
      all_goals first
        | (obtain ⟨-, rfl⟩ := Prod.mk.inj (Except.ok.inj h); exact Nat.zero_le _)
        | (rcases pair_eq_ok h with ⟨-, rfl, hrest⟩ | ⟨-, rfl⟩
           · obtain ⟨others, rfl⟩ := List.head?_eq_some_iff.mp hrest
             exact Nat.succ_le_succ (Nat.zero_le _)
           · exact Nat.zero_le _)
        | simp at h

theorem takeWhile_closing {p : Char → Bool} (hp : p ')' = false) (text : List Char) :
    (text ++ [')']).takeWhile p = text.takeWhile p := by
  induction text with
  | nil => simp [hp]
  | cons c rest ih => rw [List.cons_append, List.takeWhile_cons, List.takeWhile_cons, ih]

theorem pair_closing {second : Char} {double : Token} {single : Except ParseError.Cause Token}
    (hsecond : ')' ≠ second) (rest : List Char) :
    Lexed.pair second double single (rest ++ [')']) = Lexed.pair second double single rest := by
  cases rest with
  | nil => exact if_neg hsecond
  | cons => rfl

/-- No token goes on with a closing parenthesis. -/
theorem scan_closing (c : Char) (rest : List Char) : scan c (rest ++ [')']) = scan c rest := by
  have hdigits := takeWhile_closing (show Char.isDigit ')' = false by decide) rest
  have hword := takeWhile_closing (show isWordChar ')' = false by decide) rest
  simp only [scan, hdigits, hword]
  split
  · rfl
  split
  · rfl
  split <;> first | rfl | exact pair_closing (by decide) rest

theorem tokens?_of_scan_error {cause : ParseError.Cause} (hc : isBlank c = false)
    (h : scan c rest = .error cause) : tokens? (c :: rest) = none := by
  rw [tokens?, Lexed.ofChars, Lexed.ofCharsFrom, if_neg (by simp [hc]), h]
  rfl

theorem tokens?_closing (text : List Char) :
    tokens? (text ++ [')']) = (tokens? text).map (· ++ [.closing]) := by
  induction text using scan_induction with
  | nil => exact tokens?_text .closing nofun trivial
  | blank c rest hc ih => rw [List.cons_append, tokens?_blank hc, tokens?_blank hc, ih]
  | token c rest hc ih =>
    have hclosing := scan_closing c rest
    rw [List.cons_append]
    cases hscan : scan c rest with
    | error cause =>
      rw [tokens?_of_scan_error hc hscan, tokens?_of_scan_error hc (hclosing.trans hscan)]
      rfl
    | ok found =>
      obtain ⟨token, more⟩ := found
      rw [tokens?_of_scan more hc hscan, tokens?_of_scan more hc (hclosing.trans hscan),
        List.drop_append_of_le_length (length_of_scan hscan), ih token more hscan, Option.map_map,
        Option.map_map]
      rfl

theorem tokens?_enclosed (text : List Char) :
    tokens? ('(' :: (text ++ [')'])) =
      (tokens? text).map fun tokens => .opening :: (tokens ++ [.closing]) := by
  have hopening : tokens? ('(' :: (text ++ [')'])) =
      (tokens? (text ++ [')'])).map (.opening :: ·) := tokens?_text .opening nofun trivial
  rw [hopening, tokens?_closing, Option.map_map]
  rfl

/-- The characters of a token are as deep as the token. -/
theorem depth_of_scan (h : scan c rest = .ok (token, more)) :
    depth (c :: rest.take more) = Token.depth [token] := by
  rcases chars_of_scan h with ⟨⟨value, rfl⟩, hdigits⟩ | ⟨hinteger, htext⟩
  · refine depth_eq_zero fun d hd => ?_
    have hd := hdigits d hd
    constructor <;> rintro rfl <;> exact absurd hd (by decide)
  · rw [← htext]
    cases token with
    | integer value => exact absurd rfl (hinteger value)
    | arith op => cases op <;> decide
    | compare comparison => cases comparison <;> decide
    | _ => decide

/-- A token of several characters holds no parenthesis. -/
theorem ne_parenthesis_of_scan (h : scan c rest = .ok (token, more)) (hmore : 0 < more) :
    ∀ d ∈ c :: rest.take more, d ≠ '(' ∧ d ≠ ')' := by
  rcases chars_of_scan h with ⟨-, hdigits⟩ | ⟨hinteger, htext⟩
  · intro d hd
    have hd := hdigits d hd
    constructor <;> rintro rfl <;> exact absurd hd (by decide)
  · have hlength : 1 < token.text.toList.length := by
      rw [htext, List.length_cons, List.length_take_of_le (length_of_scan h)]
      omega
    have hall : (token.text.toList.all fun d => d != '(' && d != ')') = true := by
      revert hlength
      cases token with
      | integer value => exact absurd rfl (hinteger value)
      | arith op => cases op <;> decide
      | compare comparison => cases comparison <;> decide
      | _ => decide
    simpa [htext] using hall

theorem depth_of_isBlank (h : isBlank c = true) : depth [c] = 0 :=
  depth_eq_zero fun d hd => by
    obtain rfl := List.mem_singleton.mp hd
    constructor <;> rintro rfl <;> exact absurd h (by decide)

/-- Behind each token the text is as deep as the tokens up to there. -/
theorem exists_depth_eq (h : tokens? text = some (front ++ back)) :
    ∃ k, depth (text.take k) = Token.depth front := by
  induction text using scan_induction generalizing front with
  | nil =>
    obtain ⟨rfl, -⟩ := List.append_eq_nil_iff.mp (Option.some.inj h).symm
    exact ⟨0, rfl⟩
  | blank c rest hblank ih =>
    rw [tokens?_blank hblank] at h
    obtain ⟨k, hk⟩ := ih h
    refine ⟨k + 1, ?_⟩
    rw [List.take_succ_cons, depth_cons, depth_of_isBlank hblank, hk, Int.zero_add]
  | token c rest hblank ih =>
    cases front with
    | nil => exact ⟨0, rfl⟩
    | cons token front =>
      obtain ⟨token', more, others, hscan, heq, hothers⟩ := scan_of_tokens? hblank h
      obtain ⟨rfl, rfl⟩ := List.cons.inj heq
      obtain ⟨k, hk⟩ := ih token more hscan hothers
      refine ⟨more + k + 1, ?_⟩
      rw [List.take_succ_cons, List.take_add, ← List.cons_append, depth_append,
        depth_of_scan hscan, hk, ← Token.depth_cons]

theorem depth_of_tokens? (h : tokens? text = some tokens) : depth text = Token.depth tokens := by
  induction text using scan_induction generalizing tokens with
  | nil =>
    obtain rfl := Option.some.inj h
    rfl
  | blank c rest hblank ih =>
    rw [tokens?_blank hblank] at h
    rw [depth_cons, depth_of_isBlank hblank, ih h, Int.zero_add]
  | token c rest hblank ih =>
    obtain ⟨token, more, others, hscan, rfl, hothers⟩ := scan_of_tokens? hblank h
    rw [← List.take_append_drop more rest, ← List.cons_append, depth_append, depth_of_scan hscan,
      ih token more hscan hothers, ← Token.depth_cons]

/-- Every part at the start of a text is as deep as some of its first tokens. -/
theorem exists_depth_take (h : tokens? text = some tokens) (k : Nat) :
    ∃ front back, tokens = front ++ back ∧ depth (text.take k) = Token.depth front := by
  induction text using scan_induction generalizing tokens k with
  | nil => exact ⟨[], tokens, rfl, by rw [List.take_nil]; rfl⟩
  | blank c rest hblank ih =>
    rw [tokens?_blank hblank] at h
    cases k with
    | zero => exact ⟨[], tokens, rfl, rfl⟩
    | succ k =>
      obtain ⟨front, back, rfl, hdepth⟩ := ih h k
      refine ⟨front, back, rfl, ?_⟩
      rw [List.take_succ_cons, depth_cons, depth_of_isBlank hblank, hdepth, Int.zero_add]
  | token c rest hblank ih =>
    obtain ⟨token, more, others, hscan, rfl, hothers⟩ := scan_of_tokens? hblank h
    cases k with
    | zero => exact ⟨[], _, rfl, rfl⟩
    | succ k =>
      rw [List.take_succ_cons]
      rcases Nat.lt_or_ge k more with hinside | hbehind
      · -- Only a token of one character is a parenthesis, so the part of this one is none.
        refine ⟨[], _, rfl, depth_eq_zero fun d hd => ?_⟩
        have hpart : c :: rest.take k <+: c :: rest.take more :=
          List.prefix_cons_inj c |>.mpr (List.take_prefix_take_left (by omega))
        exact ne_parenthesis_of_scan hscan (by omega) d (hpart.subset hd)
      · obtain ⟨front, back, rfl, hdepth⟩ := ih token more hscan hothers (k - more)
        refine ⟨token :: front, back, rfl, ?_⟩
        rw [show k = more + (k - more) by omega, List.take_add, ← List.cons_append, depth_append,
          depth_of_scan hscan, hdepth, ← Token.depth_cons]

end Text

end PluralForms
