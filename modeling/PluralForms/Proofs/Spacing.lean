import Mathlib.Data.List.TakeWhile
import PluralForms.Proofs.TreeReader

/-! Where blanks may stand for the reader of syntax trees. Before an operand it skips each blank,
and behind one only those of a gap, so it accepts no text in which another blank stands behind an
operand. -/

namespace PluralForms

/-- An operand may end with the token. -/
def Token.endsOperand : Token → Bool
  | .count | .integer _ | .closing => true
  | _ => false

theorem BinaryOp.endsOperand_token (op : BinaryOp) : op.token.endsOperand = false := by
  cases op <;> rfl

theorem UnaryOp.endsOperand_token (op : UnaryOp) : op.token.endsOperand = false := by
  cases op <;> rfl

namespace SyntaxTree

/-- The text behind the character stands behind an operand. -/
def endsOperand (c : Char) : Bool := c = 'n' || c.isDigit || c = ')'

/-- Behind an operand no blanks stand but those of gaps; `behind` tells whether the text itself
stands there. -/
def spaced (behind : Bool) : List Char → Bool
  | [] => true
  | c :: rest =>
    if Text.isBlank c then (isGap c || !behind) && spaced behind rest
    else spaced (endsOperand c) rest

variable {text rest : List Char} {c : Char} {behind : Bool}

/-! ### Characters and tokens -/

theorem spaced_blank (h : Text.isBlank c = true) :
    spaced behind (c :: rest) = ((isGap c || !behind) && spaced behind rest) := by
  rw [spaced, if_pos h]

theorem spaced_cons (h : Text.isBlank c = false) :
    spaced behind (c :: rest) = spaced (endsOperand c) rest := by
  rw [spaced, if_neg (by simp [h])]

theorem spaced_skipGap (text : List Char) : spaced behind (skipGap text) = spaced behind text := by
  induction text with
  | nil => rfl
  | cons c rest ih =>
    rw [skipGap, List.dropWhile_cons]
    split
    · next hgap =>
      rw [spaced_blank (isBlank_of_isGap hgap), hgap, Bool.true_or, Bool.true_and]
      exact ih
    · rfl

theorem spaced_trimStart (text : List Char) :
    spaced false (Text.trimStart text) = spaced false text := by
  induction text with
  | nil => rfl
  | cons c rest ih =>
    rw [Text.trimStart, List.dropWhile_cons]
    split
    · next hblank =>
      rw [spaced_blank hblank, Bool.not_false, Bool.or_true, Bool.true_and]
      exact ih
    · rfl

theorem eq_false_of_head?_dropWhile (p : Char → Bool) (text : List Char) :
    ∀ c ∈ (text.dropWhile p).head?, p c = false := by
  intro c hc
  have hnot := List.head?_dropWhile_not p text
  rwa [hc] at hnot

theorem settled_of_spaced (h : spaced true text = true) : Settled text := by
  intro c hc
  obtain ⟨rest, hrest⟩ := List.head?_eq_some_iff.mp hc
  have hgap : isGap c = false := eq_false_of_head?_dropWhile isGap text c hc
  rw [← spaced_skipGap, hrest] at h
  rw [← Bool.not_eq_true]
  intro hblank
  simp [spaced_blank hblank, hgap] at h

theorem spaced_text (token : Token) (hinteger : ∀ value, token ≠ .integer value) :
    spaced behind (token.text.toList ++ rest) = spaced token.endsOperand rest := by
  cases token with
  | integer value => exact absurd rfl (hinteger value)
  | arith op => cases op <;> rfl
  | compare comparison => cases comparison <;> rfl
  | _ => rfl

theorem spaced_digits (digits : List Char) (hdigits : ∀ c ∈ digits, c.isDigit = true) :
    spaced true (digits ++ rest) = spaced true rest := by
  induction digits with
  | nil => rfl
  | cons c digits ih =>
    have hdigit := hdigits c List.mem_cons_self
    have hends : endsOperand c = true := by simp [endsOperand, hdigit]
    rw [List.cons_append, spaced_cons (Text.isBlank_of_isDigit hdigit), hends]
    exact ih fun c hc => hdigits c (List.mem_cons_of_mem _ hc)

/-- Behind all digits of a number the text stands behind an operand. -/
theorem spaced_number (hdigit : c.isDigit = true) :
    spaced behind (c :: rest) =
      spaced true (rest.drop (rest.takeWhile Char.isDigit).length) := by
  have hends : endsOperand c = true := by simp [endsOperand, hdigit]
  have hrest : rest.takeWhile Char.isDigit ++
      rest.drop (rest.takeWhile Char.isDigit).length = rest :=
    List.prefix_iff_eq_append.mp (List.takeWhile_prefix _)
  calc spaced behind (c :: rest)
    _ = spaced true rest := by rw [spaced_cons (Text.isBlank_of_isDigit hdigit), hends]
    _ = spaced true (rest.takeWhile Char.isDigit ++
          rest.drop (rest.takeWhile Char.isDigit).length) := by rw [hrest]
    _ = _ := spaced_digits _ fun _ => List.mem_takeWhile_imp

/-! ### Readers -/

/-- What the reader passes over, it finds well spaced before what is well spaced behind it. -/
def Spaces (reader : Reader SyntaxTree) : Prop :=
  ∀ text tree rest, reader text = .ok (tree, rest) → spaced true rest = true →
    spaced false text = true

variable {inner next : Reader SyntaxTree} {table : List (String × BinaryOp)} {k : Nat}
  {tree : SyntaxTree}

theorem spaced_of_expect {mark : Char} (token : Token) (h : expect mark text = .ok rest)
    (htoken : token.text.toList = [mark]) (hinteger : ∀ value, token ≠ .integer value)
    (hrest : spaced token.endsOperand rest = true) : spaced true text = true := by
  obtain ⟨after, htext, rfl⟩ := expect_eq_ok h
  rw [← spaced_skipGap, htext, ← List.singleton_append, ← htoken, spaced_text token hinteger,
    ← spaced_skipGap]
  exact hrest

theorem spaces_primary (h : Spaces inner) : Spaces (primary inner) := by
  intro text tree rest hread hrest
  cases text with
  | nil => simp [primary] at hread
  | cons c tail =>
    simp only [primary] at hread
    split at hread
    · next hc =>
      subst hc
      simp only [bind_eq_ok_iff, Prod.exists] at hread
      obtain ⟨tree', after, hinner, rest', hexpect, heq⟩ := hread
      obtain ⟨rfl, rfl⟩ := Prod.mk.inj (Except.ok.inj heq)
      have hafter := spaced_of_expect .closing hexpect rfl (fun _ => by simp) hrest
      have htail := h _ _ _ hinner hafter
      rw [spaced_skipGap] at htail
      exact (spaced_text .opening fun _ => by simp).trans htail
    · split at hread
      · next hdigit =>
        split at hread
        · obtain ⟨-, rfl⟩ := Prod.mk.inj (Except.ok.inj hread)
          rw [List.takeWhile_cons, if_pos hdigit, List.length_cons, List.drop_succ_cons] at hrest
          rw [spaced_number hdigit]
          exact hrest
        · simp at hread
      · split at hread
        · split at hread
          · next hname =>
            obtain ⟨-, rfl⟩ := Prod.mk.inj (Except.ok.inj hread)
            rw [List.takeWhile_cons] at hname
            split at hname
            · obtain ⟨rfl, -⟩ := List.cons.inj hname
              exact (spaced_text .count fun _ => by simp).trans hrest
            · simp at hname
          · simp at hread
        · simp at hread

theorem spaces_unary (h : Spaces inner) (fuel : Nat) : Spaces (unary inner fuel) := by
  induction fuel with
  | zero => intro text tree rest hread; simp [unary] at hread
  | succ fuel ih =>
    intro text tree rest hread hrest
    simp only [unary] at hread
    rw [← spaced_trimStart]
    split at hread
    · exact spaces_primary h _ _ _ hread hrest
    · next op after hsign =>
      obtain ⟨htext, -⟩ := signAt_eq_some hsign
      simp only [bind_eq_ok_iff, Prod.exists] at hread
      obtain ⟨tree', rest', hunary, operand, -, heq⟩ := hread
      obtain ⟨-, rfl⟩ := Prod.mk.inj (Except.ok.inj heq)
      rw [htext, spaced_text op.token (sign_ne_integer op), op.endsOperand_token,
        ← spaced_skipGap]
      exact ih _ _ _ hunary hrest

theorem spaced_of_operation {start : List Char} {left : SyntaxTree}
    (hk : precedence[k]? = some table) (h : Spaces next)
    (hread : operation table next start left text = .ok (some (tree, rest)))
    (hrest : spaced true rest = true) : spaced true text = true := by
  obtain ⟨op, after, first, second, hop, -, hnext, -, -⟩ := operation_eq_ok hread
  obtain ⟨-, htext⟩ := operatorAt_eq_some hk hop
  rw [← spaced_skipGap, htext, spaced_text op.token (token_ne_integer op), op.endsOperand_token,
    ← spaced_skipGap]
  exact h _ _ _ hnext hrest

theorem spaced_of_repeated {start : List Char} {left : SyntaxTree} {fuel : Nat}
    (hk : precedence[k]? = some table) (h : Spaces next)
    (hread : repeated (operation table next start) fuel left text = .ok (tree, rest))
    (hrest : spaced true rest = true) : spaced true text = true := by
  induction fuel generalizing text left with
  | zero =>
    obtain ⟨-, rfl⟩ := Prod.mk.inj (Except.ok.inj hread)
    exact hrest
  | succ fuel ih =>
    simp only [repeated, bind_eq_ok_iff] at hread
    obtain ⟨found, hstep, hread⟩ := hread
    cases found with
    | none =>
      obtain ⟨-, rfl⟩ := Prod.mk.inj (Except.ok.inj hread)
      exact hrest
    | some found => exact spaced_of_operation hk h hstep (ih hread)

theorem spaces_joined (hk : precedence[k]? = some table) (h : Spaces next) :
    Spaces (joined table next) := by
  intro text tree rest hread hrest
  simp only [joined, bind_eq_ok_iff, Prod.exists] at hread
  obtain ⟨first, after, hnext, hread⟩ := hread
  exact h _ _ _ hnext (spaced_of_repeated hk h hread hrest)

theorem spaces_operations (h : Spaces inner) : Spaces (operations inner) :=
  operations_induction (P := fun _ => Spaces)
    (fun text => spaces_unary h (text.length + 1) text) fun _ _ _ => spaces_joined

theorem spaces_conditional (depth : Nat) : Spaces (conditional depth) := by
  induction depth with
  | zero => intro text tree rest hread; simp [conditional] at hread
  | succ depth ih =>
    intro text tree rest hread hrest
    simp only [conditional, bind_eq_ok_iff, Prod.exists] at hread
    obtain ⟨head, mid, hhead, hread⟩ := hread
    refine spaces_operations ih _ _ _ hhead ?_
    split at hread
    · next after hquestion =>
      simp only [bind_eq_ok_iff, Prod.exists] at hread
      obtain ⟨condition, -, yes, last, hyes, after', hexpect, no, rest', hno, heq⟩ := hread
      obtain ⟨-, rfl⟩ := Prod.mk.inj (Except.ok.inj heq)
      have hlast := spaced_of_expect .colon hexpect rfl (fun _ => by simp) (ih _ _ _ hno hrest)
      rw [← spaced_skipGap, hquestion]
      refine (spaced_text .question fun _ => by simp).trans ?_
      rw [← spaced_skipGap]
      exact ih _ _ _ hyes hlast
    · obtain ⟨-, rfl⟩ := Prod.mk.inj (Except.ok.inj hread)
      exact hrest

/-- An accepted text is well spaced. -/
theorem spaced_of_parse (h : parse text = .ok tree) : spaced false text = true := by
  simp only [parse] at h
  split at h
  · simp at h
  · split at h
    · simp at h
    · next tree' rest hread =>
      split at h
      · next hend =>
        refine spaces_conditional _ _ _ _ hread ?_
        rw [← spaced_skipGap, hend]
        rfl
      · simp at h

end SyntaxTree

end PluralForms
