import PluralForms.SyntaxTree.Parser
import PluralForms.Proofs.Lexing

/-! The reader of syntax trees follows the grammar: the tokens of a text that it accepts have a
derivation of the tree. The reader stops before an operator that stands after a blank that is no
gap, and such a text is not accepted in the end; so each part is read as the grammar tells if the
text after it is settled. -/

namespace PluralForms.SyntaxTree

open Text (tokens?)

variable {table : List (String × BinaryOp)} {text rest : List Char} {op : BinaryOp} {k : Nat}
  {tokens : List Token} {tree : SyntaxTree}

/-! ### Gaps -/

theorem isBlank_of_isGap {c : Char} (h : isGap c = true) : Text.isBlank c = true := by
  simp only [isGap, Bool.or_eq_true, decide_eq_true_eq] at h
  rcases h with ((rfl | rfl) | rfl) | rfl <;> decide

theorem tokens?_skipGap (text : List Char) : tokens? (skipGap text) = tokens? text :=
  Text.tokens?_dropWhile (fun _ h => isBlank_of_isGap h) text

theorem tokens?_trimStart (text : List Char) : tokens? (Text.trimStart text) = tokens? text :=
  Text.tokens?_dropWhile (fun _ h => h) text

theorem length_skipGap_le (text : List Char) : (skipGap text).length ≤ text.length :=
  (List.dropWhile_suffix isGap).length_le

theorem length_trimStart_le (text : List Char) : (Text.trimStart text).length ≤ text.length :=
  (List.dropWhile_suffix Text.isBlank).length_le

/-- Behind the gap at the start of the text, no further blank stands before a token. -/
def Settled (text : List Char) : Prop := ∀ c ∈ (skipGap text).head?, Text.isBlank c = false

theorem settled_of_skipGap {c : Char} (h : skipGap text = c :: rest)
    (hc : Text.isBlank c = false) : Settled text := by
  rw [Settled, h]
  simpa using hc

/-! ### Operators -/

/-- A row of the precedence table has the operators of one level with their signs. -/
theorem mem_row (hk : precedence[k]? = some table) {sign : String} :
    (sign, op) ∈ table ↔ op.level = k ∧ sign = op.token.text := by
  constructor
  · intro h
    have hall : ∀ entry ∈ precedence.zipIdx, ∀ row ∈ entry.1,
        row.2.level = entry.2 ∧ row.1 = row.2.token.text := by decide
    exact hall (table, k) (List.mk_mem_zipIdx_iff_getElem?.mpr hk) (sign, op) h
  · rintro ⟨rfl, rfl⟩
    obtain rfl : table = precedence[op.level]?.getD [] := by rw [hk]; rfl
    rcases op with op | comparison | _ | _
    · cases op <;> decide
    · cases comparison <;> decide
    · decide
    · decide

theorem isPrefixOf_iff {sign : String} :
    sign.toList.isPrefixOf text = true ↔ text = sign.toList ++ text.drop sign.length := by
  rw [List.isPrefixOf_iff_prefix, List.prefix_iff_eq_append, String.length_toList]
  exact eq_comm

theorem operatorAt_eq_some (hk : precedence[k]? = some table)
    (h : operatorAt table text = some (op, rest)) :
    op.level = k ∧ text = op.token.text.toList ++ rest := by
  obtain ⟨⟨sign, op'⟩, hmem, hentry⟩ := List.exists_of_findSome?_eq_some h
  rw [Option.ite_none_right_eq_some] at hentry
  obtain ⟨hstarts, heq⟩ := hentry
  obtain ⟨rfl, rfl⟩ := Prod.mk.inj (Option.some.inj heq)
  obtain ⟨hlevel, rfl⟩ := (mem_row hk).mp hmem
  exact ⟨hlevel, isPrefixOf_iff.mp hstarts⟩

theorem length_of_operatorAt (hk : precedence[k]? = some table)
    (h : operatorAt table (skipGap text) = some (op, rest)) : rest.length < text.length := by
  obtain ⟨-, htext⟩ := operatorAt_eq_some hk h
  have hlength := congrArg List.length htext
  have hgap := length_skipGap_le text
  have hpos : 0 < op.token.text.toList.length := by
    rcases op with op | comparison | _ | _
    · cases op <;> decide
    · cases comparison <;> decide
    · decide
    · decide
  rw [List.length_append] at hlength
  omega

/-- Of two operators that start alike, the longer one is found where it stands. -/
theorem endsBefore_of_operatorAt (hk : precedence[k]? = some table)
    (h : operatorAt table text = some (op, rest)) : op.token.EndsBefore rest := by
  obtain ⟨hlevel, htext⟩ := operatorAt_eq_some hk h
  cases op with
  | compare comparison =>
    cases comparison with
    | lt | gt =>
      subst hlevel
      obtain rfl := Option.some.inj hk
      intro heq
      obtain ⟨tail, rfl⟩ := List.head?_eq_some_iff.mp heq
      subst htext
      simp [operatorAt, BinaryOp.token, Token.text, Comparison.symbol] at h
    | _ => trivial
  | _ => trivial

theorem operatorAt_ne_none (hk : precedence[k]? = some table) (hlevel : op.level = k)
    (h : op.token.text.toList <+: text) : operatorAt table text ≠ none := by
  intro hnone
  have hentry := List.findSome?_eq_none_iff.mp hnone _ ((mem_row hk).mpr ⟨hlevel, rfl⟩)
  simp [List.isPrefixOf_iff_prefix.mpr h] at hentry

theorem token_ne_integer (op : BinaryOp) (value : Int64) : op.token ≠ .integer value := by
  cases op <;> simp [BinaryOp.token]

theorem sign_ne_integer (op : UnaryOp) (value : Int64) : op.token ≠ .integer value := by
  cases op <;> simp [UnaryOp.token]

/-! ### Parts of a text -/

/-- The text is settled, and these are its tokens. -/
def Yields (text : List Char) (tokens : List Token) : Prop :=
  Settled text ∧ tokens? text = some tokens

/-- Behind a gap, a token that is no number leads to the tokens of the text after it. -/
theorem yields_of_token (token : Token) (hinteger : ∀ value, token ≠ .integer value)
    (htext : skipGap text = token.text.toList ++ rest) (hends : token.EndsBefore rest)
    (h : tokens? rest = some tokens) : Yields text (token :: tokens) := by
  constructor
  · cases token with
    | integer value => exact absurd rfl (hinteger value)
    | arith op => cases op <;> exact settled_of_skipGap htext (by decide)
    | compare comparison => cases comparison <;> exact settled_of_skipGap htext (by decide)
    | _ => exact settled_of_skipGap htext (by decide)
  · rw [← tokens?_skipGap, htext, Text.tokens?_text _ hinteger hends, h]
    rfl

/-- The first token of a settled text, if it is no number, stands behind the gap. -/
theorem prefix_of_yields (token : Token) (hinteger : ∀ value, token ≠ .integer value)
    (h : Yields text (token :: tokens)) : token.text.toList <+: skipGap text := by
  obtain ⟨hsettled, htokens⟩ := h
  rw [← tokens?_skipGap] at htokens
  obtain ⟨rest, htext, -⟩ := Text.text_of_tokens? hsettled htokens hinteger
  exact ⟨rest, htext.symm⟩

/-- Each part of a text that the reader reads before tokens derives them for the goal, and the
reader does not go back. -/
def Conforms (reader : Reader SyntaxTree) (goal : Goal) : Prop :=
  ∀ text tree rest, reader text = .ok (tree, rest) → rest.length ≤ text.length ∧
    ∀ tokens, Yields rest tokens → ∃ all, tokens? text = some all ∧ Derives goal all tree tokens

variable {inner next : Reader SyntaxTree}

theorem toExpr_eq_ok {start : List Char} {operand : Expr} (h : tree.toExpr start = .ok operand) :
    tree = .result operand := by
  cases tree with
  | result value => exact congrArg result (Except.ok.inj h)
  | choose _ _ _ => simp [toExpr] at h

theorem expect_eq_ok {mark : Char} (h : expect mark text = .ok rest) :
    ∃ after, skipGap text = mark :: after ∧ rest = skipGap after := by
  simp only [expect] at h
  split at h
  · next c after heq =>
    split at h
    · next hc => exact ⟨after, hc ▸ heq, (Except.ok.inj h).symm⟩
    · simp at h
  · simp at h

/-- A mark that is expected stands before the tokens that follow. -/
theorem yields_of_expect {mark : Char} (token : Token) (h : expect mark text = .ok rest)
    (htoken : token.text.toList = [mark]) (hinteger : ∀ value, token ≠ .integer value)
    (hends : ∀ after, token.EndsBefore after) :
    rest.length < text.length ∧ ∀ tokens, tokens? rest = some tokens →
      Yields text (token :: tokens) := by
  obtain ⟨after, htext, rfl⟩ := expect_eq_ok h
  have hle := length_skipGap_le text
  have hle' := length_skipGap_le after
  rw [htext, List.length_cons] at hle
  refine ⟨by omega, fun tokens htokens => ?_⟩
  rw [tokens?_skipGap] at htokens
  exact yields_of_token token hinteger (by rw [htext, htoken]; rfl) (hends after) htokens

/-! ### Primary expressions -/

/-- Where a name ends in a text with tokens, an identifier ends. -/
theorem isWordChar_of_tokens? {c : Char} (h : Yields (c :: rest) tokens)
    (hc : isNameChar c = false) : Lexed.isWordChar c = false := by
  rw [← Bool.not_eq_true]
  intro hword
  obtain ⟨hsettled, htokens⟩ := h
  -- The identifier goes on with a character past ASCII, which starts no token.
  have hlarge : ¬c.toNat < 128 := by
    intro hlt
    simp [isNameChar, Lexed.isWordChar, Text.isAlphanumeric, hlt] at hc hword
    simp [hc] at hword
  have hgap : isGap c ≠ true := by
    intro hgap
    simp only [isGap, Bool.or_eq_true, decide_eq_true_eq] at hgap
    rcases hgap with ((rfl | rfl) | rfl) | rfl <;> exact hlarge (by decide)
  have hblank : Text.isBlank c = false := by
    refine hsettled c ?_
    rw [skipGap, List.dropWhile_cons, if_neg hgap]
    rfl
  obtain ⟨token, more, others, hscan, -, -⟩ := Text.scan_of_tokens? hblank htokens
  exact Text.scan_ne_ok hlarge hscan

theorem tokens?_opening (text : List Char) :
    tokens? ('(' :: text) = (tokens? text).map (.opening :: ·) :=
  Text.tokens?_text .opening (fun _ => by simp) trivial

/-- The name of the count is a token of its own if it is read as the whole name. -/
theorem tokens?_count (hname : rest.takeWhile isNameChar = []) (h : Yields rest tokens) :
    tokens? ('n' :: rest) = some (.count :: tokens) := by
  have hends : Token.EndsBefore rest .count := by
    intro c hc
    obtain ⟨tail, rfl⟩ := List.head?_eq_some_iff.mp hc
    refine isWordChar_of_tokens? h ?_
    rw [List.takeWhile_cons] at hname
    split at hname
    · simp at hname
    · next hc => simpa using hc
  have hcount := Text.tokens?_text .count (fun _ => by simp) hends
  rw [h.2] at hcount
  exact hcount

theorem conforms_primary (h : Conforms inner .conditional) :
    Conforms (primary inner) (.level 0) := by
  intro text tree rest hread
  cases text with
  | nil => simp [primary] at hread
  | cons c tail =>
    simp only [primary] at hread
    split at hread
    · next hc =>
      subst hc
      simp only [bind_eq_ok_iff, Prod.exists] at hread
      obtain ⟨tree', after, hinner, rest', hexpect, heq⟩ := hread
      obtain ⟨rfl, rfl⟩ := Prod.mk.inj (Except.ok.inj heq)
      obtain ⟨hshort, hyields⟩ := yields_of_expect .closing hexpect rfl
        (fun _ => by simp) (fun _ => trivial)
      obtain ⟨hle, hderives⟩ := h _ _ _ hinner
      have hgap := length_skipGap_le tail
      refine ⟨by rw [List.length_cons]; omega, fun tokens htokens => ?_⟩
      obtain ⟨all, hall, hderives⟩ := hderives _ (hyields tokens htokens.2)
      rw [tokens?_skipGap] at hall
      refine ⟨.opening :: all, ?_, .parens hderives⟩
      rw [tokens?_opening, hall, Option.map_some]
    · split at hread
      · next hc hdigit =>
        split at hread
        · next value hvalue =>
          obtain ⟨rfl, rfl⟩ := Prod.mk.inj (Except.ok.inj hread)
          rw [List.takeWhile_cons, if_pos hdigit] at hvalue ⊢
          rw [List.length_cons, List.drop_succ_cons]
          refine ⟨by rw [List.length_drop, List.length_cons]; omega, fun tokens htokens =>
            ⟨.integer value :: tokens, ?_, .integer⟩⟩
          rw [Text.tokens?_number hdigit hvalue, htokens.2]
          rfl
        · simp at hread
      · split at hread
        · split at hread
          · next hname =>
            obtain ⟨rfl, rfl⟩ := Prod.mk.inj (Except.ok.inj hread)
            refine ⟨by simp, fun tokens htokens => ⟨.count :: tokens, ?_, .count⟩⟩
            rw [List.takeWhile_cons] at hname
            split at hname
            · obtain ⟨rfl, htail⟩ := List.cons.inj hname
              exact tokens?_count htail htokens
            · simp at hname
          · simp at hread
        · simp at hread

/-! ### Operators before an operand -/

theorem signAt_eq_some {op : UnaryOp} (h : signAt text = some (op, rest)) :
    text = op.token.text.toList ++ rest ∧ op.token.EndsBefore rest := by
  simp only [signAt] at h
  split at h
  · obtain ⟨rfl, rfl⟩ := Prod.mk.inj (Option.some.inj h)
    exact ⟨rfl, trivial⟩
  · simp at h
  · next tail hnot =>
    obtain ⟨rfl, rfl⟩ := Prod.mk.inj (Option.some.inj h)
    refine ⟨rfl, fun heq => ?_⟩
    obtain ⟨tail', rfl⟩ := List.head?_eq_some_iff.mp heq
    exact hnot tail' rfl
  · simp at h

theorem length_of_signAt {op : UnaryOp} (h : signAt (Text.trimStart text) = some (op, rest)) :
    (skipGap rest).length < text.length := by
  obtain ⟨htext, -⟩ := signAt_eq_some h
  have hlength := congrArg List.length htext
  have htrim := length_trimStart_le text
  have hgap := length_skipGap_le rest
  have hpos : 0 < op.token.text.toList.length := by cases op <;> decide
  rw [List.length_append] at hlength
  omega

theorem conforms_unary (h : Conforms inner .conditional) (fuel : Nat) :
    Conforms (unary inner fuel) (.level 0) := by
  induction fuel with
  | zero => intro text tree rest hread; simp [unary] at hread
  | succ fuel ih =>
    intro text tree rest hread
    have htrim := length_trimStart_le text
    simp only [unary] at hread
    split at hread
    · obtain ⟨hle, hderives⟩ := conforms_primary h _ _ _ hread
      refine ⟨by omega, fun tokens htokens => ?_⟩
      rw [← tokens?_trimStart text]
      exact hderives tokens htokens
    · next op after hsign =>
      obtain ⟨htext, hends⟩ := signAt_eq_some hsign
      simp only [bind_eq_ok_iff, Prod.exists] at hread
      obtain ⟨tree', rest', hunary, operand, hoperand, heq⟩ := hread
      obtain ⟨rfl, rfl⟩ := Prod.mk.inj (Except.ok.inj heq)
      obtain rfl := toExpr_eq_ok hoperand
      obtain ⟨hle, hderives⟩ := ih _ _ _ hunary
      have hshort := length_of_signAt hsign
      refine ⟨by omega, fun tokens htokens => ?_⟩
      obtain ⟨all, hall, hderives⟩ := hderives tokens htokens
      refine ⟨op.token :: all, ?_, .unary rfl hderives⟩
      rw [tokens?_skipGap] at hall
      rw [← tokens?_trimStart, htext, Text.tokens?_text _ (sign_ne_integer op) hends,
        hall]
      rfl

/-! ### Operators between operands -/

theorem operation_eq_ok {start : List Char} {left : SyntaxTree}
    (h : operation table next start left text = .ok (some (tree, rest))) :
    ∃ op after first second, operatorAt table (skipGap text) = some (op, after) ∧
      left = .result first ∧ next (skipGap after) = .ok (.result second, rest) ∧
      ¬op.DividesByZero second ∧ tree = .result (.binary op first second) := by
  simp only [operation] at h
  split at h
  · simp at h
  · next op after hop =>
    simp only [bind_eq_ok_iff, Prod.exists] at h
    obtain ⟨first, hfirst, right, rest', hnext, second, hsecond, hif⟩ := h
    obtain rfl := toExpr_eq_ok hfirst
    obtain rfl := toExpr_eq_ok hsecond
    split at hif
    · simp [bind, Except.bind] at hif
    · next hzero =>
      obtain ⟨rfl, rfl⟩ := Prod.mk.inj (Option.some.inj (Except.ok.inj hif))
      refine ⟨op, after, first, second, hop, rfl, hnext, ?_, rfl⟩
      simpa [BinaryOp.DividesByZero] using hzero

theorem operation_eq_ok_none {start : List Char} {left : SyntaxTree}
    (h : operation table next start left text = .ok none) :
    operatorAt table (skipGap text) = none := by
  simp only [operation] at h
  split at h
  · assumption
  · simp only [bind_eq_ok_iff, Prod.exists] at h
    obtain ⟨_, _, _, _, _, _, _, hif⟩ := h
    split at hif
    · simp [bind, Except.bind] at hif
    · exact absurd (Except.ok.inj hif) (by simp)

theorem conforms_repeated {start : List Char} (hk : precedence[k]? = some table)
    (h : Conforms next (.level k)) {fuel : Nat} {left : SyntaxTree} (hfuel : text.length ≤ fuel)
    (hread : repeated (operation table next start) fuel left text = .ok (tree, rest)) :
    rest.length ≤ text.length ∧ ∀ tokens, Yields rest tokens →
      ∃ all, Yields text all ∧ Derives (.more k left) all tree tokens := by
  induction fuel generalizing text left with
  | zero =>
    obtain ⟨rfl, rfl⟩ := Prod.mk.inj (Except.ok.inj hread)
    obtain rfl := List.length_eq_zero_iff.mp (Nat.le_zero.mp hfuel)
    refine ⟨Nat.le_refl _, fun tokens htokens => ⟨tokens, htokens, .stop fun op _ => ?_⟩⟩
    obtain rfl := Option.some.inj htokens.2
    simp
  | succ fuel ih =>
    simp only [repeated, bind_eq_ok_iff] at hread
    obtain ⟨found, hstep, hread⟩ := hread
    cases found with
    | none =>
      obtain ⟨rfl, rfl⟩ := Prod.mk.inj (Except.ok.inj hread)
      refine ⟨Nat.le_refl _, fun tokens htokens =>
        ⟨tokens, htokens, .stop fun op hlevel hhead => ?_⟩⟩
      obtain ⟨others, rfl⟩ := List.head?_eq_some_iff.mp hhead
      exact operatorAt_ne_none hk hlevel (prefix_of_yields op.token (token_ne_integer op) htokens)
        (operation_eq_ok_none hstep)
    | some found =>
      obtain ⟨more, after⟩ := found
      obtain ⟨op, afterOp, first, second, hop, rfl, hnext, hzero, rfl⟩ := operation_eq_ok hstep
      obtain ⟨hlevel, htext⟩ := operatorAt_eq_some hk hop
      have hends := endsBefore_of_operatorAt hk hop
      obtain ⟨hle, hderives⟩ := h _ _ _ hnext
      have hshort := length_of_operatorAt hk hop
      have hgap := length_skipGap_le afterOp
      have hless : after.length ≤ fuel := by omega
      obtain ⟨hle', hmore⟩ := ih hless hread
      refine ⟨by omega, fun tokens htokens => ?_⟩
      obtain ⟨rest', hrest, hmore⟩ := hmore tokens htokens
      obtain ⟨all, hall, hderives⟩ := hderives rest' hrest
      rw [tokens?_skipGap] at hall
      exact ⟨op.token :: all, yields_of_token op.token (token_ne_integer op) htext hends hall,
        .binary hlevel rfl hderives hzero hmore⟩

theorem conforms_joined (hk : precedence[k]? = some table) (h : Conforms next (.level k)) :
    Conforms (joined table next) (.level (k + 1)) := by
  intro text tree rest hread
  simp only [joined, bind_eq_ok_iff, Prod.exists] at hread
  obtain ⟨first, after, hnext, hread⟩ := hread
  obtain ⟨hle, hderives⟩ := h _ _ _ hnext
  obtain ⟨hle', hmore⟩ := conforms_repeated hk h (Nat.le_refl _) hread
  refine ⟨by omega, fun tokens htokens => ?_⟩
  obtain ⟨mid, hmid, hmore⟩ := hmore tokens htokens
  obtain ⟨all, hall, hderives⟩ := hderives mid hmid
  exact ⟨all, hall, .level hderives hmore⟩

/-- Operands joined by the operators of the first `k` rows. -/
def belowLevel (inner : Reader SyntaxTree) (k : Nat) : Reader SyntaxTree :=
  (precedence.take k).foldl (fun next table => joined table next)
    fun text => unary inner (text.length + 1) text

theorem belowLevel_succ (hk : precedence[k]? = some table) :
    belowLevel inner (k + 1) = joined table (belowLevel inner k) := by
  rw [belowLevel, List.take_add_one, hk, Option.toList_some, List.foldl_append]
  rfl

/-- What holds of operands without operators between them, and row by row of those with operators,
holds of all rows. -/
theorem operations_induction {P : Nat → Reader SyntaxTree → Prop}
    (hunary : P 0 fun text => unary inner (text.length + 1) text)
    (hjoined : ∀ k table next, precedence[k]? = some table → P k next →
      P (k + 1) (joined table next)) : P 6 (operations inner) := by
  have hbelow : ∀ k ≤ 6, P k (belowLevel inner k) := by
    intro k hk
    induction k with
    | zero => exact hunary
    | succ k ih =>
      have hrow : precedence[k]? = some precedence[k] := List.getElem?_eq_getElem hk
      rw [belowLevel_succ hrow]
      exact hjoined k _ _ hrow (ih (Nat.le_of_succ_le hk))
  exact hbelow 6 (Nat.le_refl 6)

theorem conforms_operations (h : Conforms inner .conditional) :
    Conforms (operations inner) (.level 6) :=
  operations_induction (P := fun k reader => Conforms reader (.level k))
    (fun text => conforms_unary h (text.length + 1) text) fun _ _ _ => conforms_joined

/-! ### Choices -/

theorem conforms_conditional (depth : Nat) : Conforms (conditional depth) .conditional := by
  induction depth with
  | zero => intro text tree rest hread; simp [conditional] at hread
  | succ depth ih =>
    intro text tree rest hread
    simp only [conditional, bind_eq_ok_iff, Prod.exists] at hread
    obtain ⟨head, mid, hhead, hread⟩ := hread
    obtain ⟨hle, hderives⟩ := conforms_operations ih _ _ _ hhead
    split at hread
    · next after hquestion =>
      simp only [bind_eq_ok_iff, Prod.exists] at hread
      obtain ⟨condition, hcondition, yes, last, hyes, after', hexpect, no, rest', hno, heq⟩ := hread
      obtain ⟨rfl, rfl⟩ := Prod.mk.inj (Except.ok.inj heq)
      obtain rfl := toExpr_eq_ok hcondition
      obtain ⟨hleYes, hderivesYes⟩ := ih _ _ _ hyes
      obtain ⟨hleNo, hderivesNo⟩ := ih _ _ _ hno
      obtain ⟨hshort, hcolon⟩ := yields_of_expect .colon hexpect rfl
        (fun _ => by simp) (fun _ => trivial)
      have hgap := length_skipGap_le mid
      have hgap' := length_skipGap_le after
      rw [hquestion, List.length_cons] at hgap
      refine ⟨by omega, fun tokens htokens => ?_⟩
      obtain ⟨tokensNo, hallNo, hderivesNo⟩ := hderivesNo tokens htokens
      obtain ⟨tokensYes, hallYes, hderivesYes⟩ := hderivesYes _ (hcolon tokensNo hallNo)
      rw [tokens?_skipGap] at hallYes
      have hmark := yields_of_token .question (fun _ => by simp) hquestion trivial hallYes
      obtain ⟨all, hall, hderives⟩ := hderives _ hmark
      exact ⟨all, hall, .choose hderives hderivesYes hderivesNo⟩
    · next hquestion =>
      obtain ⟨rfl, rfl⟩ := Prod.mk.inj (Except.ok.inj hread)
      refine ⟨hle, fun tokens htokens => ?_⟩
      obtain ⟨all, hall, hderives⟩ := hderives tokens htokens
      refine ⟨all, hall, .plain hderives fun hmark => ?_⟩
      obtain ⟨others, rfl⟩ := List.head?_eq_some_iff.mp hmark
      obtain ⟨after, hafter⟩ := prefix_of_yields .question (fun _ => by simp) htokens
      exact hquestion after hafter.symm

/-- The tokens of a text that is accepted derive its tree. -/
theorem derives_of_parse (h : parse text = .ok tree) :
    ∃ tokens, tokens? text = some tokens ∧ Derives .conditional tokens tree [] := by
  simp only [parse] at h
  split at h
  · simp at h
  · split at h
    · simp at h
    · next tree' rest hread =>
      split at h
      · next hend =>
        obtain rfl := Except.ok.inj h
        obtain ⟨-, hderives⟩ := conforms_conditional _ _ _ _ hread
        exact hderives [] ⟨by simp [Settled, hend], by rw [← tokens?_skipGap, hend]; rfl⟩
      · simp at h

end PluralForms.SyntaxTree
