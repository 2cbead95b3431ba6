import PluralForms.Proofs.Blanks
import PluralForms.Proofs.FrontEnds
import PluralForms.Proofs.Spacing

/-! The reader of syntax trees accepts each well-spaced text whose tokens have a derivation, and
reads its tree. The induction follows the derivation; each part is read from a text with the tokens
of the part, and leaves one with the tokens that remain. Blanks are thus all that the reader of
selections accepts beyond it. -/

namespace PluralForms

namespace SyntaxTree

open Text (tokens?)

variable {text rest : List Char} {token : Token} {tokens mid others : List Token}
  {tree : SyntaxTree} {behind : Bool} {inner next : Reader SyntaxTree}
  {table : List (String × BinaryOp)} {k : Nat}

/-! ### Texts that spell tokens -/

/-- These are the tokens of the text, and the text is well spaced. -/
structure Spells (behind : Bool) (text : List Char) (tokens : List Token) : Prop where
  tokens_eq : tokens? text = some tokens
  spaced_eq : spaced behind text = true

theorem Spells.skipGap (h : Spells behind text tokens) : Spells behind (skipGap text) tokens where
  tokens_eq := (tokens?_skipGap text).trans h.tokens_eq
  spaced_eq := (spaced_skipGap text).trans h.spaced_eq

theorem Spells.trimStart (h : Spells false text tokens) :
    Spells false (Text.trimStart text) tokens where
  tokens_eq := (tokens?_trimStart text).trans h.tokens_eq
  spaced_eq := (spaced_trimStart text).trans h.spaced_eq

theorem Spells.uncons (h : Spells behind text (token :: tokens))
    (hhead : ∀ c ∈ text.head?, Text.isBlank c = false)
    (hinteger : ∀ value, token ≠ .integer value) :
    ∃ rest, text = token.text.toList ++ rest ∧ Spells token.endsOperand rest tokens := by
  obtain ⟨rest, rfl, hrest⟩ := Text.text_of_tokens? hhead h.tokens_eq hinteger
  refine ⟨rest, rfl, hrest, ?_⟩
  rw [← spaced_text token hinteger]
  exact h.spaced_eq

theorem isBlank_head_trimStart (text : List Char) :
    ∀ c ∈ (Text.trimStart text).head?, Text.isBlank c = false :=
  eq_false_of_head?_dropWhile Text.isBlank text

/-- Behind an operand a token stands after a gap. -/
theorem Spells.skipGap_uncons (h : Spells true text (token :: tokens))
    (hinteger : ∀ value, token ≠ .integer value) :
    ∃ rest, SyntaxTree.skipGap text = token.text.toList ++ rest ∧
      Spells token.endsOperand rest tokens :=
  h.skipGap.uncons (settled_of_spaced h.spaced_eq) hinteger

/-- Before an operand a token stands after any blanks. -/
theorem Spells.trimStart_uncons (h : Spells false text (token :: tokens))
    (hinteger : ∀ value, token ≠ .integer value) :
    ∃ rest, Text.trimStart text = token.text.toList ++ rest ∧
      Spells token.endsOperand rest tokens :=
  h.trimStart.uncons (isBlank_head_trimStart text) hinteger

theorem Spells.exists_scan (h : Spells false text (token :: tokens)) :
    ∃ c tail more, Text.trimStart text = c :: tail ∧ Lexed.scan c tail = .ok (token, more) ∧
      tokens? (tail.drop more) = some tokens ∧ spaced false (c :: tail) = true := by
  have htrim := h.trimStart
  have hhead := isBlank_head_trimStart text
  cases heq : Text.trimStart text with
  | nil =>
    rw [heq] at htrim
    simpa using htrim.tokens_eq
  | cons c tail =>
    rw [heq] at htrim hhead
    obtain ⟨token', more, others, hscan, htokens, hothers⟩ :=
      Text.scan_of_tokens? (hhead c rfl) htrim.tokens_eq
    obtain ⟨rfl, rfl⟩ := List.cons.inj htokens
    exact ⟨c, tail, more, rfl, hscan, hothers, htrim.spaced_eq⟩

/-- The attempt reads the tree from the text and stops behind an operand, where the tokens `rest`
are left. -/
def Reads (attempt : Except Fault (SyntaxTree × List Char)) (text : List Char) (tree : SyntaxTree)
    (rest : List Token) : Prop :=
  ∃ after, attempt = .ok (tree, after) ∧ after.length ≤ text.length ∧ Spells true after rest

theorem expect_of_spells (mark : Char) (token : Token) (htoken : token.text.toList = [mark])
    (hinteger : ∀ value, token ≠ .integer value) (h : Spells true text (token :: tokens)) :
    ∃ rest, expect mark text = .ok rest ∧ rest.length < text.length ∧
      Spells token.endsOperand rest tokens := by
  obtain ⟨rest, htext, hrest⟩ := h.skipGap_uncons hinteger
  rw [htoken, List.singleton_append] at htext
  refine ⟨skipGap rest, by simp only [expect, htext, if_true], ?_, hrest.skipGap⟩
  have hle := length_skipGap_le text
  have hle' := length_skipGap_le rest
  rw [htext, List.length_cons] at hle
  omega

/-! ### Operands -/

theorem signAt_of_isDigit {c : Char} (hc : c.isDigit = true) : signAt (c :: rest) = none := by
  simp only [signAt]
  split
  · next heq => obtain ⟨rfl, -⟩ := List.cons.inj heq; simp at hc
  · rfl
  · next heq => obtain ⟨rfl, -⟩ := List.cons.inj heq; simp at hc
  · rfl

theorem toNat_lt_of_isAlphanum {c : Char} (h : c.isAlphanum = true) : c.toNat < 128 := by
  have lt_of_le (last : Char) (hle : c.val ≤ last.val) (hlast : last.val.toNat < 128) :
      c.toNat < 128 := (UInt32.le_iff_toNat_le.mp hle).trans_lt hlast
  rcases Bool.or_eq_true_iff.mp h with hletter | hdigit
  · rcases Bool.or_eq_true_iff.mp hletter with hupper | hlower
    · exact lt_of_le 'Z' (of_decide_eq_true hupper).2 (by decide)
    · exact lt_of_le 'z' (of_decide_eq_true (Bool.and_eq_true_iff.mp hlower).2)
        (by decide)
  · exact lt_of_le '9' (of_decide_eq_true (Bool.and_eq_true_iff.mp hdigit).2) (by decide)

theorem isWordChar_of_isNameChar {c : Char} (h : isNameChar c = true) :
    Lexed.isWordChar c = true := by
  rcases Bool.or_eq_true_iff.mp h with halphanum | hunderscore
  · rw [Lexed.isWordChar, Text.isAlphanumeric, if_pos (toNat_lt_of_isAlphanum halphanum), halphanum,
      Bool.true_or]
  · rw [Lexed.isWordChar, hunderscore, Bool.or_true]

theorem reads_count (h : Spells false text (.count :: others)) :
    Reads (unary inner (text.length + 1) text) text (.result .count) others := by
  obtain ⟨c, tail, more, htrim, hscan, htokens, hspaced⟩ := h.exists_scan
  obtain ⟨rfl, rfl, hword⟩ := Text.count_of_scan hscan
  have hname : tail.takeWhile isNameChar = [] := by
    cases tail with
    | nil => rfl
    | cons c tail =>
      rw [List.takeWhile_cons] at hword ⊢
      split at hword
      · simp at hword
      · next hc => exact if_neg fun h => hc (isWordChar_of_isNameChar h)
  have hshort := length_trimStart_le text
  rw [htrim, List.length_cons] at hshort
  refine ⟨tail, ?_, by omega, htokens, ?_⟩
  · simp [unary, htrim, signAt, primary, hname, isNameChar]
  · exact (spaced_text .count fun _ => by simp).symm.trans hspaced

theorem reads_integer {value : Int64} (h : Spells false text (.integer value :: others)) :
    Reads (unary inner (text.length + 1) text) text (.result (.literal value)) others := by
  obtain ⟨c, tail, more, htrim, hscan, htokens, hspaced⟩ := h.exists_scan
  obtain ⟨hdigit, rfl, hvalue⟩ := Text.number_of_scan hscan
  have hopening : c ≠ '(' := by
    rintro rfl
    simp at hdigit
  have hshort := length_trimStart_le text
  rw [htrim, List.length_cons] at hshort
  refine ⟨tail.drop (tail.takeWhile Char.isDigit).length, ?_, ?_, htokens, ?_⟩
  · simp [unary, htrim, signAt_of_isDigit hdigit, primary, hopening, hdigit, hvalue]
  · rw [List.length_drop]
    omega
  · rw [← spaced_number hdigit]
    exact hspaced

theorem reads_parens {tail : List Char} (htrim : Text.trimStart text = '(' :: tail)
    (h : Reads (inner (skipGap tail)) (skipGap tail) tree (.closing :: others)) :
    Reads (unary inner (text.length + 1) text) text tree others := by
  obtain ⟨after, hinner, hle, hspells⟩ := h
  obtain ⟨rest, hexpect, hless, hrest⟩ :=
    expect_of_spells ')' .closing rfl (fun _ => by simp) hspells
  have hshort := length_trimStart_le text
  have hgap := length_skipGap_le tail
  rw [htrim, List.length_cons] at hshort
  refine ⟨rest, ?_, by omega, hrest⟩
  simp [unary, htrim, signAt, primary, hinner, hexpect, bind, Except.bind, pure, Except.pure]

/-- Unary operators are read alike whatever the bound, if it is past the length of the text. -/
theorem unary_eq_of_length_lt {fuel fuel' : Nat} (h : text.length < fuel)
    (h' : text.length < fuel') : unary inner fuel text = unary inner fuel' text := by
  induction fuel generalizing fuel' text with
  | zero => omega
  | succ fuel ih =>
    cases fuel' with
    | zero => omega
    | succ fuel' =>
      simp only [unary]
      split
      · rfl
      · next op rest hsign =>
        have hshort := length_of_signAt hsign
        rw [ih (show (skipGap rest).length < fuel by omega)
          (show (skipGap rest).length < fuel' by omega)]

theorem signAt_of_spells {op : UnaryOp} (h : Spells false text (op.token :: tokens)) :
    ∃ rest, signAt (Text.trimStart text) = some (op, rest) ∧ Spells false rest tokens := by
  obtain ⟨rest, htrim, hrest⟩ := h.trimStart_uncons (sign_ne_integer op)
  rw [op.endsOperand_token] at hrest
  refine ⟨rest, ?_, hrest⟩
  cases op with
  | neg =>
    rw [htrim]
    rfl
  | not =>
    -- With an equals sign behind it, the sign would be read as `!=`.
    have hends : ∀ tail, rest ≠ '=' :: tail := by
      rintro tail rfl
      have hne : tokens? ('!' :: '=' :: tail) = (tokens? tail).map (.compare .ne :: ·) :=
        Text.tokens?_text (.compare .ne) (fun _ => by simp) trivial
      have htokens := h.trimStart.tokens_eq
      rw [htrim] at htokens
      obtain ⟨_, -, heq⟩ := Option.map_eq_some_iff.mp (hne.symm.trans htokens)
      simp [UnaryOp.token] at heq
    rw [htrim]
    show signAt ('!' :: rest) = some (.not, rest)
    simp [signAt]

theorem reads_unary {op : UnaryOp} {operand : Expr}
    (h : Spells false text (op.token :: tokens))
    (hoperand : ∀ rest, rest.length < text.length → Spells false rest tokens →
      Reads (unary inner (rest.length + 1) rest) rest (.result operand) others) :
    Reads (unary inner (text.length + 1) text) text (.result (.ofUnary op operand)) others := by
  obtain ⟨rest, hsign, hrest⟩ := signAt_of_spells h
  have hshort := length_of_signAt hsign
  obtain ⟨after, hread, hle, hafter⟩ := hoperand _ hshort hrest.skipGap
  rw [unary_eq_of_length_lt (Nat.lt_succ_self _) hshort] at hread
  refine ⟨after, ?_, by omega, hafter⟩
  simp [unary, hsign, hread, toExpr, bind, Except.bind, pure, Except.pure]

/-! ### Operators between operands -/

/-- The reader finds the operator that is the next token. -/
theorem operatorAt_of_spells {op : BinaryOp} (hk : precedence[k]? = some table)
    (hlevel : op.level = k) (h : Spells true text (op.token :: tokens)) :
    ∃ rest, operatorAt table (skipGap text) = some (op, rest) ∧ rest.length < text.length ∧
      Spells false rest tokens := by
  have hprefix : op.token.text.toList <+: skipGap text :=
    prefix_of_yields op.token (token_ne_integer op) ⟨settled_of_spaced h.spaced_eq, h.tokens_eq⟩
  obtain ⟨⟨op', rest⟩, hop⟩ := Option.ne_none_iff_exists'.mp (operatorAt_ne_none hk hlevel hprefix)
  obtain ⟨-, htext⟩ := operatorAt_eq_some hk hop
  have htokens := h.skipGap.tokens_eq
  rw [htext, Text.tokens?_text op'.token (token_ne_integer op') (endsBefore_of_operatorAt hk hop),
    Option.map_eq_some_iff] at htokens
  obtain ⟨others, hothers, heq⟩ := htokens
  obtain ⟨htoken, rfl⟩ := List.cons.inj heq
  obtain rfl := BinaryOp.token_inj.mp htoken
  refine ⟨rest, hop, length_of_operatorAt hk hop, hothers, ?_⟩
  rw [← op'.endsOperand_token, ← spaced_text op'.token (token_ne_integer op'), ← htext]
  exact h.skipGap.spaced_eq

/-- Where no operator of the level is the next token, the reader finds none. -/
theorem operatorAt_eq_none (hk : precedence[k]? = some table) (h : tokens? text = some tokens)
    (hnone : ∀ op : BinaryOp, op.level = k → tokens.head? ≠ some op.token) :
    operatorAt table (skipGap text) = none := by
  cases hop : operatorAt table (skipGap text) with
  | none => rfl
  | some found =>
    obtain ⟨op, rest⟩ := found
    obtain ⟨hlevel, htext⟩ := operatorAt_eq_some hk hop
    have hends := endsBefore_of_operatorAt hk hop
    rw [← tokens?_skipGap, htext, Text.tokens?_text op.token (token_ne_integer op) hends,
      Option.map_eq_some_iff] at h
    obtain ⟨others, -, rfl⟩ := h
    exact absurd rfl (hnone op hlevel)

theorem operation_of_operatorAt {op : BinaryOp} {start after : List Char} {left right : Expr}
    (hop : operatorAt table (skipGap text) = some (op, rest))
    (hnext : next (skipGap rest) = .ok (.result right, after)) (hzero : ¬op.DividesByZero right) :
    operation table next start (.result left) text =
      .ok (some (.result (.binary op left right), after)) := by
  have hif : ((op = .arith .div || op = .arith .mod) && right = .literal 0 : Bool) = false := by
    simpa [BinaryOp.DividesByZero] using hzero
  simp [operation, hop, hnext, toExpr, hif, bind, Except.bind, pure, Except.pure]

theorem repeated_of_none {α : Type} {step : α → List Char → Except Fault (Option (α × List Char))}
    {soFar : α} (fuel : Nat) (h : step soFar text = .ok none) :
    repeated step fuel soFar text = .ok (soFar, text) := by
  cases fuel with
  | zero => rfl
  | succ fuel =>
    simp only [repeated, h]
    rfl

theorem repeated_of_some {α : Type} {step : α → List Char → Except Fault (Option (α × List Char))}
    {soFar more : α} (fuel : Nat) (h : step soFar text = .ok (some (more, rest))) :
    repeated step (fuel + 1) soFar text = repeated step fuel more rest := by
  simp only [repeated, h]
  rfl

theorem reads_stop {start : List Char} {fuel : Nat} (hk : precedence[k]? = some table)
    (hnone : ∀ op : BinaryOp, op.level = k → tokens.head? ≠ some op.token)
    (h : Spells true text tokens) :
    Reads (repeated (operation table next start) fuel tree text) text tree tokens := by
  have hstep : operation table next start tree text = .ok none := by
    simp only [operation, operatorAt_eq_none hk h.tokens_eq hnone]
  exact ⟨text, repeated_of_none fuel hstep, Nat.le_refl _, h⟩

theorem reads_binary {op : BinaryOp} {start : List Char} {left right : Expr} {fuel : Nat}
    (hk : precedence[k]? = some table) (hlevel : op.level = k) (hzero : ¬op.DividesByZero right)
    (hfuel : text.length ≤ fuel) (h : Spells true text (op.token :: tokens))
    (hright : ∀ rest, rest.length < text.length → Spells false rest tokens →
      Reads (next rest) rest (.result right) mid)
    (hmore : ∀ fuel rest, rest.length < text.length → rest.length ≤ fuel → Spells true rest mid →
      Reads (repeated (operation table next start) fuel (.result (.binary op left right)) rest) rest
        tree others) :
    Reads (repeated (operation table next start) fuel (.result left) text) text tree others := by
  obtain ⟨rest, hop, hshort, hrest⟩ := operatorAt_of_spells hk hlevel h
  have hgap := length_skipGap_le rest
  obtain ⟨after, hnext, hle, hafter⟩ := hright _ (by omega) hrest.skipGap
  have hstep : operation table next start (.result left) text =
      .ok (some (.result (.binary op left right), after)) :=
    operation_of_operatorAt hop hnext hzero
  cases fuel with
  | zero => omega
  | succ fuel =>
    obtain ⟨last, hread, hle', hlast⟩ := hmore fuel after (by omega) (by omega) hafter
    exact ⟨last, (repeated_of_some fuel hstep).trans hread, by omega, hlast⟩

theorem reads_joined {first : SyntaxTree} (hfirst : Reads (next text) text first mid)
    (hmore : ∀ rest, rest.length ≤ text.length → Spells true rest mid →
      Reads (repeated (operation table next text) rest.length first rest) rest tree others) :
    Reads (joined table next text) text tree others := by
  obtain ⟨rest, hnext, hle, hrest⟩ := hfirst
  obtain ⟨after, hread, hle', hafter⟩ := hmore rest hle hrest
  refine ⟨after, ?_, by omega, hafter⟩
  rw [joined, hnext]
  exact hread

/-! ### Choices -/

theorem reads_plain {depth : Nat} (hquestion : others.head? ≠ some .question)
    (h : Reads (operations (conditional depth) text) text tree others) :
    Reads (conditional (depth + 1) text) text tree others := by
  obtain ⟨after, hread, hle, hafter⟩ := h
  refine ⟨after, ?_, hle, hafter⟩
  have hmark : ∀ rest, skipGap after ≠ '?' :: rest := by
    intro rest hskip
    have htokens := hafter.skipGap.tokens_eq
    have hquestion' : tokens? ('?' :: rest) = (tokens? rest).map (.question :: ·) :=
      Text.tokens?_text .question (fun _ => by simp) trivial
    rw [hskip, hquestion', Option.map_eq_some_iff] at htokens
    obtain ⟨_, -, rfl⟩ := htokens
    exact hquestion rfl
  simp only [conditional, hread, bind, Except.bind]
  rfl

theorem reads_choose {depth : Nat} {condition : Expr} {yes no : SyntaxTree}
    {last : List Token}
    (hcondition : Reads (operations (conditional depth) text) text (.result condition)
      (.question :: mid))
    (hyes : ∀ rest, rest.length < text.length → Spells false rest mid →
      Reads (conditional depth rest) rest yes (.colon :: last))
    (hno : ∀ rest, rest.length < text.length → Spells false rest last →
      Reads (conditional depth rest) rest no others) :
    Reads (conditional (depth + 1) text) text (.choose condition yes no) others := by
  obtain ⟨after, hhead, hle, hafter⟩ := hcondition
  obtain ⟨rest, hskip, hrest⟩ := hafter.skipGap_uncons fun _ => by simp
  replace hskip : skipGap after = '?' :: rest := hskip
  have hgap := length_skipGap_le after
  have hgap' := length_skipGap_le rest
  rw [hskip, List.length_cons] at hgap
  obtain ⟨beforeColon, hyes, hle', hcolon⟩ := hyes _ (by omega) hrest.skipGap
  obtain ⟨behindColon, hexpect, hless, hlast⟩ :=
    expect_of_spells ':' .colon rfl (fun _ => by simp) hcolon
  obtain ⟨final, hno, hle'', hfinal⟩ := hno _ (by omega) hlast
  refine ⟨final, ?_, by omega, hfinal⟩
  simp [conditional, hhead, hskip, toExpr, hyes, hexpect, hno, bind, Except.bind, pure, Except.pure]

/-! ### Derivations -/

/-- Each text that spells the tokens is read as the goal tells, where the bounds on the depth and on
the number of operators leave room. -/
def Complete (tokens : List Token) (tree : SyntaxTree) (rest : List Token) : Goal → Prop
  | .conditional => ∀ depth text, text.length < depth → Spells false text tokens →
      Reads (conditional depth text) text tree rest
  | .level k => k ≤ 6 → ∀ depth text, text.length ≤ depth → Spells false text tokens →
      Reads (belowLevel (conditional depth) k text) text tree rest
  | .more k left => ∀ table, precedence[k]? = some table → ∀ depth start fuel text,
      text.length ≤ depth → text.length ≤ fuel → Spells true text tokens →
        Reads (repeated (operation table (belowLevel (conditional depth) k) start) fuel left text)
          text tree rest

theorem Derives.complete {goal : Goal} (h : Derives goal tokens tree others) :
    Complete tokens tree others goal := by
  induction h with
  | count =>
    intro _ depth text _ hspells
    exact reads_count hspells
  | integer =>
    intro _ depth text _ hspells
    exact reads_integer hspells
  | parens _ ih =>
    intro _ depth text hdepth hspells
    obtain ⟨tail, htrim, htail⟩ := hspells.trimStart_uncons fun _ => by simp
    have hshort := length_trimStart_le text
    have hgap := length_skipGap_le tail
    replace htrim : Text.trimStart text = '(' :: tail := htrim
    rw [htrim, List.length_cons] at hshort
    exact reads_parens htrim (ih depth _ (by omega) htail.skipGap)
  | unary htoken _ ih =>
    subst htoken
    intro hk depth text hdepth hspells
    exact reads_unary hspells fun rest hless hrest => ih hk depth rest (by omega) hrest
  | @level k _ _ _ _ _ _ _ ihFirst ihMore =>
    intro hk depth text hdepth hspells
    have hrow : precedence[k]? = some precedence[k] := List.getElem?_eq_getElem hk
    rw [belowLevel_succ hrow]
    refine reads_joined (ihFirst (by omega) depth text hdepth hspells) fun rest hle hrest => ?_
    exact ihMore _ hrow depth text _ rest (by omega) (Nat.le_refl _) hrest
  | stop hnone =>
    intro table hrow depth start fuel text _ _ hspells
    exact reads_stop hrow hnone hspells
  | @binary k op _ _ _ _ _ _ _ hlevel htoken _ hzero _ ihRight ihMore =>
    subst htoken
    intro table hrow depth start fuel text hdepth hfuel hspells
    have hk : k < 6 := (List.getElem?_eq_some_iff.mp hrow).1
    exact reads_binary hrow hlevel hzero hfuel hspells
      (fun rest hless hrest => ihRight (by omega) depth rest (by omega) hrest)
      fun fuel rest hless hfuel hrest =>
        ihMore table hrow depth start fuel rest (by omega) hfuel hrest
  | plain _ hquestion ih =>
    intro depth text hdepth hspells
    cases depth with
    | zero => omega
    | succ depth => exact reads_plain hquestion (ih (by omega) depth text (by omega) hspells)
  | choose _ _ _ ihCondition ihYes ihNo =>
    intro depth text hdepth hspells
    cases depth with
    | zero => omega
    | succ depth =>
      exact reads_choose (ihCondition (by omega) depth text (by omega) hspells)
        (fun rest hless hrest => ihYes depth rest (by omega) hrest)
        fun rest hless hrest => ihNo depth rest (by omega) hrest

/-! ### Texts -/

theorem tokens?_of_isEmpty_trim (h : (Text.trim text).isEmpty = true) : tokens? text = some [] := by
  rw [List.isEmpty_iff, Text.trim, Text.trimEnd, List.reverse_eq_nil_iff,
    List.dropWhile_eq_nil_iff] at h
  have hnil : Text.trimStart text = [] := by
    cases heq : Text.trimStart text with
    | nil => rfl
    | cons c rest =>
      have hblank := h c (by simp [heq])
      simp [isBlank_head_trimStart text c (by simp [heq])] at hblank
  rw [← tokens?_trimStart, hnil]
  rfl

/-- Where no token is left behind an operand, only a gap is. -/
theorem Spells.skipGap_eq_nil (h : Spells true text []) : SyntaxTree.skipGap text = [] := by
  cases heq : SyntaxTree.skipGap text with
  | nil => rfl
  | cons c rest =>
    have hc := settled_of_spaced h.spaced_eq c (by simp [heq])
    have htokens := h.skipGap.tokens_eq
    rw [heq] at htokens
    obtain ⟨token, more, others, -, hnil, -⟩ := Text.scan_of_tokens? hc htokens
    simp at hnil

/-- A text is accepted exactly if its tokens derive a tree and it is well spaced, and that tree is
what is read. -/
theorem parse_eq_ok_iff :
    parse text = .ok tree ↔
      ∃ tokens, tokens? text = some tokens ∧ Derives .conditional tokens tree [] ∧
        spaced false text = true := by
  constructor
  · intro h
    obtain ⟨tokens, htokens, hderives⟩ := derives_of_parse h
    exact ⟨tokens, htokens, hderives, spaced_of_parse h⟩
  · rintro ⟨tokens, htokens, hderives, hspaced⟩
    obtain ⟨rest, hread, -, hrest⟩ :=
      hderives.complete (text.length + 1) text (Nat.lt_succ_self _) ⟨htokens, hspaced⟩
    have hblank : ¬(Text.trim text).isEmpty = true := by
      intro hempty
      obtain rfl := Option.some.inj ((tokens?_of_isEmpty_trim hempty).symm.trans htokens)
      exact hderives.ne_nil (by simp) rfl
    simp only [parse, if_neg hblank, hread, hrest.skipGap_eq_nil]

end SyntaxTree

/-- A text of which the reader of selections makes a program has a syntax tree exactly if no blanks
stand behind its operands but those of gaps. -/
theorem exists_parse_iff_spaced {text : List Char} {program : Program}
    (h : Program.compile text = .ok program) :
    (∃ tree, SyntaxTree.parse text = .ok tree) ↔ SyntaxTree.spaced false text = true := by
  obtain ⟨selection, hselection, -⟩ := compile_eq_ok h
  obtain ⟨tokens, tree, htokens, hderives, -⟩ := Selection.derives_of_parse hselection
  constructor
  · rintro ⟨tree', hparse⟩
    exact SyntaxTree.spaced_of_parse hparse
  · intro hspaced
    exact ⟨tree, SyntaxTree.parse_eq_ok_iff.mpr ⟨tokens, htokens, hderives, hspaced⟩⟩

theorem exists_parse_iff_spaced_em_space :
    Program.compile "n\t== \u20031".toList = .ok [.load 0, .test .eq 1] ∧
      SyntaxTree.spaced false "n\t== \u20031".toList = true ∧
      ∃ tree, SyntaxTree.parse "n\t== \u20031".toList = .ok tree := by
  have hcompile : Program.compile "n\t== \u20031".toList = .ok [.load 0, .test .eq 1] := by
    decide +kernel
  have hspaced : SyntaxTree.spaced false "n\t== \u20031".toList = true := by decide
  exact ⟨hcompile, hspaced, (exists_parse_iff_spaced hcompile).mpr hspaced⟩

/-- A no-break space behind the count is a blank for the reader of selections only. -/
theorem compiles_without_tree :
    Program.compile "n\u00a0== 1".toList = .ok [.load 0, .test .eq 1] ∧
      ∀ tree, SyntaxTree.parse "n\u00a0== 1".toList ≠ .ok tree := by
  have hrefused : SyntaxTree.parse "n\u00a0== 1".toList = .error ⟨3, .unexpectedChar '='⟩ := by
    decide +kernel
  refine ⟨by decide +kernel, fun tree htree => ?_⟩
  exact absurd (hrefused.symm.trans htree) (by simp)

end PluralForms
