import PluralForms.Proofs.Decimal
import PluralForms.Proofs.TreePhrases

/-! The written form of expressions. Each expression that stands in the statements of a formula is
read back from its text, since it is readable: it has no literal that lacks a positive counterpart,
no sign before a literal, and no division by the literal zero. -/

namespace PluralForms

theorem BinaryOp.level_lt (op : BinaryOp) : op.level < 6 := by
  cases op with
  | arith op => cases op <;> decide
  | compare comparison => cases comparison <;> decide
  | _ => decide

theorem BinaryOp.symbol_eq_text (op : BinaryOp) : op.symbol = op.token.text := by
  cases op <;> rfl

theorem UnaryOp.symbol_eq_text (op : UnaryOp) : op.symbol = op.token.text := by
  cases op <;> rfl

theorem toInt_neg_of_ne {value : Int64} (h : value ≠ Int64.minValue) :
    (-value).toInt = -value.toInt := by
  have hmin : value.toInt ≠ -2 ^ 63 := fun heq =>
    h (Int64.toInt_inj.mp (heq.trans Int64.toInt_minValue.symm))
  have hle := value.le_toInt
  have hlt := value.toInt_lt
  rw [Int64.toInt_neg]
  exact Int.bmod_eq_of_le (by omega) (by omega)

/-! ### Expressions in statements -/

/-- The first expression is the second or stands inside it. -/
inductive Expr.PartOf (part : Expr) : Expr → Prop
  | whole : PartOf part part
  | operand {op : UnaryOp} {operand : Expr} : PartOf part operand → PartOf part (.unary op operand)
  | left {op : BinaryOp} {left right : Expr} :
      PartOf part left → PartOf part (.binary op left right)
  | right {op : BinaryOp} {left right : Expr} :
      PartOf part right → PartOf part (.binary op left right)

/-- The expression stands in what the statement returns, in its condition or in its block. -/
inductive Statement.Uses (part : Expr) : Statement → Prop
  | ret {value : Expr} : part.PartOf value → Uses part (.ret value)
  | condition {condition : Expr} {block : List Statement} :
      part.PartOf condition → Uses part (.ifThen condition block)
  | block {condition : Expr} {block : List Statement} {statement : Statement} :
      statement ∈ block → Uses part statement → Uses part (.ifThen condition block)

/-! ### Readable expressions -/

namespace Expr

/-- No literal is the least number, no minus sign stands before a literal, and no operator divides
by the literal zero. -/
def Readable : Expr → Prop
  | .count => True
  | .literal value => value ≠ Int64.minValue
  | .unary op operand => operand.Readable ∧ ofUnary op operand = .unary op operand
  | .binary op left right => left.Readable ∧ right.Readable ∧ ¬op.DividesByZero right

variable {expr part : Expr}

theorem readable_ofUnary (op : UnaryOp) (h : expr.Readable) : (ofUnary op expr).Readable := by
  cases op with
  | not => exact ⟨h, rfl⟩
  | neg =>
    cases expr with
    | literal value =>
      intro hmin
      rw [← Int64.neg_neg (a := value), hmin] at h
      exact h rfl
    | _ => exact ⟨h, rfl⟩

theorem Readable.of_partOf (h : expr.Readable) (hpart : part.PartOf expr) : part.Readable := by
  induction hpart with
  | whole => exact h
  | operand _ ih => exact ih h.1
  | left _ ih => exact ih h.1
  | right _ ih => exact ih h.2.1

end Expr

namespace SyntaxTree

def Readable : SyntaxTree → Prop
  | .result value => value.Readable
  | .choose condition yes no => condition.Readable ∧ yes.Readable ∧ no.Readable

/-- What stands to the left of the goal is readable. -/
def Goal.Readable : Goal → Prop
  | .more _ left => left.Readable
  | _ => True

variable {goal : Goal} {tree : SyntaxTree} {tokens rest : List Token} {text : List Char}
  {statement : Statement} {part : Expr}

/-- Tokens without the least number derive readable trees, and the tokens that remain are without
it, too. -/
theorem Derives.readable (h : Derives goal tokens tree rest) (hgoal : goal.Readable)
    (htokens : .integer Int64.minValue ∉ tokens) :
    tree.Readable ∧ .integer Int64.minValue ∉ rest := by
  induction h with
  | count => exact ⟨trivial, List.not_mem_of_not_mem_cons htokens⟩
  | @integer value _ =>
    refine ⟨?_, List.not_mem_of_not_mem_cons htokens⟩
    rintro rfl
    exact htokens List.mem_cons_self
  | parens _ ih =>
    obtain ⟨htree, hrest⟩ := ih trivial (List.not_mem_of_not_mem_cons htokens)
    exact ⟨htree, List.not_mem_of_not_mem_cons hrest⟩
  | unary _ _ ih =>
    obtain ⟨hoperand, hrest⟩ := ih trivial (List.not_mem_of_not_mem_cons htokens)
    exact ⟨Expr.readable_ofUnary _ hoperand, hrest⟩
  | level _ _ ihFirst ihMore =>
    obtain ⟨hfirst, hmid⟩ := ihFirst trivial htokens
    exact ihMore hfirst hmid
  | stop _ => exact ⟨hgoal, htokens⟩
  | binary _ _ _ hzero _ ihRight ihMore =>
    obtain ⟨hright, hmid⟩ := ihRight trivial (List.not_mem_of_not_mem_cons htokens)
    exact ihMore ⟨hgoal, hright, hzero⟩ hmid
  | plain _ _ ih => exact ih trivial htokens
  | choose _ _ _ ihCondition ihYes ihNo =>
    obtain ⟨hcondition, hmid⟩ := ihCondition trivial htokens
    obtain ⟨hyes, hlast⟩ := ihYes trivial (List.not_mem_of_not_mem_cons hmid)
    obtain ⟨hno, hrest⟩ := ihNo trivial (List.not_mem_of_not_mem_cons hlast)
    exact ⟨⟨hcondition, hyes, hno⟩, hrest⟩

theorem readable_of_parse (h : parse text = .ok tree) : tree.Readable := by
  obtain ⟨tokens, htokens, hderives⟩ := derives_of_parse h
  refine (hderives.readable trivial fun hmem => ?_).1
  exact absurd (Text.nonneg_of_mem_tokens? htokens hmem) (by decide)

theorem Readable.of_uses (h : tree.Readable) (hmem : statement ∈ tree.body)
    (huses : statement.Uses part) : part.Readable := by
  induction tree generalizing statement with
  | result value =>
    obtain rfl := List.mem_singleton.mp hmem
    cases huses with
    | ret hpart => exact h.of_partOf hpart
  | choose condition yes no ihYes ihNo =>
    rcases List.mem_cons.mp hmem with rfl | hmem
    · cases huses with
      | condition hpart => exact h.1.of_partOf hpart
      | block hmem huses => exact ihYes h.2.1 hmem huses
    · exact ihNo h.2.2 hmem huses

end SyntaxTree

/-! ### Tokens of written expressions -/

namespace Expr

open SyntaxTree (Derives)

/-- The tokens of the written form. -/
def tokens : Expr → List Token
  | .count => [.count]
  | .literal value => if value.toInt < 0 then [.arith .sub, .integer (-value)] else [.integer value]
  | .unary op operand => op.token :: operand.tokens
  | .binary op left right => .opening :: (left.tokens ++ op.token :: (right.tokens ++ [.closing]))

variable {expr : Expr} {text : List Char} {value : Int64} {rest : List Token}

/-- The tokens of a readable expression are an operand that derives it. -/
theorem Readable.derives (h : expr.Readable) (rest : List Token) :
    Derives (.level 0) (expr.tokens ++ rest) (.result expr) rest := by
  induction expr generalizing rest with
  | count => exact .count
  | literal value =>
    rw [tokens]
    split
    · have hneg : ofUnary .neg (.literal (-value)) = .literal value := by
        rw [ofUnary, Int64.neg_neg]
      rw [← hneg]
      exact .unary rfl .integer
    · exact .integer
  | unary op operand ih =>
    have hunary : Derives (.level 0) (op.token :: (operand.tokens ++ rest))
        (.result (ofUnary op operand)) rest := .unary rfl (ih h.1 rest)
    rwa [h.2] at hunary
  | binary op left right ihLeft ihRight =>
    obtain ⟨hleft, hright, hzero⟩ := h
    simp only [tokens, List.cons_append, List.append_assoc, List.nil_append]
    have hclosing := SyntaxTree.closed_closing rest
    have hfirst := (ihLeft hleft (op.token :: (right.tokens ++ .closing :: rest))).raise
      (Nat.zero_le _) fun op' _ => SyntaxTree.loose_token rfl op'
    have hsecond := (ihRight hright (.closing :: rest)).raise (Nat.zero_le op.level)
      fun op' _ hlevel => hclosing.1 op' (hlevel.trans op.level_lt)
    have hboth := Derives.level hfirst (.binary rfl rfl hsecond hzero
      (.stop fun op' hlevel => hclosing.1 op' (hlevel ▸ op.level_lt)))
    exact .parens (.plain (hboth.raise op.level_lt fun op' _ => hclosing.1 op') hclosing.2)

/-! ### Texts of expressions -/

theorem toList_text_binary (op : BinaryOp) (left right : Expr) :
    (Expr.binary op left right).text.toList =
      '(' :: (left.text.toList ++ ' ' :: (op.token.text.toList ++
        ' ' :: (right.text.toList ++ [')']))) := by
  simp [Expr.text, BinaryOp.symbol_eq_text, toString]

theorem toList_text_unary (op : UnaryOp) (operand : Expr) :
    (Expr.unary op operand).text.toList = op.token.text.toList ++ operand.text.toList := by
  simp [Expr.text, UnaryOp.symbol_eq_text]

/-- No expression starts with a character that goes on with the sign of a negation. -/
theorem head?_text_ne (expr : Expr) (after : List Char) :
    (expr.text.toList ++ after).head? ≠ some '=' := by
  cases expr with
  | count => simp [Expr.text]
  | literal value =>
    rcases Int.lt_or_le value.toInt 0 with hneg | hnonneg
    · simp [Expr.text, Text.toList_decimal_of_neg hneg]
    · obtain ⟨c, digits, hdigits, hc⟩ := Text.exists_toDigits_eq_cons value.toInt.toNat
      rw [Expr.text, Text.toList_decimal_of_nonneg hnonneg, hdigits]
      rintro ⟨⟩
      simp at hc
  | unary op operand =>
    rw [toList_text_unary]
    cases op <;> simp [UnaryOp.token, Token.text, Arithmetic.symbol]
  | binary op left right => simp [toList_text_binary]

/-- A space, a closing parenthesis or nothing comes next. -/
def EndsBefore (after : List Char) : Prop := ∀ c ∈ after.head?, c = ' ' ∨ c = ')'

variable {after : List Char}

theorem endsBefore_token (h : EndsBefore after) (token : Token) : token.EndsBefore after :=
  token.endsBefore_of_head? fun c hc => by rcases h c hc with rfl | rfl <;> decide

theorem endsBefore_space (after : List Char) : EndsBefore (' ' :: after) := by simp [EndsBefore]

theorem endsBefore_closing (after : List Char) : EndsBefore (')' :: after) := by simp [EndsBefore]

/-- A readable expression is written with its tokens. -/
theorem Readable.tokens?_text (h : expr.Readable) (hends : EndsBefore after) :
    Text.tokens? (expr.text.toList ++ after) = (Text.tokens? after).map (expr.tokens ++ ·) := by
  induction expr generalizing after with
  | count => exact Text.tokens?_text .count (by simp) (endsBefore_token hends _)
  | literal value =>
    rw [text, tokens]
    split
    · next hneg =>
      have hnonneg : 0 ≤ (-value).toInt := by
        rw [toInt_neg_of_ne h]
        omega
      have hminus (after : List Char) :
          Text.tokens? ('-' :: after) = (Text.tokens? after).map (.arith .sub :: ·) :=
        Text.tokens?_text (.arith .sub) (by simp) trivial
      rw [Text.toList_decimal_of_neg hneg, ← toInt_neg_of_ne h, List.cons_append, hminus,
        Text.tokens?_decimal hnonneg (endsBefore_token hends _), Option.map_map]
      rfl
    · exact Text.tokens?_decimal (by omega) (endsBefore_token hends _)
  | unary op operand ih =>
    have hsign : op.token.EndsBefore (operand.text.toList ++ after) := by
      cases op with
      | neg => trivial
      | not => exact head?_text_ne operand after
    rw [toList_text_unary, List.append_assoc,
      Text.tokens?_text op.token (SyntaxTree.sign_ne_integer op) hsign, ih h.1 hends,
      Option.map_map]
    rfl
  | binary op left right ihLeft ihRight =>
    have hclosing : Text.tokens? (')' :: after) = (Text.tokens? after).map (.closing :: ·) :=
      Text.tokens?_text .closing (by simp) trivial
    have hright := ihRight h.2.1 (endsBefore_closing after)
    have hop := Text.tokens?_text op.token (SyntaxTree.token_ne_integer op)
      (endsBefore_token (endsBefore_space (right.text.toList ++ ')' :: after)) _)
    have hleft := ihLeft h.1 (endsBefore_space
      (op.token.text.toList ++ ' ' :: (right.text.toList ++ ')' :: after)))
    rw [toList_text_binary]
    simp only [List.cons_append, List.append_assoc, List.nil_append]
    rw [SyntaxTree.tokens?_opening, hleft, Text.tokens?_blank (by decide), hop,
      Text.tokens?_blank (by decide), hright, hclosing]
    simp [tokens, Option.map_map, Function.comp_def]

/-- Written expressions have no blanks but spaces. -/
theorem eq_space_of_mem_text (expr : Expr) :
    ∀ c ∈ expr.text.toList, Text.isBlank c = true → c = ' ' := by
  have hmark (token : Token) (hinteger : ∀ value, token ≠ .integer value) :
      ∀ c ∈ token.text.toList, Text.isBlank c = true → c = ' ' := fun c hc hblank =>
    absurd hblank (by simp [Text.isBlank_of_mem_text hinteger c hc])
  induction expr with
  | count => exact hmark .count (by simp)
  | literal value =>
    exact fun c hc hblank => absurd hblank (by simp [Text.isBlank_of_mem_decimal c hc])
  | unary op operand ih =>
    rw [toList_text_unary]
    intro c hc
    rcases List.mem_append.mp hc with hc | hc
    · exact hmark op.token (SyntaxTree.sign_ne_integer op) c hc
    · exact ih c hc
  | binary op left right ihLeft ihRight =>
    have hsign := hmark op.token (SyntaxTree.token_ne_integer op)
    rw [toList_text_binary]
    intro c hc
    simp only [List.mem_cons, List.mem_append, List.not_mem_nil, or_false] at hc
    rcases hc with rfl | hc | rfl | hc | rfl | hc | rfl
    · exact hmark .opening (by simp) _ List.mem_cons_self
    · exact ihLeft c hc
    · exact fun _ => rfl
    · exact hsign c hc
    · exact fun _ => rfl
    · exact ihRight c hc
    · exact hmark .closing (by simp) _ List.mem_cons_self

/-- A readable expression is the tree of its text. -/
theorem Readable.parse_text (h : expr.Readable) :
    SyntaxTree.parse expr.text.toList = .ok (.result expr) := by
  have htokens : Text.tokens? expr.text.toList = some expr.tokens := by
    have hnil : EndsBefore [] := by simp [EndsBefore]
    simpa using h.tokens?_text hnil
  have hderives : Derives .conditional expr.tokens (.result expr) [] := by
    have hlevel := h.derives []
    rw [List.append_nil] at hlevel
    exact .plain (hlevel.raise (Nat.zero_le 6) fun op _ => SyntaxTree.closed_nil.1 op)
      SyntaxTree.closed_nil.2
  refine SyntaxTree.parse_eq_ok_iff.mpr ⟨_, htokens, hderives, SyntaxTree.spaced_of_isGap ?_⟩
  intro c hc hblank
  rw [eq_space_of_mem_text expr c hc hblank]
  rfl

end Expr

namespace SyntaxTree

variable {text : List Char} {tree : SyntaxTree} {statement : Statement} {expr : Expr}

/-- Each expression that stands in the statements of a formula is read back from its text, and all
that a formula of this text does is to return it. -/
theorem exists_parse_text (h : parse text = .ok tree) (hmem : statement ∈ tree.body)
    (huses : statement.Uses expr) :
    ∃ tree', parse expr.text.toList = .ok tree' ∧ tree'.body = [.ret expr] :=
  ⟨.result expr, ((readable_of_parse h).of_uses hmem huses).parse_text, rfl⟩

/-- The remainder stands inside the condition of the inner choice. -/
theorem exists_parse_text_remainder :
    let remainder : Expr := .binary (.arith .mod) (.unary .neg .count) (.literal (-2))
    let condition : Expr := .binary (.compare .eq) remainder (.literal 0)
    let inner : SyntaxTree := .choose condition (.result (.literal 3)) (.result (.literal 4))
    let tree : SyntaxTree := .choose (.unary .not .count) (.result .count) inner
    parse "!n ? n : -n % -2 == 0 ? 3 : 4".toList = .ok tree ∧
      Statement.ifThen condition [.ret (.literal 3)] ∈ tree.body ∧
      (Statement.ifThen condition [.ret (.literal 3)]).Uses remainder ∧
      remainder.text = "(-n % -2)" ∧
      ∃ tree', parse remainder.text.toList = .ok tree' ∧ tree'.body = [.ret remainder] := by
  intro remainder condition inner tree
  have hparse : parse "!n ? n : -n % -2 == 0 ? 3 : 4".toList = .ok tree := by decide +kernel
  have hmem : Statement.ifThen condition [.ret (.literal 3)] ∈ tree.body := by
    simp [tree, inner, body]
  have huses : (Statement.ifThen condition [.ret (.literal 3)]).Uses remainder :=
    .condition (.left .whole)
  exact ⟨hparse, hmem, huses, by decide, exists_parse_text hparse hmem huses⟩

end SyntaxTree

end PluralForms
