import PluralForms.Proofs.Completeness
import PluralForms.SyntaxTree.Statement

/-! Derivations from the grammar of syntax trees, and their values in the C language. -/

namespace PluralForms

/-! ### Operators on integers -/

/-- The signed word of 64 bits that the integer wraps to. -/
def wrapped (a : Int) : Int := a.bmod (2 ^ 64)

def truth (p : Prop) [Decidable p] : Int := if p then 1 else 0

/-- The value of the operator in C, where a division by zero gives zero. -/
def BinaryOp.value : BinaryOp → Int → Int → Int
  | .arith .add, a, b => wrapped (a + b)
  | .arith .sub, a, b => wrapped (a - b)
  | .arith .mul, a, b => wrapped (a * b)
  | .arith .div, a, b => if b = 0 then 0 else wrapped (a.tdiv b)
  | .arith .mod, a, b => if b = 0 then 0 else a.tmod b
  | .compare .eq, a, b => truth (a = b)
  | .compare .ne, a, b => truth (a ≠ b)
  | .compare .lt, a, b => truth (a < b)
  | .compare .le, a, b => truth (a ≤ b)
  | .compare .gt, a, b => truth (a > b)
  | .compare .ge, a, b => truth (a ≥ b)
  | .and, a, b => truth (a ≠ 0 ∧ b ≠ 0)
  | .or, a, b => truth (a ≠ 0 ∨ b ≠ 0)

def UnaryOp.value : UnaryOp → Int → Int
  | .neg, a => wrapped (-a)
  | .not, a => truth (a = 0)

theorem toInt_eq_zero_iff (a : Int64) : a.toInt = 0 ↔ a = 0 := Int64.toInt_inj (y := 0)

theorem toInt_wordOfBool (b : Bool) : (wordOfBool b).toInt = truth (b = true) := by
  cases b <;> rfl

theorem truth_congr {p q : Prop} [Decidable p] [Decidable q] (h : p ↔ q) : truth p = truth q := by
  simp only [truth, h]

theorem BinaryOp.toInt_apply (op : BinaryOp) (a b : Int64) :
    (op.apply a b).toInt = op.value a.toInt b.toInt := by
  cases op with
  | arith op =>
    cases op with
    | add => exact Int64.toInt_add a b
    | sub => exact Int64.toInt_sub a b
    | mul => exact Int64.toInt_mul a b
    | div =>
      simp only [apply, Arithmetic.apply, value, toInt_eq_zero_iff]
      split
      · rfl
      · exact Int64.toInt_div a b
    | mod =>
      simp only [apply, Arithmetic.apply, value, toInt_eq_zero_iff]
      split
      · rfl
      · exact Int64.toInt_mod a b
  | compare comparison =>
    rw [apply, toInt_wordOfBool]
    cases comparison <;> refine truth_congr ?_ <;>
      simp [Comparison.holds, Int64.toInt_inj, Int64.lt_iff_toInt_lt, Int64.le_iff_toInt_le]
  | and =>
    rw [apply, toInt_wordOfBool]
    refine truth_congr ?_
    simp [toInt_eq_zero_iff]
  | or =>
    rw [apply, toInt_wordOfBool]
    refine truth_congr ?_
    simp [toInt_eq_zero_iff]

theorem UnaryOp.toInt_apply (op : UnaryOp) (a : Int64) : (op.apply a).toInt = op.value a.toInt := by
  cases op with
  | neg => exact Int64.toInt_neg a
  | not =>
    rw [apply, toInt_wordOfBool]
    refine truth_congr ?_
    simp [toInt_eq_zero_iff]

namespace SyntaxTree

/-! ### Phrases -/

/-- The nonterminals of the grammar: a whole formula, and operands of operators of level `k` and
below. -/
inductive Part where
  | conditional
  | operand (k : Nat)

/-- A derivation from the grammar

    conditional := operand 6 ('?' conditional ':' conditional)?
    operand 6   := operand 5 ('||' operand 5)*
    operand 5   := operand 4 ('&&' operand 4)*
    operand 4   := operand 3 (('==' | '!=') operand 3)*
    operand 3   := operand 2 (('<=' | '>=' | '<' | '>') operand 2)*
    operand 2   := operand 1 (('+' | '-') operand 1)*
    operand 1   := operand 0 (('*' | '/' | '%') operand 0)*
    operand 0   := ('-' | '!') operand 0 | 'n' | INTEGER | '(' conditional ')'

where a repetition grows to the right, so its operators go with what stands on their left. -/
inductive Phrase : Part → Type where
  | count : Phrase (.operand 0)
  | integer (value : Int64) : Phrase (.operand 0)
  | parens (inner : Phrase .conditional) : Phrase (.operand 0)
  | unary (op : UnaryOp) (operand : Phrase (.operand 0)) : Phrase (.operand 0)
  | first {k : Nat} (only : Phrase (.operand k)) : Phrase (.operand (k + 1))
  | binary {k : Nat} (op : BinaryOp) (hlevel : op.level = k) (left : Phrase (.operand (k + 1)))
      (right : Phrase (.operand k)) : Phrase (.operand (k + 1))
  | plain (only : Phrase (.operand 6)) : Phrase .conditional
  | choose (condition : Phrase (.operand 6)) (yes no : Phrase .conditional) : Phrase .conditional

namespace Phrase

variable {part : Part}

/-- The tokens that the phrase derives. -/
def tokens : {part : Part} → Phrase part → List Token
  | _, .count => [.count]
  | _, .integer value => [.integer value]
  | _, .parens inner => .opening :: (inner.tokens ++ [.closing])
  | _, .unary op operand => op.token :: operand.tokens
  | _, .first only => only.tokens
  | _, .binary op _ left right => left.tokens ++ op.token :: right.tokens
  | _, .plain only => only.tokens
  | _, .choose condition yes no =>
    condition.tokens ++ .question :: (yes.tokens ++ .colon :: no.tokens)

/-- The value of the phrase for the count `n`. Of a choice only one branch has a part in it. -/
def value (n : Int) : {part : Part} → Phrase part → Int
  | _, .count => n
  | _, .integer value => value.toInt
  | _, .parens inner => inner.value n
  | _, .unary op operand => op.value (operand.value n)
  | _, .first only => only.value n
  | _, .binary op _ left right => op.value (left.value n) (right.value n)
  | _, .plain only => only.value n
  | _, .choose condition yes no => if condition.value n ≠ 0 then yes.value n else no.value n

/-- The phrase is a choice, perhaps in parentheses. -/
def isChoice : {part : Part} → Phrase part → Bool
  | _, .choose _ _ _ => true
  | _, .parens inner => inner.isChoice
  | _, .first only => only.isChoice
  | _, .plain only => only.isChoice
  | _, _ => false

/-- The literal that the phrase is, perhaps in parentheses or behind minus signs. -/
def literal? : {part : Part} → Phrase part → Option Int64
  | _, .integer value => some value
  | _, .unary .neg operand => operand.literal?.map (-·)
  | _, .parens inner => inner.literal?
  | _, .first only => only.literal?
  | _, .plain only => only.literal?
  | _, _ => none

/-- No choice is an operand or a condition, and no operator divides by the literal zero. -/
def Allowed : {part : Part} → Phrase part → Prop
  | _, .count | _, .integer _ => True
  | _, .parens inner => inner.Allowed
  | _, .unary _ operand => operand.Allowed ∧ operand.isChoice = false
  | _, .first only => only.Allowed
  | _, .binary op _ left right =>
    (left.Allowed ∧ left.isChoice = false) ∧ (right.Allowed ∧ right.isChoice = false) ∧
      ¬((op = .arith .div ∨ op = .arith .mod) ∧ right.literal? = some 0)
  | _, .plain only => only.Allowed
  | _, .choose condition yes no =>
    (condition.Allowed ∧ condition.isChoice = false) ∧ yes.Allowed ∧ no.Allowed

/-- The tree is what the phrase says. -/
structure Means (phrase : Phrase part) (tree : SyntaxTree) : Prop where
  isChoice_iff : phrase.isChoice = false ↔ ∃ expr, tree = .result expr
  literal_iff : ∀ v, phrase.literal? = some v ↔ tree = .result (.literal v)
  value_eq : ∀ n, (tree.eval n).toInt = phrase.value n.toInt

end Phrase

variable {part : Part} {k : Nat} {tree : SyntaxTree} {tokens rest : List Token}

theorem eval_ofUnary (op : UnaryOp) (operand : Expr) (n : Int64) :
    (Expr.ofUnary op operand).eval n = op.apply (operand.eval n) := by
  cases op with
  | neg => cases operand <;> rfl
  | not => rfl

theorem means_count : Phrase.count.Means (.result .count) where
  isChoice_iff := by simp [Phrase.isChoice]
  literal_iff v := by simp [Phrase.literal?]
  value_eq n := rfl

theorem means_integer (value : Int64) :
    (Phrase.integer value).Means (.result (.literal value)) where
  isChoice_iff := by simp [Phrase.isChoice]
  literal_iff v := by simp [Phrase.literal?]
  value_eq n := rfl

theorem means_unary (op : UnaryOp) {phrase : Phrase (.operand 0)} {operand : Expr}
    (h : phrase.Means (.result operand)) :
    (phrase.unary op).Means (.result (.ofUnary op operand)) where
  isChoice_iff := by simp [Phrase.isChoice]
  literal_iff v := by
    cases op with
    | not => simp [Phrase.literal?, Expr.ofUnary]
    | neg =>
      cases operand with
      | literal value =>
        have hliteral := (h.literal_iff value).mpr rfl
        simp [Phrase.literal?, Expr.ofUnary, hliteral]
      | _ =>
        have hnone : phrase.literal? = none := by
          refine Option.eq_none_iff_forall_ne_some.mpr fun w hw => ?_
          simpa using (h.literal_iff w).mp hw
        simp [Phrase.literal?, Expr.ofUnary, hnone]
  value_eq n := by
    rw [eval, eval_ofUnary, UnaryOp.toInt_apply, Phrase.value, ← h.value_eq]
    rfl

theorem means_binary (op : BinaryOp) (hlevel : op.level = k) {left : Phrase (.operand (k + 1))}
    {right : Phrase (.operand k)} {first second : Expr} (hleft : left.Means (.result first))
    (hright : right.Means (.result second)) :
    (Phrase.binary op hlevel left right).Means (.result (.binary op first second)) where
  isChoice_iff := by simp [Phrase.isChoice]
  literal_iff v := by simp [Phrase.literal?]
  value_eq n := by
    rw [eval, Expr.eval, BinaryOp.toInt_apply, Phrase.value, ← hleft.value_eq, ← hright.value_eq]
    rfl

theorem means_choose {condition : Phrase (.operand 6)} {yes no : Phrase .conditional} {expr : Expr}
    {first second : SyntaxTree} (hcondition : condition.Means (.result expr))
    (hyes : yes.Means first) (hno : no.Means second) :
    (condition.choose yes no).Means (.choose expr first second) where
  isChoice_iff := by simp [Phrase.isChoice]
  literal_iff v := by simp [Phrase.literal?]
  value_eq n := by
    have hvalue : (expr.eval n).toInt = condition.value n.toInt := hcondition.value_eq n
    rw [eval, Phrase.value, ← hyes.value_eq, ← hno.value_eq]
    by_cases hzero : expr.eval n = 0 <;> simp [← hvalue, toInt_eq_zero_iff, hzero]

/-- The operator and the meaning of the right operand decide about a division by zero. -/
theorem dividesByZero_iff {op : BinaryOp} {right : Phrase part} {second : Expr}
    (h : right.Means (.result second)) :
    op.DividesByZero second ↔
      (op = .arith .div ∨ op = .arith .mod) ∧ right.literal? = some 0 := by
  rw [BinaryOp.DividesByZero, h.literal_iff]
  simp

/-! ### Derived trees are trees of phrases -/

/-- The tokens start with those of an allowed phrase that means the tree; behind `left`, they go on
with each phrase that means it. -/
def Covered (tokens : List Token) (tree : SyntaxTree) (rest : List Token) : Goal → Prop
  | .conditional => ∃ phrase : Phrase .conditional,
      phrase.Allowed ∧ phrase.Means tree ∧ tokens = phrase.tokens ++ rest
  | .level k => ∃ phrase : Phrase (.operand k),
      phrase.Allowed ∧ phrase.Means tree ∧ tokens = phrase.tokens ++ rest
  | .more k left => ∀ phrase : Phrase (.operand (k + 1)), phrase.Allowed → phrase.Means left →
      ∃ longer : Phrase (.operand (k + 1)), longer.Allowed ∧ longer.Means tree ∧
        phrase.tokens ++ tokens = longer.tokens ++ rest

theorem Derives.covered {goal : Goal} (h : Derives goal tokens tree rest) :
    Covered tokens tree rest goal := by
  induction h with
  | count => exact ⟨.count, trivial, means_count, rfl⟩
  | @integer value _ => exact ⟨.integer value, trivial, means_integer value, rfl⟩
  | parens _ ih =>
    obtain ⟨phrase, hallowed, ⟨hchoice, hliteral, hvalue⟩, rfl⟩ := ih
    exact ⟨.parens phrase, hallowed, ⟨hchoice, hliteral, hvalue⟩, by simp [Phrase.tokens]⟩
  | @unary op _ _ _ _ htoken _ ih =>
    obtain ⟨phrase, hallowed, hmeans, rfl⟩ := ih
    exact ⟨.unary op phrase, ⟨hallowed, hmeans.isChoice_iff.mpr ⟨_, rfl⟩⟩, means_unary op hmeans,
      by rw [htoken]; rfl⟩
  | level _ _ ihFirst ihMore =>
    obtain ⟨phrase, hallowed, ⟨hchoice, hliteral, hvalue⟩, rfl⟩ := ihFirst
    exact ihMore (.first phrase) hallowed ⟨hchoice, hliteral, hvalue⟩
  | stop _ => exact fun phrase hallowed hmeans => ⟨phrase, hallowed, hmeans, rfl⟩
  | @binary k op _ _ _ _ _ _ _ hlevel htoken _ hzero _ ihRight ihMore =>
    intro left hallowed hmeans
    obtain ⟨right, hallowed', hmeans', rfl⟩ := ihRight
    have hzero' := hzero ∘ (dividesByZero_iff hmeans').mpr
    obtain ⟨longer, hlonger, hmeansLonger, htokens⟩ := ihMore (.binary op hlevel left right)
      ⟨⟨hallowed, hmeans.isChoice_iff.mpr ⟨_, rfl⟩⟩,
        ⟨hallowed', hmeans'.isChoice_iff.mpr ⟨_, rfl⟩⟩, hzero'⟩
      (means_binary op hlevel hmeans hmeans')
    exact ⟨longer, hlonger, hmeansLonger, by simpa [Phrase.tokens, htoken] using htokens⟩
  | plain _ _ ih =>
    obtain ⟨phrase, hallowed, ⟨hchoice, hliteral, hvalue⟩, rfl⟩ := ih
    exact ⟨.plain phrase, hallowed, ⟨hchoice, hliteral, hvalue⟩, rfl⟩
  | choose _ _ _ ihCondition ihYes ihNo =>
    obtain ⟨condition, hcondition, hmeans, rfl⟩ := ihCondition
    obtain ⟨yes, hyes, hmeansYes, rfl⟩ := ihYes
    obtain ⟨no, hno, hmeansNo, rfl⟩ := ihNo
    exact ⟨.choose condition yes no,
      ⟨⟨hcondition, hmeans.isChoice_iff.mpr ⟨_, rfl⟩⟩, hyes, hno⟩,
      means_choose hmeans hmeansYes hmeansNo, by simp [Phrase.tokens]⟩

/-! ### Allowed phrases derive trees -/

/-- No operator that binds more closely than those of level `k` comes next. -/
def Loose (k : Nat) (tokens : List Token) : Prop :=
  ∀ op : BinaryOp, op.level < k → tokens.head? ≠ some op.token

/-- What comes next goes on with no formula. -/
def Closed (tokens : List Token) : Prop := Loose 6 tokens ∧ tokens.head? ≠ some .question

theorem Loose.mono {j : Nat} (h : Loose k tokens) (hle : j ≤ k) : Loose j tokens :=
  fun op hop => h op (hop.trans_le hle)

theorem loose_cons {token : Token} (h : ∀ op : BinaryOp, op.level < k → token ≠ op.token) :
    Loose k (token :: tokens) :=
  fun op hop heq => h op hop (Option.some.inj heq)

theorem loose_token {op : BinaryOp} (hlevel : op.level = k) : Loose k (op.token :: tokens) := by
  refine loose_cons fun op' hop heq => ?_
  obtain rfl := BinaryOp.token_inj.mp heq
  omega

theorem closed_cons {token : Token} (h : ∀ op : BinaryOp, token ≠ op.token)
    (hquestion : token ≠ .question) : Closed (token :: tokens) :=
  ⟨loose_cons fun op _ => h op, fun heq => hquestion (Option.some.inj heq)⟩

theorem closed_nil : Closed [] := ⟨by simp [Loose], by simp⟩

theorem closed_closing (rest : List Token) : Closed (.closing :: rest) :=
  closed_cons (fun op => by cases op <;> simp [BinaryOp.token]) (by simp)

/-- The phrase derives the tree before all tokens that do not go on with it. A repetition leaves
open how it goes on. -/
def Derived (tree : SyntaxTree) : {part : Part} → Phrase part → Prop
  | .conditional, phrase =>
    ∀ rest, Closed rest → Derives .conditional (phrase.tokens ++ rest) tree rest
  | .operand 0, phrase => ∀ rest, Derives (.level 0) (phrase.tokens ++ rest) tree rest
  | .operand (k + 1), phrase => ∀ rest, Loose k rest → ∀ whole last,
    Derives (.more k tree) rest whole last →
      Derives (.level (k + 1)) (phrase.tokens ++ rest) whole last

theorem Derived.level {phrase : Phrase (.operand k)} (h : Derived tree phrase)
    (hloose : Loose k rest) : Derives (.level k) (phrase.tokens ++ rest) tree rest := by
  cases k with
  | zero => exact h rest
  | succ k =>
    exact h rest (hloose.mono (Nat.le_succ k)) tree rest
      (.stop fun op hop => hloose op (by omega))

theorem Phrase.derived (phrase : Phrase part) (hallowed : phrase.Allowed) :
    ∃ tree, phrase.Means tree ∧ Derived tree phrase := by
  induction phrase with
  | count => exact ⟨_, means_count, fun _ => .count⟩
  | integer value => exact ⟨_, means_integer value, fun _ => .integer⟩
  | parens inner ih =>
    obtain ⟨tree, ⟨hchoice, hliteral, hvalue⟩, hderived⟩ := ih hallowed
    refine ⟨tree, ⟨hchoice, hliteral, hvalue⟩, fun rest => .parens ?_⟩
    simpa using hderived _ (closed_closing rest)
  | unary op operand ih =>
    obtain ⟨tree, hmeans, hderived⟩ := ih hallowed.1
    obtain ⟨expr, rfl⟩ := hmeans.isChoice_iff.mp hallowed.2
    exact ⟨_, means_unary op hmeans, fun rest => .unary rfl (hderived rest)⟩
  | first only ih =>
    obtain ⟨tree, ⟨hchoice, hliteral, hvalue⟩, hderived⟩ := ih hallowed
    exact ⟨tree, ⟨hchoice, hliteral, hvalue⟩, fun rest hloose whole last hmore =>
      .level (hderived.level hloose) hmore⟩
  | @binary k op hlevel left right ihLeft ihRight =>
    obtain ⟨⟨hallowed, hchoice⟩, ⟨hallowed', hchoice'⟩, hzero⟩ := hallowed
    obtain ⟨tree, hmeans, hderived⟩ := ihLeft hallowed
    obtain ⟨tree', hmeans', hderived'⟩ := ihRight hallowed'
    obtain ⟨expr, rfl⟩ := hmeans.isChoice_iff.mp hchoice
    obtain ⟨expr', rfl⟩ := hmeans'.isChoice_iff.mp hchoice'
    refine ⟨_, means_binary op hlevel hmeans hmeans', fun rest hloose whole last hmore => ?_⟩
    rw [Phrase.tokens, List.append_assoc]
    refine hderived _ (loose_token hlevel) whole last ?_
    exact .binary hlevel rfl (hderived'.level hloose) (hzero ∘ (dividesByZero_iff hmeans').mp) hmore
  | plain only ih =>
    obtain ⟨tree, ⟨hchoice, hliteral, hvalue⟩, hderived⟩ := ih hallowed
    exact ⟨tree, ⟨hchoice, hliteral, hvalue⟩, fun rest hclosed =>
      .plain (hderived.level hclosed.1) hclosed.2⟩
  | choose condition yes no ihCondition ihYes ihNo =>
    obtain ⟨⟨hallowed, hchoice⟩, hallowedYes, hallowedNo⟩ := hallowed
    obtain ⟨tree, hmeans, hderived⟩ := ihCondition hallowed
    obtain ⟨first, hmeansYes, hderivedYes⟩ := ihYes hallowedYes
    obtain ⟨second, hmeansNo, hderivedNo⟩ := ihNo hallowedNo
    obtain ⟨expr, rfl⟩ := hmeans.isChoice_iff.mp hchoice
    refine ⟨_, means_choose hmeans hmeansYes hmeansNo, fun rest hclosed => ?_⟩
    simp only [Phrase.tokens, List.append_assoc, List.cons_append]
    refine .choose (hderived.level (loose_cons fun op _ => ?_))
      (hderivedYes _ (closed_cons (fun op => ?_) (by simp))) (hderivedNo rest hclosed)
    · cases op <;> simp [BinaryOp.token]
    · cases op <;> simp [BinaryOp.token]

/-! ### Texts -/

theorem spaced_of_isGap {behind : Bool} {text : List Char}
    (h : ∀ c ∈ text, Text.isBlank c = true → isGap c = true) : spaced behind text = true := by
  induction text generalizing behind with
  | nil => rfl
  | cons c rest ih =>
    have hrest (behind : Bool) := @ih behind fun c hc => h c (List.mem_cons_of_mem _ hc)
    rw [spaced]
    split
    · next hblank => simp [h c List.mem_cons_self hblank, hrest]
    · exact hrest _

theorem Phrase.derives {phrase : Phrase .conditional} (hallowed : phrase.Allowed) :
    ∃ tree, phrase.Means tree ∧ Derives .conditional phrase.tokens tree [] := by
  obtain ⟨tree, hmeans, hderived⟩ := phrase.derived hallowed
  refine ⟨tree, hmeans, ?_⟩
  have hderives := hderived [] closed_nil
  rwa [List.append_nil] at hderives

/-- A text with no blanks but those of gaps has a tree exactly if its tokens derive from the grammar
with no choice as an operand or a condition and with no division by the literal zero. Walking the
statements of the tree then reaches a return for each count, with the value of the derivation in
C. A number past 64 bits is no token. -/
theorem parse_iff_allowed {text : List Char}
    (hblank : ∀ c ∈ text, Text.isBlank c = true → isGap c = true) :
    ((∃ tree, parse text = .ok tree) ↔
        ∃ phrase : Phrase .conditional, Text.tokens? text = some phrase.tokens ∧ phrase.Allowed) ∧
      ∀ tree (phrase : Phrase .conditional), parse text = .ok tree →
        Text.tokens? text = some phrase.tokens → phrase.Allowed → ∀ n,
          Statement.runAll n tree.body = some (tree.eval n) ∧
            (tree.eval n).toInt = phrase.value n.toInt := by
  refine ⟨⟨?_, ?_⟩, ?_⟩
  · rintro ⟨tree, hparse⟩
    obtain ⟨tokens, htokens, hderives⟩ := derives_of_parse hparse
    obtain ⟨phrase, hallowed, -, rfl⟩ := hderives.covered
    exact ⟨phrase, by rw [htokens, List.append_nil], hallowed⟩
  · rintro ⟨phrase, htokens, hallowed⟩
    obtain ⟨tree, -, hderives⟩ := Phrase.derives hallowed
    exact ⟨tree, parse_eq_ok_iff.mpr ⟨_, htokens, hderives, spaced_of_isGap hblank⟩⟩
  · intro tree phrase hparse htokens hallowed n
    obtain ⟨tokens, htokens', hderives⟩ := derives_of_parse hparse
    obtain rfl := Option.some.inj (htokens.symm.trans htokens')
    obtain ⟨tree', hmeans, hderives'⟩ := Phrase.derives hallowed
    obtain ⟨rfl, -⟩ := hderives.unique hderives'
    exact ⟨tree.runAll_body n, hmeans.value_eq n⟩

/-- Only the divisor of a run is zero here, so the quotient is zero and decides for the other
branch. -/
theorem parse_iff_allowed_quotient :
    (∀ c ∈ "n / (n - 1) ?\t-n : 3".toList, Text.isBlank c = true → isGap c = true) ∧
      ∃ tree, ∃ phrase : Phrase .conditional,
        parse "n / (n - 1) ?\t-n : 3".toList = .ok tree ∧
        Text.tokens? "n / (n - 1) ?\t-n : 3".toList = some phrase.tokens ∧ phrase.Allowed ∧
        Statement.runAll 1 tree.body = some (tree.eval 1) ∧ (tree.eval 1).toInt = phrase.value 1 ∧
        phrase.value 1 = 3 := by
  have hblank : ∀ c ∈ "n / (n - 1) ?\t-n : 3".toList, Text.isBlank c = true → isGap c = true := by
    have hall :
        ("n / (n - 1) ?\t-n : 3".toList.all fun c => !Text.isBlank c || isGap c) = true := by
      decide +kernel
    intro c hc hblank
    simpa [hblank] using List.all_eq_true.mp hall c hc
  have hparse : parse "n / (n - 1) ?\t-n : 3".toList =
      .ok (.choose (.binary (.arith .div) .count (.binary (.arith .sub) .count (.literal 1)))
        (.result (.unary .neg .count)) (.result (.literal 3))) := by
    decide +kernel
  obtain ⟨phrase, htokens, hallowed⟩ := (parse_iff_allowed hblank).1.mp ⟨_, hparse⟩
  have hrun := (parse_iff_allowed hblank).2 _ phrase hparse htokens hallowed 1
  exact ⟨hblank, _, phrase, hparse, htokens, hallowed, hrun.1, hrun.2,
    hrun.2.symm.trans (by decide)⟩

end SyntaxTree

end PluralForms
