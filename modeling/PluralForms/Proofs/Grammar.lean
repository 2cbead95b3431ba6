import PluralForms.SyntaxTree

/-! The grammar of syntax trees on tokens, with the precedence of C. A derivation reads a tree from
the start of a list of tokens and leaves the rest; the next token decides how it goes on, so tokens
have at most one tree. -/

namespace PluralForms

/-- How loosely an operator binds; operators of level 0 bind most closely. -/
def BinaryOp.level : BinaryOp → Nat
  | .arith op => if op.isMultiplicative then 0 else 1
  | .compare .eq | .compare .ne => 3
  | .compare _ => 2
  | .and => 4
  | .or => 5

/-- The token of an operator between operands. -/
def BinaryOp.token : BinaryOp → Token
  | .arith op => .arith op
  | .compare comparison => .compare comparison
  | .and => .and
  | .or => .or

/-- The token of an operator before its operand. -/
def UnaryOp.token : UnaryOp → Token
  | .neg => .arith .sub
  | .not => .not

theorem BinaryOp.token_inj {a b : BinaryOp} : a.token = b.token ↔ a = b := by
  cases a <;> cases b <;> simp [token]

theorem UnaryOp.token_inj {a b : UnaryOp} : a.token = b.token ↔ a = b := by
  cases a <;> cases b <;> simp [token]

/-- The operator divides, and its right operand is the literal zero. -/
def BinaryOp.DividesByZero (op : BinaryOp) (right : Expr) : Prop :=
  (op = .arith .div ∨ op = .arith .mod) ∧ right = .literal 0

namespace SyntaxTree

/-- What is read: a tree, operands with operators below the level `k`, or what follows the operand
`left` with operators of the level `k`. -/
inductive Goal where
  | conditional
  | level (k : Nat)
  | more (k : Nat) (left : SyntaxTree)

/-- The tree that the goal reads from the start of the tokens, and the tokens that remain. -/
inductive Derives : Goal → List Token → SyntaxTree → List Token → Prop
  | count {rest : List Token} : Derives (.level 0) (.count :: rest) (.result .count) rest
  | integer {value : Int64} {rest : List Token} :
      Derives (.level 0) (.integer value :: rest) (.result (.literal value)) rest
  | parens {tokens rest : List Token} {tree : SyntaxTree} :
      Derives .conditional tokens tree (.closing :: rest) →
      Derives (.level 0) (.opening :: tokens) tree rest
  | unary {op : UnaryOp} {token : Token} {tokens rest : List Token} {operand : Expr} :
      token = op.token → Derives (.level 0) tokens (.result operand) rest →
      Derives (.level 0) (token :: tokens) (.result (.ofUnary op operand)) rest
  | level {k : Nat} {tokens mid rest : List Token} {first tree : SyntaxTree} :
      Derives (.level k) tokens first mid → Derives (.more k first) mid tree rest →
      Derives (.level (k + 1)) tokens tree rest
  | stop {k : Nat} {tokens : List Token} {tree : SyntaxTree} :
      (∀ op : BinaryOp, op.level = k → tokens.head? ≠ some op.token) →
      Derives (.more k tree) tokens tree tokens
  | binary {k : Nat} {op : BinaryOp} {token : Token} {tokens mid rest : List Token}
      {left right : Expr} {tree : SyntaxTree} :
      op.level = k → token = op.token → Derives (.level k) tokens (.result right) mid →
      ¬op.DividesByZero right → Derives (.more k (.result (.binary op left right))) mid tree rest →
      Derives (.more k (.result left)) (token :: tokens) tree rest
  | plain {tokens rest : List Token} {tree : SyntaxTree} :
      Derives (.level 6) tokens tree rest → rest.head? ≠ some .question →
      Derives .conditional tokens tree rest
  | choose {tokens mid last rest : List Token} {condition : Expr} {yes no : SyntaxTree} :
      Derives (.level 6) tokens (.result condition) (.question :: mid) →
      Derives .conditional mid yes (.colon :: last) → Derives .conditional last no rest →
      Derives .conditional tokens (.choose condition yes no) rest

namespace Derives

variable {goal : Goal} {tokens rest rest' : List Token} {tree tree' : SyntaxTree}

/-- A goal reads at most one tree from given tokens. -/
theorem unique (h : Derives goal tokens tree rest) (h' : Derives goal tokens tree' rest') :
    tree = tree' ∧ rest = rest' := by
  induction h generalizing tree' rest' with
  | count =>
    cases h' with
    | count => exact ⟨rfl, rfl⟩
    | @unary op _ _ _ _ htoken _ => cases op <;> simp [UnaryOp.token] at htoken
  | integer =>
    cases h' with
    | integer => exact ⟨rfl, rfl⟩
    | @unary op _ _ _ _ htoken _ => cases op <;> simp [UnaryOp.token] at htoken
  | parens _ ih =>
    cases h' with
    | parens h' =>
      obtain ⟨htree, hrest⟩ := ih h'
      exact ⟨htree, (List.cons.inj hrest).2⟩
    | @unary op _ _ _ _ htoken _ => cases op <;> simp [UnaryOp.token] at htoken
  | @unary op _ _ _ _ htoken _ ih =>
    cases h' with
    | unary htoken' h' =>
      obtain rfl := UnaryOp.token_inj.mp (htoken.symm.trans htoken')
      obtain ⟨htree, hrest⟩ := ih h'
      obtain rfl := SyntaxTree.result.inj htree
      exact ⟨rfl, hrest⟩
    | _ => cases op <;> simp [UnaryOp.token] at htoken
  | level _ _ ihFirst ihMore =>
    cases h' with
    | level hfirst hmore =>
      obtain ⟨rfl, rfl⟩ := ihFirst hfirst
      exact ihMore hmore
  | stop hnone =>
    cases h' with
    | stop => exact ⟨rfl, rfl⟩
    | @binary _ op _ _ _ _ _ _ _ hlevel htoken =>
      exact absurd (congrArg some htoken) (hnone op hlevel)
  | @binary _ op _ _ _ _ _ _ _ hlevel htoken _ _ _ ihRight ihMore =>
    cases h' with
    | stop hnone => exact absurd (congrArg some htoken) (hnone op hlevel)
    | binary hlevel' htoken' hright _ hmore =>
      obtain rfl := BinaryOp.token_inj.mp (htoken.symm.trans htoken')
      obtain ⟨htree, rfl⟩ := ihRight hright
      obtain rfl := SyntaxTree.result.inj htree
      exact ihMore hmore
  | plain _ hquestion ih =>
    cases h' with
    | plain h' => exact ih h'
    | choose hcondition =>
      obtain ⟨-, rfl⟩ := ih hcondition
      simp at hquestion
  | choose _ _ _ ihCondition ihYes ihNo =>
    cases h' with
    | plain h' hquestion =>
      obtain ⟨-, rfl⟩ := ihCondition h'
      simp at hquestion
    | choose hcondition hyes hno =>
      obtain ⟨hcondition, hmid⟩ := ihCondition hcondition
      obtain rfl := SyntaxTree.result.inj hcondition
      obtain rfl := (List.cons.inj hmid).2
      obtain ⟨rfl, hlast⟩ := ihYes hyes
      obtain rfl := (List.cons.inj hlast).2
      obtain ⟨rfl, rfl⟩ := ihNo hno
      exact ⟨rfl, rfl⟩

/-- An operand and a tree have at least one token. -/
theorem ne_nil (h : Derives goal tokens tree rest) (hgoal : ∀ k left, goal ≠ .more k left) :
    tokens ≠ [] := by
  induction h with
  | count | integer | parens | unary => simp
  | level _ _ ihFirst _ => exact ihFirst (by simp)
  | stop | binary => exact absurd rfl (hgoal _ _)
  | plain _ _ ih => exact ih (by simp)
  | choose _ _ _ ihCondition _ _ => exact ihCondition (by simp)

/-- What is read below a level is read below a higher one, if no operator between the two
follows. -/
theorem raise {j k : Nat} (h : Derives (.level j) tokens tree rest) (hle : j ≤ k)
    (hnone : ∀ op : BinaryOp, j ≤ op.level → op.level < k → rest.head? ≠ some op.token) :
    Derives (.level k) tokens tree rest := by
  induction k with
  | zero =>
    obtain rfl : j = 0 := by omega
    exact h
  | succ k ih =>
    rcases Nat.lt_or_eq_of_le hle with hlt | rfl
    · have hbelow := ih (by omega) fun op hop hop' => hnone op hop (by omega)
      exact .level hbelow (.stop fun op hop => hnone op (by omega) (by omega))
    · exact h

end Derives

end SyntaxTree

end PluralForms
