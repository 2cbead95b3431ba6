import PluralForms.Selection.Parser
import PluralForms.Proofs.Lexing

/-! The reader of selections follows the grammar of syntax trees: the tokens of a text that it
accepts have a derivation of a tree with the same value as the selection. It reads a comparison
only up to its literal, so an operand is read as the grammar tells if no operator that binds more
closely than the connectives follows. -/

namespace PluralForms

namespace Lexed

variable {lexed rest : Lexed} {token : Token} {tokens : List Token}

theorem head?_of_all? (h : lexed.all? = some tokens) : lexed.head? = tokens.head? := by
  cases lexed with
  | eof _ =>
    obtain rfl := Option.some.inj h
    rfl
  | broken _ => simp [all?] at h
  | token head _ rest =>
    obtain ⟨_, -, rfl⟩ := Option.map_eq_some_iff.mp h
    rfl

/-- Past the next token are the others. -/
theorem advance_eq_ok (hhead : lexed.head? = some token) (h : lexed.advance = .ok rest) :
    lexed.size = rest.size + 1 ∧ ∀ tokens, rest.all? = some tokens →
      lexed.all? = some (token :: tokens) := by
  cases lexed with
  | token head position others =>
    obtain rfl := Option.some.inj hhead
    obtain rfl : others = rest := by
      cases others with
      | broken _ => simp [advance] at h
      | _ => exact Except.ok.inj h
    exact ⟨rfl, fun tokens htokens => by rw [all?, htokens]; rfl⟩
  | _ => simp [head?] at hhead

theorem expect_eq_ok {expected : Expectation} (h : lexed.expect token expected = .ok rest) :
    lexed.size = rest.size + 1 ∧ ∀ tokens, rest.all? = some tokens →
      lexed.all? = some (token :: tokens) := by
  simp only [expect] at h
  split at h
  · next hhead => exact advance_eq_ok hhead h
  · simp at h

end Lexed

namespace Selection

open SyntaxTree (Goal Derives)

variable {lexed rest : Lexed} {tokens : List Token} {operand : Operand} {tree : SyntaxTree}
  {inner next : Reader Operand}

/-! ### Operands and trees -/

/-- The tree has the value of the operand for each count, and is no choice where the operand can
stand beside an operator. -/
def Operand.Agrees (tree : SyntaxTree) : Operand → Prop
  | .literal value => tree = .result (.literal value)
  | .chain links _ => ∃ expr, tree = .result expr ∧ ∀ n, expr.eval n = links.apply n
  | .condition found => ∃ expr, tree = .result expr ∧ ∀ n, expr.eval n = wordOfBool (found.holds n)
  | .choice deciding yes no => ∀ n, tree.eval n = (Selection.choose deciding yes no).eval n

theorem agrees_of_toCondition {position : Nat} {condition : Condition}
    (h : operand.toCondition position = .ok condition) (hagrees : operand.Agrees tree) :
    ∃ expr, tree = .result expr ∧ ∀ n, expr.eval n = wordOfBool (condition.holds n) := by
  cases operand with
  | condition found =>
    obtain rfl := Except.ok.inj h
    exact hagrees
  | _ => simp [Operand.toCondition] at h

theorem eval_of_toSelection {position : Nat} {selection : Selection}
    (h : operand.toSelection position = .ok selection) (hagrees : operand.Agrees tree) (n : Int64) :
    tree.eval n = selection.eval n := by
  cases operand with
  | literal value =>
    obtain rfl := Except.ok.inj h
    obtain rfl := hagrees
    rfl
  | chain _ _ => simp [Operand.toSelection] at h
  | condition found =>
    obtain rfl := Except.ok.inj h
    obtain ⟨expr, rfl, heval⟩ := hagrees
    exact heval n
  | choice condition yes no =>
    obtain rfl := Except.ok.inj h
    exact hagrees n

/-- No operator that binds more closely than the connectives stands in front. -/
def Calm (tokens : List Token) : Prop :=
  ∀ op : BinaryOp, op.level < 4 → tokens.head? ≠ some op.token

theorem calm_cons {token : Token} (h : ∀ op : BinaryOp, op.level < 4 → token ≠ op.token) :
    Calm (token :: tokens) :=
  fun op hop heq => h op hop (Option.some.inj heq)

/-- What the reader reads before tokens derives a tree for the goal that agrees with it. -/
def Conforms (reader : Reader Operand) (goal : Goal) : Prop :=
  ∀ lexed operand rest, reader lexed = .ok (operand, rest) → rest.size ≤ lexed.size ∧
    ∀ tokens, rest.all? = some tokens → Calm tokens →
      ∃ all tree, lexed.all? = some all ∧ Derives goal all tree tokens ∧ operand.Agrees tree

/-! ### Repetitions -/

/-- The steps find something to add to `soFar` until they have read the result. -/
inductive Repeats {α : Type} (step : α → Lexed → Except ParseError (Option (α × Lexed))) :
    α → Lexed → α → Lexed → Prop
  | stop {soFar : α} {lexed : Lexed} :
      step soFar lexed = .ok none → Repeats step soFar lexed soFar lexed
  | step {soFar more result : α} {lexed after rest : Lexed} :
      step soFar lexed = .ok (some (more, after)) → Repeats step more after result rest →
      Repeats step soFar lexed result rest

/-- The fuel of a repetition is enough if each step takes tokens. -/
theorem repeats_of_repeated {α : Type} {step : α → Lexed → Except ParseError (Option (α × Lexed))}
    (hnone : ∀ soFar lexed, lexed.head? = none → step soFar lexed = .ok none)
    (hsome : ∀ soFar lexed more after, step soFar lexed = .ok (some (more, after)) →
      after.size < lexed.size)
    {fuel : Nat} {soFar result : α} (hfuel : lexed.size ≤ fuel)
    (h : repeated step fuel soFar lexed = .ok (result, rest)) :
    Repeats step soFar lexed result rest := by
  induction fuel generalizing soFar lexed with
  | zero =>
    obtain ⟨rfl, rfl⟩ := Prod.mk.inj (Except.ok.inj h)
    refine .stop (hnone _ _ ?_)
    cases lexed with
    | token _ _ _ => simp [Lexed.size] at hfuel
    | _ => rfl
  | succ fuel ih =>
    simp only [repeated, bind_eq_ok_iff] at h
    obtain ⟨found, hstep, h⟩ := h
    cases found with
    | none =>
      obtain ⟨rfl, rfl⟩ := Prod.mk.inj (Except.ok.inj h)
      exact .stop hstep
    | some found =>
      have := hsome _ _ _ _ hstep
      exact .step hstep (ih (by omega) h)

/-! ### Chains -/

theorem literal_eq_ok {value : Int64} (h : literal lexed = .ok (value, rest)) :
    lexed.size = rest.size + 1 ∧ ∀ tokens, rest.all? = some tokens →
      lexed.all? = some (.integer value :: tokens) := by
  simp only [literal] at h
  split at h
  · simp only [bind_eq_ok_iff] at h
    obtain ⟨after, hadvance, heq⟩ := h
    obtain ⟨rfl, rfl⟩ := Prod.mk.inj (Except.ok.inj heq)
    exact Lexed.advance_eq_ok rfl hadvance
  all_goals simp at h

theorem toArithmetic_eq_ok {position : Nat} {links : Chain} {additive : Bool}
    (h : operand.toArithmetic position = .ok (links, additive)) :
    operand = .chain links additive := by
  cases operand with
  | chain links' additive' =>
    obtain ⟨rfl, rfl⟩ := Prod.mk.inj (Except.ok.inj h)
    rfl
  | _ => simp [Operand.toArithmetic] at h

theorem operator_eq_ok {start : Nat} {left : Operand}
    (h : operator start left lexed = .ok (some (operand, rest))) :
    ∃ op value links additive, left = .chain links additive ∧
      (op.isMultiplicative && additive) = false ∧
      ¬(BinaryOp.arith op).DividesByZero (.literal value) ∧
      operand = .chain (links ++ [(op, value)]) (additive || !op.isMultiplicative) ∧
      lexed.size = rest.size + 2 ∧ ∀ tokens, rest.all? = some tokens →
        lexed.all? = some (.arith op :: .integer value :: tokens) := by
  simp only [operator] at h
  split at h
  · next op position others =>
    simp only [bind_eq_ok_iff, Prod.exists] at h
    obtain ⟨links, additive, hleft, h⟩ := h
    split at h
    · simp [bind, Except.bind] at h
    · next hmixed =>
      simp only [bind_eq_ok_iff, Prod.exists] at h
      obtain ⟨after, hadvance, value, rest', hliteral, h⟩ := h
      obtain ⟨hsize, hall⟩ := Lexed.advance_eq_ok rfl hadvance
      obtain ⟨hsize', hall'⟩ := literal_eq_ok hliteral
      split at h
      · simp [bind, Except.bind] at h
      · next hzero =>
        obtain ⟨rfl, rfl⟩ := Prod.mk.inj (Option.some.inj (Except.ok.inj h))
        refine ⟨op, value, links, additive, toArithmetic_eq_ok hleft, by simpa using hmixed, ?_,
          rfl, by omega, fun tokens htokens => hall _ (hall' _ htokens)⟩
        rintro ⟨hop, hvalue⟩
        obtain rfl := Expr.literal.inj hvalue
        rcases hop with hop | hop <;> obtain rfl := BinaryOp.arith.inj hop <;>
          simp [Arithmetic.divides] at hzero
  · simp [pure, Except.pure] at h

theorem operator_eq_ok_none {start : Nat} {left : Operand}
    (h : operator start left lexed = .ok none) (op : Arithmetic) :
    lexed.head? ≠ some (.arith op) := by
  simp only [operator] at h
  split at h
  · simp only [bind_eq_ok_iff, Prod.exists] at h
    obtain ⟨links, additive, hleft, h⟩ := h
    split at h
    · simp [bind, Except.bind] at h
    · simp only [bind_eq_ok_iff, Prod.exists] at h
      obtain ⟨_, _, _, _, _, h⟩ := h
      split at h
      · simp [bind, Except.bind] at h
      · exact absurd (Except.ok.inj h) (by simp)
  · next hno =>
    intro hhead
    cases lexed with
    | token head position others => exact hno op position others (by rw [Option.some.inj hhead])
    | _ => simp [Lexed.head?] at hhead

/-- The tokens do not go on with an arithmetic operator. -/
def NoArith (tokens : List Token) : Prop :=
  ∀ op : BinaryOp, op.level < 2 → tokens.head? ≠ some op.token

theorem noArith_of_operator {start : Nat} {left : Operand}
    (h : operator start left lexed = .ok none) (htokens : lexed.all? = some tokens) :
    NoArith tokens := by
  intro op hop
  rw [← Lexed.head?_of_all? htokens]
  cases op with
  | arith op => exact operator_eq_ok_none h op
  | compare comparison => cases comparison <;> simp [BinaryOp.level] at hop
  | _ => simp [BinaryOp.level] at hop

/-- A step with an operator adds its link to a chain. -/
theorem eval_link {left : Expr} {links : Chain} (h : ∀ n, left.eval n = links.apply n)
    (op : Arithmetic) (value : Int64) (n : Int64) :
    (Expr.binary (.arith op) left (.literal value)).eval n =
      Chain.apply (links ++ [(op, value)]) n := by
  simp [Expr.eval, BinaryOp.apply, Chain.apply, h n]

/-- Behind an addition or a subtraction only such operators follow, up to the end of the chain. -/
theorem conforms_sums {start : Nat} {links : Chain}
    (h : Repeats (operator start) (.chain links true) lexed operand rest) :
    rest.size ≤ lexed.size ∧ ∀ tokens, rest.all? = some tokens → NoArith tokens ∧
      ∃ all, lexed.all? = some all ∧ (∀ op : BinaryOp, op.level = 0 → all.head? ≠ some op.token) ∧
        ∀ left : Expr, (∀ n, left.eval n = links.apply n) →
          ∃ tree, Derives (.more 1 (.result left)) all tree tokens ∧ operand.Agrees tree := by
  generalize hsoFar : Operand.chain links true = soFar at h
  induction h generalizing links with
  | stop hstep =>
    subst hsoFar
    refine ⟨Nat.le_refl _, fun tokens htokens => ?_⟩
    have hno := noArith_of_operator hstep htokens
    refine ⟨hno, tokens, htokens, fun op hop => hno op (by omega), fun left heval => ?_⟩
    exact ⟨_, .stop fun op hop => hno op (by omega), left, rfl, heval⟩
  | step hstep hmore ih =>
    subst hsoFar
    obtain ⟨op, value, links', additive, hleft, hmixed, hzero, rfl, hsize, hall⟩ :=
      operator_eq_ok hstep
    obtain ⟨rfl, rfl⟩ := Operand.chain.inj hleft
    rw [Bool.and_true] at hmixed
    obtain ⟨hle, hderives⟩ := ih rfl
    refine ⟨by omega, fun tokens htokens => ?_⟩
    obtain ⟨hno, others, hothers, hnext, hderives⟩ := hderives tokens htokens
    have hlevel : (BinaryOp.arith op).level = 1 := by simp [BinaryOp.level, hmixed]
    refine ⟨hno, _, hall _ hothers, fun op' hop' heq => ?_, fun left heval => ?_⟩
    · obtain rfl : BinaryOp.arith op = op' := BinaryOp.token_inj.mp (Option.some.inj heq)
      omega
    · obtain ⟨tree, hmore, hagrees⟩ := hderives _ (eval_link heval op value)
      exact ⟨tree, .binary hlevel rfl (.level .integer (.stop hnext)) hzero hmore, hagrees⟩

/-- A chain without an addition or a subtraction goes on with operators of both levels. -/
theorem conforms_products {start : Nat} {links : Chain}
    (h : Repeats (operator start) (.chain links false) lexed operand rest) :
    rest.size ≤ lexed.size ∧ ∀ tokens, rest.all? = some tokens → NoArith tokens ∧
      ∃ all, lexed.all? = some all ∧ ∀ left : Expr, (∀ n, left.eval n = links.apply n) →
        ∃ mid product tree, Derives (.more 0 (.result left)) all product mid ∧
          Derives (.more 1 product) mid tree tokens ∧ operand.Agrees tree := by
  generalize hsoFar : Operand.chain links false = soFar at h
  induction h generalizing links with
  | stop hstep =>
    subst hsoFar
    refine ⟨Nat.le_refl _, fun tokens htokens => ?_⟩
    have hno := noArith_of_operator hstep htokens
    refine ⟨hno, tokens, htokens, fun left heval => ?_⟩
    exact ⟨tokens, _, _, .stop fun op hop => hno op (by omega),
      .stop fun op hop => hno op (by omega), left, rfl, heval⟩
  | step hstep hmore ih =>
    subst hsoFar
    obtain ⟨op, value, links', additive, hleft, -, hzero, rfl, hsize, hall⟩ :=
      operator_eq_ok hstep
    obtain ⟨rfl, rfl⟩ := Operand.chain.inj hleft
    cases hop : op.isMultiplicative with
    | true =>
      have hlevel : (BinaryOp.arith op).level = 0 := by simp [BinaryOp.level, hop]
      obtain ⟨hle, hderives⟩ := @ih (links ++ [(op, value)]) (by simp [hop])
      refine ⟨by omega, fun tokens htokens => ?_⟩
      obtain ⟨hno, others, hothers, hderives⟩ := hderives tokens htokens
      refine ⟨hno, _, hall _ hothers, fun left heval => ?_⟩
      obtain ⟨mid, product, tree, hproduct, hsum, hagrees⟩ :=
        hderives _ (eval_link heval op value)
      exact ⟨mid, product, tree, .binary hlevel rfl .integer hzero hproduct, hsum, hagrees⟩
    | false =>
      have hlevel : (BinaryOp.arith op).level = 1 := by simp [BinaryOp.level, hop]
      rw [hop] at hmore
      obtain ⟨hle, hderives⟩ := conforms_sums hmore
      refine ⟨by omega, fun tokens htokens => ?_⟩
      obtain ⟨hno, others, hothers, hnext, hderives⟩ := hderives tokens htokens
      refine ⟨hno, _, hall _ hothers, fun left heval => ?_⟩
      obtain ⟨tree, hsum, hagrees⟩ := hderives _ (eval_link heval op value)
      refine ⟨_, _, tree, .stop fun op' hop' heq => ?_,
        .binary hlevel rfl (.level .integer (.stop hnext)) hzero hsum, hagrees⟩
      obtain rfl : BinaryOp.arith op = op' := BinaryOp.token_inj.mp (Option.some.inj heq)
      omega

/-- An operand that is no chain has no arithmetic operator behind it. -/
theorem eq_of_repeats {start : Nat} {first : Operand}
    (h : Repeats (operator start) first lexed operand rest)
    (hfirst : ∀ links additive, first ≠ .chain links additive) :
    first = operand ∧ lexed = rest ∧ ∀ tokens, rest.all? = some tokens → NoArith tokens := by
  cases h with
  | stop hstep => exact ⟨rfl, rfl, fun _ htokens => noArith_of_operator hstep htokens⟩
  | step hstep _ =>
    obtain ⟨_, _, links, additive, hleft, -⟩ := operator_eq_ok hstep
    exact absurd hleft (hfirst links additive)

theorem conforms_primary (h : Conforms inner .conditional)
    (hread : primary inner lexed = .ok (operand, rest)) :
    rest.size ≤ lexed.size ∧ (∀ links, operand ≠ .chain links true) ∧
      ∀ tokens, rest.all? = some tokens →
        ∃ all tree, lexed.all? = some all ∧ Derives (.level 0) all tree tokens ∧
          operand.Agrees tree := by
  simp only [primary] at hread
  split at hread
  · simp only [bind_eq_ok_iff] at hread
    obtain ⟨after, hadvance, heq⟩ := hread
    obtain ⟨rfl, rfl⟩ := Prod.mk.inj (Except.ok.inj heq)
    obtain ⟨hsize, hall⟩ := Lexed.advance_eq_ok rfl hadvance
    exact ⟨by omega, by simp, fun tokens htokens =>
      ⟨_, _, hall tokens htokens, .count, .count, rfl, fun n => rfl⟩⟩
  · simp only [bind_eq_ok_iff] at hread
    obtain ⟨after, hadvance, heq⟩ := hread
    obtain ⟨rfl, rfl⟩ := Prod.mk.inj (Except.ok.inj heq)
    obtain ⟨hsize, hall⟩ := Lexed.advance_eq_ok rfl hadvance
    exact ⟨by omega, by simp, fun tokens htokens =>
      ⟨_, _, hall tokens htokens, .integer, rfl⟩⟩
  · next position others =>
    simp only [bind_eq_ok_iff, Prod.exists] at hread
    obtain ⟨after, hadvance, found, mid, hinner, last, hexpect, hread⟩ := hread
    obtain ⟨hsize, hall⟩ := Lexed.advance_eq_ok rfl hadvance
    obtain ⟨hle, hderives⟩ := h _ _ _ hinner
    obtain ⟨hsize', hall'⟩ := Lexed.expect_eq_ok hexpect
    have hparens (tokens : List Token) (htokens : last.all? = some tokens) :
        ∃ all tree, (Lexed.token .opening position others).all? = some all ∧
          Derives (.level 0) all tree tokens ∧ found.Agrees tree := by
      have hcalm : Calm (.closing :: tokens) :=
        calm_cons fun op _ => by cases op <;> simp [BinaryOp.token]
      obtain ⟨inside, tree, hinside, hderives, hagrees⟩ := hderives _ (hall' tokens htokens) hcalm
      exact ⟨_, tree, hall inside hinside, .parens hderives, hagrees⟩
    split at hread
    · obtain ⟨rfl, rfl⟩ := Prod.mk.inj (Except.ok.inj hread)
      exact ⟨by omega, by simp, hparens⟩
    · next hchain =>
      obtain ⟨rfl, rfl⟩ := Prod.mk.inj (Except.ok.inj hread)
      exact ⟨by omega, fun links => hchain links true, hparens⟩
  all_goals simp at hread

theorem operator_repeats {start : Nat} {first : Operand}
    (h : repeated (operator start) lexed.size first lexed = .ok (operand, rest)) :
    Repeats (operator start) first lexed operand rest := by
  refine repeats_of_repeated (fun soFar lexed hhead => ?_) (fun soFar lexed more after hstep => ?_)
    (Nat.le_refl _) h
  · cases lexed with
    | token _ _ _ => simp [Lexed.head?] at hhead
    | _ => rfl
  · obtain ⟨_, _, _, _, -, -, -, -, hsize, -⟩ := operator_eq_ok hstep
    omega

theorem conforms_arithmetic (h : Conforms inner .conditional)
    (hread : arithmetic inner lexed = .ok (operand, rest)) :
    rest.size ≤ lexed.size ∧ ∀ tokens, rest.all? = some tokens →
      ∃ all tree, lexed.all? = some all ∧ Derives (.level 2) all tree tokens ∧
        operand.Agrees tree := by
  simp only [arithmetic, bind_eq_ok_iff, Prod.exists] at hread
  obtain ⟨first, after, hprimary, hread⟩ := hread
  have hrepeats := operator_repeats hread
  obtain ⟨hle, hadditive, hderives⟩ := conforms_primary h hprimary
  cases first with
  | chain links additive =>
    obtain rfl : additive = false := by
      cases additive with
      | false => rfl
      | true => exact absurd rfl (hadditive links)
    obtain ⟨hle', hmore⟩ := conforms_products hrepeats
    refine ⟨by omega, fun tokens htokens => ?_⟩
    obtain ⟨-, others, hothers, hmore⟩ := hmore tokens htokens
    obtain ⟨all, tree, hall, hfirst, left, rfl, heval⟩ := hderives others hothers
    obtain ⟨mid, product, tree, hproduct, hsum, hagrees⟩ := hmore left heval
    exact ⟨all, tree, hall, .level (.level hfirst hproduct) hsum, hagrees⟩
  | _ =>
    obtain ⟨rfl, rfl, hno⟩ := eq_of_repeats hrepeats (by simp)
    refine ⟨hle, fun tokens htokens => ?_⟩
    obtain ⟨all, tree, hall, hfirst, hagrees⟩ := hderives tokens htokens
    exact ⟨all, tree, hall, hfirst.raise (by omega) fun op _ hop => hno tokens htokens op hop,
      hagrees⟩

/-! ### Comparisons -/

theorem toCompared_eq_ok {position : Nat} {links : Chain}
    (h : operand.toCompared position = .ok links) :
    ∃ additive, operand = .chain links additive := by
  cases operand with
  | chain links' additive =>
    obtain rfl := Except.ok.inj h
    exact ⟨additive, rfl⟩
  | _ => simp [Operand.toCompared] at h

theorem derives_compare {relation : Comparison} {value : Int64} {all : List Token} {left : Expr}
    (h : Derives (.level 2) all (.result left) (.compare relation :: .integer value :: tokens))
    (hcalm : Calm tokens) :
    Derives (.level 4) all (.result (.binary (.compare relation) left (.literal value)))
      tokens := by
  have hzero : ¬(BinaryOp.compare relation).DividesByZero (.literal value) := by
    simp [BinaryOp.DividesByZero]
  have hright (k : Nat) (hk : k < 4) :
      Derives (.level k) (.integer value :: tokens) (.result (.literal value)) tokens :=
    Derives.integer.raise (Nat.zero_le k) fun op _ hop => hcalm op (by omega)
  have hstop (k : Nat) (hk : k < 4) (tree : SyntaxTree) :
      Derives (.more k tree) tokens tree tokens :=
    .stop fun op hop => hcalm op (by omega)
  have hother (k : Nat) (hk : (BinaryOp.compare relation).level ≠ k) (tree : SyntaxTree) :
      Derives (.more k tree) (.compare relation :: .integer value :: tokens) tree
        (.compare relation :: .integer value :: tokens) := by
    refine .stop fun op hop heq => hk ?_
    obtain rfl : BinaryOp.compare relation = op := BinaryOp.token_inj.mp (Option.some.inj heq)
    exact hop
  by_cases hlevel : (BinaryOp.compare relation).level = 2
  · exact .level (.level h (.binary hlevel rfl (hright 2 (by omega)) hzero (hstop 2 (by omega) _)))
      (hstop 3 (by omega) _)
  · have hlevel' : (BinaryOp.compare relation).level = 3 := by
      cases relation <;> simp_all [BinaryOp.level]
    exact .level (.level h (hother 2 (by omega) _))
      (.binary hlevel' rfl (hright 3 (by omega)) hzero (hstop 3 (by omega) _))

theorem conforms_comparison (h : Conforms inner .conditional) :
    Conforms (comparison inner) (.level 4) := by
  intro lexed operand rest hread
  simp only [comparison, bind_eq_ok_iff, Prod.exists] at hread
  obtain ⟨left, after, harithmetic, hread⟩ := hread
  obtain ⟨hle, hderives⟩ := conforms_arithmetic h harithmetic
  split at hread
  · next relation position others =>
    simp only [bind_eq_ok_iff, Prod.exists] at hread
    obtain ⟨links, hleft, mid, hadvance, value, last, hliteral, heq⟩ := hread
    obtain ⟨rfl, rfl⟩ := Prod.mk.inj (Except.ok.inj heq)
    obtain ⟨additive, rfl⟩ := toCompared_eq_ok hleft
    obtain ⟨hsize, hall⟩ := Lexed.advance_eq_ok rfl hadvance
    obtain ⟨hsize', hall'⟩ := literal_eq_ok hliteral
    refine ⟨by omega, fun tokens htokens hcalm => ?_⟩
    obtain ⟨all, tree, hall, hderives, left, rfl, heval⟩ := hderives _ (hall _ (hall' _ htokens))
    refine ⟨all, _, hall, derives_compare hderives hcalm, _, rfl, fun n => ?_⟩
    simp [Expr.eval, BinaryOp.apply, heval, Condition.holds]
  · obtain ⟨rfl, rfl⟩ := Prod.mk.inj (Except.ok.inj hread)
    refine ⟨hle, fun tokens htokens hcalm => ?_⟩
    obtain ⟨all, tree, hall, hderives, hagrees⟩ := hderives tokens htokens
    exact ⟨all, tree, hall, hderives.raise (by omega) fun op _ hop => hcalm op hop, hagrees⟩

/-! ### Connectives -/

section Connective

variable {op : BinaryOp} {join : Condition → Condition → Condition} {start k : Nat}

theorem joined_eq_ok {mark : Token} {left : Operand}
    (h : joined mark join next start left lexed = .ok (some (operand, rest))) :
    ∃ first after right second position, lexed.head? = some mark ∧ lexed.advance = .ok after ∧
      left.toCondition start = .ok first ∧ next after = .ok (right, rest) ∧
      right.toCondition position = .ok second ∧ operand = .condition (join first second) := by
  simp only [joined] at h
  split at h
  · next hhead =>
    simp only [bind_eq_ok_iff, Prod.exists] at h
    obtain ⟨first, hfirst, after, hadvance, right, last, hnext, second, hsecond, heq⟩ := h
    obtain ⟨rfl, rfl⟩ := Prod.mk.inj (Option.some.inj (Except.ok.inj heq))
    exact ⟨first, after, right, second, _, hhead, hadvance, hfirst, hnext, hsecond, rfl⟩
  · simp [pure, Except.pure] at h

theorem joined_eq_ok_none {mark : Token} {left : Operand}
    (h : joined mark join next start left lexed = .ok none) : lexed.head? ≠ some mark := by
  simp only [joined] at h
  split at h
  · simp only [bind_eq_ok_iff, Prod.exists] at h
    obtain ⟨_, _, _, _, _, _, _, _, _, heq⟩ := h
    exact absurd (Except.ok.inj heq) (by simp)
  · assumption

theorem conforms_joined (h : Conforms next (.level op.level)) (hop : 4 ≤ op.level)
    (hunique : ∀ op' : BinaryOp, op'.level = op.level → op' = op)
    (hjoin : ∀ first second n, wordOfBool ((join first second).holds n) =
      op.apply (wordOfBool (first.holds n)) (wordOfBool (second.holds n)))
    {left : Operand}
    (hrepeats : Repeats (joined op.token join next start) left lexed operand rest) :
    rest.size ≤ lexed.size ∧ ∀ tokens, rest.all? = some tokens → Calm tokens →
      ∃ all, lexed.all? = some all ∧ Calm all ∧ ∀ tree, left.Agrees tree →
        ∃ tree', Derives (.more op.level tree) all tree' tokens ∧ operand.Agrees tree' := by
  induction hrepeats with
  | stop hstep =>
    refine ⟨Nat.le_refl _, fun tokens htokens hcalm => ⟨tokens, htokens, hcalm, ?_⟩⟩
    refine fun tree hagrees => ⟨tree, .stop fun op' hop' => ?_, hagrees⟩
    obtain rfl := hunique op' hop'
    rw [← Lexed.head?_of_all? htokens]
    exact joined_eq_ok_none hstep
  | step hstep _ ih =>
    obtain ⟨first, after, right, second, position, hhead, hadvance, hfirst, hnext, hsecond, rfl⟩ :=
      joined_eq_ok hstep
    obtain ⟨hsize, hall⟩ := Lexed.advance_eq_ok hhead hadvance
    obtain ⟨hle, hderives⟩ := h _ _ _ hnext
    obtain ⟨hle', hmore⟩ := ih
    refine ⟨by omega, fun tokens htokens hcalm => ?_⟩
    obtain ⟨others, hothers, hcalm, hmore⟩ := hmore tokens htokens hcalm
    obtain ⟨all, rightTree, hright, hderives, hagrees⟩ := hderives others hothers hcalm
    obtain ⟨rightExpr, rfl, hevalRight⟩ := agrees_of_toCondition hsecond hagrees
    refine ⟨_, hall all hright, calm_cons fun op' hop' heq => ?_, fun tree hagrees => ?_⟩
    · obtain rfl := BinaryOp.token_inj.mp heq
      omega
    · obtain ⟨leftExpr, rfl, hevalLeft⟩ := agrees_of_toCondition hfirst hagrees
      have hagrees' : (Operand.condition (join first second)).Agrees
          (.result (.binary op leftExpr rightExpr)) :=
        ⟨_, rfl, fun n => by rw [Expr.eval, hevalLeft, hevalRight, hjoin]⟩
      obtain ⟨tree', hmore, hagrees⟩ := hmore _ hagrees'
      have hzero : ¬op.DividesByZero rightExpr := by
        rintro ⟨rfl | rfl, -⟩ <;> simp [BinaryOp.level, Arithmetic.isMultiplicative] at hop
      exact ⟨tree', .binary rfl rfl hderives hzero hmore, hagrees⟩

theorem conforms_connected (op : BinaryOp) (h : Conforms next (.level op.level))
    (hop : 4 ≤ op.level)
    (hunique : ∀ op' : BinaryOp, op'.level = op.level → op' = op)
    (hjoin : ∀ first second n, wordOfBool ((join first second).holds n) =
      op.apply (wordOfBool (first.holds n)) (wordOfBool (second.holds n))) :
    Conforms (connected op.token join next) (.level (op.level + 1)) := by
  intro lexed operand rest hread
  simp only [connected, bind_eq_ok_iff, Prod.exists] at hread
  obtain ⟨first, after, hnext, hread⟩ := hread
  have hrepeats : Repeats (joined op.token join next lexed.position) first after operand rest := by
    refine repeats_of_repeated (fun soFar lexed hhead => ?_)
      (fun soFar lexed more after hstep => ?_) (Nat.le_refl _) hread
    · simp [joined, hhead, pure, Except.pure]
    · obtain ⟨_, _, _, _, _, hhead, hadvance, -, hnext, -, -⟩ := joined_eq_ok hstep
      have hsize := (Lexed.advance_eq_ok hhead hadvance).1
      have hle := (h _ _ _ hnext).1
      omega
  obtain ⟨hle, hderives⟩ := h _ _ _ hnext
  obtain ⟨hle', hmore⟩ := conforms_joined h hop hunique hjoin hrepeats
  refine ⟨by omega, fun tokens htokens hcalm => ?_⟩
  obtain ⟨others, hothers, hcalm, hmore⟩ := hmore tokens htokens hcalm
  obtain ⟨all, tree, hall, hderives, hagrees⟩ := hderives others hothers hcalm
  obtain ⟨tree', hmore, hagrees⟩ := hmore tree hagrees
  exact ⟨all, tree', hall, .level hderives hmore, hagrees⟩

end Connective

theorem conforms_disjunction (h : Conforms inner .conditional) :
    Conforms (disjunction inner) (.level 6) := by
  have hand : Conforms (connected .and .and (comparison inner)) (.level 5) := by
    refine conforms_connected .and (conforms_comparison h) (Nat.le_refl _) ?_ ?_
    · rintro (op | comparison | _ | _) hop
      · cases op <;> simp [BinaryOp.level, Arithmetic.isMultiplicative] at hop
      · cases comparison <;> simp [BinaryOp.level] at hop
      · rfl
      · simp [BinaryOp.level] at hop
    · intro first second n
      cases hfirst : first.holds n <;> cases hsecond : second.holds n <;>
        simp [Condition.holds, hfirst, hsecond, BinaryOp.apply, wordOfBool]
  refine conforms_connected .or hand (by decide) ?_ ?_
  · rintro (op | comparison | _ | _) hop
    · cases op <;> simp [BinaryOp.level, Arithmetic.isMultiplicative] at hop
    · cases comparison <;> simp [BinaryOp.level] at hop
    · simp [BinaryOp.level] at hop
    · rfl
  · intro first second n
    cases hfirst : first.holds n <;> cases hsecond : second.holds n <;>
      simp [Condition.holds, hfirst, hsecond, BinaryOp.apply, wordOfBool]

/-! ### Expressions -/

theorem conforms_branch (h : Conforms inner .conditional) {selection : Selection}
    (hread : branch inner lexed = .ok (selection, rest)) :
    rest.size ≤ lexed.size ∧ ∀ tokens, rest.all? = some tokens → Calm tokens →
      ∃ all tree, lexed.all? = some all ∧ Derives .conditional all tree tokens ∧
        ∀ n, tree.eval n = selection.eval n := by
  simp only [branch, bind_eq_ok_iff, Prod.exists] at hread
  obtain ⟨operand, after, hinner, selection', hselection, heq⟩ := hread
  obtain ⟨rfl, rfl⟩ := Prod.mk.inj (Except.ok.inj heq)
  obtain ⟨hle, hderives⟩ := h _ _ _ hinner
  refine ⟨hle, fun tokens htokens hcalm => ?_⟩
  obtain ⟨all, tree, hall, hderives, hagrees⟩ := hderives tokens htokens hcalm
  exact ⟨all, tree, hall, hderives, eval_of_toSelection hselection hagrees⟩

/-- What the reader of an expression has read: a disjunction, and after a question mark the two
branches of a choice. -/
theorem expression_eq_ok {depth : Nat} {lexed rest : Lexed} {operand : Operand}
    (h : expression (depth + 1) lexed = .ok (operand, rest)) :
    ∃ head mid, disjunction (expression depth) lexed = .ok (head, mid) ∧
      ((mid.head? ≠ some .question ∧ operand = head ∧ rest = mid) ∨
        (mid.head? = some .question ∧
          ∃ condition afterMark yes afterYes afterColon no,
            head.toCondition lexed.position = .ok condition ∧
            mid.advance = .ok afterMark ∧
            branch (expression depth) afterMark = .ok (yes, afterYes) ∧
            afterYes.expect .colon .colon = .ok afterColon ∧
            branch (expression depth) afterColon = .ok (no, rest) ∧
            operand = .choice condition yes no)) := by
  simp only [expression, bind_eq_ok_iff, Prod.exists] at h
  obtain ⟨head, mid, hhead, h⟩ := h
  refine ⟨head, mid, hhead, ?_⟩
  split at h
  · next hquestion =>
    simp only [bind_eq_ok_iff, Prod.exists] at h
    obtain ⟨condition, hcondition, afterMark, hadvance, yes, afterYes, hyes, afterColon, hexpect,
      no, last, hno, heq⟩ := h
    obtain ⟨rfl, rfl⟩ := Prod.mk.inj (Except.ok.inj heq)
    exact .inr ⟨hquestion, condition, afterMark, yes, afterYes, afterColon, no, hcondition,
      hadvance, hyes, hexpect, hno, rfl⟩
  · next hquestion =>
    obtain ⟨rfl, rfl⟩ := Prod.mk.inj (Except.ok.inj h)
    exact .inl ⟨hquestion, rfl, rfl⟩

theorem conforms_expression (depth : Nat) : Conforms (expression depth) .conditional := by
  induction depth with
  | zero => intro lexed operand rest hread; simp [expression] at hread
  | succ depth ih =>
    intro lexed operand rest hread
    obtain ⟨head, mid, hhead, ⟨hquestion, rfl, rfl⟩ | ⟨hquestion, condition, afterMark, yes,
      afterYes, afterColon, no, hcondition, hadvance, hyes, hexpect, hno, rfl⟩⟩ :=
        expression_eq_ok hread
    all_goals obtain ⟨hle, hderives⟩ := conforms_disjunction ih _ _ _ hhead
    · refine ⟨hle, fun tokens htokens hcalm => ?_⟩
      obtain ⟨all, tree, hall, hderives, hagrees⟩ := hderives tokens htokens hcalm
      rw [Lexed.head?_of_all? htokens] at hquestion
      exact ⟨all, tree, hall, .plain hderives hquestion, hagrees⟩
    · obtain ⟨hsize, hall⟩ := Lexed.advance_eq_ok hquestion hadvance
      obtain ⟨hleYes, hderivesYes⟩ := conforms_branch ih hyes
      obtain ⟨hsize', hall'⟩ := Lexed.expect_eq_ok hexpect
      obtain ⟨hleNo, hderivesNo⟩ := conforms_branch ih hno
      refine ⟨by omega, fun tokens htokens hcalm => ?_⟩
      obtain ⟨tokensNo, treeNo, hallNo, hderivesNo, hevalNo⟩ := hderivesNo tokens htokens hcalm
      obtain ⟨tokensYes, treeYes, hallYes, hderivesYes, hevalYes⟩ :=
        hderivesYes _ (hall' _ hallNo) (calm_cons fun op _ => by cases op <;> simp [BinaryOp.token])
      obtain ⟨all, tree, hallHead, hderives, hagrees⟩ :=
        hderives _ (hall _ hallYes) (calm_cons fun op _ => by cases op <;> simp [BinaryOp.token])
      obtain ⟨expr, rfl, heval⟩ := agrees_of_toCondition hcondition hagrees
      refine ⟨all, _, hallHead, .choose hderives hderivesYes hderivesNo, fun n => ?_⟩
      cases hholds : condition.holds n <;>
        simp [SyntaxTree.eval, Selection.eval, heval, hevalYes, hevalNo, hholds, wordOfBool]

/-- A text that is accepted is read to its end, as an operand that becomes the selection. -/
theorem exists_expression_of_parse {text : List Char} {selection : Selection}
    (h : parse text = .ok selection) :
    ∃ depth operand last position,
      expression depth (Lexed.ofChars text) = .ok (operand, .eof last) ∧
      operand.toSelection position = .ok selection := by
  simp only [parse, ofLexed] at h
  split at h
  · simp at h
  · simp at h
  · next _ position _ _ =>
    simp only [bind_eq_ok_iff, Prod.exists] at h
    obtain ⟨operand, rest, hread, h⟩ := h
    split at h
    · next last => exact ⟨_, operand, last, position, hread, h⟩
    · simp at h

/-- The tokens of a text that is accepted derive a tree with the value of the selection. -/
theorem derives_of_parse {text : List Char} {selection : Selection}
    (h : parse text = .ok selection) :
    ∃ tokens tree, Text.tokens? text = some tokens ∧ Derives .conditional tokens tree [] ∧
      ∀ n, tree.eval n = selection.eval n := by
  obtain ⟨depth, operand, last, position, hread, hselection⟩ := exists_expression_of_parse h
  obtain ⟨-, hderives⟩ := conforms_expression depth _ _ _ hread
  obtain ⟨tokens, tree, htokens, hderives, hagrees⟩ := hderives [] rfl fun op _ => by simp
  exact ⟨tokens, tree, htokens, hderives, eval_of_toSelection hselection hagrees⟩

end Selection

end PluralForms
