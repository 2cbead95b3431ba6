import PluralForms.Engine
import PluralForms.Proofs.ErrorPlaces
import PluralForms.Proofs.FrontEnds

/-! Fatal errors. The reader of selections finds one only where a text has a flaw that no reading of
its tokens can mend: a place that starts no token, or a division by the literal zero. The grammar of
syntax trees derives nothing with such a flaw, so an engine that stops at a fatal error loses no
formula. -/

namespace PluralForms

/-! ### Flaws of tokens -/

/-- The second token is the literal zero, and the first divides by it. -/
def Token.DividesByZero (first second : Token) : Prop :=
  ∃ op : Arithmetic, first = .arith op ∧ op.divides = true ∧ second = .integer 0

/-- No token divides by a literal zero behind it. -/
def NoZeroDivisor (tokens : List Token) : Prop :=
  tokens.IsChain fun first second => ¬first.DividesByZero second

theorem NoZeroDivisor.cons {token : Token} {rest : List Token} (hrest : NoZeroDivisor rest)
    (h : ∀ op : Arithmetic, op.divides = true → token ≠ .arith op) :
    NoZeroDivisor (token :: rest) := by
  refine List.IsChain.cons hrest fun next _ => ?_
  rintro ⟨op, htoken, hdivides, -⟩
  exact h op hdivides htoken

namespace SyntaxTree

variable {goal : Goal} {tokens rest : List Token} {tree : SyntaxTree}

/-- An operand that starts with a literal is no more than that. -/
theorem Derives.eq_of_integer {value : Int64}
    (h : Derives (.level 0) (.integer value :: tokens) tree rest) :
    tree = .result (.literal value) := by
  cases h with
  | integer => rfl
  | @unary op _ _ _ _ htoken _ => cases op <;> simp [UnaryOp.token] at htoken

/-- No part of a tree divides by a literal zero, wherever its tokens stand. -/
theorem Derives.noZeroDivisor (h : Derives goal tokens tree rest) (hrest : NoZeroDivisor rest) :
    NoZeroDivisor tokens := by
  induction h with
  | count | integer => exact hrest.cons fun _ _ => by simp
  | parens _ ih => exact (ih (hrest.cons fun _ _ => by simp)).cons fun _ _ => by simp
  | @unary op _ _ _ _ htoken _ ih =>
    subst htoken
    refine (ih hrest).cons fun op' hdivides htoken => ?_
    cases op with
    | neg =>
      obtain rfl := Token.arith.inj htoken
      simp [Arithmetic.divides] at hdivides
    | not => simp [UnaryOp.token] at htoken
  | level _ _ ihFirst ihMore => exact ihFirst (ihMore hrest)
  | stop _ => exact hrest
  | @binary k op _ tokens _ _ _ _ _ hlevel htoken hright hzero _ ihRight ihMore =>
    subst htoken
    refine List.IsChain.cons (ihRight (ihMore hrest)) fun next hnext => ?_
    rintro ⟨op', htoken, hdivides, rfl⟩
    obtain ⟨others, rfl⟩ := List.head?_eq_some_iff.mp hnext
    obtain rfl : op = .arith op' := BinaryOp.token_inj.mp htoken
    -- A division is of the lowest level, so its right operand is the literal alone.
    obtain rfl : k = 0 := by
      cases op' <;> simp_all [Arithmetic.divides, BinaryOp.level, Arithmetic.isMultiplicative]
    obtain rfl := SyntaxTree.result.inj hright.eq_of_integer
    refine hzero ⟨?_, rfl⟩
    cases op' <;> simp_all [Arithmetic.divides]
  | plain _ _ ih => exact ih hrest
  | choose _ _ _ ihCondition ihYes ihNo =>
    have hno := ihNo hrest
    have hyes := ihYes (hno.cons fun _ _ => by simp)
    exact ihCondition (hyes.cons fun _ _ => by simp)

end SyntaxTree

namespace Lexed

variable {lexed rest : Lexed} {tokens : List Token}

/-- A place that starts no token, or a division by the literal zero. -/
inductive Flawed : Lexed → Prop
  | broken (error : ParseError) : Flawed (.broken error)
  | zero {op : Arithmetic} {position : Nat} {rest : Lexed} :
      op.divides = true → rest.head? = some (.integer 0) →
      Flawed (.token (.arith op) position rest)
  | later {token : Token} {position : Nat} {rest : Lexed} :
      Flawed rest → Flawed (.token token position rest)

theorem Flawed.not_noZeroDivisor (h : lexed.Flawed) (htokens : lexed.all? = some tokens) :
    ¬NoZeroDivisor tokens := by
  induction h generalizing tokens with
  | broken error => simp [all?] at htokens
  | @zero op position rest hdivides hzero =>
    obtain ⟨others, hothers, rfl⟩ := Option.map_eq_some_iff.mp htokens
    rw [head?_of_all? hothers] at hzero
    intro hchain
    exact (List.isChain_cons.mp hchain).1 _ hzero ⟨op, rfl, hdivides, rfl⟩
  | later _ ih =>
    obtain ⟨others, hothers, rfl⟩ := Option.map_eq_some_iff.mp htokens
    intro hchain
    exact ih hothers (List.isChain_cons.mp hchain).2

end Lexed

/-- No syntax tree is read from a text with a flaw. -/
theorem SyntaxTree.parse_ne_ok_of_flawed {text : List Char} (h : (Lexed.ofChars text).Flawed)
    (tree : SyntaxTree) : SyntaxTree.parse text ≠ .ok tree := by
  intro hparse
  obtain ⟨tokens, htokens, hderives⟩ := derives_of_parse hparse
  exact h.not_noZeroDivisor htokens (hderives.noZeroDivisor .nil)

/-! ### Attempts that blame their input -/

section Blames

variable {α β : Type} {flawed : Prop} {left : α → Prop} {left' : β → Prop}
  {x : Except ParseError α} {f : α → Except ParseError β}

/-- A fatal error of the attempt is due to a flaw, and so is a flaw of what a success leaves. -/
structure Blames (flawed : Prop) (left : α → Prop) (x : Except ParseError α) : Prop where
  error : ∀ e, x = .error e → e.isFatal = true → flawed
  ok : ∀ a, x = .ok a → left a → flawed

theorem Blames.of_ok {a : α} (h : left a → flawed) : Blames flawed left (.ok a) where
  error e he := by simp at he
  ok b hb := Except.ok.inj hb ▸ h

theorem Blames.of_error {e : ParseError} (h : e.isFatal = true → flawed) :
    Blames flawed left (.error e) where
  error e' he := Except.error.inj he ▸ h
  ok b hb := by simp at hb

theorem Blames.mono {flawed' : Prop} (h : Blames flawed left x) (himp : flawed → flawed') :
    Blames flawed' left x where
  error e he hfatal := himp (h.error e he hfatal)
  ok a ha hleft := himp (h.ok a ha hleft)

/-- What comes after the first attempt may blame the input or what the attempt leaves. -/
theorem Blames.bind (h : Blames flawed left x)
    (hnext : ∀ a, x = .ok a → Blames (flawed ∨ left a) left' (f a)) :
    Blames flawed left' (x >>= f) := by
  cases hx : x with
  | error e => exact .of_error (h.error e hx)
  | ok a =>
    refine (hnext a hx).mono ?_
    rintro (hflawed | hleft)
    · exact hflawed
    · exact h.ok a hx hleft

theorem Blames.of_harmless {e : ParseError} (h : e.isFatal = false) :
    Blames flawed left (.error e) :=
  .of_error fun hfatal => absurd (h.symm.trans hfatal) Bool.false_ne_true

/-- A conversion that finds no fatal error blames nothing, so the input of what comes after it is
still to blame. -/
theorem Blames.convert (h : ∀ e, x = .error e → e.isFatal = false)
    (hnext : ∀ a, x = .ok a → Blames flawed left' (f a)) : Blames flawed left' (x >>= f) := by
  cases hx : x with
  | error e => exact .of_harmless (h e hx)
  | ok a => exact hnext a hx

end Blames

namespace Lexed

variable {lexed rest : Lexed}

theorem blames_advance (lexed : Lexed) : Blames lexed.Flawed Flawed lexed.advance := by
  cases lexed with
  | eof position => exact .of_ok id
  | broken error => exact .of_ok id
  | token found position rest =>
    cases rest with
    | broken error => exact .of_error fun _ => .later (.broken error)
    | eof | token => exact .of_ok .later

theorem advance_token_eq_ok {found : Token} {position : Nat} {others : Lexed}
    (h : (token found position others).advance = .ok rest) : others = rest := by
  cases others with
  | broken error => simp [advance] at h
  | eof | token => exact Except.ok.inj h

/-- Only what starts no token is unexpected in a fatal way. -/
theorem flawed_of_unexpected {expected : Expectation}
    (h : (lexed.unexpected expected).isFatal = true) : lexed.Flawed := by
  cases lexed with
  | broken error => exact .broken error
  | eof | token => simp [unexpected, ParseError.isFatal] at h

theorem blames_expect (wanted : Token) (expected : Expectation) (lexed : Lexed) :
    Blames lexed.Flawed Flawed (lexed.expect wanted expected) := by
  simp only [expect]
  split
  · exact lexed.blames_advance
  · exact .of_error flawed_of_unexpected

end Lexed

namespace Selection

variable {α : Type} {lexed rest : Lexed} {inner next : Reader Operand} {operand : Operand}
  {start : Nat} {e : ParseError}

/-! ### Operands as the kind that is needed -/

theorem harmless_toCondition (h : operand.toCondition start = .error e) : e.isFatal = false := by
  cases operand with
  | condition found => simp [Operand.toCondition] at h
  | _ => exact Except.error.inj h ▸ rfl

theorem harmless_toSelection (h : operand.toSelection start = .error e) : e.isFatal = false := by
  cases operand with
  | chain links additive => exact Except.error.inj h ▸ rfl
  | _ => simp [Operand.toSelection] at h

theorem harmless_toArithmetic (h : operand.toArithmetic start = .error e) :
    e.isFatal = false := by
  cases operand with
  | chain links additive => simp [Operand.toArithmetic] at h
  | _ => exact Except.error.inj h ▸ rfl

theorem harmless_toCompared (h : operand.toCompared start = .error e) : e.isFatal = false := by
  cases operand with
  | chain links additive => simp [Operand.toCompared] at h
  | _ => exact Except.error.inj h ▸ rfl

/-! ### Readers -/

/-- The reader blames a fatal error on the tokens that it is given, and so it does with a flaw of
those that it leaves. -/
def Traces (reader : Reader α) : Prop :=
  ∀ lexed, Blames lexed.Flawed (fun read => read.2.Flawed) (reader lexed)

theorem blames_advance_pair (x : α) (lexed : Lexed) :
    Blames lexed.Flawed (fun read : α × Lexed => read.2.Flawed)
      (do return (x, ← lexed.advance)) :=
  lexed.blames_advance.bind fun _ _ => .of_ok .inr

theorem traces_literal : Traces literal := by
  intro lexed
  cases lexed with
  | eof | broken => exact .of_error Lexed.flawed_of_unexpected
  | token found position rest =>
    cases found with
    | integer value => exact blames_advance_pair value _
    | count | opening => exact .of_harmless rfl
    | arith op => cases op <;> exact .of_harmless rfl
    | _ => exact .of_error Lexed.flawed_of_unexpected

theorem head?_of_literal {value : Int64} (h : literal lexed = .ok (value, rest)) :
    lexed.head? = some (.integer value) := by
  cases lexed with
  | eof | broken => simp [literal] at h
  | token found position others =>
    cases found with
    | integer found =>
      obtain ⟨after, -, hread⟩ := bind_eq_ok_iff.mp h
      obtain ⟨rfl, -⟩ := Prod.mk.inj (Except.ok.inj hread)
      rfl
    | arith op => cases op <;> simp [literal] at h
    | _ => simp [literal] at h

theorem traces_primary (hinner : Traces inner) : Traces (primary inner) := by
  intro lexed
  cases lexed with
  | eof | broken => exact .of_error Lexed.flawed_of_unexpected
  | token found position rest =>
    cases found with
    | count | integer => exact blames_advance_pair _ _
    | opening =>
      refine (Lexed.blames_advance _).bind fun after _ => ?_
      refine ((hinner after).mono .inr).bind fun ⟨operand, rest⟩ _ => ?_
      refine ((rest.blames_expect _ _).mono .inr).bind fun rest _ => ?_
      cases operand <;> exact .of_ok .inr
    | not => exact .of_harmless rfl
    | arith op => cases op <;> exact .of_harmless rfl
    | _ => exact .of_error Lexed.flawed_of_unexpected

/-- The flaw of what a step leaves, if it finds something. -/
def LeftFlawed (found : Option (α × Lexed)) : Prop := ∃ read, found = some read ∧ read.2.Flawed

theorem traces_repeated {step : α → Lexed → Except ParseError (Option (α × Lexed))}
    (hstep : ∀ soFar lexed, Blames lexed.Flawed LeftFlawed (step soFar lexed)) (fuel : Nat)
    (soFar : α) : Traces (repeated step fuel soFar) := by
  induction fuel generalizing soFar with
  | zero => exact fun lexed => .of_ok id
  | succ fuel ih =>
    intro lexed
    refine (hstep soFar lexed).bind fun found _ => ?_
    cases found with
    | none => exact .of_ok .inl
    | some read => exact (ih read.1 read.2).mono fun h => .inr ⟨read, rfl, h⟩

/-- A division by zero that the reader meets is a flaw of the tokens from the operator on. -/
theorem blames_operator (start : Nat) (left : Operand) (lexed : Lexed) :
    Blames lexed.Flawed LeftFlawed (operator start left lexed) := by
  cases lexed with
  | eof | broken => exact .of_ok (by simp [LeftFlawed])
  | token found position others =>
    cases found with
    | arith op =>
      refine .convert (fun _ => harmless_toArithmetic) fun ⟨links, additive⟩ _ => ?_
      dsimp only
      by_cases hmixed : (op.isMultiplicative && additive) = true
      · rw [if_pos hmixed]
        exact .of_harmless rfl
      rw [if_neg hmixed]
      refine (Lexed.blames_advance _).bind fun after hafter => ?_
      refine ((traces_literal after).mono .inr).bind fun ⟨value, rest⟩ hliteral => ?_
      dsimp only
      by_cases hzero : (decide (value = 0) && op.divides) = true
      · rw [if_pos hzero]
        obtain ⟨hvalue, hdivides⟩ := Bool.and_eq_true_iff.mp hzero
        obtain rfl := of_decide_eq_true hvalue
        obtain rfl := Lexed.advance_token_eq_ok hafter
        exact .of_error fun _ => .inl (.inl (.zero hdivides (head?_of_literal hliteral)))
      · rw [if_neg hzero]
        refine .of_ok ?_
        rintro ⟨read, hread, hflawed⟩
        obtain rfl := Option.some.inj hread
        exact .inr hflawed
    | _ => exact .of_ok (by simp [LeftFlawed])

theorem traces_arithmetic (hinner : Traces inner) : Traces (arithmetic inner) := by
  intro lexed
  refine (traces_primary hinner lexed).bind fun ⟨first, rest⟩ _ => ?_
  exact (traces_repeated (blames_operator _) _ _ rest).mono .inr

theorem traces_comparison (hinner : Traces inner) : Traces (comparison inner) := by
  intro lexed
  refine (traces_arithmetic hinner lexed).bind fun ⟨left, rest⟩ _ => ?_
  cases rest with
  | eof | broken => exact .of_ok .inr
  | token found position rest =>
    cases found with
    | compare relation =>
      refine .convert (fun _ => harmless_toCompared) fun links _ => ?_
      refine ((Lexed.blames_advance _).mono .inr).bind fun after _ => ?_
      refine ((traces_literal after).mono .inr).bind fun ⟨value, rest⟩ _ => ?_
      exact .of_ok .inr
    | _ => exact .of_ok .inr

theorem blames_joined (mark : Token) (join : Condition → Condition → Condition)
    (hnext : Traces next) (start : Nat) (left : Operand) (lexed : Lexed) :
    Blames lexed.Flawed LeftFlawed (joined mark join next start left lexed) := by
  simp only [joined]
  split
  · refine .convert (fun _ => harmless_toCondition) fun first _ => ?_
    refine lexed.blames_advance.bind fun after _ => ?_
    refine ((hnext after).mono .inr).bind fun found _ => ?_
    obtain ⟨right, rest⟩ := found
    refine .convert (fun _ => harmless_toCondition) fun second _ => .of_ok ?_
    rintro ⟨read, hread, hflawed⟩
    obtain rfl := Option.some.inj hread
    exact .inr hflawed
  · exact .of_ok (by simp [LeftFlawed])

theorem traces_connected (mark : Token) (join : Condition → Condition → Condition)
    (hnext : Traces next) : Traces (connected mark join next) := by
  intro lexed
  refine (hnext lexed).bind fun ⟨first, rest⟩ _ => ?_
  exact (traces_repeated (blames_joined mark join hnext _) _ _ rest).mono .inr

theorem traces_branch (hinner : Traces inner) : Traces (branch inner) := by
  intro lexed
  refine (hinner lexed).bind fun ⟨operand, rest⟩ _ => ?_
  exact .convert (fun _ => harmless_toSelection) fun selection _ => .of_ok .inr

theorem traces_expression (depth : Nat) : Traces (expression depth) := by
  induction depth with
  | zero => exact fun lexed => .of_error Lexed.flawed_of_unexpected
  | succ depth ih =>
    intro lexed
    have hand := traces_connected .and .and (traces_comparison ih)
    refine (traces_connected .or .or hand lexed).bind fun ⟨head, rest⟩ _ => ?_
    dsimp only
    split
    · refine .convert (fun _ => harmless_toCondition) fun condition _ => ?_
      refine (rest.blames_advance.mono .inr).bind fun after _ => ?_
      refine ((traces_branch ih after).mono .inr).bind fun ⟨yes, rest⟩ _ => ?_
      refine ((rest.blames_expect _ _).mono .inr).bind fun after _ => ?_
      refine ((traces_branch ih after).mono .inr).bind fun ⟨no, rest⟩ _ => ?_
      exact .of_ok .inr
    · exact .of_ok .inr

theorem blames_ofLexed (lexed : Lexed) :
    Blames lexed.Flawed (fun _ => False) (ofLexed lexed) := by
  cases lexed with
  | broken error => exact .of_error fun _ => .broken error
  | eof position => exact .of_harmless rfl
  | token found position rest =>
    refine (traces_expression _ _).bind fun ⟨operand, rest⟩ _ => ?_
    cases rest with
    | eof =>
      refine ⟨fun e he hfatal => ?_, fun _ _ => False.elim⟩
      exact absurd ((harmless_toSelection he).symm.trans hfatal) Bool.false_ne_true
    | broken | token => exact .of_error fun h => .inr (Lexed.flawed_of_unexpected h)

end Selection

/-- The reader of selections finds a fatal error in a text with a flaw only. -/
theorem flawed_of_compile {text : List Char} {error : ParseError}
    (h : Program.compile text = .error error) (hfatal : error.isFatal = true) :
    (Lexed.ofChars text).Flawed :=
  (Selection.blames_ofLexed _).error _ (compile_eq_error h) hfatal

/-- Nor is a syntax tree read from such a text. -/
theorem SyntaxTree.parse_eq_error_of_isFatal {text : List Char} {first : ParseError}
    (h : Program.compile text = .error first) (hfatal : first.isFatal = true) :
    ∃ second, SyntaxTree.parse text = .error second := by
  cases hparse : SyntaxTree.parse text with
  | ok tree => exact absurd hparse (parse_ne_ok_of_flawed (flawed_of_compile h hfatal) tree)
  | error second => exact ⟨second, rfl⟩

namespace Engine

variable {config : Config} {arena : Native.Arena} {text : List Char} {first : ParseError}

theorem outcome_ofExpression_of_ok {program : Program} (h : Program.compile text = .ok program) :
    (ofExpression config arena text).outcome =
      .ok (ofProgram config arena program).outcome := by
  simp only [ofExpression, h]

/-- Where the reader of selections refuses a text, the outcome is up to the reader of syntax trees,
also where it is not asked. -/
theorem outcome_ofExpression_of_error (h : Program.compile text = .error first) :
    (ofExpression config arena text).outcome =
      match SyntaxTree.parse text with
      | .ok tree => .ok (.tree tree)
      | .error second => .error (.parse text (if first.isFatal then first else second)) := by
  simp only [ofExpression, h]
  cases hfatal : first.isFatal with
  | true =>
    obtain ⟨second, hsecond⟩ := SyntaxTree.parse_eq_error_of_isFatal h hfatal
    simp [hsecond]
  | false => cases SyntaxTree.parse text <;> rfl

theorem exists_outcome_eq_ok_iff :
    (∃ formula, (ofExpression config arena text).outcome = .ok formula) ↔
      (∃ program, Program.compile text = .ok program) ∨
        ∃ tree, SyntaxTree.parse text = .ok tree := by
  cases hcompile : Program.compile text with
  | ok program => simp [outcome_ofExpression_of_ok hcompile]
  | error first =>
    rw [outcome_ofExpression_of_error hcompile]
    cases SyntaxTree.parse text <;> simp

/-- An engine makes a formula of an expression exactly if one of the readers accepts it. A fatal
error of the first ends the attempt, but the second would have refused the expression too. If both
refuse it, the error is the first one's if that is fatal, and the second one's otherwise. -/
theorem compileExpression_answer (engine : Engine) (expression : String) :
    ((∃ formula, (engine.compileExpression expression).answer = .ok formula) ↔
      (∃ program, Program.compile expression.toList = .ok program) ∨
        ∃ tree, SyntaxTree.parse expression.toList = .ok tree) ∧
    (∀ first, Program.compile expression.toList = .error first → first.isFatal = true →
      ∃ second, SyntaxTree.parse expression.toList = .error second) ∧
    ∀ first second, Program.compile expression.toList = .error first →
      SyntaxTree.parse expression.toList = .error second →
      (engine.compileExpression expression).answer =
        .error (.parse expression.toList (if first.isFatal then first else second)) := by
  refine ⟨exists_outcome_eq_ok_iff, fun first => SyntaxTree.parse_eq_error_of_isFatal, ?_⟩
  intro first second hfirst hsecond
  refine outcome_ofExpression_of_error hfirst |>.trans ?_
  rw [hsecond]

theorem compileExpression_answer_overflow :
    Program.compile "n 99999999999999999999".toList = .error ⟨2, .integerOverflow⟩ ∧
      SyntaxTree.parse "n 99999999999999999999".toList = .error ⟨2, .unexpectedChar '9'⟩ ∧
      ((new {} fun _ => none).compileExpression "n 99999999999999999999").answer =
        .error (.parse "n 99999999999999999999".toList ⟨2, .integerOverflow⟩) := by
  have hfirst : Program.compile "n 99999999999999999999".toList =
      .error ⟨2, .integerOverflow⟩ := by decide +kernel
  have hsecond : SyntaxTree.parse "n 99999999999999999999".toList =
      .error ⟨2, .unexpectedChar '9'⟩ := by decide +kernel
  exact ⟨hfirst, hsecond,
    (compileExpression_answer (new {} fun _ => none) "n 99999999999999999999").2.2 _ _
      hfirst hsecond⟩

end Engine

end PluralForms
