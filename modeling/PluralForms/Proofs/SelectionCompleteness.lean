import Mathlib.Logic.Relation
import PluralForms.Proofs.FrontEnds
import PluralForms.Proofs.SelectionGrammar

/-! The reader of selections accepts a text exactly if its tokens are those of an allowed phrase
that is more than a chain. The induction follows the phrase. A repetition grows to the right, so its
phrases are gathered by steps behind the first part, and the last step stands where the tokens do
not go on with the phrase. -/

namespace PluralForms

namespace Lexed

variable {lexed rest : Lexed} {head : Token} {tokens : List Token}

theorem size_of_all? (h : lexed.all? = some tokens) : lexed.size = tokens.length := by
  induction lexed generalizing tokens with
  | eof position =>
    obtain rfl := Option.some.inj h
    rfl
  | broken error => simp [all?] at h
  | token head position rest ih =>
    obtain ⟨others, hothers, rfl⟩ := Option.map_eq_some_iff.mp h
    rw [size, ih hothers, List.length_cons]

theorem eq_token_of_all? (h : lexed.all? = some (head :: tokens)) :
    ∃ position rest, lexed = .token head position rest ∧ rest.all? = some tokens := by
  cases lexed with
  | eof position => simp [all?] at h
  | broken error => simp [all?] at h
  | token found position rest =>
    obtain ⟨others, hothers, heq⟩ := Option.map_eq_some_iff.mp h
    obtain ⟨rfl, rfl⟩ := List.cons.inj heq
    exact ⟨position, rest, rfl, hothers⟩

theorem eq_eof_of_all? (h : lexed.all? = some []) : ∃ position, lexed = .eof position := by
  cases lexed with
  | eof position => exact ⟨position, rfl⟩
  | broken error => simp [all?] at h
  | token head position rest => simp [all?] at h

/-- Where all tokens can be told, so can the one after the next. -/
theorem advance_of_all? {position : Nat} (h : rest.all? = some tokens) :
    (token head position rest).advance = .ok rest := by
  cases rest with
  | broken error => simp [all?] at h
  | _ => rfl

theorem expect_of_all? {position : Nat} {expected : Expectation} (h : rest.all? = some tokens) :
    (token head position rest).expect head expected = .ok rest := by
  rw [expect, head?, if_pos rfl, advance_of_all? h]

end Lexed

namespace Selection

variable {operand : Operand} {part : Part} {start depth : Nat} {lexed rest : Lexed}
  {inner next : Reader Operand}

/-! ### What may follow a phrase -/

def Part.rank : Part → Nat
  | .primary => 0
  | .arithmetic => 1
  | .comparison => 2
  | .joined .and => 3
  | .joined .or => 4
  | .expression => 5

/-- Behind a phrase the token goes on phrases of this rank and above. -/
def rankOfToken : Token → Nat
  | .arith _ => 1
  | .compare _ => 2
  | .and => 3
  | .or => 4
  | .question => 5
  | _ => 6

/-- A phrase of the part does not go on with the tokens. -/
def Part.Ends (part : Part) (tokens : List Token) : Prop :=
  ∀ token ∈ tokens.head?, part.rank < rankOfToken token

variable {tokens : List Token} {attempt : Except ParseError (Operand × Lexed)}
  {step : Operand → Lexed → Except ParseError (Option (Operand × Lexed))}

theorem Part.Ends.ne (h : part.Ends tokens) (token : Token)
    (hrank : rankOfToken token ≤ part.rank) : tokens.head? ≠ some token :=
  fun hhead => absurd (h token hhead) (Nat.not_lt.mpr hrank)

theorem Part.Ends.mono {part' : Part} (h : part.Ends tokens) (hrank : part'.rank ≤ part.rank) :
    part'.Ends tokens :=
  fun token htoken => hrank.trans_lt (h token htoken)

theorem ends_cons {token : Token} (h : part.rank < rankOfToken token) :
    part.Ends (token :: tokens) := by
  intro token' htoken
  obtain rfl := Option.some.inj htoken
  exact h

/-- The attempt reads what the phrase says, and the tokens are left. -/
def Yields (attempt : Except ParseError (Operand × Lexed)) (phrase : Phrase part)
    (tokens : List Token) : Prop :=
  ∃ operand rest, attempt = .ok (operand, rest) ∧ operand.Fits phrase ∧ rest.all? = some tokens

/-- The step finds something to add, and passes over tokens. -/
def Leads (step : Operand → Lexed → Except ParseError (Option (Operand × Lexed)))
    (a b : Operand × Lexed) : Prop :=
  step a.1 a.2 = .ok (some b) ∧ b.2.size < a.2.size

/-- Behind the first part, which `next` reads, steps complete the phrase. -/
def Gathers (next : Reader Operand)
    (step : Nat → Operand → Lexed → Except ParseError (Option (Operand × Lexed))) (lexed : Lexed)
    (phrase : Phrase part) (tokens : List Token) : Prop :=
  ∃ first operand rest, next lexed = .ok first ∧
    Relation.ReflTransGen (Leads (step lexed.position)) first (operand, rest) ∧
    operand.Fits phrase ∧ rest.all? = some tokens

theorem repeated_of_leads {a b : Operand × Lexed} (h : Relation.ReflTransGen (Leads step) a b)
    (hstop : step b.1 b.2 = .ok none) {fuel : Nat} (hfuel : a.2.size ≤ fuel) :
    repeated step fuel a.1 a.2 = .ok b := by
  induction h using Relation.ReflTransGen.head_induction_on generalizing fuel with
  | refl =>
    cases fuel with
    | zero => rfl
    | succ fuel => simp only [repeated, hstop]; rfl
  | @head a c hlead _ ih =>
    obtain ⟨hstep, hless⟩ := hlead
    cases fuel with
    | zero => omega
    | succ fuel =>
      simp only [repeated, hstep]
      exact ih (by omega)

theorem Gathers.yields
    {step : Nat → Operand → Lexed → Except ParseError (Option (Operand × Lexed))}
    (h : Gathers next step lexed phrase tokens)
    (hstop : ∀ operand rest, rest.all? = some tokens →
      step lexed.position operand rest = .ok none) :
    Yields (next lexed >>= fun read => repeated (step lexed.position) read.2.size read.1 read.2)
      phrase tokens := by
  obtain ⟨first, operand, rest, hfirst, hleads, hfits, htokens⟩ := h
  refine ⟨operand, rest, ?_, hfits, htokens⟩
  rw [hfirst]
  exact repeated_of_leads hleads (hstop operand rest htokens) (Nat.le_refl _)

theorem operator_of_ends (h : Part.arithmetic.Ends tokens) (operand : Operand)
    (hrest : rest.all? = some tokens) : operator start operand rest = .ok none := by
  cases rest with
  | token head position others =>
    obtain ⟨others', -, rfl⟩ := Option.map_eq_some_iff.mp hrest
    cases head with
    | arith op => exact absurd rfl (h.ne (.arith op) (Nat.le_refl _))
    | _ => rfl
  | _ => rfl

theorem joined_of_ends {mark : Token} {join : Condition → Condition → Condition}
    (h : tokens.head? ≠ some mark) (operand : Operand) (hrest : rest.all? = some tokens) :
    joined mark join next start operand rest = .ok none := by
  rw [joined, Lexed.head?_of_all? hrest, if_neg h]
  rfl

theorem literal_of_all? {value : Int64} {position : Nat} (h : rest.all? = some tokens) :
    literal (.token (.integer value) position rest) = .ok (value, rest) := by
  rw [literal, Lexed.advance_of_all? h]
  rfl

def Connective.reader (inner : Reader Operand) : Connective → Reader Operand
  | .and => comparison inner
  | .or => connected .and .and (comparison inner)

/-- How a phrase is read that stands before the tokens. -/
def Readable (depth : Nat) (lexed : Lexed) (tokens : List Token) :
    {part : Part} → Phrase part → Prop
  | .primary, phrase => Yields (primary (expression depth) lexed) phrase tokens
  | .arithmetic, phrase => Gathers (primary (expression depth)) operator lexed phrase tokens
  | .comparison, phrase =>
    Part.comparison.Ends tokens → Yields (comparison (expression depth) lexed) phrase tokens
  | .joined connective, phrase => connective.operand.Ends tokens →
    Gathers (connective.reader (expression depth))
      (joined connective.token connective.join (connective.reader (expression depth))) lexed phrase
      tokens
  | .expression, phrase =>
    Part.expression.Ends tokens → Yields (expression (depth + 1) lexed) phrase tokens

variable {depth : Nat}

theorem yields_operand {connective : Connective} {phrase : Phrase connective.operand}
    (h : Readable depth lexed tokens phrase) (hends : connective.operand.Ends tokens) :
    Yields (connective.reader (expression depth) lexed) phrase tokens := by
  cases connective with
  | and => exact h hends
  | or =>
    have hmark := hends.ne .and (Nat.le_refl _)
    exact (h (hends.mono (by decide))).yields fun operand rest => joined_of_ends hmark operand

theorem yields_disjunction {phrase : Phrase (.joined .or)}
    (h : Readable depth lexed tokens phrase) (hends : (Part.joined .or).Ends tokens) :
    Yields (disjunction (expression depth) lexed) phrase tokens := by
  have hmark := hends.ne .or (Nat.le_refl _)
  exact (h (hends.mono (by decide))).yields fun operand rest => joined_of_ends hmark operand

theorem yields_arithmetic {phrase : Phrase .arithmetic} (h : Readable depth lexed tokens phrase)
    (hends : Part.arithmetic.Ends tokens) :
    Yields (arithmetic (expression depth) lexed) phrase tokens :=
  Gathers.yields h fun operand _ => operator_of_ends hends operand

theorem yields_count (h : lexed.all? = some (.count :: tokens)) :
    Yields (primary inner lexed) .count tokens := by
  obtain ⟨position, rest, rfl, hrest⟩ := Lexed.eq_token_of_all? h
  refine ⟨.chain [] false, rest, ?_, .count, hrest⟩
  rw [primary, Lexed.advance_of_all? hrest]
  rfl

theorem yields_integer {value : Int64} (h : lexed.all? = some (.integer value :: tokens)) :
    Yields (primary inner lexed) (.integer value) tokens := by
  obtain ⟨position, rest, rfl, hrest⟩ := Lexed.eq_token_of_all? h
  refine ⟨.literal value, rest, ?_, .integer, hrest⟩
  rw [primary, Lexed.advance_of_all? hrest]
  rfl

theorem yields_parens {position : Nat} {all : List Token} {phrase : Phrase .expression}
    (hrest : rest.all? = some all) (h : Yields (inner rest) phrase (.closing :: tokens)) :
    Yields (primary inner (.token .opening position rest)) (.parens phrase) tokens := by
  obtain ⟨operand, after, hinner, hfits, hafter⟩ := h
  obtain ⟨position', last, rfl, hlast⟩ := Lexed.eq_token_of_all? hafter
  have hclosing : (Lexed.token .closing position' last).expect .closing .closing = .ok last :=
    Lexed.expect_of_all? hlast
  refine ⟨operand.enclosed, last, ?_, .parens hfits, hlast⟩
  cases operand <;>
    simp [primary, Operand.enclosed, Lexed.advance_of_all? hrest, hinner, hclosing, bind,
      Except.bind, pure, Except.pure]

theorem leads_operator {left : Phrase .arithmetic} {op : Arithmetic} {value : Int64}
    (hallowed : (left.operator op value).Allowed) (hfits : operand.Fits left)
    (h : rest.all? = some (.arith op :: .integer value :: tokens)) :
    ∃ more last, Leads (operator start) (operand, rest) (more, last) ∧
      more.Fits (left.operator op value) ∧ last.all? = some tokens := by
  obtain ⟨⟨-, hkind⟩, hmixed, hzero⟩ := hallowed
  obtain ⟨links, hlinks⟩ := eq_chain_of_kind (hfits.kind.trans hkind)
  rw [hfits.additive] at hlinks
  subst hlinks
  obtain ⟨position, others, rfl, hothers⟩ := Lexed.eq_token_of_all? h
  obtain ⟨position', last, rfl, hlast⟩ := Lexed.eq_token_of_all? hothers
  have hmixed' : (op.isMultiplicative && left.additive) = false := by simpa using hmixed
  have hzero' : (decide (value = 0) && op.divides) = false := by
    rw [Bool.and_comm]
    simpa using hzero
  refine ⟨.chain (links ++ [(op, value)]) (left.additive || !op.isMultiplicative), last, ⟨?_, ?_⟩,
    .operator hfits, hlast⟩
  · simp [operator, Operand.toArithmetic, hmixed', hzero', Lexed.advance_of_all? hothers,
      literal_of_all? hlast, bind, Except.bind, pure, Except.pure]
  · simp only [Lexed.size]
    omega

theorem yields_compare {left : Phrase .arithmetic} {relation : Comparison} {value : Int64}
    (hkind : left.kind = .chain)
    (h : Yields (arithmetic inner lexed) left (.compare relation :: .integer value :: tokens)) :
    Yields (comparison inner lexed) (left.compare relation value) tokens := by
  obtain ⟨operand, rest, hread, hfits, hrest⟩ := h
  obtain ⟨position, others, rfl, hothers⟩ := Lexed.eq_token_of_all? hrest
  obtain ⟨position', last, rfl, hlast⟩ := Lexed.eq_token_of_all? hothers
  obtain ⟨links, hlinks⟩ := eq_chain_of_kind (hfits.kind.trans hkind)
  rw [hlinks] at hfits hread
  refine ⟨.condition (.compare links relation value), last, ?_, .compare hfits, hlast⟩
  simp [comparison, hread, Operand.toCompared, Lexed.advance_of_all? hothers,
    literal_of_all? hlast, bind, Except.bind, pure, Except.pure]

theorem yields_comparison {phrase : Phrase .arithmetic}
    (h : Yields (arithmetic inner lexed) phrase tokens) (hends : Part.comparison.Ends tokens) :
    Yields (comparison inner lexed) (.arithmetic phrase) tokens := by
  obtain ⟨operand, rest, hread, hfits, hrest⟩ := h
  refine ⟨operand, rest, ?_, .arithmetic hfits, hrest⟩
  simp only [comparison, hread, bind, Except.bind]
  split
  · next relation _ _ =>
    obtain ⟨others, -, rfl⟩ := Option.map_eq_some_iff.mp hrest
    exact absurd rfl (hends.ne (.compare relation) (Nat.le_refl _))
  · rfl

theorem leads_joined {connective : Connective} {left : Phrase (.joined connective)}
    {right : Phrase connective.operand}
    (hallowed : (left.join connective right).Allowed) (hfits : operand.Fits left)
    (hrest : rest.all? = some (connective.token :: (right.tokens ++ tokens)))
    (h : ∀ after, after.all? = some (right.tokens ++ tokens) → Yields (next after) right tokens) :
    ∃ more last,
      Leads (joined connective.token connective.join next start) (operand, rest) (more, last) ∧
        more.Fits (left.join connective right) ∧ last.all? = some tokens := by
  obtain ⟨⟨-, hkind⟩, -, hkind'⟩ := hallowed
  obtain ⟨position, after, rfl, hafter⟩ := Lexed.eq_token_of_all? hrest
  obtain ⟨second, last, hread, hfits', hlast⟩ := h after hafter
  obtain ⟨first, rfl⟩ := eq_condition_of_kind (hfits.kind.trans hkind)
  obtain ⟨found, rfl⟩ := eq_condition_of_kind (hfits'.kind.trans hkind')
  refine ⟨.condition (connective.join first found), last, ⟨?_, ?_⟩, .join hfits hfits', hlast⟩
  · simp [joined, Lexed.head?, Operand.toCondition, Lexed.advance_of_all? hafter, hread, bind,
      Except.bind, pure, Except.pure]
  · rw [Lexed.size, Lexed.size_of_all? hafter, Lexed.size_of_all? hlast, List.length_append]
    omega

theorem yields_plain {phrase : Phrase (.joined .or)}
    (h : Yields (disjunction (expression depth) lexed) phrase tokens)
    (hends : Part.expression.Ends tokens) :
    Yields (expression (depth + 1) lexed) (.plain phrase) tokens := by
  obtain ⟨operand, rest, hread, hfits, hrest⟩ := h
  refine ⟨operand, rest, ?_, .plain hfits, hrest⟩
  have hquestion : rest.head? ≠ some .question := by
    rw [Lexed.head?_of_all? hrest]
    exact hends.ne .question (Nat.le_refl _)
  simp [expression, hread, hquestion, bind, Except.bind, pure, Except.pure]

theorem branch_of_yields {phrase : Phrase .expression} (hkind : phrase.kind ≠ .chain)
    (h : Yields (inner lexed) phrase tokens) :
    ∃ selection rest, branch inner lexed = .ok (selection, rest) ∧ phrase.Selects selection ∧
      rest.all? = some tokens := by
  obtain ⟨operand, rest, hread, hfits, hrest⟩ := h
  obtain ⟨selection, hselection⟩ := exists_selection?_iff.mpr (hfits.kind ▸ hkind)
  refine ⟨selection, rest, ?_, ⟨operand, hfits, hselection⟩, hrest⟩
  have hok := (toSelection_eq_ok_iff lexed.position).mpr hselection
  simp [branch, hread, hok, bind, Except.bind, pure, Except.pure]

theorem yields_choose {condition : Phrase (.joined .or)} {yes no : Phrase .expression}
    (hallowed : (condition.choose yes no).Allowed)
    (hcondition : Yields (disjunction (expression depth) lexed) condition
      (.question :: (yes.tokens ++ .colon :: (no.tokens ++ tokens))))
    (hyes : ∀ after, after.all? = some (yes.tokens ++ .colon :: (no.tokens ++ tokens)) →
      Yields (expression depth after) yes (.colon :: (no.tokens ++ tokens)))
    (hno : ∀ after, after.all? = some (no.tokens ++ tokens) →
      Yields (expression depth after) no tokens) :
    Yields (expression (depth + 1) lexed) (condition.choose yes no) tokens := by
  obtain ⟨⟨-, hkind⟩, ⟨-, hkindYes⟩, -, hkindNo⟩ := hallowed
  obtain ⟨operand, rest, hread, hfits, hrest⟩ := hcondition
  obtain ⟨position, after, rfl, hafter⟩ := Lexed.eq_token_of_all? hrest
  obtain ⟨found, rfl⟩ := eq_condition_of_kind (hfits.kind.trans hkind)
  obtain ⟨first, mid, hfirst, hyes, hmid⟩ := branch_of_yields hkindYes (hyes after hafter)
  obtain ⟨position', behind, rfl, hbehind⟩ := Lexed.eq_token_of_all? hmid
  obtain ⟨second, last, hsecond, hno, hlast⟩ := branch_of_yields hkindNo (hno behind hbehind)
  refine ⟨.choice found first second, last, ?_, hyes.choose hfits hno, hlast⟩
  simp [expression, hread, Lexed.head?, Operand.toCondition, Lexed.advance_of_all? hafter, hfirst,
    Lexed.expect_of_all? hbehind, hsecond, bind, Except.bind, pure, Except.pure]

/-- Each allowed phrase is read where it stands, if the bound on the depth leaves room. -/
theorem Phrase.readable (phrase : Phrase part) (hallowed : phrase.Allowed) :
    ∀ depth lexed tokens, (phrase.tokens ++ tokens).length ≤ depth →
      lexed.all? = some (phrase.tokens ++ tokens) → Readable depth lexed tokens phrase := by
  induction phrase with
  | count =>
    intro depth lexed tokens _ hall
    exact yields_count hall
  | integer value =>
    intro depth lexed tokens _ hall
    exact yields_integer hall
  | parens inner ih =>
    intro depth lexed tokens hdepth hall
    simp only [Phrase.tokens, List.cons_append, List.append_assoc, List.nil_append,
      List.length_cons] at hdepth hall
    obtain ⟨position, rest, rfl, hrest⟩ := Lexed.eq_token_of_all? hall
    obtain ⟨depth, rfl⟩ : ∃ less, depth = less + 1 := ⟨depth - 1, by omega⟩
    exact yields_parens hrest (ih hallowed depth rest _ (by omega) hrest (ends_cons (by decide)))
  | primary first ih =>
    intro depth lexed tokens hdepth hall
    obtain ⟨operand, rest, hread, hfits, hrest⟩ := ih hallowed depth lexed tokens hdepth hall
    exact ⟨(operand, rest), operand, rest, hread, .refl, .primary hfits, hrest⟩
  | operator left op value ih =>
    intro depth lexed tokens hdepth hall
    simp only [Phrase.tokens, List.append_assoc, List.cons_append, List.nil_append] at hdepth hall
    obtain ⟨first, operand, rest, hfirst, hleads, hfits, hrest⟩ :=
      ih hallowed.1.1 depth lexed _ hdepth hall
    obtain ⟨more, last, hstep, hfits', hlast⟩ := leads_operator hallowed hfits hrest
    exact ⟨first, more, last, hfirst, hleads.tail hstep, hfits', hlast⟩
  | arithmetic only ih =>
    intro depth lexed tokens hdepth hall hends
    exact yields_comparison
      (yields_arithmetic (ih hallowed depth lexed tokens hdepth hall) (hends.mono (by decide)))
      hends
  | compare left relation value ih =>
    intro depth lexed tokens hdepth hall hends
    simp only [Phrase.tokens, List.append_assoc, List.cons_append, List.nil_append] at hdepth hall
    exact yields_compare hallowed.2
      (yields_arithmetic (ih hallowed.1 depth lexed _ hdepth hall) (ends_cons (Nat.lt_succ_self 1)))
  | operand connective first ih =>
    intro depth lexed tokens hdepth hall hends
    obtain ⟨operand, rest, hread, hfits, hrest⟩ :=
      yields_operand (ih hallowed depth lexed tokens hdepth hall) hends
    exact ⟨(operand, rest), operand, rest, hread, .refl, .operand hfits, hrest⟩
  | join connective left right ihLeft ihRight =>
    intro depth lexed tokens hdepth hall hends
    simp only [Phrase.tokens, List.append_assoc, List.cons_append] at hdepth hall
    have hmark : connective.operand.Ends (connective.token :: (right.tokens ++ tokens)) := by
      cases connective <;> exact ends_cons (by decide)
    obtain ⟨first, operand, rest, hfirst, hleads, hfits, hrest⟩ :=
      ihLeft hallowed.1.1 depth lexed _ hdepth hall hmark
    rw [List.length_append, List.length_cons] at hdepth
    obtain ⟨more, last, hstep, hfits', hlast⟩ := leads_joined hallowed hfits hrest
      fun after hafter => yields_operand
        (ihRight hallowed.2.1 depth after tokens (by omega) hafter) hends
    exact ⟨first, more, last, hfirst, hleads.tail hstep, hfits', hlast⟩
  | plain only ih =>
    intro depth lexed tokens hdepth hall hends
    exact yields_plain
      (yields_disjunction (ih hallowed depth lexed tokens hdepth hall) (hends.mono (by decide)))
      hends
  | choose condition yes no ihCondition ihYes ihNo =>
    intro depth lexed tokens hdepth hall hends
    simp only [Phrase.tokens, List.append_assoc, List.cons_append] at hdepth hall
    have hcondition := yields_disjunction
      (ihCondition hallowed.1.1 depth lexed _ hdepth hall) (ends_cons (by decide))
    simp only [List.length_append, List.length_cons] at hdepth
    obtain ⟨depth, rfl⟩ : ∃ less, depth = less + 1 := ⟨depth - 1, by omega⟩
    refine yields_choose hallowed hcondition (fun after hafter => ?_) fun after hafter => ?_
    · refine ihYes hallowed.2.1.1 depth after _ ?_ hafter (ends_cons (by decide))
      simp only [List.length_append, List.length_cons]
      omega
    · refine ihNo hallowed.2.2.1 depth after tokens ?_ hafter hends
      rw [List.length_append]
      omega

/-! ### Texts -/

/-- Tokens of an allowed phrase that is more than a chain are read to their end. -/
theorem ofLexed_of_allowed {phrase : Phrase .expression} (h : lexed.all? = some phrase.tokens)
    (hallowed : phrase.Allowed) (hkind : phrase.kind ≠ .chain) :
    ∃ selection, ofLexed lexed = .ok selection ∧ phrase.Selects selection := by
  have hall : lexed.all? = some (phrase.tokens ++ []) := h.trans (by rw [List.append_nil])
  have hsize := Lexed.size_of_all? hall
  obtain ⟨operand, rest, hread, hfits, hrest⟩ :=
    phrase.readable hallowed lexed.size lexed [] (Nat.le_of_eq hsize.symm) hall
      (by simp [Part.Ends])
  obtain ⟨last, rfl⟩ := Lexed.eq_eof_of_all? hrest
  obtain ⟨head, tokens, htokens⟩ := List.exists_cons_of_ne_nil phrase.tokens_ne_nil
  obtain ⟨position, others, rfl, -⟩ := Lexed.eq_token_of_all? (h.trans (congrArg some htokens))
  obtain ⟨selection, hselection⟩ := exists_selection?_iff.mpr (hfits.kind ▸ hkind)
  refine ⟨selection, ?_, operand, hfits, hselection⟩
  simp only [ofLexed, hread, bind, Except.bind]
  exact (toSelection_eq_ok_iff position).mpr hselection

theorem exists_ofLexed_of_allowed {phrase : Phrase .expression}
    (h : lexed.all? = some phrase.tokens) (hallowed : phrase.Allowed)
    (hkind : phrase.kind ≠ .chain) :
    ∃ selection, ofLexed lexed = .ok selection := by
  obtain ⟨selection, hread, -⟩ := ofLexed_of_allowed h hallowed hkind
  exact ⟨selection, hread⟩

/-- A text is read as a selection exactly if its tokens are those of an allowed phrase that stands
for the selection. -/
theorem parse_eq_ok_iff {text : List Char} {selection : Selection} :
    parse text = .ok selection ↔
      ∃ phrase : Phrase .expression, Text.tokens? text = some phrase.tokens ∧ phrase.Allowed ∧
        phrase.Selects selection := by
  constructor
  · intro h
    obtain ⟨depth, operand, last, position, hread, hselection⟩ := exists_expression_of_parse h
    obtain ⟨phrase, hallowed, hfits, hpasses⟩ := sound_expression depth _ _ _ hread
    exact ⟨phrase, (hpasses [] rfl).trans (by rw [List.append_nil]), hallowed, operand, hfits,
      (toSelection_eq_ok_iff _).mp hselection⟩
  · rintro ⟨phrase, htokens, hallowed, hselects⟩
    obtain ⟨selection', hread, hselects'⟩ := ofLexed_of_allowed htokens hallowed hselects.kind_ne
    obtain rfl := hselects.unique hselects'
    exact hread

theorem exists_phrase_of_parse {text : List Char} {selection : Selection}
    (h : parse text = .ok selection) :
    ∃ phrase : Phrase .expression, Text.tokens? text = some phrase.tokens ∧ phrase.Allowed ∧
      phrase.kind ≠ .chain := by
  obtain ⟨phrase, htokens, hallowed, hselects⟩ := parse_eq_ok_iff.mp h
  exact ⟨phrase, htokens, hallowed, hselects.kind_ne⟩

end Selection

/-- A text has a program exactly if it has tokens to its end, and they derive from the grammar of
selections with each part of an allowed kind, where the whole is more than a chain. -/
theorem exists_compile_iff_allowed (text : List Char) :
    (∃ program, Program.compile text = .ok program) ↔
      ∃ phrase : Selection.Phrase .expression, Text.tokens? text = some phrase.tokens ∧
        phrase.Allowed ∧ phrase.kind ≠ .chain := by
  constructor
  · rintro ⟨program, hcompile⟩
    obtain ⟨selection, hparse, -⟩ := compile_eq_ok hcompile
    exact Selection.exists_phrase_of_parse hparse
  · rintro ⟨phrase, htokens, hallowed, hkind⟩
    obtain ⟨selection, hselection⟩ :=
      Selection.exists_ofLexed_of_allowed htokens hallowed hkind
    exact ⟨selection.emitted, by rw [Program.compile, Selection.parse, hselection]; rfl⟩

end PluralForms
