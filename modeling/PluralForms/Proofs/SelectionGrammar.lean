import PluralForms.Proofs.SelectionReader

/-! The grammar of plural selections. A phrase is a derivation from the grammar and has the tokens
that it derives; it is allowed if each of its parts is of the kind that one register can calculate
where the part stands. What the reader of selections reads is an allowed phrase, and it yields what
the phrase stands for. -/

namespace PluralForms

namespace Lexed

variable {lexed rest : Lexed} {head : Token} {tokens : List Token}

/-- The tokens `read` stand before those of the rest. -/
def Passes (read : List Token) (lexed rest : Lexed) : Prop :=
  ∀ tokens, rest.all? = some tokens → lexed.all? = some (read ++ tokens)

theorem Passes.trans {mid : Lexed} {read read' : List Token} (h : Passes read lexed mid)
    (h' : Passes read' mid rest) : Passes (read ++ read') lexed rest := by
  intro tokens htokens
  rw [h _ (h' tokens htokens), List.append_assoc]

theorem passes_advance (hhead : lexed.head? = some head)
    (h : lexed.advance = .ok rest) : Passes [head] lexed rest :=
  (advance_eq_ok hhead h).2

end Lexed

namespace Selection

inductive Connective where
  | and | or

/-- The nonterminals of the grammar; `joined` stands for the operands of one connective. -/
inductive Part where
  | expression
  | joined (connective : Connective)
  | comparison
  | arithmetic
  | primary

/-- What a connective joins. -/
def Connective.operand : Connective → Part
  | .and => .comparison
  | .or => .joined .and

def Connective.token : Connective → Token
  | .and => .and
  | .or => .or

def Connective.join : Connective → Condition → Condition → Condition
  | .and => .and
  | .or => .or

/-- A derivation from the grammar

    expression  := disjunction ('?' expression ':' expression)?
    disjunction := conjunction ('||' conjunction)*
    conjunction := comparison ('&&' comparison)*
    comparison  := arithmetic (compare INTEGER)?
    arithmetic  := primary (operator INTEGER)*
    primary     := 'n' | INTEGER | '(' expression ')'

where a repetition grows to the right. -/
inductive Phrase : Part → Type where
  | count : Phrase .primary
  | integer (value : Int64) : Phrase .primary
  | parens (inner : Phrase .expression) : Phrase .primary
  | primary (first : Phrase .primary) : Phrase .arithmetic
  | operator (left : Phrase .arithmetic) (op : Arithmetic) (value : Int64) : Phrase .arithmetic
  | arithmetic (only : Phrase .arithmetic) : Phrase .comparison
  | compare (left : Phrase .arithmetic) (relation : Comparison) (value : Int64) :
      Phrase .comparison
  | operand (connective : Connective) (first : Phrase connective.operand) :
      Phrase (.joined connective)
  | join (connective : Connective) (left : Phrase (.joined connective))
      (right : Phrase connective.operand) : Phrase (.joined connective)
  | plain (only : Phrase (.joined .or)) : Phrase .expression
  | choose (condition : Phrase (.joined .or)) (yes no : Phrase .expression) : Phrase .expression

/-- What a phrase is, whatever parentheses stand around it. -/
inductive Kind where
  | literal | chain | condition | choice
  deriving DecidableEq

namespace Phrase

variable {part : Part}

/-- The tokens that the phrase derives. -/
def tokens : {part : Part} → Phrase part → List Token
  | _, .count => [.count]
  | _, .integer value => [.integer value]
  | _, .parens inner => .opening :: (inner.tokens ++ [.closing])
  | _, .primary first => first.tokens
  | _, .operator left op value => left.tokens ++ [.arith op, .integer value]
  | _, .arithmetic only => only.tokens
  | _, .compare left relation value => left.tokens ++ [.compare relation, .integer value]
  | _, .operand _ first => first.tokens
  | _, .join connective left right => left.tokens ++ connective.token :: right.tokens
  | _, .plain only => only.tokens
  | _, .choose condition yes no =>
    condition.tokens ++ .question :: (yes.tokens ++ .colon :: no.tokens)

def kind : {part : Part} → Phrase part → Kind
  | _, .count | _, .operator _ _ _ => .chain
  | _, .integer _ => .literal
  | _, .compare _ _ _ | _, .join _ _ _ => .condition
  | _, .choose _ _ _ => .choice
  | _, .parens inner => inner.kind
  | _, .primary first => first.kind
  | _, .arithmetic only => only.kind
  | _, .operand _ first => first.kind
  | _, .plain only => only.kind

/-- An addition or a subtraction stands in the chain, and no parentheses close it off. -/
def additive : {part : Part} → Phrase part → Bool
  | _, .operator left op _ => left.additive || !op.isMultiplicative
  | _, .arithmetic only => only.additive
  | _, .operand _ first => first.additive
  | _, .plain only => only.additive
  | _, _ => false

/-- Conditions stand beside connectives and decide choices; on the left of operators and comparisons
stand chains from the count on; no operator divides by the literal zero, and none of the operators
that bind closely follows a sum or a difference in its chain; and no branch of a choice is a
chain. -/
def Allowed : {part : Part} → Phrase part → Prop
  | _, .count | _, .integer _ => True
  | _, .parens inner => inner.Allowed
  | _, .primary first => first.Allowed
  | _, .operator left op value =>
    (left.Allowed ∧ left.kind = .chain) ∧ ¬(op.isMultiplicative ∧ left.additive) ∧
      ¬(op.divides ∧ value = 0)
  | _, .arithmetic only => only.Allowed
  | _, .compare left _ _ => left.Allowed ∧ left.kind = .chain
  | _, .operand _ first => first.Allowed
  | _, .join _ left right =>
    (left.Allowed ∧ left.kind = .condition) ∧ right.Allowed ∧ right.kind = .condition
  | _, .plain only => only.Allowed
  | _, .choose condition yes no =>
    (condition.Allowed ∧ condition.kind = .condition) ∧ (yes.Allowed ∧ yes.kind ≠ .chain) ∧
      no.Allowed ∧ no.kind ≠ .chain

theorem additive_primary (phrase : Phrase .primary) : phrase.additive = false := by
  cases phrase <;> rfl

theorem tokens_ne_nil (phrase : Phrase part) : phrase.tokens ≠ [] := by
  induction phrase with
  | count | integer | parens => simp [tokens]
  | primary _ ih | arithmetic _ ih | operand _ _ ih | plain _ ih => exact ih
  | operator | compare | join | choose => simp [tokens]

end Phrase

/-! ### Operands and phrases -/

def Operand.kind : Operand → Kind
  | .literal _ => .literal
  | .chain _ _ => .chain
  | .condition _ => .condition
  | .choice _ _ _ => .choice

def Operand.additive : Operand → Bool
  | .chain _ additive => additive
  | _ => false

/-- The operand as it stands in parentheses, which close off the operators of a chain. -/
def Operand.enclosed : Operand → Operand
  | .chain links _ => .chain links false
  | operand => operand

def Operand.selection? : Operand → Option Selection
  | .literal value => some (.constant value)
  | .condition found => some (.test found)
  | .choice deciding yes no => some (.choose deciding yes no)
  | .chain _ _ => none

variable {operand operand' : Operand} {part : Part} {phrase : Phrase part} {start : Nat}

/-- The operand is what the phrase stands for. -/
inductive Operand.Fits : {part : Part} → Operand → Phrase part → Prop
  | count : Fits (.chain [] false) .count
  | integer {value : Int64} : Fits (.literal value) (.integer value)
  | parens {operand : Operand} {inner : Phrase .expression} :
      Fits operand inner → Fits operand.enclosed (.parens inner)
  | primary {operand : Operand} {first : Phrase .primary} :
      Fits operand first → Fits operand (.primary first)
  | operator {links : Chain} {additive : Bool} {left : Phrase .arithmetic} {op : Arithmetic}
      {value : Int64} : Fits (.chain links additive) left →
      Fits (.chain (links ++ [(op, value)]) (additive || !op.isMultiplicative))
        (.operator left op value)
  | arithmetic {operand : Operand} {only : Phrase .arithmetic} :
      Fits operand only → Fits operand (.arithmetic only)
  | compare {links : Chain} {additive : Bool} {left : Phrase .arithmetic} {relation : Comparison}
      {value : Int64} : Fits (.chain links additive) left →
      Fits (.condition (.compare links relation value)) (.compare left relation value)
  | operand {connective : Connective} {operand : Operand} {first : Phrase connective.operand} :
      Fits operand first → Fits operand (.operand connective first)
  | join {connective : Connective} {first second : Condition}
      {left : Phrase (.joined connective)} {right : Phrase connective.operand} :
      Fits (.condition first) left → Fits (.condition second) right →
      Fits (.condition (connective.join first second)) (.join connective left right)
  | plain {operand : Operand} {only : Phrase (.joined .or)} :
      Fits operand only → Fits operand (.plain only)
  | choose {deciding : Condition} {first second : Operand} {yes no : Selection}
      {condition : Phrase (.joined .or)} {yesPhrase noPhrase : Phrase .expression} :
      Fits (.condition deciding) condition →
      Fits first yesPhrase → first.selection? = some yes →
      Fits second noPhrase → second.selection? = some no →
      Fits (.choice deciding yes no) (.choose condition yesPhrase noPhrase)

namespace Operand.Fits

theorem kind (h : operand.Fits phrase) : operand.kind = phrase.kind := by
  induction h with
  | @parens operand _ _ ih => cases operand <;> exact ih
  | primary _ ih | arithmetic _ ih | operand _ ih | plain _ ih => exact ih
  | count | integer | operator | compare | join | choose => rfl

theorem additive (h : operand.Fits phrase) : operand.additive = phrase.additive := by
  induction h with
  | @parens operand => cases operand <;> rfl
  | primary _ ih => exact ih.trans (Phrase.additive_primary _)
  | operator _ ih => exact congrArg (· || _) ih
  | arithmetic _ ih | operand _ ih | plain _ ih => exact ih
  | count | integer | compare | join | choose => rfl

/-- A phrase stands for one operand only. -/
theorem unique (h : operand.Fits phrase) (h' : operand'.Fits phrase) : operand = operand' := by
  induction h generalizing operand' with
  | count | integer =>
    cases h'
    rfl
  | parens _ ih =>
    cases h' with
    | parens h' => rw [ih h']
  | primary _ ih | arithmetic _ ih | operand _ ih | plain _ ih =>
    cases h'
    exact ih ‹_›
  | operator _ ih =>
    cases h' with
    | operator h' =>
      obtain ⟨rfl, rfl⟩ := Operand.chain.inj (ih h')
      rfl
  | compare _ ih =>
    cases h' with
    | compare h' =>
      obtain ⟨rfl, rfl⟩ := Operand.chain.inj (ih h')
      rfl
  | join _ _ ihLeft ihRight =>
    cases h' with
    | join hleft hright =>
      obtain rfl := Operand.condition.inj (ihLeft hleft)
      obtain rfl := Operand.condition.inj (ihRight hright)
      rfl
  | choose _ _ hyes _ hno ihCondition ihYes ihNo =>
    cases h' with
    | choose hcondition hfirst hyes' hsecond hno' =>
      obtain rfl := Operand.condition.inj (ihCondition hcondition)
      obtain rfl := ihYes hfirst
      obtain rfl := ihNo hsecond
      obtain rfl := Option.some.inj (hyes.symm.trans hyes')
      obtain rfl := Option.some.inj (hno.symm.trans hno')
      rfl

end Operand.Fits

/-- The selection is what the phrase stands for. -/
def Phrase.Selects (phrase : Phrase .expression) (selection : Selection) : Prop :=
  ∃ operand : Operand, operand.Fits phrase ∧ operand.selection? = some selection

theorem toCondition_eq_ok_iff (start : Nat) {found : Condition} :
    operand.toCondition start = .ok found ↔ operand = .condition found := by
  cases operand <;> simp [Operand.toCondition]

theorem toSelection_eq_ok_iff (start : Nat) {selection : Selection} :
    operand.toSelection start = .ok selection ↔ operand.selection? = some selection := by
  cases operand <;> simp [Operand.toSelection, Operand.selection?]

theorem toCompared_eq_ok_iff (start : Nat) {links : Chain} :
    operand.toCompared start = .ok links ↔ operand = .chain links operand.additive := by
  cases operand <;> simp [Operand.toCompared, Operand.additive]

theorem eq_condition_of_kind (h : operand.kind = .condition) :
    ∃ found, operand = .condition found := by
  cases operand with
  | condition found => exact ⟨found, rfl⟩
  | _ => simp [Operand.kind] at h

theorem exists_selection?_iff :
    (∃ selection, operand.selection? = some selection) ↔ operand.kind ≠ .chain := by
  cases operand <;> simp [Operand.selection?, Operand.kind]

namespace Phrase.Selects

variable {phrase : Phrase .expression} {selection selection' : Selection}

theorem kind_ne (h : phrase.Selects selection) : phrase.kind ≠ .chain := by
  obtain ⟨operand, hfits, hselection⟩ := h
  exact hfits.kind ▸ exists_selection?_iff.mp ⟨selection, hselection⟩

theorem choose (h : phrase.Selects selection) {deciding : Condition}
    {condition : Phrase (.joined .or)} {no : Phrase .expression}
    (hcondition : Operand.Fits (.condition deciding) condition) (hno : no.Selects selection') :
    Operand.Fits (.choice deciding selection selection') (.choose condition phrase no) := by
  obtain ⟨first, hfirst, hselection⟩ := h
  obtain ⟨second, hsecond, hselection'⟩ := hno
  exact .choose hcondition hfirst hselection hsecond hselection'

theorem unique (h : phrase.Selects selection) (h' : phrase.Selects selection') :
    selection = selection' := by
  obtain ⟨operand, hfits, hselection⟩ := h
  obtain ⟨operand', hfits', hselection'⟩ := h'
  obtain rfl := hfits.unique hfits'
  exact Option.some.inj (hselection.symm.trans hselection')

end Phrase.Selects

theorem eq_chain_of_kind (h : operand.kind = .chain) :
    ∃ links, operand = .chain links operand.additive := by
  cases operand with
  | chain links additive => exact ⟨links, rfl⟩
  | _ => simp [Operand.kind] at h

/-! ### What is read is an allowed phrase -/

/-- Between the two places stands the phrase, which is allowed and what the operand fits. -/
structure Phrase.Covers {part : Part} (phrase : Phrase part) (lexed : Lexed) (operand : Operand)
    (rest : Lexed) : Prop where
  allowed : phrase.Allowed
  fits : operand.Fits phrase
  passes : Lexed.Passes phrase.tokens lexed rest

/-- All that the reader reads are allowed phrases. -/
def Sound (part : Part) (reader : Reader Operand) : Prop :=
  ∀ lexed operand rest, reader lexed = .ok (operand, rest) →
    ∃ phrase : Phrase part, phrase.Covers lexed operand rest

variable {lexed rest first : Lexed} {inner next : Reader Operand}

theorem sound_primary (h : Sound .expression inner) : Sound .primary (primary inner) := by
  intro lexed operand rest hread
  simp only [primary] at hread
  split at hread
  · simp only [bind_eq_ok_iff] at hread
    obtain ⟨after, hadvance, heq⟩ := hread
    obtain ⟨rfl, rfl⟩ := Prod.mk.inj (Except.ok.inj heq)
    exact ⟨.count, trivial, .count, Lexed.passes_advance rfl hadvance⟩
  · next value _ _ =>
    simp only [bind_eq_ok_iff] at hread
    obtain ⟨after, hadvance, heq⟩ := hread
    obtain ⟨rfl, rfl⟩ := Prod.mk.inj (Except.ok.inj heq)
    exact ⟨.integer value, trivial, .integer, Lexed.passes_advance rfl hadvance⟩
  · simp only [bind_eq_ok_iff, Prod.exists] at hread
    obtain ⟨after, hadvance, found, mid, hinner, last, hexpect, hread⟩ := hread
    obtain ⟨phrase, hallowed, hfits, hpasses⟩ := h _ _ _ hinner
    have hopening := Lexed.passes_advance rfl hadvance
    have hclosing : Lexed.Passes [.closing] mid last := (Lexed.expect_eq_ok hexpect).2
    have hparens := hopening.trans (hpasses.trans hclosing)
    cases found with
    | chain links additive =>
      obtain ⟨rfl, rfl⟩ := Prod.mk.inj (Except.ok.inj hread)
      exact ⟨.parens phrase, hallowed, .parens hfits, hparens⟩
    | literal | condition | choice =>
      obtain ⟨rfl, rfl⟩ := Prod.mk.inj (Except.ok.inj hread)
      exact ⟨.parens phrase, hallowed, .parens hfits, hparens⟩
  all_goals simp at hread

/-- A repetition goes on with phrases that grow step by step. -/
theorem covers_repeated {step : Operand → Lexed → Except ParseError (Option (Operand × Lexed))}
    (hstep : ∀ soFar lexed more after, step soFar lexed = .ok (some (more, after)) →
      ∀ phrase : Phrase part, phrase.Covers first soFar lexed →
        ∃ longer : Phrase part, longer.Covers first more after)
    {fuel : Nat} {soFar : Operand} (h : repeated step fuel soFar lexed = .ok (operand, rest))
    (hsoFar : ∃ phrase : Phrase part, phrase.Covers first soFar lexed) :
    ∃ phrase : Phrase part, phrase.Covers first operand rest := by
  induction fuel generalizing soFar lexed with
  | zero =>
    obtain ⟨rfl, rfl⟩ := Prod.mk.inj (Except.ok.inj h)
    exact hsoFar
  | succ fuel ih =>
    simp only [repeated, bind_eq_ok_iff] at h
    obtain ⟨found, hfound, h⟩ := h
    cases found with
    | none =>
      obtain ⟨rfl, rfl⟩ := Prod.mk.inj (Except.ok.inj h)
      exact hsoFar
    | some found =>
      obtain ⟨phrase, hcovers⟩ := hsoFar
      exact ih h (hstep _ _ _ _ hfound phrase hcovers)

theorem covers_operator {soFar more : Operand} {after : Lexed}
    (h : operator start soFar lexed = .ok (some (more, after))) {phrase : Phrase .arithmetic}
    (hcovers : phrase.Covers first soFar lexed) :
    ∃ longer : Phrase .arithmetic, longer.Covers first more after := by
  obtain ⟨op, value, links, additive, rfl, hmixed, hzero, rfl, -, hall⟩ := operator_eq_ok h
  obtain ⟨hallowed, hfits, hpasses⟩ := hcovers
  have hadditive : additive = phrase.additive := hfits.additive
  refine ⟨.operator phrase op value, ⟨⟨hallowed, hfits.kind.symm⟩, ?_, ?_⟩, .operator hfits,
    hpasses.trans hall⟩
  · rw [← hadditive, ← Bool.and_eq_true, hmixed]
    exact Bool.false_ne_true
  · rintro ⟨hdivides, rfl⟩
    refine hzero ⟨?_, rfl⟩
    cases op <;> simp_all [Arithmetic.divides]

theorem sound_arithmetic (h : Sound .expression inner) : Sound .arithmetic (arithmetic inner) := by
  intro lexed operand rest hread
  simp only [arithmetic, bind_eq_ok_iff, Prod.exists] at hread
  obtain ⟨first, after, hprimary, hread⟩ := hread
  obtain ⟨phrase, hallowed, hfits, hpasses⟩ := sound_primary h _ _ _ hprimary
  exact covers_repeated (fun _ _ _ _ hstep _ => covers_operator hstep) hread
    ⟨.primary phrase, hallowed, .primary hfits, hpasses⟩

theorem sound_comparison (h : Sound .expression inner) : Sound .comparison (comparison inner) := by
  intro lexed operand rest hread
  simp only [comparison, bind_eq_ok_iff, Prod.exists] at hread
  obtain ⟨left, after, harithmetic, hread⟩ := hread
  obtain ⟨phrase, hallowed, hfits, hpasses⟩ := sound_arithmetic h _ _ _ harithmetic
  split at hread
  · next relation position others =>
    simp only [bind_eq_ok_iff, Prod.exists] at hread
    obtain ⟨links, hleft, mid, hadvance, value, last, hliteral, heq⟩ := hread
    obtain ⟨rfl, rfl⟩ := Prod.mk.inj (Except.ok.inj heq)
    rw [(toCompared_eq_ok_iff _).mp hleft] at hfits
    have hmark := Lexed.passes_advance rfl hadvance
    have hvalue : Lexed.Passes [.integer value] mid last := (literal_eq_ok hliteral).2
    exact ⟨.compare phrase relation value, ⟨hallowed, hfits.kind.symm⟩, .compare hfits,
      hpasses.trans (hmark.trans hvalue)⟩
  · obtain ⟨rfl, rfl⟩ := Prod.mk.inj (Except.ok.inj hread)
    exact ⟨.arithmetic phrase, hallowed, .arithmetic hfits, hpasses⟩

theorem covers_joined {connective : Connective} {soFar more : Operand} {after : Lexed}
    (hnext : Sound connective.operand next)
    (h : joined connective.token connective.join next start soFar lexed = .ok (some (more, after)))
    {phrase : Phrase (.joined connective)} (hcovers : phrase.Covers first soFar lexed) :
    ∃ longer : Phrase (.joined connective), longer.Covers first more after := by
  obtain ⟨left, mid, right, second, position, hhead, hadvance, hleft, hright, hsecond, rfl⟩ :=
    joined_eq_ok h
  obtain ⟨rightPhrase, hallowed, hfits, hpasses⟩ := hnext _ _ _ hright
  obtain rfl := (toCondition_eq_ok_iff _).mp hleft
  obtain rfl := (toCondition_eq_ok_iff _).mp hsecond
  have hmark := Lexed.passes_advance hhead hadvance
  exact ⟨.join connective phrase rightPhrase,
    ⟨⟨hcovers.allowed, hcovers.fits.kind.symm⟩, hallowed, hfits.kind.symm⟩,
    .join hcovers.fits hfits, hcovers.passes.trans (hmark.trans hpasses)⟩

theorem sound_connected (connective : Connective) (hnext : Sound connective.operand next) :
    Sound (.joined connective) (connected connective.token connective.join next) := by
  intro lexed operand rest hread
  simp only [connected, bind_eq_ok_iff, Prod.exists] at hread
  obtain ⟨first, after, hfirst, hread⟩ := hread
  obtain ⟨phrase, hallowed, hfits, hpasses⟩ := hnext _ _ _ hfirst
  exact covers_repeated (fun _ _ _ _ hstep _ => covers_joined hnext hstep) hread
    ⟨.operand connective phrase, hallowed, .operand hfits, hpasses⟩

theorem sound_disjunction (h : Sound .expression inner) :
    Sound (.joined .or) (disjunction inner) :=
  sound_connected .or (sound_connected .and (sound_comparison h))

theorem covers_branch (h : Sound .expression inner) {selection : Selection}
    (hread : branch inner lexed = .ok (selection, rest)) :
    ∃ phrase : Phrase .expression, phrase.Allowed ∧ phrase.Selects selection ∧
      Lexed.Passes phrase.tokens lexed rest := by
  simp only [branch, bind_eq_ok_iff, Prod.exists] at hread
  obtain ⟨operand, after, hinner, selection', hselection, heq⟩ := hread
  obtain ⟨rfl, rfl⟩ := Prod.mk.inj (Except.ok.inj heq)
  obtain ⟨phrase, hallowed, hfits, hpasses⟩ := h _ _ _ hinner
  exact ⟨phrase, hallowed, ⟨operand, hfits, (toSelection_eq_ok_iff _).mp hselection⟩, hpasses⟩

theorem sound_expression (depth : Nat) : Sound .expression (expression depth) := by
  induction depth with
  | zero => intro lexed operand rest hread; simp [expression] at hread
  | succ depth ih =>
    intro lexed operand rest hread
    obtain ⟨head, mid, hhead, ⟨-, rfl, rfl⟩ | ⟨hquestion, condition, afterMark, yes, afterYes,
      afterColon, no, hcondition, hadvance, hyes, hexpect, hno, rfl⟩⟩ := expression_eq_ok hread
    all_goals obtain ⟨phrase, hallowed, hfits, hpasses⟩ := sound_disjunction ih _ _ _ hhead
    · exact ⟨.plain phrase, hallowed, .plain hfits, hpasses⟩
    · obtain rfl := (toCondition_eq_ok_iff _).mp hcondition
      obtain ⟨yesPhrase, hallowedYes, hyes, hpassesYes⟩ := covers_branch ih hyes
      obtain ⟨noPhrase, hallowedNo, hno, hpassesNo⟩ := covers_branch ih hno
      have hmark := Lexed.passes_advance hquestion hadvance
      have hcolon : Lexed.Passes [.colon] afterYes afterColon := (Lexed.expect_eq_ok hexpect).2
      exact ⟨.choose phrase yesPhrase noPhrase,
        ⟨⟨hallowed, hfits.kind.symm⟩, ⟨hallowedYes, hyes.kind_ne⟩, hallowedNo, hno.kind_ne⟩,
        hyes.choose hfits hno,
        hpasses.trans (hmark.trans (hpassesYes.trans (hcolon.trans hpassesNo)))⟩

end Selection

end PluralForms
