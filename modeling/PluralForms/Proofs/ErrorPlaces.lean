import PluralForms.Selection.Parser

/-! Places of errors in a text. An error points to its place if a character that it names stands
there, and if an unexpected end is the end of the text. Each error of the reader of selections
points to its place, since the tokens carry their positions and each reader hands on what it is
given. -/

namespace PluralForms

/-! ### Errors and their places -/

/-- The cause names what stands at the position. -/
def ParseError.Cause.namesPlace : Cause → Bool
  | .unexpectedChar _ | .unexpectedEnd _ => true
  | _ => false

/-- The position lies in the text or at its end, and what the cause names stands there. -/
structure ParseError.Points (text : List Char) (error : ParseError) : Prop where
  position_le : error.position ≤ text.length
  char_eq : ∀ c, error.cause = .unexpectedChar c → text[error.position]? = some c
  end_eq : ∀ expected, error.cause = .unexpectedEnd expected → error.position = text.length

variable {text : List Char}

theorem ParseError.points_of_le {position : Nat} {cause : ParseError.Cause}
    (hle : position ≤ text.length) (hcause : cause.namesPlace = false) :
    Points text ⟨position, cause⟩ where
  position_le := hle
  char_eq c hc := by simp [show cause = .unexpectedChar c from hc, Cause.namesPlace] at hcause
  end_eq expected he := by
    simp [show cause = .unexpectedEnd expected from he, Cause.namesPlace] at hcause

/-! ### Attempts that meet expectations -/

section Meets

variable {ε α β : Type} {onError : ε → Prop} {onOk : α → Prop} {onOk' : β → Prop} {x : Except ε α}
  {f : α → Except ε β}

/-- An error with which the attempt fails is as `onError` says, and what it yields is as `onOk`
says. -/
structure Meets (onError : ε → Prop) (onOk : α → Prop) (x : Except ε α) : Prop where
  error : ∀ e, x = .error e → onError e
  ok : ∀ a, x = .ok a → onOk a

theorem Meets.of_ok {a : α} (h : onOk a) : Meets onError onOk (.ok a) where
  error e he := by simp at he
  ok b hb := Except.ok.inj hb ▸ h

theorem Meets.of_error {e : ε} (h : onError e) : Meets onError onOk (.error e) where
  error e' he := Except.error.inj he ▸ h
  ok b hb := by simp at hb

theorem Meets.imp {onOk' : α → Prop} (h : Meets onError onOk x) (himp : ∀ a, onOk a → onOk' a) :
    Meets onError onOk' x where
  error := h.error
  ok a ha := himp a (h.ok a ha)

theorem Meets.bind (h : Meets onError onOk x) (hnext : ∀ a, onOk a → Meets onError onOk' (f a)) :
    Meets onError onOk' (x >>= f) := by
  cases hx : x with
  | error e => exact .of_error (h.error e hx)
  | ok a => exact hnext a (h.ok a hx)

end Meets

/-! ### Tokens at their places -/

namespace Lexed

/-- The tokens and what follows them stand where their positions say. -/
def Placed (text : List Char) : Lexed → Prop
  | .eof position => position = text.length
  | .broken error => error.Points text
  | .token _ position rest => position ≤ text.length ∧ rest.Placed text

variable {lexed : Lexed}

theorem Placed.position_le (h : lexed.Placed text) : lexed.position ≤ text.length := by
  cases lexed with
  | eof position => exact Nat.le_of_eq h
  | broken error => exact h.position_le
  | token found position rest => exact h.1

/-- What is unexpected stands at its place. -/
theorem Placed.points_unexpected (h : lexed.Placed text) (expected : Expectation) :
    (lexed.unexpected expected).Points text := by
  cases lexed with
  | eof position =>
    exact ⟨Nat.le_of_eq h, fun c hc => by simp [unexpected] at hc, fun _ _ => h⟩
  | broken error => exact h
  | token found position rest => exact ParseError.points_of_le h.1 rfl

theorem single_of_pair {second : Char} {double : Token} {single : Except ParseError.Cause Token}
    {rest : List Char} {cause : ParseError.Cause}
    (h : pair second double single rest = .error cause) : single = .error cause := by
  cases rest with
  | nil => cases single <;> simp_all [pair, Except.map]
  | cons c rest =>
    simp only [pair] at h
    split at h
    · simp at h
    · cases single <;> simp_all [Except.map]

/-- A scan that fails names the character with which it starts, or no place. -/
theorem cause_of_scan {c : Char} {rest : List Char} {cause : ParseError.Cause}
    (h : scan c rest = .error cause) :
    cause = .unexpectedChar c ∨ cause.namesPlace = false := by
  simp only [scan] at h
  split at h
  · split at h
    · simp at h
    · obtain rfl := Except.error.inj h
      exact .inr rfl
  · split at h
    · split at h
      · simp at h
      · obtain rfl := Except.error.inj h
        exact .inr rfl
    · left
      split at h
      all_goals first
        | exact (Except.error.inj h).symm
        | exact (Except.error.inj (single_of_pair h)).symm
        | simp at h
        | exact absurd (single_of_pair h) (by simp)

theorem placed_ofCharsFrom (skip : Nat) (before after : List Char)
    (htext : text = before ++ after) :
    (ofCharsFrom before.length skip after).Placed text := by
  induction after generalizing before skip with
  | nil => simp [ofCharsFrom, Placed, htext]
  | cons c rest ih =>
    have hnext (skip : Nat) : (ofCharsFrom (before.length + 1) skip rest).Placed text := by
      simpa using ih skip (before ++ [c]) (by simp [htext])
    have hle : before.length ≤ text.length := by simp [htext]
    cases skip with
    | succ skip => exact hnext skip
    | zero =>
      simp only [ofCharsFrom]
      split
      · exact hnext 0
      · split
        · exact ⟨hle, hnext _⟩
        · next cause hscan =>
          rcases cause_of_scan hscan with rfl | hcause
          · refine ⟨hle, fun c' hc => ?_, fun _ he => by simp at he⟩
            obtain rfl := ParseError.Cause.unexpectedChar.inj hc
            simp [htext]
          · exact ParseError.points_of_le hle hcause

theorem meets_advance (h : lexed.Placed text) :
    Meets (ParseError.Points text) (Placed text) lexed.advance := by
  cases lexed with
  | eof | broken => exact .of_ok h
  | token found position rest =>
    cases rest with
    | broken error => exact .of_error h.2
    | eof | token => exact .of_ok h.2

theorem meets_expect (h : lexed.Placed text) (wanted : Token) (expected : Expectation) :
    Meets (ParseError.Points text) (Placed text) (lexed.expect wanted expected) := by
  simp only [expect]
  split
  · exact meets_advance h
  · exact .of_error (h.points_unexpected expected)

end Lexed

/-! ### Readers of selections -/

namespace Selection

variable {α : Type} {lexed rest : Lexed} {inner next : Reader Operand} {operand : Operand}
  {start : Nat}

theorem meets_toCondition (operand : Operand) (h : start ≤ text.length) :
    Meets (ParseError.Points text) (fun _ => True) (operand.toCondition start) := by
  cases operand with
  | condition found => exact .of_ok trivial
  | _ => exact .of_error (ParseError.points_of_le h rfl)

theorem meets_toSelection (operand : Operand) (h : start ≤ text.length) :
    Meets (ParseError.Points text) (fun _ => True) (operand.toSelection start) := by
  cases operand with
  | chain links additive => exact .of_error (ParseError.points_of_le h rfl)
  | _ => exact .of_ok trivial

theorem meets_toArithmetic (operand : Operand) (h : start ≤ text.length) :
    Meets (ParseError.Points text) (fun _ => True) (operand.toArithmetic start) := by
  cases operand with
  | chain links additive => exact .of_ok trivial
  | _ => exact .of_error (ParseError.points_of_le h rfl)

theorem meets_toCompared (operand : Operand) (h : start ≤ text.length) :
    Meets (ParseError.Points text) (fun _ => True) (operand.toCompared start) := by
  cases operand with
  | chain links additive => exact .of_ok trivial
  | _ => exact .of_error (ParseError.points_of_le h rfl)

/-- Given tokens at their places, the reader leaves such tokens or fails with an error that points
to its place. -/
def Places (text : List Char) (reader : Reader α) : Prop :=
  ∀ lexed, lexed.Placed text →
    Meets (ParseError.Points text) (fun read => read.2.Placed text) (reader lexed)

theorem meets_advance_pair (x : α) (h : lexed.Placed text) :
    Meets (ParseError.Points text) (fun read : α × Lexed => read.2.Placed text)
      (do return (x, ← lexed.advance)) :=
  (Lexed.meets_advance h).bind fun _ hafter => .of_ok hafter

theorem places_literal : Places text literal := by
  intro lexed h
  cases lexed with
  | eof | broken => exact .of_error (h.points_unexpected _)
  | token found position rest =>
    cases found with
    | integer value => exact meets_advance_pair value h
    | count | opening => exact .of_error (ParseError.points_of_le h.1 rfl)
    | arith op =>
      cases op with
      | sub => exact .of_error (ParseError.points_of_le h.1 rfl)
      | _ => exact .of_error (h.points_unexpected _)
    | _ => exact .of_error (h.points_unexpected _)

theorem places_primary (hinner : Places text inner) : Places text (primary inner) := by
  intro lexed h
  cases lexed with
  | eof | broken => exact .of_error (h.points_unexpected _)
  | token found position rest =>
    cases found with
    | count | integer => exact meets_advance_pair _ h
    | opening =>
      refine (Lexed.meets_advance h).bind fun after hafter => ?_
      refine (hinner after hafter).bind fun ⟨operand, rest⟩ hrest => ?_
      refine (Lexed.meets_expect hrest _ _).bind fun last hlast => ?_
      cases operand <;> exact .of_ok hlast
    | not => exact .of_error (ParseError.points_of_le h.1 rfl)
    | arith op =>
      cases op with
      | sub => exact .of_error (ParseError.points_of_le h.1 rfl)
      | _ => exact .of_error (h.points_unexpected _)
    | _ => exact .of_error (h.points_unexpected _)

/-- What a step leaves stands at its place, if it finds something. -/
def StepPlaced (text : List Char) (found : Option (α × Lexed)) : Prop :=
  ∀ read, found = some read → read.2.Placed text

theorem stepPlaced_none : StepPlaced text (none : Option (α × Lexed)) := by
  simp [StepPlaced]

theorem stepPlaced_some {read : α × Lexed} (h : read.2.Placed text) :
    StepPlaced text (some read) := by
  rintro _ ⟨⟩
  exact h

theorem places_repeated {step : α → Lexed → Except ParseError (Option (α × Lexed))}
    (hstep : ∀ soFar lexed, lexed.Placed text →
      Meets (ParseError.Points text) (StepPlaced text) (step soFar lexed))
    (fuel : Nat) (soFar : α) : Places text (repeated step fuel soFar) := by
  induction fuel generalizing soFar with
  | zero => exact fun lexed h => .of_ok h
  | succ fuel ih =>
    intro lexed h
    refine (hstep soFar lexed h).bind fun found hfound => ?_
    cases found with
    | none => exact .of_ok h
    | some read => exact ih read.1 read.2 (hfound read rfl)

theorem meets_operator (hstart : start ≤ text.length) (left : Operand) (lexed : Lexed)
    (h : lexed.Placed text) :
    Meets (ParseError.Points text) (StepPlaced text) (operator start left lexed) := by
  cases lexed with
  | eof | broken => exact .of_ok stepPlaced_none
  | token found position others =>
    cases found with
    | arith op =>
      refine (meets_toArithmetic left hstart).bind fun ⟨links, additive⟩ _ => ?_
      dsimp only
      by_cases hmixed : (op.isMultiplicative && additive) = true
      · rw [if_pos hmixed]
        exact .of_error (ParseError.points_of_le h.1 rfl)
      rw [if_neg hmixed]
      refine (Lexed.meets_advance h).bind fun after hafter => ?_
      refine (places_literal after hafter).bind fun ⟨value, rest⟩ hrest => ?_
      dsimp only
      by_cases hzero : (decide (value = 0) && op.divides) = true
      · rw [if_pos hzero]
        exact .of_error (ParseError.points_of_le hafter.position_le rfl)
      · rw [if_neg hzero]
        exact .of_ok (stepPlaced_some hrest)
    | _ => exact .of_ok stepPlaced_none

theorem places_arithmetic (hinner : Places text inner) : Places text (arithmetic inner) := by
  intro lexed h
  refine (places_primary hinner lexed h).bind fun ⟨first, rest⟩ hrest => ?_
  exact places_repeated (meets_operator h.position_le) _ _ rest hrest

theorem places_comparison (hinner : Places text inner) : Places text (comparison inner) := by
  intro lexed h
  refine (places_arithmetic hinner lexed h).bind fun ⟨left, rest⟩ hrest => ?_
  cases rest with
  | eof | broken => exact .of_ok hrest
  | token found position rest =>
    cases found with
    | compare relation =>
      refine (meets_toCompared left h.position_le).bind fun links _ => ?_
      refine (Lexed.meets_advance hrest).bind fun after hafter => ?_
      exact (places_literal after hafter).bind fun ⟨value, rest⟩ hrest => .of_ok hrest
    | _ => exact .of_ok hrest

theorem meets_joined (mark : Token) (join : Condition → Condition → Condition)
    (hnext : Places text next) (hstart : start ≤ text.length) (left : Operand) (lexed : Lexed)
    (h : lexed.Placed text) :
    Meets (ParseError.Points text) (StepPlaced text) (joined mark join next start left lexed) := by
  simp only [joined]
  split
  · refine (meets_toCondition left hstart).bind fun first _ => ?_
    refine (Lexed.meets_advance h).bind fun after hafter => ?_
    refine (hnext after hafter).bind fun ⟨right, rest⟩ hrest => ?_
    refine (meets_toCondition right hafter.position_le).bind fun second _ => ?_
    exact .of_ok (stepPlaced_some hrest)
  · exact .of_ok stepPlaced_none

theorem places_connected (mark : Token) (join : Condition → Condition → Condition)
    (hnext : Places text next) : Places text (connected mark join next) := by
  intro lexed h
  refine (hnext lexed h).bind fun ⟨first, rest⟩ hrest => ?_
  exact places_repeated (meets_joined mark join hnext h.position_le) _ _ rest hrest

theorem places_branch (hinner : Places text inner) : Places text (branch inner) := by
  intro lexed h
  refine (hinner lexed h).bind fun ⟨operand, rest⟩ hrest => ?_
  exact (meets_toSelection operand h.position_le).bind fun _ _ => .of_ok hrest

theorem places_expression (depth : Nat) : Places text (expression depth) := by
  induction depth with
  | zero => exact fun lexed h => .of_error (h.points_unexpected _)
  | succ depth ih =>
    intro lexed h
    have hand := places_connected .and .and (places_comparison ih)
    refine (places_connected .or .or hand lexed h).bind fun ⟨head, rest⟩ hrest => ?_
    dsimp only
    split
    · refine (meets_toCondition head h.position_le).bind fun condition _ => ?_
      refine (Lexed.meets_advance hrest).bind fun after hafter => ?_
      refine (places_branch ih after hafter).bind fun ⟨yes, rest⟩ hrest => ?_
      refine (Lexed.meets_expect hrest _ _).bind fun after hafter => ?_
      exact (places_branch ih after hafter).bind fun ⟨no, rest⟩ hrest => .of_ok hrest
    · exact .of_ok hrest

theorem meets_ofLexed (h : lexed.Placed text) :
    Meets (ParseError.Points text) (fun _ => True) (ofLexed lexed) := by
  cases lexed with
  | broken error => exact .of_error h
  | eof position => exact .of_error (ParseError.points_of_le (Nat.le_of_eq h) rfl)
  | token found position rest =>
    refine (places_expression _ _ h).bind fun ⟨operand, rest⟩ hrest => ?_
    cases rest with
    | eof => exact meets_toSelection operand h.1
    | broken | token => exact .of_error (hrest.points_unexpected _)

end Selection

theorem compile_eq_error {error : ParseError} (h : Program.compile text = .error error) :
    Selection.parse text = .error error := by
  rw [Program.compile] at h
  cases hparse : Selection.parse text with
  | ok selection => simp [hparse, Except.map] at h
  | error error' =>
    rw [hparse] at h
    exact congrArg _ (Except.error.inj h)

/-- Each error of the reader of selections points to its place. -/
theorem points_of_compile {error : ParseError} (h : Program.compile text = .error error) :
    error.Points text :=
  (Selection.meets_ofLexed (Lexed.placed_ofCharsFrom 0 [] text rfl)).error _ (compile_eq_error h)

end PluralForms
