import PluralForms.Proofs.SelectionReader

/-! The reader of selections uses the positions of tokens in its errors only: texts with the same
tokens have the same selection. -/

namespace PluralForms

/-! ### Attempts that entail each other -/

section Entails

variable {ε α β γ δ : Type} {r : α → β → Prop} {s : γ → δ → Prop} {x : Except ε α} {y : Except ε β}
  {f : α → Except ε γ} {g : β → Except ε δ}

/-- If the first attempt succeeds, then so does the second, with a related result. -/
def Entails (r : α → β → Prop) (x : Except ε α) (y : Except ε β) : Prop :=
  ∀ a, x = .ok a → ∃ b, y = .ok b ∧ r a b

theorem Entails.ok {a : α} {b : β} (h : r a b) :
    Entails r (.ok a : Except ε α) (.ok b : Except ε β) := by
  intro a' ha
  obtain rfl := Except.ok.inj ha
  exact ⟨b, rfl, h⟩

theorem Entails.error (e : ε) (y : Except ε β) : Entails r (.error e) y := by
  intro a ha
  simp at ha

theorem Entails.bind (h : Entails r x y) (hnext : ∀ a b, r a b → Entails s (f a) (g b)) :
    Entails s (x >>= f) (y >>= g) := by
  intro c hc
  obtain ⟨a, ha, hfa⟩ := bind_eq_ok_iff.mp hc
  obtain ⟨b, hb, hab⟩ := h a ha
  obtain ⟨d, hd, hcd⟩ := hnext a b hab c hfa
  exact ⟨d, bind_eq_ok_iff.mpr ⟨b, hb, hd⟩, hcd⟩

end Entails

namespace Lexed

/-- The same tokens up to the end of the text, perhaps at other positions. -/
inductive Alike : Lexed → Lexed → Prop
  | eof (position position' : Nat) : Alike (.eof position) (.eof position')
  | token {a b : Lexed} (token : Token) (position position' : Nat) :
      Alike a b → Alike (.token token position a) (.token token position' b)

variable {a b : Lexed}

theorem Alike.of_all? {tokens : List Token} (ha : a.all? = some tokens)
    (hb : b.all? = some tokens) : Alike a b := by
  induction a generalizing b tokens with
  | eof position =>
    obtain rfl := Option.some.inj ha
    cases b with
    | eof position' => exact .eof position position'
    | _ => simp [all?] at hb
  | broken error => simp [all?] at ha
  | token token position rest ih =>
    obtain ⟨others, hothers, rfl⟩ := Option.map_eq_some_iff.mp ha
    cases b with
    | token token' position' rest' =>
      obtain ⟨others', hothers', heq⟩ := Option.map_eq_some_iff.mp hb
      obtain ⟨rfl, rfl⟩ := List.cons.inj heq
      exact .token _ position position' (ih hothers hothers')
    | _ => simp [all?] at hb

theorem Alike.size_eq (h : Alike a b) : a.size = b.size := by
  induction h with
  | eof => rfl
  | token _ _ _ _ ih => exact congrArg (· + 1) ih

theorem Alike.head?_eq (h : Alike a b) : a.head? = b.head? := by
  cases h <;> rfl

theorem Alike.advance (h : Alike a b) : Entails Alike a.advance b.advance := by
  cases h with
  | eof position position' => exact .ok (.eof position position')
  | token _ _ _ hrest =>
    cases hrest with
    | eof position position' => exact .ok (.eof position position')
    | token found position position' hothers => exact .ok (.token found position position' hothers)

theorem Alike.expect (h : Alike a b) (wanted : Token) (expected : Expectation) :
    Entails Alike (a.expect wanted expected) (b.expect wanted expected) := by
  simp only [Lexed.expect, ← h.head?_eq]
  split
  · exact h.advance
  · exact .error _ _

end Lexed

namespace Selection

open Lexed (Alike)

variable {α : Type} {a b : Lexed} {inner next : Reader Operand} {start start' : Nat}

/-- The same was read, and what remains is alike. -/
def SameRead (x y : α × Lexed) : Prop := x.1 = y.1 ∧ Alike x.2 y.2

/-- What the reader makes of tokens does not depend on their positions. -/
def Steady (reader : Reader α) : Prop := ∀ a b, Alike a b → Entails SameRead (reader a) (reader b)

theorem entails_toCondition (operand : Operand) (start start' : Nat) :
    Entails Eq (operand.toCondition start) (operand.toCondition start') := by
  cases operand with
  | condition found => exact .ok rfl
  | _ => exact .error _ _

theorem entails_toSelection (operand : Operand) (start start' : Nat) :
    Entails Eq (operand.toSelection start) (operand.toSelection start') := by
  cases operand with
  | chain _ _ => exact .error _ _
  | _ => exact .ok rfl

theorem entails_toArithmetic (operand : Operand) (start start' : Nat) :
    Entails Eq (operand.toArithmetic start) (operand.toArithmetic start') := by
  cases operand with
  | chain _ _ => exact .ok rfl
  | _ => exact .error _ _

theorem entails_toCompared (operand : Operand) (start start' : Nat) :
    Entails Eq (operand.toCompared start) (operand.toCompared start') := by
  cases operand with
  | chain _ _ => exact .ok rfl
  | _ => exact .error _ _

/-- The token of a value, and no more, is passed over. -/
theorem entails_advance (h : Alike a b) (x : α) :
    Entails SameRead (do return (x, ← a.advance)) (do return (x, ← b.advance)) :=
  h.advance.bind fun _ _ hrest => .ok ⟨rfl, hrest⟩

theorem steady_literal : Steady literal := by
  intro a b h
  cases h with
  | eof => exact .error _ _
  | token found position position' hrest =>
    cases found with
    | integer value => exact entails_advance (.token _ _ _ hrest) value
    | arith op => cases op <;> exact .error _ _
    | _ => exact .error _ _

theorem steady_primary (hinner : Steady inner) : Steady (primary inner) := by
  intro a b h
  cases h with
  | eof => exact .error _ _
  | token found position position' hrest =>
    have htoken := hrest.token found position position'
    cases found with
    | count => exact entails_advance htoken _
    | integer value => exact entails_advance htoken _
    | opening =>
      refine htoken.advance.bind fun _ _ hrest => (hinner _ _ hrest).bind ?_
      rintro ⟨operand, rest⟩ ⟨_, rest'⟩ ⟨rfl, hrest⟩
      refine (hrest.expect .closing .closing).bind fun _ _ hafter => ?_
      cases operand <;> exact .ok ⟨rfl, hafter⟩
    | arith op => cases op <;> exact .error _ _
    | _ => exact .error _ _

theorem steady_repeated {step step' : α → Lexed → Except ParseError (Option (α × Lexed))}
    (hstep : ∀ soFar a b, Alike a b →
      Entails (Option.Rel SameRead) (step soFar a) (step' soFar b))
    (fuel : Nat) (soFar : α) (h : Alike a b) :
    Entails SameRead (repeated step fuel soFar a) (repeated step' fuel soFar b) := by
  induction fuel generalizing soFar a b with
  | zero => exact .ok ⟨rfl, h⟩
  | succ fuel ih =>
    refine (hstep soFar a b h).bind fun found found' hfound => ?_
    cases hfound with
    | none => exact .ok ⟨rfl, h⟩
    | @some read read' hread =>
      obtain ⟨more, rest⟩ := read
      obtain ⟨_, rest'⟩ := read'
      obtain ⟨rfl, hrest⟩ := hread
      exact ih more hrest

theorem entails_operator (start start' : Nat) (left : Operand) (h : Alike a b) :
    Entails (Option.Rel SameRead) (operator start left a) (operator start' left b) := by
  cases h with
  | eof => exact .ok .none
  | token found position position' hrest =>
    cases found with
    | arith op =>
      refine (entails_toArithmetic left start start').bind ?_
      rintro ⟨links, additive⟩ _ rfl
      dsimp only
      cases op.isMultiplicative && additive with
      | true => exact .error _ _
      | false =>
        refine Alike.advance (hrest.token (.arith op) position position') |>.bind ?_
        refine fun after after' hafter => (steady_literal _ _ hafter).bind ?_
        rintro ⟨value, rest⟩ ⟨_, rest'⟩ ⟨rfl, hrest⟩
        dsimp only at hrest ⊢
        cases decide (value = 0) && op.divides with
        | true => exact .error _ _
        | false => exact .ok (.some ⟨rfl, hrest⟩)
    | _ => exact .ok .none

theorem steady_arithmetic (hinner : Steady inner) : Steady (arithmetic inner) := by
  intro a b h
  refine (steady_primary hinner a b h).bind ?_
  rintro ⟨first, rest⟩ ⟨_, rest'⟩ ⟨rfl, hrest⟩
  dsimp only at hrest ⊢
  rw [← hrest.size_eq]
  exact steady_repeated (fun soFar _ _ => entails_operator _ _ soFar) _ first hrest

theorem steady_comparison (hinner : Steady inner) : Steady (comparison inner) := by
  intro a b h
  refine (steady_arithmetic hinner a b h).bind ?_
  rintro ⟨left, rest⟩ ⟨_, rest'⟩ ⟨rfl, hrest⟩
  dsimp only at hrest ⊢
  cases hrest with
  | eof position position' => exact .ok ⟨rfl, .eof position position'⟩
  | token found position position' hrest =>
    cases found with
    | compare relation =>
      refine (entails_toCompared left a.position b.position).bind ?_
      rintro links _ rfl
      refine Alike.advance (hrest.token (.compare relation) position position') |>.bind ?_
      refine fun after after' hafter => (steady_literal _ _ hafter).bind ?_
      rintro ⟨value, rest⟩ ⟨_, rest'⟩ ⟨rfl, hrest⟩
      exact .ok ⟨rfl, hrest⟩
    | _ => exact .ok ⟨rfl, hrest.token _ position position'⟩

theorem entails_joined (mark : Token) (join : Condition → Condition → Condition)
    (hnext : Steady next) (start start' : Nat) (left : Operand) (h : Alike a b) :
    Entails (Option.Rel SameRead) (joined mark join next start left a)
      (joined mark join next start' left b) := by
  simp only [joined, ← h.head?_eq]
  split
  · refine (entails_toCondition left start start').bind ?_
    rintro first _ rfl
    refine h.advance.bind fun after after' hafter => (hnext _ _ hafter).bind ?_
    rintro ⟨right, rest⟩ ⟨_, rest'⟩ ⟨rfl, hrest⟩
    refine (entails_toCondition right after.position after'.position).bind ?_
    rintro second _ rfl
    exact .ok (.some ⟨rfl, hrest⟩)
  · exact .ok .none

theorem steady_connected (mark : Token) (join : Condition → Condition → Condition)
    (hnext : Steady next) : Steady (connected mark join next) := by
  intro a b h
  refine (hnext a b h).bind ?_
  rintro ⟨first, rest⟩ ⟨_, rest'⟩ ⟨rfl, hrest⟩
  dsimp only at hrest ⊢
  rw [← hrest.size_eq]
  exact steady_repeated (fun soFar _ _ => entails_joined mark join hnext _ _ soFar) _ first hrest

theorem steady_branch (hinner : Steady inner) : Steady (branch inner) := by
  intro a b h
  refine (hinner a b h).bind ?_
  rintro ⟨operand, rest⟩ ⟨_, rest'⟩ ⟨rfl, hrest⟩
  refine (entails_toSelection operand a.position b.position).bind ?_
  rintro selection _ rfl
  exact .ok ⟨rfl, hrest⟩

theorem steady_expression (depth : Nat) : Steady (expression depth) := by
  induction depth with
  | zero => exact fun a b _ => .error _ _
  | succ depth ih =>
    intro a b h
    have hand := steady_connected .and .and (steady_comparison ih)
    refine (steady_connected .or .or hand a b h).bind ?_
    rintro ⟨head, rest⟩ ⟨_, rest'⟩ ⟨rfl, hrest⟩
    dsimp only at hrest ⊢
    rw [← hrest.head?_eq]
    split
    · refine (entails_toCondition head a.position b.position).bind ?_
      rintro condition _ rfl
      refine hrest.advance.bind fun _ _ hrest => (steady_branch ih _ _ hrest).bind ?_
      rintro ⟨yes, rest⟩ ⟨_, rest'⟩ ⟨rfl, hrest⟩
      refine (hrest.expect .colon .colon).bind fun _ _ hrest => (steady_branch ih _ _ hrest).bind ?_
      rintro ⟨no, rest⟩ ⟨_, rest'⟩ ⟨rfl, hrest⟩
      exact .ok ⟨rfl, hrest⟩
    · exact .ok ⟨rfl, hrest⟩

theorem entails_ofLexed (h : Alike a b) : Entails Eq (ofLexed a) (ofLexed b) := by
  cases h with
  | eof => exact .error _ _
  | token found position position' hrest =>
    have htoken := hrest.token found position position'
    simp only [ofLexed, ← htoken.size_eq]
    refine (steady_expression _ _ _ htoken).bind ?_
    rintro ⟨operand, rest⟩ ⟨_, rest'⟩ ⟨rfl, hrest⟩
    dsimp only at hrest ⊢
    cases hrest with
    | eof => exact entails_toSelection operand position position'
    | token => exact .error _ _

/-- A text with the same tokens as an accepted one is accepted, and has the same selection. -/
theorem parse_of_tokens?_eq {text text' : List Char} {selection : Selection}
    (h : parse text = .ok selection) (htokens : Text.tokens? text' = Text.tokens? text) :
    parse text' = .ok selection := by
  obtain ⟨tokens, -, hall, -⟩ := derives_of_parse h
  have halike : Alike (.ofChars text) (.ofChars text') := .of_all? hall (htokens.trans hall)
  obtain ⟨selection', hparse, rfl⟩ := entails_ofLexed halike selection h
  exact hparse

end Selection

end PluralForms
