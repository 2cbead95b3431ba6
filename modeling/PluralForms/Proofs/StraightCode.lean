import PluralForms.Proofs.Layout
import PluralForms.Proofs.Transition

/-! Native code on a processor: where instructions stand in the code, the processor executes them
one after the other, until one of them branches or returns. -/

namespace PluralForms.Native

open Relation

variable {ι τ : Type}

/-- A processor with states of type `τ` for an instruction set. It executes each instruction of
native code in its place, and it proceeds in a state where nothing goes wrong. -/
structure Core (ι τ : Type) where
  isa : Isa ι
  position : τ → Nat
  /-- What an instruction does in its place: it leads to a state or returns. -/
  run : ι → τ → Option (τ ⊕ Int64)
  /-- The runs of machine code. -/
  system : List UInt8 → System τ Int64
  Proceeds : List UInt8 → τ → Prop
  step_of_codeAt : ∀ {whole code : List ι} {instruction : ι} {t : τ},
    CodeAt isa whole (position t) (instruction :: code) →
      (system (isa.bytes whole)).step t = run instruction t
  proceeds_of_codeAt : ∀ {whole code : List ι} {instruction : ι} {t : τ},
    CodeAt isa whole (position t) (instruction :: code) → run instruction t ≠ none →
      Proceeds (isa.bytes whole) t

namespace Isa

variable (isa : Isa ι)

theorem size_nil : isa.size [] = 0 := rfl

theorem size_cons (instruction : ι) (code : List ι) :
    isa.size (instruction :: code) = (isa.encode instruction).length + isa.size code := by
  rw [size, bytes, List.flatMap_cons, List.length_append]
  rfl

end Isa

theorem CodeAt.tail {isa : Isa ι} {whole code : List ι} {place : Nat} {instruction : ι}
    (h : CodeAt isa whole place (instruction :: code)) :
    CodeAt isa whole (place + (isa.encode instruction).length) code := by
  obtain ⟨-, hrest⟩ := (show CodeAt isa whole place ([instruction] ++ code) from h).append
  rwa [isa.size_cons, isa.size_nil, Nat.add_zero] at hrest

namespace Core

variable {core : Core ι τ} {whole before code after : List ι} {instruction last : ι}
  {t t₁ t₂ : τ} {v : Int64}

/-- The processor goes from one state to another and proceeds on the way. -/
def Goes (core : Core ι τ) (whole : List ι) : τ → τ → Prop :=
  (core.system (core.isa.bytes whole)).GoodNext (core.Proceeds (core.isa.bytes whole))

/-- The processor returns with a value, and proceeds until then. -/
def Returns (core : Core ι τ) (whole : List ι) : τ → Int64 → Prop :=
  (core.system (core.isa.bytes whole)).EndsGood (core.Proceeds (core.isa.bytes whole))

/-- The processor comes from one state to another in one or more steps. -/
def Arrives (core : Core ι τ) (whole : List ι) : τ → τ → Prop := TransGen (core.Goes whole)

theorem goes_of_codeAt (h : CodeAt core.isa whole (core.position t) (instruction :: code))
    (hrun : core.run instruction t = some (.inl t₁)) : core.Goes whole t t₁ := by
  refine ⟨core.proceeds_of_codeAt h (by simp [hrun]), ?_⟩
  rw [System.Next, core.step_of_codeAt h, hrun]

/-- The execution of code leads from one state to another and comes by each of its instructions. -/
inductive Passes (core : Core ι τ) : List ι → τ → τ → Prop
  | nil {t : τ} : Passes core [] t t
  | cons {instruction : ι} {code : List ι} {t t₁ t₂ : τ} :
      core.run instruction t = some (.inl t₁) →
      core.position t₁ = core.position t + (core.isa.encode instruction).length →
      Passes core code t₁ t₂ → Passes core (instruction :: code) t t₂

namespace Passes

theorem position (h : core.Passes code t t₁) :
    core.position t₁ = core.position t + core.isa.size code := by
  induction h with
  | nil => rfl
  | cons _ hposition _ ih => rw [ih, hposition, core.isa.size_cons, Nat.add_assoc]

theorem append (h : core.Passes before t t₁) (h' : core.Passes after t₁ t₂) :
    core.Passes (before ++ after) t t₂ := by
  induction h with
  | nil => exact h'
  | cons hrun hposition _ ih => exact .cons hrun hposition (ih h')

/-- Where code stands, the processor takes the steps of the code. -/
theorem steps (h : core.Passes code t t₁)
    (hcode : CodeAt core.isa whole (core.position t) code) :
    ReflTransGen (core.Goes whole) t t₁ := by
  induction h with
  | nil => exact .refl
  | cons hrun hposition _ ih =>
    have htail := hcode.tail
    rw [← hposition] at htail
    exact .head (goes_of_codeAt hcode hrun) (ih htail)

theorem arrives (h : core.Passes code t t₁)
    (hcode : CodeAt core.isa whole (core.position t) code) (hne : code ≠ []) :
    core.Arrives whole t t₁ := by
  cases h with
  | nil => exact absurd rfl hne
  | cons hrun hposition hrest =>
    have htail := hcode.tail
    rw [← hposition] at htail
    exact .head' (goes_of_codeAt hcode hrun) (hrest.steps htail)

/-- Behind straight code the processor executes the instruction that follows. -/
theorem codeAt_last (h : core.Passes before t t₁)
    (hcode : CodeAt core.isa whole (core.position t) (before ++ [last])) :
    CodeAt core.isa whole (core.position t₁) [last] := by
  rw [h.position]
  exact hcode.append.2

theorem branches (h : core.Passes before t t₁)
    (hcode : CodeAt core.isa whole (core.position t) (before ++ [last]))
    (hlast : core.run last t₁ = some (.inl t₂)) : core.Arrives whole t t₂ :=
  .tail' (h.steps hcode.append.1) (goes_of_codeAt (h.codeAt_last hcode) hlast)

theorem returns (h : core.Passes before t t₁)
    (hcode : CodeAt core.isa whole (core.position t) (before ++ [last]))
    (hlast : core.run last t₁ = some (.inr v)) : core.Returns whole t v := by
  have hat := h.codeAt_last hcode
  refine ⟨t₁, h.steps hcode.append.1, core.proceeds_of_codeAt hat (by simp [hlast]), ?_⟩
  rw [core.step_of_codeAt hat, hlast]

end Passes

end Core

end PluralForms.Native
