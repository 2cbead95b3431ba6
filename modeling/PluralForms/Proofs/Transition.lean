import Mathlib.Logic.Relation

/-! Deterministic systems that run in steps, and simulations between them. A run ends with a value,
goes on forever, or comes to a state that has no step. Two systems that simulate each other in
parts of one or more steps end with the same values. -/

namespace PluralForms

/-- In each state a system goes on to another state, ends with a value, or is stuck. -/
structure System (σ α : Type) where
  step : σ → Option (σ ⊕ α)

namespace System

open Relation

variable {σ τ α : Type}

/-- The system goes on from `s` to `s'`. -/
def Next (system : System σ α) (s s' : σ) : Prop := system.step s = some (.inl s')

/-- The run from a state ends with `v` after the given number of further states. -/
inductive EndsIn (system : System σ α) (v : α) : Nat → σ → Prop
  | done {s : σ} : system.step s = some (.inr v) → EndsIn system v 0 s
  | next {k : Nat} {s s' : σ} : system.Next s s' → EndsIn system v k s' →
      EndsIn system v (k + 1) s

/-- The run from `s` ends with `v`. -/
def Ends (system : System σ α) (s : σ) (v : α) : Prop := ∃ k, system.EndsIn v k s

variable {system : System σ α} {s s' : σ} {v w : α} {j k : Nat}

theorem Next.unique {s₁ s₂ : σ} (h₁ : system.Next s s₁) (h₂ : system.Next s s₂) : s₁ = s₂ := by
  simpa [Next] using h₁.symm.trans h₂

theorem Next.not_done (h : system.Next s s') : system.step s ≠ some (.inr v) := by
  intro hd
  simpa [hd] using (show system.step s = some (.inl s') from h)

/-- The value of a run and its length are determined by its first state. -/
theorem EndsIn.unique (hv : system.EndsIn v j s) (hw : system.EndsIn w k s) : v = w ∧ j = k := by
  induction hv generalizing k with
  | done hd =>
    cases hw with
    | done hd' => simpa using hd.symm.trans hd'
    | next hn _ => exact absurd hd hn.not_done
  | next hn _ ih =>
    cases hw with
    | done hd => exact absurd hd hn.not_done
    | next hn' hw =>
      obtain rfl := hn.unique hn'
      simpa using ih hw

theorem Ends.unique : system.Ends s v → system.Ends s w → v = w :=
  fun ⟨_, hv⟩ ⟨_, hw⟩ => (hv.unique hw).1

/-- A run comes by every state that lies on its way. -/
theorem EndsIn.after_steps (h : system.EndsIn v k s) (hs : TransGen system.Next s s') :
    ∃ j < k, system.EndsIn v j s' := by
  induction hs using TransGen.head_induction_on generalizing k with
  | single hn =>
    cases h with
    | done hd => exact absurd hd hn.not_done
    | next hn' h => exact ⟨_, Nat.lt_succ_self _, hn.unique hn' ▸ h⟩
  | head hn _ ih =>
    cases h with
    | done hd => exact absurd hd hn.not_done
    | next hn' h =>
      obtain ⟨j, hj, hend⟩ := ih (hn.unique hn' ▸ h)
      exact ⟨j, by omega, hend⟩

theorem Ends.before_steps (hs : ReflTransGen system.Next s s') (h : system.Ends s' v) :
    system.Ends s v := by
  induction hs using ReflTransGen.head_induction_on with
  | refl => exact h
  | head hn _ ih =>
    obtain ⟨k, hk⟩ := ih
    exact ⟨k + 1, .next hn hk⟩

theorem ends_iff_of_steps (hs : TransGen system.Next s s') :
    system.Ends s v ↔ system.Ends s' v := by
  constructor
  · rintro ⟨k, hk⟩
    obtain ⟨j, -, hj⟩ := hk.after_steps hs
    exact ⟨j, hj⟩
  · exact Ends.before_steps hs.to_reflTransGen

/-- The runs from two related states end together, or come to related states again: both take
steps, or the first system alone does and `rank` falls. -/
def Simulates (A : System σ α) (B : System τ α) (R : σ → τ → Prop) (rank : σ → Nat) : Prop :=
  ∀ s t, R s t →
    (∃ v, A.Ends s v ∧ B.Ends t v) ∨
    (∃ s' t', TransGen A.Next s s' ∧ TransGen B.Next t t' ∧ R s' t') ∨
    ∃ s', TransGen A.Next s s' ∧ R s' t ∧ rank s' < rank s

section Simulation

variable {A : System σ α} {B : System τ α} {R : σ → τ → Prop} {rank : σ → Nat} {t : τ}

theorem Simulates.forward (h : Simulates A B R rank) (hR : R s t) (hs : A.EndsIn v k s) :
    B.Ends t v := by
  induction k using Nat.strongRecOn generalizing s t with
  | ind k ih =>
    rcases h s t hR with ⟨w, hw, ht⟩ | ⟨s', t', hs', ht', hR'⟩ | ⟨s', hs', hR', -⟩
    · obtain rfl := Ends.unique ⟨k, hs⟩ hw
      exact ht
    · obtain ⟨j, hj, hend⟩ := hs.after_steps hs'
      exact (ih j hj hR' hend).before_steps ht'.to_reflTransGen
    · obtain ⟨j, hj, hend⟩ := hs.after_steps hs'
      exact ih j hj hR' hend

/-- A run that ends on the right comes from one that ends on the left: each part on the left
shortens the rest on the right, or leaves it as it is and lowers the rank. -/
theorem Simulates.backward (h : Simulates A B R rank) (hR : R s t) (ht : B.EndsIn v k t) :
    A.Ends s v := by
  induction k using Nat.strongRecOn generalizing s t with
  | ind k ih =>
    induction hr : rank s using Nat.strongRecOn generalizing s with
    | ind r ihRank =>
      rcases h s t hR with ⟨w, hs, hw⟩ | ⟨s', t', hs', ht', hR'⟩ | ⟨s', hs', hR', hlt⟩
      · obtain rfl := Ends.unique ⟨k, ht⟩ hw
        exact hs
      · obtain ⟨j, hj, hend⟩ := ht.after_steps ht'
        exact (ih j hj hR' hend).before_steps hs'.to_reflTransGen
      · exact (ihRank _ (hr ▸ hlt) hR' rfl).before_steps hs'.to_reflTransGen

/-- Runs from related states end with the same values. -/
theorem Simulates.ends_iff (h : Simulates A B R rank) (hR : R s t) :
    A.Ends s v ↔ B.Ends t v :=
  ⟨fun ⟨_, hs⟩ => h.forward hR hs, fun ⟨_, ht⟩ => h.backward hR ht⟩

end Simulation

/-! ### States on the way -/

/-- The system goes on from a good state. -/
def GoodNext (system : System σ α) (good : σ → Prop) (s s' : σ) : Prop :=
  good s ∧ system.Next s s'

/-- Good states lead to one where the run ends with `v`. -/
def EndsGood (system : System σ α) (good : σ → Prop) (s : σ) (v : α) : Prop :=
  ∃ w, ReflTransGen (system.GoodNext good) s w ∧ good w ∧ system.step w = some (.inr v)

theorem goodNext_le (system : System σ α) (good : σ → Prop) :
    system.GoodNext good ≤ system.Next :=
  fun _ _ hn => hn.2

theorem EndsGood.ends {good : σ → Prop} (h : system.EndsGood good s v) : system.Ends s v := by
  obtain ⟨w, hw, -, hdone⟩ := h
  exact Ends.before_steps (ReflTransGen.mono (system.goodNext_le good) _ _ hw) ⟨0, .done hdone⟩

/-- If good states lead from each state of a class to another or to the end, then all states that a
run from the class comes to are good. -/
theorem good_of_reachable {good synced : σ → Prop}
    (h : ∀ s, synced s → (∃ v, system.EndsGood good s v) ∨
      ∃ s', TransGen (system.GoodNext good) s s' ∧ synced s')
    (hs : synced s) (hr : ReflTransGen system.Next s s') : good s' := by
  -- A state on the track is a good one before a state of the class or before the end.
  let onTrack (u : σ) : Prop :=
    (∃ v, system.EndsGood good u v) ∨
      ∃ s', TransGen (system.GoodNext good) u s' ∧ synced s'
  have good_of_onTrack : ∀ u, onTrack u → good u := by
    rintro u (⟨v, w, hw, hg, -⟩ | ⟨w, hw, -⟩)
    · obtain rfl | ⟨_, hn, -⟩ := ReflTransGen.cases_head hw
      · exact hg
      · exact hn.1
    · obtain ⟨_, hn, -⟩ := TransGen.head'_iff.mp hw
      exact hn.1
  have next_onTrack : ∀ u u', onTrack u → system.Next u u' → onTrack u' := by
    rintro u u' (⟨v, w, hw, hg, hd⟩ | ⟨w, hw, hc⟩) hn
    · obtain rfl | ⟨u₁, hn₁, hw⟩ := ReflTransGen.cases_head hw
      · exact absurd hd hn.not_done
      · obtain rfl := hn.unique hn₁.2
        exact .inl ⟨v, w, hw, hg, hd⟩
    · obtain ⟨u₁, hn₁, hw⟩ := TransGen.head'_iff.mp hw
      obtain rfl := hn.unique hn₁.2
      obtain rfl | hw := reflTransGen_iff_eq_or_transGen.mp hw
      · exact h _ hc
      · exact .inr ⟨w, hw, hc⟩
  have onTrack_of_reachable : onTrack s' := by
    induction hr with
    | refl => exact h s hs
    | tail _ hn ih => exact next_onTrack _ _ ih hn
  exact good_of_onTrack _ onTrack_of_reachable

end System

end PluralForms
