import Trtp.Lib.Transition

/-!
# Runs that get somewhere

A goal is reached when from every other state some run leads to a smaller measure.
-/

namespace Trtp.Lib

variable {σ α : Type} {step : σ → α → Option σ} {ok : σ → α → Prop} {s : σ} {P Q : σ → Prop}

theorem Reach.descent (measure : σ → Nat)
    (hless : ∀ s, P s → ¬ Q s → ∃ s', Reach step ok s s' ∧ P s' ∧ measure s' < measure s) (hs : P s) :
    ∃ s', Reach step ok s s' ∧ P s' ∧ Q s' := by
  induction hm : measure s using Nat.strong_induction_on generalizing s with
  | h m ih =>
    by_cases hgoal : Q s
    · exact ⟨s, .start, hs, hgoal⟩
    obtain ⟨s₁, hreach, hs₁, hlt⟩ := hless s hs hgoal
    obtain ⟨s', hreach', hs', hgoal'⟩ := ih (measure s₁) (hm ▸ hlt) hs₁ rfl
    exact ⟨s', hreach.trans hreach', hs', hgoal'⟩

end Trtp.Lib
