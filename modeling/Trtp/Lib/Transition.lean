import Mathlib.Tactic

/-!
# Runs of a system

A system takes one action at a time: `step s a` is the next state, if the action is possible. `ok` limits the
runs, to a proviso on the environment or to the steps that are known to be right.
-/

namespace Trtp.Lib

variable {σ α τ β : Type}

/-- The states that a run from `s₀` reaches when each of its steps is `ok`. -/
inductive Reach (step : σ → α → Option σ) (ok : σ → α → Prop) (s₀ : σ) : σ → Prop
  | start : Reach step ok s₀ s₀
  | next {s s' : σ} {a : α} : Reach step ok s₀ s → ok s a → step s a = some s' → Reach step ok s₀ s'

variable {step : σ → α → Option σ} {ok ok' : σ → α → Prop} {s₀ s : σ}

theorem Reach.invariant {P : σ → Prop} (h : Reach step ok s₀ s) (h0 : P s₀)
    (hstep : ∀ s a s', P s → ok s a → step s a = some s' → P s') : P s := by
  induction h with
  | start => exact h0
  | next _ hok hs ih => exact hstep _ _ _ ih hok hs

theorem Reach.step_one {s' : σ} {a : α} (ha : ok s a) (hs : step s a = some s') : Reach step ok s s' :=
  .next .start ha hs

theorem Reach.mono (hok : ∀ s a, ok s a → ok' s a) (h : Reach step ok s₀ s) : Reach step ok' s₀ s := by
  induction h with
  | start => exact .start
  | next _ ha hs ih => exact .next ih (hok _ _ ha) hs

theorem Reach.trans {s' : σ} (h : Reach step ok s₀ s) (h' : Reach step ok s s') : Reach step ok s₀ s' := by
  induction h' with
  | start => exact h
  | next _ ha hs ih => exact .next ih ha hs

/-- Every run has a matching run of another system, when each of its steps is matched by a run of steps. -/
theorem Reach.simulation {step' : τ → β → Option τ} {okB : τ → β → Prop} {t₀ : τ} {R : σ → τ → Prop}
    (h : Reach step ok s₀ s) (h0 : R s₀ t₀)
    (hstep : ∀ s a s' t, R s t → ok s a → step s a = some s' → ∃ t', R s' t' ∧ Reach step' okB t t') :
    ∃ t, R s t ∧ Reach step' okB t₀ t := by
  induction h with
  | start => exact ⟨_, h0, .start⟩
  | next _ ha hs ih =>
    obtain ⟨t, hR, hreach⟩ := ih
    obtain ⟨t', hR', hreach'⟩ := hstep _ _ _ _ hR ha hs
    exact ⟨t', hR', hreach.trans hreach'⟩

/-! ## Runs that can be executed -/

section Run

variable [∀ s a, Decidable (ok s a)]

/-- The state after the actions, if each of them is possible and `ok`. -/
def run (step : σ → α → Option σ) (ok : σ → α → Prop) [∀ s a, Decidable (ok s a)] : List α → σ → Option σ
  | [], s => some s
  | a :: as, s => if ok s a then (step s a).bind (run step ok as) else none

theorem run_cons {a : α} {as : List α} {s' : σ} (h : run step ok (a :: as) s = some s') :
    ok s a ∧ ∃ s₁, step s a = some s₁ ∧ run step ok as s₁ = some s' := by
  rw [run] at h
  split at h
  · rename_i ha
    exact ⟨ha, Option.bind_eq_some_iff.mp h⟩
  · contradiction

/-- A run of these actions, where what is tested implies `ok'`. -/
theorem run_reach_of_mem {as : List α} {s₀ s : σ} (hok : ∀ a ∈ as, ∀ s, ok s a → ok' s a)
    (h : run step ok as s₀ = some s) : Reach step ok' s₀ s := by
  induction as generalizing s₀ with
  | nil =>
    rw [run, Option.some.injEq] at h
    rw [h]
    exact .start
  | cons a as ih =>
    obtain ⟨ha, s₁, hs₁, hrest⟩ := run_cons h
    obtain ⟨hhead, htail⟩ := List.forall_mem_cons.mp hok
    exact (Reach.next .start (hhead s₀ ha) hs₁).trans (ih htail hrest)

theorem run_reach {as : List α} {s₀ s : σ} (h : run step ok as s₀ = some s) : Reach step ok s₀ s :=
  run_reach_of_mem (fun _ _ _ ha => ha) h

/-- A run whose last state passes a test. -/
theorem reach_of_run {as : List α} {s₀ : σ} {p : σ → Bool} (h : (run step ok as s₀).any p = true) :
    ∃ s, Reach step ok s₀ s ∧ p s = true := by
  rw [Option.any_eq_true] at h
  obtain ⟨s, hs, hp⟩ := h
  exact ⟨s, run_reach hs, hp⟩

/-- A run is matched action by action. -/
theorem run_simulation {step' : τ → β → Option τ} {ok' : τ → β → Prop} [∀ t b, Decidable (ok' t b)] {R : σ → τ → Prop}
    {f : α → β} {as : List α} (hstep : ∀ a ∈ as, ∀ s s' t, R s t → ok s a → step s a = some s' →
      ok' t (f a) ∧ ∃ t', step' t (f a) = some t' ∧ R s' t')
    {s s' : σ} {t : τ} (h : run step ok as s = some s') (hR : R s t) :
    ∃ t', run step' ok' (as.map f) t = some t' ∧ R s' t' := by
  induction as generalizing s t with
  | nil =>
    rw [run, Option.some.injEq] at h
    exact ⟨t, rfl, h ▸ hR⟩
  | cons a as ih =>
    obtain ⟨ha, s₁, hs₁, hrest⟩ := run_cons h
    obtain ⟨hb, t₁, ht₁, hR₁⟩ := hstep a List.mem_cons_self s s₁ t hR ha hs₁
    obtain ⟨t', ht', hR'⟩ := ih (fun b hb => hstep b (List.mem_cons_of_mem a hb)) hrest hR₁
    exact ⟨t', by rw [List.map_cons, run, if_pos hb, ht₁, Option.bind_some, ht'], hR'⟩

/-! ### What grows with each step -/

/-- `Q` holds of each action, in the state where it is taken. -/
def Steps (step : σ → α → Option σ) (Q : σ → α → Prop) : List α → σ → Prop
  | [], _ => True
  | a :: as, s => Q s a ∧ ∀ s', step s a = some s' → Steps step Q as s'

variable {Q Q' : σ → α → Prop} {as : List α} {s' : σ}

theorem steps_cons {a : α} {s₁ : σ} (hs : step s a = some s₁) :
    Steps step Q (a :: as) s ↔ Q s a ∧ Steps step Q as s₁ := by
  rw [Steps, hs]
  simp only [Option.some.injEq, forall_eq']

theorem steps_congr (hQ : ∀ s a s', step s a = some s' → (Q s a ↔ Q' s a)) (h : run step ok as s = some s') :
    Steps step Q as s ↔ Steps step Q' as s := by
  induction as generalizing s with
  | nil => exact Iff.rfl
  | cons a as ih =>
    obtain ⟨_, s₁, hs, hrest⟩ := run_cons h
    rw [steps_cons hs, steps_cons hs, hQ s a s₁ hs, ih hrest]

section Total

variable (total : σ → Nat) {cost : α → Nat} (hle : ∀ s a s', step s a = some s' → total s + cost a ≤ total s')
include hle

theorem run_total_le (h : run step ok as s = some s') : total s + (as.map cost).sum ≤ total s' := by
  induction as generalizing s with
  | nil =>
    rw [run, Option.some.injEq] at h
    rw [h]
    exact le_rfl
  | cons a as ih =>
    obtain ⟨_, s₁, hs, hrest⟩ := run_cons h
    have hstep := hle s a s₁ hs
    have htail := ih hrest
    rw [List.map_cons, List.sum_cons]
    omega

/-- The total is exactly what the actions cost when no step costs more than its action. -/
theorem run_total_iff (hQ : ∀ s a s', step s a = some s' → (total s' = total s + cost a ↔ Q s a))
    (h : run step ok as s = some s') : total s' = total s + (as.map cost).sum ↔ Steps step Q as s := by
  induction as generalizing s with
  | nil =>
    rw [run, Option.some.injEq] at h
    rw [h]
    exact iff_of_true rfl trivial
  | cons a as ih =>
    obtain ⟨_, s₁, hs, hrest⟩ := run_cons h
    have hstep := hle s a s₁ hs
    have htail := run_total_le total hle hrest
    rw [steps_cons hs, ← hQ s a s₁ hs, ← ih hrest, List.map_cons, List.sum_cons]
    constructor
    · intro heq
      exact ⟨by omega, by omega⟩
    · rintro ⟨heq, hrest'⟩
      omega

end Total

/-- What the steps of a run add up to. -/
def tally (step : σ → α → Option σ) (count : σ → α → Nat) : List α → σ → Nat
  | [], _ => 0
  | a :: as, s => count s a + (step s a).elim 0 (tally step count as)

/-- Two quantities that grow together, but for what is counted. -/
theorem run_tally {f g : σ → Nat} {count : σ → α → Nat}
    (hstep : ∀ s a s', step s a = some s' → f s' + g s = f s + g s' + count s a)
    (h : run step ok as s = some s') : f s' + g s = f s + g s' + tally step count as s := by
  induction as generalizing s with
  | nil =>
    rw [run, Option.some.injEq] at h
    rw [h, tally, Nat.add_zero]
  | cons a as ih =>
    obtain ⟨_, s₁, hs, hrest⟩ := run_cons h
    have hone := hstep s a s₁ hs
    have htail := ih hrest
    rw [tally, hs, Option.elim_some]
    omega

end Run

/-! ## Runs with results -/

section Results

variable {ρ : Type}

/-- Operations that a specification allows, with what each of them returns. -/
inductive Trace (spec : σ → α → ρ → σ → Prop) : σ → List α → List ρ → σ → Prop
  | nil (s : σ) : Trace spec s [] [] s
  | cons {s s₁ s' : σ} {a : α} {r : ρ} {as : List α} {rs : List ρ} :
    spec s a r s₁ → Trace spec s₁ as rs s' → Trace spec s (a :: as) (r :: rs) s'

/-- The operations one after the other, if none of them fails. -/
def results (op : τ → α → Option (ρ × τ)) : List α → τ → Option (List ρ × τ)
  | [], t => some ([], t)
  | a :: as, t => do
    let (r, t₁) ← op t a
    let (rs, t') ← results op as t₁
    some (r :: rs, t')

/-- Where each operation does what the specification allows, so does each sequence of them. -/
theorem Trace.forward {spec : σ → α → ρ → σ → Prop} (op : τ → α → Option (ρ × τ)) {R : σ → τ → Prop}
    (hstep : ∀ s a r s' t, R s t → spec s a r s' → ∃ t', op t a = some (r, t') ∧ R s' t')
    {s s' : σ} {as : List α} {rs : List ρ} (h : Trace spec s as rs s') {t : τ} (hR : R s t) :
    ∃ t', results op as t = some (rs, t') ∧ R s' t' := by
  induction h generalizing t with
  | nil s => exact ⟨t, rfl, hR⟩
  | cons hspec _ ih =>
    obtain ⟨t₁, hop, hR₁⟩ := hstep _ _ _ _ _ hR hspec
    obtain ⟨t', hrest, hR'⟩ := ih hR₁
    exact ⟨t', by simp [results, hop, hrest], hR'⟩

end Results

end Trtp.Lib
