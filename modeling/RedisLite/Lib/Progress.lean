import RedisLite.Lib.Run

namespace RedisLite.Lib.Run

variable {σ ε : Type} (step : σ → ε → σ)

/-- The rule for progress: a measure that is zero at the goal only, and that the counted events
lower and no event raises before it, is used up by as many such events as it allows. The run stops
where the goal is reached first. -/
theorem reach_of_measure {P : σ → ε → Prop} {I : σ → Prop} (goal : σ → Prop) (μ : σ → ℕ)
    (counts : ε → Bool)
    (hkeep : ∀ s e, I s → P s e → I (step s e)) (hzero : ∀ s, μ s = 0 → goal s)
    (hlower : ∀ s e, I s → P s e → ¬goal s →
      μ (step s e) + (if counts e then 1 else 0) ≤ μ s)
    {s : σ} {es : List ε} (hs : I s) (hrun : Along step P s es) (hmany : μ s ≤ es.countP counts) :
    ∃ es₁ es₂, es₁ ++ es₂ = es ∧ goal (run step s es₁) ∧
      Along step (fun s _ ↦ ¬goal s) s es₁ := by
  induction es generalizing s with
  | nil => exact ⟨[], [], rfl, hzero s (Nat.le_zero.mp hmany), trivial⟩
  | cons e es ih =>
    by_cases hgoal : goal s
    · exact ⟨[], e :: es, rfl, hgoal, trivial⟩
    · have hless := hlower s e hs hrun.1 hgoal
      rw [List.countP_cons] at hmany
      obtain ⟨es₁, es₂, rfl, hreached, hbefore⟩ :=
        ih (hkeep s e hs hrun.1) hrun.2 (by omega)
      exact ⟨e :: es₁, es₂, rfl, hreached, hgoal, hbefore⟩

/-- A measure that no step raises by more than one takes every value on its way. -/
theorem exists_run_of_le_succ (μ : σ → ℕ) (hstep : ∀ s e, μ (step s e) ≤ μ s + 1) {s : σ}
    {es : List ε} {n : ℕ} (hlow : μ s ≤ n) (hhigh : n ≤ μ (run step s es)) :
    ∃ es₁ es₂, es = es₁ ++ es₂ ∧ μ (run step s es₁) = n := by
  induction es generalizing s with
  | nil => exact ⟨[], [], rfl, Nat.le_antisymm hlow hhigh⟩
  | cons e es ih =>
    by_cases heq : μ s = n
    · exact ⟨[], e :: es, rfl, heq⟩
    · have hnext := hstep s e
      obtain ⟨es₁, es₂, rfl, hn⟩ := ih (s := step s e) (by omega) hhigh
      exact ⟨e :: es₁, es₂, rfl, hn⟩

end RedisLite.Lib.Run
