import RedisLite.Lib.Run

namespace RedisLite.Lib.Run

variable {σ ε : Type} {step : σ → ε → σ} {R : σ → σ → Prop}

theorem run_congr (hcongr : ∀ s s' e, R s s' → R (step s e) (step s' e)) {s s' : σ} (h : R s s')
    (es : List ε) : R (run step s es) (run step s' es) := by
  induction es generalizing s s' with
  | nil => exact h
  | cons e es ih => exact ih (hcongr s s' e h)

/-- The rule for runs whose events may come in any order: `I` says what is needed of a state and
the events that are still to come, and two neighbours may then be exchanged up to `R`. -/
theorem run_perm {I : σ → List ε → Prop} (hrefl : ∀ s, R s s)
    (htrans : ∀ s t u, R s t → R t u → R s u)
    (hcongr : ∀ s s' e, R s s' → R (step s e) (step s' e))
    (hperm : ∀ s es fs, es.Perm fs → I s es → I s fs)
    (hstep : ∀ s e es, I s (e :: es) → I (step s e) es)
    (hswap : ∀ s e f es, I s (e :: f :: es) → R (step (step s e) f) (step (step s f) e))
    {es fs : List ε} (h : es.Perm fs) {s : σ} (hs : I s es) :
    R (run step s es) (run step s fs) := by
  induction h generalizing s with
  | nil => exact hrefl s
  | cons e _ ih => exact ih (hstep s e _ hs)
  | swap e f es => exact run_congr hcongr (hswap s f e es hs) es
  | trans h₁ _ ih₁ ih₂ => exact htrans _ _ _ (ih₁ hs) (ih₂ (hperm s _ _ h₁ hs))

end RedisLite.Lib.Run
