import Mathlib.Data.List.Basic

namespace RedisLite.Lib.Run

variable {σ ε τ : Type} (step : σ → ε → σ)

def run (s : σ) (es : List ε) : σ := es.foldl step s

@[simp] theorem run_nil (s : σ) : run step s [] = s := rfl

@[simp] theorem run_cons (s : σ) (e : ε) (es : List ε) :
    run step s (e :: es) = run step (step s e) es := rfl

theorem run_append (s : σ) (es fs : List ε) :
    run step s (es ++ fs) = run step (run step s es) fs := List.foldl_append

theorem run_flatMap {δ : Type} (parts : δ → List ε) (s : σ) (ds : List δ) :
    run (fun s d ↦ run step s (parts d)) s ds = run step s (ds.flatMap parts) := by
  induction ds generalizing s with
  | nil => rfl
  | cons d ds ih => rw [run_cons, ih, List.flatMap_cons, run_append]

/-- Every step of the run satisfies `P` in the state it is taken from. -/
def Along (P : σ → ε → Prop) : σ → List ε → Prop
  | _, [] => True
  | s, e :: es => P s e ∧ Along P (step s e) es

instance decidableAlong (P : σ → ε → Prop) [∀ s e, Decidable (P s e)] :
    ∀ s es, Decidable (Along step P s es)
  | _, [] => .isTrue trivial
  | s, e :: es =>
    haveI := decidableAlong P (step s e) es
    inferInstanceAs (Decidable (P s e ∧ Along step P (step s e) es))

theorem along_append {P : σ → ε → Prop} {s : σ} {es fs : List ε} :
    Along step P s (es ++ fs) ↔ Along step P s es ∧ Along step P (run step s es) fs := by
  induction es generalizing s with
  | nil => simp [Along]
  | cons e es ih => simp only [List.cons_append, Along, ih, run_cons, and_assoc]

theorem along_of_forall {P : σ → ε → Prop} (h : ∀ s e, P s e) (s : σ) (es : List ε) :
    Along step P s es := by
  induction es generalizing s with
  | nil => trivial
  | cons e es ih => exact ⟨h s e, ih (step s e)⟩

theorem Along.take {P : σ → ε → Prop} {s : σ} {es : List ε} (h : Along step P s es) (k : ℕ) :
    Along step P s (es.take k) := by
  rw [← List.take_append_drop k es, along_append] at h
  exact h.1

theorem Along.of_initial {P : σ → ε → Prop} {s : σ} {es fs : List ε} (h : Along step P s es)
    (hfs : ∃ more, fs ++ more = es) : Along step P s fs := by
  obtain ⟨more, rfl⟩ := hfs
  exact ((along_append step).mp h).1

theorem Along.mono {P Q : σ → ε → Prop} (h : ∀ s e, P s e → Q s e) {s : σ} {es : List ε}
    (hs : Along step P s es) : Along step Q s es := by
  induction es generalizing s with
  | nil => trivial
  | cons e es ih => exact ⟨h s e hs.1, ih hs.2⟩

theorem Along.and {P Q : σ → ε → Prop} {s : σ} {es : List ε} (hp : Along step P s es)
    (hq : Along step Q s es) : Along step (fun s e ↦ P s e ∧ Q s e) s es := by
  induction es generalizing s with
  | nil => trivial
  | cons e es ih => exact ⟨⟨hp.1, hq.1⟩, ih hp.2 hq.2⟩

/-- The invariant rule: what holds at the start and survives every admissible
step holds at the end of every admissible run. -/
theorem run_invariant {P : σ → ε → Prop} {I : σ → Prop}
    (hstep : ∀ s e, I s → P s e → I (step s e)) {s : σ} {es : List ε}
    (hs : I s) (hp : Along step P s es) : I (run step s es) := by
  induction es generalizing s with
  | nil => exact hs
  | cons e es ih => exact ih (hstep s e hs hp.1) hp.2

theorem run_stable {I : σ → Prop} (hstep : ∀ s e, I s → I (step s e)) {s : σ} (hs : I s)
    (es : List ε) : I (run step s es) := by
  induction es generalizing s with
  | nil => exact hs
  | cons e es ih => exact ih (hstep s e hs)

/-- The invariant rule for a run whose steps are known beforehand. -/
theorem run_stable_of_mem {I : σ → Prop} {es : List ε}
    (hstep : ∀ s, ∀ e ∈ es, I s → I (step s e)) {s : σ} (hs : I s) : I (run step s es) := by
  induction es generalizing s with
  | nil => exact hs
  | cons e es ih =>
    exact ih (fun s e' he' ↦ hstep s e' (List.mem_cons_of_mem e he'))
      (hstep s e (List.mem_cons_self ..) hs)

def trace (out : σ → ε → List τ) : σ → List ε → List τ
  | _, [] => []
  | s, e :: es => out s e ++ trace out (step s e) es

@[simp] theorem trace_nil (out : σ → ε → List τ) (s : σ) : trace step out s [] = [] := rfl

@[simp] theorem trace_cons (out : σ → ε → List τ) (s : σ) (e : ε) (es : List ε) :
    trace step out s (e :: es) = out s e ++ trace step out (step s e) es := rfl

theorem trace_append (out : σ → ε → List τ) (s : σ) (es fs : List ε) :
    trace step out s (es ++ fs) = trace step out s es ++ trace step out (run step s es) fs := by
  induction es generalizing s with
  | nil => rfl
  | cons e es ih => simp only [List.cons_append, trace_cons, ih, run_cons, List.append_assoc]

theorem mem_trace {out : σ → ε → List τ} {x : τ} {s : σ} {es : List ε}
    (h : x ∈ trace step out s es) :
    ∃ k < es.length, ∃ e, x ∈ out (run step s (es.take k)) e := by
  induction es generalizing s with
  | nil => cases h
  | cons e es ih =>
    rcases List.mem_append.mp h with h | h
    · exact ⟨0, Nat.zero_lt_succ _, e, h⟩
    · obtain ⟨k, hk, e', h⟩ := ih h
      exact ⟨k + 1, Nat.succ_lt_succ hk, e', h⟩

/-- The invariant rule with a history: the invariant may mention everything the
run has emitted so far. -/
theorem trace_invariant {out : σ → ε → List τ} {P : σ → ε → Prop} {I : List τ → σ → Prop}
    (hstep : ∀ h s e, I h s → P s e → I (h ++ out s e) (step s e)) {h : List τ} {s : σ}
    {es : List ε} (hs : I h s) (hp : Along step P s es) :
    I (h ++ trace step out s es) (run step s es) := by
  induction es generalizing h s with
  | nil => simpa using hs
  | cons e es ih =>
    have := ih (hstep h s e hs hp.1) hp.2
    simpa only [trace_cons, run_cons, List.append_assoc] using this

theorem trace_invariant₂ {υ : Type} {out : σ → ε → List τ} {out' : σ → ε → List υ}
    {P : σ → ε → Prop} {I : List τ → List υ → σ → Prop}
    (hstep : ∀ h h' s e, I h h' s → P s e → I (h ++ out s e) (h' ++ out' s e) (step s e))
    {h : List τ} {h' : List υ} {s : σ} {es : List ε} (hs : I h h' s) (hp : Along step P s es) :
    I (h ++ trace step out s es) (h' ++ trace step out' s es) (run step s es) := by
  induction es generalizing h h' s with
  | nil => simpa using hs
  | cons e es ih =>
    have := ih (hstep h h' s e hs hp.1) hp.2
    simpa only [trace_cons, run_cons, List.append_assoc] using this

/-- The refinement rule: when every step does to the view of the state what its calls do, so does a
run. -/
theorem run_trace {α : Type} {view : σ → α} {apply : α → τ → α} {calls : σ → ε → List τ}
    {P : σ → ε → Prop}
    (hstep : ∀ s e, P s e → view (step s e) = run apply (view s) (calls s e)) {s : σ}
    {es : List ε} (hp : Along step P s es) :
    view (run step s es) = run apply (view s) (trace step calls s es) := by
  induction es generalizing s with
  | nil => rfl
  | cons e es ih => rw [run_cons, trace_cons, run_append, ih hp.2, hstep s e hp.1]

end RedisLite.Lib.Run
