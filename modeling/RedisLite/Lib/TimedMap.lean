import Mathlib.Logic.Function.Basic
import Mathlib.Order.Lattice

namespace RedisLite.Lib.TimedMap

open Function

variable {K V T : Type} [LinearOrder T]

structure Timed (V T : Type) where
  value : V
  deadline : Option T

def Timed.alive (t : T) (e : Timed V T) : Bool := e.deadline.all (fun d ↦ decide (t < d))

theorem Timed.alive_anti {t t' : T} (h : t ≤ t') {e : Timed V T} (ha : e.alive t' = true) :
    e.alive t = true := by
  obtain ⟨value, deadline⟩ := e
  cases deadline with
  | none => rfl
  | some d =>
    simp only [alive, Option.all_some, decide_eq_true_eq] at ha ⊢
    exact lt_of_le_of_lt h ha

def visible (m : K → Option (Timed V T)) (t : T) (k : K) : Option V :=
  ((m k).filter (·.alive t)).map (·.value)

/-- The second map is the first one without some of the entries that are past at `t`. -/
def Pruned (t : T) (m m' : K → Option (Timed V T)) : Prop :=
  ∀ k, m' k = m k ∨ m' k = none ∧ ∀ e, m k = some e → e.alive t = false

variable {t t' : T} {m m' m'' : K → Option (Timed V T)}

namespace Pruned

theorem refl (t : T) (m : K → Option (Timed V T)) : Pruned t m m := fun _ ↦ .inl rfl

theorem mono (h : Pruned t m m') (ht : t ≤ t') : Pruned t' m m' := by
  intro k
  refine (h k).imp_right (fun ⟨hnone, hpast⟩ ↦ ⟨hnone, fun e he ↦ ?_⟩)
  by_contra hne
  rw [Bool.not_eq_false] at hne
  exact absurd (Timed.alive_anti ht hne) (Bool.eq_false_iff.mp (hpast e he))

theorem trans (h : Pruned t m m') (h' : Pruned t m' m'') : Pruned t m m'' := by
  intro k
  rcases h' k with heq | ⟨hnone, hpast⟩
  · rw [heq]
    exact h k
  · rcases h k with heq | ⟨-, hpast'⟩
    · exact .inr ⟨hnone, heq ▸ hpast⟩
    · exact .inr ⟨hnone, hpast'⟩

theorem update [DecidableEq K] (h : Pruned t m m') (k : K) (e : Option (Timed V T)) :
    Pruned t (update m k e) (update m' k e) := by
  intro k'
  by_cases heq : k' = k
  · subst heq
    rw [update_self, update_self]
    exact .inl rfl
  · rw [update_of_ne heq, update_of_ne heq]
    exact h k'

/-- Pruning is not seen, neither at its own time nor later. -/
theorem visible_eq (h : Pruned t m m') (ht : t ≤ t') (k : K) : visible m' t' k = visible m t' k := by
  unfold visible
  rcases h.mono ht k with heq | ⟨hnone, hpast⟩
  · rw [heq]
  · rw [hnone, Option.filter_none]
    cases hm : m k with
    | none => rfl
    | some e => rw [Option.filter_some_neg (hpast e hm)]

end Pruned

end RedisLite.Lib.TimedMap
