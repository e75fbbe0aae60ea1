import Mathlib.Algebra.BigOperators.Group.List.Basic
import Mathlib.Algebra.Order.Ring.Int
import Mathlib.Data.List.Induction
import Mathlib.Data.List.Infix

namespace RedisLite.Lib.Tally

open scoped List

variable {α : Type} (w : α → ℕ)

def total (as : List α) : ℕ := (as.map w).sum

@[simp] theorem total_nil : total w [] = 0 := rfl

@[simp] theorem total_append (as bs : List α) : total w (as ++ bs) = total w as + total w bs := by
  simp [total]

@[simp] theorem total_singleton (a : α) : total w [a] = w a := by simp [total]

theorem length_le_total {as : List α} (h : ∀ a ∈ as, 0 < w a) : as.length ≤ total w as := by
  induction as with
  | nil => exact Nat.zero_le _
  | cons a as ih =>
    have ha := h a (List.mem_cons_self ..)
    have hrest := ih (fun b hb ↦ h b (List.mem_cons_of_mem _ hb))
    simp only [total, List.map_cons, List.sum_cons, List.length_cons] at hrest ⊢
    omega

/-- Where every entry weighs something, the heavier of two beginnings is the longer one. -/
theorem prefix_of_total_le {as : List α} (h : ∀ a ∈ as, 0 < w a) {k k' : ℕ}
    (hk' : k' ≤ as.length) (hle : total w (as.take k') ≤ total w (as.take k)) :
    as.take k' <+: as.take k := by
  rcases Nat.le_total k' k with hkk | hkk
  · exact List.take_prefix_take_left hkk
  · have hsplit : as.take k' = as.take k ++ (as.drop k).take (k' - k) := by
      rw [← List.take_add, Nat.add_sub_cancel' hkk]
    have hmiddle : ∀ a ∈ (as.drop k).take (k' - k), 0 < w a :=
      fun a ha ↦ h a (List.mem_of_mem_drop (List.mem_of_mem_take ha))
    have hlen := length_le_total w hmiddle
    rw [hsplit, total_append] at hle
    rw [List.length_take, List.length_drop] at hlen
    rw [show k' = k by omega]

/-- A log in which every entry carries the weight of everything up to and including it. -/
inductive Stamped : List (α × ℤ) → Prop
  | nil : Stamped []
  | snoc {log : List (α × ℤ)} (h : Stamped log) (a : α) :
    Stamped (log ++ [(a, ((total w (log.map (·.1)) + w a : ℕ) : ℤ))])

variable {w} {log before : List (α × ℤ)} {bound : ℤ}

theorem Stamped.inv {entry : α × ℤ} (h : Stamped w (log ++ [entry])) :
    Stamped w log ∧ entry.2 = (total w (log.map (·.1)) + w entry.1 : ℕ) := by
  generalize he : log ++ [entry] = log' at h
  cases h with
  | nil => exact absurd he (by simp)
  | snoc h a =>
    obtain ⟨rfl, hentry⟩ := List.append_inj' he rfl
    cases hentry
    exact ⟨h, rfl⟩

theorem Stamped.le_total (h : Stamped w log) {entry : α × ℤ} (hmem : entry ∈ log) :
    entry.2 ≤ total w (log.map (·.1)) := by
  induction h with
  | nil => cases hmem
  | @snoc log h a ih =>
    simp only [List.map_append, List.map_cons, List.map_nil, total_append, total_singleton]
    rcases List.mem_append.mp hmem with hmem | hmem
    · have := ih hmem
      omega
    · rw [List.mem_singleton.mp hmem]

theorem Stamped.take (h : Stamped w log) (k : ℕ) : Stamped w (log.take k) := by
  induction h with
  | nil =>
    rw [List.take_nil]
    exact .nil
  | @snoc log h a ih =>
    by_cases hk : k ≤ log.length
    · rw [List.take_append_of_le_length hk]
      exact ih
    · rw [List.take_of_length_le (by simp; omega)]
      exact .snoc h a

/-- The entries up to a bound come first. -/
theorem Stamped.filter_initial (h : Stamped w log) (bound : ℤ) :
    log.filter (fun entry ↦ decide (0 < w entry.1) && decide (entry.2 ≤ bound)) <+:
      log.filter (fun entry ↦ decide (0 < w entry.1)) := by
  induction h with
  | nil => exact List.nil_prefix
  | @snoc log h a ih =>
    rw [List.filter_append, List.filter_append]
    by_cases hlast : ((total w (log.map (·.1)) + w a : ℕ) : ℤ) ≤ bound
    · have hall : log.filter (fun entry ↦ decide (0 < w entry.1) && decide (entry.2 ≤ bound)) =
          log.filter (fun entry ↦ decide (0 < w entry.1)) := by
        refine List.filter_congr (fun entry hmem ↦ ?_)
        have hle := h.le_total hmem
        rw [decide_eq_true (p := entry.2 ≤ bound) (by omega), Bool.and_true]
      rw [hall, List.filter_singleton, List.filter_singleton, decide_eq_true hlast, Bool.and_true]
    · rw [List.filter_singleton, decide_eq_false hlast, Bool.and_false]
      simp only [Bool.cond_false, List.append_nil]
      exact ih.trans (List.prefix_append ..)

/-- Whatever has a stamp below the weight of a part of the log lies in that part. -/
theorem Stamped.filter_take (h : Stamped w log) {k : ℕ}
    (hb : bound ≤ total w ((log.take k).map (·.1))) :
    log.filter (fun entry ↦ decide (0 < w entry.1) && decide (entry.2 ≤ bound)) =
      (log.take k).filter (fun entry ↦ decide (0 < w entry.1) && decide (entry.2 ≤ bound)) := by
  induction h with
  | nil => rw [List.take_nil]
  | @snoc log h a ih =>
    by_cases hk : k ≤ log.length
    · rw [List.take_append_of_le_length hk] at hb ⊢
      have hle : total w ((log.take k).map (·.1)) ≤ total w (log.map (·.1)) := by
        nth_rewrite 2 [← List.take_append_drop k log]
        rw [List.map_append, total_append]
        exact Nat.le_add_right ..
      rw [List.filter_append, ih hb, List.filter_singleton]
      by_cases ha : 0 < w a
      · rw [decide_eq_false (p := ((total w (log.map (·.1)) + w a : ℕ) : ℤ) ≤ bound) (by omega),
          Bool.and_false]
        simp
      · rw [decide_eq_false ha]
        simp
    · rw [List.take_of_length_le (by simp; omega)]

theorem Stamped.last {entries : List (α × ℤ)} (h : Stamped w (before ++ entries)) :
    (((entries.filter (fun entry ↦ decide (0 < w entry.1))).getLast?.map (·.2)).getD
      (total w (before.map (·.1)) : ℤ)) = (total w ((before ++ entries).map (·.1)) : ℤ) := by
  induction entries using List.reverseRecOn with
  | nil => simp
  | append_singleton entries entry ih =>
    rw [← List.append_assoc] at h
    obtain ⟨hinit, hstamp⟩ := h.inv
    rw [List.filter_append, List.filter_singleton]
    by_cases hpos : 0 < w entry.1
    · rw [decide_eq_true hpos, Bool.cond_true, List.getLast?_append_of_ne_nil _ (by simp)]
      simp [hstamp, ← List.append_assoc]
    · rw [decide_eq_false hpos, Bool.cond_false, List.append_nil, ih hinit]
      have hzero : w entry.1 = 0 := by omega
      simp [hzero]

end RedisLite.Lib.Tally
