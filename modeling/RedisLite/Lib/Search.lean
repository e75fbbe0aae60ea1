import Mathlib.Data.List.Basic

namespace RedisLite.Lib.Search

open scoped List

variable {α : Type} [DecidableEq α]

def find? (pat : List α) : List α → Option ℕ
  | [] => if pat.isEmpty then some 0 else none
  | a :: s => if pat.isPrefixOf (a :: s) then some 0 else (find? pat s).map (· + 1)

theorem find?_le {pat s : List α} {i : ℕ} (h : find? pat s = some i) :
    i + pat.length ≤ s.length := by
  induction s generalizing i with
  | nil =>
    unfold find? at h
    split at h
    · next hp => cases h; simp [List.isEmpty_iff.mp hp]
    · cases h
  | cons a s ih =>
    unfold find? at h
    split at h
    · next hp =>
      cases h
      simpa using (List.isPrefixOf_iff_prefix.mp hp).length_le
    · obtain ⟨j, hj, rfl⟩ := Option.map_eq_some_iff.mp h
      have := ih hj
      simp only [List.length_cons]
      omega

/-- What has been found stays the first occurrence when more arrives. -/
theorem find?_append {pat s : List α} {i : ℕ} (t : List α) (hne : pat ≠ [])
    (h : find? pat s = some i) : find? pat (s ++ t) = some i := by
  induction s generalizing i with
  | nil => simp [find?, hne] at h
  | cons a s ih =>
    unfold find? at h
    rw [List.cons_append]
    unfold find?
    split at h
    · next hp =>
      have hp' : pat <+: a :: (s ++ t) :=
        (List.isPrefixOf_iff_prefix.mp hp).trans (List.prefix_append (a :: s) t)
      rwa [if_pos (List.isPrefixOf_iff_prefix.mpr hp')]
    · next hp =>
      obtain ⟨j, hj, rfl⟩ := Option.map_eq_some_iff.mp h
      have hle := find?_le hj
      rw [if_neg, ih hj, Option.map_some]
      intro hp'
      refine hp (List.isPrefixOf_iff_prefix.mpr ?_)
      refine List.prefix_of_prefix_length_le (List.isPrefixOf_iff_prefix.mp hp')
        (List.prefix_append (a :: s) t) ?_
      simp only [List.length_cons]
      omega

theorem find?_eq_zero {pat s : List α} (h : pat <+: s) : find? pat s = some 0 := by
  cases s with
  | nil => rw [find?, if_pos (List.isEmpty_iff.mpr (List.prefix_nil.mp h))]
  | cons a s => rw [find?, if_pos (List.isPrefixOf_iff_prefix.mpr h)]

theorem find?_isSome_iff {pat s : List α} : (find? pat s).isSome = true ↔ pat <:+: s := by
  induction s with
  | nil =>
    rw [find?, List.infix_nil, ← List.isEmpty_iff]
    split
    · next h => exact iff_of_true rfl h
    · next h => exact iff_of_false Bool.false_ne_true h
  | cons a s ih =>
    rw [find?, List.infix_cons_iff, ← List.isPrefixOf_iff_prefix]
    split
    · next h => exact iff_of_true rfl (.inl h)
    · next h =>
      rw [Option.isSome_map, ih]
      exact ⟨.inr, fun h' ↦ h'.resolve_left h⟩

theorem find?_eq_none_iff {pat s : List α} : find? pat s = none ↔ ¬pat <:+: s := by
  rw [← find?_isSome_iff, Bool.not_eq_true, Option.isSome_eq_false_iff, Option.isNone_iff_eq_none]

theorem find?_first (c : α) (pat : List α) {before : List α} (hc : c ∉ before) (after : List α) :
    find? (c :: pat) (before ++ (c :: pat ++ after)) = some before.length := by
  induction before with
  | nil =>
    rw [List.nil_append, List.cons_append, find?, if_pos]
    · rfl
    · exact List.isPrefixOf_iff_prefix.mpr (List.prefix_append (c :: pat) after)
  | cons a before ih =>
    rw [List.mem_cons, not_or] at hc
    obtain ⟨hne, hnot⟩ := hc
    rw [List.cons_append, find?, if_neg, ih hnot, Option.map_some, List.length_cons]
    intro hp
    exact hne (List.cons_prefix_cons.mp (List.isPrefixOf_iff_prefix.mp hp)).1

theorem find?_eq_none_of_not_mem {c : α} {pat s : List α} (h : c ∉ s) :
    find? (c :: pat) s = none := by
  induction s with
  | nil => rfl
  | cons a s ih =>
    rw [List.mem_cons, not_or] at h
    rw [find?, if_neg, ih h.2, Option.map_none]
    intro hp
    exact h.1 (List.cons_prefix_cons.mp (List.isPrefixOf_iff_prefix.mp hp)).1

theorem find?_eq_none_append_left {c : α} {pat before s : List α} (hc : c ∉ before) :
    find? (c :: pat) (before ++ s) = none ↔ find? (c :: pat) s = none := by
  induction before with
  | nil => rfl
  | cons a before ih =>
    rw [List.mem_cons, not_or] at hc
    have hp : ¬(c :: pat).isPrefixOf (a :: (before ++ s)) = true := fun hp ↦
      hc.1 (List.cons_prefix_cons.mp (List.isPrefixOf_iff_prefix.mp hp)).1
    rw [List.cons_append, find?, if_neg hp, Option.map_eq_none_iff, ih hc.2]

theorem find?_eq_none_append_right {c d : α} {s after : List α} (hc : c ∉ after)
    (hd : d ∉ after) : find? [c, d] (s ++ after) = none ↔ find? [c, d] s = none := by
  constructor
  · intro h
    by_contra hsome
    obtain ⟨i, hi⟩ := Option.ne_none_iff_exists'.mp hsome
    rw [find?_append after (List.cons_ne_nil _ _) hi] at h
    cases h
  · intro h
    induction s with
    | nil => exact find?_eq_none_of_not_mem hc
    | cons a s ih =>
      rw [find?] at h
      split at h
      · cases h
      · next hp =>
        rw [List.cons_append, find?, if_neg, ih (Option.map_eq_none_iff.mp h), Option.map_none]
        intro hp'
        rw [List.isPrefixOf_iff_prefix] at hp hp'
        obtain ⟨rfl, htail⟩ := List.cons_prefix_cons.mp hp'
        cases s with
        | nil => exact hd (htail.subset (List.mem_singleton_self d))
        | cons b s =>
          obtain ⟨rfl, -⟩ := List.cons_prefix_cons.mp htail
          exact hp (List.prefix_append [c, d] s)

/-- Two different elements that do not occur in this order are first found where they are put. -/
theorem find?_of_none {c d : α} (hne : c ≠ d) {s : List α} (h : find? [c, d] s = none) :
    find? [c, d] (s ++ [c, d]) = some s.length := by
  induction s with
  | nil => exact find?_eq_zero List.prefix_rfl
  | cons a s ih =>
    rw [find?] at h
    split at h
    · cases h
    · next hp =>
      rw [List.cons_append, find?, if_neg, ih (Option.map_eq_none_iff.mp h), Option.map_some,
        List.length_cons]
      intro hp'
      rw [List.isPrefixOf_iff_prefix] at hp hp'
      obtain ⟨rfl, htail⟩ := List.cons_prefix_cons.mp hp'
      cases s with
      | nil => exact hne (List.cons_prefix_cons.mp htail).1.symm
      | cons b s =>
        obtain ⟨rfl, -⟩ := List.cons_prefix_cons.mp htail
        exact hp (List.prefix_append [c, d] s)

theorem find?_take {pat s : List α} {i : ℕ} (h : find? pat s = some i) :
    find? pat (s.take (i + pat.length)) = some i := by
  induction s generalizing i with
  | nil => rw [List.take_nil]; exact h
  | cons a s ih =>
    rw [find?] at h
    split at h
    · next hp =>
      cases h
      obtain ⟨rest, hrest⟩ := List.isPrefixOf_iff_prefix.mp hp
      have htake : (a :: s).take (0 + pat.length) = pat := by
        rw [← hrest, Nat.zero_add, List.take_left]
      exact find?_eq_zero ⟨[], by rw [List.append_nil, htake]⟩
    · next hp =>
      obtain ⟨j, hj, rfl⟩ := Option.map_eq_some_iff.mp h
      rw [Nat.add_right_comm, List.take_succ_cons, find?, if_neg, ih hj, Option.map_some]
      intro hp'
      exact hp (List.isPrefixOf_iff_prefix.mpr ((List.isPrefixOf_iff_prefix.mp hp').trans
        (List.cons_prefix_cons.mpr ⟨rfl, List.take_prefix _ s⟩)))

end RedisLite.Lib.Search
