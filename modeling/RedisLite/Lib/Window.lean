import Mathlib.Data.List.Perm.Basic

namespace RedisLite.Lib.Window

open scoped List

variable {α : Type} {p : α → Bool} {k : ℕ} {l : List α} {x : α}

def pass (p : α → Bool) (k : ℕ) (l : List α) : List α := (l.take k).filter p ++ l.drop k

def removed (p : α → Bool) (k : ℕ) (l : List α) : List α := (l.take k).filter (fun x ↦ !p x)

def passes (p : α → Bool) (k : ℕ) : ℕ → List α → List α × List α
  | 0, l => ([], l)
  | n + 1, l =>
    let rest := passes p k n (pass p k l)
    (removed p k l ++ rest.1, rest.2)

/-- No element without `p` comes behind `k` elements with it. -/
def Within (p : α → Bool) : ℕ → List α → Prop
  | _, [] => True
  | k, x :: l => if p x = true then Within p (k - 1) l else 0 < k ∧ Within p k l

theorem pass_succ_cons (p : α → Bool) (k : ℕ) (x : α) (l : List α) :
    pass p (k + 1) (x :: l) = if p x = true then x :: pass p k l else pass p k l := by
  rw [pass, List.take_succ_cons, List.drop_succ_cons, List.filter_cons]
  split <;> rfl

theorem removed_succ_cons (p : α → Bool) (k : ℕ) (x : α) (l : List α) :
    removed p (k + 1) (x :: l) = if p x = true then removed p k l else x :: removed p k l := by
  rw [removed, List.take_succ_cons, List.filter_cons, removed]
  cases p x <;> rfl

theorem within_iff : Within p k l ↔
    ∀ before x after, l = before ++ x :: after → p x = false → before.countP p < k := by
  induction l generalizing k with
  | nil =>
    refine iff_of_true trivial (fun before x after h ↦ ?_)
    simp at h
  | cons y l ih =>
    rw [Within]
    by_cases hy : p y = true
    · rw [if_pos hy, ih]
      constructor
      · intro h before x after heq hx
        cases before with
        | nil =>
          cases heq
          rw [hx] at hy
          cases hy
        | cons z before =>
          cases heq
          have hlt := h before x after rfl hx
          rw [List.countP_cons_of_pos hy]
          omega
      · intro h before x after heq hx
        have hlt := h (y :: before) x after (by rw [heq, List.cons_append]) hx
        rw [List.countP_cons_of_pos hy] at hlt
        omega
    · rw [if_neg hy, ih]
      constructor
      · rintro ⟨hpos, h⟩ before x after heq hx
        cases before with
        | nil => exact hpos
        | cons z before =>
          cases heq
          rw [List.countP_cons_of_neg hy]
          exact h before x after rfl hx
      · intro h
        refine ⟨h [] y l rfl (Bool.not_eq_true _ ▸ hy), fun before x after heq hx ↦ ?_⟩
        have hlt := h (y :: before) x after (by rw [heq, List.cons_append]) hx
        rwa [List.countP_cons_of_neg hy] at hlt

theorem within_of_forall (h : ∀ x ∈ l, p x = true) : Within p k l := by
  rw [within_iff]
  intro before x after heq hx
  rw [h x (by simp [heq])] at hx
  cases hx

theorem forall_of_within_zero (h : Within p 0 l) (hx : x ∈ l) : p x = true := by
  induction l with
  | nil => cases hx
  | cons y l ih =>
    rw [Within] at h
    split at h
    · next hy =>
      rcases List.mem_cons.mp hx with rfl | hx
      · exact hy
      · exact ih h hx
    · exact absurd h.1 (Nat.lt_irrefl 0)

/-- A window no wider than `k` does not change what comes behind `k` elements with `p`. -/
theorem within_pass_iff {w : ℕ} (hw : w ≤ k) : Within p k (pass p w l) ↔ Within p k l := by
  induction l generalizing k w with
  | nil => rw [pass, List.take_nil, List.drop_nil, List.filter_nil, List.append_nil]
  | cons x l ih =>
    cases w with
    | zero => rw [pass, List.take_zero, List.filter_nil, List.nil_append, List.drop_zero]
    | succ w =>
      rw [pass_succ_cons]
      by_cases hx : p x = true
      · rw [if_pos hx, Within, if_pos hx, Within, if_pos hx]
        exact ih (by omega)
      · rw [if_neg hx, Within, if_neg hx, ih (by omega), and_iff_right (by omega)]

theorem removed_append_pass_perm (p : α → Bool) (k : ℕ) (l : List α) :
    removed p k l ++ pass p k l ~ l := by
  rw [removed, pass, ← List.append_assoc]
  have hsplit := List.filter_append_perm p (l.take k)
  have hparts := (List.perm_append_comm.trans hsplit).append_right (l.drop k)
  rwa [List.take_append_drop] at hparts

theorem length_pass_lt (h : Within p k l) (hx : x ∈ l) (hp : p x = false) :
    (pass p k l).length < l.length := by
  induction l generalizing k with
  | nil => cases hx
  | cons y l ih =>
    cases k with
    | zero =>
      rw [forall_of_within_zero h hx] at hp
      cases hp
    | succ k =>
      rw [pass_succ_cons]
      rw [Within] at h
      by_cases hy : p y = true
      · rw [if_pos hy] at h ⊢
        have hmem : x ∈ l := by
          rcases List.mem_cons.mp hx with rfl | hx
          · rw [hy] at hp
            cases hp
          · exact hx
        exact Nat.succ_lt_succ (ih h hmem)
      · rw [if_neg hy]
        have hle := (removed_append_pass_perm p k l).length_eq
        rw [List.length_append] at hle
        rw [List.length_cons]
        omega

theorem passes_perm (p : α → Bool) (k n : ℕ) (l : List α) :
    (passes p k n l).1 ++ (passes p k n l).2 ~ l := by
  induction n generalizing l with
  | zero => exact .refl l
  | succ n ih =>
    rw [passes, List.append_assoc]
    exact ((ih (pass p k l)).append_left (removed p k l)).trans (removed_append_pass_perm p k l)

theorem within_passes_iff (n : ℕ) : Within p k (passes p k n l).2 ↔ Within p k l := by
  induction n generalizing l with
  | zero => rfl
  | succ n ih =>
    rw [passes]
    exact ih.trans (within_pass_iff (Nat.le_refl k))

theorem passes_removed (p : α → Bool) (k n : ℕ) (l : List α) (hx : x ∈ (passes p k n l).1) :
    p x = false := by
  induction n generalizing l with
  | zero => cases hx
  | succ n ih =>
    rcases List.mem_append.mp hx with hx | hx
    · simpa using (List.mem_filter.mp hx).2
    · exact ih (pass p k l) hx

/-- Enough passes leave no element without `p` exactly when none comes behind `k` others. -/
theorem passes_clean_iff {n : ℕ} (hn : l.length ≤ n) :
    (∀ x ∈ (passes p k n l).2, p x = true) ↔ Within p k l := by
  constructor
  · intro h
    exact (within_passes_iff n).mp (within_of_forall h)
  · intro h
    induction n generalizing l with
    | zero =>
      rw [List.length_eq_zero_iff.mp (Nat.le_zero.mp hn)]
      intro x hx
      cases hx
    | succ n ih =>
      rw [passes]
      by_cases hclean : ∀ x ∈ l, p x = true
      · intro x hx
        have hmem := (passes_perm p k n (pass p k l)).subset (List.mem_append_right _ hx)
        exact hclean x ((removed_append_pass_perm p k l).subset (List.mem_append_right _ hmem))
      · push Not at hclean
        obtain ⟨x, hx, hp⟩ := hclean
        have hlt := length_pass_lt h hx (Bool.not_eq_true _ ▸ hp)
        exact ih (by omega) ((within_pass_iff (Nat.le_refl k)).mpr h)

/-- Passes that leave no element without `p` have taken out all of them, each once. -/
theorem passes_fst_perm {n : ℕ} (h : ∀ x ∈ (passes p k n l).2, p x = true) :
    (passes p k n l).1 ~ l.filter (fun x ↦ !p x) := by
  have hperm := (passes_perm p k n l).filter (fun x ↦ !p x)
  have hleft : (passes p k n l).1.filter (fun x ↦ !p x) = (passes p k n l).1 :=
    List.filter_eq_self.mpr (fun x hx ↦ by rw [passes_removed p k n l hx]; rfl)
  have hright : (passes p k n l).2.filter (fun x ↦ !p x) = [] :=
    List.filter_eq_nil_iff.mpr (fun x hx ↦ by rw [h x hx]; decide)
  rwa [List.filter_append, hleft, hright, List.append_nil] at hperm

end RedisLite.Lib.Window
