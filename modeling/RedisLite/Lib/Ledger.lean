import Mathlib.Algebra.Order.Ring.Int
import Mathlib.Data.List.Basic

namespace RedisLite.Lib.Ledger

variable {α : Type}

def Placed (base : ℤ) (ledger : List α) (offset : ℤ) (word : List α) : Prop :=
  ∃ before after, ledger = before ++ word ++ after ∧ offset = base + before.length

variable {base offset offset' : ℤ} {ledger word word' : List α}

theorem placed_last (base : ℤ) (ledger word : List α) :
    Placed base (ledger ++ word) (base + ledger.length) word :=
  ⟨ledger, [], (List.append_nil _).symm, rfl⟩

theorem Placed.append (h : Placed base ledger offset word) (more : List α) :
    Placed base (ledger ++ more) offset word := by
  obtain ⟨before, after, rfl, rfl⟩ := h
  exact ⟨before, after ++ more, by simp, rfl⟩

/-- Whatever stands in one ledger agrees wherever it overlaps. -/
theorem Placed.agree (h : Placed base ledger offset word) (h' : Placed base ledger offset' word')
    {i j : ℕ} (hij : offset + i = offset' + j) {a b : α} (ha : word[i]? = some a)
    (hb : word'[j]? = some b) : a = b := by
  obtain ⟨before, after, hl, rfl⟩ := h
  obtain ⟨before', after', hl', rfl⟩ := h'
  have hat {before word after : List α} {i : ℕ} {a : α} (hl : ledger = before ++ word ++ after)
      (ha : word[i]? = some a) : ledger[before.length + i]? = some a := by
    have hi : i < word.length := (List.getElem?_eq_some_iff.mp ha).1
    rw [hl, List.append_assoc, List.getElem?_append_right (Nat.le_add_right ..),
      Nat.add_sub_cancel_left, List.getElem?_append_left hi, ha]
  have h₁ := hat hl ha
  have h₂ := hat hl' hb
  rw [show before.length + i = before'.length + j by omega, h₂] at h₁
  exact (Option.some.inj h₁).symm

end RedisLite.Lib.Ledger
