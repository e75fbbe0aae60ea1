import Mathlib.Data.Finset.Insert
import Mathlib.Logic.Relation
import Mathlib.Order.WellFounded
import Mathlib.Data.Fintype.Order

namespace RedisLite.Lib.Linking

open Relation

variable {α : Type} {R S : α → α → Prop} {a b : α}

def Acyclic (R : α → α → Prop) : Prop := ∀ x, ¬TransGen R x x

theorem acyclic_of_isEmpty (h : ∀ x y, ¬R x y) : Acyclic R := by
  intro x hx
  obtain ⟨y, hxy, -⟩ := TransGen.head'_iff.mp hx
  exact h x y hxy

namespace Acyclic

theorem mono (h : Acyclic R) (hS : ∀ x y, S x y → R x y) : Acyclic S :=
  fun x hx ↦ h x (TransGen.mono hS x x hx)

theorem link (h : Acyclic R) (hS : ∀ x y, S x y → R x y ∨ y = b) (hb : ∀ y, ¬S b y) :
    Acyclic S := by
  have hpath {x y : α} (hxy : TransGen S x y) : TransGen R x y ∨ y = b := by
    induction hxy with
    | single hstep => exact (hS _ _ hstep).imp_left .single
    | @tail y z _ hstep ih =>
      rcases ih with hxy | rfl
      · exact (hS y z hstep).imp_left hxy.tail
      · exact absurd hstep (hb z)
  intro x hx
  rcases hpath hx with hcycle | rfl
  · exact h x hcycle
  · obtain ⟨y, hstep, -⟩ := TransGen.head'_iff.mp hx
    exact hb y hstep

theorem exists_sink (h : Acyclic R) {nodes : List α} (hnodes : ∀ x y, R x y → y ∈ nodes) (x : α) :
    ∃ y, ReflTransGen R x y ∧ ∀ z, ¬R y z := by
  let r : { y // y ∈ x :: nodes } → { y // y ∈ x :: nodes } → Prop := fun y z ↦ TransGen R z.1 y.1
  have : Finite { y // y ∈ x :: nodes } := (x :: nodes).finite_toSet
  have : IsTrans _ r := ⟨fun _ _ _ hab hbc ↦ hbc.trans hab⟩
  have : Std.Irrefl r := ⟨fun y hy ↦ h y.1 hy⟩
  have hwf : WellFounded r := Finite.wellFounded_of_trans_of_irrefl r
  obtain ⟨y, hy, hmin⟩ := hwf.has_min { y | ReflTransGen R x y.1 } ⟨⟨x, List.mem_cons_self ..⟩, .refl⟩
  refine ⟨y.1, hy, fun z hz ↦ ?_⟩
  have hmem : z ∈ x :: nodes := List.mem_cons_of_mem x (hnodes y.1 z hz)
  exact hmin ⟨z, hmem⟩ (hy.tail hz) (.single hz)

end Acyclic

end RedisLite.Lib.Linking
