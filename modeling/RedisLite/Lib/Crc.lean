import Mathlib.Algebra.Order.Ring.Nat
import Mathlib.Data.List.Induction
import Mathlib.Logic.Function.Iterate

namespace RedisLite.Lib.Crc

variable {w : ℕ} {poly : BitVec w}

def bitStep (poly c : BitVec w) : BitVec w :=
  if c.getLsbD 0 = true then c >>> 1 ^^^ poly else c >>> 1

def byteStep (poly c : BitVec w) (b : BitVec 8) : BitVec w :=
  (bitStep poly)^[8] (c ^^^ b.setWidth w)

/-- The remainder of the data, from the initial value 0 and without a final xor. -/
def crc (poly : BitVec w) (data : List (BitVec 8)) : BitVec w := data.foldl (byteStep poly) 0

def entry (poly : BitVec w) (i : BitVec 8) : BitVec w := (bitStep poly)^[8] (i.setWidth w)

def tableStep (table : BitVec 8 → BitVec w) (c : BitVec w) (b : BitVec 8) : BitVec w :=
  table (c.setWidth 8 ^^^ b) ^^^ c >>> 8

theorem xor_xor_xor_cancel (x y z : BitVec w) : (x ^^^ z) ^^^ (y ^^^ z) = x ^^^ y := by
  rw [BitVec.xor_comm y z, BitVec.xor_assoc, ← BitVec.xor_assoc z, BitVec.xor_self,
    BitVec.zero_xor]

theorem bitStep_xor (poly x y : BitVec w) :
    bitStep poly (x ^^^ y) = bitStep poly x ^^^ bitStep poly y := by
  unfold bitStep
  rw [BitVec.getLsbD_xor, BitVec.ushiftRight_xor_distrib]
  cases x.getLsbD 0 <;> cases y.getLsbD 0
  · rfl
  · exact BitVec.xor_assoc ..
  · simp only [Bool.xor_false, if_true, Bool.false_eq_true, if_false]
    rw [BitVec.xor_assoc, BitVec.xor_comm (y >>> 1), BitVec.xor_assoc]
  · exact (xor_xor_xor_cancel ..).symm

theorem iterate_bitStep_xor (poly x y : BitVec w) (n : ℕ) :
    (bitStep poly)^[n] (x ^^^ y) = (bitStep poly)^[n] x ^^^ (bitStep poly)^[n] y := by
  induction n generalizing x y with
  | zero => rfl
  | succ n ih => rw [Function.iterate_succ_apply, bitStep_xor, ih]; rfl

theorem iterate_bitStep_shiftLeft (poly : BitVec w) {z : BitVec w} {n : ℕ}
    (hz : z.toNat * 2 ^ n < 2 ^ w) : (bitStep poly)^[n] (z <<< n) = z := by
  induction n with
  | zero => exact BitVec.shiftLeft_zero z
  | succ n ih =>
    have hlow : (z <<< (n + 1)).getLsbD 0 = false := by
      rw [BitVec.getLsbD_shiftLeft]
      simp
    have hshift : z <<< (n + 1) >>> 1 = z <<< n := by
      apply BitVec.eq_of_toNat_eq
      rw [Nat.pow_succ, ← Nat.mul_assoc] at hz
      rw [BitVec.toNat_ushiftRight, BitVec.toNat_shiftLeft, BitVec.toNat_shiftLeft,
        Nat.shiftLeft_eq, Nat.shiftLeft_eq, Nat.pow_succ, ← Nat.mul_assoc, Nat.mod_eq_of_lt hz,
        Nat.mod_eq_of_lt (by omega), Nat.shiftRight_eq_div_pow, Nat.pow_one,
        Nat.mul_div_cancel _ (by decide)]
    rw [Function.iterate_succ_apply, bitStep, hlow, if_neg (by decide), hshift]
    refine ih ?_
    rw [Nat.pow_succ, ← Nat.mul_assoc] at hz
    omega

theorem low_xor_high (c : BitVec w) :
    (c.setWidth 8).setWidth w ^^^ (c >>> 8) <<< 8 = c := by
  apply BitVec.eq_of_getLsbD_eq
  intro i hi
  rw [BitVec.getLsbD_xor, BitVec.getLsbD_setWidth, BitVec.getLsbD_setWidth,
    BitVec.getLsbD_shiftLeft, BitVec.getLsbD_ushiftRight]
  by_cases h : i < 8
  · simp [h, hi]
  · simp [h, hi, Nat.add_sub_cancel' (Nat.le_of_not_lt h)]

theorem byteStep_eq (c : BitVec w) (b : BitVec 8) :
    byteStep poly c b = tableStep (entry poly) c b := by
  have hhigh : (c >>> 8).toNat * 2 ^ 8 < 2 ^ w := by
    rw [BitVec.toNat_ushiftRight, Nat.shiftRight_eq_div_pow]
    exact Nat.lt_of_le_of_lt (Nat.div_mul_le_self ..) c.isLt
  have hindex : (c.setWidth 8 ^^^ b).setWidth w =
      (c.setWidth 8).setWidth w ^^^ b.setWidth w := BitVec.setWidth_xor
  have hsplit : c ^^^ b.setWidth w =
      (c.setWidth 8 ^^^ b).setWidth w ^^^ (c >>> 8) <<< 8 := by
    rw [hindex, BitVec.xor_assoc, BitVec.xor_comm (b.setWidth w), ← BitVec.xor_assoc, low_xor_high]
  rw [byteStep, hsplit, iterate_bitStep_xor, iterate_bitStep_shiftLeft poly hhigh]
  rfl

/-- A table agrees with the CRC on all prefixes of the data exactly when each byte of it picks a
right entry. -/
theorem foldl_tableStep_iff (table : BitVec 8 → BitVec w) (data : List (BitVec 8)) :
    (∀ p, p <+: data → p.foldl (tableStep table) 0 = crc poly p) ↔
      ∀ p b, p ++ [b] <+: data → table ((crc poly p).setWidth 8 ^^^ b) =
        entry poly ((crc poly p).setWidth 8 ^^^ b) := by
  have hsnoc (p : List (BitVec 8)) (b : BitVec 8) :
      crc poly (p ++ [b]) = entry poly ((crc poly p).setWidth 8 ^^^ b) ^^^ crc poly p >>> 8 := by
    rw [crc, List.foldl_append, List.foldl_cons, List.foldl_nil, byteStep_eq]
    rfl
  have htable (p : List (BitVec 8)) (b : BitVec 8) (hp : p.foldl (tableStep table) 0 = crc poly p) :
      (p ++ [b]).foldl (tableStep table) 0 =
        table ((crc poly p).setWidth 8 ^^^ b) ^^^ crc poly p >>> 8 := by
    rw [List.foldl_append, List.foldl_cons, List.foldl_nil, hp, tableStep]
  constructor
  · intro h p b hpre
    have hboth := h (p ++ [b]) hpre
    rw [hsnoc, htable p b (h p ((List.prefix_append p [b]).trans hpre))] at hboth
    exact (BitVec.xor_left_inj _).mp hboth
  · intro h p
    induction p using List.reverseRecOn with
    | nil => exact fun _ ↦ rfl
    | append_singleton p b ih =>
      intro hpre
      rw [htable p b (ih ((List.prefix_append p [b]).trans hpre)), hsnoc, h p b hpre]

end RedisLite.Lib.Crc
