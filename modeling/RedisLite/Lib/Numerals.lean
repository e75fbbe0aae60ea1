import Mathlib.Data.Nat.Digits.Lemmas

namespace RedisLite.Lib.Numerals

def decimal (n : ℕ) : List UInt8 :=
  if n = 0 then [48] else ((Nat.digits 10 n).map (fun d ↦ UInt8.ofNat (48 + d))).reverse

def isDigit (b : UInt8) : Bool := 48 ≤ b && b ≤ 57

def digitsValue (ds : List UInt8) : ℕ := ds.foldl (fun n d ↦ 10 * n + (d.toNat - 48)) 0

theorem digit_toNat {d : ℕ} (h : d < 10) : (UInt8.ofNat (48 + d)).toNat = 48 + d := by
  rw [UInt8.toNat_ofNat']
  omega

theorem isDigit_ofNat {d : ℕ} (h : d < 10) : isDigit (UInt8.ofNat (48 + d)) = true := by
  simp only [isDigit, Bool.and_eq_true, decide_eq_true_eq, UInt8.le_iff_toNat_le, digit_toNat h]
  constructor
  · exact Nat.le_add_right 48 d
  · change 48 + d ≤ 57
    omega

theorem decimal_ne_nil (n : ℕ) : decimal n ≠ [] := by
  unfold decimal
  split
  · simp
  · next h => simp [Nat.digits_ne_nil_iff_ne_zero.mpr h]

theorem decimal_length_le_of_lt {n k : ℕ} (hk : 0 < k) (h : n < 10 ^ k) :
    (decimal n).length ≤ k := by
  unfold decimal
  split
  · exact hk
  · simp only [List.length_map, List.length_reverse]
    exact (Nat.digits_length_le_iff (by decide) n).mpr h

theorem decimal_length_le (n : ℕ) : (decimal n).length ≤ n + 1 :=
  decimal_length_le_of_lt (Nat.zero_lt_succ n)
    ((Nat.lt_succ_self n).trans (Nat.lt_pow_self (by decide)))

theorem decimal_isDigit (n : ℕ) : ∀ b ∈ decimal n, isDigit b = true := by
  intro b hb
  unfold decimal at hb
  split at hb
  · simp only [List.mem_singleton] at hb
    subst hb
    decide
  · simp only [List.mem_reverse, List.mem_map] at hb
    obtain ⟨d, hd, rfl⟩ := hb
    exact isDigit_ofNat (Nat.digits_lt_base (by decide) hd)

theorem digitsValue_append (ds : List UInt8) (d : UInt8) :
    digitsValue (ds ++ [d]) = 10 * digitsValue ds + (d.toNat - 48) := by
  simp only [digitsValue, List.foldl_append, List.foldl_cons, List.foldl_nil]

theorem digitsValue_reverse (l : List ℕ) (hl : ∀ d ∈ l, d < 10) :
    digitsValue ((l.map (fun d ↦ UInt8.ofNat (48 + d))).reverse) = Nat.ofDigits 10 l := by
  induction l with
  | nil => rfl
  | cons d l ih =>
    have hd := hl d (List.mem_cons_self ..)
    have ht := ih (fun e he ↦ hl e (List.mem_cons_of_mem d he))
    rw [List.map_cons, List.reverse_cons, digitsValue_append, ht, digit_toNat hd,
      Nat.ofDigits_cons]
    omega

theorem digitsValue_decimal (n : ℕ) : digitsValue (decimal n) = n := by
  unfold decimal
  split
  · next h => subst h; rfl
  · rw [digitsValue_reverse _ (fun d hd ↦ Nat.digits_lt_base (by decide) hd), Nat.ofDigits_digits]

def signed (n : ℤ) : List UInt8 := if n < 0 then 45 :: decimal n.natAbs else decimal n.natAbs

theorem signed_natCast (n : ℕ) : signed n = decimal n := by
  rw [signed, if_neg (by omega), Int.natAbs_natCast]

def readDecimal (text : List UInt8) : Option ℤ :=
  if text.isEmpty || !text.all isDigit then none else some (digitsValue text)

def readSigned : List UInt8 → Option ℤ
  | 45 :: text => (readDecimal text).map Neg.neg
  | text => readDecimal text

theorem readDecimal_decimal (n : ℕ) : readDecimal (decimal n) = some (n : ℤ) := by
  have hall : (decimal n).all isDigit = true := List.all_eq_true.mpr (decimal_isDigit n)
  rw [readDecimal, hall, List.isEmpty_eq_false_iff.mpr (decimal_ne_nil n), digitsValue_decimal]
  rfl

theorem readSigned_decimal (n : ℕ) : readSigned (decimal n) = some (n : ℤ) := by
  rw [readSigned]
  · exact readDecimal_decimal n
  · intro text heq
    exact absurd (decimal_isDigit n 45 (by rw [heq]; exact List.mem_cons_self ..)) (by decide)

theorem readSigned_signed (n : ℤ) : readSigned (signed n) = some n := by
  rw [signed]
  split
  · next hneg =>
    rw [readSigned, readDecimal_decimal, Option.map_some]
    congr 1
    omega
  · next hnonneg =>
    rw [readSigned_decimal]
    congr 1
    omega

theorem signed_no_return (n : ℤ) : 13 ∉ signed n := by
  have hdecimal : 13 ∉ decimal n.natAbs := fun h ↦ absurd (decimal_isDigit _ _ h) (by decide)
  rw [signed]
  split
  · exact fun h ↦ (List.mem_cons.mp h).elim (by decide) hdecimal
  · exact hdecimal

def leBytes : ℕ → ℕ → List UInt8
  | 0, _ => []
  | k + 1, n => UInt8.ofNat (n % 256) :: leBytes k (n / 256)

def leValue : List UInt8 → ℕ
  | [] => 0
  | b :: bs => b.toNat + 256 * leValue bs

@[simp] theorem leBytes_length (k n : ℕ) : (leBytes k n).length = k := by
  induction k generalizing n with
  | zero => rfl
  | succ k ih => simp only [leBytes, List.length_cons, ih]

theorem leValue_leBytes (k n : ℕ) : leValue (leBytes k n) = n % 256 ^ k := by
  induction k generalizing n with
  | zero => simp [leBytes, leValue, Nat.mod_one]
  | succ k ih =>
    have hb : (UInt8.ofNat (n % 256)).toNat = n % 256 := by
      rw [UInt8.toNat_ofNat']
      omega
    rw [leBytes, leValue, ih, hb, Nat.pow_succ', Nat.mod_mul]

end RedisLite.Lib.Numerals
