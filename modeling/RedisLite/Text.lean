import RedisLite.Lib.Numerals
import Mathlib.Data.List.TakeWhile

namespace RedisLite

open Lib.Numerals

abbrev Bytes := List UInt8

def ascii (s : String) : Bytes := s.toList.map (fun c ↦ c.toNat.toUInt8)

def crlf : Bytes := [13, 10]

def toUpperByte (b : UInt8) : UInt8 := if 97 ≤ b && b ≤ 122 then b - 32 else b

def toUpper (s : Bytes) : Bytes := s.map toUpperByte

theorem toUpperByte_toUpperByte (b : UInt8) : toUpperByte (toUpperByte b) = toUpperByte b := by
  unfold toUpperByte
  split
  · next h =>
    simp only [Bool.and_eq_true, decide_eq_true_eq, UInt8.le_iff_toNat_le] at h
    have h97 : (97 : UInt8).toNat = 97 := rfl
    have h122 : (122 : UInt8).toNat = 122 := rfl
    rw [if_neg]
    simp only [Bool.and_eq_true, decide_eq_true_eq, UInt8.le_iff_toNat_le, not_and]
    have h32 : (32 : UInt8) ≤ b := by rw [UInt8.le_iff_toNat_le]; simp; omega
    have hs := UInt8.toNat_sub_of_le b 32 h32
    have h32' : (32 : UInt8).toNat = 32 := rfl
    omega
  · rfl

theorem toUpper_toUpper (s : Bytes) : toUpper (toUpper s) = toUpper s := by
  simp [toUpper, Function.comp_def, toUpperByte_toUpperByte]

def toStr (n : ℤ) : Bytes :=
  if n < 0 then 45 :: decimal n.natAbs else decimal n.natAbs

inductive ConversionError
  | invalidArgument
  | outOfRange
  deriving DecidableEq

def isSpace (b : UInt8) : Bool := b == 32 || (9 ≤ b && b ≤ 13)

/-- The scan that `std::stoi` and `std::stoll` share: leading white space, one
sign, then the longest run of digits. What follows the digits is ignored. -/
def strtol (s : Bytes) : Option ℤ :=
  let signed : Bool × Bytes :=
    match s.dropWhile isSpace with
    | 45 :: t => (true, t)
    | 43 :: t => (false, t)
    | t => (false, t)
  let digits := signed.2.takeWhile isDigit
  if digits.isEmpty then none
  else some (if signed.1 then -(digitsValue digits : ℤ) else digitsValue digits)

def convert (bits : ℕ) (s : Bytes) : Except ConversionError ℤ :=
  match strtol s with
  | none => .error .invalidArgument
  | some n => if -2 ^ bits ≤ n ∧ n < 2 ^ bits then .ok n else .error .outOfRange

def stoi (s : Bytes) : Except ConversionError ℤ := convert 31 s

def stoll (s : Bytes) : Except ConversionError ℤ := convert 63 s

theorem digit_not_space {b : UInt8} (h : isDigit b = true) : isSpace b = false := by
  simp only [isDigit, Bool.and_eq_true, decide_eq_true_eq, UInt8.le_iff_toNat_le] at h
  simp only [isSpace, Bool.or_eq_false_iff, beq_eq_false_iff_ne, Bool.and_eq_false_iff,
    decide_eq_false_iff_not, UInt8.le_iff_toNat_le, ne_eq, UInt8.toNat_inj.symm]
  have h48 : (48 : UInt8).toNat = 48 := rfl
  have h32 : (32 : UInt8).toNat = 32 := rfl
  have h13 : (13 : UInt8).toNat = 13 := rfl
  omega

theorem digit_not_sign {b : UInt8} (h : isDigit b = true) : b ≠ 45 ∧ b ≠ 43 := by
  constructor <;> rintro rfl <;> exact absurd h (by decide)

theorem strtol_digits {ds : Bytes} (hne : ds ≠ []) (hd : ∀ b ∈ ds, isDigit b = true) :
    strtol ds = some (digitsValue ds : ℤ) := by
  cases ds with
  | nil => exact absurd rfl hne
  | cons d ds =>
    have hd0 := hd d (List.mem_cons_self ..)
    have hs := digit_not_sign hd0
    have htake : (d :: ds).takeWhile isDigit = d :: ds := List.takeWhile_eq_self_iff.mpr hd
    unfold strtol
    rw [List.dropWhile_cons_of_neg (by simp [digit_not_space hd0])]
    split
    · next he => simp only [List.cons.injEq] at he; exact absurd he.1 hs.1
    · next he => simp only [List.cons.injEq] at he; exact absurd he.1 hs.2
    · simp [htake]

theorem strtol_decimal (n : ℕ) : strtol (decimal n) = some (n : ℤ) := by
  rw [strtol_digits (decimal_ne_nil n) (decimal_isDigit n), digitsValue_decimal]

theorem convert_decimal {bits n : ℕ} (h : n < 2 ^ bits) : convert bits (decimal n) = .ok (n : ℤ) := by
  unfold convert
  rw [strtol_decimal]
  have hp : (0 : ℤ) < 2 ^ bits := by positivity
  have hn : (n : ℤ) < 2 ^ bits := by exact_mod_cast h
  simp only [hn, and_true]
  rw [if_pos (by omega)]

theorem stoi_decimal {n : ℕ} (h : n < 2 ^ 31) : stoi (decimal n) = .ok (n : ℤ) := convert_decimal h

theorem convert_bounds {bits : ℕ} {s : Bytes} {n : ℤ} (h : convert bits s = .ok n) :
    -2 ^ bits ≤ n ∧ n < 2 ^ bits := by
  unfold convert at h
  split at h
  · cases h
  · split at h
    · next hb => cases h; exact hb
    · cases h

end RedisLite
