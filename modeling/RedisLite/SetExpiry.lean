import RedisLite.Command
import RedisLite.Expiry

namespace RedisLite.Command

open Lib.Numerals

/-- The option of a `SET` that counts, its last `PX` or `EX`: the milliseconds of its unit and its
value. -/
def effectiveOption : Option (ℤ × Bytes) → List Bytes → Option (ℤ × Bytes)
  | found, opt :: value :: rest =>
    if toUpper opt == ascii "PX" then effectiveOption (some (1, value)) rest
    else if toUpper opt == ascii "EX" then effectiveOption (some (1000, value)) rest
    else effectiveOption found (value :: rest)
  | found, _ => found

def optionValues : List Bytes → List Bytes
  | opt :: value :: rest =>
    if toUpper opt == ascii "PX" || toUpper opt == ascii "EX" then value :: optionValues rest
    else optionValues (value :: rest)
  | _ => []

def IsNumeral (text : Bytes) : Prop := text ≠ [] ∧ ∀ b ∈ text, isDigit b = true

instance (text : Bytes) : Decidable (IsNumeral text) := inferInstanceAs (Decidable (_ ∧ _))

def nanos (unit : ℤ) (text : Bytes) : ℤ := digitsValue text * unit * 1000000

structure Exact (now : TimePoint) (unit : ℤ) (text : Bytes) : Prop where
  numeral : IsNumeral text
  positive : 0 < digitsValue text
  nanos : nanos unit text < 2 ^ 63
  deadline : now.toInt + Command.nanos unit text < 2 ^ 63

/-- A `SET` honours its option: it stores exactly what it accepts, and refuses everything else. -/
structure Honours (now : TimePoint) (args : List Bytes) (store : Store) (key value : Bytes)
    (unit : ℤ) (text : Bytes) : Prop where
  accepted : (executeSet now args store).1 = ascii "+OK\r\n" → Exact now unit text ∧
    ∃ expiry, (executeSet now args store).2.find key = some ⟨value, some expiry⟩ ∧
      expiry.toInt = now.toInt + nanos unit text
  refused : ¬Exact now unit text →
    ascii "-ERR " <+: (executeSet now args store).1 ∧ (executeSet now args store).2 = store

variable {now : TimePoint} {text : Bytes} {opts : List Bytes} {unit n : ℤ}

/-- What the loop over the options has found so far, and what it has converted it to. -/
inductive Converted : Option Int64 → Option (ℤ × Bytes) → Prop
  | none : Converted none none
  | some (px : Int64) (unit : ℤ) (text : Bytes) (n : ℤ) (hunit : unit = 1 ∨ unit = 1000)
    (hn : stoll text = .ok n) (hpx : px.toInt = (n * unit).bmod (2 ^ 64)) :
    Converted (some px) (some (unit, text))

theorem setOptions_converted {px px' : Option Int64} {found : Option (ℤ × Bytes)}
    (h : Converted px found) (hok : setOptions px opts = .ok px') :
    Converted px' (effectiveOption found opts) := by
  induction px, opts using setOptions.induct generalizing found with
  | case1 px opt value rest hopt e he => simp [setOptions, hopt, he] at hok
  | case2 px opt value rest hopt n hn ih =>
    simp only [setOptions, hopt, if_true, hn] at hok
    simp only [effectiveOption, hopt, if_true]
    refine ih (.some _ 1 value n (.inl rfl) hn ?_) hok
    rw [mul_one, Int64.toInt_ofInt]
    rfl
  | case3 px opt value rest hpx hopt e he => simp [setOptions, hpx, hopt, he] at hok
  | case4 px opt value rest hpx hopt n hn ih =>
    simp only [setOptions, hpx, hopt, if_true, hn, Bool.false_eq_true, if_false] at hok
    simp only [effectiveOption, hpx, hopt, if_true, Bool.false_eq_true, if_false]
    refine ih (.some _ 1000 value n (.inr rfl) hn ?_) hok
    rw [Int64.toInt_mul, Int64.toInt_ofInt]
    exact Int.bmod_mul_bmod
  | case5 px opt value rest hpx hopt ih =>
    simp only [setOptions, hpx, hopt, Bool.false_eq_true, if_false] at hok
    simp only [effectiveOption, hpx, hopt, Bool.false_eq_true, if_false]
    exact ih h hok
  | case6 opts px hopts =>
    rcases opts with _ | ⟨opt, _ | ⟨value, rest⟩⟩
    · cases hok
      exact h
    · cases hok
      exact h
    · exact absurd rfl (hopts opt value rest)

theorem setOptions_ok_iff {px : Option Int64} : (∃ px', setOptions px opts = .ok px') ↔
    ∀ value ∈ optionValues opts, ∃ n, stoll value = .ok n := by
  induction px, opts using setOptions.induct with
  | case1 px opt value rest hopt e he => simp [setOptions, optionValues, hopt, he]
  | case2 px opt value rest hopt n hn ih => simpa [setOptions, optionValues, hopt, hn] using ih
  | case3 px opt value rest hpx hopt e he => simp [setOptions, optionValues, hpx, hopt, he]
  | case4 px opt value rest hpx hopt n hn ih =>
    simpa [setOptions, optionValues, hpx, hopt, hn] using ih
  | case5 px opt value rest hpx hopt ih => simpa [setOptions, optionValues, hpx, hopt] using ih
  | case6 opts px hopts =>
    rcases opts with _ | ⟨opt, _ | ⟨value, rest⟩⟩
    · simp [setOptions, optionValues]
    · simp [setOptions, optionValues]
    · exact absurd rfl (hopts opt value rest)

inductive SetOutcome (now : TimePoint) (key value : Bytes) (opts : List Bytes) (store : Store) :
    Bytes × Store → Prop
  | stored (px : Option Int64) (hok : setOptions none opts = .ok px)
    (hpos : ∀ p, px = some p → 0 < p) :
    SetOutcome now key value opts store (ascii "+OK\r\n", store.set now key value px)
  | refused (reply : Bytes) (h : ascii "-ERR " <+: reply)
    (hpx : ∀ px, setOptions none opts = .ok px → ∃ p, px = some p ∧ p ≤ 0) :
    SetOutcome now key value opts store (reply, store)

theorem executeSet_outcome (now : TimePoint) (name key value : Bytes) (opts : List Bytes)
    (store : Store) : SetOutcome now key value opts store
      (executeSet now (name :: key :: value :: opts) store) := by
  unfold executeSet
  dsimp only
  split
  · next herr =>
    refine .refused _ (by decide) (fun px hok ↦ ?_)
    rw [herr] at hok
    cases hok
  · next hok =>
    refine .stored none hok ?_
    intro p hp
    cases hp
  · next px hok =>
    split
    · next hle =>
      refine .refused _ (by decide) (fun px' hok' ↦ ?_)
      rw [hok] at hok'
      cases hok'
      exact ⟨px, rfl, hle⟩
    · next hpos =>
      refine .stored (some px) hok ?_
      intro p hp
      cases hp
      exact Int64.not_le.mp hpos

theorem stoll_numeral (h : IsNumeral text) (hn : stoll text = .ok n) : n = digitsValue text := by
  unfold stoll convert at hn
  rw [strtol_digits h.1 h.2] at hn
  dsimp only at hn
  split at hn
  · cases hn
    rfl
  · cases hn

/-- Where nothing overflows, the conversion of a numeral is the number of milliseconds. -/
theorem toInt_px {px : Int64} (h : IsNumeral text) (hunit : unit = 1 ∨ unit = 1000)
    (hn : stoll text = .ok n) (hpx : px.toInt = (n * unit).bmod (2 ^ 64))
    (hfits : nanos unit text < 2 ^ 63) : px.toInt = digitsValue text * unit := by
  have hvalue := stoll_numeral h hn
  subst hvalue
  have hnonneg : (0 : ℤ) ≤ digitsValue text * unit :=
    Int.mul_nonneg (Int.natCast_nonneg _) (by omega)
  unfold nanos at hfits
  generalize digitsValue text * unit = millis at hpx hnonneg hfits ⊢
  have hlower : -2 ^ 63 ≤ millis := by omega
  have hupper : millis < 2 ^ 63 := by omega
  rw [hpx, Int.bmod_eq_of_le (by simpa using hlower) (by simpa using hupper)]

theorem expiry_exact (key value : Bytes) (store : Store) {px : Option Int64}
    (hok : setOptions none opts = .ok px)
    (hpos : ∀ p, px = some p → 0 < p) (heff : effectiveOption none opts = some (unit, text))
    (hnumeral : IsNumeral text) (hnanos : nanos unit text < 2 ^ 63)
    (hdeadline : now.toInt + nanos unit text < 2 ^ 63) : Exact now unit text ∧
      ∃ expiry, (store.set now key value px).find key = some ⟨value, some expiry⟩ ∧
        expiry.toInt = now.toInt + nanos unit text := by
  have hconverted := setOptions_converted .none hok
  rw [heff] at hconverted
  cases hconverted with
  | some px _ _ n hunit hn hpx =>
    have hvalue := toInt_px hnumeral hunit hn hpx hnanos
    have hzero : (0 : Int64).toInt = 0 := rfl
    have hlt := Int64.lt_iff_toInt_lt.mp (hpos px rfl)
    have hpositive : 0 < digitsValue text := by
      by_contra hnot
      rw [hvalue, Nat.eq_zero_of_not_pos hnot] at hlt
      simp at hlt
    have hfits : Store.Call.Fits (.set now key value (some px)) := by
      have hnow := Int64.le_toInt now
      rw [nanos, ← hvalue] at hnanos hdeadline
      refine ⟨?_, ?_, ?_, ?_⟩ <;> omega
    refine ⟨⟨hnumeral, hpositive, hnanos, hdeadline⟩, now + Store.millis px, ?_, ?_⟩
    · rw [Store.find_set, if_pos rfl, Option.map_some]
    · rw [Store.toInt_expiry hfits, hvalue, nanos]

theorem Honours.of_refused {args : List Bytes} {store : Store} {key value reply : Bytes}
    (hset : executeSet now args store = (reply, store)) (herr : ascii "-ERR " <+: reply) :
    Honours now args store key value unit text := by
  constructor
  · intro hreply
    rw [hset] at hreply
    rw [show reply = ascii "+OK\r\n" from hreply] at herr
    exact absurd herr (by decide)
  · intro _
    rw [hset]
    exact ⟨herr, rfl⟩

theorem pos_iff_of_converted {px : Option Int64} (h : Converted px (some (unit, text)))
    (hn : stoll text = .ok n) : (∀ p, px = some p → 0 < p) ↔ 0 < (n * unit).bmod (2 ^ 64) := by
  cases h with
  | some px _ _ m hunit hm hpx =>
    rw [hn] at hm
    cases hm
    rw [← hpx]
    have hzero : (0 : Int64).toInt = 0 := rfl
    constructor
    · intro hall
      exact hzero ▸ Int64.lt_iff_toInt_lt.mp (hall px rfl)
    · intro hpos p hp
      cases hp
      exact Int64.lt_iff_toInt_lt.mpr (hzero ▸ hpos)

/-- A `SET` honours its option if and only if some value does not convert, or the milliseconds in
64 bits are not positive, or the value is a numeral and nothing overflows on the way to the
deadline. -/
theorem set_honours_iff (now : TimePoint) (name key value : Bytes) (opts : List Bytes)
    (store : Store) (unit : ℤ) (text : Bytes)
    (heff : effectiveOption none opts = some (unit, text)) :
    Honours now (name :: key :: value :: opts) store key value unit text ↔
      (∃ word ∈ optionValues opts, ∀ n, stoll word ≠ .ok n) ∨
      (∃ n, stoll text = .ok n ∧ (n * unit).bmod (2 ^ 64) ≤ 0) ∨
      (IsNumeral text ∧ nanos unit text < 2 ^ 63 ∧ now.toInt + nanos unit text < 2 ^ 63) := by
  have hout := executeSet_outcome now name key value opts store
  cases hset : executeSet now (name :: key :: value :: opts) store with
  | mk reply store' =>
    rw [hset] at hout
    cases hout with
    | stored px hok hpos =>
      have hconverted := setOptions_converted .none hok
      rw [heff] at hconverted
      constructor
      · intro h
        obtain ⟨hexact, -⟩ := h.accepted (by rw [hset])
        exact .inr (.inr ⟨hexact.numeral, hexact.nanos, hexact.deadline⟩)
      · rintro (⟨word, hword, herr⟩ | ⟨n, hn, hle⟩ | ⟨hnumeral, hnanos, hdeadline⟩)
        · obtain ⟨n, hn⟩ := setOptions_ok_iff.mp ⟨px, hok⟩ word hword
          exact absurd hn (herr n)
        · exact absurd ((pos_iff_of_converted hconverted hn).mp hpos) (not_lt.mpr hle)
        · have hexact := expiry_exact key value store hok hpos heff hnumeral hnanos hdeadline
          exact ⟨fun _ ↦ by rw [hset]; exact hexact, fun hnot ↦ absurd hexact.1 hnot⟩
    | refused reply herr hpx =>
      refine iff_of_true (.of_refused hset herr) ?_
      by_cases hall : ∀ word ∈ optionValues opts, ∃ n, stoll word = .ok n
      · -- the loop gets through, so that it is the sign that is refused
        obtain ⟨px, hok⟩ := setOptions_ok_iff.mpr hall
        obtain ⟨p, rfl, hle⟩ := hpx px hok
        have hconverted := setOptions_converted .none hok
        rw [heff] at hconverted
        cases hconverted with
        | some _ _ _ n hunit hn hpx =>
          refine .inr (.inl ⟨n, hn, ?_⟩)
          rw [← hpx]
          exact Int64.le_iff_toInt_le.mp hle
      · push Not at hall
        exact .inl hall

def setWith (opt text : String) : List Bytes :=
  [ascii "SET", ascii "k", ascii "v", ascii opt, ascii text]

theorem set_honours_ex :
    (executeSet 0 (setWith "EX" "10") .empty).1 = ascii "+OK\r\n" ∧
    Honours 0 (setWith "EX" "10") .empty (ascii "k") (ascii "v") 1000 (ascii "10") := by
  refine ⟨by decide +kernel, ?_⟩
  refine (set_honours_iff 0 _ _ _ [ascii "EX", ascii "10"] .empty 1000 (ascii "10")
    (by decide +kernel)).mpr (.inr (.inr ?_))
  decide +kernel

/-- Accepted: a word that only begins with digits, seconds that overflow to 384 milliseconds, and
milliseconds that overflow to a deadline in the past. -/
theorem set_accepts_other_ttl :
    (executeSet 0 (setWith "PX" "10abc") .empty).1 = ascii "+OK\r\n" ∧
    ¬IsNumeral (ascii "10abc") ∧
    (executeSet 0 (setWith "EX" "18446744073709552") .empty).1 = ascii "+OK\r\n" ∧
    (executeSet 0 (setWith "EX" "18446744073709552") .empty).2.find (ascii "k") =
      some ⟨ascii "v", some 384000000⟩ ∧
    (executeSet 0 (setWith "PX" "9223372036855") .empty).1 = ascii "+OK\r\n" ∧
    (executeSet 0 (setWith "PX" "9223372036855") .empty).2.find (ascii "k") =
      some ⟨ascii "v", some (-9223372036854551616)⟩ := by
  decide +kernel

end RedisLite.Command
