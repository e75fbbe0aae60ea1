import RedisLite.Text
import RedisLite.Lib.Framing

namespace RedisLite

open Lib.Numerals

structure ParseResult where
  args : List Bytes := []
  bytesConsumed : ℕ := 0
  deriving DecidableEq

namespace Resp

/-- The number in front of the next `\r`. The byte behind the `\r` has to be there
but is skipped unread. -/
def parseHeader (s : Bytes) : Option (ℕ × Bytes) :=
  let rest := s.dropWhile (· != 13)
  if rest.length < 2 then none
  else
    match stoi (s.takeWhile (· != 13)) with
    | .error _ => none
    | .ok n => if n < 0 then none else some (n.toNat, rest.drop 2)

def parseArgs : ℕ → Bytes → Option (List Bytes × Bytes)
  | 0, s => some ([], s)
  | count + 1, s =>
    match s with
    | 36 :: t =>
      match parseHeader t with
      | none => none
      | some (strLen, body) =>
        if body.length < strLen + 2 then none
        else
          (parseArgs count (body.drop (strLen + 2))).map
            (fun r ↦ (body.take strLen :: r.1, r.2))
    | _ => none

def parseArray : Bytes → Option (List Bytes × Bytes)
  | 42 :: t =>
    match parseHeader t with
    | none => none
    | some (count, s) => parseArgs count s
  | _ => none

/-- `resp::parse`: the arguments of the command at the front of the buffer and the
number of bytes it takes; zero bytes mean that the command is not complete. -/
def parse (buffer : Bytes) : ParseResult :=
  match parseArray buffer with
  | none => {}
  | some (args, rest) => { args := args, bytesConsumed := buffer.length - rest.length }

def encodeBulkString (str : Bytes) : Bytes :=
  ascii "$" ++ decimal str.length ++ crlf ++ str ++ crlf

def encodeNullBulkString : Bytes := ascii "$-1\r\n"

def encodeArray (args : List Bytes) : Bytes :=
  ascii "*" ++ decimal args.length ++ crlf ++ args.flatMap encodeBulkString

theorem parseHeader_eq_some {s rest : Bytes} {n : ℕ} :
    parseHeader s = some (n, rest) ↔ 2 ≤ (s.dropWhile (· != 13)).length ∧
      stoi (s.takeWhile (· != 13)) = .ok (n : ℤ) ∧ rest = (s.dropWhile (· != 13)).drop 2 := by
  unfold parseHeader
  dsimp only
  constructor
  · intro h
    split at h
    · cases h
    · next hlen =>
      split at h
      · cases h
      · next k hk =>
        split at h
        · cases h
        · simp only [Option.some.injEq, Prod.mk.injEq] at h
          refine ⟨by omega, ?_, h.2.symm⟩
          rw [hk, ← h.1]
          congr 1
          omega
  · rintro ⟨hlen, hn, rfl⟩
    rw [if_neg (by omega), hn]
    simp

/-- A header that has been read is read the same way when more bytes arrive. -/
theorem parseHeader_append {s rest more : Bytes} {n : ℕ} (h : parseHeader s = some (n, rest)) :
    parseHeader (s ++ more) = some (n, rest ++ more) := by
  obtain ⟨hlen, hn, rfl⟩ := parseHeader_eq_some.mp h
  have hne : s.dropWhile (· != 13) ≠ [] := by
    intro he
    rw [he] at hlen
    simp at hlen
  have htake : (s ++ more).takeWhile (· != 13) = s.takeWhile (· != 13) := by
    rw [List.takeWhile_append, if_neg]
    intro he
    have hsum := congrArg List.length (List.takeWhile_append_dropWhile (p := (· != 13)) (l := s))
    rw [List.length_append, he] at hsum
    exact hne (List.length_eq_zero_iff.mp (by omega))
  have hdrop : (s ++ more).dropWhile (· != 13) = s.dropWhile (· != 13) ++ more := by
    rw [List.dropWhile_append, if_neg (by simpa using hne)]
  rw [parseHeader_eq_some, htake, hdrop, List.drop_append_of_le_length hlen]
  exact ⟨by rw [List.length_append]; omega, hn, rfl⟩

theorem parseHeader_suffix {s rest : Bytes} {n : ℕ} (h : parseHeader s = some (n, rest)) :
    rest.length + 2 ≤ s.length := by
  obtain ⟨hlen, -, rfl⟩ := parseHeader_eq_some.mp h
  have hsum := congrArg List.length (List.takeWhile_append_dropWhile (p := (· != 13)) (l := s))
  rw [List.length_append] at hsum
  rw [List.length_drop]
  omega

theorem parseHeader_lt {s rest : Bytes} {n : ℕ} (h : parseHeader s = some (n, rest)) :
    n < 2 ^ 31 := by
  have hb := convert_bounds (parseHeader_eq_some.mp h).2.1
  omega

theorem parseArgs_succ {count : ℕ} {s rest : Bytes} {args : List Bytes} :
    parseArgs (count + 1) s = some (args, rest) ↔ ∃ t strLen body args',
      s = 36 :: t ∧ parseHeader t = some (strLen, body) ∧ strLen + 2 ≤ body.length ∧
      parseArgs count (body.drop (strLen + 2)) = some (args', rest) ∧
      args = body.take strLen :: args' := by
  constructor
  · intro h
    unfold parseArgs at h
    split at h
    · next t =>
      split at h
      · cases h
      · next strLen body hh =>
        split at h
        · cases h
        · obtain ⟨⟨args', rest'⟩, hr, he⟩ := Option.map_eq_some_iff.mp h
          simp only [Prod.mk.injEq] at he
          exact ⟨t, strLen, body, args', rfl, hh, by omega, he.2 ▸ hr, he.1.symm⟩
    · cases h
  · rintro ⟨t, strLen, body, args', rfl, hh, hlen, hr, rfl⟩
    rw [parseArgs]
    simp only [hh, if_neg (Nat.not_lt.mpr hlen), hr, Option.map_some]

theorem parseArgs_append {count : ℕ} {s rest more : Bytes} {args : List Bytes}
    (h : parseArgs count s = some (args, rest)) :
    parseArgs count (s ++ more) = some (args, rest ++ more) := by
  induction count generalizing s args with
  | zero =>
    simp only [parseArgs, Option.some.injEq, Prod.mk.injEq] at h ⊢
    exact ⟨h.1, by rw [h.2]⟩
  | succ count ih =>
    obtain ⟨t, strLen, body, args', rfl, hh, hlen, hr, rfl⟩ := parseArgs_succ.mp h
    refine parseArgs_succ.mpr ⟨t ++ more, strLen, body ++ more, args', rfl,
      parseHeader_append hh, ?_, ?_, ?_⟩
    · rw [List.length_append]; omega
    · rw [List.drop_append_of_le_length hlen]
      exact ih hr
    · rw [List.take_append_of_le_length (by omega)]

theorem parseArgs_suffix {count : ℕ} {s rest : Bytes} {args : List Bytes}
    (h : parseArgs count s = some (args, rest)) : rest.length ≤ s.length := by
  induction count generalizing s args with
  | zero =>
    simp only [parseArgs, Option.some.injEq, Prod.mk.injEq] at h
    rw [h.2]
  | succ count ih =>
    obtain ⟨t, strLen, body, args', rfl, hh, hlen, hr, -⟩ := parseArgs_succ.mp h
    have hb := parseHeader_suffix hh
    have hr' := ih hr
    rw [List.length_drop] at hr'
    rw [List.length_cons]
    omega

theorem parseArgs_bounds {count : ℕ} {s rest : Bytes} {args : List Bytes}
    (h : parseArgs count s = some (args, rest)) :
    args.length = count ∧ ∀ a ∈ args, a.length < 2 ^ 31 := by
  induction count generalizing s args with
  | zero =>
    simp only [parseArgs, Option.some.injEq, Prod.mk.injEq] at h
    simp [← h.1]
  | succ count ih =>
    obtain ⟨t, strLen, body, args', -, hh, hlen, hr, rfl⟩ := parseArgs_succ.mp h
    have hb := parseHeader_lt hh
    obtain ⟨hc, ha⟩ := ih hr
    refine ⟨by rw [List.length_cons, hc], fun a hmem ↦ ?_⟩
    rcases List.mem_cons.mp hmem with rfl | hmem
    · rw [List.length_take]; omega
    · exact ha a hmem

theorem parseHeader_decimal {n : ℕ} (hn : n < 2 ^ 31) (rest : Bytes) :
    parseHeader (decimal n ++ crlf ++ rest) = some (n, rest) := by
  have hd : ∀ b ∈ decimal n, (b != 13) = true := by
    intro b hb
    have := decimal_isDigit n b hb
    simp only [bne_iff_ne]
    rintro rfl
    exact absurd this (by decide)
  have htake : (decimal n ++ crlf ++ rest).takeWhile (· != 13) = decimal n := by
    rw [List.append_assoc, List.takeWhile_append_of_pos hd]
    simp [crlf]
  have hdrop : (decimal n ++ crlf ++ rest).dropWhile (· != 13) = crlf ++ rest := by
    rw [List.append_assoc, List.dropWhile_append_of_pos hd]
    simp [crlf]
  unfold parseHeader
  simp only [htake, hdrop, stoi_decimal hn]
  simp [crlf]

theorem parseArgs_encode (args : List Bytes) (ha : ∀ a ∈ args, a.length < 2 ^ 31) (rest : Bytes) :
    parseArgs args.length (args.flatMap encodeBulkString ++ rest) = some (args, rest) := by
  induction args with
  | nil => rfl
  | cons a args ih =>
    have hlt := ha a (List.mem_cons_self ..)
    have ht := ih (fun b hb ↦ ha b (List.mem_cons_of_mem a hb))
    have hs : (a :: args).flatMap encodeBulkString ++ rest =
        36 :: (decimal a.length ++ crlf ++
          (a ++ (crlf ++ (args.flatMap encodeBulkString ++ rest)))) := by
      simp [encodeBulkString, ascii]
    rw [hs, List.length_cons, parseArgs, parseHeader_decimal hlt]
    simp only [List.length_append]
    rw [if_neg (by simp only [crlf, List.length_cons, List.length_nil]; omega), List.take_left,
      ← List.drop_drop, List.drop_left, show (2 : ℕ) = crlf.length from rfl, List.drop_left, ht]
    rfl

theorem parseArray_eq_some {s rest : Bytes} {args : List Bytes} :
    parseArray s = some (args, rest) ↔ ∃ t count body,
      s = 42 :: t ∧ parseHeader t = some (count, body) ∧
      parseArgs count body = some (args, rest) := by
  constructor
  · intro h
    unfold parseArray at h
    split at h
    · next t =>
      split at h
      · cases h
      · next count body hh => exact ⟨t, count, body, rfl, hh, h⟩
    · cases h
  · rintro ⟨t, count, body, rfl, hh, hr⟩
    rw [parseArray]
    simp only [hh, hr]

theorem parseArray_append {s rest more : Bytes} {args : List Bytes}
    (h : parseArray s = some (args, rest)) :
    parseArray (s ++ more) = some (args, rest ++ more) := by
  obtain ⟨t, count, body, rfl, hh, hr⟩ := parseArray_eq_some.mp h
  exact parseArray_eq_some.mpr ⟨t ++ more, count, body ++ more, rfl, parseHeader_append hh,
    parseArgs_append hr⟩

theorem parseArray_suffix {s rest : Bytes} {args : List Bytes}
    (h : parseArray s = some (args, rest)) : rest.length < s.length := by
  obtain ⟨t, count, body, rfl, hh, hr⟩ := parseArray_eq_some.mp h
  have hb := parseHeader_suffix hh
  have hr' := parseArgs_suffix hr
  rw [List.length_cons]
  omega

/-- What the parser can return: at most `2^31 - 1` arguments, each shorter than
`2^31` bytes. -/
def Sized (args : List Bytes) : Prop := args.length < 2 ^ 31 ∧ ∀ a ∈ args, a.length < 2 ^ 31

instance (args : List Bytes) : Decidable (Sized args) := inferInstanceAs (Decidable (_ ∧ _))

theorem parseArray_sized {s rest : Bytes} {args : List Bytes}
    (h : parseArray s = some (args, rest)) : Sized args := by
  obtain ⟨t, count, body, -, hh, hr⟩ := parseArray_eq_some.mp h
  obtain ⟨hc, ha⟩ := parseArgs_bounds hr
  exact ⟨hc ▸ parseHeader_lt hh, ha⟩

theorem parseArray_encode {args : List Bytes} (ha : Sized args) (rest : Bytes) :
    parseArray (encodeArray args ++ rest) = some (args, rest) := by
  have hs : encodeArray args ++ rest = 42 :: (decimal args.length ++ crlf ++
      (args.flatMap encodeBulkString ++ rest)) := by
    simp [encodeArray, ascii]
  rw [hs]
  exact parseArray_eq_some.mpr ⟨_, _, _, rfl, parseHeader_decimal ha.1 _,
    parseArgs_encode args ha.2 rest⟩

def next (buffer : Bytes) : Option (List Bytes × ℕ) :=
  (parseArray buffer).map (fun r ↦ (r.1, buffer.length - r.2.length))

theorem next_eq_some {buffer : Bytes} {args : List Bytes} {n : ℕ} :
    next buffer = some (args, n) ↔
      ∃ rest, parseArray buffer = some (args, rest) ∧ n = buffer.length - rest.length := by
  unfold next
  rw [Option.map_eq_some_iff]
  constructor
  · rintro ⟨⟨args', rest⟩, h, he⟩
    simp only [Prod.mk.injEq] at he
    exact ⟨rest, he.1 ▸ h, he.2.symm⟩
  · rintro ⟨rest, h, rfl⟩
    exact ⟨_, h, rfl⟩

theorem parse_eq_next (buffer : Bytes) :
    parse buffer = match next buffer with
      | none => {}
      | some (args, n) => { args := args, bytesConsumed := n } := by
  unfold parse next
  cases parseArray buffer <;> rfl

theorem next_pos {buffer : Bytes} {args : List Bytes} {n : ℕ}
    (h : next buffer = some (args, n)) : 0 < n := by
  obtain ⟨rest, hp, rfl⟩ := next_eq_some.mp h
  have := parseArray_suffix hp
  omega

theorem next_sized {buffer : Bytes} {args : List Bytes} {n : ℕ}
    (h : next buffer = some (args, n)) : Sized args := by
  obtain ⟨rest, hp, -⟩ := next_eq_some.mp h
  exact parseArray_sized hp

theorem parse_eq_zero {buffer : Bytes} :
    (parse buffer).bytesConsumed = 0 ↔ next buffer = none := by
  rw [parse_eq_next]
  cases hn : next buffer with
  | none => simp
  | some r =>
    have := next_pos hn
    simp only [reduceCtorEq, iff_false]
    omega

theorem next_encode {args : List Bytes} (ha : Sized args) (rest : Bytes) :
    next (encodeArray args ++ rest) = some (args, (encodeArray args).length) := by
  refine next_eq_some.mpr ⟨rest, parseArray_encode ha rest, ?_⟩
  rw [List.length_append]
  omega

theorem encodeArray_length_pos (args : List Bytes) : 0 < (encodeArray args).length := by
  simp only [encodeArray, ascii, List.length_append, crlf]
  simp

def framing : Lib.Framing (List Bytes) UInt8 where
  Valid := Sized
  encode := encodeArray
  decode := next
  decode_encode _ rest ha := next_encode ha rest
  decode_append buf rest args n h := by
    obtain ⟨tail, hp, rfl⟩ := next_eq_some.mp h
    refine next_eq_some.mpr ⟨tail ++ rest, parseArray_append hp, ?_⟩
    rw [List.length_append, List.length_append]
    omega
  decode_le buf args n h := by
    obtain ⟨tail, -, rfl⟩ := next_eq_some.mp h
    exact Nat.sub_le _ _
  decode_nil := rfl

end Resp

end RedisLite
