import RedisLite.Server

namespace RedisLite

open Lib.Numerals Lib.Search

def Plain (s : Bytes) : Prop := ∀ b ∈ s, b ≠ 32 ∧ b ≠ 13 ∧ b ≠ 36

/-- An ID of `generate_replid`: forty hexadecimal digits. -/
def IsReplid (id : Bytes) : Prop :=
  id.length = 40 ∧ ∀ b ∈ id, (48 ≤ b ∧ b ≤ 57) ∨ (97 ≤ b ∧ b ≤ 102)

instance (id : Bytes) : Decidable (IsReplid id) := inferInstanceAs (Decidable (_ ∧ _))

theorem IsReplid.plain {id : Bytes} (h : IsReplid id) : Plain id := by
  intro b hb
  refine ⟨?_, ?_, ?_⟩ <;> rintro rfl <;> rcases h.2 _ hb with h | h <;> revert h <;> decide

theorem plain_decimal (n : ℕ) : Plain (decimal n) := by
  intro b hb
  have h := decimal_isDigit n b hb
  refine ⟨?_, ?_, ?_⟩ <;> rintro rfl <;> revert h <;> decide

theorem plain_toStr (n : ℤ) : Plain (toStr n) := by
  unfold toStr
  split
  · intro b hb
    rcases List.mem_cons.mp hb with rfl | hb
    · decide
    · exact plain_decimal _ b hb
  · exact plain_decimal _

namespace Handshake

theorem fullResyncLine_header {id : Bytes} (hid : Plain id) (offset : ℤ) (more : Bytes) :
    fullResyncLine (Server.fullResyncHeader id offset ++ more) = some (id, toStr offset) := by
  have hoff := plain_toStr offset
  unfold Server.fullResyncHeader
  generalize toStr offset = digits at hoff ⊢
  have hblank : find? (ascii " ") (ascii "+FULLRESYNC " ++ id ++ ascii " " ++ digits ++ crlf ++ more) =
      some 11 := by
    have hnot : (32 : UInt8) ∉ ascii "+FULLRESYNC" := by decide
    have h := find?_first 32 [] hnot (id ++ ascii " " ++ digits ++ crlf ++ more)
    simpa [ascii] using h
  have hdrop : (ascii "+FULLRESYNC " ++ id ++ ascii " " ++ digits ++ crlf ++ more).drop 12 =
      id ++ ([32] ++ (digits ++ crlf ++ more)) := by
    simp [ascii]
  have hblank₂ : find? (ascii " ") (id ++ ([32] ++ (digits ++ crlf ++ more))) = some id.length :=
    find?_first 32 [] (fun hmem ↦ (hid 32 hmem).1 rfl) _
  have hstop : find? crlf (ascii "+FULLRESYNC " ++ id ++ ascii " " ++ digits ++ crlf ++ more) =
      some (id.length + digits.length + 13) := by
    have hnot : 13 ∉ ascii "+FULLRESYNC " ++ id ++ ascii " " ++ digits := by
      simp only [List.mem_append, not_or]
      exact ⟨⟨⟨by decide, fun h ↦ (hid 13 h).2.1 rfl⟩, by decide⟩, fun h ↦ (hoff 13 h).2.1 rfl⟩
    have h := find?_first 13 [10] hnot more
    have hlen : (ascii "+FULLRESYNC " ++ id ++ ascii " " ++ digits).length =
        id.length + digits.length + 13 := by
      simp only [List.length_append, show (ascii "+FULLRESYNC ").length = 12 from rfl,
        show (ascii " ").length = 1 from rfl]
      omega
    rw [hlen] at h
    simpa [crlf] using h
  have hrest : (ascii "+FULLRESYNC " ++ id ++ ascii " " ++ digits ++ crlf ++ more).drop
      (id.length + 12 + 1) = digits ++ (crlf ++ more) := by
    rw [show id.length + 12 + 1 = 12 + (id.length + 1) by omega, ← List.drop_drop, hdrop,
      ← List.drop_drop, List.drop_left]
    simp
  simp only [fullResyncLine, hblank, hstop, Option.bind_eq_bind, Option.bind_some, hdrop, hblank₂,
    Option.map_some, hrest]
  rw [if_pos (by omega), show id.length + 12 - 11 - 1 = id.length by omega,
    show id.length + digits.length + 13 - (id.length + 12) - 1 = digits.length by omega,
    List.take_left, List.take_left]

theorem rdbHeader_append {acc : Bytes} {p : ℕ × Bytes} (h : rdbHeader acc = some p)
    (more : Bytes) : rdbHeader (acc ++ more) = some p := by
  unfold rdbHeader at h ⊢
  simp only [Option.bind_eq_bind, Option.bind_eq_some_iff, Option.map_eq_some_iff] at h
  obtain ⟨dollar, hdollar, stop, ⟨i, hi, rfl⟩, hp⟩ := h
  have hle := find?_le hdollar
  have hle' := find?_le hi
  have hone : (ascii "$").length = 1 := rfl
  have htwo : crlf.length = 2 := rfl
  rw [hone] at hle
  rw [htwo, List.length_drop] at hle'
  rw [find?_append more (by decide) hdollar, Option.bind_eq_bind, Option.bind_some,
    List.drop_append_of_le_length (by omega), find?_append more (by decide) hi, Option.map_some,
    Option.bind_some, List.drop_append_of_le_length (by omega),
    List.take_append_of_le_length (by rw [List.length_drop]; omega)]
  exact hp

def rdbStart (header rdb : Bytes) : ℕ := header.length + (decimal rdb.length).length + 3

theorem rdbHeader_reply {header : Bytes} (hh : 36 ∉ header) (rdb tail : Bytes) :
    rdbHeader (header ++ Server.bulkPayload rdb ++ tail) =
      some (rdbStart header rdb, decimal rdb.length) := by
  have hd := plain_decimal rdb.length
  unfold Server.bulkPayload rdbStart
  generalize decimal rdb.length = digits at hd ⊢
  have hdollar : find? (ascii "$")
      (header ++ (ascii "$" ++ digits ++ crlf ++ rdb) ++ tail) = some header.length := by
    have h := find?_first 36 [] hh (digits ++ crlf ++ rdb ++ tail)
    simpa [ascii] using h
  have hdrop : (header ++ (ascii "$" ++ digits ++ crlf ++ rdb) ++ tail).drop header.length =
      (36 :: digits) ++ ((13 :: [10]) ++ (rdb ++ tail)) := by
    rw [List.append_assoc, List.drop_left]
    simp [ascii, crlf]
  have hstop : find? crlf ((36 :: digits) ++ ((13 :: [10]) ++ (rdb ++ tail))) =
      some (digits.length + 1) := by
    refine find?_first 13 [10] ?_ _
    rw [List.mem_cons, not_or]
    exact ⟨by decide, fun h ↦ (hd 13 h).2.1 rfl⟩
  have hdrop' : (header ++ (ascii "$" ++ digits ++ crlf ++ rdb) ++ tail).drop (header.length + 1) =
      digits ++ ((13 :: [10]) ++ (rdb ++ tail)) := by
    rw [← List.drop_drop, hdrop]
    rfl
  simp only [rdbHeader, hdollar, Option.bind_eq_bind, Option.bind_some, hdrop, hstop,
    Option.map_some, hdrop', Option.some.injEq, Prod.mk.injEq]
  refine ⟨by omega, ?_⟩
  rw [show digits.length + 1 + header.length - header.length - 1 = digits.length by omega,
    List.take_left]

theorem toSize_natCast {n : ℕ} (h : n < 2 ^ 64) : toSize n = n := by
  unfold toSize
  rw [Int.emod_eq_of_lt (by omega) (by exact_mod_cast h), Int.toNat_natCast]

theorem length_reply (header rdb : Bytes) :
    (header ++ Server.bulkPayload rdb).length = rdbStart header rdb + rdb.length := by
  simp only [Server.bulkPayload, rdbStart, List.length_append, show (ascii "$").length = 1 from rfl,
    show crlf.length = 2 from rfl]
  omega

theorem drop_reply (header rdb tail : Bytes) :
    (header ++ Server.bulkPayload rdb ++ tail).drop (rdbStart header rdb) = rdb ++ tail := by
  have h : header ++ Server.bulkPayload rdb ++ tail =
      (header ++ ascii "$" ++ decimal rdb.length ++ crlf) ++ (rdb ++ tail) := by
    simp [Server.bulkPayload]
  have hlen : (header ++ ascii "$" ++ decimal rdb.length ++ crlf).length = rdbStart header rdb := by
    simp only [rdbStart, List.length_append, show (ascii "$").length = 1 from rfl,
      show crlf.length = 2 from rfl]
    omega
  rw [h, ← hlen, List.drop_left]

/-- Whatever part of a resync reply has arrived, the receive loop waits for the whole
snapshot and takes exactly it. -/
theorem rdbTake_part {header rdb acc more tail : Bytes} (hh : 36 ∉ header)
    (hheader : header.length < 2 ^ 63 + 100) (hrdb : rdb.length < 2 ^ 31)
    (hacc : acc ++ more = header ++ Server.bulkPayload rdb ++ tail) :
    (rdbTake acc = none ∧ acc.length < (header ++ Server.bulkPayload rdb).length) ∨
      ∃ leftover, rdbTake acc = some (.ok (rdb, leftover)) ∧ leftover ++ more = tail := by
  have hfull := length_reply header rdb
  have hstoi : stoi (decimal rdb.length) = .ok (rdb.length : ℤ) := stoi_decimal hrdb
  have hstart : rdbStart header rdb + rdb.length < 2 ^ 64 := by
    have := decimal_length_le rdb.length
    unfold rdbStart
    omega
  have hsize : toSize ((rdbStart header rdb : ℕ) + (rdb.length : ℤ)) =
      rdbStart header rdb + rdb.length := by
    rw [← Nat.cast_add]
    exact toSize_natCast hstart
  by_cases hle : (header ++ Server.bulkPayload rdb).length ≤ acc.length
  · right
    obtain ⟨leftover, rfl⟩ : ∃ leftover, acc = header ++ Server.bulkPayload rdb ++ leftover := by
      have hp : header ++ Server.bulkPayload rdb <+: acc :=
        List.prefix_of_prefix_length_le ⟨tail, hacc.symm⟩ (List.prefix_append acc more) hle
      obtain ⟨leftover, h⟩ := hp
      exact ⟨leftover, h.symm⟩
    refine ⟨leftover, ?_, by simpa only [List.append_assoc, List.append_cancel_left_eq] using hacc⟩
    have hnot : ¬(header ++ Server.bulkPayload rdb ++ leftover).length <
        rdbStart header rdb + rdb.length := by
      rw [List.length_append]
      omega
    simp only [rdbTake, rdbHeader_reply hh, hstoi, hsize, hnot, if_false, drop_reply,
      toSize_natCast (n := rdb.length) (by omega), List.take_left]
    rw [← List.drop_drop, drop_reply, List.drop_left]
  · left
    refine ⟨?_, by omega⟩
    unfold rdbTake
    cases hr : rdbHeader acc with
    | none => rfl
    | some p =>
      have h := rdbHeader_append hr more
      rw [hacc, rdbHeader_reply hh] at h
      cases h
      simp only [hstoi, hsize]
      rw [if_pos (by omega)]

/-- Any way to cut a resync reply into nonempty pieces yields the snapshot, and leaves
all bytes behind it. -/
theorem readRdb_pieces {header rdb tail : Bytes} (hh : 36 ∉ header)
    (hheader : header.length < 2 ^ 63 + 100) (hrdb : rdb.length < 2 ^ 31) (recvs : List Bytes) (acc : Bytes)
    (hne : ∀ chunk ∈ recvs, chunk ≠ [])
    (hacc : acc ++ recvs.flatten = header ++ Server.bulkPayload rdb ++ tail) :
    ∃ leftover rest, readRdb recvs acc = .ok (rdb, leftover, rest) ∧
      leftover ++ rest.flatten = tail := by
  induction recvs generalizing acc with
  | nil =>
    rcases rdbTake_part hh hheader hrdb hacc with ⟨-, hlt⟩ | ⟨leftover, ht, hl⟩
    · have h := congrArg List.length hacc
      rw [List.length_append, List.flatten_nil, List.length_nil, List.length_append] at h
      omega
    · exact ⟨leftover, [], by simp only [readRdb, ht], hl⟩
  | cons chunk recvs ih =>
    rcases rdbTake_part hh hheader hrdb hacc with ⟨hn, -⟩ | ⟨leftover, ht, hl⟩
    · have hchunk : chunk.isEmpty = false := by
        rw [List.isEmpty_eq_false_iff]
        exact hne chunk (List.mem_cons_self ..)
      simp only [readRdb, hn, hchunk, Bool.false_eq_true, if_false]
      refine ih (acc ++ chunk) (fun c hc ↦ hne c (List.mem_cons_of_mem _ hc)) ?_
      rw [List.append_assoc, ← List.flatten_cons]
      exact hacc
    · exact ⟨leftover, chunk :: recvs, by simp only [readRdb, ht], hl⟩

theorem dollar_not_mem_header {id : Bytes} (hid : Plain id) (offset : ℤ) :
    36 ∉ Server.fullResyncHeader id offset := by
  unfold Server.fullResyncHeader
  simp only [List.mem_append, not_or]
  exact ⟨⟨⟨⟨by decide, fun h ↦ (hid 36 h).2.2 rfl⟩, by decide⟩,
    fun h ↦ (plain_toStr offset 36 h).2.2 rfl⟩, by decide⟩

theorem length_header_lt {id : Bytes} (hid : IsReplid id) {offset : ℤ} (h₀ : 0 ≤ offset)
    (h : offset < 2 ^ 63) : (Server.fullResyncHeader id offset).length < 2 ^ 63 + 100 := by
  have hlen := decimal_length_le offset.natAbs
  have hid := hid.1
  unfold Server.fullResyncHeader toStr
  rw [if_neg (by omega)]
  simp only [List.length_append, show (ascii "+FULLRESYNC ").length = 12 from rfl,
    show (ascii " ").length = 1 from rfl, show crlf.length = 2 from rfl]
  omega

end Handshake

end RedisLite
