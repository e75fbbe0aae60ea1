import RedisLite.Resp

namespace RedisLite.Resp

open Lib.Numerals

/-- What may stand in the places of a command: as a number, behind the `\r` of a number and behind
the body of a bulk string. -/
structure Dialect where
  number : Bytes → ℕ → Prop
  lineEnd : UInt8 → Prop
  bodyEnd : Bytes → Prop

namespace Dialect

/-- The grammar of RESP: digits, and `\r\n` at each end. -/
def resp : Dialect where
  number text n := text ≠ [] ∧ (∀ b ∈ text, isDigit b = true) ∧ digitsValue text = n ∧ n < 2 ^ 31
  lineEnd b := b = 10
  bodyEnd s := s = crlf

/-- What the parser reads: whatever `std::stoi` makes a number of, and bytes that are skipped. -/
def skipped : Dialect where
  number text n := 13 ∉ text ∧ stoi text = .ok (n : ℤ)
  lineEnd _ := True
  bodyEnd s := s.length = 2

variable (d : Dialect)

def Header (n : ℕ) (s : Bytes) : Prop :=
  ∃ text b, s = text ++ [13, b] ∧ d.number text n ∧ d.lineEnd b

def Element (s : Bytes) : Prop :=
  ∃ header body tail, s = 36 :: (header ++ body ++ tail) ∧ d.Header body.length header ∧
    d.bodyEnd tail

def Command (s : Bytes) : Prop :=
  ∃ header, ∃ elements : List Bytes, s = 42 :: (header ++ elements.flatten) ∧
    d.Header elements.length header ∧ ∀ e ∈ elements, d.Element e

end Dialect

open Dialect

theorem number_skipped {text : Bytes} {n : ℕ} (h : Dialect.resp.number text n) :
    skipped.number text n := by
  obtain ⟨hne, hdigits, hvalue, hlt⟩ := h
  refine ⟨fun hmem ↦ absurd (hdigits 13 hmem) (by decide), ?_⟩
  have hn : (n : ℤ) < 2 ^ 31 := by exact_mod_cast hlt
  rw [stoi, convert, strtol_digits hne hdigits, hvalue]
  exact if_pos ⟨by omega, hn⟩

theorem header_skipped {n : ℕ} {s : Bytes} (h : Dialect.resp.Header n s) : skipped.Header n s := by
  obtain ⟨text, b, rfl, hnumber, -⟩ := h
  exact ⟨text, b, rfl, number_skipped hnumber, trivial⟩

theorem command_skipped {s : Bytes} (h : Dialect.resp.Command s) : skipped.Command s := by
  obtain ⟨header, elements, rfl, hheader, helements⟩ := h
  refine ⟨header, elements, rfl, header_skipped hheader, fun e he ↦ ?_⟩
  obtain ⟨header, body, tail, rfl, hheader, htail⟩ := helements e he
  have htail : tail = crlf := htail
  refine ⟨header, body, tail, rfl, header_skipped hheader, ?_⟩
  rw [htail]
  rfl

theorem parseHeader_iff {s rest : Bytes} {n : ℕ} :
    parseHeader s = some (n, rest) ↔ ∃ header, s = header ++ rest ∧ skipped.Header n header := by
  rw [parseHeader_eq_some]
  constructor
  · rintro ⟨hlen, hn, hrest⟩
    have hsplit := List.takeWhile_append_dropWhile (p := (· != (13 : UInt8))) (l := s)
    have htext : (13 : UInt8) ∉ s.takeWhile (· != 13) := by
      intro hmem
      have hne := List.mem_takeWhile_imp hmem
      exact absurd hne (by decide)
    match hd : s.dropWhile (· != 13), hlen with
    | a :: b :: tail, _ =>
      have ha : a = 13 := by
        have hne : s.dropWhile (· != 13) ≠ [] := by
          rw [hd]
          exact List.cons_ne_nil _ _
        have hhead := List.head_dropWhile_not (· != (13 : UInt8)) hne
        simpa [hd] using hhead
      subst ha
      rw [hd] at hsplit hrest
      refine ⟨s.takeWhile (· != 13) ++ [13, b], ?_, s.takeWhile (· != 13), b, rfl,
        ⟨htext, hn⟩, trivial⟩
      rw [hrest, List.append_assoc]
      exact hsplit.symm
  · rintro ⟨header, rfl, text, b, rfl, ⟨htext, hn⟩, -⟩
    have hbytes : ∀ x ∈ text, (x != 13) = true := by
      intro x hx
      rw [bne_iff_ne]
      rintro rfl
      exact htext hx
    have htake : (text ++ [13, b] ++ rest).takeWhile (· != 13) = text := by
      rw [List.append_assoc, List.takeWhile_append_of_pos hbytes]
      simp
    have hdrop : (text ++ [13, b] ++ rest).dropWhile (· != 13) = 13 :: b :: rest := by
      rw [List.append_assoc, List.dropWhile_append_of_pos hbytes]
      simp
    rw [htake, hdrop]
    exact ⟨by simp, hn, rfl⟩

theorem elements_of_parseArgs {count : ℕ} {s rest : Bytes} {args : List Bytes}
    (h : parseArgs count s = some (args, rest)) : ∃ elements : List Bytes,
      s = elements.flatten ++ rest ∧ elements.length = count ∧
      ∀ e ∈ elements, skipped.Element e := by
  induction count generalizing s args with
  | zero =>
    simp only [parseArgs, Option.some.injEq, Prod.mk.injEq] at h
    exact ⟨[], h.2, rfl, by simp⟩
  | succ count ih =>
    obtain ⟨t, strLen, body, args', rfl, hread, hlen, hargs, -⟩ := parseArgs_succ.mp h
    obtain ⟨header, rfl, hheader⟩ := parseHeader_iff.mp hread
    obtain ⟨elements, hrest, hcount, helements⟩ := ih hargs
    have htake : (body.take strLen).length = strLen := List.length_take_of_le (by omega)
    have htail : ((body.drop strLen).take 2).length = 2 := by
      rw [List.length_take, List.length_drop]
      omega
    have hbody : body = body.take strLen ++ ((body.drop strLen).take 2 ++
        body.drop (strLen + 2)) := by
      rw [← List.drop_drop, List.take_append_drop, List.take_append_drop]
    refine ⟨(36 :: (header ++ body.take strLen ++ (body.drop strLen).take 2)) :: elements, ?_,
      by rw [List.length_cons, hcount], List.forall_mem_cons.mpr ⟨?_, helements⟩⟩
    · rw [List.flatten_cons, List.append_assoc, ← hrest]
      nth_rewrite 1 [hbody]
      simp only [List.cons_append, List.append_assoc]
    · exact ⟨header, _, _, rfl, by rwa [htake], htail⟩

theorem parseArgs_elements {elements : List Bytes} (h : ∀ e ∈ elements, skipped.Element e)
    (rest : Bytes) : ∃ args, parseArgs elements.length (elements.flatten ++ rest) =
      some (args, rest) := by
  induction elements with
  | nil => exact ⟨[], rfl⟩
  | cons e elements ih =>
    obtain ⟨args, hargs⟩ := ih (fun e he ↦ h e (List.mem_cons_of_mem _ he))
    obtain ⟨header, body, tail, rfl, hheader, htail⟩ := h e (List.mem_cons_self ..)
    have htail : tail.length = 2 := htail
    have hread : parseHeader (header ++ (body ++ (tail ++ (elements.flatten ++ rest)))) =
        some (body.length, body ++ (tail ++ (elements.flatten ++ rest))) :=
      parseHeader_iff.mpr ⟨header, rfl, hheader⟩
    refine ⟨body :: args, parseArgs_succ.mpr ⟨_, body.length, _, args, ?_, hread, ?_, ?_, ?_⟩⟩
    · simp only [List.flatten_cons, List.cons_append, List.append_assoc]
    · simp only [List.length_append]
      omega
    · rw [← List.drop_drop, List.drop_left, ← htail, List.drop_left]
      exact hargs
    · rw [List.take_left]

/-- The parser takes exactly the commands of the wider dialect. -/
theorem parse_iff_skipped {buffer : Bytes} {n : ℕ} (hn : 0 < n) :
    (parse buffer).bytesConsumed = n ↔
      ∃ command, command <+: buffer ∧ command.length = n ∧ skipped.Command command := by
  constructor
  · intro h
    cases hparse : parseArray buffer with
    | none =>
      rw [parse, hparse] at h
      exact absurd h.symm hn.ne'
    | some r =>
      obtain ⟨args, rest⟩ := r
      rw [parse, hparse] at h
      obtain ⟨t, count, body, rfl, hread, hargs⟩ := parseArray_eq_some.mp hparse
      obtain ⟨header, rfl, hheader⟩ := parseHeader_iff.mp hread
      obtain ⟨elements, rfl, rfl, helements⟩ := elements_of_parseArgs hargs
      refine ⟨42 :: (header ++ elements.flatten), ⟨rest, ?_⟩, ?_,
        header, elements, rfl, hheader, helements⟩
      · rw [List.cons_append, List.append_assoc]
      · simp only [List.length_cons, List.length_append] at h ⊢
        omega
  · rintro ⟨command, ⟨rest, rfl⟩, rfl, header, elements, rfl, hheader, helements⟩
    obtain ⟨args, hargs⟩ := parseArgs_elements helements rest
    have hparse : parseArray (42 :: (header ++ elements.flatten) ++ rest) = some (args, rest) := by
      refine parseArray_eq_some.mpr ⟨_, elements.length, _, rfl,
        parseHeader_iff.mpr ⟨header, ?_, hheader⟩, hargs⟩
      exact List.append_assoc ..
    rw [parse, hparse]
    change _ - _ = _
    rw [List.length_append, Nat.add_sub_cancel]

/-- The parser takes exactly the commands of the grammar from a buffer if and only if what it
takes there has digits only in its numbers, `\n` behind each `\r` of a number and `\r\n` behind
each body. -/
theorem parse_grammar_iff (buffer : Bytes) :
    (∀ n, 0 < n → ((parse buffer).bytesConsumed = n ↔ ∃ command, command <+: buffer ∧
      command.length = n ∧ Dialect.resp.Command command)) ↔
    ∀ command, command <+: buffer → skipped.Command command → Dialect.resp.Command command := by
  constructor
  · intro h command hpre hcommand
    have hpos : 0 < command.length := by
      obtain ⟨header, elements, rfl, -⟩ := hcommand
      exact Nat.succ_pos _
    have htaken := (parse_iff_skipped hpos).mpr ⟨command, hpre, rfl, hcommand⟩
    obtain ⟨command', hpre', hlen, hcommand'⟩ := (h _ hpos).mp htaken
    rw [(List.prefix_of_prefix_length_le hpre hpre' hlen.ge).eq_of_length hlen.symm]
    exact hcommand'
  · intro h n hn
    rw [parse_iff_skipped hn]
    constructor
    · rintro ⟨command, hpre, hlen, hcommand⟩
      exact ⟨command, hpre, hlen, h command hpre hcommand⟩
    · rintro ⟨command, hpre, hlen, hcommand⟩
      exact ⟨command, hpre, hlen, command_skipped hcommand⟩

theorem Dialect.Command.ends {s : Bytes} (h : Dialect.resp.Command s) : crlf <:+ s := by
  obtain ⟨header, elements, rfl, ⟨text, b, rfl, -, hb⟩, helements⟩ := h
  have hb : b = 10 := hb
  rcases List.eq_nil_or_concat elements with rfl | ⟨elements, e, rfl⟩
  · exact ⟨42 :: text, by rw [hb]; simp [crlf]⟩
  · obtain ⟨header, body, tail, rfl, -, htail⟩ := helements e (by simp)
    have htail : tail = crlf := htail
    exact ⟨42 :: (text ++ [13, b] ++ elements.flatten ++ 36 :: (header ++ body)), by simp [htail]⟩

/-- A body without `\r\n` behind it is taken as a command, with the two bytes that stand there. -/
theorem parse_takes_unfinished_body :
    (parse (ascii "*1\r\n$4\r\nPINGxx")).bytesConsumed = 14 ∧
      ¬ Dialect.resp.Command (ascii "*1\r\n$4\r\nPINGxx") := by
  refine ⟨by decide +kernel, fun h ↦ ?_⟩
  have hend := h.ends
  revert hend
  decide +kernel

end RedisLite.Resp
