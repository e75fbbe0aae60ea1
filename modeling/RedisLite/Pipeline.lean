import RedisLite.Resp

namespace RedisLite.Resp

/-- The pipelining loop of `handle_read` over a read buffer: parse a command, erase the
bytes it took, and stop when the parser takes none. -/
def commandLoop : ℕ → Bytes → List (List Bytes) × Bytes
  | 0, readBuf => ([], readBuf)
  | fuel + 1, readBuf =>
    let result := parse readBuf
    if result.bytesConsumed = 0 then ([], readBuf)
    else
      let rest := commandLoop fuel (readBuf.drop result.bytesConsumed)
      (result.args :: rest.1, rest.2)

def readCommands (readBuf : Bytes) : List (List Bytes) × Bytes := commandLoop readBuf.length readBuf

def handleRead (state : List (List Bytes) × Bytes) (chunk : Bytes) : List (List Bytes) × Bytes :=
  let out := readCommands (state.2 ++ chunk)
  (state.1 ++ out.1, out.2)

theorem next_eq_of_parse {buffer : Bytes} (h : (parse buffer).bytesConsumed ≠ 0) :
    next buffer = some ((parse buffer).args, (parse buffer).bytesConsumed) := by
  rw [parse_eq_next] at h ⊢
  cases hn : next buffer with
  | none =>
    rw [hn] at h
    exact absurd rfl h
  | some p => rfl

theorem commandLoop_eq_decodeAll (fuel : ℕ) (readBuf : Bytes) :
    commandLoop fuel readBuf = framing.decodeAll fuel readBuf := by
  induction fuel generalizing readBuf with
  | zero => rfl
  | succ fuel ih =>
    have hdecode : framing.decode readBuf = next readBuf := rfl
    rw [commandLoop, Lib.Framing.decodeAll, hdecode]
    by_cases h : (parse readBuf).bytesConsumed = 0
    · rw [if_pos h, parse_eq_zero.mp h]
    · rw [if_neg h, next_eq_of_parse h]
      simp only [ih]

theorem readCommands_eq_drain (readBuf : Bytes) :
    readCommands readBuf = framing.drain readBuf := commandLoop_eq_decodeAll _ _

theorem handleRead_eq_receive : handleRead = framing.receive := by
  funext state chunk
  simp only [handleRead, Lib.Framing.receive, readCommands_eq_drain]

theorem decode_pos : ∀ buf args n, framing.decode buf = some (args, n) → 0 < n :=
  fun _ _ _ h ↦ next_pos h

/-- A command that has been parsed is parsed the same way when more bytes arrive. -/
theorem parse_append {buffer : Bytes} (h : (parse buffer).bytesConsumed ≠ 0) (more : Bytes) :
    parse (buffer ++ more) = parse buffer := by
  have hn := framing.decode_append buffer more _ _ (next_eq_of_parse h)
  change next (buffer ++ more) = _ at hn
  rw [parse_eq_next, hn]

theorem parse_le (buffer : Bytes) : (parse buffer).bytesConsumed ≤ buffer.length := by
  by_cases h : (parse buffer).bytesConsumed = 0
  · omega
  · exact framing.decode_le buffer _ _ (next_eq_of_parse h)

/-- What is extracted from a stream does not depend on where it is cut. The loop comes to
its end on every buffer, with the parser taking nothing from what is left, and no command
changes when more bytes arrive. -/
theorem extraction_ignores_cuts :
    (∀ chunks : List Bytes, chunks.foldl handleRead ([], []) = readCommands chunks.flatten) ∧
    (∀ readBuf fuel, readBuf.length ≤ fuel → commandLoop fuel readBuf = readCommands readBuf) ∧
    (∀ readBuf, (parse (readCommands readBuf).2).bytesConsumed = 0) ∧
    (∀ readBuf more, (parse readBuf).bytesConsumed ≠ 0 →
      parse (readBuf ++ more) = parse readBuf) ∧
    ∀ readBuf, (parse readBuf).bytesConsumed ≤ readBuf.length := by
  refine ⟨fun chunks ↦ ?_, fun readBuf fuel hfuel ↦ ?_, fun readBuf ↦ ?_,
    fun readBuf more h ↦ parse_append h more, parse_le⟩
  · rw [handleRead_eq_receive, framing.foldl_receive decode_pos chunks [] framing.decode_nil,
      readCommands_eq_drain]
    rfl
  · rw [readCommands, commandLoop_eq_decodeAll, commandLoop_eq_decodeAll,
      framing.decodeAll_fuel decode_pos hfuel (Nat.le_refl _)]
  · rw [parse_eq_zero, readCommands_eq_drain]
    exact framing.decode_drain decode_pos readBuf

/-- A cut inside a length header and one between `\r` and `\n`. -/
theorem extraction_ignores_two_cuts :
    [ascii "*1\r\n$", ascii "4\r", ascii "\nPING\r\n*"].foldl handleRead ([], []) =
      ([[ascii "PING"]], ascii "*") := by
  rw [extraction_ignores_cuts.1]
  decide

end RedisLite.Resp
