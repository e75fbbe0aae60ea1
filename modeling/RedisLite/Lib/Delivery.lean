import RedisLite.Lib.Framing

namespace RedisLite.Lib.Framing

open scoped List

variable {α β : Type} (F : Framing α β) {sent done : List α} {arrived rest : List β} {a : α} {n : ℕ}

/-- The receiver's end of a stream of words: of the bytes that have arrived, the words `done`
have been read and `rest` is still in the buffer. -/
structure Delivery (sent : List α) (arrived : List β) (done : List α) (rest : List β) : Prop where
  split : F.stream done ++ rest = arrived
  words : done <+: sent
  bytes : arrived <+: F.stream sent

namespace Delivery

theorem start (sent : List α) (h : rest <+: F.stream sent) : F.Delivery sent rest [] rest :=
  ⟨rfl, List.nil_prefix, h⟩

variable {F}

theorem send (h : F.Delivery sent arrived done rest) (more : List α) :
    F.Delivery (sent ++ more) arrived done rest := by
  refine ⟨h.split, h.words.trans (List.prefix_append ..), h.bytes.trans ?_⟩
  rw [stream_append]
  exact List.prefix_append ..

theorem arrive (h : F.Delivery sent arrived done rest) {chunk : List β}
    (hp : arrived ++ chunk <+: F.stream sent) :
    F.Delivery sent (arrived ++ chunk) done (rest ++ chunk) :=
  ⟨by rw [← List.append_assoc, h.split], h.words, hp⟩

/-- The next word that can be read is the next word that was sent. -/
theorem next (h : F.Delivery sent arrived done rest) (hv : ∀ a ∈ sent, F.Valid a)
    (hd : F.decode rest = some (a, n)) :
    n = (F.encode a).length ∧ F.Delivery sent arrived (done ++ [a]) (rest.drop n) := by
  obtain ⟨todo, rfl⟩ := h.words
  obtain ⟨inflight, hbytes⟩ := h.bytes
  have hstream : rest ++ inflight = F.stream todo := by
    rw [← h.split, stream_append, List.append_assoc, List.append_cancel_left_eq] at hbytes
    exact hbytes
  rcases F.decode_stream (fun a ha ↦ hv a (List.mem_append_right _ ha)) hstream with
    hnone | ⟨b, todo', rfl, hb, -⟩
  · rw [hnone] at hd
    cases hd
  · rw [hb] at hd
    cases hd
    have hle := F.decode_le rest a _ hb
    have htake : rest.take (F.encode a).length = F.encode a := by
      have htake := congrArg (List.take (F.encode a).length) hstream
      rw [List.take_append_of_le_length hle, stream_cons, List.take_left] at htake
      exact htake
    refine ⟨rfl, ?_, ⟨todo', by simp⟩, h.bytes⟩
    rw [← h.split, stream_append, stream_cons, stream_nil, List.append_nil, List.append_assoc]
    congr 1
    nth_rewrite 1 [← htake]
    exact List.take_append_drop ..

theorem done_eq (h : F.Delivery sent arrived done []) (hall : arrived = F.stream sent)
    (hne : ∀ a, F.encode a ≠ []) : done = sent := by
  obtain ⟨todo, rfl⟩ := h.words
  have hnil : F.stream todo = [] := by
    have hsplit := h.split
    rw [hall, List.append_nil, stream_append] at hsplit
    exact List.self_eq_append_right.mp hsplit
  cases todo with
  | nil => rw [List.append_nil]
  | cons a todo => exact absurd (List.append_eq_nil_iff.mp hnil).1 (hne a)

end Delivery

/-- What a receiver takes off the wire next lies in the stream, as the wire does. -/
theorem prefix_take_next {wire total received : List β} (hr : received <+: total)
    (hw : wire <+: total) (k : ℕ) : received ++ (wire.drop received.length).take k <+: total := by
  rcases Nat.le_total received.length wire.length with hle | hle
  · obtain ⟨more, rfl⟩ := List.prefix_of_prefix_length_le hr hw hle
    rw [List.drop_left]
    exact ((List.prefix_append_right_inj received).mpr (List.take_prefix k more)).trans hw
  · rw [List.drop_eq_nil_of_le hle, List.take_nil, List.append_nil]
    exact hr

end RedisLite.Lib.Framing
