import Mathlib.Data.List.Basic

namespace RedisLite.Lib

variable {α β : Type}

/-- A code whose words announce their own end: a decoder reads one word off the
front of a buffer, or waits when the buffer holds only part of one. -/
structure Framing (α β : Type) where
  Valid : α → Prop
  encode : α → List β
  decode : List β → Option (α × ℕ)
  decode_encode : ∀ a rest, Valid a →
    decode (encode a ++ rest) = some (a, (encode a).length)
  decode_append : ∀ buf rest a n, decode buf = some (a, n) → decode (buf ++ rest) = some (a, n)
  decode_le : ∀ buf a n, decode buf = some (a, n) → n ≤ buf.length
  decode_nil : decode [] = none

namespace Framing

variable (F : Framing α β)

def stream (as : List α) : List β := as.flatMap F.encode

@[simp] theorem stream_nil : F.stream [] = [] := rfl

@[simp] theorem stream_cons (a : α) (as : List α) :
    F.stream (a :: as) = F.encode a ++ F.stream as := rfl

@[simp] theorem stream_append (as bs : List α) :
    F.stream (as ++ bs) = F.stream as ++ F.stream bs := List.flatMap_append

theorem decode_prefix {a : α} (ha : F.Valid a) {buf rest : List β} {b : α} {n : ℕ}
    (hw : ∃ more, buf ++ rest = F.encode a ++ more) (hd : F.decode buf = some (b, n)) :
    b = a ∧ n = (F.encode a).length := by
  obtain ⟨more, hw⟩ := hw
  have h := F.decode_append buf rest b n hd
  rw [hw, F.decode_encode a more ha] at h
  have he := Option.some.inj h
  exact ⟨(congrArg Prod.fst he).symm, (congrArg Prod.snd he).symm⟩

/-- A receiver that holds the first part of a stream of words decodes the first
word as soon as all of it has arrived, and nothing before that. -/
theorem decode_stream {as : List α} (hv : ∀ a ∈ as, F.Valid a) {buf inflight : List β}
    (hs : buf ++ inflight = F.stream as) :
    F.decode buf = none ∨ ∃ a as', as = a :: as' ∧ F.decode buf = some (a, (F.encode a).length) ∧
      buf.drop (F.encode a).length ++ inflight = F.stream as' := by
  cases hd : F.decode buf with
  | none => exact .inl rfl
  | some p =>
    obtain ⟨b, n⟩ := p
    cases as with
    | nil =>
      obtain ⟨hb, _⟩ := List.append_eq_nil_iff.mp hs
      rw [hb, F.decode_nil] at hd
      cases hd
    | cons a as =>
      have ha := hv a (List.mem_cons_self ..)
      obtain ⟨rfl, rfl⟩ := F.decode_prefix ha ⟨F.stream as, hs⟩ hd
      have hle := F.decode_le buf b _ hd
      refine .inr ⟨b, as, rfl, rfl, ?_⟩
      have h := congrArg (List.drop (F.encode b).length) hs
      rw [List.drop_append_of_le_length hle] at h
      rw [h, stream_cons, List.drop_left]

def decodeAll : ℕ → List β → List α × List β
  | 0, buf => ([], buf)
  | fuel + 1, buf =>
    match F.decode buf with
    | none => ([], buf)
    | some (a, n) =>
      let out := decodeAll fuel (buf.drop n)
      (a :: out.1, out.2)

theorem decodeAll_stream (as : List α) (hv : ∀ a ∈ as, F.Valid a) (fuel : ℕ)
    (hf : as.length ≤ fuel) : F.decodeAll fuel (F.stream as) = (as, []) := by
  induction as generalizing fuel with
  | nil =>
    cases fuel with
    | zero => rfl
    | succ fuel => simp only [decodeAll, stream_nil, F.decode_nil]
  | cons a as ih =>
    cases fuel with
    | zero => simp only [List.length_cons, Nat.le_zero_eq, Nat.add_one_ne_zero] at hf
    | succ fuel =>
      have ht := ih (fun b hb ↦ hv b (List.mem_cons_of_mem a hb)) fuel
        (by simpa only [List.length_cons, Nat.add_le_add_iff_right] using hf)
      simp only [decodeAll, stream_cons, F.decode_encode a _ (hv a (List.mem_cons_self ..)),
        List.drop_left, ht]

theorem length_le_stream (as : List α) (hne : ∀ a, F.encode a ≠ []) :
    as.length ≤ (F.stream as).length := by
  induction as with
  | nil => exact Nat.zero_le _
  | cons a as ih =>
    have ha := List.length_pos_iff.mpr (hne a)
    simp only [stream_cons, List.length_cons, List.length_append]
    omega

def drain (buf : List β) : List α × List β := F.decodeAll buf.length buf

/-- A receiver keeps what it cannot read yet and goes on when the next chunk is there. -/
def receive (state : List α × List β) (chunk : List β) : List α × List β :=
  (state.1 ++ (F.drain (state.2 ++ chunk)).1, (F.drain (state.2 ++ chunk)).2)

/-- The words `done` have been read off what was heard, and `buf` is left to be read. -/
def Reads (heard : List β) (done : List α) (buf : List β) : Prop :=
  F.drain heard = (done ++ (F.drain buf).1, (F.drain buf).2)

theorem Reads.refl (buf : List β) : F.Reads buf [] buf := rfl

section Productive

variable (hpos : ∀ buf a n, F.decode buf = some (a, n) → 0 < n)

include hpos

/-- No word is empty, so the length of the buffer is fuel enough. -/
theorem decodeAll_fuel {fuel fuel' : ℕ} {buf : List β} (h : buf.length ≤ fuel)
    (h' : buf.length ≤ fuel') : F.decodeAll fuel buf = F.decodeAll fuel' buf := by
  induction fuel generalizing fuel' buf with
  | zero =>
    have hnil : buf = [] := List.length_eq_zero_iff.mp (Nat.le_zero.mp h)
    subst hnil
    cases fuel' with
    | zero => rfl
    | succ fuel' => simp only [decodeAll, F.decode_nil]
  | succ fuel ih =>
    cases fuel' with
    | zero =>
      have hnil : buf = [] := List.length_eq_zero_iff.mp (Nat.le_zero.mp h')
      subst hnil
      simp only [decodeAll, F.decode_nil]
    | succ fuel' =>
      simp only [decodeAll]
      cases hd : F.decode buf with
      | none => rfl
      | some p =>
        obtain ⟨a, n⟩ := p
        have hn := hpos buf a n hd
        have hle : (buf.drop n).length ≤ fuel ∧ (buf.drop n).length ≤ fuel' := by
          rw [List.length_drop]
          omega
        simp only [ih hle.1 hle.2]

theorem drain_of_none {buf : List β} (h : F.decode buf = none) : F.drain buf = ([], buf) := by
  rw [drain, F.decodeAll_fuel hpos (Nat.le_refl _) (Nat.le_succ _)]
  simp only [decodeAll, h]

theorem drain_of_some {buf : List β} {a : α} {n : ℕ} (h : F.decode buf = some (a, n)) :
    F.drain buf = (a :: (F.drain (buf.drop n)).1, (F.drain (buf.drop n)).2) := by
  have hlen : (buf.drop n).length ≤ buf.length := by
    rw [List.length_drop]
    exact Nat.sub_le _ _
  rw [drain, F.decodeAll_fuel hpos (Nat.le_refl _) (Nat.le_succ _), decodeAll, h]
  simp only [drain, F.decodeAll_fuel hpos hlen (Nat.le_refl _)]

theorem decode_drain (buf : List β) : F.decode (F.drain buf).2 = none := by
  induction hlen : buf.length using Nat.strongRecOn generalizing buf with
  | _ len ih =>
    cases hd : F.decode buf with
    | none =>
      rw [F.drain_of_none hpos hd]
      exact hd
    | some p =>
      obtain ⟨a, n⟩ := p
      have hn := hpos buf a n hd
      have hle := F.decode_le buf a n hd
      rw [F.drain_of_some hpos hd]
      refine ih (buf.drop n).length ?_ (buf.drop n) rfl
      rw [List.length_drop]
      omega

/-- A cut in the stream is not seen: what is left of the first part waits for the second. -/
theorem drain_append (buf more : List β) : F.drain (buf ++ more) =
    ((F.drain buf).1 ++ (F.drain ((F.drain buf).2 ++ more)).1,
      (F.drain ((F.drain buf).2 ++ more)).2) := by
  induction hlen : buf.length using Nat.strongRecOn generalizing buf with
  | _ len ih =>
    cases hd : F.decode buf with
    | none =>
      rw [F.drain_of_none hpos hd]
      rfl
    | some p =>
      obtain ⟨a, n⟩ := p
      have hn := hpos buf a n hd
      have hle := F.decode_le buf a n hd
      have hlt : (buf.drop n).length < len := by
        rw [List.length_drop]
        omega
      rw [F.drain_of_some hpos (F.decode_append buf more a n hd), F.drain_of_some hpos hd,
        List.drop_append_of_le_length hle, ih _ hlt (buf.drop n) rfl]
      rfl

theorem Reads.append {heard buf : List β} {done : List α} (h : F.Reads heard done buf)
    (more : List β) : F.Reads (heard ++ more) done (buf ++ more) := by
  rw [Reads, F.drain_append hpos heard, h, F.drain_append hpos buf, List.append_assoc]

theorem Reads.next {heard buf : List β} {done : List α} {a : α} {n : ℕ}
    (h : F.Reads heard done buf) (hd : F.decode buf = some (a, n)) :
    F.Reads heard (done ++ [a]) (buf.drop n) := by
  rw [Reads, h, F.drain_of_some hpos hd, List.append_assoc, List.singleton_append]

theorem Reads.drain_eq {heard buf : List β} {done : List α} (h : F.Reads heard done buf)
    (hd : F.decode buf = none) : F.drain heard = (done, buf) := by
  rw [h, F.drain_of_none hpos hd, List.append_nil]

/-- From a part of a stream a receiver reads the first of its words. -/
theorem drain_part {as : List α} (hv : ∀ a ∈ as, F.Valid a) (hne : ∀ a, F.encode a ≠ [])
    {buf more : List β} (h : buf ++ more = F.stream as) : ∃ rest, (F.drain buf).1 ++ rest = as := by
  have hall : F.drain (F.stream as) = (as, []) :=
    F.decodeAll_stream as hv _ (F.length_le_stream as hne)
  rw [← h, F.drain_append hpos] at hall
  exact ⟨_, congrArg Prod.fst hall⟩

theorem foldl_receive (chunks : List (List β)) (as : List α) {buf : List β}
    (h : F.decode buf = none) : chunks.foldl F.receive (as, buf) =
      (as ++ (F.drain (buf ++ chunks.flatten)).1, (F.drain (buf ++ chunks.flatten)).2) := by
  induction chunks generalizing as buf with
  | nil => simp only [List.foldl_nil, List.flatten_nil, List.append_nil, F.drain_of_none hpos h]
  | cons chunk chunks ih =>
    rw [List.foldl_cons, receive, ih _ (F.decode_drain hpos _), List.flatten_cons,
      ← List.append_assoc, F.drain_append hpos (buf ++ chunk), List.append_assoc]

end Productive

end Framing

end RedisLite.Lib
