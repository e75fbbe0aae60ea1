import RedisLite.Lib.Decode

namespace RedisLite.Lib.Scan

open Decode

variable {β ε α γ : Type}

/-- A position in a buffer, with the indices that have been accessed and the positions so far. -/
structure Cursor where
  pos : ℕ := 0
  reads : List ℕ := []
  trail : List ℕ := []

/-- A computation that moves the cursor and may throw. The buffer itself does not change. -/
def Scanner (ε α : Type) := Cursor → Except ε α × Cursor

instance : Monad (Scanner ε) where
  pure a c := (.ok a, c)
  bind m f c :=
    match m c with
    | (.error e, c) => (.error e, c)
    | (.ok a, c) => f a c

theorem bind_run (m : Scanner ε α) (g : α → Scanner ε γ) (c : Cursor) : (m >>= g) c =
    match m c with
    | (.error e, c) => (.error e, c)
    | (.ok a, c) => g a c := rfl

def throw (e : ε) : Scanner ε α := fun c ↦ (.error e, c)

def need (data : List β) (n : ℕ) (e : ε) : Scanner ε Unit := fun c ↦
  if data.length < c.pos + n then (.error e, c) else (.ok (), c)

def look [Inhabited β] (data : List β) : Scanner ε β := fun c ↦
  (.ok (data.getD c.pos default), { c with reads := c.reads ++ [c.pos] })

def copy (data : List β) (n : ℕ) : Scanner ε (List β) := fun c ↦
  (.ok ((data.drop c.pos).take n), { c with reads := c.reads ++ List.range' c.pos n })

def skip (n : ℕ) : Scanner ε Unit := fun c ↦
  (.ok (), { c with pos := c.pos + n, trail := c.trail ++ [c.pos + n] })

def next [Inhabited β] (data : List β) : Scanner ε β := do
  let b ← look data
  skip 1
  pure b

def nextOr [Inhabited β] (data : List β) (e : ε) : Scanner ε β := do
  need data 1 e
  next data

def takeOr (data : List β) (n : ℕ) (e : ε) : Scanner ε (List β) := do
  need data n e
  let s ← copy data n
  skip n
  pure s

/-- All accesses were within the buffer, and the cursor has never gone back. -/
structure Sound (n : ℕ) (c : Cursor) : Prop where
  reads : ∀ i ∈ c.reads, i < n
  trail : c.trail.Pairwise (· ≤ ·)
  last : ∀ p ∈ c.trail, p ≤ c.pos
  bound : c.pos ≤ n

def decoded (data : List β) : Except ε α × Cursor → Except ε (α × List β)
  | (.error e, _) => .error e
  | (.ok a, c) => .ok (a, data.drop c.pos)

/-- From every position where what is left meets `P`, the scan stays sound and does what the
decoder does with what is left. -/
def Follows (data : List β) (P : List β → Prop) (m : Scanner ε α) (f : Decoder β ε α) : Prop :=
  ∀ c, Sound data.length c → P (data.drop c.pos) →
    Sound data.length (m c).2 ∧ c.pos ≤ (m c).2.pos ∧ f (data.drop c.pos) = decoded data (m c)

variable {data : List β} {P : List β → Prop} {m : Scanner ε α} {f : Decoder β ε α}

namespace Sound

variable {n k : ℕ} {c : Cursor}

theorem read (h : Sound n c) {new : List ℕ} (hnew : ∀ i ∈ new, i < n) :
    Sound n { c with reads := c.reads ++ new } := by
  refine ⟨fun i hi ↦ ?_, h.trail, h.last, h.bound⟩
  rcases List.mem_append.mp hi with hi | hi
  · exact h.reads i hi
  · exact hnew i hi

theorem skip (h : Sound n c) (hk : c.pos + k ≤ n) :
    Sound n { c with pos := c.pos + k, trail := c.trail ++ [c.pos + k] } where
  reads := h.reads
  trail := by
    rw [List.pairwise_append]
    refine ⟨h.trail, List.pairwise_singleton .., fun p hp q hq ↦ ?_⟩
    rw [List.mem_singleton.mp hq]
    exact Nat.le_trans (h.last p hp) (Nat.le_add_right ..)
  last p hp := by
    rcases List.mem_append.mp hp with hp | hp
    · exact Nat.le_trans (h.last p hp) (Nat.le_add_right ..)
    · exact Nat.le_of_eq (List.mem_singleton.mp hp)
  bound := hk

end Sound

theorem follows_pure (a : α) : Follows data P (pure a : Scanner ε α) (fun s ↦ .ok (a, s)) :=
  fun _ hc _ ↦ ⟨hc, Nat.le_refl _, rfl⟩

theorem follows_throw (e : ε) : Follows data P (throw e : Scanner ε α) (fun _ ↦ .error e) :=
  fun _ hc _ ↦ ⟨hc, Nat.le_refl _, rfl⟩

theorem Follows.bind {g : α → Scanner ε γ} {h : α → Decoder β ε γ} (hm : Follows data P m f)
    (hg : ∀ a, Follows data (fun _ ↦ True) (g a) (h a)) :
    Follows data P (m >>= g) (andThen f h) := by
  intro c hc hP
  obtain ⟨hsound, hle, hf⟩ := hm c hc hP
  rw [bind_run, andThen, hf]
  generalize m c = out at hsound hle hf ⊢
  obtain ⟨result, c'⟩ := out
  cases result with
  | error e => exact ⟨hsound, hle, rfl⟩
  | ok a =>
    obtain ⟨hsound', hle', hh⟩ := hg a c' hsound trivial
    exact ⟨hsound', Nat.le_trans hle hle', hh⟩

theorem follows_ite {Q : Prop} [Decidable Q] {m' : Scanner ε α} {f' : Decoder β ε α}
    (h : Follows data P m f) (h' : Follows data P m' f') :
    Follows data P (if Q then m else m') (if Q then f else f') := by
  split
  · exact h
  · exact h'

theorem lt_of_drop_ne_nil {p : ℕ} (h : data.drop p ≠ []) : p < data.length := by
  rw [Ne, List.drop_eq_nil_iff, Nat.not_le] at h
  exact h

theorem need_bind_run (n : ℕ) (e : ε) (g : Unit → Scanner ε α) (c : Cursor) :
    (need data n e >>= g) c =
      if data.length < c.pos + n then (.error e, c) else g () c := by
  rw [bind_run, need]
  by_cases h : data.length < c.pos + n
  · rw [if_pos h, if_pos h]
  · rw [if_neg h, if_neg h]

theorem Sound.look {c : Cursor} (hc : Sound data.length c) (hlt : c.pos < data.length) :
    Sound data.length { c with reads := c.reads ++ [c.pos] } := by
  apply hc.read
  intro i hi
  rw [List.mem_singleton.mp hi]
  exact hlt

theorem follows_next [Inhabited β] (e : ε) : Follows data (· ≠ []) (next data) (one e) := by
  intro c hc hne
  have hlt := lt_of_drop_ne_nil hne
  refine ⟨(hc.look hlt).skip hlt, Nat.le_succ _, ?_⟩
  rw [List.drop_eq_getElem_cons hlt]
  change _ = Except.ok (data.getD c.pos default, _)
  rw [← List.getElem_eq_getD (h := hlt)]
  rfl

theorem follows_nextOr [Inhabited β] (e : ε) : Follows data P (nextOr data e) (one e) := by
  intro c hc _
  rw [nextOr, need_bind_run]
  by_cases hend : data.length < c.pos + 1
  · rw [if_pos hend, List.drop_of_length_le (by omega)]
    exact ⟨hc, Nat.le_refl _, rfl⟩
  · rw [if_neg hend]
    apply follows_next e c hc
    rw [Ne, List.drop_eq_nil_iff]
    omega

theorem follows_takeOr (n : ℕ) (e : ε) : Follows data P (takeOr data n e) (block n e) := by
  intro c hc _
  have hbound := hc.bound
  rw [takeOr, need_bind_run, block, List.length_drop]
  by_cases hend : data.length < c.pos + n
  · rw [if_pos hend, if_pos (by omega)]
    exact ⟨hc, Nat.le_refl _, rfl⟩
  · rw [if_neg hend, if_neg (by omega), List.drop_drop]
    have hread : ∀ i ∈ List.range' c.pos n, i < data.length := by
      intro i hi
      have hmem := List.mem_range'_1.mp hi
      omega
    exact ⟨(hc.read hread).skip (Nat.not_lt.mp hend), Nat.le_add_right .., rfl⟩

theorem follows_peek [Inhabited β] (e : ε) {g : β → Scanner ε α} {h : β → Decoder β ε α}
    (hg : ∀ b, Follows data (· ≠ []) (g b) (h b)) :
    Follows data P (do need data 1 e; let b ← look data; g b) (peek e h) := by
  intro c hc _
  rw [need_bind_run]
  by_cases hend : data.length < c.pos + 1
  · rw [if_pos hend, List.drop_of_length_le (by omega)]
    exact ⟨hc, Nat.le_refl _, rfl⟩
  · have hlt : c.pos < data.length := by omega
    have hcons := List.drop_eq_getElem_cons hlt
    have hne : data.drop c.pos ≠ [] := by
      rw [hcons]
      exact List.cons_ne_nil _ _
    have hpeek : peek e h (data.drop c.pos) =
        h (data.getD c.pos default) (data.drop c.pos) := by
      rw [← List.getElem_eq_getD (h := hlt), hcons]
      rfl
    rw [if_neg hend, hpeek]
    exact hg _ _ (hc.look hlt) hne

theorem follows_skip (e : ε) (h : Follows data (fun _ ↦ True) m f) :
    Follows data (· ≠ []) (do skip 1; m) (andThen (one e) fun _ ↦ f) := by
  intro c hc hne
  have hlt : c.pos + 1 ≤ data.length := lt_of_drop_ne_nil hne
  obtain ⟨hsound, hle, hf⟩ := h _ (hc.skip hlt) trivial
  refine ⟨hsound, Nat.le_trans (Nat.le_succ _) hle, ?_⟩
  rw [List.drop_eq_getElem_cons hlt]
  exact hf

end RedisLite.Lib.Scan
