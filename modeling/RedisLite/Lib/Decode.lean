import Mathlib.Data.List.Basic

namespace RedisLite.Lib.Decode

variable {β ε α γ : Type}

/-- A decoder takes what it understands off the front of its input. -/
abbrev Decoder (β ε α : Type) := List β → Except ε (α × List β)

def andThen (f : Decoder β ε α) (g : α → Decoder β ε γ) : Decoder β ε γ := fun s ↦
  match f s with
  | .error e => .error e
  | .ok (a, rest) => g a rest

theorem andThen_eq_ok {f : Decoder β ε α} {g : α → Decoder β ε γ} {s : List β}
    {r : γ × List β} (h : andThen f g s = .ok r) : ∃ a rest, f s = .ok (a, rest) ∧
      g a rest = .ok r := by
  rw [andThen] at h
  split at h
  · cases h
  · next a rest hok => exact ⟨a, rest, hok, h⟩

theorem andThen_of_ok {f : Decoder β ε α} {g : α → Decoder β ε γ} {s rest : List β} {a : α}
    (h : f s = .ok (a, rest)) : andThen f g s = g a rest := by
  rw [andThen, h]

theorem andThen_assoc {δ : Type} (f : Decoder β ε α) (g : α → Decoder β ε γ)
    (h : γ → Decoder β ε δ) : andThen (andThen f g) h = andThen f (fun a ↦ andThen (g a) h) := by
  funext s
  unfold andThen
  cases f s <;> rfl

def block (n : ℕ) (e : ε) : Decoder β ε (List β) := fun s ↦
  if s.length < n then .error e else .ok (s.take n, s.drop n)

def one (e : ε) : Decoder β ε β
  | [] => .error e
  | b :: s => .ok (b, s)

/-- A decoder that is chosen by the next element and finds it in its input. -/
def peek (e : ε) (g : β → Decoder β ε α) : Decoder β ε α
  | [] => .error e
  | b :: s => g b (b :: s)

def many (f : Decoder β ε α) : ℕ → Decoder β ε (List α)
  | 0 => fun s ↦ .ok ([], s)
  | n + 1 => andThen f (fun a ↦ andThen (many f n) (fun as s ↦ .ok (a :: as, s)))

theorem block_append {e : ε} (data rest : List β) :
    block data.length e (data ++ rest) = .ok (data, rest) := by
  rw [block, if_neg (by rw [List.length_append]; omega), List.take_left, List.drop_left]

theorem many_encode (encode : α → List β) (f : Decoder β ε α) (as : List α) (rest : List β)
    (h : ∀ a ∈ as, ∀ rest, f (encode a ++ rest) = .ok (a, rest)) :
    many f as.length (as.flatMap encode ++ rest) = .ok (as, rest) := by
  induction as with
  | nil => rfl
  | cons a as ih =>
    have htail := ih (fun b hb ↦ h b (List.mem_cons_of_mem a hb))
    rw [List.length_cons, many, List.flatMap_cons, List.append_assoc,
      andThen_of_ok (h a (List.mem_cons_self ..) _), andThen_of_ok htail]

/-- More input behind does not change what has been decoded. -/
def Stable (f : Decoder β ε α) : Prop :=
  ∀ s a rest more, f s = .ok (a, rest) → f (s ++ more) = .ok (a, rest ++ more)

theorem stable_ok (a : α) : Stable (fun s ↦ .ok (a, s) : Decoder β ε α) := by
  intro s b rest more h
  cases h
  rfl

theorem stable_error (e : ε) : Stable (fun _ ↦ .error e : Decoder β ε α) := by
  intro s b rest more h
  cases h

theorem stable_block (n : ℕ) (e : ε) : Stable (block n e : Decoder β ε (List β)) := by
  intro s a rest more h
  rw [block] at h
  split at h
  · cases h
  · next hlen =>
    cases h
    rw [Nat.not_lt] at hlen
    rw [block, if_neg (by rw [List.length_append]; omega), List.take_append_of_le_length hlen,
      List.drop_append_of_le_length hlen]

theorem stable_one (e : ε) : Stable (one e : Decoder β ε β) := by
  intro s a rest more h
  cases s with
  | nil => cases h
  | cons b s =>
    cases h
    rfl

theorem stable_peek (e : ε) {g : β → Decoder β ε α} (hg : ∀ b, Stable (g b)) :
    Stable (peek e g) := by
  intro s a rest more h
  cases s with
  | nil => cases h
  | cons b s => exact hg b (b :: s) a rest more h

theorem stable_ite {P : Prop} [Decidable P] {f g : Decoder β ε α} (hf : Stable f)
    (hg : Stable g) : Stable (if P then f else g) := by
  split
  · exact hf
  · exact hg

theorem Stable.andThen {f : Decoder β ε α} {g : α → Decoder β ε γ} (hf : Stable f)
    (hg : ∀ a, Stable (g a)) : Stable (andThen f g) := by
  intro s c rest more h
  rw [Decode.andThen] at h
  split at h
  · cases h
  · next a rest' hok =>
    rw [Decode.andThen, hf s a rest' more hok]
    exact hg a rest' c rest more h

theorem stable_many {f : Decoder β ε α} (hf : Stable f) (n : ℕ) : Stable (many f n) := by
  induction n with
  | zero => exact stable_ok _
  | succ n ih => exact hf.andThen (fun _ ↦ ih.andThen (fun _ ↦ stable_ok _))

theorem Stable.error_of_part {f : Decoder β ε α} (hf : Stable f) {part more : List β} {a : α}
    (hwhole : f (part ++ more) = .ok (a, [])) (hne : more ≠ []) : ∃ e, f part = .error e := by
  cases hpart : f part with
  | error e => exact ⟨e, rfl⟩
  | ok result =>
    have hmore := hf part result.1 result.2 more hpart
    rw [hwhole] at hmore
    injection hmore with hpair
    injection hpair with _ hnil
    exact absurd (List.append_eq_nil_iff.mp hnil.symm).2 hne

/-- What was left does not matter for what has been decoded. -/
def Local (f : Decoder β ε α) : Prop :=
  ∀ s a rest, f s = .ok (a, rest) → ∃ used, s = used ++ rest ∧ f used = .ok (a, [])

theorem local_ok (a : α) : Local (fun s ↦ .ok (a, s) : Decoder β ε α) := by
  intro s b rest h
  cases h
  exact ⟨[], rfl, rfl⟩

theorem local_error (e : ε) : Local (fun _ ↦ .error e : Decoder β ε α) := by
  intro s b rest h
  cases h

theorem local_block (n : ℕ) (e : ε) : Local (block n e : Decoder β ε (List β)) := by
  intro s a rest h
  rw [block] at h
  split at h
  · cases h
  · next hlen =>
    cases h
    have htake : (s.take n).length = n := List.length_take_of_le (Nat.not_lt.mp hlen)
    refine ⟨s.take n, (List.take_append_drop n s).symm, ?_⟩
    rw [block, if_neg (by omega), List.take_of_length_le (Nat.le_of_eq htake),
      List.drop_of_length_le (Nat.le_of_eq htake)]

theorem local_one (e : ε) : Local (one e : Decoder β ε β) := by
  intro s a rest h
  cases s with
  | nil => cases h
  | cons b s =>
    cases h
    exact ⟨[a], rfl, rfl⟩

theorem local_peek (e : ε) {g : β → Decoder β ε α} (hg : ∀ b, Local (g b))
    (hnil : ∀ b, ∃ e, g b [] = .error e) : Local (peek e g) := by
  intro s a rest h
  cases s with
  | nil => cases h
  | cons b s =>
    obtain ⟨used, hs, hused⟩ := hg b (b :: s) a rest h
    cases used with
    | nil =>
      obtain ⟨e, he⟩ := hnil b
      rw [he] at hused
      cases hused
    | cons c used =>
      have hhead : b = c := (List.cons.inj hs).1
      rw [hhead] at hused
      exact ⟨c :: used, hs, hused⟩

theorem local_ite {P : Prop} [Decidable P] {f g : Decoder β ε α} (hf : Local f)
    (hg : Local g) : Local (if P then f else g) := by
  split
  · exact hf
  · exact hg

theorem Local.andThen {f : Decoder β ε α} {g : α → Decoder β ε γ} (hf : Local f)
    (hstable : Stable f) (hg : ∀ a, Local (g a)) : Local (andThen f g) := by
  intro s c rest h
  rw [Decode.andThen] at h
  split at h
  · cases h
  · next a mid hok =>
    obtain ⟨used, rfl, hused⟩ := hf s a mid hok
    obtain ⟨used', rfl, hused'⟩ := hg a mid c rest h
    refine ⟨used ++ used', (List.append_assoc ..).symm, ?_⟩
    rw [Decode.andThen, hstable used a [] used' hused]
    exact hused'

theorem local_many {f : Decoder β ε α} (hf : Local f) (hs : Stable f) (n : ℕ) :
    Local (many f n) := by
  induction n with
  | zero => exact local_ok _
  | succ n ih =>
    exact hf.andThen hs (fun _ ↦ ih.andThen (stable_many hs n) (fun _ ↦ local_ok _))

/-- A cut through a sequence of parts falls between two of them or into one of them. -/
theorem prefix_flatten {parts : List (List β)} {s : List β} (h : s <+: parts.flatten) :
    ∃ k rest, s = (parts.take k).flatten ++ rest ∧
      (rest = [] ∨ ∃ more, rest ≠ [] ∧ more ≠ [] ∧ rest ++ more ∈ parts) := by
  induction parts generalizing s with
  | nil => exact ⟨0, [], List.prefix_nil.mp h, .inl rfl⟩
  | cons part parts ih =>
    rw [List.flatten_cons] at h
    rcases Nat.lt_or_ge s.length part.length with hlt | hge
    · obtain ⟨more, rfl⟩ := List.prefix_of_prefix_length_le h (List.prefix_append ..)
        (Nat.le_of_lt hlt)
      have hmore : more ≠ [] := by
        rintro rfl
        rw [List.append_nil] at hlt
        exact Nat.lt_irrefl _ hlt
      by_cases hs : s = []
      · exact ⟨0, [], hs, .inl rfl⟩
      · exact ⟨0, s, rfl, .inr ⟨more, hs, hmore, List.mem_cons_self ..⟩⟩
    · obtain ⟨s, rfl⟩ := List.prefix_of_prefix_length_le (List.prefix_append ..) h hge
      obtain ⟨k, rest, hs, hrest⟩ := ih ((List.prefix_append_right_inj part).mp h)
      refine ⟨k + 1, rest, ?_, hrest.imp_right ?_⟩
      · rw [List.take_succ_cons, List.flatten_cons, List.append_assoc, hs]
      · rintro ⟨more, hne, hmore, hmem⟩
        exact ⟨more, hne, hmore, List.mem_cons_of_mem _ hmem⟩

end RedisLite.Lib.Decode
