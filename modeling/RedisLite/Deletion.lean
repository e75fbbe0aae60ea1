import Mathlib.Data.Finset.Card
import RedisLite.Command
import RedisLite.Expiry

namespace RedisLite.Command

open Lib.Numerals Lib.Run Lib.TimedMap

variable {now : TimePoint} {keys : List Bytes} {s : Store} {k : Bytes}

def held (keys : List Bytes) (s : Store) : ℕ :=
  (keys.toFinset.filter (fun k ↦ (s.find k).isSome = true)).card

def existing (now : TimePoint) (keys : List Bytes) (s : Store) : ℕ :=
  (keys.toFinset.filter (fun k ↦ (s.get now k).isSome = true)).card

/-- The key has an entry that is past and has not been removed. -/
def Lingers (now : TimePoint) (s : Store) (k : Bytes) : Prop :=
  ∃ e ∈ s.find k, e.isExpired now = true

instance (now : TimePoint) (s : Store) (k : Bytes) : Decidable (Lingers now s k) :=
  inferInstanceAs (Decidable (∃ e ∈ s.find k, _))

def Sweeps (now : TimePoint) (calls : List Store.Call) : Prop :=
  ∀ call ∈ calls, call.requested = false ∧ ∀ time ∈ call.time, time ≤ now

theorem isSome_del (s : Store) (key k : Bytes) :
    ((s.del key).2.find k).isSome = true ↔ k ≠ key ∧ (s.find k).isSome = true := by
  rw [Store.find_del]
  split
  · next h => simp [h]
  · next h => simp [h]

theorem held_del (keys : List Bytes) (key : Bytes) (s : Store) : held keys (s.del key).2 =
    ((keys.toFinset.filter (fun k ↦ (s.find k).isSome = true)).erase key).card := by
  rw [held]
  congr 1
  ext k
  rw [Finset.mem_filter, isSome_del, Finset.mem_erase, Finset.mem_filter]
  exact and_left_comm

/-- A key that comes twice is deleted once. -/
theorem delLoop_fst (keys : List Bytes) (s : Store) : (delLoop keys s).1 = held keys s := by
  induction keys generalizing s with
  | nil => rfl
  | cons key keys ih =>
    rw [delLoop, ih, held_del, held, List.toFinset_cons, Finset.filter_insert]
    change (if (s.find key).isSome = true then 1 else 0) + _ = _
    by_cases hkey : (s.find key).isSome = true
    · rw [if_pos hkey, if_pos hkey, ← Finset.erase_insert_eq_erase, Nat.add_comm]
      exact Finset.card_erase_add_one (Finset.mem_insert_self ..)
    · have hnot : key ∉ keys.toFinset.filter (fun k ↦ (s.find k).isSome = true) :=
        fun hmem ↦ hkey (Finset.mem_filter.mp hmem).2
      rw [if_neg hkey, if_neg hkey, Finset.erase_eq_of_notMem hnot, Nat.zero_add]

theorem isSome_find_iff (now : TimePoint) (s : Store) (k : Bytes) :
    (s.find k).isSome = true ↔ (s.get now k).isSome = true ∨ Lingers now s k := by
  unfold Store.get Lingers
  cases s.find k with
  | none => simp
  | some e => cases hx : e.isExpired now <;> simp [hx]

theorem not_lingers_of_get (h : (s.get now k).isSome = true) : ¬Lingers now s k := by
  rintro ⟨e, hfind, hexpired⟩
  rw [Option.mem_def] at hfind
  simp [Store.get, hfind, hexpired] at h

/-- The physical count is off by the entries that linger. -/
theorem held_eq_existing_iff (now : TimePoint) (keys : List Bytes) (s : Store) :
    held keys s = existing now keys s ↔ ∀ k ∈ keys, ¬Lingers now s k := by
  have hsplit : held keys s =
      existing now keys s + (keys.toFinset.filter (Lingers now s)).card := by
    rw [held, existing, ← Finset.card_union_of_disjoint]
    · congr 1
      ext k
      rw [Finset.mem_union, Finset.mem_filter, Finset.mem_filter, Finset.mem_filter,
        isSome_find_iff now, and_or_left]
    · rw [Finset.disjoint_filter]
      exact fun k _ h ↦ not_lingers_of_get h
  rw [hsplit, Nat.add_eq_left, Finset.card_eq_zero, Finset.filter_eq_empty_iff]
  simp only [List.mem_toFinset]

theorem toStr_inj {m n : ℕ} (h : toStr m = toStr n) : m = n := by
  rw [toStr, toStr, if_neg (by omega), if_neg (by omega), Int.natAbs_natCast,
    Int.natAbs_natCast] at h
  have hvalue := congrArg digitsValue h
  rwa [digitsValue_decimal, digitsValue_decimal] at hvalue

theorem executeDel_fst (name key : Bytes) (keys : List Bytes) (s : Store) :
    (executeDel (name :: key :: keys) s).1 =
      ascii ":" ++ toStr (held (key :: keys) s) ++ crlf := by
  rw [executeDel, delLoop_fst]

theorem pruned_sweeps {calls : List Store.Call} (h : Sweeps now calls) (s : Store) :
    Pruned now.toInt s.content (run Store.apply s calls).content := by
  induction calls generalizing s with
  | nil => exact Pruned.refl _ _
  | cons call calls ih =>
    obtain ⟨hrequested, htime⟩ := h call (List.mem_cons_self ..)
    rw [run_cons]
    refine Pruned.trans ?_ (ih (fun c hc ↦ h c (List.mem_cons_of_mem _ hc)) _)
    cases call with
    | set | del | get => cases hrequested
    | evictExpired time =>
      exact (Store.pruned_evictExpired time s).mono (Int64.le_iff_toInt_le.mp (htime time rfl))
    | rehash items =>
      rw [Store.apply, Store.content_rehash]
      exact Pruned.refl _ _

/-- Sweeps change no answer of `GET`. -/
theorem existing_sweeps {calls : List Store.Call} (h : Sweeps now calls) (keys : List Bytes)
    (s : Store) : existing now keys (run Store.apply s calls) = existing now keys s := by
  unfold existing
  congr 1
  ext k
  rw [Finset.mem_filter, Finset.mem_filter, ← Store.visible_content,
    (pruned_sweeps h s).visible_eq le_rfl, Store.visible_content]

theorem lingers_iff (now : TimePoint) (s : Store) (k : Bytes) :
    Lingers now s k ↔ ∃ e ∈ s.content k, e.alive now.toInt = false := by
  unfold Lingers Store.content
  cases s.find k with
  | none => simp
  | some e => simp [Store.alive_content]

theorem not_lingers_sweeps {calls : List Store.Call} (h : Sweeps now calls)
    (hk : ¬Lingers now s k) : ¬Lingers now (run Store.apply s calls) k := by
  rw [lingers_iff] at hk ⊢
  rcases pruned_sweeps h s k with heq | ⟨hnone, -⟩
  · rwa [heq]
  · rw [hnone]
    rintro ⟨e, he, -⟩
    cases he

/-- `DEL` replies with the number of keys that `GET` finds, however often the sweep has run,
exactly when none of them has an entry that is past and still there. -/
theorem del_counts_existing_iff (now : TimePoint) (name key : Bytes) (keys : List Bytes)
    (s : Store) :
    (∀ calls, Sweeps now calls → (executeDel (name :: key :: keys) (run Store.apply s calls)).1 =
      ascii ":" ++ toStr (existing now (key :: keys) s) ++ crlf) ↔
    ∀ k ∈ key :: keys, ¬Lingers now s k := by
  constructor
  · intro h
    have hreply := h [] (fun _ hmem ↦ absurd hmem List.not_mem_nil)
    rw [run_nil, executeDel_fst] at hreply
    rw [← held_eq_existing_iff]
    exact toStr_inj (List.append_cancel_left (List.append_cancel_right hreply))
  · intro h calls hcalls
    have hheld := (held_eq_existing_iff now (key :: keys) (run Store.apply s calls)).mpr
      (fun k hk ↦ not_lingers_sweeps hcalls (h k hk))
    rw [executeDel_fst, hheld, existing_sweeps hcalls]

/-- One key that has been past for a millisecond, deleted before and after the sweep. -/
theorem del_counts_past_key :
    let s := Store.empty.set 0 (ascii "k") (ascii "v") (some 1)
    s.get 2000000 (ascii "k") = none ∧ existing 2000000 [ascii "k"] s = 0 ∧
      (executeDel [ascii "DEL", ascii "k"] s).1 = ascii ":1\r\n" ∧
      (executeDel [ascii "DEL", ascii "k"] (s.evictExpired 2000000).2).1 = ascii ":0\r\n" := by
  decide +kernel

end RedisLite.Command
