import RedisLite.Text
import Mathlib.Data.List.AList

namespace RedisLite

/-- Nanoseconds of `std::chrono::steady_clock`. -/
abbrev TimePoint := Int64

structure Entry where
  value : Bytes
  expiry : Option TimePoint
  deriving DecidableEq

def Entry.isExpired (now : TimePoint) (e : Entry) : Bool :=
  match e.expiry with
  | none => false
  | some t => decide (t ≤ now)

abbrev Item := Σ _ : Bytes, Entry

/-- The hash map `data_`; the order of its entries is the order in which the map
iterates. -/
structure Store where
  data : AList (fun _ : Bytes ↦ Entry)

namespace Store

def empty : Store := ⟨∅⟩

def find (s : Store) (key : Bytes) : Option Entry := s.data.lookup key

def millis (n : Int64) : Int64 := n * 1000000

def set (now : TimePoint) (key value : Bytes) (pxMillis : Option Int64) (s : Store) : Store :=
  ⟨s.data.insert key ⟨value, pxMillis.map (fun p ↦ now + millis p)⟩⟩

def get (now : TimePoint) (key : Bytes) (s : Store) : Option Bytes :=
  match s.find key with
  | none => none
  | some e => if e.isExpired now then none else some e.value

def del (key : Bytes) (s : Store) : Bool × Store := ((s.find key).isSome, ⟨s.data.erase key⟩)

/-- The sweep's loop: at most `budget` entries are looked at, from `begin()` on. -/
def evictLoop (now : TimePoint) : ℕ → List Item → List Bytes × List Item
  | 0, items => ([], items)
  | _ + 1, [] => ([], [])
  | budget + 1, item :: items =>
    let r := evictLoop now budget items
    if item.2.isExpired now then (item.1 :: r.1, r.2) else (r.1, item :: r.2)

theorem evictLoop_sublist (now : TimePoint) (budget : ℕ) (items : List Item) :
    (evictLoop now budget items).2.Sublist items := by
  induction budget generalizing items with
  | zero => exact List.Sublist.refl _
  | succ budget ih =>
    cases items with
    | nil => exact List.Sublist.refl _
    | cons item items =>
      simp only [evictLoop]
      split
      · exact (ih items).cons item
      · exact (ih items).cons_cons item

def evictExpired (now : TimePoint) (s : Store) : List Bytes × Store :=
  let r := evictLoop now 20 s.data.entries
  (r.1, ⟨⟨r.2, s.data.nodupKeys.sublist (evictLoop_sublist now 20 s.data.entries)⟩⟩)

def size (s : Store) : ℕ := s.data.entries.length

def clear (_ : Store) : Store := empty

@[simp] theorem find_empty (k : Bytes) : empty.find k = none := rfl

theorem find_set (now : TimePoint) (key value : Bytes) (px : Option Int64) (s : Store) (k : Bytes) :
    (s.set now key value px).find k =
      if k = key then some ⟨value, px.map (fun p ↦ now + millis p)⟩ else s.find k := by
  unfold find set
  split
  · next h => subst h; exact AList.lookup_insert s.data
  · next h => exact AList.lookup_insert_ne h

theorem find_del (key : Bytes) (s : Store) (k : Bytes) :
    (s.del key).2.find k = if k = key then none else s.find k := by
  unfold find del
  split
  · next h => subst h; exact AList.lookup_erase k s.data
  · next h => exact AList.lookup_erase_ne h

theorem find_eq_some {s : Store} {k : Bytes} {e : Entry} :
    s.find k = some e ↔ (⟨k, e⟩ : Item) ∈ s.data.entries := AList.mem_lookup_iff

theorem evictLoop_mem (now : TimePoint) (budget : ℕ) (items : List Item) {k : Bytes}
    (hk : k ∈ (evictLoop now budget items).1) :
    ∃ e : Entry, (⟨k, e⟩ : Item) ∈ items ∧ e.isExpired now = true := by
  induction budget generalizing items with
  | zero => simp [evictLoop] at hk
  | succ budget ih =>
    cases items with
    | nil => simp [evictLoop] at hk
    | cons item items =>
      simp only [evictLoop] at hk
      split at hk
      · next hexp =>
        rcases List.mem_cons.mp hk with rfl | hk
        · exact ⟨item.2, List.mem_cons_self .., hexp⟩
        · obtain ⟨e, he, hx⟩ := ih items hk
          exact ⟨e, List.mem_cons_of_mem _ he, hx⟩
      · obtain ⟨e, he, hx⟩ := ih items hk
        exact ⟨e, List.mem_cons_of_mem _ he, hx⟩

theorem evictLoop_kept (now : TimePoint) (budget : ℕ) (items : List Item)
    (hn : items.NodupKeys) (k : Bytes) (e : Entry) :
    (⟨k, e⟩ : Item) ∈ (evictLoop now budget items).2 ↔
      (⟨k, e⟩ : Item) ∈ items ∧ k ∉ (evictLoop now budget items).1 := by
  induction budget generalizing items with
  | zero => simp [evictLoop]
  | succ budget ih =>
    cases items with
    | nil => simp [evictLoop]
    | cons item items =>
      obtain ⟨hnot, hn'⟩ := List.nodupKeys_cons.mp hn
      have hih := ih items hn'
      have hrest (e' : Entry) (he' : (⟨k, e'⟩ : Item) ∈ items) : k ≠ item.1 := by
        rintro rfl
        exact hnot (List.mem_keys.mpr ⟨e', he'⟩)
      have hgone (hk : k ∈ (evictLoop now budget items).1) : k ≠ item.1 := by
        obtain ⟨e', he', -⟩ := evictLoop_mem now budget items hk
        exact hrest e' he'
      simp only [evictLoop]
      split
      · rw [hih, List.mem_cons, List.mem_cons]
        constructor
        · rintro ⟨hmem, hkeep⟩
          exact ⟨.inr hmem, fun h ↦ h.elim (hrest e hmem) hkeep⟩
        · rintro ⟨rfl | hmem, hkeep⟩
          · exact absurd (.inl rfl) hkeep
          · exact ⟨hmem, fun h ↦ hkeep (.inr h)⟩
      · rw [List.mem_cons, List.mem_cons, hih]
        constructor
        · rintro (rfl | ⟨hmem, hkeep⟩)
          · exact ⟨.inl rfl, fun h ↦ hgone h rfl⟩
          · exact ⟨.inr hmem, hkeep⟩
        · rintro ⟨rfl | hmem, hkeep⟩
          · exact .inl rfl
          · exact .inr ⟨hmem, hkeep⟩

theorem find_evictExpired (now : TimePoint) (s : Store) (k : Bytes) :
    (s.evictExpired now).2.find k = if k ∈ (s.evictExpired now).1 then none else s.find k := by
  have hkept := evictLoop_kept now 20 s.data.entries s.data.nodupKeys k
  apply Option.ext
  intro e
  have h : (s.evictExpired now).2.find k = some e ↔
      s.find k = some e ∧ k ∉ (s.evictExpired now).1 := by
    rw [find_eq_some, find_eq_some]
    exact hkept e
  rw [h]
  split
  · next hmem => simp [hmem]
  · next hmem => simp [hmem]

theorem evictExpired_mem {now : TimePoint} {s : Store} {k : Bytes}
    (hk : k ∈ (s.evictExpired now).1) : ∃ e, s.find k = some e ∧ e.isExpired now = true := by
  obtain ⟨e, he, hx⟩ := evictLoop_mem now 20 s.data.entries hk
  exact ⟨e, find_eq_some.mpr he, hx⟩

/-- The order in which the map iterates is the container's business. -/
def rehash (items : List Item) (s : Store) : Store :=
  if h : s.data.entries.Perm items then
    ⟨⟨items, (List.perm_nodupKeys h).mp s.data.nodupKeys⟩⟩
  else s

theorem find_rehash (items : List Item) (s : Store) (k : Bytes) :
    (s.rehash items).find k = s.find k := by
  unfold rehash
  split
  · next h => exact (AList.perm_lookup h).symm
  · rfl

end Store

end RedisLite
