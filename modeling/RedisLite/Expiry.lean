import RedisLite.Lib.Run
import RedisLite.Lib.TimedMap
import RedisLite.Snapshot

namespace RedisLite.Store

open Function Lib.Run Lib.TimedMap

/-- The calls of a `Store`, each with the reading of the clock that it makes. Between them the
container may take another order. -/
inductive Call
  | set (now : TimePoint) (key value : Bytes) (pxMillis : Option Int64)
  | del (key : Bytes)
  | get (now : TimePoint) (key : Bytes)
  | evictExpired (now : TimePoint)
  | rehash (items : List Item)

namespace Call

def time : Call → Option TimePoint
  | .set now _ _ _ => some now
  | .get now _ => some now
  | .evictExpired now => some now
  | .del _ => none
  | .rehash _ => none

def writes (key : Bytes) : Call → Bool
  | .set _ k _ _ => k == key
  | .del k => k == key
  | _ => false

def requested : Call → Bool
  | .evictExpired _ => false
  | .rehash _ => false
  | _ => true

/-- The conversion of the time to live to nanoseconds and the sum with the clock fit `int64_t`. -/
def Fits : Call → Prop
  | .set now _ _ (some px) => -2 ^ 63 ≤ px.toInt * 1000000 ∧ px.toInt * 1000000 < 2 ^ 63 ∧
    -2 ^ 63 ≤ now.toInt + px.toInt * 1000000 ∧ now.toInt + px.toInt * 1000000 < 2 ^ 63
  | _ => True

instance : ∀ call, Decidable (Fits call)
  | .set now _ _ (some px) => inferInstanceAs (Decidable (-2 ^ 63 ≤ px.toInt * 1000000 ∧
    px.toInt * 1000000 < 2 ^ 63 ∧ -2 ^ 63 ≤ now.toInt + px.toInt * 1000000 ∧
    now.toInt + px.toInt * 1000000 < 2 ^ 63))
  | .set _ _ _ none | .del _ | .get _ _ | .evictExpired _ | .rehash _ => .isTrue trivial

end Call

def apply (s : Store) : Call → Store
  | .set now key value px => s.set now key value px
  | .del key => (s.del key).2
  | .get _ _ => s
  | .evictExpired now => (s.evictExpired now).2
  | .rehash items => s.rehash items

def answers (s : Store) : Call → List (Option Bytes)
  | .get now key => [s.get now key]
  | _ => []

def Ordered (calls : List Call) : Prop := (calls.filterMap Call.time).Pairwise (· ≤ ·)

instance (calls : List Call) : Decidable (Ordered calls) :=
  inferInstanceAs (Decidable (List.Pairwise _ _))

def lastWrite (key : Bytes) (calls : List Call) : Option Call :=
  calls.reverse.find? (Call.writes key)

/-- The map that the calls stand for: under each key what its last `set` has stored, unless a
`del` came after it, and the time in nanoseconds from which on it is past. -/
def ideal (calls : List Call) (key : Bytes) : Option (Timed Bytes ℤ) :=
  match lastWrite key calls with
  | some (.set now _ value px) =>
    some ⟨value, px.map (fun p ↦ now.toInt + p.toInt * 1000000)⟩
  | _ => none

def expected (calls : List Call) (now : TimePoint) (key : Bytes) : Option Bytes :=
  visible (ideal calls) now.toInt key

def content (s : Store) (key : Bytes) : Option (Timed Bytes ℤ) :=
  (s.find key).map (fun e ↦ ⟨e.value, e.expiry.map (·.toInt)⟩)

variable {calls before after : List Call} {s : Store} {now : TimePoint} {key : Bytes} {bound : ℤ}

theorem alive_content (now : TimePoint) (e : Entry) :
    (⟨e.value, e.expiry.map (·.toInt)⟩ : Timed Bytes ℤ).alive now.toInt = !e.isExpired now := by
  obtain ⟨value, expiry⟩ := e
  cases expiry with
  | none => rfl
  | some d =>
    simp only [Timed.alive, Option.map_some, Option.all_some, Entry.isExpired,
      Int64.le_iff_toInt_le, ← decide_not, not_le]

theorem visible_content (s : Store) (now : TimePoint) (key : Bytes) :
    visible s.content now.toInt key = s.get now key := by
  unfold visible content get
  cases s.find key with
  | none => rfl
  | some e =>
    rw [Option.map_some]
    cases hexpired : e.isExpired now with
    | false => rw [Option.filter_some_pos (by rw [alive_content, hexpired]; rfl)]; simp [hexpired]
    | true =>
      rw [Option.filter_some_neg (by rw [alive_content, hexpired]; rfl)]
      simp [hexpired]

theorem content_update {t : Store} {e : Option Entry}
    (h : ∀ k, t.find k = if k = key then e else s.find k) :
    t.content = update s.content key (e.map (fun e ↦ ⟨e.value, e.expiry.map (·.toInt)⟩)) := by
  funext k
  rw [content, h k]
  by_cases heq : k = key
  · subst heq
    rw [if_pos rfl, update_self]
  · rw [if_neg heq, update_of_ne heq]
    rfl

theorem content_rehash (items : List Item) (s : Store) : (s.rehash items).content = s.content := by
  funext k
  rw [content, content, find_rehash]

theorem pruned_evictExpired (now : TimePoint) (s : Store) :
    Pruned now.toInt s.content (s.evictExpired now).2.content := by
  intro k
  by_cases hmem : k ∈ (s.evictExpired now).1
  · refine .inr ⟨?_, fun e he ↦ ?_⟩
    · rw [content, find_evictExpired, if_pos hmem]
      rfl
    · obtain ⟨entry, hfind, hexpired⟩ := evictExpired_mem hmem
      rw [content, hfind, Option.map_some, Option.some.injEq] at he
      rw [← he, alive_content, hexpired]
      rfl
  · left
    rw [content, content, find_evictExpired, if_neg hmem]

theorem lastWrite_snoc (key : Bytes) (calls : List Call) (call : Call) :
    lastWrite key (calls ++ [call]) =
      if call.writes key then some call else lastWrite key calls := by
  rw [lastWrite, List.reverse_append, List.reverse_singleton, List.singleton_append, List.find?_cons]
  split
  · next h => rw [if_pos h]
  · next h => rw [h, if_neg Bool.false_ne_true, lastWrite]

theorem ideal_set (calls : List Call) (now : TimePoint) (key value : Bytes) (px : Option Int64) :
    ideal (calls ++ [.set now key value px]) = update (ideal calls) key
      (some ⟨value, px.map (fun p ↦ now.toInt + p.toInt * 1000000)⟩) := by
  funext k
  by_cases heq : k = key
  · subst heq
    simp [ideal, lastWrite_snoc, Call.writes]
  · have hne : (key == k) = false := beq_eq_false_iff_ne.mpr (Ne.symm heq)
    simp [ideal, lastWrite_snoc, Call.writes, hne, heq]

theorem ideal_del (calls : List Call) (key : Bytes) :
    ideal (calls ++ [.del key]) = update (ideal calls) key none := by
  funext k
  by_cases heq : k = key
  · subst heq
    simp [ideal, lastWrite_snoc, Call.writes]
  · have hne : (key == k) = false := beq_eq_false_iff_ne.mpr (Ne.symm heq)
    simp [ideal, lastWrite_snoc, Call.writes, hne, heq]

theorem ideal_other (calls : List Call) {call : Call} (h : ∀ key, call.writes key = false) :
    ideal (calls ++ [call]) = ideal calls := by
  funext k
  rw [ideal, lastWrite_snoc, h k, if_neg Bool.false_ne_true]
  rfl

theorem toInt_expiry {value : Bytes} {px : Int64} (h : Call.Fits (.set now key value (some px))) :
    (now + millis px).toInt = now.toInt + px.toInt * 1000000 := by
  obtain ⟨hl, hu, hl', hu'⟩ := h
  have hmillis := Rdb.toInt_millis hl hu
  rw [Rdb.toInt_add (by rw [hmillis]; exact hl') (by rw [hmillis]; exact hu'), hmillis]

theorem content_set {value : Bytes} {px : Option Int64} (h : Call.Fits (.set now key value px)) :
    (s.set now key value px).content = update s.content key
      (some ⟨value, px.map (fun p ↦ now.toInt + p.toInt * 1000000)⟩) := by
  rw [content_update (find_set now key value px s)]
  cases px with
  | none => rfl
  | some p =>
    have hexpiry := toInt_expiry h
    simp only [Option.map_some, hexpiry]

/-- The store has the ideal content, but for entries that are past by now. -/
theorem pruned_run (calls : List Call) (hordered : Ordered calls) (hfits : ∀ call ∈ calls, call.Fits)
    (hbound : ∀ t ∈ calls.filterMap Call.time, t.toInt ≤ bound) :
    Pruned bound (ideal calls) (run apply empty calls).content := by
  induction calls using List.reverseRecOn with
  | nil => exact .refl bound _
  | append_singleton calls call ih =>
    rw [Ordered, List.filterMap_append, List.pairwise_append] at hordered
    have ih := ih hordered.1 (fun call hmem ↦ hfits call (List.mem_append_left _ hmem))
      (fun t hmem ↦ hbound t (by rw [List.filterMap_append]; exact List.mem_append_left _ hmem))
    have hlast := hfits call (List.mem_append_right _ (List.mem_singleton_self call))
    rw [run_append, run_cons, run_nil]
    cases call with
    | set now key value px =>
      rw [apply, content_set hlast, ideal_set]
      exact ih.update key _
    | del key =>
      rw [apply, content_update (find_del key _), ideal_del]
      exact ih.update key none
    | get now key =>
      rw [ideal_other calls (fun _ ↦ rfl)]
      exact ih
    | evictExpired now =>
      have hnow : now.toInt ≤ bound := hbound now (by simp [Call.time])
      rw [ideal_other calls (fun _ ↦ rfl)]
      exact ih.trans ((pruned_evictExpired now _).mono hnow)
    | rehash items =>
      rw [apply, content_rehash, ideal_other calls (fun _ ↦ rfl)]
      exact ih

theorem ordered_append (h : Ordered (before ++ after)) : Ordered before := by
  rw [Ordered, List.filterMap_append, List.pairwise_append] at h
  exact h.1

theorem get_expected (hordered : Ordered calls) (hfits : ∀ call ∈ calls, call.Fits)
    (hlatest : ∀ t ∈ calls.filterMap Call.time, t ≤ now) (key : Bytes) :
    (run apply empty calls).get now key = expected calls now key := by
  have hpruned := pruned_run calls hordered hfits
    (fun t hmem ↦ Int64.le_iff_toInt_le.mp (hlatest t hmem))
  rw [← visible_content, expected]
  exact hpruned.visible_eq (le_refl _) key

theorem evictLoop_nodup (now : TimePoint) (budget : ℕ) (items : List Item) (h : items.NodupKeys) :
    (evictLoop now budget items).1.Nodup := by
  induction budget generalizing items with
  | zero => exact List.nodup_nil
  | succ budget ih =>
    cases items with
    | nil => exact List.nodup_nil
    | cons item items =>
      obtain ⟨hnot, hrest⟩ := List.nodupKeys_cons.mp h
      simp only [evictLoop]
      split
      · refine List.nodup_cons.mpr ⟨fun hmem ↦ ?_, ih items hrest⟩
        obtain ⟨e, he, -⟩ := evictLoop_mem now budget items hmem
        exact hnot (List.mem_keys.mpr ⟨e, he⟩)
      · exact ih items hrest

/-- What a sweep reports: each key that it has removed, once, and past. -/
structure Swept (now : TimePoint) (s : Store) : Prop where
  nodup : (s.evictExpired now).1.Nodup
  removed : ∀ key, key ∈ (s.evictExpired now).1 ↔
    (s.find key).isSome = true ∧ (s.evictExpired now).2.find key = none
  past : ∀ key ∈ (s.evictExpired now).1, ∃ e, s.find key = some e ∧ e.isExpired now = true

theorem swept (now : TimePoint) (s : Store) : Swept now s where
  nodup := evictLoop_nodup now 20 s.data.entries s.data.nodupKeys
  removed := by
    intro key
    rw [find_evictExpired]
    constructor
    · intro hmem
      obtain ⟨e, hfind, -⟩ := evictExpired_mem hmem
      rw [if_pos hmem, hfind]
      exact ⟨rfl, rfl⟩
    · rintro ⟨hsome, hnone⟩
      by_contra hmem
      rw [if_neg hmem] at hnone
      rw [hnone] at hsome
      cases hsome
  past := fun _ hmem ↦ evictExpired_mem hmem

def idealAnswers (before : List Call) : List Call → List (Option Bytes)
  | [] => []
  | .get now key :: calls =>
    expected before now key :: idealAnswers (before ++ [.get now key]) calls
  | call :: calls => idealAnswers (before ++ [call]) calls

theorem answers_eq_ideal (hordered : Ordered (before ++ calls))
    (hfits : ∀ call ∈ before ++ calls, call.Fits) :
    trace apply answers (run apply empty before) calls = idealAnswers before calls := by
  induction calls generalizing before with
  | nil => rfl
  | cons call calls ih =>
    have hnext : run apply empty (before ++ [call]) = apply (run apply empty before) call := by
      rw [run_append]
      rfl
    have ih : trace apply answers (run apply empty (before ++ [call])) calls = _ :=
      ih (by rwa [List.append_assoc]) (by rwa [List.append_assoc])
    rw [hnext] at ih
    rw [trace_cons, ih]
    cases call with
    | get now key =>
      have hlatest : ∀ t ∈ before.filterMap Call.time, t ≤ now := by
        intro t hmem
        rw [Ordered, List.filterMap_append, List.pairwise_append] at hordered
        exact hordered.2.2 t hmem now (by simp [Call.time])
      have hget := get_expected (ordered_append hordered)
        (fun call hmem ↦ hfits call (List.mem_append_left _ hmem)) hlatest key
      rw [answers, hget]
      rfl
    | set | del | evictExpired | rehash => rfl

theorem lastWrite_requested (key : Bytes) (calls : List Call) :
    lastWrite key (calls.filter Call.requested) = lastWrite key calls := by
  induction calls using List.reverseRecOn with
  | nil => rfl
  | append_singleton calls call ih =>
    rw [List.filter_append, lastWrite_snoc, ← ih]
    cases call with
    | set | del | get => exact lastWrite_snoc ..
    | evictExpired | rehash => rw [List.filter_singleton]; simp [Call.requested, Call.writes]

theorem expected_requested (calls : List Call) (now : TimePoint) (key : Bytes) :
    expected (calls.filter Call.requested) now key = expected calls now key := by
  have hideal : ideal (calls.filter Call.requested) = ideal calls := by
    funext k
    rw [ideal, lastWrite_requested]
    rfl
  rw [expected, hideal, expected]

theorem idealAnswers_requested (before calls : List Call) :
    idealAnswers (before.filter Call.requested) (calls.filter Call.requested) =
      idealAnswers before calls := by
  induction calls generalizing before with
  | nil => rfl
  | cons call calls ih =>
    have ih := ih (before ++ [call])
    rw [List.filter_append, List.filter_singleton] at ih
    cases call with
    | get now key =>
      rw [List.filter_cons_of_pos rfl, idealAnswers, idealAnswers, expected_requested, ← ih]
      rfl
    | set | del =>
      rw [List.filter_cons_of_pos rfl, idealAnswers, idealAnswers, ← ih]
      · rfl
      all_goals simp
    | evictExpired | rehash =>
      rw [List.filter_cons_of_neg (by simp [Call.requested]), idealAnswers, ← ih]
      · simp [Call.requested]
      · simp

/-- Every `get` of an ordered sequence of calls returns what the last `set` of its key has stored,
as long as no `del` came after it and its time to live has not run out; every sweep reports what it
removes; and sweeps anywhere in the sequence change no answer. -/
theorem store_refines_timed_map (hordered : Ordered calls) (hfits : ∀ call ∈ calls, call.Fits) :
    (∀ before now key after, calls = before ++ .get now key :: after →
      (run apply empty before).get now key = expected before now key) ∧
    (∀ before now after, calls = before ++ .evictExpired now :: after →
      Swept now (run apply empty before)) ∧
    ∀ calls', Ordered calls' → (∀ call ∈ calls', call.Fits) →
      calls'.filter Call.requested = calls.filter Call.requested →
      trace apply answers empty calls' = trace apply answers empty calls := by
  refine ⟨fun before now key after heq ↦ ?_, fun before now after _ ↦ swept now _, ?_⟩
  · subst heq
    refine get_expected (ordered_append hordered)
      (fun call hmem ↦ hfits call (List.mem_append_left _ hmem)) (fun t hmem ↦ ?_) key
    rw [Ordered, List.filterMap_append, List.pairwise_append] at hordered
    exact hordered.2.2 t hmem now (by simp [Call.time])
  · intro calls' hordered' hfits' heq
    have hcalls : trace apply answers (run apply empty []) calls = _ :=
      answers_eq_ideal hordered hfits
    have hcalls' : trace apply answers (run apply empty []) calls' = _ :=
      answers_eq_ideal hordered' hfits'
    rw [run_nil] at hcalls hcalls'
    rw [hcalls, hcalls', ← idealAnswers_requested, heq, idealAnswers_requested]

def sampleCalls : List Call :=
  [.set 0 (ascii "k") (ascii "v") (some 5), .evictExpired 3000000, .get 4000000 (ascii "k"),
    .evictExpired 5000000, .get 6000000 (ascii "k")]

theorem sampleCalls_answers :
    trace apply answers empty sampleCalls = [some (ascii "v"), none] ∧
    trace apply answers empty (sampleCalls.filter Call.requested) = [some (ascii "v"), none] := by
  have hsweeps : trace apply answers empty sampleCalls = [some (ascii "v"), none] := by
    decide +kernel
  have hordered : Ordered sampleCalls := by decide +kernel
  have hfits : ∀ call ∈ sampleCalls, call.Fits := by decide +kernel
  obtain ⟨-, -, hinsert⟩ := store_refines_timed_map hordered hfits
  refine ⟨hsweeps, ?_⟩
  rw [hinsert (sampleCalls.filter Call.requested) (by decide +kernel) (by decide +kernel)
    (List.filter_filter ..)]
  exact hsweeps

/-- A time to live of 292 years overflows on its way to nanoseconds, and the key is past at once. -/
theorem get_after_overflow :
    expected [.set 0 (ascii "k") (ascii "v") (some 9223372036855)] 0 (ascii "k") =
      some (ascii "v") ∧
    (run apply empty [.set 0 (ascii "k") (ascii "v") (some 9223372036855)]).get 0 (ascii "k") =
      none := by
  decide +kernel

end RedisLite.Store
