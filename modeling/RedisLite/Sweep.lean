import RedisLite.Lib.Window
import RedisLite.Stream

namespace RedisLite

open Lib.Run Lib.Window
open scoped List

def Item.live (now : TimePoint) (item : Item) : Bool := !item.2.isExpired now

theorem live_iff {now : TimePoint} {item : Item} :
    Item.live now item = true ↔ item.2.isExpired now = false := by
  rw [Item.live, Bool.not_eq_true']

theorem not_live_iff {now : TimePoint} {item : Item} :
    Item.live now item = false ↔ item.2.isExpired now = true := by
  rw [Item.live, Bool.not_eq_false']

namespace Store

theorem evictLoop_eq (now : TimePoint) (budget : ℕ) (items : List Item) :
    evictLoop now budget items =
      ((removed (Item.live now) budget items).map (·.1), pass (Item.live now) budget items) := by
  induction budget generalizing items with
  | zero => rfl
  | succ budget ih =>
    cases items with
    | nil => rfl
    | cons item items =>
      rw [pass_succ_cons, removed_succ_cons, evictLoop, ih, Item.live]
      cases item.2.isExpired now <;> rfl

theorem evictExpired_fst (now : TimePoint) (s : Store) :
    (s.evictExpired now).1 = (removed (Item.live now) 20 s.data.entries).map (·.1) := by
  change (evictLoop now 20 s.data.entries).1 = _
  rw [evictLoop_eq]

theorem entries_evictExpired (now : TimePoint) (s : Store) :
    (s.evictExpired now).2.data.entries = pass (Item.live now) 20 s.data.entries := by
  change (evictLoop now 20 s.data.entries).2 = _
  rw [evictLoop_eq]

end Store

namespace Server

variable {s : Server} {now : TimePoint}

/-- One iteration of the loop of `run` in which nothing but the sweep happens: the pass over the
store, the `DEL`s of the keys that it returns, and the end of their loop. -/
def sweepRound (now : TimePoint) (s : Server) : List Event :=
  .sweep now :: List.replicate ((s.store.evictExpired now).1.length + 1) .sweepNext

def sweepRounds (now : TimePoint) : ℕ → Server → List Event
  | 0, _ => []
  | n + 1, s => sweepRound now s ++ sweepRounds now n (run step s (sweepRound now s))

/-- A master at the boundary of its event loop. -/
structure Settled (s : Server) : Prop where
  pc : s.pc = .idle
  role : s.replInfo.role = .master

theorem sweepKey_frame (key : Bytes) (s : Server) : (s.sweepKey key).store = s.store ∧
    (s.sweepKey key).replInfo = s.replInfo ∧ (s.sweepKey key).pc = s.pc := by
  unfold sweepKey propagateToReplicas
  dsimp only
  split <;> exact ⟨rfl, rfl, rfl⟩

theorem unswept_run (hpc : s.pc = .sweeping) {keys : List Bytes} (hkeys : s.unswept = keys) :
    (run step s (List.replicate (keys.length + 1) .sweepNext)).pc = .idle ∧
    (run step s (List.replicate (keys.length + 1) .sweepNext)).store = s.store ∧
    (run step s (List.replicate (keys.length + 1) .sweepNext)).replInfo = s.replInfo ∧
    trace step streamed s (List.replicate (keys.length + 1) .sweepNext) =
      keys.map (fun key ↦ [ascii "DEL", key]) := by
  induction keys generalizing s with
  | nil =>
    have hstep : step s .sweepNext = { s with pc := .idle } := by
      rw [step_sweepNext hpc, continueSweep, hkeys]
    have hstream : streamed s .sweepNext = [] := by simp [streamed, hpc, hkeys]
    rw [List.length_nil, Nat.zero_add, List.replicate_one, run_cons, run_nil, trace_cons, hstep,
      hstream]
    exact ⟨rfl, rfl, rfl, rfl⟩
  | cons key keys ih =>
    have hstep : step s .sweepNext = { s.sweepKey key with unswept := keys } := by
      rw [step_sweepNext hpc, continueSweep, hkeys]
    have hstream : streamed s .sweepNext = [[ascii "DEL", key]] := by
      simp [streamed, hpc, hkeys]
    obtain ⟨hstore, hinfo, hpc'⟩ := sweepKey_frame key s
    obtain ⟨hidle, hrest, hinfo', htrace⟩ := ih (s := { s.sweepKey key with unswept := keys })
      (hpc'.trans hpc) rfl
    rw [List.length_cons, List.replicate_succ, run_cons, trace_cons, hstep, hstream]
    refine ⟨hidle, hrest.trans hstore, hinfo'.trans hinfo, ?_⟩
    rw [htrace]
    rfl

theorem sweepRound_run (hs : Settled s) (now : TimePoint) :
    Settled (run step s (sweepRound now s)) ∧
    (run step s (sweepRound now s)).store = (s.store.evictExpired now).2 ∧
    trace step streamed s (sweepRound now s) =
      (s.store.evictExpired now).1.map (fun key ↦ [ascii "DEL", key]) := by
  have hstep : step s (.sweep now) = { s with
      store := (s.store.evictExpired now).2
      unswept := (s.store.evictExpired now).1
      pc := .sweeping } := by
    rw [step_sweep now hs.pc, startSweep, if_pos hs.role]
  have hstream : streamed s (.sweep now) = [] := by simp [streamed]
  obtain ⟨hpc, hstore, hinfo, htrace⟩ := unswept_run (s := { s with
    store := (s.store.evictExpired now).2
    unswept := (s.store.evictExpired now).1
    pc := .sweeping }) rfl rfl
  rw [sweepRound, run_cons, trace_cons, hstep, hstream]
  exact ⟨⟨hpc, (congrArg ReplicationInfo.role hinfo).trans hs.role⟩, hstore, htrace⟩

theorem sweepRounds_run (hs : Settled s) (now : TimePoint) (n : ℕ) :
    (run step s (sweepRounds now n s)).store.data.entries =
      (passes (Item.live now) 20 n s.store.data.entries).2 ∧
    trace step streamed s (sweepRounds now n s) =
      (passes (Item.live now) 20 n s.store.data.entries).1.map
        (fun item ↦ [ascii "DEL", item.1]) := by
  induction n generalizing s with
  | zero => exact ⟨rfl, rfl⟩
  | succ n ih =>
    obtain ⟨hs', hstore, htrace⟩ := sweepRound_run hs now
    obtain ⟨hentries, hrest⟩ := ih hs'
    rw [hstore, Store.entries_evictExpired] at hentries hrest
    rw [sweepRounds, run_append, trace_append, hentries, hrest, htrace, Store.evictExpired_fst,
      List.map_map, passes, List.map_append]
    exact ⟨rfl, rfl⟩

/-- Sweeping a store of `n` entries `n + 1` times leaves no entry that is past, and streams one
`DEL` for each of those that were, exactly when no entry that is past comes behind twenty others
in the order of the map. -/
theorem sweep_reaches_all_iff (hs : Settled s) (now : TimePoint) :
    ((∀ item ∈ (run step s (sweepRounds now (s.store.size + 1) s)).store.data.entries,
      item.2.isExpired now = false) ∧
    trace step streamed s (sweepRounds now (s.store.size + 1) s) ~
      (s.store.data.entries.filter (fun item ↦ item.2.isExpired now)).map
        (fun item ↦ [ascii "DEL", item.1])) ↔
    ∀ before item after, s.store.data.entries = before ++ item :: after →
      item.2.isExpired now = true → before.countP (Item.live now) < 20 := by
  obtain ⟨hentries, htrace⟩ := sweepRounds_run hs now (s.store.size + 1)
  have hclean := passes_clean_iff (p := Item.live now) (k := 20) (l := s.store.data.entries)
    (n := s.store.size + 1) (Nat.le_succ _)
  simp only [within_iff, live_iff, not_live_iff] at hclean
  rw [hentries, htrace, ← hclean, and_iff_left_of_imp]
  intro h
  have hall := passes_fst_perm (p := Item.live now) (k := 20) (l := s.store.data.entries)
    (n := s.store.size + 1) (fun item hmem ↦ live_iff.mpr (h item hmem))
  simp only [Item.live, Bool.not_not] at hall
  exact hall.map _

def crowded (n : ℕ) : Server :=
  { init sampleId with
    store := (List.range n).foldl
      (fun store i ↦ store.set 0 (toStr i) (ascii "v") none)
      (Store.empty.set 0 (ascii "k") (ascii "v") (some 1)) }

theorem sweep_reaches_crowded :
    (∀ item ∈ (run step (crowded 2) (sweepRounds 2000000 ((crowded 2).store.size + 1)
      (crowded 2))).store.data.entries, item.2.isExpired 2000000 = false) ∧
    trace step streamed (crowded 2) (sweepRounds 2000000 ((crowded 2).store.size + 1)
      (crowded 2)) ~
      ((crowded 2).store.data.entries.filter (fun item ↦ item.2.isExpired 2000000)).map
        (fun item ↦ [ascii "DEL", item.1]) := by
  refine (sweep_reaches_all_iff (s := crowded 2) ⟨rfl, rfl⟩ 2000000).mpr ?_
  intro before item after h _
  have hlen : (crowded 2).store.data.entries.length = 3 := by decide +kernel
  rw [h, List.length_append, List.length_cons] at hlen
  have hle := List.countP_le_length (p := Item.live 2000000) (l := before)
  omega

/-- Behind twenty keys that stay, the twenty-two passes do not get at it. -/
theorem past_key_is_not_reached :
    (crowded 20).store.size = 21 ∧
    (run step (crowded 20) (sweepRounds 2000000 22 (crowded 20))).store.find (ascii "k") =
      some ⟨ascii "v", some 1000000⟩ ∧
    trace step streamed (crowded 20) (sweepRounds 2000000 22 (crowded 20)) = [] := by
  decide +kernel

end Server

end RedisLite
