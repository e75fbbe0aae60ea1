import RedisLite.Controller.Promoter

namespace RedisLite.Controller

open Lib.Transcript

theorem less_eq_true {a b : ReplicaCandidate} :
    a.less b = true ↔ b.offset < a.offset ∨ a.offset = b.offset ∧ a.addr < b.addr := by
  unfold ReplicaCandidate.less
  split
  · next h => simp [h]
  · next h =>
    have h : a.offset = b.offset := not_not.mp h
    simp [h]

theorem less_eq_false {a b : ReplicaCandidate} :
    a.less b = false ↔ a.offset < b.offset ∨ a.offset = b.offset ∧ b.addr ≤ a.addr := by
  rw [← Bool.not_eq_true, less_eq_true, not_or, not_lt, not_and]
  refine ⟨fun ⟨hle, h⟩ ↦ ?_, fun h ↦ ?_⟩
  · rcases hle.lt_or_eq with hlt | heq
    · exact .inl hlt
    · exact .inr ⟨heq, List.not_lt.mp (h heq)⟩
  · rcases h with hlt | ⟨heq, hle⟩
    · exact ⟨hlt.le, fun heq ↦ absurd heq hlt.ne⟩
    · exact ⟨heq.le, fun _ ↦ List.not_lt.mpr hle⟩

theorem le_antisymm {a b : ReplicaCandidate} (hab : a.le b) (hba : b.le a) : a = b := by
  simp only [ReplicaCandidate.le, less_eq_false] at hab hba
  rcases hab with hab | ⟨hab, hle⟩ <;> rcases hba with hba | ⟨hba, hle'⟩
  · omega
  · omega
  · omega
  · obtain ⟨a, n⟩ := a
    obtain ⟨b, k⟩ := b
    have haddr : a = b := List.le_antisymm hle hle'
    have hoffset : n = k := hba
    rw [haddr, hoffset]

instance : IsTrans ReplicaCandidate ReplicaCandidate.le where
  trans a b c hab hbc := by
    simp only [ReplicaCandidate.le, less_eq_false] at hab hbc ⊢
    rcases hab with hab | ⟨hab, hle⟩ <;> rcases hbc with hbc | ⟨hbc, hle'⟩
    · exact .inl (by omega)
    · exact .inl (by omega)
    · exact .inl (by omega)
    · exact .inr ⟨by omega, List.le_trans hle hle'⟩

instance : Std.Total ReplicaCandidate.le where
  total a b := by
    cases hba : b.less a with
    | false => exact .inl hba
    | true =>
      rw [less_eq_true] at hba
      refine .inr (less_eq_false.mpr (hba.imp id (fun h ↦ ?_)))
      exact ⟨h.1.symm, List.le_of_lt h.2⟩

/-- However the sort works: a permutation in the comparator's order is this one. -/
theorem eq_sortSlice {l sorted : List ReplicaCandidate} (hperm : sorted.Perm l)
    (hsorted : sorted.Pairwise ReplicaCandidate.le) : sorted = sortSlice l := by
  have hslice : (sortSlice l).Perm l := List.perm_insertionSort _ l
  exact List.Perm.eq_of_pairwise (fun a b _ _ hab hba ↦ le_antisymm hab hba) hsorted
    (List.pairwise_insertionSort _ l) (hperm.trans hslice.symm)

variable {script : Script} {log : List Call} {addr : Addr} {candidates : List Addr}

/-- The offset a node is ranked by, if it answers `INFO`. -/
def offsetOf (script : Script) (log : List Call) (addr : Addr) : Option ℤ :=
  (info (replies script log addr [.info])).map replOffset

/-- Both answer `INFO`, and `a` is to be tried before `b`. -/
def Ahead (script : Script) (log : List Call) (a b : Addr) : Prop :=
  ∃ n k, offsetOf script log a = some n ∧ offsetOf script log b = some k ∧
    (k < n ∨ n = k ∧ a < b)

def reachable (script : Script) (log : List Call) (candidates : List Addr) :
    List ReplicaCandidate :=
  candidates.filterMap (fun addr ↦ (offsetOf script log addr).map (⟨addr, ·⟩))

def ranking (script : Script) (log : List Call) (candidates : List Addr) : List Addr :=
  (sortSlice (reachable script log candidates)).map (·.addr)

theorem replicaCandidate_call :
    replicaCandidate (call script log addr .info) = (offsetOf script log addr).map (⟨addr, ·⟩) := by
  rw [replicaCandidate, call_response, offsetOf, Option.map_map]
  rfl

theorem ranking_eq_nil :
    ranking script log candidates = [] ↔ reachable script log candidates = [] := by
  rw [ranking, List.map_eq_nil_iff, ← List.length_eq_zero_iff, sortSlice,
    List.length_insertionSort, List.length_eq_zero_iff]

theorem reachable_calls :
    (candidates.map (call script log · .info)).filterMap replicaCandidate =
      reachable script log candidates := by
  rw [List.filterMap_map]
  exact congrArg (List.filterMap · candidates) (funext (fun _ ↦ replicaCandidate_call))

theorem pickBestReplica_spec (hnodup : candidates.Nodup) (log : List Call) :
    (ranking script log candidates = [] ∧
      ∃ e, pickBestReplica script candidates log =
        (.error e, candidates.map (call script log · .info))) ∨
    (ranking script log candidates ≠ [] ∧
      pickBestReplica script candidates log =
        (.ok (ranking script log candidates), candidates.map (call script log · .info))) := by
  cases hnil : candidates.isEmpty with
  | true =>
    rw [List.isEmpty_iff] at hnil
    subst hnil
    exact .inl ⟨rfl, _, rfl⟩
  | false =>
    have hcalls : survey (peers script) .info candidates log =
        candidates.map (call script log · .info) := survey_eq _ hnodup .info log
    simp only [pickBestReplica, hnil, Bool.false_eq_true, if_false, hcalls, reachable_calls,
      ne_eq, ranking_eq_nil, List.isEmpty_iff]
    by_cases hreach : reachable script log candidates = []
    · rw [if_pos hreach]
      exact .inl ⟨hreach, _, rfl⟩
    · rw [if_neg hreach]
      exact .inr ⟨hreach, rfl⟩

theorem mem_reachable {c : ReplicaCandidate} :
    c ∈ reachable script log candidates ↔
      c.addr ∈ candidates ∧ offsetOf script log c.addr = some c.offset := by
  simp only [reachable, List.mem_filterMap, Option.map_eq_some_iff]
  constructor
  · rintro ⟨addr, hmem, offset, h, rfl⟩
    exact ⟨hmem, h⟩
  · rintro ⟨hmem, h⟩
    exact ⟨c.addr, hmem, c.offset, h, rfl⟩

theorem mem_ranking :
    addr ∈ ranking script log candidates ↔
      addr ∈ candidates ∧ (offsetOf script log addr).isSome = true := by
  have hmem (c : ReplicaCandidate) : c ∈ sortSlice (reachable script log candidates) ↔
      c ∈ reachable script log candidates := (List.perm_insertionSort _ _).mem_iff
  simp only [ranking, List.mem_map, hmem, mem_reachable, Option.isSome_iff_exists]
  constructor
  · rintro ⟨c, ⟨h, hoffset⟩, rfl⟩
    exact ⟨h, c.offset, hoffset⟩
  · rintro ⟨h, offset, hoffset⟩
    exact ⟨⟨addr, offset⟩, ⟨h, hoffset⟩, rfl⟩

theorem ranking_nodup (hnodup : candidates.Nodup) : (ranking script log candidates).Nodup := by
  have hperm : (ranking script log candidates).Perm
      ((reachable script log candidates).map (·.addr)) := (List.perm_insertionSort _ _).map _
  refine hperm.nodup_iff.mpr (List.Nodup.sublist ?_ hnodup)
  induction candidates with
  | nil => exact .slnil
  | cons a rest ih =>
    have ih := ih (List.nodup_cons.mp hnodup).2 ((List.perm_insertionSort _ _).map _)
    cases h : offsetOf script log a with
    | none => simpa [reachable, h] using ih.cons a
    | some offset => simpa [reachable, h] using ih.cons_cons a

theorem ranking_perm {candidates' : List Addr} (h : candidates.Perm candidates') :
    ranking script log candidates = ranking script log candidates' := by
  have hperm : (sortSlice (reachable script log candidates)).Perm
      (reachable script log candidates') :=
    (List.perm_insertionSort _ _).trans (h.filterMap _)
  rw [ranking, ranking, eq_sortSlice hperm (List.pairwise_insertionSort _ _)]

theorem ranking_ahead (hnodup : candidates.Nodup) :
    (ranking script log candidates).Pairwise (Ahead script log) := by
  have hdistinct : (sortSlice (reachable script log candidates)).Pairwise
      (fun a b ↦ a.addr ≠ b.addr) := List.pairwise_map.mp (ranking_nodup hnodup)
  have hsorted : (sortSlice (reachable script log candidates)).Pairwise ReplicaCandidate.le :=
    List.pairwise_insertionSort _ _
  refine List.pairwise_map.mpr ((hsorted.and hdistinct).imp_of_mem ?_)
  rintro a b ha hb ⟨hle, hne⟩
  have hoffset {c : ReplicaCandidate} (hc : c ∈ sortSlice (reachable script log candidates)) :=
    (mem_reachable.mp ((List.perm_insertionSort _ _).mem_iff.mp hc)).2
  refine ⟨a.offset, b.offset, hoffset ha, hoffset hb, ?_⟩
  rcases less_eq_false.mp hle with hlt | ⟨heq, hle⟩
  · exact .inl hlt
  · refine .inr ⟨heq.symm, ?_⟩
    by_contra hlt
    exact hne (List.le_antisymm hle (List.not_lt.mp hlt))

end RedisLite.Controller
