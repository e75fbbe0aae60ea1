import RedisLite.Controller.Monitor
import RedisLite.Controller.Promotion
import RedisLite.Controller.Selection

namespace RedisLite.Controller

open Lib.Transcript

variable {cfg : Config}

theorem Order.nodup (order : Order cfg) : order.1.Nodup :=
  order.2.nodup_iff.mpr (List.nodup_dedup _)

theorem Order.mem_iff (order : Order cfg) {addr : Addr} : addr ∈ order.1 ↔ addr ∈ cfg.nodes :=
  order.2.mem_iff.trans List.mem_dedup

section

variable (w : World cfg) (m : Monitor)

def candidatesOf : List Addr := (w.candidateOrder (m.failoverCount + 1)).1.filter m.eligible

/-- The ranking does not mention the order of a loop. -/
def ranked : List Addr := ranking w.script m.log (cfg.nodes.dedup.filter m.eligible)

def infoCalls : List Call := (candidatesOf w m).map (call w.script m.log · .info)

def promotionCalls (tried : List Addr) : List Call :=
  infoCalls w m ++ attempts w.script (m.log ++ infoCalls w m) tried

def siblingsOf (newMaster : Addr) : List Addr :=
  (w.siblingOrder (m.failoverCount + 1)).1.filter
    (fun addr ↦ addr != newMaster && addr != m.master && (m.nodes addr).alive)

def redirectCalls (tried : List Addr) (newMaster : Addr) : List Call :=
  match splitHostPort newMaster with
  | none => []
  | some (host, port) =>
    (siblingsOf w m newMaster).map
      (call w.script (m.log ++ promotionCalls w m tried) · (.replicaOf host port))

end

/-- In the course of a failover, a node accepts `REPLICAOF NO ONE` and reports the role of a
master within the polls. -/
def Promotes (script : Script) (log : List Call) (addr : Addr) : Prop :=
  replicaOf (replies script log addr [.info, .noOne]) = true ∧
    ∃ k < promoteMaxRetries,
      role (replies script log addr (.info :: .noOne :: List.replicate (k + 1) .role)) =
        some (ascii "master")

instance (script : Script) (log : List Call) (addr : Addr) :
    Decidable (Promotes script log addr) := inferInstanceAs (Decidable (_ ∧ _))

/-- The first of the ranking that can be promoted. -/
def elected (w : World cfg) (m : Monitor) : Option Addr :=
  (ranked w m).find? (fun a ↦ Promotes w.script m.log a)

def passedOver (w : World cfg) (m : Monitor) : List Addr :=
  (ranked w m).takeWhile (fun a ↦ ¬Promotes w.script m.log a)

variable {w : World cfg} {m : Monitor}

theorem siblingsOf_nodup (n : Addr) : (siblingsOf w m n).Nodup := (Order.nodup _).filter _

theorem candidatesOf_nodup : (candidatesOf w m).Nodup := (Order.nodup _).filter _

theorem mem_candidatesOf {addr : Addr} :
    addr ∈ candidatesOf w m ↔ addr ∈ cfg.nodes ∧ m.eligible addr = true := by
  rw [candidatesOf, List.mem_filter, Order.mem_iff]

theorem ranking_candidatesOf : ranking w.script m.log (candidatesOf w m) = ranked w m :=
  ranking_perm ((w.candidateOrder _).2.filter _)

theorem ranked_nodup : (ranked w m).Nodup := ranking_nodup ((List.nodup_dedup _).filter _)

theorem ranked_ahead : (ranked w m).Pairwise (Ahead w.script m.log) :=
  ranking_ahead ((List.nodup_dedup _).filter _)

theorem mem_ranked {addr : Addr} :
    addr ∈ ranked w m ↔
      addr ∈ cfg.nodes ∧ m.eligible addr = true ∧ (offsetOf w.script m.log addr).isSome = true := by
  rw [ranked, mem_ranking, List.mem_filter, List.mem_dedup, and_assoc]

theorem mem_candidates_of_ranked {addr : Addr} (h : addr ∈ ranked w m) :
    addr ∈ candidatesOf w m := by
  obtain ⟨hmem, helig, -⟩ := mem_ranked.mp h
  exact mem_candidatesOf.mpr ⟨hmem, helig⟩

theorem replies_after_info {addr : Addr} (h : addr ∈ candidatesOf w m) (requests : List Request) :
    replies w.script (m.log ++ infoCalls w m) addr requests =
      replies w.script m.log addr (.info :: requests) :=
  replies_append (asked_map_ask _ candidatesOf_nodup h _ _)

theorem confirms_iff_promotes {addr : Addr} (h : addr ∈ ranked w m) :
    Confirms w.script (m.log ++ infoCalls w m) addr ↔ Promotes w.script m.log addr := by
  simp only [Confirms, Promotes, replies_after_info (mem_candidates_of_ranked h)]

theorem elected_eq_none :
    elected w m = none ↔ ∀ a ∈ ranked w m, ¬Promotes w.script m.log a := by
  simp only [elected, List.find?_eq_none, decide_eq_true_eq]

theorem mem_of_elected {n : Addr} (h : elected w m = some n) :
    n ∈ ranked w m ∧ Promotes w.script m.log n := by
  have hn := List.find?_some h
  exact ⟨List.mem_of_find?_eq_some h, of_decide_eq_true hn⟩

section

variable {before after : List Addr} {n : Addr} (hranked : ranked w m = before ++ n :: after)
  (hbefore : ∀ a ∈ before, ¬Promotes w.script m.log a) (hn : Promotes w.script m.log n)

include hranked hbefore hn

theorem elected_of_split : elected w m = some n := by
  refine List.find?_eq_some_iff_append.mpr ⟨decide_eq_true hn, before, after, hranked, ?_⟩
  exact fun a ha ↦ by simpa using hbefore a ha

theorem passedOver_of_split : passedOver w m = before := by
  rw [passedOver, hranked, List.takeWhile_append_of_pos (fun a ha ↦ by simpa using hbefore a ha),
    List.takeWhile_cons_of_neg (by simpa using hn), List.append_nil]

end

inductive FailoverOutcome (w : World cfg) (m : Monitor) : Monitor → Prop
  | skipped (hbusy : m.failoverInProgress = true) : FailoverOutcome w m m
  | failed (hidle : m.failoverInProgress = false)
      (hnone : ∀ a ∈ ranked w m, ¬Promotes w.script m.log a) :
      FailoverOutcome w m
        { m with
          failoverCount := m.failoverCount + 1
          log := m.log ++ promotionCalls w m (ranked w m) }
  | promoted {before after : List Addr} {n : Addr} (hidle : m.failoverInProgress = false)
      (hranked : ranked w m = before ++ n :: after)
      (hbefore : ∀ a ∈ before, ¬Promotes w.script m.log a) (hn : Promotes w.script m.log n) :
      FailoverOutcome w m
        { m with
          failoverCount := m.failoverCount + 1
          master := n
          nodes := Function.update m.nodes n ⟨ascii "master", (m.nodes n).alive⟩
          log := m.log ++
            (promotionCalls w m (before ++ [n]) ++ redirectCalls w m (before ++ [n]) n) }

theorem reconfigure_calls {script : Script} {siblings : List Addr} (hnodup : siblings.Nodup)
    (newMaster : Addr) (log : List Call) :
    (reconfigure script siblings newMaster log).2 =
      match splitHostPort newMaster with
      | none => []
      | some (host, port) => siblings.map (call script log · (.replicaOf host port)) := by
  rw [reconfigure]
  cases splitHostPort newMaster with
  | none => rfl
  | some hp => exact survey_eq _ hnodup _ log

theorem completeFailover_eq {log : List Call} (tried : List Addr) (n : Addr)
    (hlog : log = m.log ++ promotionCalls w m tried) :
    completeFailover w ⟨m.nodes, m.fails, m.master, m.failoverCount + 1, true, log⟩ n =
      ⟨Function.update m.nodes n ⟨ascii "master", (m.nodes n).alive⟩, m.fails, n,
        m.failoverCount + 1, true, log ++ redirectCalls w m tried n⟩ := by
  have halive (addr : Addr) :
      (Function.update m.nodes n ⟨ascii "master", (m.nodes n).alive⟩ addr).alive =
        (m.nodes addr).alive := by
    by_cases h : addr = n
    · rw [h, Function.update_self]
    · rw [Function.update_of_ne h]
  have hsiblings : (w.siblingOrder (m.failoverCount + 1)).1.filter (fun addr ↦
      addr != n && addr != m.master &&
        (Function.update m.nodes n ⟨ascii "master", (m.nodes n).alive⟩ addr).alive) =
          siblingsOf w m n := by
    simp only [halive, siblingsOf]
  have hcalls : (reconfigure w.script (siblingsOf w m n) n log).2 = redirectCalls w m tried n := by
    rw [reconfigure_calls (siblingsOf_nodup n), redirectCalls, hlog]
  simp only [completeFailover, Monitor.setRole, Monitor.record, hsiblings, hcalls]
  split
  · next hnil =>
    have hnone : redirectCalls w m tried n = [] := by
      rw [redirectCalls, List.isEmpty_iff.mp hnil]
      cases splitHostPort n <;> rfl
    rw [hnone, List.append_nil]
  · rfl

theorem triggerFailover_of_idle (hidle : m.failoverInProgress = false) :
    triggerFailover w m =
      { failover w { m with failoverInProgress := true } with failoverInProgress := false } := by
  rw [triggerFailover, if_neg (by rw [hidle]; exact Bool.false_ne_true)]

theorem FailoverOutcome.of_ranked_nil (hidle : m.failoverInProgress = false)
    (hnil : ranked w m = []) :
    FailoverOutcome w m
      ⟨m.nodes, m.fails, m.master, m.failoverCount + 1, false, m.log ++ infoCalls w m⟩ := by
  have hcalls : promotionCalls w m (ranked w m) = infoCalls w m := by
    rw [hnil, promotionCalls, attempts, List.flatMap_nil, List.append_nil]
  have h := FailoverOutcome.failed (w := w) hidle (by simp [hnil])
  rw [hcalls, hidle] at h
  exact h

theorem failover_eq :
    failover w { m with failoverInProgress := true } =
      if (candidatesOf w m).isEmpty then
        ⟨m.nodes, m.fails, m.master, m.failoverCount + 1, true, m.log⟩
      else
        match pickBestReplica w.script (candidatesOf w m) m.log with
        | (.error _, calls) =>
          ⟨m.nodes, m.fails, m.master, m.failoverCount + 1, true, m.log ++ calls⟩
        | (.ok ranked, calls) =>
          match promote w.script ranked (m.log ++ calls) with
          | (.error _, more) =>
            ⟨m.nodes, m.fails, m.master, m.failoverCount + 1, true, m.log ++ calls ++ more⟩
          | (.ok newMaster, more) =>
            completeFailover w
              ⟨m.nodes, m.fails, m.master, m.failoverCount + 1, true, m.log ++ calls ++ more⟩
              newMaster := rfl

theorem triggerFailover_outcome (w : World cfg) (m : Monitor) :
    FailoverOutcome w m (triggerFailover w m) := by
  cases hbusy : m.failoverInProgress with
  | true =>
    rw [triggerFailover, if_pos hbusy]
    exact .skipped hbusy
  | false =>
    obtain ⟨m', hm'⟩ : ∃ m', failover w { m with failoverInProgress := true } = m' := ⟨_, rfl⟩
    rw [triggerFailover_of_idle hbusy, hm']
    rw [failover_eq] at hm'
    by_cases hempty : candidatesOf w m = []
    · have hnil : ranked w m = [] := by
        rw [← ranking_candidatesOf, hempty]
        rfl
      have h := FailoverOutcome.of_ranked_nil hbusy hnil
      rw [infoCalls, hempty, List.map_nil, List.append_nil] at h
      rw [if_pos (by rwa [List.isEmpty_iff])] at hm'
      subst hm'
      exact h
    · rw [if_neg (by rwa [List.isEmpty_iff])] at hm'
      rcases pickBestReplica_spec candidatesOf_nodup m.log with ⟨hnil, e, hpick⟩ | ⟨-, hpick⟩
      · rw [ranking_candidatesOf] at hnil
        rw [hpick] at hm'
        subst hm'
        exact .of_ranked_nil hbusy hnil
      · rw [hpick, ranking_candidatesOf, ← infoCalls] at hm'
        have hlog (tried : List Addr) : m.log ++ infoCalls w m ++
            attempts w.script (m.log ++ infoCalls w m) tried =
              m.log ++ promotionCalls w m tried := List.append_assoc _ _ _
        rcases promote_spec ranked_nodup (m.log ++ infoCalls w m) with
          ⟨hnone, e, hpromote⟩ | ⟨before, n, after, hranked, hbefore, hn, hpromote⟩
        · have hfailed : ∀ a ∈ ranked w m, ¬Promotes w.script m.log a := fun a ha h ↦
            hnone a ha ((confirms_iff_promotes ha).mpr h)
          have h := FailoverOutcome.failed hbusy hfailed
          simp only [hpromote, hlog] at hm'
          subst hm'
          rwa [hbusy] at h
        · have hmem {a : Addr} (ha : a ∈ before ++ [n]) : a ∈ ranked w m := by
            rw [hranked, ← List.singleton_append, ← List.append_assoc]
            exact List.mem_append_left _ ha
          have hfailed : ∀ a ∈ before, ¬Promotes w.script m.log a := fun a ha h ↦
            hbefore a ha ((confirms_iff_promotes (hmem (List.mem_append_left _ ha))).mpr h)
          have hn' := (confirms_iff_promotes (hmem (by simp))).mp hn
          have h := FailoverOutcome.promoted hbusy hranked hfailed hn'
          simp only [hpromote, hlog, completeFailover_eq (before ++ [n]) n rfl,
            List.append_assoc] at hm'
          subst hm'
          rwa [hbusy] at h

end RedisLite.Controller
