import RedisLite.Controller.Election

namespace RedisLite.Controller

open Lib.Transcript
open scoped List

section

variable {script : Script} {log : List Call} {addr : Addr}

theorem pollRole_requests {n : ℕ} (h : (pollRole script addr n log).1 = false) :
    (pollRole script addr n log).2.map (·.request) = List.replicate n .role := by
  induction n generalizing log with
  | zero => rfl
  | succ n ih =>
    by_cases hmaster : role (call script log addr .role).response = some (ascii "master")
    · rw [pollRole, if_pos hmaster] at h
      cases h
    · rw [pollRole, if_neg hmaster] at h ⊢
      rw [List.map_cons, ih h, List.replicate_succ]
      rfl

/-- A candidate that accepts and is not confirmed is polled as often as possible. -/
theorem tryCandidate_requests (hfail : ¬Confirms script log addr) :
    (tryCandidate script log addr).2.map (·.request) =
      .noOne :: if replicaOf (replies script log addr [.noOne]) = true then
        List.replicate promoteMaxRetries .role else [] := by
  rw [← tryCandidate_fst, Bool.not_eq_true] at hfail
  rw [← call_response]
  by_cases hok : replicaOf (call script log addr .noOne).response = true
  · rw [tryCandidate, if_pos hok] at hfail ⊢
    rw [if_pos hok, List.map_cons, pollRole_requests hfail]
    rfl
  · rw [tryCandidate, if_neg hok, if_neg hok]
    rfl

end

variable {cfg : Config} {w : World cfg} {m : Monitor}

/-- What a node that is not elected is sent up to the end of `Promote`. -/
def approaches (w : World cfg) (m : Monitor) (a : Addr) : List Request :=
  if m.eligible a = true then
    .info :: if (passedOver w m).any (· = a) = true then
      .noOne :: if replicaOf (replies w.script m.log a [.info, .noOne]) = true then
        List.replicate promoteMaxRetries .role else []
      else []
  else []

theorem asked_infoCalls {a : Addr} (hmem : a ∈ cfg.nodes) :
    asked (infoCalls w m) a = if m.eligible a = true then [.info] else [] := by
  split
  · next helig => exact asked_map_ask _ candidatesOf_nodup (mem_candidatesOf.mpr ⟨hmem, helig⟩) _ _
  · next helig =>
    refine asked_eq_nil (fun x hx hpeer ↦ helig ?_)
    obtain ⟨b, hb, rfl⟩ := List.mem_map.mp hx
    exact hpeer ▸ (mem_candidatesOf.mp hb).2

theorem asked_attempts {log : List Call} {tried : List Addr} (hnodup : tried.Nodup) (a : Addr) :
    asked (attempts w.script log tried) a =
      if a ∈ tried then (tryCandidate w.script log a).2.map (·.request) else [] := by
  split
  · next ha => exact asked_flatMap hnodup ha (fun b ↦ tryCandidate_peer)
  · next ha =>
    refine asked_eq_nil (fun x hx hpeer ↦ ha ?_)
    obtain ⟨b, hb, hx⟩ := List.mem_flatMap.mp hx
    rwa [← hpeer, tryCandidate_peer x hx]

def Accepted (calls : List Call) (a : Addr) (request : Request) : Prop :=
  ∃ x ∈ calls, x.peer = a ∧ x.request = request ∧ replicaOf x.response = true

instance (calls : List Call) (a : Addr) (request : Request) :
    Decidable (Accepted calls a request) := inferInstanceAs (Decidable (∃ x ∈ calls, _))

/-- When a failover returns, `a` is the master, or is known as a master, or has accepted after
its `REPLICAOF NO ONE` to follow the master. -/
def Tracked (w : World cfg) (m : Monitor) (a : Addr) : Prop :=
  a = (triggerFailover w m).master ∨
  ((triggerFailover w m).nodes a).role = ascii "master" ∨
  ∃ host port, splitHostPort (triggerFailover w m).master = some (host, port) ∧
    ∃ x y, [x, y] <+ callsOf w m ∧ x.peer = a ∧ x.request = .noOne ∧
      y.peer = a ∧ y.request = .replicaOf host port ∧ replicaOf y.response = true

/-- A candidate whose turn comes accepts `REPLICAOF NO ONE`, but is not confirmed by the polls. -/
structure Unverified (w : World cfg) (m : Monitor) (a : Addr) : Prop where
  idle : m.failoverInProgress = false
  mem : a ∈ ranked w m
  first : ∀ n ∈ ranked w m, Promotes w.script m.log n → Ahead w.script m.log a n
  accepts : replicaOf (replies w.script m.log a [.info, .noOne]) = true
  fails : ¬Promotes w.script m.log a

/-- Another candidate is elected, its address can be split, and `a` accepts to follow it. -/
def Repaired (w : World cfg) (m : Monitor) (a : Addr) : Prop :=
  ∃ n host port, elected w m = some n ∧ splitHostPort n = some (host, port) ∧
    replicaOf (replies w.script m.log a
      (.info :: .noOne :: List.replicate promoteMaxRetries .role ++ [.replicaOf host port])) = true

theorem role_of_ranked {a : Addr} (h : a ∈ ranked w m) :
    (m.nodes a).role = ascii "slave" ∧ a ≠ m.master ∧ (m.nodes a).alive = true := by
  have helig := (mem_ranked.mp h).2.1
  simp only [Monitor.eligible, Bool.and_eq_true, beq_iff_eq, bne_iff_ne] at helig
  exact ⟨helig.1.2, helig.2, helig.1.1⟩

theorem request_of_mem_promotionCalls {tried : List Addr} {x : Call}
    (hx : x ∈ promotionCalls w m tried) (host port : Bytes) : x.request ≠ .replicaOf host port := by
  rcases List.mem_append.mp hx with hx | hx
  · rw [infoCalls_request hx]
    exact Request.noConfusion
  · obtain ⟨a, -, hx⟩ := List.mem_flatMap.mp hx
    rcases tryCandidate_request x hx with h | h
    · rw [h]
      exact Request.noConfusion
    · rw [h]
      exact Request.noConfusion

theorem accepted_noOne {calls : List Call} {tried : List Addr} {a : Addr} (ha : a ∈ tried)
    (hmem : a ∈ ranked w m) (hcalls : promotionCalls w m tried <+ calls)
    (hok : replicaOf (replies w.script m.log a [.info, .noOne]) = true) :
    Accepted calls a .noOne := by
  have hsent := List.mem_map_of_mem (f := (call w.script (m.log ++ infoCalls w m) · .noOne)) ha
  refine ⟨_, (((noOne_sublist_promotionCalls tried).trans hcalls).subset hsent), rfl, rfl, ?_⟩
  rw [call_response, replies_after_info (mem_candidates_of_ranked hmem)]
  exact hok

theorem mem_ranked_of_tried {before after : List Addr} {n a : Addr}
    (hranked : ranked w m = before ++ n :: after) (ha : a ∈ before ++ [n]) : a ∈ ranked w m := by
  rw [hranked, ← List.singleton_append, ← List.append_assoc]
  exact List.mem_append_left _ ha

theorem tried_nodup {before after : List Addr} {n : Addr}
    (hranked : ranked w m = before ++ n :: after) : (before ++ [n]).Nodup := by
  have h := ranked_nodup (w := w) (m := m)
  rw [hranked, ← List.singleton_append, ← List.append_assoc] at h
  exact h.of_append_left

theorem mem_siblingsOf {a n : Addr} (h : a ∈ ranked w m) (hne : a ≠ n) : a ∈ siblingsOf w m n := by
  obtain ⟨-, hmaster, halive⟩ := role_of_ranked h
  refine List.mem_filter.mpr ⟨(Order.mem_iff _).mpr (mem_ranked.mp h).1, ?_⟩
  simp [hne, hmaster, halive]

theorem redirect_mem (tried : List Addr) {a n : Addr} {host port : Bytes}
    (hsplit : splitHostPort n = some (host, port)) (ha : a ∈ siblingsOf w m n) :
    call w.script (m.log ++ promotionCalls w m tried) a (.replicaOf host port) ∈
      redirectCalls w m tried n := by
  rw [redirectCalls, hsplit]
  exact List.mem_map_of_mem ha

theorem role_of_tried {a n : Addr} (h : a ∈ ranked w m) (hne : a ≠ n) :
    (Function.update m.nodes n ⟨ascii "master", (m.nodes n).alive⟩ a).role ≠ ascii "master" := by
  rw [Function.update_of_ne hne, (role_of_ranked h).1]
  decide

/-- Without a new master no candidate is tracked, for nothing is sent after `Promote`. -/
theorem not_tracked_of_failed {a : Addr} (ha : a ∈ ranked w m)
    (hmaster : (triggerFailover w m).master = m.master)
    (hnodes : (triggerFailover w m).nodes = m.nodes)
    (hcalls : callsOf w m = promotionCalls w m (ranked w m)) : ¬Tracked w m a := by
  obtain ⟨hrole, hne, -⟩ := role_of_ranked ha
  rintro (h | h | ⟨host, port, -, x, y, hsub, -, -, -, hreq, -⟩)
  · rw [hmaster] at h
    exact hne h
  · rw [hnodes, hrole] at h
    exact absurd h (by decide)
  · rw [hcalls] at hsub
    exact request_of_mem_promotionCalls (hsub.subset (by simp)) host port hreq

theorem Unverified.mem_before {before after : List Addr} {n a : Addr} (hu : Unverified w m a)
    (hranked : ranked w m = before ++ n :: after) (hn : Promotes w.script m.log n) : a ∈ before :=
  (mem_before_iff hranked hu.mem).mpr (hu.first n (mem_ranked_of_tried hranked (by simp)) hn)

section Promoted

variable {before after : List Addr} {n a : Addr} (hranked : ranked w m = before ++ n :: after)
  (hbefore : ∀ a ∈ before, ¬Promotes w.script m.log a) (hn : Promotes w.script m.log n)

include hranked hbefore hn

theorem asked_promotionCalls (hmem : a ∈ cfg.nodes) (hne : a ≠ n) :
    asked (promotionCalls w m (before ++ [n])) a = approaches w m a := by
  have htried : a ∈ before ++ [n] ↔ a ∈ before := by simp [hne]
  have hany : before.any (· = a) = true ↔ a ∈ before := by simp
  rw [promotionCalls, asked_append, asked_infoCalls hmem, asked_attempts (tried_nodup hranked),
    approaches, passedOver_of_split hranked hbefore hn]
  by_cases ha : a ∈ before
  · have hin : a ∈ ranked w m := mem_ranked_of_tried hranked (htried.mpr ha)
    have hfail : ¬Confirms w.script (m.log ++ infoCalls w m) a := fun h ↦
      hbefore a ha ((confirms_iff_promotes hin).mp h)
    have helig := (mem_ranked.mp hin).2.1
    rw [if_pos helig, if_pos helig, if_pos (htried.mpr ha), if_pos (hany.mpr ha),
      tryCandidate_requests hfail, replies_after_info (mem_candidates_of_ranked hin),
      List.singleton_append]
  · rw [if_neg (fun h ↦ ha (htried.mp h)), if_neg (fun h ↦ ha (hany.mp h)), List.append_nil]

theorem redirect_response (hmem : a ∈ cfg.nodes) (hne : a ≠ n) (host port : Bytes) :
    (call w.script (m.log ++ promotionCalls w m (before ++ [n])) a
      (.replicaOf host port)).response =
      replies w.script m.log a (approaches w m a ++ [.replicaOf host port]) := by
  rw [call_response, replies_append (asked_promotionCalls hranked hbefore hn hmem hne)]

theorem Unverified.approaches_eq (hu : Unverified w m a) :
    approaches w m a = .info :: .noOne :: List.replicate promoteMaxRetries .role := by
  have ha : before.any (· = a) = true := by simpa using hu.mem_before hranked hn
  rw [approaches, if_pos (mem_ranked.mp hu.mem).2.1, passedOver_of_split hranked hbefore hn,
    if_pos ha, if_pos hu.accepts]

/-- A candidate before the new master can only be tracked through the redirect. -/
theorem repaired_of_tracked (hmaster : (triggerFailover w m).master = n)
    (hnodes : (triggerFailover w m).nodes =
      Function.update m.nodes n ⟨ascii "master", (m.nodes n).alive⟩)
    (hcalls : callsOf w m =
      promotionCalls w m (before ++ [n]) ++ redirectCalls w m (before ++ [n]) n)
    (hu : Unverified w m a) (hne : a ≠ n) (ht : Tracked w m a) : Repaired w m a := by
  rcases ht with h | h | ⟨host, port, hsplit, x, y, hxy, -, -, rfl, hreq, hok⟩
  · rw [hmaster] at h
    exact absurd h hne
  · rw [hnodes] at h
    exact absurd h (role_of_tried hu.mem hne)
  · have hy : y ∈ promotionCalls w m (before ++ [n]) ++ redirectCalls w m (before ++ [n]) n := by
      rw [← hcalls]
      exact hxy.subset (by simp)
    rcases List.mem_append.mp hy with hy | hy
    · exact absurd hreq (request_of_mem_promotionCalls hy host port)
    · obtain ⟨host', port', -, -, hcall⟩ := mem_redirectCalls hy
      rw [hcall] at hreq
      injection hreq with hhost hport
      subst hhost hport
      rw [hcall, redirect_response hranked hbefore hn (mem_ranked.mp hu.mem).1 hne,
        hu.approaches_eq hranked hbefore hn] at hok
      rw [hmaster] at hsplit
      exact ⟨n, host', port', elected_of_split hranked hbefore hn, hsplit, hok⟩

theorem tracked_of_repaired (hmaster : (triggerFailover w m).master = n)
    (hcalls : callsOf w m =
      promotionCalls w m (before ++ [n]) ++ redirectCalls w m (before ++ [n]) n)
    (hu : Unverified w m a) (hne : a ≠ n) (hr : Repaired w m a) : Tracked w m a := by
  obtain ⟨n', host, port, helected, hsplit, hfollows⟩ := hr
  obtain rfl : n = n' := Option.some.inj ((elected_of_split hranked hbefore hn).symm.trans helected)
  rw [← hu.approaches_eq hranked hbefore hn,
    ← redirect_response hranked hbefore hn (mem_ranked.mp hu.mem).1 hne] at hfollows
  refine .inr (.inr ⟨host, port, hmaster ▸ hsplit,
    call w.script (m.log ++ infoCalls w m) a .noOne,
    call w.script (m.log ++ promotionCalls w m (before ++ [n])) a (.replicaOf host port),
    ?_, rfl, rfl, rfl, rfl, hfollows⟩)
  have ha : a ∈ before ++ [n] := List.mem_append_left _ (hu.mem_before hranked hn)
  have hsent := (List.singleton_sublist.mpr (List.mem_map_of_mem ha)).trans
    (noOne_sublist_promotionCalls (w := w) (m := m) (before ++ [n]))
  have hredirect := redirect_mem (before ++ [n]) hsplit (mem_siblingsOf hu.mem hne)
  rw [hcalls]
  exact hsent.append (List.singleton_sublist.mpr hredirect)

end Promoted

/-- A failover leaves no untracked master exactly when every candidate that accepts `REPLICAOF NO
ONE` without being confirmed is repaired. -/
theorem strays_tracked_iff (w : World cfg) (m : Monitor) :
    (∀ a, Accepted (callsOf w m) a .noOne → Tracked w m a) ↔
      ∀ a, Unverified w m a → Repaired w m a := by
  have hout := triggerFailover_outcome w m
  generalize hm' : triggerFailover w m = m' at hout
  cases hout with
  | skipped hbusy =>
    have hcalls : callsOf w m = [] := callsOf_of_log (by rw [hm', List.append_nil])
    refine iff_of_true ?_ (fun a hu ↦ ?_)
    · rintro a ⟨x, hx, -⟩
      rw [hcalls] at hx
      cases hx
    · simp [hu.idle] at hbusy
  | failed _ hnone =>
    have hcalls := callsOf_of_log (by rw [hm'])
    constructor
    · intro h a hu
      have htracked := h a (accepted_noOne hu.mem hu.mem (by rw [hcalls]) hu.accepts)
      exact absurd htracked (not_tracked_of_failed hu.mem (by rw [hm']) (by rw [hm']) hcalls)
    · rintro h a ⟨x, hx, rfl, hreq, hok⟩
      rw [hcalls] at hx
      obtain ⟨a, ha, rfl⟩ := noOne_mem_promotionCalls hx hreq
      rw [call_response, replies_after_info (mem_candidates_of_ranked ha)] at hok
      obtain ⟨n, -, -, helected, -⟩ :=
        h a ⟨‹_›, ha, fun n hn hp ↦ absurd hp (hnone n hn), hok, hnone a ha⟩
      rw [elected_eq_none.mpr hnone] at helected
      cases helected
  | @promoted before after n hidle hranked hbefore hn =>
    have hcalls := callsOf_of_log (by rw [hm'])
    have hmaster : (triggerFailover w m).master = n := by rw [hm']
    constructor
    · intro h a hu
      have hne : a ≠ n := fun heq ↦ hu.fails (heq ▸ hn)
      have htried : a ∈ before ++ [n] :=
        List.mem_append_left _ (hu.mem_before hranked hn)
      have hsub := List.sublist_append_left (promotionCalls w m (before ++ [n]))
        (redirectCalls w m (before ++ [n]) n)
      rw [← hcalls] at hsub
      exact repaired_of_tracked hranked hbefore hn hmaster (by rw [hm']) hcalls hu hne
        (h a (accepted_noOne htried hu.mem hsub hu.accepts))
    · rintro h a ⟨x, hx, rfl, hreq, hok⟩
      rw [hcalls] at hx
      obtain ⟨a, ha, rfl⟩ := noOne_mem_calls hx hreq
      have hmem := mem_ranked_of_tried hranked ha
      by_cases hne : a = n
      · exact .inl (hne.trans hmaster.symm)
      · have hfirst : a ∈ before := by
          rcases List.mem_append.mp ha with ha | ha
          · exact ha
          · exact absurd (List.mem_singleton.mp ha) hne
        rw [call_response, replies_after_info (mem_candidates_of_ranked hmem)] at hok
        have hu : Unverified w m a := ⟨hidle, hmem, fun b hb hp ↦
          ahead_of_mem_before hranked hfirst hb (fun hb ↦ hbefore b hb hp), hok, hbefore a hfirst⟩
        exact tracked_of_repaired hranked hbefore hn hmaster hcalls hu hne (h a hu)

def Stray (w : World cfg) (m : Monitor) (a : Addr) : Prop :=
  Accepted (callsOf w m) a .noOne ∧ a ≠ (triggerFailover w m).master ∧
    ((triggerFailover w m).nodes a).role ≠ ascii "master" ∧
    ∀ x ∈ callsOf w m, x.peer = a → replicaOf x.response = true → x.request = .noOne

instance (w : World cfg) (m : Monitor) (a : Addr) : Decidable (Stray w m a) :=
  inferInstanceAs (Decidable (_ ∧ _ ∧ _ ∧ _))

theorem Stray.not_tracked {a : Addr} (h : Stray w m a) : ¬Tracked w m a := by
  obtain ⟨-, hmaster, hrole, hcalls⟩ := h
  rintro (h | h | ⟨host, port, -, x, y, hsub, -, -, hpeer, hreq, hok⟩)
  · exact hmaster h
  · exact hrole h
  · have h := hcalls y (hsub.subset (by simp)) hpeer hok
    rw [hreq] at h
    cases h

def silentWorld : World ⟨sampleNodes, 3⟩ :=
  configured sampleNodes 3 sampleNodes_nodup
    (answering sampleInfo (fun _ ↦ none) (fun _ ↦ ok) (fun _ ↦ ok))

def vanishingWorld : World ⟨sampleNodes, 3⟩ :=
  configured sampleNodes 3 sampleNodes_nodup (answering sampleInfo
    (fun addr ↦ if addr = ascii "c:3" then none else masterRole) (fun _ ↦ ok)
    (fun addr ↦ if addr = ascii "c:3" then none else ok))

/-- A replica is promoted and recorded as a replica: when all candidates fail, and when a later
one succeeds. -/
theorem promoted_replica_untracked :
    ((triggerFailover silentWorld sampleMonitor).master = ascii "a:1" ∧
      Accepted (callsOf silentWorld sampleMonitor) (ascii "b:2") .noOne ∧
      ¬Tracked silentWorld sampleMonitor (ascii "b:2") ∧
      Accepted (callsOf silentWorld sampleMonitor) (ascii "c:3") .noOne ∧
      ¬Tracked silentWorld sampleMonitor (ascii "c:3")) ∧
    (triggerFailover vanishingWorld sampleMonitor).master = ascii "b:2" ∧
      Accepted (callsOf vanishingWorld sampleMonitor) (ascii "c:3") .noOne ∧
      ¬Tracked vanishingWorld sampleMonitor (ascii "c:3") := by
  have hsilent : (triggerFailover silentWorld sampleMonitor).master = ascii "a:1" ∧
      Stray silentWorld sampleMonitor (ascii "b:2") ∧
      Stray silentWorld sampleMonitor (ascii "c:3") := by decide +kernel
  have hvanishing : (triggerFailover vanishingWorld sampleMonitor).master = ascii "b:2" ∧
      Stray vanishingWorld sampleMonitor (ascii "c:3") := by decide +kernel
  obtain ⟨hnone, hb, hc⟩ := hsilent
  obtain ⟨hmaster, hc'⟩ := hvanishing
  exact ⟨⟨hnone, hb.1, hb.not_tracked, hc.1, hc.not_tracked⟩, hmaster, hc'.1, hc'.not_tracked⟩

end RedisLite.Controller
