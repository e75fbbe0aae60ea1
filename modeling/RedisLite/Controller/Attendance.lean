import RedisLite.Controller.Following

namespace RedisLite.Controller

open Lib.Run

variable {cfg : Config} {w : World cfg} {m m' : Monitor} {a addr : Addr}

def Triggers (cfg : Config) (m : Monitor) (r : PingResult) : Prop :=
  r = ⟨m.master, false⟩ ∧ cfg.failureThresh ≤ m.fails m.master + 1

/-- No failover is under way, and that of this step finds a candidate that can be promoted. -/
def Succeeds (w : World cfg) (m : Monitor) (r : PingResult) : Prop :=
  Triggers cfg m r ∧ m.failoverInProgress = false ∧
    (elected w (m.downed m.master)).isSome = true

/-- The address of the elected node can be split, and every live sibling that is not recorded as a
master answers the `REPLICAOF` naming it, after what it has been sent by then, with an `OK`. -/
def Redirected (w : World cfg) (m : Monitor) : Prop :=
  ∃ n ∈ elected w m, ∃ hp ∈ splitHostPort n, ∀ a ∈ siblingsOf w m n,
    (m.nodes a).role = ascii "master" ∨
      replicaOf (replies w.script m.log a (approaches w m a ++ [.replicaOf hp.1 hp.2])) = true

/-- A step that leaves no node behind: a dead node that answers again reports to be a master or
follows the master already; the siblings of a new master accept to follow it; and when no
candidate can be promoted, none accepts `REPLICAOF NO ONE`. -/
@[mk_iff] structure Attends (w : World cfg) (m : Monitor) (r : PingResult) : Prop where
  recovers : r.alive = true → (m.nodes r.addr).alive = false → r.addr ≠ m.master →
    (role (replies w.script m.log r.addr [.role])).getD (m.nodes r.addr).role =
      ascii "master" ∨ Follows m r.addr
  redirects : Succeeds w m r → Redirected w (m.downed m.master)
  strands : Triggers cfg m r → elected w (m.downed m.master) = none →
    ∀ a ∈ ranked w (m.downed m.master),
      replicaOf (replies w.script m.log a [.info, .noOne]) = false

instance (cfg : Config) (m : Monitor) (r : PingResult) : Decidable (Triggers cfg m r) :=
  inferInstanceAs (Decidable (_ ∧ _))

instance (w : World cfg) (m : Monitor) (r : PingResult) : Decidable (Succeeds w m r) :=
  inferInstanceAs (Decidable (_ ∧ _))

instance (w : World cfg) (m : Monitor) : Decidable (Redirected w m) :=
  inferInstanceAs (Decidable (∃ n ∈ elected w m, ∃ hp ∈ splitHostPort n, _))

instance (w : World cfg) (m : Monitor) (r : PingResult) : Decidable (Attends w m r) :=
  decidable_of_iff' _ (attends_iff w m r)

structure Attended (cfg : Config) (m : Monitor) : Prop where
  known : (splitHostPort m.master).isSome = true
  minded : ∀ a ∈ cfg.nodes, (m.nodes a).alive = true → Minded m a

theorem Attended.master_ne (h : Attended cfg m) : m.master ≠ [] := by
  intro hnil
  have hknown := h.known
  rw [hnil] at hknown
  exact absurd hknown (by decide)

theorem Attended.downed (h : Attended cfg m) (addr : Addr) : Attended cfg (m.downed addr) := by
  refine ⟨h.known, fun a hmem halive ↦ ?_⟩
  by_cases hne : a = addr
  · rw [hne, Monitor.downed, Monitor.setAlive_nodes_self] at halive
    cases halive
  · have hnode : (m.downed addr).nodes a = m.nodes a :=
      (m.missed addr).setAlive_nodes_of_ne addr false hne
    rw [hnode] at halive
    exact (h.minded a hmem halive).congr rfl rfl (congrArg Node.role hnode)

/-- What a failed failover sends binds nobody, when `REPLICAOF NO ONE` is refused. -/
theorem following_promotionCalls {tried : List Addr}
    (hrefused : ∀ x ∈ promotionCalls w m tried, x.peer = a → x.request = .noOne →
      replicaOf x.response = false) :
    following (m.log ++ promotionCalls w m tried) a = following m.log a := by
  refine following_append_idle (fun x hx hpeer hok ↦ ?_)
  have hnot : x.request ≠ .noOne := fun hreq ↦ by
    rw [hrefused x hx hpeer hreq] at hok
    cases hok
  rcases List.mem_append.mp hx with hx | hx
  · exact .inl (infoCalls_request hx)
  · obtain ⟨b, -, hx⟩ := List.mem_flatMap.mp hx
    exact .inr ((tryCandidate_request x hx).resolve_left hnot)

theorem following_redirectCalls {tried : List Addr} {n : Addr} {host port : Bytes}
    (hsplit : splitHostPort n = some (host, port)) (ha : a ∈ siblingsOf w m n)
    (hok : replicaOf (call w.script (m.log ++ promotionCalls w m tried) a
      (.replicaOf host port)).response = true) :
    following (m.log ++ (promotionCalls w m tried ++ redirectCalls w m tried n)) a =
      some (host, port) := by
  obtain ⟨before, after, hsiblings⟩ := List.append_of_mem ha
  have hnodup := siblingsOf_nodup (w := w) (m := m) n
  rw [hsiblings] at hnodup
  have hnot : a ∉ before ++ after := (List.nodup_cons.mp (List.nodup_middle.mp hnodup)).1
  rw [redirectCalls, hsplit, hsiblings]
  dsimp only
  rw [List.map_append, List.map_cons, ← List.append_assoc, ← List.append_assoc,
    ← List.singleton_append, ← List.append_assoc, following_append_other]
  · exact following_append_accepted rfl rfl hok
  · intro x hx hpeer
    obtain ⟨b, hb, rfl⟩ := List.mem_map.mp hx
    exact hnot (List.mem_append_right _ (hpeer ▸ hb))

/-- A successful failover redirects every live node. -/
theorem Attended.of_redirected (hdead : (m.nodes m.master).alive = false)
    (hidle : m.failoverInProgress = false) (h : Redirected w m) :
    Attended cfg (triggerFailover w m) := by
  obtain ⟨n, helected, ⟨host, port⟩, hsplit, hsiblings⟩ := h
  have hout := triggerFailover_outcome w m
  generalize triggerFailover w m = m' at hout ⊢
  cases hout with
  | skipped hbusy => simp [hidle] at hbusy
  | failed _ hnone =>
    rw [elected_eq_none.mpr hnone] at helected
    cases helected
  | promoted _ hranked hbefore hn =>
    rw [elected_of_split hranked hbefore hn] at helected
    cases helected
    refine ⟨Option.isSome_of_mem hsplit, fun a hmem halive ↦ ?_⟩
    by_cases hne : a = n
    · exact .inl hne
    · have hnode : Function.update m.nodes n ⟨ascii "master", (m.nodes n).alive⟩ a = m.nodes a :=
        Function.update_of_ne hne _ _
      have halive : (m.nodes a).alive = true := by rwa [← hnode]
      have hold : a ≠ m.master := fun heq ↦ by
        rw [heq, hdead] at halive
        cases halive
      have ha : a ∈ siblingsOf w m n := by
        refine List.mem_filter.mpr ⟨(Order.mem_iff _).mpr hmem, ?_⟩
        simp [hne, hold, halive]
      rcases hsiblings a ha with hrole | hok
      · exact .inr (.inr ((congrArg Node.role hnode).trans hrole))
      · rw [← redirect_response hranked hbefore hn hmem hne] at hok
        exact .inr (.inl ⟨Option.isSome_of_mem hsplit,
          (following_redirectCalls hsplit ha hok).trans hsplit.symm⟩)

theorem Attended.of_unmoved (h : Attended cfg m) (hnone : elected w m = none)
    (hrefused : ∀ a ∈ ranked w m, replicaOf (replies w.script m.log a [.info, .noOne]) = false) :
    Attended cfg (triggerFailover w m) := by
  have hout := triggerFailover_outcome w m
  generalize triggerFailover w m = m' at hout ⊢
  cases hout with
  | skipped => exact h
  | failed =>
    refine ⟨h.known, fun a hmem halive ↦ (h.minded a hmem halive).congr rfl ?_ rfl⟩
    refine following_promotionCalls (fun x hx _ hreq ↦ ?_)
    obtain ⟨b, hb, rfl⟩ := noOne_mem_promotionCalls hx hreq
    rw [call_response, replies_after_info (mem_candidates_of_ranked hb)]
    exact hrefused b hb
  | promoted _ hranked hbefore hn =>
    rw [elected_of_split hranked hbefore hn] at hnone
    cases hnone

theorem Attended.of_failover (hfails : cfg.failureThresh ≤ m.fails m.master + 1)
    (hs : Attends w m ⟨m.master, false⟩)
    (h : ¬Succeeds w m ⟨m.master, false⟩ → Attended cfg m) :
    Attended cfg (triggerFailover w (m.downed m.master)) := by
  have hdead : ((m.downed m.master).nodes m.master).alive = false := by
    rw [Monitor.downed, Monitor.setAlive_nodes_self]
  by_cases hsucceeds : Succeeds w m ⟨m.master, false⟩
  · exact .of_redirected hdead hsucceeds.2.1 (hs.redirects hsucceeds)
  · have hm := (h hsucceeds).downed m.master
    cases hbusy : m.failoverInProgress with
    | true =>
      rw [triggerFailover, if_pos (by exact hbusy)]
      exact hm
    | false =>
      have hnone : elected w (m.downed m.master) = none := by
        rw [← Option.not_isSome_iff_eq_none]
        exact fun hsome ↦ hsucceeds ⟨⟨rfl, hfails⟩, hbusy, hsome⟩
      exact hm.of_unmoved hnone (hs.strands ⟨rfl, hfails⟩ hnone)

theorem Minded.awake (h : Minded m a) (addr : Addr) : Minded (m.awake addr) a :=
  h.congr rfl rfl ((m.setFails addr 0).setAlive_role addr true a)

theorem following_record_role (script : Script) (m : Monitor) (a addr : Addr) :
    following (m.log ++ [call script m.log addr .role]) a = following m.log a := by
  refine following_append_idle (fun x hx _ _ ↦ .inr ?_)
  rw [List.mem_singleton.mp hx]
  rfl

theorem alive_of_awake (hne : a ≠ addr) (h : ((m.awake addr).nodes a).alive = true) :
    (m.nodes a).alive = true := by
  rwa [Monitor.awake, Monitor.setAlive_nodes_of_ne _ _ _ hne] at h

theorem Attended.others (h : Attended cfg m) (hmem : a ∈ cfg.nodes) (hne : a ≠ addr)
    (ha : ((m.awake addr).nodes a).alive = true) :
    Minded ((m.awake addr).record [call w.script m.log addr .role]) a :=
  ((h.minded a hmem (alive_of_awake hne ha)).awake addr).congr rfl
    (following_record_role w.script m a addr) rfl

theorem Attends.returning (hs : Attends w m ⟨a, true⟩) (hdead : (m.nodes a).alive = false) :
    a = m.master ∨ Follows m a ∨
      (role (call w.script m.log a .role).response).getD (m.nodes a).role = ascii "master" := by
  by_cases hmaster : a = m.master
  · exact .inl hmaster
  · rw [call_response]
    exact .inr (hs.recovers rfl hdead hmaster).symm

theorem Attended.step {r : PingResult} (h : Attended cfg m) (hs : Attends w m r) :
    Attended cfg (handleResult w m r) := by
  have hout := handleResult_outcome w m r
  generalize handleResult w m r = m' at hout ⊢
  cases hout with
  | suspect => exact ⟨h.known, h.minded⟩
  | dead => exact h.downed _
  | failover hfails => exact .of_failover hfails hs (fun _ ↦ h)
  | @mute addr hdead hrole =>
    refine ⟨h.known, fun a hmem ha ↦ ?_⟩
    by_cases hne : a = addr
    · subst hne
      have hminded : Minded m a := by
        have hreturning := hs.returning hdead
        rwa [hrole, Option.getD_none] at hreturning
      exact (hminded.awake a).congr rfl (following_record_role w.script m a a) rfl
    · exact h.others hmem hne ha
  | @recovered addr value hdead hrole =>
    have hknown : ((m.awake addr).record [call w.script m.log addr .role]).master ≠ [] :=
      h.master_ne
    refine ⟨?_, fun a hmem ha ↦ .retryStale (.recovered hknown (fun hne ↦ ?_) fun heq ↦ ?_)⟩
    · rw [retryStale_master, recovered_master hknown]
      exact h.known
    · rw [(SameHealth.retryStale w _ addr).alive, (SameHealth.recovered w _ addr value).alive] at ha
      exact h.others hmem hne ha
    · subst heq
      rcases hs.returning hdead with hmaster | hreturning
      · exact .inl hmaster
      · rw [hrole, Option.getD_some] at hreturning
        refine .inr (hreturning.imp_left (fun hfollows ↦ ⟨hfollows.1, ?_⟩))
        exact (following_record_role w.script m a a).trans hfollows.2
  | @healthy addr halive =>
    refine ⟨?_, fun a hmem ha ↦ .retryStale ((h.minded a hmem ?_).awake addr)⟩
    · rw [retryStale_master]
      exact h.known
    · rw [(SameHealth.retryStale w _ addr).alive] at ha
      by_cases hne : a = addr
      · rw [hne]
        exact halive
      · exact alive_of_awake hne ha

theorem handleResult_of_triggers {r : PingResult} (h : Triggers cfg m r) :
    handleResult w m r = triggerFailover w (m.downed m.master) := by
  obtain ⟨rfl, hfails⟩ := h
  rw [handleResult, if_neg Bool.false_ne_true, pingFailed_eq, if_pos hfails, if_pos rfl]

theorem Attended.of_succeeds {r : PingResult} (h : Succeeds w m r) (hs : Attends w m r) :
    Attended cfg (handleResult w m r) := by
  rw [handleResult_of_triggers h.1]
  obtain ⟨rfl, hfails⟩ := h.1
  exact .of_failover hfails hs (fun hnot ↦ absurd h hnot)

/-- Once a failover has succeeded, and while every step attends to the nodes, no live node is left
behind. -/
theorem replicas_attended {order : Order cfg} {ticks : List (Tick cfg)}
    {before after : List PingResult} {r : PingResult}
    (hticks : ticks.flatMap Tick.results = before ++ r :: after)
    (hsucceeds : Succeeds w (run (handleResult w) (start w order) before) r)
    (hattends : Along (handleResult w) (Attends w)
      (run (handleResult w) (start w order) before) (r :: after)) :
    let m := run (healthCheck w) (start w order) ticks
    ∀ a ∈ cfg.nodes, (m.nodes a).alive = true → a ≠ m.master →
      Follows m a ∨ (m.nodes a).role = ascii "master" := by
  intro m a hmem halive hne
  have hrun : m = run (handleResult w) (run (handleResult w) (start w order) before)
      (r :: after) := by
    rw [← run_append, ← hticks, ← run_flatMap]
    rfl
  have hfirst := Attended.of_succeeds hsucceeds hattends.1
  have hlast : Attended cfg m := by
    rw [hrun, run_cons]
    exact run_invariant (handleResult w) (fun _ _ hm hs ↦ hm.step hs) hfirst hattends.2
  exact (hlast.minded a hmem halive).resolve_left hne

def returningTicks : List (Tick ⟨sampleNodes, 2⟩) :=
  [tickWithout 2 [ascii "a:1"], tickWithout 2 [ascii "a:1"], tickWithout 2 []]

def returningResults : List PingResult :=
  [⟨ascii "b:2", true⟩, ⟨ascii "c:3", true⟩] ++ (tickWithout 2 []).results

theorem replicas_attended_returning :
    let m := run (healthCheck electingWorld) (start electingWorld (sampleOrder 2)) returningTicks
    m.master = ascii "c:3" ∧ Follows m (ascii "a:1") ∧ Follows m (ascii "b:2") := by
  intro m
  have hticks : returningTicks.flatMap Tick.results = (tickWithout 2 [ascii "a:1"]).results ++
      ⟨ascii "a:1", false⟩ :: returningResults := by decide +kernel
  have hruns : Succeeds electingWorld (run (handleResult electingWorld)
        (start electingWorld (sampleOrder 2)) (tickWithout 2 [ascii "a:1"]).results)
        ⟨ascii "a:1", false⟩ ∧
      Along (handleResult electingWorld) (Attends electingWorld) (run (handleResult electingWorld)
        (start electingWorld (sampleOrder 2)) (tickWithout 2 [ascii "a:1"]).results)
        (⟨ascii "a:1", false⟩ :: returningResults) := by decide +kernel
  have hend : m.master = ascii "c:3" ∧ m.nodes (ascii "a:1") = ⟨ascii "slave", true⟩ ∧
      m.nodes (ascii "b:2") = ⟨ascii "slave", true⟩ := by decide +kernel
  obtain ⟨hmaster, ha, hb⟩ := hend
  have h := replicas_attended hticks hruns.1 hruns.2
  have hfollows {x : Addr} (hmem : x ∈ sampleNodes) (hne : x ≠ ascii "c:3")
      (hx : m.nodes x = ⟨ascii "slave", true⟩) : Follows m x := by
    rcases h x hmem (congrArg Node.alive hx) (fun heq ↦ hne (heq.trans hmaster)) with h | h
    · exact h
    · exact absurd ((congrArg Node.role hx).symm.trans h) (by decide)
  exact ⟨hmaster, hfollows (by decide) (by decide) ha, hfollows (by decide) (by decide) hb⟩

def deafWorld : World ⟨sampleNodes, 2⟩ :=
  configured sampleNodes 2 sampleNodes_nodup (electing (fun _ ↦ none))

def lateTicks : List (Tick ⟨sampleNodes, 2⟩) :=
  [tickWithout 2 [ascii "b:2"], tickWithout 2 [ascii "a:1", ascii "b:2"],
    tickWithout 2 [ascii "a:1", ascii "b:2"], tickWithout 2 [ascii "a:1"]]

/-- At the end of a tick, a live node is not the master, does not follow it and is not recorded as
a master: a sibling that was not reached, and a replica that was dead at the failover. -/
theorem replica_left_behind :
    (let ticks := [tickWithout 2 [ascii "a:1"], tickWithout 2 [ascii "a:1"]]
    let m := run (healthCheck deafWorld) (start deafWorld (sampleOrder 2)) ticks
    m.master = ascii "c:3" ∧ m.nodes (ascii "b:2") = ⟨ascii "slave", true⟩ ∧
      pingsOf (ticks.flatMap Tick.results) (ascii "b:2") = [true, true] ∧
      ¬Follows m (ascii "b:2")) ∧
    let m := run (healthCheck electingWorld) (start electingWorld (sampleOrder 2)) lateTicks
    m.master = ascii "c:3" ∧ m.nodes (ascii "b:2") = ⟨ascii "slave", true⟩ ∧
      pingsOf (lateTicks.flatMap Tick.results) (ascii "b:2") = [false, false, false, true] ∧
      ¬Follows m (ascii "b:2") := by
  decide +kernel

end RedisLite.Controller
