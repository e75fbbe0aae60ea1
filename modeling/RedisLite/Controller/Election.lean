import RedisLite.Controller.Failover

namespace RedisLite.Controller

open scoped List

section Attempts

variable {script : Script} {log : List Call}

theorem noOne_sublist_attempts (tried : List Addr) :
    tried.map (call script log · .noOne) <+ attempts script log tried := by
  induction tried with
  | nil => exact .slnil
  | cons a rest ih =>
    obtain ⟨polls, hcalls, -⟩ := tryCandidate_calls script log a
    rw [List.map_cons, attempts, List.flatMap_cons, hcalls, List.cons_append]
    exact (ih.trans (List.sublist_append_right _ _)).cons_cons _

theorem noOne_mem_attempts {tried : List Addr} {x : Call} (hx : x ∈ attempts script log tried)
    (hreq : x.request = .noOne) : ∃ a ∈ tried, x = call script log a .noOne := by
  obtain ⟨a, ha, hx⟩ := List.mem_flatMap.mp hx
  obtain ⟨polls, hcalls, hpolls⟩ := tryCandidate_calls script log a
  rw [hcalls] at hx
  rcases List.mem_cons.mp hx with rfl | hx
  · exact ⟨a, ha, rfl⟩
  · rw [(hpolls x hx).2] at hreq
    cases hreq

end Attempts

variable {cfg : Config} {w : World cfg} {m : Monitor}

def callsOf (w : World cfg) (m : Monitor) : List Call :=
  (triggerFailover w m).log.drop m.log.length

theorem infoCalls_request {x : Call} (hx : x ∈ infoCalls w m) : x.request = .info := by
  obtain ⟨a, -, rfl⟩ := List.mem_map.mp hx
  rfl

theorem mem_redirectCalls {tried : List Addr} {n : Addr} {x : Call}
    (hx : x ∈ redirectCalls w m tried n) :
    ∃ host port, splitHostPort n = some (host, port) ∧ x.peer ∈ siblingsOf w m n ∧
      x = call w.script (m.log ++ promotionCalls w m tried) x.peer (.replicaOf host port) := by
  rw [redirectCalls] at hx
  cases hsplit : splitHostPort n with
  | none =>
    rw [hsplit] at hx
    cases hx
  | some hp =>
    rw [hsplit] at hx
    obtain ⟨a, ha, rfl⟩ := List.mem_map.mp hx
    exact ⟨hp.1, hp.2, rfl, ha, rfl⟩

theorem noOne_mem_promotionCalls {tried : List Addr} {x : Call}
    (hx : x ∈ promotionCalls w m tried) (hreq : x.request = .noOne) :
    ∃ a ∈ tried, x = call w.script (m.log ++ infoCalls w m) a .noOne := by
  rcases List.mem_append.mp hx with hx | hx
  · rw [infoCalls_request hx] at hreq
    cases hreq
  · exact noOne_mem_attempts hx hreq

theorem noOne_mem_calls {tried : List Addr} {n : Addr} {x : Call}
    (hx : x ∈ promotionCalls w m tried ++ redirectCalls w m tried n) (hreq : x.request = .noOne) :
    ∃ a ∈ tried, x = call w.script (m.log ++ infoCalls w m) a .noOne := by
  rcases List.mem_append.mp hx with hx | hx
  · exact noOne_mem_promotionCalls hx hreq
  · obtain ⟨host, port, -, -, h⟩ := mem_redirectCalls hx
    rw [h] at hreq
    cases hreq

theorem noOne_sublist_promotionCalls (tried : List Addr) :
    tried.map (call w.script (m.log ++ infoCalls w m) · .noOne) <+ promotionCalls w m tried :=
  (noOne_sublist_attempts tried).trans (List.sublist_append_right _ _)

theorem Ahead.irrefl {script : Script} {log : List Call} (a : Addr) : ¬Ahead script log a a := by
  rintro ⟨n, k, hn, hk, h⟩
  rw [hn] at hk
  have heq : n = k := Option.some.inj hk
  rcases h with h | ⟨-, h⟩
  · omega
  · exact List.lt_irrefl a h

theorem Ahead.asymm {script : Script} {log : List Call} {a b : Addr} (hab : Ahead script log a b) :
    ¬Ahead script log b a := by
  rintro ⟨n, k, hn, hk, h⟩
  obtain ⟨n', k', hn', hk', h'⟩ := hab
  rw [hn'] at hk
  rw [hk'] at hn
  have hk : n' = k := Option.some.inj hk
  have hn : k' = n := Option.some.inj hn
  rcases h with h | ⟨h, hlt⟩ <;> rcases h' with h' | ⟨h', hlt'⟩
  · omega
  · omega
  · omega
  · exact List.lt_asymm hlt hlt'

theorem mem_before_iff {before after : List Addr} {n a : Addr}
    (hranked : ranked w m = before ++ n :: after) (ha : a ∈ ranked w m) :
    a ∈ before ↔ Ahead w.script m.log a n := by
  have hsorted := ranked_ahead (w := w) (m := m)
  rw [hranked] at hsorted ha
  obtain ⟨-, htail, hcross⟩ := List.pairwise_append.mp hsorted
  refine ⟨fun h ↦ hcross a h n List.mem_cons_self, fun h ↦ ?_⟩
  rcases List.mem_append.mp ha with ha | ha
  · exact ha
  · rcases List.mem_cons.mp ha with rfl | ha
    · exact absurd h (Ahead.irrefl a)
    · exact absurd h ((List.pairwise_cons.mp htail).1 a ha).asymm

theorem ahead_of_mem_before {before after : List Addr} {n a b : Addr}
    (hranked : ranked w m = before ++ n :: after) (ha : a ∈ before) (hb : b ∈ ranked w m)
    (hnot : b ∉ before) : Ahead w.script m.log a b := by
  have hsorted := ranked_ahead (w := w) (m := m)
  rw [hranked] at hsorted hb
  exact (List.pairwise_append.mp hsorted).2.2 a ha b ((List.mem_append.mp hb).resolve_left hnot)

theorem callsOf_of_log {calls : List Call} (h : (triggerFailover w m).log = m.log ++ calls) :
    callsOf w m = calls := by
  rw [callsOf, h, List.drop_left]

theorem triggerFailover_master (hidle : m.failoverInProgress = false) :
    (triggerFailover w m).master = (elected w m).getD m.master := by
  have h := triggerFailover_outcome w m
  generalize triggerFailover w m = m' at h ⊢
  cases h with
  | skipped hbusy => simp [hidle] at hbusy
  | failed _ hnone => rw [elected_eq_none.mpr hnone, Option.getD_none]
  | promoted _ hranked hbefore hn =>
    rw [elected_of_split hranked hbefore hn, Option.getD_some]

theorem triggerFailover_master_congr {w' : World cfg} (hscript : w'.script = w.script) :
    (triggerFailover w' m).master = (triggerFailover w m).master := by
  cases hbusy : m.failoverInProgress with
  | true => rw [triggerFailover, triggerFailover, if_pos hbusy, if_pos hbusy]
  | false =>
    have hranked : ranked w' m = ranked w m := by rw [ranked, ranked, hscript]
    rw [triggerFailover_master hbusy, triggerFailover_master hbusy, elected, elected, hranked,
      hscript]

/-- A new master was a live replica that answered `INFO`, accepted `REPLICAOF NO ONE` and reported
the role of a master in time. All better candidates had been tried and had failed, and no worse
one was sent the command. The choice does not depend on the orders of the loops, and nothing
changes when no candidate qualifies. -/
theorem failover_selection (w : World cfg) (m : Monitor) :
    ((triggerFailover w m).master ≠ m.master →
      ∃ n ∈ cfg.nodes, (triggerFailover w m).master = n ∧ m.eligible n = true ∧
        (offsetOf w.script m.log n).isSome = true ∧ Promotes w.script m.log n ∧
        (∀ a ∈ cfg.nodes, m.eligible a = true → Ahead w.script m.log a n →
          ¬Promotes w.script m.log a ∧
          [(a, Request.noOne), (n, Request.noOne)] <+
            (callsOf w m).map (fun x ↦ (x.peer, x.request))) ∧
        ∀ a, Ahead w.script m.log n a → ∀ x ∈ callsOf w m, x.peer = a → x.request ≠ .noOne) ∧
    (∀ w' : World cfg, w'.script = w.script →
      (triggerFailover w' m).master = (triggerFailover w m).master) ∧
    ((∀ a ∈ cfg.nodes, m.eligible a = true → (offsetOf w.script m.log a).isSome = true →
        ¬Promotes w.script m.log a) →
      (triggerFailover w m).master = m.master ∧
        ∀ a, ((triggerFailover w m).nodes a).role = (m.nodes a).role) := by
  refine ⟨fun hchanged ↦ ?_, fun w' ↦ triggerFailover_master_congr, fun hnone ↦ ?_⟩
  · have h := triggerFailover_outcome w m
    generalize hm' : triggerFailover w m = m' at h hchanged ⊢
    cases h with
    | skipped => exact absurd rfl hchanged
    | failed => exact absurd rfl hchanged
    | @promoted before after n _ hranked hbefore hn =>
      rw [callsOf_of_log (by rw [hm'])]
      have hmem : n ∈ ranked w m := by rw [hranked]; simp
      obtain ⟨hnode, helig, hoffset⟩ := mem_ranked.mp hmem
      refine ⟨n, hnode, rfl, helig, hoffset, hn, fun a hnode' helig' hahead ↦ ?_,
        fun a hahead x hx hpeer hreq ↦ ?_⟩
      · have ha : a ∈ ranked w m := by
          obtain ⟨k, -, hk, -⟩ := hahead
          exact mem_ranked.mpr ⟨hnode', helig', by rw [hk]; rfl⟩
        have hfirst := (mem_before_iff hranked ha).mpr hahead
        refine ⟨hbefore a hfirst, ?_⟩
        have htried : [a, n] <+ before ++ [n] :=
          (List.singleton_sublist.mpr hfirst).append (List.Sublist.refl [n])
        have hsent := (htried.map (call w.script (m.log ++ infoCalls w m) · .noOne)).trans
          (noOne_sublist_promotionCalls (before ++ [n]))
        exact (hsent.trans (List.sublist_append_left _ _)).map (fun x ↦ (x.peer, x.request))
      · obtain ⟨b, hb, rfl⟩ := noOne_mem_calls hx hreq
        subst hpeer
        rcases List.mem_append.mp hb with hb | hb
        · have hbn := (mem_before_iff hranked (by rw [hranked]; exact List.mem_append_left _ hb)).mp hb
          exact hbn.asymm hahead
        · rw [List.mem_singleton.mp hb] at hahead
          exact Ahead.irrefl n hahead
  · have h := triggerFailover_outcome w m
    generalize triggerFailover w m = m' at h ⊢
    cases h with
    | skipped => exact ⟨rfl, fun _ ↦ rfl⟩
    | failed => exact ⟨rfl, fun _ ↦ rfl⟩
    | promoted _ hranked _ hn =>
      have hmem : _ ∈ ranked w m := hranked ▸ List.mem_append_right _ List.mem_cons_self
      obtain ⟨hnode, helig, hoffset⟩ := mem_ranked.mp hmem
      exact absurd hn (hnone _ hnode helig hoffset)

def sampleMonitor : Monitor :=
  { newMonitor with
    nodes := fun addr ↦ if addr = ascii "a:1" then ⟨ascii "master", false⟩ else ⟨ascii "slave", true⟩
    master := ascii "a:1" }

def refusingWorld : World ⟨sampleNodes, 3⟩ :=
  configured sampleNodes 3 sampleNodes_nodup (answering sampleInfo (fun _ ↦ masterRole)
    (fun addr ↦ if addr = ascii "c:3" then some (ascii "-ERR\r\n") else ok) (fun _ ↦ ok))

theorem failover_selection_second :
    (triggerFailover refusingWorld sampleMonitor).master = ascii "b:2" ∧
    ∃ n ∈ sampleNodes, (triggerFailover refusingWorld sampleMonitor).master = n ∧
      Promotes refusingWorld.script sampleMonitor.log n := by
  have hmaster : (triggerFailover refusingWorld sampleMonitor).master = ascii "b:2" := by
    decide +kernel
  refine ⟨hmaster, ?_⟩
  obtain ⟨n, hnode, heq, -, -, hn, -⟩ :=
    (failover_selection refusingWorld sampleMonitor).1 (by rw [hmaster]; decide)
  exact ⟨n, hnode, heq, hn⟩

end RedisLite.Controller
