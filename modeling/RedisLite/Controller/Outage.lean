import RedisLite.Controller.Timing

namespace RedisLite.Controller

open Lib.Run

variable {cfg : Config} {w : World cfg} {m m' : Monitor} {a addr : Addr} {r : PingResult}
  {rs : List PingResult}

theorem handleResult_cases (w : World cfg) (m : Monitor) (r : PingResult) :
    (∃ e, handleResult w m r = m.put r.addr e) ∨
    (Adopts w m r ∧ ∃ e, handleResult w m r = { m.put r.addr e with master := r.addr }) ∨
    (Triggers cfg m r ∧ handleResult w m r = triggerFailover w (m.downed m.master)) := by
  by_cases htriggers : Triggers cfg m r
  · exact .inr (.inr ⟨htriggers, handleResult_of_triggers htriggers⟩)
  by_cases hadopts : Adopts w m r
  · obtain ⟨e, -, hop⟩ := handleResult_adopts hadopts
    exact .inr (.inl ⟨hadopts, e, hop m (.refl _ m) hadopts.1⟩)
  · obtain ⟨e, -, hop⟩ := local_of_quiet htriggers hadopts
    exact .inl ⟨e, hop m (.refl _ m) rfl⟩

theorem put_of_quiet (hknown : m.master ≠ []) (h : ¬Triggers cfg m r) :
    ∃ e, handleResult w m r = m.put r.addr e := by
  rcases handleResult_cases w m r with hput | ⟨hadopts, -⟩ | ⟨htriggers, -⟩
  · exact hput
  · exact absurd hadopts.1 hknown
  · exact absurd htriggers h

theorem handleResult_fails (w : World cfg) (m : Monitor) (r : PingResult) :
    (handleResult w m r).fails =
      Function.update m.fails r.addr (if r.alive = true then 0 else m.fails r.addr + 1) := by
  have h := handleResult_outcome w m r
  generalize handleResult w m r = m' at h ⊢
  cases h with
  | suspect => rfl
  | dead => rfl
  | failover => exact (SameHealth.triggerFailover w _).fails
  | mute => rfl
  | recovered => exact ((SameHealth.recovered w _ _ _).trans (.retryStale w _ _)).fails
  | healthy => exact (SameHealth.retryStale w _ _).fails

theorem handleResult_down (hr : r.addr = a → r.alive = false)
    (hdown : (m.nodes a).alive = false) : ((handleResult w m r).nodes a).alive = false := by
  have hother (alive : Bool) {b : Addr} (hne : a ≠ b) :
      ((m.setAlive b alive).nodes a).alive = false := by
    rw [Monitor.setAlive_nodes_of_ne _ _ _ hne, hdown]
  have hsame {b : Addr} : ((m.downed b).nodes a).alive = false := by
    by_cases hne : a = b
    · rw [hne, Monitor.downed, Monitor.setAlive_nodes_self]
    · exact hother false hne
  have h := handleResult_outcome w m r
  generalize handleResult w m r = m' at h ⊢
  cases h with
  | suspect => exact hdown
  | dead => exact hsame
  | failover => rw [(SameHealth.triggerFailover w _).alive, hsame]
  | @mute addr => exact hother true (fun h ↦ Bool.noConfusion (hr h.symm))
  | @recovered addr =>
    rw [((SameHealth.recovered w _ _ _).trans (.retryStale w _ _)).alive]
    exact hother true (fun h ↦ Bool.noConfusion (hr h.symm))
  | @healthy addr =>
    rw [(SameHealth.retryStale w _ _).alive]
    exact hother true (fun h ↦ Bool.noConfusion (hr h.symm))

theorem triggerFailover_master_down (hne : m.master ≠ a) (hdown : (m.nodes a).alive = false) :
    (triggerFailover w m).master ≠ a := by
  have h := triggerFailover_outcome w m
  generalize triggerFailover w m = m' at h ⊢
  cases h with
  | skipped => exact hne
  | failed => exact hne
  | @promoted before after n _ hranked =>
    intro hn
    have hmem : n ∈ ranked w m := mem_ranked_of_tried hranked (by simp)
    have halive := (role_of_ranked hmem).2.2
    have hn : n = a := hn
    rw [hn, hdown] at halive
    cases halive

/-- The master is `a`, or another node has taken its place and `a` is down. -/
def Deposing (a : Addr) (P : Monitor → Prop) (m : Monitor) : Prop :=
  (m.master = a ∧ P m) ∨ (m.master ≠ a ∧ (m.nodes a).alive = false)

theorem downed_down (m : Monitor) (a : Addr) : ((m.downed a).nodes a).alive = false := by
  rw [Monitor.downed, Monitor.setAlive_nodes_self]

theorem Deposing.step {P : Monitor → Prop} (ha : a ≠ []) (hr : r.addr = a → r.alive = false)
    (hP : m.master = a → P m → (handleResult w m r).master = a → P (handleResult w m r))
    (h : Deposing a P m) : Deposing a P (handleResult w m r) := by
  rcases h with ⟨hmaster, hp⟩ | ⟨hmaster, hdown⟩
  · by_cases hkept : (handleResult w m r).master = a
    · exact .inl ⟨hkept, hP hmaster hp hkept⟩
    · refine .inr ⟨hkept, ?_⟩
      obtain ⟨-, -, hfailover⟩ := handleResult_master (by rw [hmaster]; exact ha)
        (fun h ↦ hkept (h.trans hmaster))
      rw [hfailover, (SameHealth.triggerFailover w _).alive, hmaster, downed_down]
  · refine .inr ⟨?_, handleResult_down hr hdown⟩
    rcases handleResult_cases w m r with ⟨e, hput⟩ | ⟨hadopts, e, hput⟩ | ⟨-, hfailover⟩
    · rw [hput]
      exact hmaster
    · rw [hput]
      intro haddr
      have halive := hadopts.2.2.2.1
      rw [hr haddr] at halive
      cases halive
    · rw [hfailover]
      refine triggerFailover_master_down hmaster ?_
      rw [downed_node (Ne.symm hmaster), hdown]

theorem triggerFailover_count (hidle : m.failoverInProgress = false) :
    (triggerFailover w m).failoverCount = m.failoverCount + 1 := by
  have h := triggerFailover_outcome w m
  generalize triggerFailover w m = m' at h ⊢
  cases h with
  | skipped hbusy =>
    rw [hidle] at hbusy
    cases hbusy
  | failed => rfl
  | promoted => rfl

theorem triggerFailover_nodes (hkept : (triggerFailover w m).master = m.master) :
    (triggerFailover w m).nodes = m.nodes := by
  have h := triggerFailover_outcome w m
  generalize triggerFailover w m = m' at h hkept ⊢
  cases h with
  | skipped => rfl
  | failed => rfl
  | @promoted before after n _ hranked =>
    have hmem : n ∈ ranked w m := mem_ranked_of_tried hranked (by simp)
    exact absurd hkept (role_of_ranked hmem).2.1

theorem eligible_congr (hnode : m'.nodes addr = m.nodes addr) (hmaster : m'.master = m.master) :
    m'.eligible addr = m.eligible addr := by
  rw [Monitor.eligible, hnode, hmaster, Monitor.eligible]

theorem eligible_iff : m.eligible addr = true ↔
    (m.nodes addr).alive = true ∧ (m.nodes addr).role = ascii "slave" ∧ addr ≠ m.master := by
  simp [Monitor.eligible, and_assoc]

theorem eligible_step (hknown : m.master ≠ []) (hr : r.addr = addr → r.alive = true)
    (hkept : (handleResult w m r).master = m.master) (h : m.eligible addr = true) :
    (handleResult w m r).eligible addr = true := by
  obtain ⟨halive, hrole, hne⟩ := eligible_iff.mp h
  refine (eligible_congr ?_ hkept).trans h
  by_cases htriggers : Triggers cfg m r
  · rw [handleResult_of_triggers htriggers] at hkept ⊢
    rw [triggerFailover_nodes hkept, downed_node hne]
  by_cases haddr : r.addr = addr
  · have hstill : Still cfg m r := by
      rw [Still, if_pos (hr haddr), haddr, hrole]
      exact ⟨halive, .inl (by decide)⟩
    rw [handleResult_still hstill]
    rfl
  · obtain ⟨e, hput⟩ := put_of_quiet (w := w) hknown htriggers
    rw [hput]
    exact Function.update_of_ne (Ne.symm haddr) _ _

structure Poised (cfg : Config) (m : Monitor) : Prop where
  idle : m.failoverInProgress = false
  configured : m.master = [] ∨ m.master ∈ cfg.nodes

theorem Poised.triggerFailover (h : Poised cfg m) : Poised cfg (triggerFailover w m) := by
  have hout := triggerFailover_outcome w m
  generalize Controller.triggerFailover w m = m' at hout ⊢
  cases hout with
  | skipped => exact h
  | failed => exact ⟨h.idle, h.configured⟩
  | @promoted before after n _ hranked =>
    have hmem : n ∈ ranked w m := mem_ranked_of_tried hranked (by simp)
    exact ⟨h.idle, .inr (mem_ranked.mp hmem).1⟩

theorem Poised.step (h : Poised cfg m) (hr : r.addr ∈ cfg.nodes) :
    Poised cfg (handleResult w m r) := by
  rcases handleResult_cases w m r with ⟨e, hput⟩ | ⟨-, e, hput⟩ | ⟨-, hfailover⟩
  · rw [hput]
    exact ⟨h.idle, h.configured⟩
  · rw [hput]
    exact ⟨h.idle, .inr hr⟩
  · rw [hfailover]
    exact Poised.triggerFailover ⟨h.idle, h.configured⟩

theorem Poised.discover {keys : List Addr} (hkeys : ∀ b ∈ keys, b ∈ cfg.nodes)
    (script : Script) (h : Poised cfg m) : Poised cfg (keys.foldl (discoverNode script) m) := by
  refine run_stable_of_mem (discoverNode script) (fun m b hb h ↦ ?_) h
  rw [discoverNode]
  dsimp only
  split
  · exact ⟨h.idle, h.configured⟩
  · split
    · exact ⟨h.idle, .inr (hkeys b hb)⟩
    · exact ⟨h.idle, h.configured⟩

theorem Poised.of_run (w : World cfg) (order : Order cfg) (ticks : List (Tick cfg)) :
    Poised cfg (run (healthCheck w) (start w order) ticks) := by
  have hstart : Poised cfg (start w order) :=
    Poised.discover (fun b hb ↦ order.mem_iff.mp hb) w.script ⟨rfl, .inl rfl⟩
  refine run_stable (healthCheck w) (fun m t h ↦ ?_) hstart ticks
  exact run_stable_of_mem (handleResult w) (fun m r hr h ↦ h.step (mem_results hr).1) h

theorem results_split (t : Tick cfg) (ha : a ∈ cfg.nodes) :
    ∃ before after, t.results = before ++ ⟨a, ping (t.pings a)⟩ :: after ∧
      (∀ r ∈ before, r.addr ≠ a) ∧ ∀ r ∈ after, r.addr ≠ a := by
  obtain ⟨before, after, hsplit⟩ := List.append_of_mem (t.arrivals.mem_iff.mpr ha)
  have hnodup := t.arrivals.nodup
  rw [hsplit, List.nodup_middle] at hnodup
  have hnot : a ∉ before ++ after := (List.nodup_cons.mp hnodup).1
  refine ⟨before.map (fun b ↦ ⟨b, ping (t.pings b)⟩), after.map (fun b ↦ ⟨b, ping (t.pings b)⟩),
    ?_, ?_, ?_⟩
  · rw [Tick.results, hsplit, List.map_append, List.map_cons]
  · intro r hr haddr
    obtain ⟨b, hb, rfl⟩ := List.mem_map.mp hr
    exact hnot (List.mem_append_left _ (haddr ▸ hb))
  · intro r hr haddr
    obtain ⟨b, hb, rfl⟩ := List.mem_map.mp hr
    exact hnot (List.mem_append_right _ (haddr ▸ hb))

theorem fails_run_of_ne (hrs : ∀ r ∈ rs, r.addr ≠ a) :
    (run (handleResult w) m rs).fails a = m.fails a := by
  refine run_stable_of_mem (handleResult w) (I := fun n ↦ n.fails a = m.fails a)
    (fun n r hr hn ↦ ?_) rfl
  rw [handleResult_fails, Function.update_of_ne (Ne.symm (hrs r hr)), hn]

theorem fails_tick {t : Tick cfg} (ha : a ∈ cfg.nodes) (hsilent : ping (t.pings a) = false) :
    (healthCheck w m t).fails a = m.fails a + 1 := by
  obtain ⟨before, after, hresults, hbefore, hafter⟩ := results_split t ha
  rw [healthCheck, hresults, run_append, run_cons, fails_run_of_ne hafter, handleResult_fails,
    Function.update_self, hsilent, if_neg Bool.false_ne_true, fails_run_of_ne hbefore]

theorem fails_ticks {ticks : List (Tick cfg)} (ha : a ∈ cfg.nodes)
    (hsilent : ∀ t ∈ ticks, ping (t.pings a) = false) :
    (run (healthCheck w) m ticks).fails a = m.fails a + ticks.length := by
  induction ticks generalizing m with
  | nil => rfl
  | cons t ticks ih =>
    rw [run_cons, ih (fun u hu ↦ hsilent u (List.mem_cons_of_mem t hu)),
      fails_tick ha (hsilent t (List.mem_cons_self ..)), List.length_cons]
    omega

theorem Deposing.results {P : Monitor → Prop} (ha : a ≠ [])
    (hrs : ∀ r ∈ rs, r.addr = a → r.alive = false)
    (hP : ∀ m, ∀ r ∈ rs, m.master = a → P m → (handleResult w m r).master = a →
      P (handleResult w m r))
    (h : Deposing a P m) : Deposing a P (run (handleResult w) m rs) :=
  run_stable_of_mem (handleResult w) (fun m r hr h ↦ h.step ha (hrs r hr) (hP m r hr)) h

theorem silent_results {t : Tick cfg} (hsilent : ping (t.pings a) = false) :
    ∀ r ∈ t.results, r.addr = a → r.alive = false := by
  intro r hr haddr
  rw [(mem_results hr).2, haddr, hsilent]

theorem waiting_results (hknown : m.master ≠ []) (hrs : ∀ r ∈ rs, r.addr ≠ m.master) :
    (run (handleResult w) m rs).master = m.master ∧
      (run (handleResult w) m rs).failoverCount = m.failoverCount ∧
      (run (handleResult w) m rs).failoverInProgress = m.failoverInProgress := by
  refine run_stable_of_mem (handleResult w) (I := fun n ↦ n.master = m.master ∧
    n.failoverCount = m.failoverCount ∧ n.failoverInProgress = m.failoverInProgress)
    (fun n r hr hn ↦ ?_) ⟨rfl, rfl, rfl⟩
  have hquiet : ¬Triggers cfg n r := by
    rintro ⟨rfl, -⟩
    exact hrs _ hr hn.1
  obtain ⟨e, hput⟩ := put_of_quiet (w := w) (by rw [hn.1]; exact hknown) hquiet
  rw [hput]
  exact hn

theorem handleResult_count_le (w : World cfg) (m : Monitor) (r : PingResult) :
    m.failoverCount ≤ (handleResult w m r).failoverCount := by
  rcases handleResult_cases w m r with ⟨e, hput⟩ | ⟨-, e, hput⟩ | ⟨-, hfailover⟩
  · rw [hput]
    exact le_rfl
  · rw [hput]
    exact le_rfl
  · rw [hfailover]
    have h := triggerFailover_outcome w (m.downed m.master)
    generalize triggerFailover w (m.downed m.master) = m' at h ⊢
    cases h with
    | skipped => exact le_rfl
    | failed => exact Nat.le_succ _
    | promoted => exact Nat.le_succ _

def Promotable (w : World cfg) (m : Monitor) (addr : Addr) : Prop :=
  m.eligible addr = true ∧ (offsetOf w.script m.log addr).isSome = true ∧
    Promotes w.script m.log addr

theorem triggerFailover_replaces (hidle : m.failoverInProgress = false) :
    (triggerFailover w (m.downed m.master)).master ≠ m.master ↔
      ∃ addr ∈ cfg.nodes, Promotable w m addr := by
  have heligible {b : Addr} (hne : b ≠ m.master) :
      (m.downed m.master).eligible b = m.eligible b := eligible_congr (downed_node hne) rfl
  have hranked {b : Addr} : b ∈ ranked w (m.downed m.master) ↔ b ∈ cfg.nodes ∧
      m.eligible b = true ∧ (offsetOf w.script m.log b).isSome = true := by
    rw [mem_ranked]
    refine and_congr_right (fun _ ↦ and_congr_left (fun _ ↦ ⟨fun h ↦ ?_, fun h ↦ ?_⟩))
    · rw [← heligible (eligible_iff.mp h).2.2, h]
    · rw [heligible (eligible_iff.mp h).2.2, h]
  rw [triggerFailover_master (m := m.downed m.master) hidle]
  constructor
  · intro hne
    cases hfind : elected w (m.downed m.master) with
    | none =>
      rw [hfind] at hne
      exact absurd rfl hne
    | some b =>
      obtain ⟨hin, hpromotes⟩ := mem_of_elected hfind
      obtain ⟨hmem, heligible, hoffset⟩ := hranked.mp hin
      exact ⟨b, hmem, heligible, hoffset, hpromotes⟩
  · rintro ⟨b, hmem, hb, hoffset, hpromotes⟩
    cases hfind : elected w (m.downed m.master) with
    | none => exact absurd hpromotes (elected_eq_none.mp hfind b (hranked.mpr ⟨hmem, hb, hoffset⟩))
    | some n =>
      rw [Option.getD_some]
      exact (eligible_iff.mp (hranked.mp (mem_of_elected hfind).1).2.1).2.2

section Tick

variable {t : Tick cfg} (hknown : m.master ≠ []) (hmem : m.master ∈ cfg.nodes)
  (hsilent : ping (t.pings m.master) = false)

include hknown hmem hsilent

theorem tick_below (hfew : ¬cfg.failureThresh ≤ m.fails m.master + 1) :
    (healthCheck w m t).master = m.master ∧
      (healthCheck w m t).failoverCount = m.failoverCount := by
  obtain ⟨before, after, hresults, hbefore, hafter⟩ := results_split t hmem
  obtain ⟨hmaster, hcount, -⟩ := waiting_results (w := w) hknown hbefore
  have hfails := fails_run_of_ne (w := w) (m := m) hbefore
  rw [healthCheck, hresults, hsilent, run_append, run_cons]
  generalize run (handleResult w) m before = n at hmaster hcount hfails ⊢
  have hquiet : ¬Triggers cfg n ⟨m.master, false⟩ := by
    rintro ⟨-, hthresh⟩
    rw [hmaster, hfails] at hthresh
    exact hfew hthresh
  obtain ⟨e, hput⟩ := put_of_quiet (w := w) (by rw [hmaster]; exact hknown) hquiet
  have hmaster' : (handleResult w n ⟨m.master, false⟩).master = m.master := by
    rw [hput]
    exact hmaster
  have hcount' : (handleResult w n ⟨m.master, false⟩).failoverCount = m.failoverCount := by
    rw [hput]
    exact hcount
  generalize handleResult w n ⟨m.master, false⟩ = n at hmaster' hcount' ⊢
  rw [← hmaster'] at hknown hafter
  obtain ⟨hkept, hsame, -⟩ := waiting_results (w := w) hknown hafter
  exact ⟨hkept.trans hmaster', hsame.trans hcount'⟩

/-- At the threshold a failover is tried, after the results that have come before the one of the
master. -/
theorem tick_due (hidle : m.failoverInProgress = false)
    (hmany : cfg.failureThresh ≤ m.fails m.master + 1) :
    m.failoverCount < (healthCheck w m t).failoverCount ∧
    ∃ before after, t.results = before ++ ⟨m.master, false⟩ :: after ∧
      (∀ r ∈ before, r.addr ≠ m.master) ∧
      ((healthCheck w m t).master ≠ m.master ↔
        ∃ addr ∈ cfg.nodes, Promotable w (run (handleResult w) m before) addr) := by
  obtain ⟨before, after, hresults, hbefore, hafter⟩ := results_split t hmem
  obtain ⟨hmaster, hcount, hstill⟩ := waiting_results (w := w) hknown hbefore
  have hfails := fails_run_of_ne (w := w) (m := m) hbefore
  rw [hsilent] at hresults
  have hrun : healthCheck w m t = run (handleResult w) (handleResult w
      (run (handleResult w) m before) ⟨m.master, false⟩) after := by
    rw [healthCheck, hresults, run_append, run_cons]
  have htriggers : Triggers cfg (run (handleResult w) m before) ⟨m.master, false⟩ :=
    ⟨by rw [hmaster], by rw [hmaster, hfails]; exact hmany⟩
  rw [handleResult_of_triggers htriggers] at hrun
  rw [hrun]
  refine ⟨?_, before, after, hresults, hbefore, ?_⟩
  · have hmore := triggerFailover_count (w := w)
      (m := (run (handleResult w) m before).downed (run (handleResult w) m before).master)
      (hstill.trans hidle)
    have hsame : ((run (handleResult w) m before).downed
      (run (handleResult w) m before).master).failoverCount = m.failoverCount := hcount
    refine run_stable (handleResult w) (I := fun n ↦ m.failoverCount < n.failoverCount)
      (fun n r hn ↦ hn.trans_le (handleResult_count_le w n r)) ?_ after
    omega
  · rw [← triggerFailover_replaces (hstill.trans hidle)]
    have hdown := downed_down (run (handleResult w) m before) m.master
    rw [hmaster]
    rw [← (SameHealth.triggerFailover w _).alive] at hdown
    generalize triggerFailover w _ = n at hdown ⊢
    constructor
    · intro hmoved hkept
      refine hmoved ((waiting_results ?_ ?_).1.trans hkept)
      · rw [hkept]
        exact hknown
      · rw [hkept]
        exact hafter
    · intro hmoved
      have hdeposed : Deposing m.master (fun _ ↦ False) (run (handleResult w) n after) :=
        Deposing.results hknown (fun r hr haddr ↦ absurd haddr (hafter r hr))
          (fun _ _ _ _ h ↦ h.elim) (.inr ⟨hmoved, hdown⟩)
      exact hdeposed.elim (fun h ↦ h.2.elim) (fun h ↦ h.1)

end Tick

/-- Whatever it has been sent before, the node reports an offset and lets itself be promoted. -/
def Willing (script : Script) (addr : Addr) : Prop :=
  ∀ log, (offsetOf script log addr).isSome = true ∧ Promotes script log addr

theorem deposed_results {results results' : List PingResult} (ha : a ≠ []) (hmaster : m.master = a)
    (hsilent : ∀ r ∈ results, r.addr = a → r.alive = false)
    (hsilent' : ∀ r ∈ results', r.addr = a → r.alive = false)
    (hmoved : (run (handleResult w) m results).master ≠ a) :
    (run (handleResult w) (run (handleResult w) m results) results').master ≠ a := by
  have hdown : Deposing a (fun _ ↦ True) (run (handleResult w) m results) :=
    Deposing.results ha hsilent (fun _ _ _ _ _ _ ↦ trivial) (.inl ⟨hmaster, trivial⟩)
  have hstays : Deposing a (fun _ ↦ False)
      (run (handleResult w) (run (handleResult w) m results) results') :=
    Deposing.results ha hsilent' (fun _ _ _ _ h ↦ h.elim)
      (.inr (hdown.resolve_left (fun h ↦ hmoved h.1)))
  exact hstays.elim (fun h ↦ h.2.elim) (fun h ↦ h.1)

theorem eligible_results {addr : Addr} {results : List PingResult} (ha : a ≠ [])
    (hmaster : m.master = a) (heligible : m.eligible addr = true)
    (hsteady : ∀ r ∈ results, (r.addr = a → r.alive = false) ∧ (r.addr = addr → r.alive = true))
    (hstill : (run (handleResult w) m results).master = a) :
    (run (handleResult w) m results).eligible addr = true := by
  have hmid : Deposing a (fun n ↦ n.eligible addr = true) (run (handleResult w) m results) :=
    Deposing.results ha (fun r hr ↦ (hsteady r hr).1)
      (fun n r hr hn h hn' ↦ eligible_step (by rw [hn]; exact ha) (hsteady r hr).2
        (hn'.trans hn.symm) h)
      (.inl ⟨hmaster, heligible⟩)
  exact (hmid.resolve_right (fun h ↦ h.1 hstill)).2

theorem steady_results {addr : Addr} {ticks : List (Tick cfg)}
    (hsilent : ∀ u ∈ ticks, ping (u.pings a) = false)
    (hanswers : ∀ u ∈ ticks, ping (u.pings addr) = true) :
    ∀ r ∈ ticks.flatMap Tick.results,
      (r.addr = a → r.alive = false) ∧ (r.addr = addr → r.alive = true) := by
  intro r hr
  obtain ⟨u, hu, hr⟩ := List.mem_flatMap.mp hr
  refine ⟨silent_results (hsilent u hu) r hr, fun haddr ↦ ?_⟩
  rw [(mem_results hr).2, haddr, hanswers u hu]

/-- The ticks in which a known master does not answer its pings. Each of them is counted as a
failure of the node. Once it is replaced it stays so.
Before the failures reach the threshold no failover is tried. From then on one is tried in every
tick, and it succeeds iff there is a node to promote; so the first one does, if a candidate answers
all along and is willing. -/
theorem silent_master_replaced (w : World cfg) (order : Order cfg) (past ticks : List (Tick cfg))
    (t : Tick cfg) {a : Addr} (ha : a ≠ [])
    (hmaster : (run (healthCheck w) (start w order) past).master = a)
    (hsilent : ∀ u ∈ ticks ++ [t], ping (u.pings a) = false) :
    let m₀ := run (healthCheck w) (start w order) past
    let m := run (healthCheck w) m₀ ticks
    let m' := healthCheck w m t
    let due := cfg.failureThresh ≤ m₀.fails a + ticks.length + 1
    m'.fails a = m₀.fails a + ticks.length + 1 ∧
    (m.master ≠ a → m'.master ≠ a) ∧
    (m.master = a → ¬due → m'.master = a ∧ m'.failoverCount = m.failoverCount) ∧
    (m.master = a → due → m.failoverCount < m'.failoverCount ∧
      ∃ before after, t.results = before ++ ⟨a, false⟩ :: after ∧
        (m'.master ≠ a ↔
          ∃ addr ∈ cfg.nodes, Promotable w (run (handleResult w) m before) addr)) ∧
    ∀ addr ∈ cfg.nodes, m₀.eligible addr = true → Willing w.script addr →
      (∀ u ∈ ticks ++ [t], ping (u.pings addr) = true) → due → m'.master ≠ a := by
  intro m₀ m m' due
  have hpoised := Poised.of_run w order past
  have hnode : a ∈ cfg.nodes := by
    rcases hpoised.configured with hnone | hmem
    · exact absurd (hmaster.symm.trans hnone) ha
    · exact hmaster ▸ hmem
  have hidle : m.failoverInProgress = false := by
    have h := (Poised.of_run w order (past ++ ticks)).idle
    rwa [run_append] at h
  have hticks : ∀ u ∈ ticks, ping (u.pings a) = false :=
    fun u hu ↦ hsilent u (List.mem_append_left _ hu)
  have hlast : ping (t.pings a) = false :=
    hsilent t (List.mem_append_right _ (List.mem_singleton_self t))
  have hfails : m.fails a = m₀.fails a + ticks.length := fails_ticks hnode hticks
  have hcounted : m'.fails a = m₀.fails a + ticks.length + 1 := by
    have h := fails_ticks (w := w) (m := m₀) hnode hsilent
    rwa [run_append, List.length_append] at h
  have hresults : ∀ r ∈ ticks.flatMap Tick.results, r.addr = a → r.alive = false := by
    intro r hr
    obtain ⟨u, hu, hr⟩ := List.mem_flatMap.mp hr
    exact silent_results (hticks u hu) r hr
  have hrun : m = run (handleResult w) m₀ (ticks.flatMap Tick.results) :=
    run_flatMap (handleResult w) Tick.results m₀ ticks
  have hdeposed : m.master ≠ a → m'.master ≠ a := by
    intro hmoved
    change (run (handleResult w) m t.results).master ≠ a
    rw [hrun] at hmoved ⊢
    exact deposed_results ha hmaster hresults (silent_results hlast) hmoved
  have htries (hkept : m.master = a) (hdue : due) := tick_due (w := w) (m := m) (t := t)
    (by rw [hkept]; exact ha) (by rw [hkept]; exact hnode) (by rw [hkept]; exact hlast) hidle
    (by rw [hkept, hfails]; push_cast; exact hdue)
  refine ⟨hcounted, hdeposed, fun hkept hdue ↦ ?_, fun hkept hdue ↦ ?_, fun addr hmem heligible
    hwilling hanswers hdue ↦ ?_⟩
  · have hbelow := tick_below (w := w) (m := m) (t := t)
      (by rw [hkept]; exact ha) (by rw [hkept]; exact hnode) (by rw [hkept]; exact hlast)
      (by rw [hkept, hfails]; push_cast; exact hdue)
    exact ⟨hbelow.1.trans hkept, hbelow.2⟩
  · obtain ⟨hcount, before, after, hsplit, -, hiff⟩ := htries hkept hdue
    rw [hkept] at hsplit hiff
    exact ⟨hcount, before, after, hsplit, hiff⟩
  · by_cases hkept : m.master = a
    · obtain ⟨-, before, after, hsplit, hbefore, hiff⟩ := htries hkept hdue
      rw [hkept] at hsplit hbefore hiff
      refine hiff.mpr ⟨addr, hmem, ?_, hwilling _⟩
      have hearly : ∀ r ∈ ticks.flatMap Tick.results ++ before,
          (r.addr = a → r.alive = false) ∧ (r.addr = addr → r.alive = true) := by
        intro r hr
        refine steady_results hsilent hanswers r ?_
        rw [List.flatMap_append, List.flatMap_singleton, hsplit, ← List.append_assoc]
        exact List.mem_append_left _ hr
      have hstill : (run (handleResult w) m before).master = a :=
        (waiting_results (by rw [hkept]; exact ha) (by rw [hkept]; exact hbefore)).1.trans hkept
      rw [hrun, ← run_append] at hstill ⊢
      exact eligible_results ha hmaster heligible hearly hstill
    · exact hdeposed hkept

theorem electing_willing (follow : Addr → Response) : Willing (electing follow) (ascii "c:3") := by
  have hlast (sent : List Request) (x : Request) :
      ((sent ++ [x]).map (fun x ↦ encodeRESP x.args)).getLast? = some (encodeRESP x.args) := by
    rw [List.map_append, List.map_singleton, List.getLast?_concat]
  have hinfo (sent : List Request) :
      peers (electing follow) (ascii "c:3") (sent ++ [.info]) = sampleInfo (ascii "c:3") := by
    rw [peers, electing, answering, hlast]
    exact if_pos rfl
  have hnoOne (sent : List Request) :
      peers (electing follow) (ascii "c:3") (sent ++ [.noOne]) = ok := by
    rw [peers, electing, answering, hlast]
    exact (if_neg (by decide)).trans ((if_neg (by decide)).trans (if_pos rfl))
  have hrole (sent : List Request) :
      peers (electing follow) (ascii "c:3") (sent ++ [.noOne] ++ [.role]) = masterRole := by
    rw [peers, electing, answering, hlast]
    refine (if_neg (by decide)).trans ((if_pos rfl).trans (if_pos (.inr ?_)))
    simp
  intro log
  refine ⟨?_, ?_, 0, by decide, ?_⟩
  · rw [offsetOf, replies, hinfo]
    decide +kernel
  · rw [replies, List.append_cons, hnoOne]
    decide
  · rw [replies, List.append_cons, List.append_cons, List.replicate_one, hrole]
    decide

/-- The master does not answer two pings. -/
theorem silent_master_replaced_after_two :
    (run (healthCheck electingWorld) (start electingWorld (sampleOrder 2))
      [tickWithout 2 [ascii "a:1"]]).master = ascii "a:1" ∧
    (run (healthCheck electingWorld) (start electingWorld (sampleOrder 2))
      [tickWithout 2 [ascii "a:1"], tickWithout 2 [ascii "a:1"]]).master ≠ ascii "a:1" := by
  have hstart : (start electingWorld (sampleOrder 2)).master = ascii "a:1" ∧
      (start electingWorld (sampleOrder 2)).eligible (ascii "c:3") = true := by decide +kernel
  have hfails := start_fails electingWorld (sampleOrder 2) (ascii "a:1")
  have hpings : ∀ u ∈ [tickWithout 2 [ascii "a:1"], tickWithout 2 [ascii "a:1"]],
      ping (u.pings (ascii "a:1")) = false ∧ ping (u.pings (ascii "c:3")) = true := by
    decide
  have hne : ascii "a:1" ≠ [] := by decide
  obtain ⟨-, -, hfirst, -⟩ := silent_master_replaced electingWorld (sampleOrder 2) [] []
    (tickWithout 2 [ascii "a:1"]) hne (by rw [run_nil, hstart.1]) (by decide)
  obtain ⟨-, -, -, -, hsecond⟩ := silent_master_replaced electingWorld (sampleOrder 2) []
    [tickWithout 2 [ascii "a:1"]] (tickWithout 2 [ascii "a:1"]) hne
    (by rw [run_nil, hstart.1]) (fun u hu ↦ (hpings u hu).1)
  simp only [run_nil, run_cons, hfails] at hfirst hsecond ⊢
  refine ⟨(hfirst hstart.1 (by decide)).1, hsecond (ascii "c:3") (by decide) hstart.2
    (electing_willing _) (fun u hu ↦ (hpings u hu).2) (by decide)⟩

end RedisLite.Controller
