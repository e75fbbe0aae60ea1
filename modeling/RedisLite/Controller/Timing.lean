import RedisLite.Controller.Arrival
import RedisLite.Controller.Reported

namespace RedisLite.Controller

open Lib.Run Lib.Transcript

variable {cfg : Config} {w : World cfg} {m m' : Monitor} {a : Addr} {r e f : PingResult}
  {rs : List PingResult}

/-- A node that comes back as a master while none is known has no rival: no other node calls
itself a master, unless it would not be told to follow that one. -/
def Undisputed (w : World cfg) (m : Monitor) (rs : List PingResult) : Prop :=
  ∀ r ∈ rs, ∀ r' ∈ rs, r' ≠ r → Adopts w m r → Asserts w m r' →
    ¬Adopts w m r' ∧ splitHostPort r.addr = none

structure Calm (w : World cfg) (m : Monitor) (rs : List PingResult) : Prop where
  nodup : (rs.map (·.addr)).Nodup
  still : ∀ r ∈ rs, Triggers cfg m r → ∀ r' ∈ rs, r' ≠ r → Still cfg m r'
  undisputed : Undisputed w m rs

theorem triggers_twin (h : Twin r.addr m m') (hmaster : m'.master = m.master) :
    Triggers cfg m' r ↔ Triggers cfg m r := by
  rw [Triggers, Triggers, hmaster]
  refine and_congr_right (fun hr ↦ ?_)
  have hfails := h.fails
  rw [hr] at hfails
  rw [hfails]

theorem still_congr (hnode : m'.nodes r.addr = m.nodes r.addr)
    (hfails : m'.fails r.addr = m.fails r.addr) (hmaster : m'.master = m.master) :
    Still cfg m' r ↔ Still cfg m r := by
  rw [Still, Still, hnode, hfails, hmaster]

theorem adopts_twin (h : Twin r.addr m m') (hmaster : m'.master = m.master) :
    Adopts w m' r ↔ Adopts w m r := by
  rw [Adopts, Adopts, hmaster, h.node, asserts_twin h]

theorem Still.not_triggers (h : Still cfg m r) : ¬Triggers cfg m r := by
  rintro ⟨rfl, hfails⟩
  rcases still_missed.mp h with hless | ⟨-, hne⟩
  · exact hless hfails
  · exact hne rfl

theorem Still.not_adopts (h : Still cfg m r) : ¬Adopts w m r := by
  obtain ⟨addr, alive⟩ := r
  rintro ⟨-, -, hdead, halive, -⟩
  have halive : alive = true := halive
  subst halive
  have hlive := (still_answered.mp h).1
  rw [hdead] at hlive
  cases hlive

theorem downed_node (hne : a ≠ m.master) : (m.downed m.master).nodes a = m.nodes a :=
  (m.missed m.master).setAlive_nodes_of_ne m.master false hne

theorem downed_fails (hne : a ≠ m.master) : (m.downed m.master).fails a = m.fails a :=
  Function.update_of_ne hne _ _

theorem Still.promoted {n : Addr} (h : Still cfg m r) (hne : r.addr ≠ m.master)
    (hn : (m.nodes n).alive = true)
    (hnodes : m'.nodes = Function.update m.nodes n ⟨ascii "master", (m.nodes n).alive⟩)
    (hmaster : m'.master = n) (hfails : m'.fails = m.fails) : Still cfg m' r := by
  obtain ⟨addr, alive⟩ := r
  have hlive : (m'.nodes addr).alive = (m.nodes addr).alive := by
    rw [hnodes, Function.update_apply]
    split
    · next heq => rw [heq]
    · rfl
  cases alive with
  | true =>
    obtain ⟨halive, hrole⟩ := still_answered.mp h
    refine still_answered.mpr ⟨hlive.trans halive, ?_⟩
    by_cases heq : addr = n
    · exact .inr (heq.trans hmaster.symm)
    · rw [hnodes, Function.update_of_ne heq]
      exact .inl (hrole.resolve_right hne)
  | false =>
    rw [still_missed, hlive, hfails, hmaster]
    refine (still_missed.mp h).imp_right (fun hdead ↦ ⟨hdead.1, ?_⟩)
    rintro rfl
    rw [hdead.1] at hn
    cases hn

/-- A failover does not wake up a result that was still before. -/
theorem Still.after_failover (h : Still cfg m r) (hne : r.addr ≠ m.master) :
    Still cfg (triggerFailover w (m.downed m.master)) r := by
  have hdown : Still cfg (m.downed m.master) r :=
    (still_congr (downed_node hne) (downed_fails hne) rfl).mpr h
  have hne : r.addr ≠ (m.downed m.master).master := hne
  generalize m.downed m.master = d at hdown hne ⊢
  have hout := triggerFailover_outcome w d
  generalize triggerFailover w d = d' at hout ⊢
  cases hout with
  | skipped => exact hdown
  | failed => exact (still_congr (r := r) rfl rfl rfl).mpr hdown
  | @promoted before after n _ hranked _ _ =>
    have hmem : n ∈ ranked w d := by
      rw [hranked]
      exact List.mem_append_right _ (List.mem_cons_self ..)
    have helig := (mem_ranked.mp hmem).2.1
    simp only [Monitor.eligible, Bool.and_eq_true] at helig
    exact hdown.promoted hne helig.1.1 rfl rfl rfl

theorem addr_ne_of_nodup (h : ((r :: rs).map (·.addr)).Nodup) : ∀ r' ∈ rs, r'.addr ≠ r.addr := by
  intro r' hr' heq
  rw [List.map_cons, List.nodup_cons] at h
  exact h.1 (heq ▸ List.mem_map_of_mem hr')

namespace Calm

theorem perm {rs' : List PingResult} (hperm : rs.Perm rs') (h : Calm w m rs) : Calm w m rs' where
  nodup := (hperm.map _).nodup_iff.mp h.nodup
  still r hr ht r' hr' := h.still r (hperm.mem_iff.mpr hr) ht r' (hperm.mem_iff.mpr hr')
  undisputed r hr r' hr' := h.undisputed r (hperm.mem_iff.mpr hr) r' (hperm.mem_iff.mpr hr')

theorem step (h : Calm w m (r :: rs)) : Calm w (handleResult w m r) rs := by
  have hnodup : (rs.map (·.addr)).Nodup := (List.nodup_cons.mp h.nodup).2
  have hne := addr_ne_of_nodup h.nodup
  have hmem {r' : PingResult} (hr' : r' ∈ rs) : r' ∈ r :: rs := List.mem_cons_of_mem _ hr'
  by_cases htriggers : Triggers cfg m r
  · have hstill {r' : PingResult} (hr' : r' ∈ rs) : Still cfg m r' :=
      h.still r (List.mem_cons_self ..) htriggers r' (hmem hr')
        (fun heq ↦ hne r' hr' (congrArg PingResult.addr heq))
    have hmaster : r.addr = m.master := congrArg PingResult.addr htriggers.1
    have hafter {r' : PingResult} (hr' : r' ∈ rs) : Still cfg (handleResult w m r) r' := by
      rw [handleResult_of_triggers htriggers]
      exact (hstill hr').after_failover (hmaster ▸ hne r' hr')
    exact ⟨hnodup, fun r' hr' ht ↦ absurd ht (hafter hr').not_triggers,
      fun r' hr' _ _ _ hadopts ↦ absurd hadopts (hafter hr').not_adopts⟩
  · by_cases hadopts : Adopts w m r
    · obtain ⟨e, he, hop⟩ := handleResult_adopts hadopts
      rw [hop m (.refl _ m) hadopts.1]
      refine ⟨hnodup, fun r' hr' ht ↦ ?_, fun r' hr' _ _ _ hadopts' ↦ ?_⟩
      · exact absurd (congrArg PingResult.addr ht.1) (hne r' hr')
      · exact absurd hadopts'.1 hadopts.2.1
    · obtain ⟨e, he, hop⟩ := local_of_quiet htriggers hadopts
      have heq : handleResult w m r = m.put r.addr e := hop m (.refl _ m) rfl
      have htwin {r' : PingResult} (hr' : r' ∈ rs) : Twin r'.addr m (m.put r.addr e) :=
        (Twin.refl _ m).put_other (hne r' hr') he
      rw [heq]
      refine ⟨hnodup, fun r₁ h₁ ht r₂ h₂ hr ↦ ?_, fun r₁ h₁ r₂ h₂ hr hadopts₁ hasserts₂ ↦ ?_⟩
      · rw [triggers_twin (htwin h₁) rfl] at ht
        rw [still_congr (htwin h₂).node (htwin h₂).fails rfl]
        exact h.still r₁ (hmem h₁) ht r₂ (hmem h₂) hr
      · rw [adopts_twin (htwin h₁) rfl] at hadopts₁
        rw [asserts_twin (htwin h₂)] at hasserts₂
        rw [adopts_twin (htwin h₂) rfl]
        exact h.undisputed r₁ (hmem h₁) r₂ (hmem h₂) hr hadopts₁ hasserts₂

end Calm

theorem setFails_downed (hne : a ≠ m.master) (n : ℕ) :
    (m.setFails a n).downed m.master = (m.downed m.master).setFails a n := by
  have hfails : Function.update (Function.update m.fails a n) m.master
      (Function.update m.fails a n m.master + 1) =
        Function.update (Function.update m.fails m.master (m.fails m.master + 1)) a n := by
    rw [Function.update_of_ne hne.symm, Function.update_comm hne.symm]
  exact congrArg (fun fails ↦ { m.downed m.master with fails := fails }) hfails

theorem swap_triggers (htriggers : Triggers cfg m e) (hstill : Still cfg m f)
    (hne : f.addr ≠ e.addr) :
    Same (handleResult w (handleResult w m e) f) (handleResult w (handleResult w m f) e) := by
  have hmaster : e.addr = m.master := congrArg PingResult.addr htriggers.1
  rw [hmaster] at hne
  have hafter := hstill.after_failover (w := w) hne
  have hfails : (triggerFailover w (m.downed m.master)).fails f.addr = m.fails f.addr := by
    rw [(SameHealth.triggerFailover w _).fails]
    exact downed_fails hne
  rw [handleResult_of_triggers htriggers, handleResult_still hafter, handleResult_still hstill,
    hfails]
  generalize (if f.alive = true then 0 else m.fails f.addr + 1) = n
  have htriggers' : Triggers cfg (m.setFails f.addr n) e := by
    refine ⟨htriggers.1, ?_⟩
    change _ ≤ ((Function.update m.fails f.addr n m.master : ℕ) : ℤ) + 1
    rw [Function.update_of_ne hne.symm]
    exact htriggers.2
  rw [handleResult_of_triggers htriggers']
  change Same _ (triggerFailover w ((m.setFails f.addr n).downed m.master))
  rw [setFails_downed hne]
  have halike : Alike (m.downed m.master) ((m.downed m.master).setFails f.addr n) :=
    ⟨rfl, rfl, rfl, rfl, fun _ ↦ rfl⟩
  have hfailover := halike.triggerFailover (w := w)
  refine ⟨⟨hfailover.nodes, hfailover.master, hfailover.failoverCount,
    hfailover.failoverInProgress, hfailover.log⟩, ?_⟩
  rw [(SameHealth.triggerFailover w ((m.downed m.master).setFails f.addr n)).fails,
    Monitor.setFails, Monitor.setFails, (SameHealth.triggerFailover w (m.downed m.master)).fails]

theorem swap_adopts (hadopts : Adopts w m e) (htriggers : ¬Triggers cfg m f)
    (hrival : Asserts w m f → ¬Adopts w m f ∧ splitHostPort e.addr = none)
    (hne : f.addr ≠ e.addr) :
    Same (handleResult w (handleResult w m e) f) (handleResult w (handleResult w m f) e) := by
  have hquiet : f.alive = false → cfg.failureThresh ≤ m.fails f.addr + 1 →
      ∀ x, x = [] ∨ x = e.addr → f.addr ≠ x := by
    rintro hfailed hfails x (rfl | rfl) heq
    · refine htriggers ⟨?_, ?_⟩
      · obtain ⟨addr, alive⟩ := f
        rw [hadopts.1]
        exact congrArg₂ PingResult.mk heq hfailed
      · rw [hadopts.1, ← heq]
        exact hfails
    · exact hne heq
  have hlocal : Local (fun x ↦ x = [] ∨ x = e.addr) f.addr m (fun m ↦ handleResult w m f) := by
    refine local_handleResult (.inl hadopts.1) hquiet (fun hasserts ↦ .inr ?_) ?_
    · rintro x (rfl | rfl)
      · exact .inr rfl
      · exact .inr (hrival hasserts).2
    · intro hasserts hdead x _ _
      by_contra hempty
      exact (hrival hasserts).1 ⟨hadopts.1, hempty, hdead, hasserts⟩
  obtain ⟨ee, hee, hope⟩ := handleResult_adopts hadopts
  obtain ⟨ef, hef, hopf⟩ := hlocal
  have hfirst : handleResult w m e = { m.put e.addr ee with master := e.addr } :=
    hope m (.refl _ m) hadopts.1
  have hsecond : handleResult w m f = m.put f.addr ef := hopf m (.refl _ m) (.inl hadopts.1)
  have htwin : Twin f.addr m { m.put e.addr ee with master := e.addr } :=
    ((Twin.refl _ m).put_other hne hee).withMaster e.addr
  rw [hfirst, hsecond, hope _ ((Twin.refl _ m).put_other hne.symm hef) hadopts.1]
  have hlast : handleResult w { m.put e.addr ee with master := e.addr } f = _ :=
    hopf _ htwin (.inr rfl)
  rw [hlast]
  have hsame := same_put_put (m := m) hne.symm hee hef
  exact ⟨hsame.toAlike.withMaster e.addr, hsame.fails⟩

theorem swap_local (he : ¬Triggers cfg m e ∧ ¬Adopts w m e)
    (hf : ¬Triggers cfg m f ∧ ¬Adopts w m f) (hne : f.addr ≠ e.addr) :
    Same (handleResult w (handleResult w m e) f) (handleResult w (handleResult w m f) e) := by
  obtain ⟨ee, hee, hope⟩ := local_of_quiet he.1 he.2
  obtain ⟨ef, hef, hopf⟩ := local_of_quiet hf.1 hf.2
  have hfirst : handleResult w m e = m.put e.addr ee := hope m (.refl _ m) rfl
  have hsecond : handleResult w m f = m.put f.addr ef := hopf m (.refl _ m) rfl
  have hthen : handleResult w (m.put e.addr ee) f = (m.put e.addr ee).put f.addr ef :=
    hopf _ ((Twin.refl _ m).put_other hne hee) rfl
  have hthen' : handleResult w (m.put f.addr ef) e = (m.put f.addr ef).put e.addr ee :=
    hope _ ((Twin.refl _ m).put_other hne.symm hef) rfl
  rw [hfirst, hsecond, hthen, hthen']
  exact same_put_put hne.symm hee hef

theorem Calm.swap (h : Calm w m (e :: f :: rs)) :
    Same (handleResult w (handleResult w m e) f) (handleResult w (handleResult w m f) e) := by
  have hme : e ∈ e :: f :: rs := List.mem_cons_self ..
  have hmf : f ∈ e :: f :: rs := List.mem_cons_of_mem _ (List.mem_cons_self ..)
  have hne : f.addr ≠ e.addr := addr_ne_of_nodup h.nodup f (List.mem_cons_self ..)
  have hfe : f ≠ e := fun heq ↦ hne (congrArg PingResult.addr heq)
  by_cases hte : Triggers cfg m e
  · exact swap_triggers hte (h.still e hme hte f hmf hfe) hne
  by_cases htf : Triggers cfg m f
  · exact (swap_triggers htf (h.still f hmf htf e hme hfe.symm) hne.symm).symm
  by_cases hae : Adopts w m e
  · exact swap_adopts hae htf (h.undisputed e hme f hmf hfe hae) hne
  by_cases haf : Adopts w m f
  · exact (swap_adopts haf hte (h.undisputed f hmf e hme hfe.symm haf) hne.symm).symm
  · exact swap_local ⟨hte, hae⟩ ⟨htf, haf⟩ hne

theorem Calm.run_perm {rs' : List PingResult} (h : Calm w m rs) (hperm : rs.Perm rs') :
    Same (run (handleResult w) m rs) (run (handleResult w) m rs') :=
  Lib.Run.run_perm Same.refl (fun _ _ _ ↦ Same.trans) (fun _ _ r h ↦ h.handleResult r)
    (fun _ _ _ hperm h ↦ h.perm hperm) (fun _ _ _ h ↦ h.step) (fun _ _ _ _ h ↦ h.swap) hperm h

def Request.isReplicaOf : Request → Bool
  | .noOne => true
  | .replicaOf _ _ => true
  | _ => false

def sent (m m' : Monitor) : List (Addr × Request) :=
  ((m'.log.drop m.log.length).filter (·.request.isReplicaOf)).map (fun x ↦ (x.peer, x.request))

structure SameOutcome (m m₁ m₂ : Monitor) : Prop where
  master : m₁.master = m₂.master
  nodes : m₁.nodes = m₂.nodes
  fails : m₁.fails = m₂.fails
  sent : ∀ c, c ∈ sent m m₁ ↔ c ∈ sent m m₂

def OrderFree (w : World cfg) (m : Monitor) (pings : Addr → Response) : Prop :=
  ∀ order₁ order₂ : Order cfg,
    SameOutcome m (healthCheck w m ⟨pings, order₁⟩) (healthCheck w m ⟨pings, order₂⟩)

def resultsOf (cfg : Config) (pings : Addr → Response) : List PingResult :=
  cfg.nodes.dedup.map (fun addr ↦ ⟨addr, ping (pings addr)⟩)

theorem results_perm (pings : Addr → Response) (order : Order cfg) :
    (Tick.results ⟨pings, order⟩).Perm (resultsOf cfg pings) := order.2.map _

theorem resultsOf_nodup (pings : Addr → Response) : ((resultsOf cfg pings).map (·.addr)).Nodup := by
  rw [resultsOf, List.map_map]
  change (cfg.nodes.dedup.map id).Nodup
  rw [List.map_id]
  exact List.nodup_dedup _

theorem log_run (w : World cfg) (m : Monitor) (rs : List PingResult) :
    ∃ calls, (run (handleResult w) m rs).log = m.log ++ calls := by
  induction rs generalizing m with
  | nil => exact ⟨[], (List.append_nil _).symm⟩
  | cons r rs ih =>
    obtain ⟨calls, hlog, -⟩ := Learns.step w m r
    obtain ⟨more, hmore⟩ := ih (handleResult w m r)
    exact ⟨calls ++ more, by rw [run_cons, hmore, hlog, List.append_assoc]⟩

theorem mem_sent_iff {calls : List Call} (hlog : m'.log = m.log ++ calls) (c : Addr × Request) :
    c ∈ sent m m' ↔ ∃ x ∈ calls, x.request.isReplicaOf = true ∧ (x.peer, x.request) = c := by
  rw [sent, hlog, List.drop_left, List.mem_map]
  simp only [List.mem_filter, and_assoc]

theorem sameOutcome_of_same {rs₁ rs₂ : List PingResult}
    (h : Same (run (handleResult w) m rs₁) (run (handleResult w) m rs₂)) :
    SameOutcome m (run (handleResult w) m rs₁) (run (handleResult w) m rs₂) := by
  obtain ⟨calls₁, hlog₁⟩ := log_run w m rs₁
  obtain ⟨calls₂, hlog₂⟩ := log_run w m rs₂
  have hcalls (x : Call) : x ∈ calls₁ ↔ x ∈ calls₂ := by
    have hfilter := h.log x.peer
    rw [hlog₁, hlog₂, List.filter_append, List.filter_append] at hfilter
    have hmem {calls : List Call} : x ∈ calls ↔ x ∈ calls.filter (·.peer = x.peer) := by
      rw [List.mem_filter, decide_eq_true_eq]
      exact ⟨fun hx ↦ ⟨hx, rfl⟩, fun hx ↦ hx.1⟩
    rw [hmem, List.append_cancel_left hfilter, ← hmem]
  refine ⟨h.master, h.nodes, h.fails, fun c ↦ ?_⟩
  rw [mem_sent_iff hlog₁, mem_sent_iff hlog₂]
  simp only [hcalls]

theorem Calm.orderFree {pings : Addr → Response} (h : Calm w m (resultsOf cfg pings)) :
    OrderFree w m pings := by
  intro order₁ order₂
  have hperm := (results_perm pings order₁).trans (results_perm pings order₂).symm
  exact sameOutcome_of_same ((h.perm (results_perm pings order₁).symm).run_perm hperm)

theorem master_kept (hknown : m.master ≠ []) (hrs : ∀ r ∈ rs, r.addr ≠ m.master) :
    (run (handleResult w) m rs).master = m.master := by
  induction rs generalizing m with
  | nil => rfl
  | cons r rs ih =>
    have hkept : (handleResult w m r).master = m.master := by
      by_contra hmoves
      obtain ⟨rfl, -⟩ := handleResult_master hknown hmoves
      exact hrs _ (List.mem_cons_self ..) rfl
    rw [run_cons, ih (by rw [hkept]; exact hknown)
      (fun r' hr' ↦ by rw [hkept]; exact hrs r' (List.mem_cons_of_mem _ hr')), hkept]

theorem calls_own (hknown : m.master ≠ []) (hne : r.addr ≠ m.master) :
    ∃ calls, (handleResult w m r).log = m.log ++ calls ∧ ∀ x ∈ calls, x.peer = r.addr := by
  have htriggers : ¬Triggers cfg m r := fun h ↦ hne (congrArg PingResult.addr h.1)
  obtain ⟨e, he, hop⟩ := local_of_quiet htriggers (fun h : Adopts w m r ↦ hknown h.1)
  have heq : handleResult w m r = m.put r.addr e := hop m (.refl _ m) rfl
  exact ⟨e.calls, by rw [heq]; rfl, he⟩

theorem calls_run (hknown : m.master ≠ []) (hrs : ∀ r ∈ rs, r.addr ≠ m.master) :
    ∃ calls, (run (handleResult w) m rs).log = m.log ++ calls ∧
      ∀ x ∈ calls, ∃ r ∈ rs, x.peer = r.addr := by
  induction rs generalizing m with
  | nil => exact ⟨[], (List.append_nil _).symm, by simp⟩
  | cons r rs ih =>
    have hr := hrs r (List.mem_cons_self ..)
    have hkept : (run (handleResult w) m [r]).master = m.master :=
      master_kept hknown (by simpa using hr)
    rw [run_cons, run_nil] at hkept
    obtain ⟨calls, hlog, hpeer⟩ := calls_own (w := w) hknown hr
    obtain ⟨more, hmore, hpeers⟩ := ih (by rw [hkept]; exact hknown)
      (fun r' hr' ↦ by rw [hkept]; exact hrs r' (List.mem_cons_of_mem _ hr'))
    refine ⟨calls ++ more, by rw [run_cons, hmore, hlog, List.append_assoc], fun x hx ↦ ?_⟩
    rcases List.mem_append.mp hx with hx | hx
    · exact ⟨r, List.mem_cons_self .., hpeer x hx⟩
    · obtain ⟨r', hr', hpeer'⟩ := hpeers x hx
      exact ⟨r', List.mem_cons_of_mem _ hr', hpeer'⟩

theorem asserting_is_told {host port : Bytes} (hasserts : Asserts w m r) (hknown : m.master ≠ [])
    (hne : r.addr ≠ m.master) (hsplit : splitHostPort m.master = some (host, port)) :
    ∃ calls, (handleResult w m r).log = m.log ++ calls ∧
      ∃ x ∈ calls, x.peer = r.addr ∧ x.request = .replicaOf host port := by
  obtain ⟨addr, alive⟩ := r
  obtain ⟨halive, hclaimed⟩ := hasserts
  have halive : alive = true := halive
  have hne : addr ≠ m.master := hne
  have hclaimed : claimed w m addr = some (ascii "master") := hclaimed
  subst halive
  have hredirect {n : Monitor} (hn : n.master = m.master) : ∃ x : Call,
      (redirect w n addr).log = n.log ++ [x] ∧ x.peer = addr ∧ x.request = .replicaOf host port := by
    refine ⟨call w.script n.log addr (.replicaOf host port), ?_, rfl, rfl⟩
    rw [redirect_eq, hn, hsplit]
    dsimp only
    split <;> rfl
  rw [handleResult, if_pos rfl, pingAnswered_eq]
  by_cases hdead : (m.nodes addr).alive = false
  · rw [claimed, if_pos hdead] at hclaimed
    rw [if_pos hdead, hclaimed]
    dsimp only
    obtain ⟨x, hlog, hpeer, hrequest⟩ := hredirect (n := ((m.awake addr).record
      [call w.script m.log addr .role]).setRole addr (ascii "master")) rfl
    have hrecovered : recovered w ((m.awake addr).record [call w.script m.log addr .role]) addr
        (ascii "master") = redirect w (((m.awake addr).record
          [call w.script m.log addr .role]).setRole addr (ascii "master")) addr := by
      rw [recovered, if_pos rfl, if_neg]
      rintro (h | h)
      · exact hknown h
      · exact hne h.symm
    obtain ⟨more, hmore, -⟩ := Learns.retryStale w (recovered w ((m.awake addr).record
      [call w.script m.log addr .role]) addr (ascii "master")) addr
    refine ⟨call w.script m.log addr .role :: x :: more, ?_, x, by simp, hpeer, hrequest⟩
    rw [hmore, hrecovered, hlog]
    change m.log ++ [_] ++ [x] ++ more = _
    simp
  · rw [claimed, if_neg hdead] at hclaimed
    have hrole : ((m.awake addr).nodes addr).role = ascii "master" :=
      ((m.setFails addr 0).setAlive_role addr true addr).trans (Option.some.inj hclaimed)
    obtain ⟨x, hlog, hpeer, hrequest⟩ := hredirect (n := m.awake addr) rfl
    rw [if_neg hdead, retryStale, if_pos ⟨hrole, hne, hknown⟩]
    exact ⟨[x], hlog, x, List.mem_singleton_self x, hpeer, hrequest⟩

/-- While no master is known, an answered ping makes the monitor send `ROLE` at most. -/
theorem calls_of_unknown (hunknown : m.master = []) (halive : r.alive = true) :
    ∃ calls, (handleResult w m r).log = m.log ++ calls ∧ ∀ x ∈ calls, x.request = .role := by
  obtain ⟨addr, alive⟩ := r
  have halive : alive = true := halive
  subst halive
  have hretry (n : Monitor) (hn : addr = n.master ∨ n.master = []) : retryStale w n addr = n := by
    rw [retryStale, if_neg]
    rintro ⟨-, hne, hknown⟩
    exact hn.elim hne hknown
  rw [handleResult, if_pos rfl, pingAnswered_eq]
  split
  · cases role (call w.script m.log addr .role).response with
    | none => exact ⟨_, rfl, by simp [call, ask]⟩
    | some value =>
      refine ⟨[call w.script m.log addr .role], ?_, by simp [call, ask]⟩
      dsimp only
      rw [recovered]
      split
      · rw [if_pos (.inl hunknown), hretry _ (.inl rfl)]
        rfl
      · rw [hretry (((m.awake addr).record _).setRole addr value) (.inr hunknown)]
        rfl
  · rw [hretry (m.awake addr) (.inr hunknown)]
    exact ⟨[], (List.append_nil _).symm, by simp⟩

theorem exists_order {a b : Addr} (ha : a ∈ cfg.nodes) (hb : b ∈ cfg.nodes) (hne : b ≠ a) :
    ∃ rest, (a :: b :: rest).Perm cfg.nodes.dedup ∧ (b :: a :: rest).Perm cfg.nodes.dedup := by
  have hperm := List.perm_cons_erase (List.mem_dedup.mpr ha)
  have hmem : b ∈ cfg.nodes.dedup.erase a :=
    (List.mem_erase_of_ne hne).mpr (List.mem_dedup.mpr hb)
  have hfirst : (a :: b :: (cfg.nodes.dedup.erase a).erase b).Perm cfg.nodes.dedup :=
    ((List.perm_cons_erase hmem).symm.cons a).trans hperm.symm
  exact ⟨_, hfirst, (List.Perm.swap a b _).trans hfirst⟩

theorem master_of_adopts (h : Adopts w m r) (hrs : ∀ r' ∈ rs, r'.addr ≠ r.addr) :
    (run (handleResult w) m (r :: rs)).master = r.addr := by
  obtain ⟨e, -, hop⟩ := handleResult_adopts h
  have hfirst : (handleResult w m r).master = r.addr := by
    rw [hop m (.refl _ m) h.1]
  rw [run_cons, master_kept (by rw [hfirst]; exact h.2.1) (by rw [hfirst]; exact hrs), hfirst]

theorem rival_is_told {host port : Bytes} (hadopts : Adopts w m e) (hasserts : Asserts w m f)
    (hne : f.addr ≠ e.addr) (hsplit : splitHostPort e.addr = some (host, port)) :
    (f.addr, .replicaOf host port) ∈ sent m (run (handleResult w) m (e :: f :: rs)) := by
  obtain ⟨effect, he, hop⟩ := handleResult_adopts hadopts
  have hfirst : handleResult w m e = { m.put e.addr effect with master := e.addr } :=
    hop m (.refl _ m) hadopts.1
  have htwin : Twin f.addr m (handleResult w m e) := by
    rw [hfirst]
    exact ((Twin.refl _ m).put_other hne he).withMaster e.addr
  have hmaster : (handleResult w m e).master = e.addr := by rw [hfirst]
  obtain ⟨calls₁, hlog₁, -⟩ := Learns.step w m e
  obtain ⟨calls₂, hlog₂, x, hx, hpeer, hrequest⟩ :=
    asserting_is_told ((asserts_twin htwin).mpr hasserts) (by rw [hmaster]; exact hadopts.2.1)
      (by rw [hmaster]; exact hne) (by rw [hmaster]; exact hsplit)
  obtain ⟨more, hmore⟩ := log_run w (handleResult w (handleResult w m e) f) rs
  have hlog : (run (handleResult w) m (e :: f :: rs)).log =
      m.log ++ (calls₁ ++ (calls₂ ++ more)) := by
    rw [run_cons, run_cons, hmore, hlog₂, hlog₁]
    simp only [List.append_assoc]
  rw [mem_sent_iff hlog]
  refine ⟨x, List.mem_append_right _ (List.mem_append_left _ hx), ?_, ?_⟩
  · rw [hrequest]
    rfl
  · rw [hpeer, hrequest]

theorem rival_is_not_told (hadopts : Adopts w m e) (halive : f.alive = true)
    (hquiet : ¬Triggers cfg m f ∧ ¬Adopts w m f) (hne : f.addr ≠ e.addr)
    (hrs : ∀ r ∈ rs, r.addr ≠ e.addr ∧ r.addr ≠ f.addr) (host port : Bytes) :
    (f.addr, .replicaOf host port) ∉ sent m (run (handleResult w) m (f :: e :: rs)) := by
  obtain ⟨effect, he, hop⟩ := local_of_quiet hquiet.1 hquiet.2
  have hfirst : handleResult w m f = m.put f.addr effect := hop m (.refl _ m) rfl
  have hadopts' : Adopts w (handleResult w m f) e := by
    rw [hfirst, adopts_twin ((Twin.refl _ m).put_other hne.symm he) rfl]
    exact hadopts
  obtain ⟨effect', he', hop'⟩ := handleResult_adopts hadopts'
  have hsecond := hop' _ (.refl _ _) hadopts'.1
  have hmaster : (handleResult w (handleResult w m f) e).master = e.addr := by rw [hsecond]
  obtain ⟨calls₁, hlog₁, hrole⟩ := calls_of_unknown (w := w) hadopts.1 halive
  have hothers : ∀ r ∈ rs, r.addr ≠ (handleResult w (handleResult w m f) e).master := by
    rw [hmaster]
    exact fun r hr ↦ (hrs r hr).1
  obtain ⟨calls₃, hlog₃, hpeers⟩ := calls_run (w := w) (by rw [hmaster]; exact hadopts.2.1) hothers
  have hlog₂ : (handleResult w (handleResult w m f) e).log =
      (handleResult w m f).log ++ effect'.calls := by
    rw [hsecond]
    rfl
  have hlog : (run (handleResult w) m (f :: e :: rs)).log =
      m.log ++ (calls₁ ++ (effect'.calls ++ calls₃)) := by
    rw [run_cons, run_cons, hlog₃, hlog₂, hlog₁]
    simp only [List.append_assoc]
  rw [mem_sent_iff hlog]
  rintro ⟨x, hx, -, hx'⟩
  obtain ⟨hpeer, hrequest⟩ := Prod.mk.inj hx'
  rcases List.mem_append.mp hx with hx | hx
  · rw [hrole x hx] at hrequest
    cases hrequest
  · rcases List.mem_append.mp hx with hx | hx
    · exact hne (hpeer.symm.trans (he' x hx))
    · obtain ⟨r, hr, hown⟩ := hpeers x hx
      exact (hrs r hr).2 (hown.symm.trans hpeer)

/-- Without a failover, rivals make the outcome depend on the order. -/
theorem undisputed_of_orderFree {pings : Addr → Response} (h : OrderFree w m pings)
    (hquiet : ∀ r ∈ resultsOf cfg pings, ¬Triggers cfg m r) :
    Undisputed w m (resultsOf cfg pings) := by
  intro r hr r' hr' hne hadopts hasserts
  have hquiet' := hquiet r' hr'
  obtain ⟨a, ha, rfl⟩ := List.mem_map.mp hr
  obtain ⟨b, hb, rfl⟩ := List.mem_map.mp hr'
  have hab : b ≠ a := fun heq ↦ hne (by rw [heq])
  obtain ⟨rest, hperm, hperm'⟩ := exists_order (List.mem_dedup.mp ha) (List.mem_dedup.mp hb) hab
  have hnodup : (a :: b :: rest).Nodup := hperm.nodup_iff.mpr (List.nodup_dedup _)
  have hrest : ∀ r ∈ rest.map (fun addr ↦ (⟨addr, ping (pings addr)⟩ : PingResult)),
      r.addr ≠ a ∧ r.addr ≠ b := by
    intro r hr
    obtain ⟨c, hc, rfl⟩ := List.mem_map.mp hr
    rw [List.nodup_cons, List.nodup_cons, List.mem_cons, not_or] at hnodup
    exact ⟨fun heq ↦ hnodup.1.2 (heq ▸ hc), fun heq ↦ hnodup.2.1 (heq ▸ hc)⟩
  have houtcome := h ⟨a :: b :: rest, hperm⟩ ⟨b :: a :: rest, hperm'⟩
  have hnot : ¬Adopts w m ⟨b, ping (pings b)⟩ := by
    intro hadopts'
    have hfirst := master_of_adopts hadopts (List.forall_mem_cons (a := ⟨b, ping (pings b)⟩).mpr
      ⟨hab, fun r hr ↦ (hrest r hr).1⟩)
    have hfirst' := master_of_adopts hadopts' (List.forall_mem_cons (a := ⟨a, ping (pings a)⟩).mpr
      ⟨hab.symm, fun r hr ↦ (hrest r hr).2⟩)
    exact hab (hfirst'.symm.trans (houtcome.master.symm.trans hfirst))
  refine ⟨hnot, ?_⟩
  cases hsplit : splitHostPort a with
  | none => rfl
  | some hp =>
    have htold := (houtcome.sent (b, .replicaOf hp.1 hp.2)).mp
      (rival_is_told hadopts hasserts hab hsplit)
    exact absurd htold (rival_is_not_told hadopts hasserts.1 ⟨hquiet', hnot⟩ hab hrest hp.1 hp.2)

/-- In a tick without a failover the outcome is the same for all orders of the results if and only
if no node that comes back as a master while none is known has a rival. In a tick with a failover
it is the same if the other results only touch the failure counters. -/
theorem tick_ignores_order (w : World cfg) (m : Monitor) (pings : Addr → Response) :
    ((∀ r ∈ resultsOf cfg pings, ¬Triggers cfg m r) →
      (OrderFree w m pings ↔ Undisputed w m (resultsOf cfg pings))) ∧
    ∀ r ∈ resultsOf cfg pings, Triggers cfg m r →
      (∀ r' ∈ resultsOf cfg pings, r' ≠ r → Still cfg m r') → OrderFree w m pings := by
  refine ⟨fun hquiet ↦ ⟨fun h ↦ undisputed_of_orderFree h hquiet, fun h ↦ ?_⟩,
    fun r hr htriggers hstill ↦ ?_⟩
  · exact Calm.orderFree ⟨resultsOf_nodup pings, fun r hr ht ↦ absurd ht (hquiet r hr), h⟩
  · refine Calm.orderFree ⟨resultsOf_nodup pings, fun r₁ h₁ ht r' hr' hne ↦ ?_,
      fun r₁ h₁ _ _ _ hadopts ↦ ?_⟩
    · rw [ht.1, ← htriggers.1] at hne
      exact hstill r' hr' hne
    · have hne : r₁ ≠ r := by
        rintro rfl
        have halive := hadopts.2.2.2.1
        rw [htriggers.1] at halive
        cases halive
      exact absurd hadopts (hstill r₁ h₁ hne).not_adopts

def aFirst : Order ⟨[ascii "a:1", ascii "b:2"], 3⟩ := ⟨[ascii "a:1", ascii "b:2"], by decide⟩

def bFirst : Order ⟨[ascii "a:1", ascii "b:2"], 3⟩ := ⟨[ascii "b:2", ascii "a:1"], by decide⟩

/-- Two nodes that both report to be a master are first reached in the same tick. The one whose
ping result comes first is the master then, and the other one is told to follow it. -/
theorem first_arrival_is_master :
    let m₁ := healthCheck twoMasters newMonitor ⟨fun _ ↦ some (ascii "+PONG\r\n"), aFirst⟩
    let m₂ := healthCheck twoMasters newMonitor ⟨fun _ ↦ some (ascii "+PONG\r\n"), bFirst⟩
    m₁.master = ascii "a:1" ∧ m₂.master = ascii "b:2" ∧
    (ascii "b:2", .replicaOf (ascii "a") (ascii "1")) ∈ sent newMonitor m₁ ∧
    (ascii "b:2", .replicaOf (ascii "a") (ascii "1")) ∉ sent newMonitor m₂ := by
  refine ⟨?_, ?_, ?_, ?_⟩ <;> decide +kernel

def lastSeen : Monitor :=
  { newMonitor with
    nodes := fun addr ↦ ⟨if addr = ascii "a:1" then ascii "master" else ascii "slave", true⟩
    master := ascii "a:1"
    fails := fun _ ↦ 1 }

-- The replica `c:3` dies in the tick of the failover: it is promoted if that is noticed too late.
example :
    let w := configured sampleNodes 2 sampleNodes_nodup
      (answering sampleInfo (fun _ ↦ masterRole) (fun _ ↦ ok) (fun _ ↦ ok))
    let results := [⟨ascii "a:1", false⟩, ⟨ascii "c:3", false⟩, ⟨ascii "b:2", true⟩]
    let results' := [⟨ascii "c:3", false⟩, ⟨ascii "a:1", false⟩, ⟨ascii "b:2", true⟩]
    (ascii "c:3", .noOne) ∈ sent lastSeen (run (handleResult w) lastSeen results) ∧
    (ascii "c:3", .noOne) ∉ sent lastSeen (run (handleResult w) lastSeen results') := by
  decide +kernel

end RedisLite.Controller
