import RedisLite.Attachment
import RedisLite.Queues

namespace RedisLite.Server

open Function Lib.Run

variable {s t u : Server} {gone : ClientId → Prop} {c : ClientId} {client : Client}
  {args : List Bytes} {n : ℕ} {wait : WaitState}

def CaughtUp (target : ℤ) (c : ClientId) (s : Server) : Prop :=
  ∃ client, s.clients c = some client ∧ target ≤ client.ackOffset

theorem count_le_of_caughtUp {target : ℤ} (hn : t.replicas.Nodup)
    (h : ∀ c ∈ t.replicas, CaughtUp target c t → c ∈ s.replicas ∧ CaughtUp target c s) :
    t.countCaughtUpReplicas target ≤ s.countCaughtUpReplicas target := by
  have hany (s : Server) (c : ClientId) :
      (s.clients c).any (fun replica ↦ decide (target ≤ replica.ackOffset)) = true ↔
        CaughtUp target c s := by
    simp only [Option.any_eq_true, decide_eq_true_eq, CaughtUp]
  unfold countCaughtUpReplicas
  rw [List.countP_eq_length_filter, List.countP_eq_length_filter]
  refine (hn.filter _).subperm (fun c hc ↦ ?_) |>.length_le
  obtain ⟨hmem, hup⟩ := List.mem_filter.mp hc
  obtain ⟨hmem', hup'⟩ := h c hmem ((hany t c).mp hup)
  exact List.mem_filter.mpr ⟨hmem', (hany s c).mpr hup'⟩

theorem Thins.count_le (h : Thins gone s t) (hn : t.replicas.Nodup) (target : ℤ) :
    t.countCaughtUpReplicas target ≤ s.countCaughtUpReplicas target := by
  refine count_le_of_caughtUp hn (fun c hmem hup ↦ ⟨h.replicas hmem, ?_⟩)
  obtain ⟨client, hc, hle⟩ := hup
  obtain ⟨client', hc', hbare⟩ := h.exists_client hc
  have hack : (bare client).ackOffset = (bare client').ackOffset := by rw [hbare]
  exact ⟨client', hc', hle.trans_eq hack⟩

/-- What the loop over the parked waits leaves behind is not due, as long as its test cannot
come true by the loss of a replica. -/
theorem settleWaits_undue (due : WaitState → ℕ → Bool)
    (hmono : ∀ wait m n, m ≤ n → due wait n = false → due wait m = false)
    (kept waits : List WaitState) (hcons : Consistent s)
    (hkept : ∀ wait ∈ kept, due wait (s.countCaughtUpReplicas wait.targetOffset) = false)
    (hpc : ¬Halted (settleWaits due kept waits s).pc) :
    ∀ wait ∈ (settleWaits due kept waits s).pendingWaits,
      due wait ((settleWaits due kept waits s).countCaughtUpReplicas wait.targetOffset) = false := by
  induction waits generalizing kept s with
  | nil => exact hkept
  | cons wait waits ih =>
    unfold settleWaits at hpc ⊢
    dsimp only at hpc ⊢
    by_cases hdue : due wait (s.countCaughtUpReplicas wait.targetOffset) = true
    · rw [if_pos hdue] at hpc ⊢
      have hcons' := hcons.replyWait wait.client (s.countCaughtUpReplicas wait.targetOffset)
        wait.targetOffset
      have hthin : Thins (fun _ ↦ True) s _ := Thins.replyWait (c := wait.client) (.inr trivial)
        (s.countCaughtUpReplicas wait.targetOffset) wait.targetOffset
      generalize s.replyWait wait.client (s.countCaughtUpReplicas wait.targetOffset)
        wait.targetOffset = s' at hcons' hthin hpc ⊢
      by_cases hlost : (s'.clients wait.client).isNone = true
      · rw [if_pos hlost] at hpc
        exact absurd trivial hpc
      · rw [if_neg hlost] at hpc ⊢
        refine ih kept hcons' (fun w hw ↦ ?_) hpc
        exact hmono w _ _ (hthin.count_le hcons'.nodup _) (hkept w hw)
    · rw [if_neg hdue] at hpc ⊢
      refine ih (kept ++ [wait]) hcons (fun w hw ↦ ?_) hpc
      rcases List.mem_append.mp hw with hw | hw
      · exact hkept w hw
      · rw [List.mem_singleton.mp hw]
        exact Bool.not_eq_true _ ▸ hdue

/-- Between two states nothing is acknowledged, and no client with an acknowledgement changes
its type. -/
def Fades (s t : Server) : Prop :=
  ∀ c client, t.clients c = some client → client.ackOffset ≠ 0 →
    ∃ client', s.clients c = some client' ∧ client'.type = client.type ∧
      client'.ackOffset = client.ackOffset

namespace Fades

theorem refl (s : Server) : Fades s s := fun _ client hc _ ↦ ⟨client, hc, rfl, rfl⟩

theorem trans (h : Fades s t) (h' : Fades t u) : Fades s u := by
  intro c client hc hack
  obtain ⟨client', hc', htype', hack'⟩ := h' c client hc hack
  obtain ⟨client'', hc'', htype'', hack''⟩ := h c client' hc' (hack' ▸ hack)
  exact ⟨client'', hc'', htype''.trans htype', hack''.trans hack'⟩

theorem of_clients (h : t.clients = s.clients) : Fades s t := by
  intro c client hc _
  exact ⟨client, h ▸ hc, rfl, rfl⟩

theorem of_thins (h : Thins gone s t) : Fades s t := by
  intro c client hc _
  obtain ⟨client', hc', hbare⟩ := h.exists_client hc
  have htype : (bare client').type = (bare client).type := by rw [hbare]
  have hack : (bare client').ackOffset = (bare client).ackOffset := by rw [hbare]
  exact ⟨client', hc', htype, hack⟩

theorem of_update {new : Client} (h : t.clients = update s.clients c (some new))
    (hnew : new.ackOffset = 0) : Fades s t := by
  intro d client hd hack
  rw [h] at hd
  by_cases hdc : d = c
  · rw [hdc, update_self, Option.some.injEq] at hd
    exact absurd (hd ▸ hnew) hack
  · rw [update_of_ne hdc] at hd
    exact ⟨client, hd, rfl, rfl⟩

theorem mapClient (c : ClientId) (f : Client → Client)
    (hf : ∀ client, (f client).type = client.type ∧ (f client).ackOffset = client.ackOffset)
    (s : Server) : Fades s (s.mapClient c f) := by
  intro d client hd _
  change update s.clients c ((s.clients c).map f) d = some client at hd
  by_cases hdc : d = c
  · rw [hdc, update_self, Option.map_eq_some_iff] at hd
    obtain ⟨client', hc, rfl⟩ := hd
    exact ⟨client', hdc ▸ hc, (hf client').1.symm, (hf client').2.symm⟩
  · rw [update_of_ne hdc] at hd
    exact ⟨client, hd, rfl, rfl⟩

theorem eraseRead (c : ClientId) (n : ℕ) (s : Server) : Fades s (s.eraseRead c n) := by
  unfold Server.eraseRead
  split
  · exact refl s
  · split
    · exact refl s
    · exact mapClient c (fun client ↦ { client with readBuf := client.readBuf.drop n })
        (fun _ ↦ ⟨rfl, rfl⟩) s

theorem addReplica (hc : s.clients c = some client) (hack : client.ackOffset = 0) (data : Bytes) :
    Fades s (s.addReplica c data) := by
  have hnew : (s.addReplica c data).clients =
      update s.clients c (some { client with type := .replica }) := by
    rw [Server.addReplica, Server.mapClient, hc, Option.map_some]
  exact of_update hnew hack

theorem count_le (h : Fades s t) (hs : Consistent s) (ht : Consistent t) {target : ℤ}
    (hpos : 0 < target) : t.countCaughtUpReplicas target ≤ s.countCaughtUpReplicas target := by
  refine count_le_of_caughtUp ht.nodup (fun c hmem hup ↦ ?_)
  obtain ⟨client, hc, hle⟩ := hup
  obtain ⟨replica, hreplica, htype⟩ := (ht.replica_iff c).mp hmem
  have hsame : replica = client := Option.some.inj (hreplica.symm.trans hc)
  obtain ⟨client', hc', htype', hack'⟩ := h c client hc (by omega)
  rw [hsame] at htype
  exact ⟨(hs.replica_iff c).mpr ⟨client', hc', htype'.trans htype⟩, client', hc', hack' ▸ hle⟩

end Fades

def Short (s : Server) (wait : WaitState) : Prop :=
  0 < wait.targetOffset → s.countCaughtUpReplicas wait.targetOffset < wait.numNeeded

def Quiet (s : Server) : Prop :=
  ∀ c client, s.clients c = some client → client.type ≠ .replica → client.ackOffset = 0

theorem Quiet.fades (h : Quiet s) (hf : Fades s t) : Quiet t := by
  intro c client hc htype
  by_contra hack
  obtain ⟨client', hc', htype', hack'⟩ := hf c client hc hack
  exact hack (hack'.symm.trans (h c client' hc' (htype' ▸ htype)))

theorem Quiet.acknowledge (h : Quiet s) (hc : s.clients c = some client)
    (ht : client.type = .replica) (m : ℤ) : Quiet (s.acknowledge c m) := by
  intro d client' hd htype
  change update s.clients c _ d = some client' at hd
  by_cases hdc : d = c
  · rw [hdc, update_self, hc, Option.map_some, Option.some.injEq] at hd
    exact absurd (hd ▸ ht) htype
  · rw [update_of_ne hdc] at hd
    exact h d client' hd htype

structure Waiting (s : Server) : Prop where
  quiet : Quiet s
  short : ∀ wait ∈ s.pendingWaits, Short s wait

theorem Short.fades (h : Short s wait) (hf : Fades s t) (hs : Consistent s) (ht : Consistent t) :
    Short t wait := by
  intro hpos
  have hlt := h hpos
  have hle := hf.count_le hs ht hpos
  omega

namespace Waiting

theorem fades (h : Waiting s) (hf : Fades s t) (hs : Consistent s) (ht : Consistent t)
    (hwaits : ∀ wait ∈ t.pendingWaits, wait ∈ s.pendingWaits ∨ Short s wait) : Waiting t where
  quiet := h.quiet.fades hf
  short wait hmem := by
    have hshort : Short s wait := (hwaits wait hmem).elim (h.short wait) id
    exact hshort.fades hf hs ht

theorem of_initial (h : Initial s) : Waiting s := by
  cases h with
  | master replid =>
    have hquiet : Quiet (init replid) := by
      intro c client hc
      cases hc
    exact ⟨hquiet, fun _ hmem ↦ absurd hmem List.not_mem_nil⟩
  | worker replid host port clk peer _ h =>
    have hconn := connectToMaster_connected clk peer host port (initWorker replid host port)
    rw [h] at hconn
    cases hconn with
    | linked fd id n store leftover hfd =>
      have hquiet : Quiet (initWorker replid host port) := by
        intro c client hc
        cases hc
      exact ⟨hquiet.fades (.of_update rfl rfl), fun _ hmem ↦ absurd hmem List.not_mem_nil⟩

/-- A replica's acknowledgement answers every wait that it satisfies. -/
theorem acknowledged (h : Waiting s) (hcons : Consistent s) (hc : s.clients c = some client)
    (ht : client.type = .replica) (args : List Bytes)
    (hpc : ¬Halted (s.handleReplicaRead c args).pc) : Waiting (s.handleReplicaRead c args) := by
  rw [handleReplicaRead_eq] at hpc ⊢
  cases hack : ackOf args with
  | none => exact h
  | some m =>
    rw [hack] at hpc
    have hcons' : Consistent (s.acknowledge c m) :=
      hcons.of_same (mapClient_same c (fun client ↦ { client with ackOffset := m }) (fun _ ↦ rfl) s)
    have hthin : Thins (fun _ ↦ True) (s.acknowledge c m) (s.acknowledge c m).resolvePendingWaits :=
      .settleAll _ (.inr (fun _ _ ↦ trivial))
    refine ⟨(h.quiet.acknowledge hc ht m).fades (.of_thins hthin), fun wait hmem _ ↦ ?_⟩
    have hmono (wait : WaitState) (m n : ℕ) (hmn : m ≤ n)
        (hn : decide (wait.numNeeded ≤ n) = false) : decide (wait.numNeeded ≤ m) = false := by
      rw [decide_eq_false_iff_not] at hn ⊢
      omega
    have hundue := settleWaits_undue _ hmono [] _ hcons' (fun _ h ↦ absurd h List.not_mem_nil) hpc
      wait hmem
    exact Int.not_le.mp (decide_eq_false_iff_not.mp hundue)

end Waiting

theorem parkedWait_short {now : TimePoint} (h : s.parkedWait now c args = some wait) :
    s.countCaughtUpReplicas wait.targetOffset < wait.numNeeded := by
  unfold parkedWait at h
  split at h
  · next hv =>
    cases h
    exact waitVerdict_parked hv
  · cases h

theorem handleWait_waits (now : TimePoint) (c : ClientId) (args : List Bytes) (s : Server) :
    ∀ wait ∈ (s.handleWait now c args).pendingWaits,
      wait ∈ s.pendingWaits ∨ s.parkedWait now c args = some wait := by
  have h := handleWait_waited now c args s
  generalize s.handleWait now c args = t at h ⊢
  intro wait hmem
  cases h with
  | replied count => exact .inl (replyWait_waits _ _ _ hmem)
  | refused response => exact .inl (reply_waits _ _ hmem)
  | ignored => exact .inl hmem
  | parked numNeeded timeoutMs hv =>
    rcases List.mem_append.mp hmem with hmem | hmem
    · exact .inl hmem
    · rw [List.mem_singleton.mp hmem]
      exact .inr (by rw [parkedWait, hv])

theorem wait_of_broadcast (h : s.broadcast args = [Command.getack]) :
    commandName args = ascii "WAIT" ∧ Command.executeWait args = [] := by
  unfold broadcast at h
  split at h
  · next hw =>
    rw [List.cons.inj h |>.1] at hw
    exact absurd hw (by decide)
  · split at h
    · next hwait => exact ⟨hwait.1, hwait.2.1⟩
    · cases h

/-- A parked `WAIT` is short of replicas. -/
theorem waits_of_parked (env : Env) (hc : Receives s c client args n) (ht : client.type = .regular)
    (hb : s.broadcast args = [Command.getack]) :
    ∀ wait ∈ (step s (.process env)).pendingWaits, wait ∈ s.pendingWaits ∨ Short s wait := by
  obtain ⟨hn, hr⟩ := wait_of_broadcast hb
  rw [step_wait env hc ht hn, if_pos hr, eraseRead_waits]
  intro wait hmem
  refine (handleWait_waits _ c args { s with sends := env.sends } wait hmem).imp_right ?_
  intro hparked _
  exact parkedWait_short hparked

/-- What a command leaves of the acknowledgements, unless it is one. -/
theorem fades_of_acted {env : Env} (h : Acted gone env c client args s t) (hquiet : Quiet s)
    (hc : s.clients c = some client) (hr : client.type ≠ .replica) : Fades s t := by
  cases h with
  | thinned t h => exact .of_thins h
  | acked ht => exact absurd ht hr
  | wrote _ _ _ t h => exact (Fades.of_thins h).trans (.of_clients (clients_propagate _ t).1)
  | parked _ _ _ t h wait =>
    refine .of_clients ?_
    rw [h]
    exact (clients_propagate _ s).1
  | joined =>
    rw [handlePsync_eq]
    exact .addReplica hc (hquiet c client hc hr) _
  | linked _ _ _ fd leftover t h => exact (Fades.of_thins h).trans (.of_update rfl rfl)

theorem waits_of_acted {env : Env} (h : Acted gone env c client args s t)
    (hparked : client.type = .regular → s.broadcast args ≠ [Command.getack]) :
    t.pendingWaits ⊆ s.pendingWaits := by
  cases h with
  | thinned t h => exact h.waits
  | acked ht n t h => exact h.waits
  | wrote _ _ _ t h =>
    rw [(propagate_frame _ t).1]
    exact h.waits
  | parked ht hb => exact absurd hb (hparked ht)
  | joined =>
    rw [handlePsync_eq]
    exact List.Subset.refl _
  | linked _ _ _ fd leftover t h => exact h.waits

theorem halted_eraseRead (h : Halted s.pc) (c : ClientId) (n : ℕ) : Halted (s.eraseRead c n).pc := by
  unfold eraseRead
  split
  · exact h
  · split
    · trivial
    · exact h

namespace Waiting

theorem command (h : Waiting s) (hcons : Consistent s) (env : Env) (hc : Receives s c client args n)
    (hpc : ¬Halted (Server.step s (.process env)).pc) : Waiting (Server.step s (.process env)) := by
  have hcons' := hcons.step (.process env)
  have herase := Fades.eraseRead c n (s.runCommand env c client args n)
  have hwaits := eraseRead_waits c n (s.runCommand env c client args n)
  by_cases hr : client.type = .replica
  · have hran := hcons.runCommand hc.connected env args n
    rw [hc.step_eq env] at hcons' hpc ⊢
    refine fades ?_ herase hran hcons' (fun wait hmem ↦ .inl (hwaits ▸ hmem))
    have hloaded : Consistent (loaded env client args s) :=
      hcons.of_same ⟨rfl, fun _ ↦ rfl, rfl, fun _ ↦ rfl, rfl, rfl, .inl⟩
    have hread : s.runCommand env c client args n =
        (loaded env client args s).handleReplicaRead c args := by
      rw [runCommand_replica env c args n hr, loaded, hr]
      rfl
    have hlive : ¬Halted (s.runCommand env c client args n).pc :=
      fun hhalted ↦ hpc (halted_eraseRead hhalted c n)
    rw [hread] at hlive ⊢
    exact acknowledged (s := loaded env client args s) ⟨h.quiet, h.short⟩ hloaded hc.connected hr
      args hlive
  · have hacted : Acted (fun _ ↦ True) env c client args (loaded env client args s)
        (s.runCommand env c client args n) :=
      acted_runCommand (.inr ⟨trivial, fun _ _ ↦ trivial⟩)
        (fun _ _ ↦ ⟨fun _ _ _ ↦ trivial, fun _ _ ↦ trivial⟩) n
    have hran : Fades (loaded env client args s) (s.runCommand env c client args n) :=
      fades_of_acted hacted h.quiet hc.connected hr
    have hfades : Fades s (Server.step s (.process env)) := hc.step_eq env ▸ hran.trans herase
    refine h.fades hfades hcons hcons' ?_
    by_cases hb : client.type = .regular ∧ s.broadcast args = [Command.getack]
    · exact waits_of_parked env hc hb.1 hb.2
    · rw [hc.step_eq env, hwaits]
      exact fun wait hmem ↦ .inl (waits_of_acted hacted (fun ht hb' ↦ hb ⟨ht, hb'⟩) hmem)

theorem step (h : Waiting s) (hcons : Consistent s) (e : Event)
    (hpc : ¬Halted (Server.step s e).pc) : Waiting (Server.step s e) := by
  have hchurn : Churn (fun _ ↦ True) s e (Server.step s e) := step_churn (spares_all s e)
  have hcons' := hcons.step e
  have hfades (hf : Fades s (Server.step s e))
      (hwaits : (Server.step s e).pendingWaits ⊆ s.pendingWaits) : Waiting (Server.step s e) :=
    h.fades hf hcons hcons' (fun wait hmem ↦ .inl (hwaits hmem))
  generalize hstep : Server.step s e = t at hchurn hfades ⊢
  cases hchurn with
  | accepted fd hfd =>
    rw [handleAccept, hfd] at hfades ⊢
    exact hfades (.of_update rfl rfl) (List.Subset.refl _)
  | received c data client hc =>
    exact hfades (Fades.mapClient c (fun client ↦ { client with readBuf := client.readBuf ++ data })
      (fun _ ↦ ⟨rfl, rfl⟩) s) (List.Subset.refl _)
  | thinned e sends t ht =>
    exact hfades (Fades.of_thins ht : Fades { s with sends := sends } t) ht.waits
  | paused => exact hfades (.refl s) (List.Subset.refl _)
  | finished env c client _ _ _ t ht =>
    exact hfades (Fades.of_thins ht : Fades { s with sends := env.sends, pc := .idle } t) ht.waits
  | command env c client args n hc t =>
    rw [← hstep]
    exact h.command hcons env hc hpc
  | swept key keys =>
    have hclients : (s.sweepKey key).clients = s.clients := (clients_propagate _ _).1
    have hwaits : (s.sweepKey key).pendingWaits = s.pendingWaits := (propagate_frame _ _).1
    exact hfades (.of_clients hclients) (fun wait hmem ↦ hwaits ▸ hmem)
  | swapped order => exact hfades (.refl s) (List.Subset.refl _)
  | sent result =>
    obtain ⟨hclients, hwaits, -⟩ := writerStep_frame result s
    exact hfades (.of_clients hclients) (fun wait hmem ↦ hwaits ▸ hmem)

theorem of_reachable (h : Reachable s) (hpc : ¬Halted s.pc) : Waiting s := by
  obtain ⟨s₀, es, h₀, rfl⟩ := h
  have hrun : Consistent (run Server.step s₀ es) ∧
      (¬Halted (run Server.step s₀ es).pc → Waiting (run Server.step s₀ es)) := by
    refine run_stable Server.step (I := fun s ↦ Consistent s ∧ (¬Halted s.pc → Waiting s)) ?_ ?_ es
    · intro s e ⟨hcons, hw⟩
      refine ⟨hcons.step e, fun hlive ↦ ?_⟩
      exact (hw (fun hs ↦ hlive (halted_step hs e))).step hcons e hlive
    · exact ⟨.of_initial h₀, fun _ ↦ .of_initial h₀⟩
  exact hrun.2 hpc

end Waiting

/-- As long as the main thread runs, a wait for a positive offset is parked only while fewer
replicas than it needs have acknowledged that offset, and the check of the timeouts leaves no
wait behind whose deadline has passed. -/
theorem parked_waits_open (h : Reachable s) (hpc : ¬Halted s.pc) :
    (∀ wait ∈ s.pendingWaits, 0 < wait.targetOffset →
      s.countCaughtUpReplicas wait.targetOffset < wait.numNeeded) ∧
    ∀ now sends, s.pc = .idle → ¬Halted (step s (.timeouts now sends)).pc →
      ∀ wait ∈ (step s (.timeouts now sends)).pendingWaits, now < wait.deadline := by
  refine ⟨(Waiting.of_reachable h hpc).short, ?_⟩
  intro now sends hidle hlive wait hmem
  have hcons : Consistent { s with sends := sends } :=
    (Consistent.of_reachable h).of_same ⟨rfl, fun _ ↦ rfl, rfl, fun _ ↦ rfl, rfl, rfl, .inl⟩
  have hstep : step s (.timeouts now sends) = checkWaitTimeouts now { s with sends := sends } := by
    simp only [step, hidle]
  rw [hstep] at hlive hmem
  have hundue := settleWaits_undue (fun wait _ ↦ decide (wait.deadline ≤ now)) (fun _ _ _ _ h ↦ h)
    [] _ hcons (fun _ h ↦ absurd h List.not_mem_nil) hlive wait hmem
  exact Int64.not_le.mp (decide_eq_false_iff_not.mp hundue)

/-- Two waits are parked behind one replica; the check at 100 ms leaves the one without limit. -/
theorem parked_waits_open_of_two :
    (run step (init sampleId) waitRun).pendingWaits.map (fun wait ↦ (wait.client, wait.targetOffset)) =
      [(1, 27), (2, 27)] ∧
    (step (run step (init sampleId) waitRun) (.timeouts 100000000 [.sent 100])).pendingWaits.map
      (·.client) = [2] ∧
    (∀ wait ∈ (run step (init sampleId) waitRun).pendingWaits, 0 < wait.targetOffset →
      (run step (init sampleId) waitRun).countCaughtUpReplicas wait.targetOffset < wait.numNeeded) ∧
    ∀ now sends, (run step (init sampleId) waitRun).pc = .idle →
      ¬Halted (step (run step (init sampleId) waitRun) (.timeouts now sends)).pc →
      ∀ wait ∈ (step (run step (init sampleId) waitRun) (.timeouts now sends)).pendingWaits,
        now < wait.deadline := by
  have hidle : (run step (init sampleId) waitRun).pc = .idle := by decide +kernel
  have hopen := parked_waits_open ⟨init sampleId, waitRun, .master sampleId, rfl⟩ (by rw [hidle]; exact id)
  exact ⟨by decide +kernel, by decide +kernel, hopen⟩

end RedisLite.Server
