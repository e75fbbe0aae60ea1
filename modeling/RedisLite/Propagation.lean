import RedisLite.Offsets

namespace RedisLite.Server

open Lib.Run

variable {s : Server}

def Registered (s : Server) (r : ClientId) (queue : ReplicaWriteQueue) : Prop :=
  s.replQueues r = some queue ∧ queue.removed = false

theorem propagate_registered (hs : Consistent s) {r : ClientId} {queue : ReplicaWriteQueue}
    (hq : Registered s r queue) (data : Bytes) :
    (s.propagateToReplicas data).replQueues r =
      some { queue with pending := queue.pending ++ data } := by
  have hmem := (hs.queue_iff r).mpr ⟨queue, hq⟩
  have hne : s.replicas.isEmpty = false := by
    rw [List.isEmpty_eq_false_iff]
    exact List.ne_nil_of_mem hmem
  simp [propagateToReplicas, hne, hq.1, hq.2]

def Queued (s t : Server) (args : List Bytes) : Prop :=
  ∀ r queue, Registered s r queue → ∃ queue' bytes, t.replQueues r = some queue' ∧
    queue'.pending = queue.pending ++ bytes ∧ bytes ≠ [] ∧
    Resp.parse bytes = ⟨args, bytes.length⟩

def ChangesStore (s t : Server) : Prop := ∃ k, t.store.find k ≠ s.store.find k

theorem parse_encodeArray {args : List Bytes} (h : Resp.Sized args) :
    Resp.parse (Resp.encodeArray args) = ⟨args, (Resp.encodeArray args).length⟩ := by
  have hn := Resp.next_encode h []
  rw [List.append_nil] at hn
  rw [Resp.parse_eq_next, hn]

theorem queued_trackWrite (hs : Consistent s) {args : List Bytes} (hsize : Resp.Sized args) :
    Queued s (s.trackWrite args) args := by
  intro r queue hq
  have hlen := Resp.encodeArray_length_pos args
  have htracked := hs.of_same (t := { s with
    masterReplOffset := s.masterReplOffset + (Resp.encodeArray args).length
    replInfo := { s.replInfo with
      masterReplOffset := s.masterReplOffset + (Resp.encodeArray args).length }
    backlog := s.backlog.feed (Resp.encodeArray args) s.masterReplOffset })
    ⟨rfl, fun _ ↦ rfl, rfl, fun _ ↦ rfl, rfl, rfl, .inl⟩
  refine ⟨_, Resp.encodeArray args, propagate_registered htracked hq _, rfl, ?_,
    parse_encodeArray hsize⟩
  exact List.length_pos_iff.mp hlen

theorem step_regular_write {env : Env} {c : ClientId} {client : Client} {args : List Bytes} {n : ℕ}
    (hs : Consistent s) (hc : Receives s c client args n) (ht : client.type = .regular)
    (hw : Command.isWrite args = true) : Queued s (step s (.process env)) args := by
  intro r queue hq
  rw [hc.step_eq env, eraseRead_queues, runCommand_regular env c args n ht,
    handleRegular_of_write hw]
  have hcons : Consistent (appendReply c
      (Command.execute env.clock.steady args s.store s.replInfo false).1 { s with
        sends := env.sends
        store := (Command.execute env.clock.steady args s.store s.replInfo false).2 }) := by
    refine Consistent.of_same ?_ (appendReply_same c _ _)
    exact hs.of_same ⟨rfl, fun _ ↦ rfl, rfl, fun _ ↦ rfl, rfl, rfl, .inl⟩
  exact queued_trackWrite hcons (Resp.next_sized hc.next) r queue hq

theorem step_other_queues {env : Env} {c : ClientId} {client : Client} {args : List Bytes} {n : ℕ}
    (hc : Receives s c client args n) (ht : client.type ≠ .regular)
    (hw : Command.isWrite args = true) : (step s (.process env)).replQueues = s.replQueues := by
  have hname : commandName args ≠ ascii "REPLCONF" := by
    rcases commandName_of_write hw with h | h <;> rw [h] <;> decide
  rw [hc.step_eq env, eraseRead_queues]
  unfold runCommand dispatch
  dsimp only
  split
  · unfold handleMasterRead
    dsimp only
    split
    · split <;> rfl
    · rfl
  · unfold handleReplicaRead
    split
    · next name sub offset _ =>
      have hne : (toUpper name == ascii "REPLCONF") = false := beq_eq_false_iff_ne.mpr hname
      simp only [hne, Bool.false_and, Bool.false_eq_true, if_false]
    · rfl
  · next h => exact absurd h ht

theorem changesStore_isWrite {env : Env} {c : ClientId} {client : Client} {args : List Bytes}
    {n : ℕ} (hc : Receives s c client args n) (hload : ∀ host port, ¬Demotes s c host port)
    (h : ChangesStore s (step s (.process env))) : Command.isWrite args = true := by
  obtain ⟨k, hk⟩ := h
  change (step s (.process env)).data.store.find k ≠ _ at hk
  have hd := step_dataStep s (.process env)
  generalize (step s (.process env)).data = d, written s (.process env) = cmds at hd hk
  have hexec (client' : Client) (args' : List Bytes) (c' : ClientId) (n' : ℕ) (fromMaster : Bool)
      (hc' : Receives s c' client' args' n')
      (hk : (Command.execute env.clock.steady args' s.store s.replInfo fromMaster).2.find k ≠
        s.store.find k) : Command.isWrite args = true := by
    obtain ⟨-, -, rfl, -⟩ := hc.unique hc'
    by_contra hw
    rw [Bool.not_eq_true] at hw
    exact hk (by rw [Command.execute_of_not_write _ _ _ _ hw])
  have hnot (c' : ClientId) (host : Bytes) (port : ℤ) (hd : Demotes s c' host port) : False := by
    obtain ⟨client', args', n', hc', _⟩ := hd.receives
    obtain ⟨rfl, -⟩ := hc.unique hc'
    exact hload host port hd
  cases hd with
  | same => exact absurd rfl hk
  | link env c' client' args' n' hc' => exact hexec client' args' c' n' true hc' hk
  | replica env c' client' args' n' hc' => exact hexec client' args' c' n' false hc' hk
  | write env c' client' args' n' hc' => exact hexec client' args' c' n' false hc' hk
  | promote => exact absurd rfl hk
  | linked env c' host port hd => exact (hnot c' host port hd).elim
  | reverted env c' host port hd => exact (hnot c' host port hd).elim
  | terminated env c' host port hd => exact (hnot c' host port hd).elim

theorem queued_iff {env : Env} {c : ClientId} {client : Client} {args : List Bytes} {n : ℕ}
    (hs : Consistent s) (hc : Receives s c client args n)
    (hload : ∀ host port, ¬Demotes s c host port) :
    (ChangesStore s (step s (.process env)) → Queued s (step s (.process env)) args) ↔
      (client.type = .regular ∨ (∀ r queue, ¬Registered s r queue) ∨
        ¬ChangesStore s (step s (.process env))) := by
  constructor
  · intro h
    by_cases ht : client.type = .regular
    · exact .inl ht
    by_cases hch : ChangesStore s (step s (.process env))
    · refine .inr (.inl fun r queue hq ↦ ?_)
      have hw := changesStore_isWrite hc hload hch
      obtain ⟨queue', bytes, hq', hp, hne, -⟩ := h hch r queue hq
      rw [step_other_queues hc ht hw, hq.1] at hq'
      cases hq'
      exact hne (List.self_eq_append_right.mp hp)
    · exact .inr (.inr hch)
  · rintro (ht | hnone | hsame) hch
    · exact step_regular_write hs hc ht (changesStore_isWrite hc hload hch)
    · exact fun r queue hq ↦ absurd hq (hnone r queue)
    · exact absurd hch hsame

/-- The keys a step takes out of the map, in the order of the sweep. -/
def swept (s : Server) (e : Event) : List Bytes :=
  match e, s.pc with
  | .sweep now, .idle => if s.replInfo.role = .master then (s.store.evictExpired now).1 else []
  | _, _ => []

def deleted (s : Server) (e : Event) : List Bytes :=
  match e, s.pc with
  | .sweepNext, .sweeping => s.unswept.take 1
  | _, _ => []

/-- Keys are waiting for their `DEL` only while the sweep is running. -/
def SweepDone (s : Server) : Prop := s.pc ≠ .sweeping → s.unswept = []

theorem step_unswept {e : Event} (h : ∀ now, e ≠ .sweep now) (h' : e ≠ .sweepNext) (s : Server) :
    (step s e).unswept = s.unswept := by
  change (step s e).data.unswept = _
  have hd := step_dataStep s e
  generalize (step s e).data = d, written s e = cmds at hd ⊢
  have hfrom {env : Env} {c : ClientId} {host : Bytes} {port : ℤ} {t : Server}
      {failure : Option Handshake.Failure} (ht : s.handshakeFrom env c host port = (t, failure)) :
      t.data.unswept = s.unswept := by
    obtain ⟨id, n, store, hdata⟩ := handshakeFrom_data ht
    rw [hdata]
    rfl
  cases hd with
  | sweep now => exact absurd rfl (h now)
  | sweepNext => exact absurd rfl h'
  | linked env c host port hd t ht => exact hfrom ht
  | reverted env c host port hd t what ht => exact hfrom ht
  | terminated env c host port hd t ht => exact hfrom ht
  | same => rfl
  | rehash => rfl
  | link => rfl
  | replica => rfl
  | write => rfl
  | promote => rfl

theorem pc_propagate (data : Bytes) (s : Server) : (s.propagateToReplicas data).pc = s.pc := by
  unfold propagateToReplicas
  split <;> rfl

theorem step_sweeping_pc {e : Event} (hpc : s.pc = .sweeping) (h : e ≠ .sweepNext) :
    (step s e).pc = .sweeping := by
  cases e with
  | sweepNext => exact absurd rfl h
  | writerStep result =>
    simp only [step]
    rw [(writerStep_frame result s).2.2]
    exact hpc
  | writerSwap order =>
    simp only [step]
    split <;> exact hpc
  | rehash items => exact hpc
  | accept => simp only [step, hpc]
  | recv => simp only [step, hpc]
  | hangup => simp only [step, hpc]
  | writable => simp only [step, hpc]
  | process => simp only [step, hpc]
  | timeouts => simp only [step, hpc]
  | sweep => simp only [step, hpc]

theorem step_sweep (now : TimePoint) (hpc : s.pc = .idle) :
    step s (.sweep now) = s.startSweep now := by
  simp only [step, hpc]

theorem step_sweepNext (hpc : s.pc = .sweeping) : step s .sweepNext = s.continueSweep := by
  simp only [step, hpc]

/-- One step of the sweep's bookkeeping: what is waiting and what is taken out is what
is propagated and what is waiting then. -/
theorem swept_step (hs : SweepDone s) (e : Event) :
    s.unswept ++ swept s e = deleted s e ++ (step s e).unswept ∧ SweepDone (step s e) := by
  by_cases hsweep : ∃ now, e = .sweep now
  · obtain ⟨now, rfl⟩ := hsweep
    cases hpc : s.pc with
    | idle =>
      have hnil : s.unswept = [] := hs (by rw [hpc]; decide)
      rw [step_sweep now hpc]
      simp only [swept, deleted, hpc, hnil, List.nil_append, startSweep]
      split
      · exact ⟨rfl, fun h ↦ absurd rfl h⟩
      · exact ⟨hnil.symm, hs⟩
    | reading c => simpa [swept, deleted, step, hpc] using hs
    | sweeping => simpa [swept, deleted, step, hpc] using hs
    | useAfterFree => simpa [swept, deleted, step, hpc] using hs
    | terminated => simpa [swept, deleted, step, hpc] using hs
  by_cases hnext : e = .sweepNext
  · subst hnext
    cases hpc : s.pc with
    | sweeping =>
      rw [step_sweepNext hpc]
      unfold continueSweep
      split
      · next hkeys => simp [swept, deleted, hpc, hkeys, SweepDone]
      · next key keys hkeys =>
        refine ⟨by simp [swept, deleted, hpc, hkeys], fun h ↦ absurd ?_ h⟩
        change (s.sweepKey key).pc = .sweeping
        rw [sweepKey, pc_propagate]
        exact hpc
    | idle => simpa [swept, deleted, step, hpc] using hs
    | reading c => simpa [swept, deleted, step, hpc] using hs
    | useAfterFree => simpa [swept, deleted, step, hpc] using hs
    | terminated => simpa [swept, deleted, step, hpc] using hs
  · have hu := step_unswept (fun now h ↦ hsweep ⟨now, h⟩) hnext s
    have h₁ : swept s e = [] := by
      cases e <;> first | rfl | exact absurd ⟨_, rfl⟩ hsweep
    have h₂ : deleted s e = [] := by
      cases e <;> first | rfl | exact absurd rfl hnext
    rw [h₁, h₂, hu, List.append_nil, List.nil_append]
    refine ⟨rfl, fun hpc ↦ ?_⟩
    rw [hu]
    by_cases hsw : s.pc = .sweeping
    · exact absurd (step_sweeping_pc hsw hnext) hpc
    · exact hs hsw

theorem swept_run (hs : SweepDone s) (es : List Event) :
    s.unswept ++ trace step swept s es = trace step deleted s es ++ (run step s es).unswept := by
  induction es generalizing s with
  | nil => simp
  | cons e es ih =>
    obtain ⟨h, hdone⟩ := swept_step hs e
    rw [trace_cons, trace_cons, run_cons, ← List.append_assoc, h, List.append_assoc, ih hdone,
      List.append_assoc]

theorem unswept_of_initial (hs : Initial s) : s.unswept = [] := by
  cases hs with
  | master => rfl
  | worker replid host port clk peer s h =>
    obtain ⟨id, n, store, hd⟩ := data_connectToMaster h
    exact congrArg Data.unswept hd

theorem swept_mem {now : TimePoint} {k : Bytes} (h : k ∈ swept s (.sweep now)) :
    ∃ entry, s.store.find k = some entry ∧ entry.isExpired now = true := by
  unfold swept at h
  split at h
  · split at h
    · next heq _ _ =>
      cases heq
      exact Store.evictExpired_mem h
    · cases h
  · cases h

theorem find_sweep (now : TimePoint) (k : Bytes) :
    (step s (.sweep now)).store.find k =
      if k ∈ swept s (.sweep now) then none else s.store.find k := by
  cases hpc : s.pc with
  | idle =>
    rw [step_sweep now hpc]
    simp only [swept, hpc, startSweep]
    split
    · exact Store.find_evictExpired now s.store k
    · simp
  | reading c => simp [swept, step, hpc]
  | sweeping => simp [swept, step, hpc]
  | useAfterFree => simp [swept, step, hpc]
  | terminated => simp [swept, step, hpc]

theorem deleted_queued (hs : Consistent s) {key : Bytes} (h : deleted s .sweepNext = [key])
    (r : ClientId) (queue : ReplicaWriteQueue) (hq : Registered s r queue) :
    (step s .sweepNext).replQueues r = some { queue with
      pending := queue.pending ++ Resp.encodeArray [ascii "DEL", key] } := by
  cases hpc : s.pc with
  | sweeping =>
    simp only [deleted, hpc] at h
    rw [step_sweepNext hpc]
    unfold continueSweep
    split
    · next hnil => rw [hnil] at h; cases h
    · next hkeys =>
      rw [hkeys] at h
      cases h
      have hsame : Consistent { s with
          masterReplOffset := s.masterReplOffset + (Resp.encodeArray [ascii "DEL", key]).length
          backlog := s.backlog.feed (Resp.encodeArray [ascii "DEL", key]) s.masterReplOffset } :=
        hs.of_same ⟨rfl, fun _ ↦ rfl, rfl, fun _ ↦ rfl, rfl, rfl, .inl⟩
      exact propagate_registered hsame hq _
  | idle => simp [deleted, hpc] at h
  | reading c => simp [deleted, hpc] at h
  | useAfterFree => simp [deleted, hpc] at h
  | terminated => simp [deleted, hpc] at h

/-- In every reachable state a command that changes the map is queued for every
replica exactly when it came from a regular client, unless there is no queue to feed
or the map stays as it is. A sweep removes the keys it lists and queues a `DEL` for
each of them, in their order. -/
theorem changes_queued_iff (s₀ : Server) (es : List Event) (h₀ : Initial s₀) :
    (∀ env c client args n, Receives (run step s₀ es) c client args n →
      (∀ host port, ¬Demotes (run step s₀ es) c host port) →
      ((ChangesStore (run step s₀ es) (step (run step s₀ es) (.process env)) →
          Queued (run step s₀ es) (step (run step s₀ es) (.process env)) args) ↔
        (client.type = .regular ∨ (∀ r queue, ¬Registered (run step s₀ es) r queue) ∨
          ¬ChangesStore (run step s₀ es) (step (run step s₀ es) (.process env))))) ∧
    (∀ now, (∀ k ∈ swept (run step s₀ es) (.sweep now), ∃ entry,
        (run step s₀ es).store.find k = some entry ∧ entry.isExpired now = true) ∧
      ∀ k, (step (run step s₀ es) (.sweep now)).store.find k =
        if k ∈ swept (run step s₀ es) (.sweep now) then none else (run step s₀ es).store.find k) ∧
    (∀ key, deleted (run step s₀ es) .sweepNext = [key] →
      ∀ r queue, Registered (run step s₀ es) r queue →
        (step (run step s₀ es) .sweepNext).replQueues r = some { queue with
          pending := queue.pending ++ Resp.encodeArray [ascii "DEL", key] }) ∧
    trace step swept s₀ es = trace step deleted s₀ es ++ (run step s₀ es).unswept := by
  have hcons : Consistent (run step s₀ es) := Consistent.of_reachable ⟨s₀, es, h₀, rfl⟩
  refine ⟨fun env c client args n hc hload ↦ queued_iff hcons hc hload, ?_, ?_, ?_⟩
  · exact fun now ↦ ⟨fun k ↦ swept_mem, find_sweep now⟩
  · exact fun key ↦ deleted_queued hcons
  · have h := swept_run (s := s₀) (fun _ ↦ unswept_of_initial h₀) es
    rwa [unswept_of_initial h₀, List.nil_append] at h

def replicaRun : List Event :=
  [.accept 5, .recv 0 (Resp.encodeArray [ascii "PSYNC", ascii "?", ascii "-1"]),
    .process (.quiet 0), .process (.quiet 0)]

/-- The write of a regular client next to an attached replica. -/
theorem changes_queued_set :
    ChangesStore (run step (init sampleId) (replicaRun ++
        [.accept 6, .recv 1 (Resp.encodeArray [ascii "SET", ascii "k", ascii "v"])]))
      (step (run step (init sampleId) (replicaRun ++
        [.accept 6, .recv 1 (Resp.encodeArray [ascii "SET", ascii "k", ascii "v"])]))
        (.process (.quiet 0))) ∧
    Queued (run step (init sampleId) (replicaRun ++
        [.accept 6, .recv 1 (Resp.encodeArray [ascii "SET", ascii "k", ascii "v"])]))
      (step (run step (init sampleId) (replicaRun ++
        [.accept 6, .recv 1 (Resp.encodeArray [ascii "SET", ascii "k", ascii "v"])]))
        (.process (.quiet 0))) [ascii "SET", ascii "k", ascii "v"] := by
  have hc : Receives (run step (init sampleId) (replicaRun ++
      [.accept 6, .recv 1 (Resp.encodeArray [ascii "SET", ascii "k", ascii "v"])])) 1
      { fd := 6, type := .regular, readBuf := Resp.encodeArray [ascii "SET", ascii "k", ascii "v"] }
      [ascii "SET", ascii "k", ascii "v"] 27 := ⟨rfl, rfl, rfl, by decide⟩
  have hch : ChangesStore (run step (init sampleId) (replicaRun ++
        [.accept 6, .recv 1 (Resp.encodeArray [ascii "SET", ascii "k", ascii "v"])]))
      (step (run step (init sampleId) (replicaRun ++
        [.accept 6, .recv 1 (Resp.encodeArray [ascii "SET", ascii "k", ascii "v"])]))
        (.process (.quiet 0))) := ⟨ascii "k", by decide +kernel⟩
  refine ⟨hch, ((changes_queued_iff (init sampleId) _ (.master sampleId)).1 (.quiet 0) 1 _ _ 27 hc
    (fun host port hd ↦ ?_)).mpr (.inl rfl) hch⟩
  cases hd.commandName_eq hc

/-- The same write on the replica's own connection changes the store of the master
and leaves its queue alone. -/
theorem replica_write_escapes :
    ∃ s client queue, Reachable s ∧
      Receives s 0 client [ascii "SET", ascii "k", ascii "v"] 27 ∧ client.type = .replica ∧
      Registered s 0 queue ∧ s.store.find (ascii "k") = none ∧
      (step s (.process (.quiet 0))).store.find (ascii "k") = some ⟨ascii "v", none⟩ ∧
      (step s (.process (.quiet 0))).replQueues 0 = some queue := by
  refine ⟨run step (init sampleId) (replicaRun ++
    [.recv 0 (Resp.encodeArray [ascii "SET", ascii "k", ascii "v"])]), _, _,
    ⟨_, _, .master sampleId, rfl⟩, ⟨rfl, rfl, rfl, by decide⟩, rfl, ⟨rfl, rfl⟩, rfl, ?_, rfl⟩
  decide +kernel

end RedisLite.Server
