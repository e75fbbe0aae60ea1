import RedisLite.Queues

namespace RedisLite.Server

open Function Lib.Run

variable {s t : Server} {c d : ClientId} {e : Event} {gone : ClientId → Prop}

structure Bookkept (s : Server) : Prop where
  nodup : s.replicas.Nodup
  queues : ∀ c, c ∈ s.replicas ↔ ∃ queue, Registered s c queue
  replicas : ∀ c, c ∈ s.replicas ↔ ∃ client, s.clients c = some client ∧ client.type = .replica
  waits : ∀ wait ∈ s.pendingWaits, (s.clients wait.client).isSome = true
  link : ∀ c, s.masterClient = some c ↔
    ∃ client, s.clients c = some client ∧ client.type = .masterConn

theorem isSome_acted {env : Env} {client : Client} {args : List Bytes}
    (hd : (s.clients d).isSome = true) (hacted : Acted gone env d client args s t)
    (h : (s.replQueues c).isSome = true) : (t.replQueues c).isSome = true := by
  cases hacted with
  | thinned t ht => rw [(Feeds.thins ht c).isSome, h]
  | acked _ n t ht =>
    rw [(Feeds.thins ht c).isSome]
    exact h
  | wrote _ _ _ t ht hq => rw [isSome_propagate, hq, h]
  | parked _ _ _ t ht =>
    subst ht
    rw [isSome_propagate, h]
  | joined =>
    rw [handlePsync_eq]
    by_cases hne : c = d
    · subst hne
      simp only [addReplica, update_self, Option.isSome_map, hd]
    · simp only [addReplica, update_of_ne hne, h]
  | linked _ _ _ fd leftover t ht =>
    change (t.replQueues c).isSome = true
    rw [(Feeds.thins ht c).isSome, h]

theorem isSome_step (h : (s.replQueues c).isSome = true) (e : Event) :
    ((step s e).replQueues c).isSome = true := by
  have hchurn : Churn (fun _ ↦ True) s e (step s e) := step_churn (spares_all s e)
  generalize step s e = t at hchurn ⊢
  cases hchurn with
  | accepted fd hfd =>
    rw [handleAccept, hfd]
    exact h
  | received => exact h
  | thinned e sends t ht =>
    rw [(Feeds.thins ht c).isSome]
    exact h
  | paused => exact h
  | finished env d client hpc hc hn t ht =>
    rw [(Feeds.thins ht c).isSome]
    exact h
  | command env d client args n hc t ht =>
    rw [eraseRead_queues]
    exact isSome_acted (s := loaded env client args s) (by
      change (s.clients d).isSome = true
      rw [hc.connected]
      rfl) ht h
  | swept key keys =>
    change ((s.sweepKey key).replQueues c).isSome = true
    rw [sweepKey, isSome_propagate]
    exact h
  | swapped order => rw [isSome_of_same (writerSwap_same order s), h]
  | sent result => rw [isSome_of_same (writerStep_same result s), h]

/-- Over runs in which no `send` of the main thread fails for good, the bookkeeping is consistent,
and a queue that has been taken out of `repl_queues_` is marked. -/
theorem bookkeeping_consistent {s₀ : Server} {es : List Event} (h₀ : Initial s₀)
    (hrun : Along step (fun _ e ↦ NoError e.sends) s₀ es) :
    Bookkept (run step s₀ es) ∧
      ∀ es₁ es₂ c queue, es = es₁ ++ es₂ → Registered (run step s₀ es₁) c queue →
        c ∉ (run step s₀ es).replicas →
        ∃ queue', (run step s₀ es).replQueues c = some queue' ∧ queue'.removed = true := by
  have hprompt : Along step Prompt s₀ es := Along.mono step (Q := Prompt) (fun _ _ h _ ↦ h) hrun
  obtain ⟨hcons, hlive⟩ := live_run h₀ hprompt
  refine ⟨⟨hcons.nodup, hcons.queue_iff, hcons.replica_iff, fun wait h ↦ (hlive wait h).2,
    hcons.master_iff⟩, ?_⟩
  intro es₁ es₂ c queue hsplit hreg hnot
  have hsome : ((run step s₀ es₁).replQueues c).isSome = true := by
    rw [hreg.1]
    rfl
  have hkept := run_stable step (I := fun s ↦ (s.replQueues c).isSome = true)
    (fun s e h ↦ isSome_step h e) hsome es₂
  rw [← run_append, ← hsplit] at hkept
  obtain ⟨queue', hq⟩ := Option.isSome_iff_exists.mp hkept
  refine ⟨queue', hq, ?_⟩
  by_contra hremoved
  rw [Bool.not_eq_true] at hremoved
  exact hnot ((hcons.queue_iff c).mpr ⟨queue', hq, hremoved⟩)

/-- A replica attaches and hangs up. -/
theorem bookkeeping_hangup :
    Bookkept (run step (init sampleId) (replicaRun ++ [.hangup 0])) ∧
      ∃ queue, (run step (init sampleId) (replicaRun ++ [.hangup 0])).replQueues 0 = some queue ∧
        queue.removed = true := by
  have hqueue : ((run step (init sampleId) replicaRun).replQueues 0).map (·.removed) =
      some false := by decide +kernel
  obtain ⟨queue, hq, hremoved⟩ := Option.map_eq_some_iff.mp hqueue
  have hrun : Along step (fun _ e ↦ NoError e.sends) (init sampleId) (replicaRun ++ [.hangup 0]) := by
    decide +kernel
  obtain ⟨hkept, htaken⟩ := bookkeeping_consistent (.master sampleId) hrun
  exact ⟨hkept, htaken replicaRun [.hangup 0] 0 queue rfl ⟨hq, hremoved⟩ (by decide +kernel)⟩

end RedisLite.Server
