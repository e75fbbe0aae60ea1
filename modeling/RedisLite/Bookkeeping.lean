import RedisLite.Frame

namespace RedisLite.Server

open Function Lib.Run

variable {s t u : Server}

/-- The agreement between `replicas_`, `repl_queues_`, `master_client_`, the table of
descriptors and the types of the connected clients. -/
structure Consistent (s : Server) : Prop where
  replica_iff : ∀ c, c ∈ s.replicas ↔
    ∃ client, s.clients c = some client ∧ client.type = .replica
  queue_iff : ∀ c, c ∈ s.replicas ↔ ∃ queue, s.replQueues c = some queue ∧ queue.removed = false
  nodup : s.replicas.Nodup
  master_iff : ∀ c, s.masterClient = some c ↔
    ∃ client, s.clients c = some client ∧ client.type = .masterConn
  fd : ∀ c client, s.clients c = some client → s.fds client.fd = some c
  queue_fd : ∀ c queue client, s.replQueues c = some queue → s.clients c = some client →
    queue.removed = false → queue.fd = client.fd
  fresh : ∀ c, s.nextId ≤ c → s.clients c = none
  role : s.replInfo.role = .master → s.masterClient = none

structure SameClients (s t : Server) : Prop where
  replicas : t.replicas = s.replicas
  queues : ∀ c, (t.replQueues c).map (fun q ↦ (q.fd, q.removed)) =
    (s.replQueues c).map (fun q ↦ (q.fd, q.removed))
  masterClient : t.masterClient = s.masterClient
  clients : ∀ c, (t.clients c).map (fun client ↦ (client.fd, client.type)) =
    (s.clients c).map (fun client ↦ (client.fd, client.type))
  fds : t.fds = s.fds
  nextId : t.nextId = s.nextId
  role : t.replInfo.role = .master → s.replInfo.role = .master ∨ s.masterClient = none

theorem SameClients.refl (s : Server) : SameClients s s :=
  ⟨rfl, fun _ ↦ rfl, rfl, fun _ ↦ rfl, rfl, rfl, .inl⟩

theorem SameClients.trans (h : SameClients s t) (h' : SameClients t u) : SameClients s u where
  replicas := h'.replicas.trans h.replicas
  queues := fun c ↦ (h'.queues c).trans (h.queues c)
  masterClient := h'.masterClient.trans h.masterClient
  clients := fun c ↦ (h'.clients c).trans (h.clients c)
  fds := h'.fds.trans h.fds
  nextId := h'.nextId.trans h.nextId
  role := fun hr ↦ by
    rcases h'.role hr with ht | ht
    · exact h.role ht
    · exact .inr (h.masterClient ▸ ht)

theorem SameClients.exists_client (h : SameClients s t) {c : ClientId} {client : Client}
    (hc : t.clients c = some client) :
    ∃ client', s.clients c = some client' ∧ client'.fd = client.fd ∧ client'.type = client.type := by
  have hm := h.clients c
  rw [hc, Option.map_some] at hm
  obtain ⟨client', h', he⟩ := Option.map_eq_some_iff.mp hm.symm
  exact ⟨client', h', congrArg Prod.fst he, congrArg Prod.snd he⟩

theorem SameClients.exists_queue (h : SameClients s t) {c : ClientId} {queue : ReplicaWriteQueue}
    (hc : t.replQueues c = some queue) :
    ∃ queue', s.replQueues c = some queue' ∧ queue'.fd = queue.fd ∧
      queue'.removed = queue.removed := by
  have hm := h.queues c
  rw [hc, Option.map_some] at hm
  obtain ⟨queue', h', he⟩ := Option.map_eq_some_iff.mp hm.symm
  exact ⟨queue', h', congrArg Prod.fst he, congrArg Prod.snd he⟩

theorem exists_some_iff_map {α β : Type} (o : Option α) (g : α → β) (p : β → Prop) :
    (∃ a, o = some a ∧ p (g a)) ↔ ∃ b, o.map g = some b ∧ p b := by
  cases o <;> simp

theorem SameClients.typed_iff (h : SameClients s t) (c : ClientId) (type : ClientType) :
    (∃ client, t.clients c = some client ∧ client.type = type) ↔
      ∃ client, s.clients c = some client ∧ client.type = type := by
  have hmap (o : Option Client) := exists_some_iff_map o
    (fun client ↦ (client.fd, client.type)) (fun p ↦ p.2 = type)
  rw [hmap, hmap, h.clients c]

theorem SameClients.registered_iff (h : SameClients s t) (c : ClientId) :
    (∃ queue, t.replQueues c = some queue ∧ queue.removed = false) ↔
      ∃ queue, s.replQueues c = some queue ∧ queue.removed = false := by
  have hmap (o : Option ReplicaWriteQueue) := exists_some_iff_map o
    (fun queue ↦ (queue.fd, queue.removed)) (fun p ↦ p.2 = false)
  rw [hmap, hmap, h.queues c]

theorem Consistent.of_same (hs : Consistent s) (h : SameClients s t) : Consistent t where
  replica_iff := fun c ↦ by rw [h.replicas, h.typed_iff]; exact hs.replica_iff c
  queue_iff := fun c ↦ by rw [h.replicas, h.registered_iff]; exact hs.queue_iff c
  nodup := h.replicas ▸ hs.nodup
  master_iff := fun c ↦ by rw [h.masterClient, h.typed_iff]; exact hs.master_iff c
  fd := fun c client hc ↦ by
    obtain ⟨client', hc', hfd, _⟩ := h.exists_client hc
    rw [h.fds, ← hfd]
    exact hs.fd c client' hc'
  queue_fd := fun c queue client hq hc hr ↦ by
    obtain ⟨queue', hq', hqfd, hr'⟩ := h.exists_queue hq
    obtain ⟨client', hc', hfd, _⟩ := h.exists_client hc
    rw [← hqfd, ← hfd]
    exact hs.queue_fd c queue' client' hq' hc' (hr'.trans hr)
  fresh := fun c hle ↦ by
    have hm := h.clients c
    rw [hs.fresh c (h.nextId ▸ hle), Option.map_none] at hm
    exact Option.map_eq_none_iff.mp hm
  role := fun hr ↦ by
    rw [h.masterClient]
    rcases h.role hr with hr | hm
    · exact hs.role hr
    · exact hm

theorem mapClient_same (c : ClientId) (f : Client → Client)
    (hf : ∀ client, ((f client).fd, (f client).type) = (client.fd, client.type)) (s : Server) :
    SameClients s (s.mapClient c f) where
  replicas := rfl
  queues := fun _ ↦ rfl
  masterClient := rfl
  clients := fun d ↦ by
    by_cases h : d = c
    · subst h
      simp only [mapClient, update_self, Option.map_map]
      congr 1
      funext client
      exact hf client
    · simp only [mapClient, update_of_ne h]
  fds := rfl
  nextId := rfl
  role := .inl

theorem appendReply_same (c : ClientId) (response : Bytes) (s : Server) :
    SameClients s (s.appendReply c response) :=
  mapClient_same c (fun client ↦ { client with writeBuf := client.writeBuf ++ response })
    (fun _ ↦ rfl) s

theorem deliver_same (c : ClientId) (sent kept : Bytes) (sends : List SendResult) (s : Server) :
    SameClients s (s.deliver c sent kept sends) := by
  refine SameClients.trans
    (mapClient_same c (fun client ↦ { client with writeBuf := kept }) (fun _ ↦ rfl) s) ?_
  exact ⟨rfl, fun _ ↦ rfl, rfl, fun _ ↦ rfl, rfl, rfl, .inl⟩

theorem mapQueues_same (f : ClientId → ReplicaWriteQueue → ReplicaWriteQueue)
    (hf : ∀ c queue, ((f c queue).fd, (f c queue).removed) = (queue.fd, queue.removed))
    (s : Server) : SameClients s { s with replQueues := fun c ↦ (s.replQueues c).map (f c) } where
  replicas := rfl
  queues := fun c ↦ by
    simp only [Option.map_map]
    congr 1
    funext queue
    exact hf c queue
  masterClient := rfl
  clients := fun _ ↦ rfl
  fds := rfl
  nextId := rfl
  role := .inl

theorem propagate_same (data : Bytes) (s : Server) :
    SameClients s (s.propagateToReplicas data) := by
  unfold propagateToReplicas
  split
  · exact SameClients.refl s
  · refine mapQueues_same (fun _ queue ↦
      if queue.removed then queue else { queue with pending := queue.pending ++ data }) ?_ s
    intro _ queue
    split <;> rfl

theorem setDraining_same (c : ClientId) (draining : Bytes) (s : Server) :
    SameClients s (s.setDraining c draining) where
  replicas := rfl
  queues := fun d ↦ by
    by_cases h : d = c
    · subst h
      simp only [setDraining, update_self, Option.map_map]
      rfl
    · simp only [setDraining, update_of_ne h]
  masterClient := rfl
  clients := fun _ ↦ rfl
  fds := rfl
  nextId := rfl
  role := .inl

theorem eraseRead_same (c : ClientId) (n : ℕ) (s : Server) : SameClients s (s.eraseRead c n) := by
  unfold eraseRead
  split
  · exact SameClients.refl s
  · split
    · exact ⟨rfl, fun _ ↦ rfl, rfl, fun _ ↦ rfl, rfl, rfl, .inl⟩
    · exact mapClient_same c (fun client ↦ { client with readBuf := client.readBuf.drop n })
        (fun _ ↦ rfl) s

theorem trackWrite_same (args : List Bytes) (s : Server) : SameClients s (s.trackWrite args) := by
  refine SameClients.trans ?_ (propagate_same _ _)
  exact ⟨rfl, fun _ ↦ rfl, rfl, fun _ ↦ rfl, rfl, rfl, .inl⟩

theorem continueSweep_same (s : Server) : SameClients s s.continueSweep := by
  unfold continueSweep
  split
  · exact ⟨rfl, fun _ ↦ rfl, rfl, fun _ ↦ rfl, rfl, rfl, .inl⟩
  · next key keys _ =>
    have h : SameClients s (s.sweepKey key) := by
      refine SameClients.trans ?_ (propagate_same _ _)
      exact ⟨rfl, fun _ ↦ rfl, rfl, fun _ ↦ rfl, rfl, rfl, .inl⟩
    exact h.trans ⟨rfl, fun _ ↦ rfl, rfl, fun _ ↦ rfl, rfl, rfl, .inl⟩

theorem handleMasterRead_same (c : ClientId) (args : List Bytes) (response : Bytes) (n : ℕ)
    (s : Server) : SameClients s (s.handleMasterRead c args response n) := by
  unfold handleMasterRead
  dsimp only
  split
  · split
    · refine SameClients.trans ?_ (appendReply_same c response _)
      exact ⟨rfl, fun _ ↦ rfl, rfl, fun _ ↦ rfl, rfl, rfl, .inl⟩
    · exact ⟨rfl, fun _ ↦ rfl, rfl, fun _ ↦ rfl, rfl, rfl, .inl⟩
  · exact ⟨rfl, fun _ ↦ rfl, rfl, fun _ ↦ rfl, rfl, rfl, .inl⟩

theorem handleRecv_same (c : ClientId) (data : Bytes) (s : Server) :
    SameClients s (s.handleRecv c data) := by
  unfold handleRecv
  split
  · exact SameClients.refl s
  · refine SameClients.trans (mapClient_same c
      (fun client ↦ { client with readBuf := client.readBuf ++ data }) (fun _ ↦ rfl) s) ?_
    exact ⟨rfl, fun _ ↦ rfl, rfl, fun _ ↦ rfl, rfl, rfl, .inl⟩

theorem writerSwap_same (order : List ClientId) (s : Server) :
    SameClients s (s.writerSwap order) := by
  refine SameClients.trans (mapQueues_same (fun _ ↦ swapQueue) ?_ s) ?_
  · intro _ queue
    unfold swapQueue
    split <;> rfl
  · exact ⟨rfl, fun _ ↦ rfl, rfl, fun _ ↦ rfl, rfl, rfl, .inl⟩

theorem writerStep_same (result : SendResult) (s : Server) :
    SameClients s (s.writerStep result) := by
  have hnext (t : Server) : SameClients t t.nextQueue :=
    ⟨rfl, fun _ ↦ rfl, rfl, fun _ ↦ rfl, rfl, rfl, .inl⟩
  unfold writerStep
  split
  · exact SameClients.refl s
  · next c _ _ =>
    split
    · exact hnext s
    · split
      · split
        · exact hnext s
        · exact ⟨rfl, fun _ ↦ rfl, rfl, fun _ ↦ rfl, rfl, rfl, .inl⟩
      · split
        · exact hnext s
        · split
          · next queue _ _ _ _ _ _ n _ =>
            refine SameClients.trans (setDraining_same c (queue.draining.drop (n + 1)) s) ?_
            exact ⟨rfl, fun _ ↦ rfl, rfl, fun _ ↦ rfl, rfl, rfl, .inl⟩
          · exact hnext s
          · exact (setDraining_same _ _ s).trans (hnext _)

namespace Consistent

theorem lt_nextId (hs : Consistent s) {c : ClientId} {client : Client}
    (hc : s.clients c = some client) : c < s.nextId := by
  by_contra hle
  rw [hs.fresh c (not_lt.mp hle)] at hc
  cases hc

theorem init (replid : Bytes) : Consistent (init replid) := by
  refine ⟨?_, ?_, List.nodup_nil, ?_, ?_, ?_, fun _ _ ↦ rfl, fun _ ↦ rfl⟩ <;> simp [Server.init]

theorem removeClient (hs : Consistent s) (c : ClientId) : Consistent (s.removeClient c) := by
  unfold Server.removeClient
  split
  · exact hs
  · next client hc =>
    have hgone (d : ClientId) (h : d ≠ c) : update s.clients c none d = s.clients d := update_of_ne h ..
    refine ⟨?_, ?_, ?_, ?_, ?_, ?_, ?_, ?_⟩
    · intro d
      by_cases h : d = c
      · subst h; simp
      · simpa [h] using hs.replica_iff d
    · intro d
      by_cases h : d = c
      · subst h; simp
      · simpa [h] using hs.queue_iff d
    · exact hs.nodup.filter _
    · intro d
      by_cases h : d = c
      · subst h
        simp only [update_self, reduceCtorEq, false_and, exists_false, iff_false]
        split <;> simp_all
      · have := hs.master_iff d
        simp only [update_of_ne h]
        rw [← this]
        split <;> simp_all [eq_comm]
    · intro d other hd
      by_cases h : d = c
      · subst h; simp at hd
      · simp only [update_of_ne h] at hd
        have hfd := hs.fd d other hd
        have hne : other.fd ≠ client.fd := by
          intro he
          rw [he, hs.fd c client hc] at hfd
          exact h (Option.some.inj hfd).symm
        simpa only [update_of_ne hne] using hfd
    · intro d queue other hq hd hr
      by_cases h : d = c
      · subst h; simp at hd
      · simp only [update_of_ne h] at hq hd
        exact hs.queue_fd d queue other hq hd hr
    · intro d hd
      by_cases h : d = c
      · subst h; simp
      · simpa only [update_of_ne h] using hs.fresh d hd
    · intro hr
      simp only [hs.role hr, ite_self]

theorem trySend (hs : Consistent s) (c : ClientId) : Consistent (s.trySend c) := by
  unfold Server.trySend
  split
  · exact hs.of_same ⟨rfl, fun _ ↦ rfl, rfl, fun _ ↦ rfl, rfl, rfl, .inl⟩
  · have h := fun sent kept sends ↦ hs.of_same (deliver_same c sent kept sends s)
    dsimp only
    split
    · exact (h _ _ _).removeClient c
    · exact h _ _ _

theorem reply (hs : Consistent s) (c : ClientId) (response : Bytes) :
    Consistent (s.reply c response) :=
  (hs.of_same (appendReply_same c response s)).trySend c

theorem replyWait (hs : Consistent s) (c : ClientId) (count : ℕ) (target : ℤ) :
    Consistent (s.replyWait c count target) := by
  refine Consistent.reply ?_ c _
  exact hs.of_same ⟨rfl, fun _ ↦ rfl, rfl, fun _ ↦ rfl, rfl, rfl, .inl⟩

theorem settleWaits (hs : Consistent s) (due : WaitState → ℕ → Bool) (kept waits : List WaitState) :
    Consistent (settleWaits due kept waits s) := by
  induction waits generalizing kept s with
  | nil => exact hs.of_same ⟨rfl, fun _ ↦ rfl, rfl, fun _ ↦ rfl, rfl, rfl, .inl⟩
  | cons wait waits ih =>
    unfold Server.settleWaits
    dsimp only
    split
    · have h := hs.replyWait wait.client (s.countCaughtUpReplicas wait.targetOffset)
        wait.targetOffset
      split
      · exact h.of_same ⟨rfl, fun _ ↦ rfl, rfl, fun _ ↦ rfl, rfl, rfl, .inl⟩
      · exact ih h kept
    · exact ih hs _

theorem addReplica (hs : Consistent s) {c : ClientId} {client : Client} (hc : s.clients c = some client)
    (ht : client.type = .regular) (data : Bytes) : Consistent (s.addReplica c data) := by
  have hnot : c ∉ s.replicas := by
    rw [hs.replica_iff]
    rintro ⟨client', hc', ht'⟩
    rw [hc] at hc'
    cases hc'
    rw [ht] at ht'
    cases ht'
  have hmaster : s.masterClient ≠ some c := by
    rw [Ne, hs.master_iff]
    rintro ⟨client', hc', ht'⟩
    rw [hc] at hc'
    cases hc'
    rw [ht] at ht'
    cases ht'
  unfold Server.addReplica mapClient
  simp only [hc, Option.map_some]
  refine ⟨?_, ?_, ?_, ?_, ?_, ?_, ?_, hs.role⟩
  · intro d
    by_cases h : d = c
    · subst h; simp
    · simpa [h] using hs.replica_iff d
  · intro d
    by_cases h : d = c
    · subst h; simp
    · simpa [h] using hs.queue_iff d
  · exact List.nodup_append.mpr ⟨hs.nodup, List.nodup_singleton c, by
      rintro a ha b hb rfl
      exact hnot (List.mem_singleton.mp hb ▸ ha)⟩
  · intro d
    by_cases h : d = c
    · subst h; simp [hmaster]
    · simpa [h] using hs.master_iff d
  · intro d other hd
    by_cases h : d = c
    · subst h
      simp only [update_self, Option.some.injEq] at hd
      subst hd
      exact hs.fd d client hc
    · simp only [update_of_ne h] at hd
      exact hs.fd d other hd
  · intro d queue other hq hd hr
    by_cases h : d = c
    · subst h
      simp only [update_self, Option.some.injEq] at hq hd
      subst hq hd
      rfl
    · simp only [update_of_ne h] at hq hd
      exact hs.queue_fd d queue other hq hd hr
  · intro d hd
    have hne : d ≠ c := by
      rintro rfl
      rw [hs.fresh d hd] at hc
      cases hc
    simpa only [update_of_ne hne] using hs.fresh d hd

theorem newClient (hs : Consistent s) (client : Client) (hfd : s.fds client.fd = none)
    (ht : client.type ≠ .replica) (master : Option ClientId)
    (hm : ∀ c, master = some c ↔
      if c = s.nextId then client.type = .masterConn else s.masterClient = some c)
    (hr : s.replInfo.role = .master → master = none) :
    Consistent { s with
      masterClient := master
      clients := update s.clients s.nextId (some client)
      fds := update s.fds client.fd (some s.nextId)
      nextId := s.nextId + 1 } := by
  have hnew := hs.fresh s.nextId le_rfl
  refine ⟨?_, hs.queue_iff, hs.nodup, ?_, ?_, ?_, ?_, hr⟩
  · intro c
    by_cases h : c = s.nextId
    · subst h
      simpa [hnew, ht] using hs.replica_iff s.nextId
    · simpa [h] using hs.replica_iff c
  · intro c
    rw [hm]
    by_cases h : c = s.nextId
    · subst h; simp
    · simpa [h] using hs.master_iff c
  · intro c other hc
    by_cases h : c = s.nextId
    · subst h
      simp only [update_self, Option.some.injEq] at hc
      subst hc
      exact update_self ..
    · simp only [update_of_ne h] at hc
      have hold := hs.fd c other hc
      have hne : other.fd ≠ client.fd := by
        intro he
        rw [he, hfd] at hold
        cases hold
      simpa only [update_of_ne hne] using hold
  · intro c queue other hq hc hr
    by_cases h : c = s.nextId
    · subst h
      have hmem := (hs.queue_iff s.nextId).mpr ⟨queue, hq, hr⟩
      rw [hs.replica_iff, hnew] at hmem
      obtain ⟨_, hcontra, _⟩ := hmem
      cases hcontra
    · simp only [update_of_ne h] at hc
      exact hs.queue_fd c queue other hq hc hr
  · intro c hc
    have hlt : s.nextId < c := Nat.lt_of_succ_le hc
    simpa only [update_of_ne hlt.ne'] using hs.fresh c hlt.le

theorem removeMaster (hs : Consistent s) : Consistent s.removeMaster := by
  unfold Server.removeMaster
  split
  · exact hs
  · next m hm =>
    obtain ⟨client, hc, _⟩ := (hs.master_iff m).mp hm
    refine (hs.removeClient m).of_same ⟨rfl, fun _ ↦ rfl, ?_, fun _ ↦ rfl, rfl, rfl, .inl⟩
    simp [Server.removeClient, hc, hm]

theorem disconnect (hs : Consistent s) (cs : List ClientId) :
    Consistent (cs.foldl (fun s c ↦ s.removeClient c) s) := by
  induction cs generalizing s with
  | nil => exact hs
  | cons c cs ih => exact ih (hs.removeClient c)

theorem leaveMasterRole (hs : Consistent s) : Consistent s.leaveMasterRole := by
  unfold Server.leaveMasterRole
  split
  · have h := hs.settleWaits (fun _ _ ↦ true) [] s.pendingWaits
    exact (h.disconnect _).of_same ⟨rfl, fun _ ↦ rfl, rfl, fun _ ↦ rfl, rfl, rfl, .inl⟩
  · exact hs

theorem handleAccept (hs : Consistent s) (fd : ℕ) : Consistent (s.handleAccept fd) := by
  unfold Server.handleAccept
  split
  · exact hs
  · next hfd =>
    rw [Bool.not_eq_true, Option.isSome_eq_false_iff, Option.isNone_iff_eq_none] at hfd
    refine hs.newClient { fd := fd, type := .regular } hfd (by simp) s.masterClient ?_ hs.role
    intro c
    by_cases h : c = s.nextId
    · simpa [h, hs.fresh s.nextId le_rfl] using hs.master_iff s.nextId
    · simp [h]

theorem connectToMaster (hs : Consistent s) (hm : s.masterClient = none)
    (hr : s.replInfo.role = .worker) (clk : Clock) (peer : Handshake.Peer) (host : Bytes)
    (port : ℤ) : Consistent (s.connectToMaster clk peer host port).1 := by
  have h := connectToMaster_connected clk peer host port s
  generalize s.connectToMaster clk peer host port = out at h ⊢
  have hsame (id : Bytes) (n : ℤ) (store : Store) : Consistent { s with
      replInfo := (s.data.handshake id n store).replInfo, store := store } :=
    hs.of_same ⟨rfl, fun _ ↦ rfl, rfl, fun _ ↦ rfl, rfl, rfl, .inl⟩
  cases h with
  | linked fd id n store leftover hfd =>
    refine (hsame id n store).newClient { fd := fd, type := .masterConn, readBuf := leftover } hfd
      (by simp) (some s.nextId) ?_ ?_
    · intro c
      by_cases hc : c = s.nextId
      · simp [hc]
      · simp [hc, hm, eq_comm]
    · intro hmaster
      have hrole : s.replInfo.role = .master := hmaster
      rw [hr] at hrole
      cases hrole
  | failed id n store failure => exact hsame id n store

end Consistent

theorem removeClient_masterClient (h : s.masterClient = none) (c : ClientId) :
    (s.removeClient c).masterClient = none := by
  unfold removeClient
  split
  · exact h
  · simp [h]

theorem reply_masterClient (h : s.masterClient = none) (c : ClientId) (response : Bytes) :
    (s.reply c response).masterClient = none := by
  unfold reply trySend
  split
  · exact h
  · dsimp only
    split
    · refine removeClient_masterClient ?_ c
      exact h
    · exact h

theorem removeMaster_masterClient (s : Server) : s.removeMaster.masterClient = none := by
  unfold removeMaster
  split
  · next h => exact h
  · rfl

theorem demote_masterClient (c : ClientId) (host : Bytes) (port : ℤ) (s : Server) :
    (s.demote c host port).masterClient = none := by
  refine reply_masterClient ?_ c _
  exact removeMaster_masterClient s.leaveMasterRole

namespace Consistent

theorem demote (hs : Consistent s) (c : ClientId) (host : Bytes) (port : ℤ) :
    Consistent (s.demote c host port) := by
  refine Consistent.reply ?_ c _
  refine hs.leaveMasterRole.removeMaster.of_same ⟨rfl, fun _ ↦ rfl, rfl, fun _ ↦ rfl, rfl, rfl, ?_⟩
  intro h
  cases h

theorem handleReplicaofSetMaster (hs : Consistent s) (clk : Clock) (peer : Handshake.Peer)
    (c : ClientId) (host : Bytes) (port : ℤ) :
    Consistent (s.handleReplicaofSetMaster clk peer c host port) := by
  have hrole : (s.demote c host port).replInfo.role = .worker :=
    congrArg (fun d : Data ↦ d.replInfo.role) (data_demote c host port s)
  have hnone := demote_masterClient c host port s
  have hlink := (hs.demote c host port).connectToMaster hnone hrole clk peer host port
  have h := handleReplicaofSetMaster_masterSet clk peer c host port s
  generalize Server.handleReplicaofSetMaster clk peer c host port s = t at h ⊢
  cases h with
  | already => exact hs.reply c _
  | linked hne t h =>
    rw [h] at hlink
    exact hlink
  | reverted hne t what h =>
    rw [h] at hlink
    refine hlink.of_same ⟨rfl, fun _ ↦ rfl, rfl, fun _ ↦ rfl, rfl, rfl, fun _ ↦ .inr ?_⟩
    have hfailed := connectToMaster_connected clk peer host port (s.demote c host port)
    rw [h] at hfailed
    cases hfailed
    exact hnone
  | terminated hne t h =>
    rw [h] at hlink
    exact hlink.of_same ⟨rfl, fun _ ↦ rfl, rfl, fun _ ↦ rfl, rfl, rfl, .inl⟩

theorem handleReplicaofNoOne (hs : Consistent s) (replid : Bytes) (c : ClientId) :
    Consistent (s.handleReplicaofNoOne replid c) := by
  unfold Server.handleReplicaofNoOne
  split
  · exact hs.reply c _
  · refine Consistent.reply ?_ c _
    exact hs.removeMaster.of_same ⟨rfl, fun _ ↦ rfl, rfl, fun _ ↦ rfl, rfl, rfl,
      fun _ ↦ .inr (removeMaster_masterClient s)⟩

theorem handleReplicaof (hs : Consistent s) (env : Env) (c : ClientId) (args : List Bytes) :
    Consistent (s.handleReplicaof env c args) := by
  have h := handleReplicaof_demoted env c args s
  generalize Server.handleReplicaof env c args s = t at h ⊢
  cases h with
  | noOne => exact hs.handleReplicaofNoOne env.replid c
  | refused response => exact hs.reply c response
  | ignored => exact hs
  | setMaster host port => exact hs.handleReplicaofSetMaster env.clock env.peer c host port

theorem handleWait (hs : Consistent s) (now : TimePoint) (c : ClientId) (args : List Bytes) :
    Consistent (s.handleWait now c args) := by
  unfold Server.handleWait
  split
  · split
    · dsimp only
      split
      · exact hs.replyWait c _ _
      · split
        · exact hs.replyWait c _ _
        · exact (hs.of_same (propagate_same _ s)).of_same
            ⟨rfl, fun _ ↦ rfl, rfl, fun _ ↦ rfl, rfl, rfl, .inl⟩
    · exact hs.reply c _
  · exact hs

theorem handlePsync (hs : Consistent s) {c : ClientId} {client : Client}
    (hc : s.clients c = some client) (ht : client.type = .regular) (clk : Clock)
    (args : List Bytes) : Consistent (s.handlePsync clk c args) := by
  unfold Server.handlePsync
  dsimp only
  split
  · exact hs.addReplica hc ht _
  · exact hs.addReplica hc ht _

theorem handleReplicaRead (hs : Consistent s) (c : ClientId) (args : List Bytes) :
    Consistent (s.handleReplicaRead c args) := by
  unfold Server.handleReplicaRead
  split
  · split
    · split
      · exact hs
      · next n _ =>
        have h := hs.of_same (mapClient_same c (fun client ↦ { client with ackOffset := n })
          (fun _ ↦ rfl) s)
        exact h.settleWaits _ _ _
    · exact hs
  · exact hs

theorem handleRegular (hs : Consistent s) {c : ClientId} {client : Client}
    (hc : s.clients c = some client) (ht : client.type = .regular) (env : Env)
    (args : List Bytes) (response : Bytes) : Consistent (s.handleRegular env c args response) := by
  have hreply := hs.of_same (appendReply_same c response s)
  have h := handleRegular_handled env c args response s
  generalize Server.handleRegular env c args response s = t at h ⊢
  cases h with
  | write => exact hreply.of_same (trackWrite_same args _)
  | wait => exact hs.handleWait env.clock.steady c args
  | replicaof => exact hs.handleReplicaof env c args
  | psync => exact hs.handlePsync hc ht env.clock args
  | plain => exact hreply

theorem runCommand (hs : Consistent s) {c : ClientId} {client : Client}
    (hc : s.clients c = some client) (env : Env) (args : List Bytes) (n : ℕ) :
    Consistent (s.runCommand env c client args n) := by
  unfold Server.runCommand dispatch
  dsimp only
  have h (store : Store) : Consistent { s with sends := env.sends, store := store } :=
    hs.of_same ⟨rfl, fun _ ↦ rfl, rfl, fun _ ↦ rfl, rfl, rfl, .inl⟩
  split
  · exact (h _).of_same (handleMasterRead_same c args _ n _)
  · exact (h _).handleReplicaRead c args
  · next ht => exact (h _).handleRegular hc ht env args _

theorem processCommand (hs : Consistent s) (env : Env) (c : ClientId) :
    Consistent (s.processCommand env c) := by
  have h := processCommand_processed env c s
  generalize Server.processCommand env c s = t at h ⊢
  cases h with
  | gone => exact hs.of_same ⟨rfl, fun _ ↦ rfl, rfl, fun _ ↦ rfl, rfl, rfl, .inl⟩
  | done client hc hn =>
    have h := hs.of_same (t := { s with sends := env.sends, pc := .idle })
      ⟨rfl, fun _ ↦ rfl, rfl, fun _ ↦ rfl, rfl, rfl, .inl⟩
    unfold finishRead
    dsimp only
    split
    · exact h
    · exact h.trySend c
  | command client hc args n => exact (hs.runCommand hc env args n).of_same (eraseRead_same c n _)

theorem step (hs : Consistent s) (e : Event) : Consistent (step s e) := by
  have hsame {t : Server} (h : SameClients s t) := hs.of_same h
  have h := step_outcome s e
  generalize Server.step s e = t at h ⊢
  cases h with
  | accept fd => exact hs.handleAccept fd
  | recv c data => exact hsame (handleRecv_same c data s)
  | hangup c => exact hs.removeClient c
  | writable c sends =>
    refine Consistent.trySend ?_ c
    exact hsame ⟨rfl, fun _ ↦ rfl, rfl, fun _ ↦ rfl, rfl, rfl, .inl⟩
  | process env c => exact hs.processCommand env c
  | timeouts now sends =>
    refine Consistent.settleWaits ?_ _ _ _
    exact hsame ⟨rfl, fun _ ↦ rfl, rfl, fun _ ↦ rfl, rfl, rfl, .inl⟩
  | sweep now =>
    unfold startSweep
    split
    · exact hsame ⟨rfl, fun _ ↦ rfl, rfl, fun _ ↦ rfl, rfl, rfl, .inl⟩
    · exact hs
  | sweepNext => exact hsame (continueSweep_same s)
  | rehash items => exact hsame ⟨rfl, fun _ ↦ rfl, rfl, fun _ ↦ rfl, rfl, rfl, .inl⟩
  | writerSwap order => exact hsame (writerSwap_same order s)
  | writerStep result => exact hsame (writerStep_same result s)
  | skip => exact hs

theorem of_initial (hs : Initial s) : Consistent s := by
  cases hs with
  | master replid => exact Consistent.init replid
  | worker replid host port clk peer s h =>
    have hw : Consistent (initWorker replid host port) := by
      refine ⟨?_, ?_, List.nodup_nil, ?_, ?_, ?_, fun _ _ ↦ rfl, fun _ ↦ rfl⟩ <;>
        simp [initWorker]
    have hc := hw.connectToMaster rfl rfl clk peer host port
    rw [h] at hc
    exact hc

theorem of_reachable (hs : Reachable s) : Consistent s := by
  obtain ⟨s₀, es, h₀, rfl⟩ := hs
  exact run_stable Server.step (fun s e hs ↦ hs.step e) (of_initial h₀) es

end Consistent

end RedisLite.Server
