import RedisLite.Settlement
import RedisLite.Stream

namespace RedisLite.Server

open Function

variable {s t : Server} {up c d : ClientId} {ds : List ClientId} {client : Client} {said : Bytes}
  {args : List Bytes} {n : ℕ} {e : Event}

def isGetack (args : List Bytes) : Bool :=
  match args with
  | name :: sub :: _ => toUpper name == ascii "REPLCONF" && toUpper sub == ascii "GETACK"
  | _ => false

def ackFor (offset : ℤ) (args : List Bytes) : List (List Bytes) :=
  if isGetack args then [[ascii "REPLCONF", ascii "ACK", toStr offset]] else []

def Event.reads (c : ClientId) : Event → Bool
  | .recv d _ => d == c
  | _ => false

def Event.closes (c : ClientId) : Event → Bool
  | .hangup d => d == c
  | _ => false

def executed (up : ClientId) (s : Server) (e : Event) : List (List Bytes) :=
  match s.taking e with
  | some tk => if tk.c = up then [tk.args] else []
  | none => []

/-- A step in which a replica keeps its link: no send fails, the link is not closed, and no
regular client sends a write command or `REPLICAOF`. -/
@[mk_iff] structure Stays (up : ClientId) (s : Server) (e : Event) : Prop where
  sends : NoError e.sends
  kept : e.closes up = false
  plain : ∀ tk ∈ s.taking e, tk.client.type = .regular →
    Command.isWrite tk.args = false ∧ commandName tk.args ≠ ascii "REPLICAOF"

instance (up : ClientId) (s : Server) (e : Event) : Decidable (Stays up s e) :=
  decidable_of_iff' _ (stays_iff up s e)

theorem execute_getack (h : isGetack args = true) (now : TimePoint) (store : Store)
    (info : ReplicationInfo) : (Command.execute now args store info true).1 =
      Resp.encodeArray [ascii "REPLCONF", ascii "ACK", toStr info.masterReplOffset] := by
  rcases args with _ | ⟨name, _ | ⟨sub, rest⟩⟩
  case cons.cons =>
    simp only [isGetack, Bool.and_eq_true, beq_iff_eq] at h
    simp only [Command.execute, h.1, Bool.not_true, Bool.false_and, Bool.false_eq_true, if_false]
    have hsub : (toUpper sub == ascii "GETACK") = true := by rw [h.2, beq_self_eq_true]
    change Command.executeReplconf (name :: sub :: rest) info = _
    simp only [Command.executeReplconf, hsub, if_true]
  all_goals cases h

theorem handleMasterRead_eq (c : ClientId) (args : List Bytes) (response : Bytes) (n : ℕ)
    (s : Server) : s.handleMasterRead c args response n =
      if isGetack args then appendReply c response { s with
        replInfo := { s.replInfo with masterReplOffset := s.replInfo.masterReplOffset + n } }
      else { s with
        replInfo := { s.replInfo with masterReplOffset := s.replInfo.masterReplOffset + n } } := by
  rcases args with _ | ⟨name, _ | ⟨sub, rest⟩⟩ <;> rfl

/-- A replica's connection to its master: `said` has been sent or waits in the buffer, and
neither another thread nor a parked wait writes to it. -/
structure Uplink (s : Server) (up : ClientId) (client : Client) (said : Bytes) : Prop where
  connected : s.clients up = some client
  type : client.type = .masterConn
  said : s.wire up ++ client.writeBuf = said
  queues : ∀ c queue, s.replQueues c = some queue → queue.fd ≠ client.fd
  owner : ∀ fd, s.fds fd = some up → fd = client.fd
  waits : ∀ wait ∈ s.pendingWaits, wait.client ≠ up

namespace Uplink

theorem of_eq (h : Uplink s up client said) (hc : t.clients up = s.clients up)
    (hw : t.wire up = s.wire up)
    (hq : ∀ c queue, t.replQueues c = some queue → queue.fd ≠ client.fd)
    (hf : ∀ fd, t.fds fd = some up → fd = client.fd)
    (hp : ∀ wait ∈ t.pendingWaits, wait.client ≠ up) : Uplink t up client said where
  connected := hc.trans h.connected
  type := h.type
  said := hw ▸ h.said
  queues := hq
  owner := hf
  waits := hp

theorem mapQueues (h : Uplink s up client said) (f : ClientId → ReplicaWriteQueue → ReplicaWriteQueue)
    (hfd : ∀ c queue, (f c queue).fd = queue.fd)
    (hq : ∀ c, t.replQueues c = (s.replQueues c).map (f c)) (hc : t.clients = s.clients)
    (hw : t.wire = s.wire) (hf : t.fds = s.fds)
    (hp : ∀ wait ∈ t.pendingWaits, wait.client ≠ up) : Uplink t up client said := by
  refine h.of_eq (congrFun hc up) (congrFun hw up) (fun c queue hqueue ↦ ?_) (hf ▸ h.owner) hp
  rw [hq c] at hqueue
  obtain ⟨queue', hq', rfl⟩ := Option.map_eq_some_iff.mp hqueue
  rw [hfd]
  exact h.queues c queue' hq'

theorem congr (h : Uplink s up client said) (hc : t.clients = s.clients) (hw : t.wire = s.wire)
    (hq : t.replQueues = s.replQueues) (hf : t.fds = s.fds)
    (hp : t.pendingWaits = s.pendingWaits) : Uplink t up client said :=
  h.of_eq (congrFun hc up) (congrFun hw up) (hq ▸ h.queues) (hf ▸ h.owner) (hp ▸ h.waits)

theorem answers (h : Uplink s up client said) (ha : Answers ds s t) (hup : up ∉ ds)
    (hp : ∀ wait ∈ t.pendingWaits, wait.client ≠ up) : Uplink t up client said :=
  h.of_eq (ha.client up hup) (ha.wire up hup) (ha.queues ▸ h.queues) (ha.fds ▸ h.owner) hp

theorem settleAll (h : Uplink s up client said) (due : WaitState → ℕ → Bool)
    (hs : NoError s.sends) : Uplink (settleWaits due [] s.pendingWaits s) up client said := by
  refine h.answers (Answers.settleAll due hs) (fun hmem ↦ ?_) ?_
  · obtain ⟨wait, hw, he⟩ := List.mem_map.mp hmem
    exact h.waits wait hw he
  · exact settleWaits_waits _ _ _ (fun _ h ↦ absurd h List.not_mem_nil) h.waits h.waits

theorem mapClient (h : Uplink s up client said) (hne : d ≠ up) (f : Client → Client) :
    Uplink (s.mapClient d f) up client said :=
  h.of_eq (update_of_ne hne.symm ..) rfl h.queues h.owner h.waits

theorem eraseRead (h : Uplink s up client said) (hne : d ≠ up) (n : ℕ) :
    Uplink (s.eraseRead d n) up client said := by
  unfold Server.eraseRead
  split
  · exact h
  · split
    · exact h.congr rfl rfl rfl rfl rfl
    · exact h.mapClient hne _

theorem propagate (h : Uplink s up client said) (data : Bytes) :
    Uplink (s.propagateToReplicas data) up client said := by
  unfold propagateToReplicas
  split
  · exact h
  · refine h.mapQueues (fun _ queue ↦ _) (fun _ queue ↦ ?_) (fun _ ↦ rfl) rfl rfl rfl h.waits
    split <;> rfl

theorem trySend (h : Uplink s up client said) (hs : NoError s.sends) (d : ClientId) :
    ∃ client', Uplink (s.trySend d) up client' said ∧ client'.readBuf = client.readBuf := by
  by_cases hd : d = up
  · subst hd
    obtain ⟨hsplit, hok⟩ := sendLoop_spec s.sends client.writeBuf
    refine ⟨{ client with writeBuf := (sendLoop s.sends client.writeBuf).2.1 }, ?_, rfl⟩
    simp only [Server.trySend, h.connected, (hok hs).1, Bool.false_eq_true, if_false]
    refine ⟨?_, h.type, ?_, h.queues, h.owner, h.waits⟩
    · simp [deliver, Server.mapClient, h.connected]
    · simp only [deliver, update_self, List.append_assoc]
      rw [hsplit]
      exact h.said
  · exact ⟨client, h.answers (Answers.trySend hs (List.mem_singleton_self d))
      (fun hmem ↦ hd (List.mem_singleton.mp hmem).symm)
      (fun wait hw ↦ h.waits wait (trySend_waits _ _ hw)), rfl⟩

theorem removeClient (h : Uplink s up client said) (hne : d ≠ up) :
    Uplink (s.removeClient d) up client said := by
  unfold Server.removeClient
  split
  · exact h
  · next gone hgone =>
    refine h.of_eq (update_of_ne hne.symm ..) rfl (fun c queue hq ↦ ?_) (fun fd hfd ↦ ?_)
      (fun wait hw ↦ h.waits wait (List.mem_of_mem_filter hw))
    · by_cases hc : c = d
      · subst hc
        simp only [update_self, Option.map_eq_some_iff] at hq
        obtain ⟨queue', hq', rfl⟩ := hq
        exact h.queues c queue' hq'
      · simp only [update_of_ne hc] at hq
        exact h.queues c queue hq
    · by_cases heq : fd = gone.fd
      · simp only [heq, update_self] at hfd
        cases hfd
      · simp only [update_of_ne heq] at hfd
        exact h.owner fd hfd

theorem handleAccept (h : Uplink s up client said) (hcons : Consistent s) (fd : ℕ) :
    Uplink (s.handleAccept fd) up client said := by
  unfold Server.handleAccept
  split
  · exact h
  · have hne : up ≠ s.nextId := by
      rintro rfl
      have hfresh := hcons.fresh s.nextId (le_refl _)
      rw [h.connected] at hfresh
      cases hfresh
    refine h.of_eq (update_of_ne hne ..) rfl h.queues (fun fd' hfd ↦ ?_) h.waits
    by_cases heq : fd' = fd
    · simp only [heq, update_self, Option.some.injEq] at hfd
      exact absurd hfd.symm hne
    · simp only [update_of_ne heq] at hfd
      exact h.owner fd' hfd

theorem addReplica (h : Uplink s up client said) (hcons : Consistent s) (hne : d ≠ up)
    (data : Bytes) : Uplink (s.addReplica d data) up client said := by
  refine h.of_eq (update_of_ne hne.symm ..) rfl (fun c queue hq ↦ ?_) h.owner h.waits
  by_cases hc : c = d
  · subst hc
    simp only [Server.addReplica, update_self, Option.map_eq_some_iff] at hq
    obtain ⟨replica, hreplica, rfl⟩ := hq
    intro hfd
    have howner := hcons.fd c replica hreplica
    have hlink := hcons.fd up client h.connected
    rw [show replica.fd = client.fd from hfd, hlink] at howner
    exact hne (Option.some.inj howner).symm
  · simp only [Server.addReplica, update_of_ne hc] at hq
    exact h.queues c queue hq

theorem waited {now : TimePoint} (h : Uplink s up client said) (hs : NoError s.sends)
    (hne : d ≠ up) (hw : Waited now d args s t) : Uplink t up client said := by
  have hnot : up ∉ [d] := fun hmem ↦ hne (List.mem_singleton.mp hmem).symm
  cases hw with
  | replied count =>
    exact h.answers (Answers.replyWait hs (List.mem_singleton_self d) _ _) hnot
      (fun wait hw ↦ h.waits wait (replyWait_waits _ _ _ hw))
  | refused response =>
    exact h.answers (Answers.reply hs (List.mem_singleton_self d) _) hnot
      (fun wait hw ↦ h.waits wait (reply_waits _ _ hw))
  | ignored => exact h
  | parked =>
    have hprop := h.propagate (Resp.encodeArray Command.getack)
    refine hprop.of_eq rfl rfl hprop.queues hprop.owner (fun wait hw ↦ ?_)
    rcases List.mem_append.mp hw with hw | hw
    · exact h.waits wait hw
    · rw [List.mem_singleton.mp hw]
      exact hne

theorem writerStep (h : Uplink s up client said) (result : SendResult) :
    Uplink (s.writerStep result) up client said := by
  have hset (c : ClientId) (queue : ReplicaWriteQueue) (draining : Bytes) :
      Uplink (s.setDraining c draining) up client said := by
    refine h.of_eq rfl rfl (fun d queue hq ↦ ?_) h.owner h.waits
    by_cases hd : d = c
    · subst hd
      simp only [setDraining, update_self, Option.map_eq_some_iff] at hq
      obtain ⟨queue', hq', rfl⟩ := hq
      exact h.queues d queue' hq'
    · simp only [setDraining, update_of_ne hd] at hq
      exact h.queues d queue hq
  have hnext {t : Server} (ht : Uplink t up client said) : Uplink t.nextQueue up client said :=
    ht.congr rfl rfl rfl rfl rfl
  unfold Server.writerStep
  split
  · exact h
  · next c _ _ =>
    split
    · exact hnext h
    · next queue hq =>
      split
      · split
        · exact hnext h
        · exact h.congr rfl rfl rfl rfl rfl
      · split
        · exact hnext h
        · split
          · next d n hd =>
            have hne : up ≠ d := by
              rintro rfl
              exact h.queues c queue hq (h.owner _ hd)
            have hdrain := hset c queue (queue.draining.drop (n + 1))
            exact hdrain.of_eq rfl (update_of_ne hne ..) hdrain.queues hdrain.owner hdrain.waits
          · exact hnext h
          · exact hnext (hset c queue [])

theorem unique (h : Uplink s up client said) (hcons : Consistent s) {link : Client}
    (hc : s.clients c = some link) (ht : link.type = .masterConn) : c = up := by
  have hup := (hcons.master_iff up).mpr ⟨client, h.connected, h.type⟩
  rw [(hcons.master_iff c).mpr ⟨link, hc, ht⟩] at hup
  exact Option.some.inj hup

theorem recv (h : Uplink s up client said) (hpc : s.pc = .idle) {data : Bytes} (hne : data ≠ []) :
    Uplink (Server.step s (.recv up data)) up { client with readBuf := client.readBuf ++ data }
      said := by
  have hstep : Server.step s (.recv up data) = { s.mapClient up (fun client ↦ { client with
      readBuf := client.readBuf ++ data }) with pc := .reading up } := by
    have hdata : data.isEmpty = false := List.isEmpty_eq_false_iff.mpr hne
    simp [Server.step, hpc, handleRecv, hdata, h.connected]
  rw [hstep]
  refine ⟨?_, h.type, h.said, h.queues, h.owner, h.waits⟩
  simp [Server.mapClient, h.connected]

theorem command {env : Env} {other : Client} (h : Uplink s up client said) (hcons : Consistent s)
    (hstay : Stays up s (.process env)) (hc : Receives s d other args n) (hne : d ≠ up) :
    Uplink (Server.step s (.process env)) up client said := by
  rw [hc.step_eq env]
  refine Uplink.eraseRead ?_ hne n
  have hload (store : Store) : Uplink { s with sends := env.sends, store := store } up client said :=
    h.congr rfl rfl rfl rfl rfl
  have hcons' (store : Store) : Consistent { s with sends := env.sends, store := store } :=
    hcons.of_same ⟨rfl, fun _ ↦ rfl, rfl, fun _ ↦ rfl, rfl, rfl, .inl⟩
  cases ht : other.type with
  | masterConn => exact absurd (h.unique hcons hc.connected ht) hne
  | replica =>
    rw [runCommand_replica env d args n ht, handleReplicaRead_eq]
    split
    · exact ((hload _).mapClient hne _).settleAll _ hstay.sends
    · exact hload _
  | regular =>
    obtain ⟨hwrite, hname⟩ := hstay.plain _ (hc.taking_eq env) ht
    rw [runCommand_regular env d args n ht]
    generalize (Command.execute env.clock.steady args s.store s.replInfo false).1 = response
    have hhandled := handleRegular_handled env d args response { s with
      sends := env.sends
      store := (Command.execute env.clock.steady args s.store s.replInfo false).2 }
    generalize handleRegular env d args response _ = t at hhandled ⊢
    cases hhandled with
    | write hw =>
      rw [hwrite] at hw
      cases hw
    | wait => exact (hload _).waited hstay.sends hne (handleWait_waited ..)
    | replicaof _ hn => exact absurd hn hname
    | psync =>
      unfold handlePsync
      dsimp only
      split
      · exact (hload _).addReplica (hcons' _) hne _
      · exact (hload _).addReplica (hcons' _) hne _
    | plain => exact (hload _).mapClient hne _

theorem eraseOwn (h : Uplink s up client said) (hpc : s.pc = .reading up) (n : ℕ) :
    Uplink (s.eraseRead up n) up { client with readBuf := client.readBuf.drop n } said := by
  have herase : s.eraseRead up n =
      s.mapClient up (fun client ↦ { client with readBuf := client.readBuf.drop n }) := by
    simp [Server.eraseRead, hpc, h.connected]
  rw [herase]
  refine ⟨?_, h.type, h.said, h.queues, h.owner, h.waits⟩
  simp [Server.mapClient, h.connected]

theorem appendOwn (h : Uplink s up client said) (response : Bytes) :
    Uplink (s.appendReply up response) up { client with writeBuf := client.writeBuf ++ response }
      (said ++ response) := by
  refine ⟨?_, h.type, ?_, h.queues, h.owner, h.waits⟩
  · simp [appendReply, Server.mapClient, h.connected]
  · rw [← h.said, List.append_assoc]
    rfl

theorem follow (env : Env) (h : Uplink s up client said) (hc : Receives s up client args n) :
    ∃ client', Uplink (Server.step s (.process env)) up client'
        (said ++ Resp.framing.stream (ackFor s.replInfo.masterReplOffset args)) ∧
      client'.readBuf = client.readBuf.drop n ∧
      (Server.step s (.process env)).replInfo.masterReplOffset =
        s.replInfo.masterReplOffset + n := by
  rw [hc.step_eq env, runCommand_link env up args n h.type, handleMasterRead_eq]
  generalize hstore : (Command.execute env.clock.steady args s.store s.replInfo true).2 = store
  have hload : Uplink { s with
      sends := env.sends
      store := store
      replInfo := { s.replInfo with masterReplOffset := s.replInfo.masterReplOffset + n } } up
      client said := h.congr rfl rfl rfl rfl rfl
  by_cases hg : isGetack args = true
  · rw [if_pos hg, execute_getack hg, ackFor, if_pos hg, Lib.Framing.stream_cons,
      Lib.Framing.stream_nil, List.append_nil]
    refine ⟨_, (hload.appendOwn _).eraseOwn hc.pc n, rfl, ?_⟩
    exact congrArg (·.replInfo.masterReplOffset) (data_eraseRead up n _)
  · rw [if_neg hg, ackFor, if_neg hg, Lib.Framing.stream_nil, List.append_nil]
    refine ⟨_, hload.eraseOwn hc.pc n, rfl, ?_⟩
    exact congrArg (·.replInfo.masterReplOffset) (data_eraseRead up n _)

theorem executed_eq (h : Uplink s up client said) (hcons : Consistent s) {env : Env} {link : Client}
    (hc : Receives s c link args n) (ht : link.type = .masterConn) :
    executed up s (.process env) = [args] := by
  rw [executed, hc.taking_eq env]
  exact if_pos (h.unique hcons hc.connected ht)

theorem offset_step (h : Uplink s up client said) (hcons : Consistent s) (hstay : Stays up s e)
    (hnone : executed up s e = []) :
    (Server.step s e).replInfo.masterReplOffset = s.replInfo.masterReplOffset := by
  have hdata := step_dataStep s e
  change (Server.step s e).data.replInfo.masterReplOffset = s.data.replInfo.masterReplOffset
  generalize (Server.step s e).data = d, written s e = cmds at hdata ⊢
  have hname {env : Env} {d : ClientId} {host : Bytes} {port : ℤ} (he : e = .process env)
      (hd : Demotes s d host port) : False := by
    obtain ⟨other, args, n, hc, ht, hn, -⟩ := hd.receives
    subst he
    exact (hstay.plain _ (hc.taking_eq env) ht).2 hn
  cases hdata with
  | same => rfl
  | rehash => rfl
  | sweep => rfl
  | sweepNext => rfl
  | link env c link args n hc ht =>
    rw [h.executed_eq hcons hc ht] at hnone
    cases hnone
  | replica => rfl
  | write env c other args n hc ht hw =>
    rw [(hstay.plain _ (hc.taking_eq env) ht).1] at hw
    cases hw
  | promote env c other args n hc ht hn => exact absurd hn (hstay.plain _ (hc.taking_eq env) ht).2
  | linked env c host port hd => exact (hname rfl hd).elim
  | reverted env c host port hd => exact (hname rfl hd).elim
  | terminated env c host port hd => exact (hname rfl hd).elim

end Uplink

/-- What a step of a replica does to its link: what is left unread, the number of bytes that
are counted, and the answers. -/
inductive Heeds (s : Server) (up : ClientId) (client : Client) :
    Event → Bytes → ℕ → List (List Bytes) → Prop
  | other (e : Event) (h : executed up s e = []) : Heeds s up client e client.readBuf 0 []
  | command (env : Env) (args : List Bytes) (n : ℕ) (hc : Receives s up client args n) :
    Heeds s up client (.process env) (client.readBuf.drop n) n
      (ackFor s.replInfo.masterReplOffset args)

namespace Uplink

theorem other (h : Uplink s up client said) (hcons : Consistent s) (hstay : Stays up s e)
    (hreads : e.reads up = false) (hnone : executed up s e = []) :
    ∃ client', Uplink (Server.step s e) up client' said ∧ client'.readBuf = client.readBuf := by
  have hsame {t : Server} (ht : Uplink t up client said) :
      ∃ client', Uplink t up client' said ∧ client'.readBuf = client.readBuf := ⟨client, ht, rfl⟩
  have hout := step_outcome s e
  generalize hstep : Server.step s e = t at hout ⊢
  cases hout with
  | accept fd => exact hsame (h.handleAccept hcons fd)
  | recv d data =>
    have hne : d ≠ up := by simpa [Event.reads] using hreads
    refine hsame ?_
    unfold handleRecv
    split
    · exact h
    · exact (h.mapClient hne _).congr rfl rfl rfl rfl rfl
  | hangup d =>
    have hne : d ≠ up := by simpa [Event.closes] using hstay.kept
    exact hsame (h.removeClient hne)
  | writable d sends =>
    have hload : Uplink { s with sends := sends } up client said := h.congr rfl rfl rfl rfl rfl
    exact hload.trySend hstay.sends d
  | process env d hpc =>
    have hprocessed := processCommand_processed env d s
    generalize s.processCommand env d = t at hprocessed hstep ⊢
    cases hprocessed with
    | gone => exact hsame (h.congr rfl rfl rfl rfl rfl)
    | done other =>
      have hload : Uplink { s with sends := env.sends, pc := .idle } up client said :=
        h.congr rfl rfl rfl rfl rfl
      unfold finishRead
      dsimp only
      split
      · exact hsame hload
      · exact hload.trySend hstay.sends d
    | command other hc args n hp hn =>
      have hreceives : Receives s d other args n := ⟨hpc, hc, hp, hn⟩
      have hne : d ≠ up := by
        rintro rfl
        rw [executed, hreceives.taking_eq env] at hnone
        simp at hnone
      rw [← hstep]
      exact hsame (h.command hcons hstay hreceives hne)
  | timeouts now sends =>
    have hload : Uplink { s with sends := sends } up client said := h.congr rfl rfl rfl rfl rfl
    exact hsame (hload.settleAll _ hstay.sends)
  | sweep now =>
    refine hsame ?_
    unfold startSweep
    split
    · exact h.congr rfl rfl rfl rfl rfl
    · exact h
  | sweepNext =>
    refine hsame ?_
    unfold continueSweep
    split
    · exact h.congr rfl rfl rfl rfl rfl
    · next key keys _ =>
      have hkey : Uplink (s.sweepKey key) up client said := by
        refine Uplink.propagate ?_ _
        exact h.congr rfl rfl rfl rfl rfl
      exact hkey.congr rfl rfl rfl rfl rfl
  | rehash items => exact hsame (h.congr rfl rfl rfl rfl rfl)
  | writerSwap order =>
    refine hsame (h.mapQueues (fun _ ↦ swapQueue) (fun _ queue ↦ ?_) (fun _ ↦ rfl) rfl rfl rfl
      h.waits)
    unfold swapQueue
    split <;> rfl
  | writerStep result => exact hsame (h.writerStep result)
  | skip => exact hsame h

theorem step (h : Uplink s up client said) (hcons : Consistent s) (hstay : Stays up s e)
    (hreads : e.reads up = false) :
    ∃ client' n acks, Heeds s up client e client'.readBuf n acks ∧
      Uplink (Server.step s e) up client' (said ++ Resp.framing.stream acks) ∧
      (Server.step s e).replInfo.masterReplOffset = s.replInfo.masterReplOffset + n := by
  by_cases hnone : executed up s e = []
  · obtain ⟨client', hlink, hread⟩ := h.other hcons hstay hreads hnone
    refine ⟨client', 0, [], ?_, ?_, ?_⟩
    · rw [hread]
      exact .other e hnone
    · rw [Lib.Framing.stream_nil, List.append_nil]
      exact hlink
    · rw [Nat.cast_zero, add_zero]
      exact h.offset_step hcons hstay hnone
  · cases ht : s.taking e with
    | none => exact absurd (by rw [executed, ht]) hnone
    | some tk =>
      obtain ⟨rfl, hc⟩ := receives_of_taking ht
      have hup : tk.c = up := by
        by_contra hne
        exact hnone (by rw [executed, ht]; exact if_neg hne)
      rw [hup] at hc
      have hclient : tk.client = client := by
        have hconn := hc.connected
        rw [h.connected] at hconn
        exact (Option.some.inj hconn).symm
      rw [hclient] at hc
      obtain ⟨client', hlink, hread, hoffset⟩ := h.follow tk.env hc
      refine ⟨client', tk.n, _, ?_, hlink, hoffset⟩
      rw [hread]
      exact .command tk.env tk.args tk.n hc

end Uplink

end RedisLite.Server
