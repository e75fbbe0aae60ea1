import RedisLite.EventLoop

namespace RedisLite

/-- What is replicated, and what describes replication: the server without its
connections and threads. -/
structure Data where
  store : Store
  replInfo : ReplicationInfo
  replicaof : Option (Bytes × ℤ)
  masterReplOffset : ℤ
  backlog : ReplicationBacklog
  unswept : List Bytes

namespace Data

def execute (now : TimePoint) (args : List Bytes) (fromMaster : Bool) (d : Data) : Data :=
  { d with store := (Command.execute now args d.store d.replInfo fromMaster).2 }

def advance (n : ℕ) (d : Data) : Data :=
  { d with
    replInfo := { d.replInfo with masterReplOffset := d.replInfo.masterReplOffset + n } }

def track (args : List Bytes) (d : Data) : Data :=
  let postOffset := d.masterReplOffset + (Resp.encodeArray args).length
  { d with
    masterReplOffset := postOffset
    replInfo := { d.replInfo with masterReplOffset := postOffset }
    backlog := d.backlog.feed (Resp.encodeArray args) d.masterReplOffset }

def sweepKey (key : Bytes) (keys : List Bytes) (d : Data) : Data :=
  { d with
    masterReplOffset := d.masterReplOffset + (Resp.encodeArray [ascii "DEL", key]).length
    backlog := d.backlog.feed (Resp.encodeArray [ascii "DEL", key]) d.masterReplOffset
    unswept := keys }

def promote (replid : Bytes) (d : Data) : Data :=
  let offset := d.replInfo.masterReplOffset
  { d with
    replInfo := {
      role := .master
      masterReplid := replid
      masterReplOffset := offset
      masterHost := []
      masterPort := 0
      masterReplid2 := d.replInfo.masterReplid
      secondReplOffset := offset }
    replicaof := none
    masterReplOffset := offset
    backlog := d.backlog.setStart offset }

def demote (host : Bytes) (port : ℤ) (d : Data) : Data :=
  { d with
    masterReplOffset := if d.replInfo.role = .master then 0 else d.masterReplOffset
    replInfo := { d.replInfo with
      role := .worker, masterReplOffset := 0, masterHost := host, masterPort := port }
    replicaof := some (host, port) }

def handshake (id : Bytes) (n : ℤ) (store : Store) (d : Data) : Data :=
  { d with
    replInfo := { d.replInfo with masterReplid := id, masterReplOffset := n }, store := store }

def revert (d : Data) : Data :=
  { d with
    replInfo := { d.replInfo with role := .master, masterHost := [], masterPort := 0 }
    replicaof := none }

end Data

namespace Server

def data (s : Server) : Data :=
  ⟨s.store, s.replInfo, s.replicaof, s.masterReplOffset, s.backlog, s.unswept⟩

@[simp] theorem data_mapClient (c : ClientId) (f : Client → Client) (s : Server) :
    (s.mapClient c f).data = s.data := rfl

@[simp] theorem data_appendReply (c : ClientId) (response : Bytes) (s : Server) :
    (s.appendReply c response).data = s.data := rfl

@[simp] theorem data_removeClient (c : ClientId) (s : Server) :
    (s.removeClient c).data = s.data := by
  unfold removeClient
  split <;> rfl

@[simp] theorem data_trySend (c : ClientId) (s : Server) : (s.trySend c).data = s.data := by
  unfold trySend
  split
  · rfl
  · dsimp only
    split
    · rw [data_removeClient]
      rfl
    · rfl

@[simp] theorem data_reply (c : ClientId) (response : Bytes) (s : Server) :
    (s.reply c response).data = s.data := by
  rw [reply, data_trySend, data_appendReply]

@[simp] theorem data_replyWait (c : ClientId) (count : ℕ) (target : ℤ) (s : Server) :
    (s.replyWait c count target).data = s.data := by
  rw [replyWait, data_reply]
  rfl

@[simp] theorem data_settleWaits (due : WaitState → ℕ → Bool) (kept waits : List WaitState)
    (s : Server) : (settleWaits due kept waits s).data = s.data := by
  induction waits generalizing kept s with
  | nil => rfl
  | cons wait waits ih =>
    unfold settleWaits
    dsimp only
    split
    · split
      · exact data_replyWait _ _ _ s
      · rw [ih, data_replyWait]
    · rw [ih]

theorem data_disconnect (cs : List ClientId) (s : Server) :
    (cs.foldl (fun s c ↦ s.removeClient c) s).data = s.data := by
  induction cs generalizing s with
  | nil => rfl
  | cons c cs ih => rw [List.foldl_cons, ih, data_removeClient]

@[simp] theorem data_removeMaster (s : Server) : s.removeMaster.data = s.data := by
  unfold removeMaster
  split
  · rfl
  · exact data_removeClient _ s

@[simp] theorem data_propagate (data : Bytes) (s : Server) :
    (s.propagateToReplicas data).data = s.data := by
  unfold propagateToReplicas
  split <;> rfl

@[simp] theorem data_eraseRead (c : ClientId) (n : ℕ) (s : Server) :
    (s.eraseRead c n).data = s.data := by
  unfold eraseRead
  split
  · rfl
  · split <;> rfl

@[simp] theorem data_finishRead (c : ClientId) (client : Client) (s : Server) :
    (s.finishRead c client).data = s.data := by
  unfold finishRead
  dsimp only
  split
  · rfl
  · rw [data_trySend]
    rfl

/-- A waiting client changes nothing that is replicated: the wait is answered, or
parked behind a request for acknowledgements. -/
@[simp] theorem data_handleWait (now : TimePoint) (c : ClientId) (args : List Bytes) (s : Server) :
    (s.handleWait now c args).data = s.data := by
  unfold handleWait
  split
  · split
    · dsimp only
      split
      · exact data_replyWait _ _ _ s
      · split
        · exact data_replyWait _ _ _ s
        · exact data_propagate _ s
    · exact data_reply _ _ s
  · rfl

@[simp] theorem data_handleReplicaRead (c : ClientId) (args : List Bytes) (s : Server) :
    (s.handleReplicaRead c args).data = s.data := by
  unfold handleReplicaRead
  split
  · split
    · split
      · rfl
      · rw [resolvePendingWaits, data_settleWaits, data_mapClient]
    · rfl
  · rfl

@[simp] theorem data_handlePsync (clk : Clock) (c : ClientId) (args : List Bytes) (s : Server) :
    (s.handlePsync clk c args).data = s.data := by
  unfold handlePsync
  dsimp only
  split <;> rfl

@[simp] theorem data_handleMasterRead (c : ClientId) (args : List Bytes) (response : Bytes) (n : ℕ)
    (s : Server) : (s.handleMasterRead c args response n).data = s.data.advance n := by
  unfold handleMasterRead
  dsimp only
  split
  · split <;> rfl
  · rfl

@[simp] theorem data_trackWrite (args : List Bytes) (s : Server) :
    (s.trackWrite args).data = s.data.track args := by
  rw [trackWrite, data_propagate]
  rfl

theorem data_sweepKey (key : Bytes) (keys : List Bytes) (s : Server) :
    ({ s.sweepKey key with unswept := keys } : Server).data = s.data.sweepKey key keys := by
  have h : (s.sweepKey key).data = s.data.sweepKey key s.unswept := by
    rw [sweepKey, data_propagate]
    rfl
  exact congrArg (fun d : Data ↦ { d with unswept := keys }) h

/-- The writer thread touches nothing that belongs to the main thread. -/
theorem writerStep_frame (result : SendResult) (s : Server) :
    (s.writerStep result).clients = s.clients ∧
      (s.writerStep result).pendingWaits = s.pendingWaits ∧ (s.writerStep result).pc = s.pc := by
  unfold writerStep
  split
  · exact ⟨rfl, rfl, rfl⟩
  · split
    · exact ⟨rfl, rfl, rfl⟩
    · split
      · split <;> exact ⟨rfl, rfl, rfl⟩
      · split
        · exact ⟨rfl, rfl, rfl⟩
        · split <;> exact ⟨rfl, rfl, rfl⟩

@[simp] theorem data_writerStep (result : SendResult) (s : Server) :
    (s.writerStep result).data = s.data := by
  unfold writerStep
  split
  · rfl
  · split
    · rfl
    · split
      · split <;> rfl
      · split
        · rfl
        · split <;> rfl

theorem data_leaveMasterRole (s : Server) : s.leaveMasterRole.data =
    { s.data with
      masterReplOffset := if s.replInfo.role = .master then 0 else s.masterReplOffset } := by
  unfold leaveMasterRole
  split
  · have h := data_disconnect (settleWaits (fun _ _ ↦ true) [] s.pendingWaits s).replicas
      (settleWaits (fun _ _ ↦ true) [] s.pendingWaits s)
    rw [data_settleWaits] at h
    have hzero (t : Server) : ({ t with masterReplOffset := 0 } : Server).data =
        { t.data with masterReplOffset := 0 } := rfl
    rw [hzero, disconnectAllReplicas, h]
  · rfl

/-- A server on its way to a new master: a worker at offset zero that has kept its
store, its replication IDs and its backlog. -/
@[simp] theorem data_demote (c : ClientId) (host : Bytes) (port : ℤ) (s : Server) :
    (s.demote c host port).data = s.data.demote host port := by
  have hworker (t : Server) : (t.becomeWorker host port).data =
      { t.data with
        replInfo := { t.data.replInfo with
          role := .worker, masterReplOffset := 0, masterHost := host, masterPort := port }
        replicaof := some (host, port) } := rfl
  rw [demote, data_reply, hworker, data_removeMaster, data_leaveMasterRole]
  rfl

inductive Connected (clk : Clock) (peer : Handshake.Peer) (host : Bytes) (port : ℤ) (s : Server) :
    Server × Option Handshake.Failure → Prop
  | linked (fd : ℕ) (id : Bytes) (n : ℤ) (store : Store) (leftover : Bytes)
    (hfd : s.fds fd = none)
    (hout : Handshake.connect clk (s.granting peer) host port s.replInfo s.store =
      ⟨(s.data.handshake id n store).replInfo, store, .ok leftover⟩) :
    Connected clk peer host port s (addMasterLink fd leftover { s with
      replInfo := (s.data.handshake id n store).replInfo, store := store }, none)
  | failed (id : Bytes) (n : ℤ) (store : Store) (failure : Handshake.Failure)
    (hout : Handshake.connect clk (s.granting peer) host port s.replInfo s.store =
      ⟨(s.data.handshake id n store).replInfo, store, .error failure⟩) :
    Connected clk peer host port s
      ({ s with replInfo := (s.data.handshake id n store).replInfo, store := store }, some failure)

theorem connectToMaster_connected (clk : Clock) (peer : Handshake.Peer) (host : Bytes) (port : ℤ)
    (s : Server) : Connected clk peer host port s (s.connectToMaster clk peer host port) := by
  unfold connectToMaster
  dsimp only
  obtain ⟨id, n, hinfo⟩ := Handshake.connect_info clk (s.granting peer) host port s.replInfo s.store
  generalize hout : Handshake.connect clk (s.granting peer) host port s.replInfo s.store = out
    at hinfo ⊢
  obtain ⟨info, store, result⟩ := out
  cases hinfo
  split
  · next leftover fd hok hfd =>
    cases hok
    refine .linked fd id n store leftover ?_ hout
    simpa using (Option.filter_eq_some_iff.mp hfd).2
  · next failure hfail =>
    cases hfail
    exact .failed id n store failure hout
  · next leftover hok hfd =>
    cases hok
    have hsocket := Handshake.connect_socket (congrArg Handshake.Outcome.result hout)
    exact absurd hfd hsocket

theorem data_connectToMaster {clk : Clock} {peer : Handshake.Peer} {host : Bytes} {port : ℤ}
    {s t : Server} {failure : Option Handshake.Failure}
    (h : s.connectToMaster clk peer host port = (t, failure)) :
    ∃ id n store, t.data = s.data.handshake id n store := by
  have hcon := connectToMaster_connected clk peer host port s
  rw [h] at hcon
  cases hcon with
  | linked fd id n store => exact ⟨id, n, store, rfl⟩
  | failed id n store => exact ⟨id, n, store, rfl⟩

inductive MasterSet (clk : Clock) (peer : Handshake.Peer) (c : ClientId) (host : Bytes) (port : ℤ)
    (s : Server) : Server → Prop
  | already (h : s.replicaof = some (host, port)) : MasterSet clk peer c host port s
      (s.reply c (ascii "+OK Already connected to specified master\r\n"))
  | linked (hne : s.replicaof ≠ some (host, port)) (t : Server)
    (h : (s.demote c host port).connectToMaster clk peer host port = (t, none)) :
    MasterSet clk peer c host port s t
  | reverted (hne : s.replicaof ≠ some (host, port)) (t : Server) (what : Bytes)
    (h : (s.demote c host port).connectToMaster clk peer host port =
      (t, some (.runtimeError what))) : MasterSet clk peer c host port s t.revertToMaster
  | terminated (hne : s.replicaof ≠ some (host, port)) (t : Server) {failure : Handshake.Failure}
    (h : (s.demote c host port).connectToMaster clk peer host port = (t, some failure))
    (hfatal : ¬failure.Caught) :
    MasterSet clk peer c host port s { t with pc := .terminated }

theorem handleReplicaofSetMaster_masterSet (clk : Clock) (peer : Handshake.Peer) (c : ClientId)
    (host : Bytes) (port : ℤ) (s : Server) : MasterSet clk peer c host port s
      (s.handleReplicaofSetMaster clk peer c host port) := by
  unfold handleReplicaofSetMaster
  split
  · next h => exact .already h
  · next hne =>
    split
    · next h => exact .linked hne _ h
    · next h => exact .reverted hne _ _ h
    · next h => exact .terminated hne _ h id
    · next h => exact .terminated hne _ h id

/-- The command at hand is a regular client's `REPLICAOF host port`, and the server is
not yet that master's worker. -/
structure Demotes (s : Server) (c : ClientId) (host : Bytes) (port : ℤ) : Prop where
  receives : ∃ client args n, Receives s c client args n ∧ client.type = .regular ∧
    commandName args = ascii "REPLICAOF" ∧ replicaofTarget args = some (host, port)
  other : s.replicaof ≠ some (host, port)

theorem Demotes.commandName_eq {s : Server} {c c' : ClientId} {host : Bytes} {port : ℤ}
    {client : Client} {args : List Bytes} {n : ℕ} (h : Demotes s c host port)
    (hc : Receives s c' client args n) : commandName args = ascii "REPLICAOF" := by
  obtain ⟨client', args', n', hc', -, hn, -⟩ := h.receives
  obtain ⟨-, -, rfl, -⟩ := hc.unique hc'
  exact hn

/-- No command of a regular client names another master than the present one. -/
theorem not_demotes_iff {s : Server} (env : Env) :
    (∀ tk ∈ s.taking (.process env), tk.client.type = .regular →
        commandName tk.args = ascii "REPLICAOF" →
        ∀ target ∈ replicaofTarget tk.args, s.replicaof = some target) ↔
      ∀ c host port, ¬Demotes s c host port := by
  constructor
  · intro h c host port hd
    obtain ⟨client, args, n, hc, ht, hn, htarget⟩ := hd.receives
    exact hd.other (h _ (hc.taking_eq env) ht hn _ htarget)
  · intro h tk htk ht hn target htarget
    obtain ⟨-, hc⟩ := receives_of_taking htk
    by_contra hother
    exact h tk.c target.1 target.2 ⟨⟨tk.client, tk.args, tk.n, hc, ht, hn, htarget⟩, hother⟩

def handshakeFrom (env : Env) (c : ClientId) (host : Bytes) (port : ℤ) (s : Server) :
    Server × Option Handshake.Failure :=
  (demote c host port { s with sends := env.sends }).connectToMaster env.clock env.peer host port

theorem handshakeFrom_connected (env : Env) (c : ClientId) (host : Bytes) (port : ℤ) (s : Server) :
    Connected env.clock env.peer host port (demote c host port { s with sends := env.sends })
      (s.handshakeFrom env c host port) :=
  connectToMaster_connected env.clock env.peer host port _

/-- What a step does to the data, from any state, next to the commands it counts and
propagates. -/
inductive DataStep (s : Server) : Event → List (List Bytes) → Data → Prop
  | same (e : Event) : DataStep s e [] s.data
  | rehash (items : List Item) :
    DataStep s (.rehash items) [] { s.data with store := s.store.rehash items }
  | sweep (now : TimePoint) (hpc : s.pc = .idle) (hr : s.replInfo.role = .master) :
    DataStep s (.sweep now) [] { s.data with
      store := (s.store.evictExpired now).2, unswept := (s.store.evictExpired now).1 }
  | sweepNext (key : Bytes) (keys : List Bytes) (hpc : s.pc = .sweeping)
    (hkeys : s.unswept = key :: keys) :
    DataStep s .sweepNext [[ascii "DEL", key]] (s.data.sweepKey key keys)
  | link (env : Env) (c : ClientId) (client : Client) (args : List Bytes) (n : ℕ)
    (hc : Receives s c client args n) (ht : client.type = .masterConn) :
    DataStep s (.process env) [] ((s.data.execute env.clock.steady args true).advance n)
  | replica (env : Env) (c : ClientId) (client : Client) (args : List Bytes) (n : ℕ)
    (hc : Receives s c client args n) (ht : client.type = .replica) :
    DataStep s (.process env) [] (s.data.execute env.clock.steady args false)
  | write (env : Env) (c : ClientId) (client : Client) (args : List Bytes) (n : ℕ)
    (hc : Receives s c client args n) (ht : client.type = .regular)
    (hw : Command.isWrite args = true) :
    DataStep s (.process env) [args] ((s.data.execute env.clock.steady args false).track args)
  | promote (env : Env) (c : ClientId) (client : Client) (args : List Bytes) (n : ℕ)
    (hc : Receives s c client args n) (ht : client.type = .regular)
    (hn : commandName args = ascii "REPLICAOF") (hr : s.replInfo.role ≠ .master) :
    DataStep s (.process env) [] (s.data.promote env.replid)
  | linked (env : Env) (c : ClientId) (host : Bytes) (port : ℤ) (hd : Demotes s c host port)
    (t : Server) (h : s.handshakeFrom env c host port = (t, none)) :
    DataStep s (.process env) [] t.data
  | reverted (env : Env) (c : ClientId) (host : Bytes) (port : ℤ) (hd : Demotes s c host port)
    (t : Server) (what : Bytes)
    (h : s.handshakeFrom env c host port = (t, some (.runtimeError what))) :
    DataStep s (.process env) [] t.data.revert
  | terminated (env : Env) (c : ClientId) (host : Bytes) (port : ℤ) (hd : Demotes s c host port)
    (t : Server) {failure : Handshake.Failure}
    (h : s.handshakeFrom env c host port = (t, some failure)) (hfatal : ¬failure.Caught) :
    DataStep s (.process env) [] t.data

theorem dataStep_replicaof {env : Env} {c : ClientId} {client : Client} {args : List Bytes} {n : ℕ}
    {s : Server} (hc : Receives s c client args n) (ht : client.type = .regular)
    (hn : commandName args = ascii "REPLICAOF") :
    DataStep s (.process env) [] (handleReplicaof env c args { s with sends := env.sends }).data := by
  have h := handleReplicaof_demoted env c args { s with sends := env.sends }
  generalize handleReplicaof env c args { s with sends := env.sends } = t at h ⊢
  cases h with
  | ignored => exact .same _
  | refused response =>
    rw [data_reply]
    exact .same _
  | noOne =>
    unfold handleReplicaofNoOne
    split
    · rw [data_reply]
      exact .same _
    · next hr =>
      have hpromote (t : Server) : (t.promote env.replid).data = t.data.promote env.replid := rfl
      rw [data_reply, hpromote, data_removeMaster]
      exact .promote env c client args n hc ht hn hr
  | setMaster host port htarget =>
    have h := handleReplicaofSetMaster_masterSet env.clock env.peer c host port
      { s with sends := env.sends }
    generalize handleReplicaofSetMaster env.clock env.peer c host port { s with sends := env.sends }
      = t at h ⊢
    have hd (hne : s.replicaof ≠ some (host, port)) : Demotes s c host port :=
      ⟨⟨client, args, n, hc, ht, hn, htarget⟩, hne⟩
    cases h with
    | already =>
      rw [data_reply]
      exact .same _
    | linked hne t h => exact .linked env c host port (hd hne) t h
    | reverted hne t what h => exact .reverted env c host port (hd hne) t what h
    | terminated hne t h hfatal => exact .terminated env c host port (hd hne) t h hfatal

theorem dataStep_runCommand {env : Env} {c : ClientId} {client : Client} {args : List Bytes}
    {n : ℕ} {s : Server} (hc : Receives s c client args n) :
    DataStep s (.process env) (written s (.process env))
      (s.runCommand env c client args n).data := by
  have hwritten := hc.written_eq env
  unfold runCommand dispatch
  dsimp only
  split
  · next ht =>
    rw [hwritten, if_neg (by rw [ht]; decide), data_handleMasterRead, ht]
    exact .link env c client args n hc ht
  · next ht =>
    rw [hwritten, if_neg (by rw [ht]; decide), data_handleReplicaRead, ht]
    exact .replica env c client args n hc ht
  · next ht =>
    have hfrom : (client.type == .masterConn) = false := by rw [ht]; rfl
    rw [hwritten, hfrom, if_pos ht]
    have h := handleRegular_handled env c args
      (Command.execute env.clock.steady args s.store s.replInfo false).1 { s with
        sends := env.sends
        store := (Command.execute env.clock.steady args s.store s.replInfo false).2 }
    generalize handleRegular env c args _ _ = t at h ⊢
    have hnone (hw : Command.isWrite args = false) : [args].filter Command.isWrite = [] := by
      rw [List.filter_cons_of_neg (by rw [hw]; decide), List.filter_nil]
    have hsame (hw : Command.isWrite args = false) :
        DataStep s (.process env) [] (s.data.execute env.clock.steady args false) := by
      unfold Data.execute
      rw [Command.execute_of_not_write _ _ _ _ hw]
      exact .same _
    cases h with
    | write hw =>
      rw [data_trackWrite, data_appendReply, List.filter_cons_of_pos hw, List.filter_nil]
      exact .write env c client args n hc ht hw
    | wait hw =>
      rw [data_handleWait, hnone hw]
      exact hsame hw
    | psync hw =>
      rw [data_handlePsync, hnone hw]
      exact hsame hw
    | plain hw =>
      rw [data_appendReply, hnone hw]
      exact hsame hw
    | replicaof hw hn =>
      rw [Command.execute_of_not_write _ _ _ _ hw, hnone hw]
      exact dataStep_replicaof hc ht hn

theorem written_of_skip {s : Server} {e : Event} (hp : ∀ env c, e = .process env → s.pc ≠ .reading c)
    (hs : e = .sweepNext → s.pc ≠ .sweeping) : written s e = [] := by
  unfold written
  split
  · next hpc => exact absurd hpc (hp _ _ rfl)
  · next hpc => exact absurd hpc (hs rfl)
  · rfl

theorem step_dataStep (s : Server) (e : Event) : DataStep s e (written s e) (step s e).data := by
  have h := step_outcome s e
  generalize step s e = t at h ⊢
  cases h with
  | accept fd =>
    unfold handleAccept
    split <;> exact .same _
  | recv c data =>
    unfold handleRecv
    split <;> exact .same _
  | hangup c =>
    rw [data_removeClient]
    exact .same _
  | writable c sends =>
    rw [data_trySend]
    exact .same _
  | process env c hpc =>
    have h := processCommand_processed env c s
    generalize s.processCommand env c = t at h ⊢
    cases h with
    | gone hc =>
      simp only [written, hpc, hc]
      exact .same _
    | done client hc hn =>
      rw [data_finishRead]
      simp only [written, hpc, hc, hn, Option.toList_none, List.map_nil, List.filter_nil, ite_self]
      exact .same _
    | command client hc args n hp hn =>
      rw [data_eraseRead]
      exact dataStep_runCommand ⟨hpc, hc, hp, hn⟩
  | timeouts now sends =>
    rw [checkWaitTimeouts, data_settleWaits]
    exact .same _
  | sweep now hpc =>
    unfold startSweep
    split
    · next hr => exact .sweep now hpc hr
    · exact .same _
  | sweepNext hpc =>
    unfold continueSweep
    split
    · next hkeys =>
      have hnone : written s .sweepNext = [] := by
        simp only [written, hpc, hkeys, List.take_nil, List.map_nil]
      rw [hnone]
      exact .same _
    · next key keys hkeys =>
      have hone : written s .sweepNext = [[ascii "DEL", key]] := by
        simp only [written, hpc, hkeys, List.take_succ_cons, List.take_zero, List.map_cons,
          List.map_nil]
      rw [hone, data_sweepKey]
      exact .sweepNext key keys hpc hkeys
  | rehash items => exact .rehash items
  | writerSwap order => exact .same _
  | writerStep result =>
    rw [data_writerStep]
    exact .same _
  | skip e hp hs =>
    rw [written_of_skip hp hs]
    exact .same _

end Server

end RedisLite
