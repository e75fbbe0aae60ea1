import RedisLite.Controller.Client
import RedisLite.Offsets
import RedisLite.Outbound

namespace RedisLite.Server

open Function Handshake Lib.Run

variable {s t : Server} {env : Env} {c : ClientId} {client : Client} {args : List Bytes} {n : ℕ}
  {host : Bytes} {port : ℤ}

theorem execute_replicaof (hn : commandName args = ascii "REPLICAOF") (now : TimePoint)
    (store : Store) (info : ReplicationInfo) (fromMaster : Bool) :
    (Command.execute now args store info fromMaster).1 = Command.executeReplicaof args := by
  cases args with
  | nil => cases hn
  | cons name args =>
    have hw : Command.isWriteCommand (ascii "REPLICAOF") = false := by decide
    change toUpper name = _ at hn
    simp only [Command.execute, hn, hw, Bool.and_false, Bool.false_eq_true, if_false]
    rfl

theorem isWrite_of_replicaof (hn : commandName args = ascii "REPLICAOF") :
    Command.isWrite args = false := by
  rw [← isWriteCommand_commandName, hn]
  decide

theorem step_replicaof (env : Env) (hc : Receives s c client args n) (ht : client.type = .regular)
    (hn : commandName args = ascii "REPLICAOF") : step s (.process env) =
      (if Command.executeReplicaof args = [] then
        handleReplicaof env c args { s with sends := env.sends }
      else appendReply c (Command.executeReplicaof args) { s with sends := env.sends }).eraseRead c
        n := by
  have hname : (ascii "REPLICAOF" == ascii "WAIT") = false ∧
      (ascii "REPLICAOF" == ascii "PSYNC") = false ∧
      Command.isWriteCommand (ascii "REPLICAOF") = false := by decide
  rw [hc.step_eq env, runCommand_regular env c args n ht, execute_replicaof hn,
    Command.execute_of_not_write _ _ _ _ (isWrite_of_replicaof hn)]
  simp only [handleRegular, hn, hname.1, hname.2.1, hname.2.2, Bool.false_and, Bool.false_eq_true,
    if_false, beq_self_eq_true, Bool.true_and, List.isEmpty_iff]

theorem answer_replicaof (hn : commandName args = ascii "REPLICAOF") (env : Env) (s : Server) :
    s.answer env args = some (if Command.executeReplicaof args = [] then s.replicaofAnswer args
      else Command.executeReplicaof args) := by
  have hname : (ascii "REPLICAOF" == ascii "WAIT") = false := by decide
  simp only [answer, execute_replicaof hn, hn, hname, Bool.false_and, Bool.false_eq_true, if_false,
    beq_self_eq_true, Bool.true_and, List.isEmpty_iff]
  split <;> rfl

/-- What the client of a `REPLICAOF` hears is the one answer, behind the replies to the waits
that a demotion settles. -/
theorem heard_replicaof {replies : List WaitReply} (env : Env)
    (hleave : Says replies nothing { s with sends := env.sends }
      (leaveMasterRole { s with sends := env.sends }))
    (hc : Receives s c client args n) (ht : client.type = .regular)
    (hn : commandName args = ascii "REPLICAOF") :
    Heard (if Command.executeReplicaof args = [] ∧ s.redirects args = true then replies else [])
      (only c ((s.answer env args).getD [])) s (step s (.process env)) := by
  have hsends : Says [] nothing s { s with sends := env.sends } := .of_eq rfl rfl rfl rfl
  rw [step_replicaof env hc ht hn, answer_replicaof hn, Option.getD_some]
  by_cases hr : Command.executeReplicaof args = []
  · simp only [hr, true_and, if_true]
    exact hsends.nil_heard ((Heard.handleReplicaof hleave env c args).eraseRead c n)
  · simp only [hr, false_and, if_false]
    exact hsends.nil_heard ((Says.appendReply c _ _).heard.eraseRead c n)

structure LinkedTo (host : Bytes) (port : ℤ) (s : Server) : Prop where
  role : s.replInfo.role = .worker
  host : s.replInfo.masterHost = host
  port : s.replInfo.masterPort = port
  link : ∃ m link, s.masterClient = some m ∧ s.clients m = some link ∧ link.type = .masterConn

theorem linkedTo_congr (h : SameClients s t) (hinfo : t.replInfo = s.replInfo) :
    LinkedTo host port t ↔ LinkedTo host port s := by
  have hlink : (∃ m link, t.masterClient = some m ∧ t.clients m = some link ∧
      link.type = .masterConn) ↔
      ∃ m link, s.masterClient = some m ∧ s.clients m = some link ∧ link.type = .masterConn := by
    refine exists_congr (fun m ↦ ?_)
    rw [exists_and_left, exists_and_left, h.masterClient, h.typed_iff]
  constructor
  · rintro ⟨hr, hh, hp, hl⟩
    rw [hinfo] at hr hh hp
    exact ⟨hr, hh, hp, hlink.mp hl⟩
  · rintro ⟨hr, hh, hp, hl⟩
    rw [← hinfo] at hr hh hp
    exact ⟨hr, hh, hp, hlink.mpr hl⟩

theorem linkedTo_removeClient (hc : s.clients c = some client) (ht : client.type ≠ .masterConn) :
    LinkedTo host port (s.removeClient c) ↔ LinkedTo host port s := by
  have hinfo : (s.removeClient c).replInfo = s.replInfo :=
    congrArg Data.replInfo (data_removeClient c s)
  have hclients : (s.removeClient c).clients = update s.clients c none := by
    simp only [removeClient, hc]
  have hmaster : (s.removeClient c).masterClient =
      if s.masterClient = some c then none else s.masterClient := by
    simp only [removeClient, hc]
  constructor
  · rintro ⟨hr, hh, hp, m, link, hm, hl, htype⟩
    rw [hinfo] at hr hh hp
    have hne : m ≠ c := by
      rintro rfl
      rw [hclients, update_self] at hl
      cases hl
    rw [hclients, update_of_ne hne] at hl
    refine ⟨hr, hh, hp, m, link, ?_, hl, htype⟩
    rw [hmaster] at hm
    split at hm
    · cases hm
    · exact hm
  · rintro ⟨hr, hh, hp, m, link, hm, hl, htype⟩
    rw [← hinfo] at hr hh hp
    have hne : m ≠ c := by
      rintro rfl
      rw [hc] at hl
      cases hl
      exact ht htype
    refine ⟨hr, hh, hp, m, link, ?_, ?_, htype⟩
    · rw [hmaster, if_neg (fun h ↦ hne (Option.some.inj (hm.symm.trans h)))]
      exact hm
    · rw [hclients, update_of_ne hne]
      exact hl

theorem linkedTo_reply (hc : s.clients c = some client) (ht : client.type ≠ .masterConn)
    (response : Bytes) : LinkedTo host port (s.reply c response) ↔ LinkedTo host port s := by
  have hsome : (s.appendReply c response).clients c =
      some { client with writeBuf := client.writeBuf ++ response } := by
    simp [appendReply, mapClient, hc]
  rw [reply, trySend, hsome]
  dsimp only
  generalize sendLoop (s.appendReply c response).sends (client.writeBuf ++ response) = r
  have hsame := (appendReply_same c response s).trans (deliver_same c r.1 r.2.1 r.2.2.1 _)
  have hkept : ((s.appendReply c response).deliver c r.1 r.2.1 r.2.2.1).clients c =
      some { client with writeBuf := r.2.1 } := by
    simp [deliver, mapClient, hsome]
  split
  · rw [linkedTo_removeClient hkept ht]
    exact linkedTo_congr hsame rfl
  · exact linkedTo_congr hsame rfl

theorem handshakeFrom_linked (h : s.handshakeFrom env c host port = (t, none)) :
    LinkedTo host port t := by
  have hcon := handshakeFrom_connected env c host port s
  have hd : (demote c host port { s with sends := env.sends }).data = s.data.demote host port :=
    data_demote c host port { s with sends := env.sends }
  rw [h] at hcon
  cases hcon with
  | linked fd id n store leftover =>
    refine ⟨?_, ?_, ?_, _, _, rfl, update_self .., rfl⟩
    · exact congrArg (fun d : Data ↦ d.replInfo.role) hd
    · exact congrArg (fun d : Data ↦ d.replInfo.masterHost) hd
    · exact congrArg (fun d : Data ↦ d.replInfo.masterPort) hd

theorem handshakeFrom_unlinked {failure : Handshake.Failure}
    (h : s.handshakeFrom env c host port = (t, some failure)) : t.masterClient = none := by
  have hcon := handshakeFrom_connected env c host port s
  rw [h] at hcon
  cases hcon with
  | failed => exact demote_masterClient c host port { s with sends := env.sends }

/-- `replicaof_` is the address that a worker has in its replication info. -/
def KnowsMaster (s : Server) : Prop := ∀ host port, s.replicaof = some (host, port) →
  s.replInfo.role = .worker ∧ s.replInfo.masterHost = host ∧ s.replInfo.masterPort = port

theorem knowsMaster_step (h : KnowsMaster s) (e : Event) : KnowsMaster (step s e) := by
  change ∀ host port, s.data.replicaof = some (host, port) → s.data.replInfo.role = .worker ∧
    s.data.replInfo.masterHost = host ∧ s.data.replInfo.masterPort = port at h
  change ∀ host port, (step s e).data.replicaof = some (host, port) →
    (step s e).data.replInfo.role = .worker ∧
    (step s e).data.replInfo.masterHost = host ∧ (step s e).data.replInfo.masterPort = port
  have hd := step_dataStep s e
  generalize (step s e).data = d, written s e = cmds at hd ⊢
  cases hd with
  | same | rehash | sweep | sweepNext | link | replica | write => exact h
  | promote | reverted => exact nofun
  | linked env c host port hd t ht | terminated env c host port hd t ht =>
    obtain ⟨id, n, store, hdata⟩ := handshakeFrom_data ht
    rw [hdata]
    intro host' port' heq
    cases heq
    exact ⟨rfl, rfl, rfl⟩

theorem knowsMaster_of_reachable (h : Reachable s) : KnowsMaster s := by
  obtain ⟨s₀, es, h₀, rfl⟩ := h
  refine run_stable step (I := KnowsMaster) (fun s e hs ↦ knowsMaster_step hs e) ?_ es
  cases h₀ with
  | master replid => exact nofun
  | worker replid host port clk peer _ h =>
    obtain ⟨id, n, store, hd⟩ := data_connectToMaster h
    intro host' port' heq
    have hset : s₀.replicaof = some (host, port) := congrArg Data.replicaof hd
    have hinfo : s₀.replInfo = _ := congrArg Data.replInfo hd
    rw [hset] at heq
    cases heq
    rw [hinfo]
    exact ⟨rfl, rfl, rfl⟩

theorem replicaof_of_master (hs : Reachable s) (hr : s.replInfo.role = .master) :
    s.replicaof = none := by
  cases hset : s.replicaof with
  | none => rfl
  | some address =>
    have hworker := (knowsMaster_of_reachable hs _ _ hset).1
    rw [hr] at hworker
    cases hworker

/-- A server that has `replicaof_` set is linked to that master as long as it has a link. -/
theorem linkedTo_iff_link (hs : Reachable s) (hset : s.replicaof = some (host, port)) :
    LinkedTo host port s ↔ s.masterClient ≠ none := by
  obtain ⟨hrole, hhost, hport⟩ := knowsMaster_of_reachable hs _ _ hset
  constructor
  · rintro ⟨-, -, -, m, link, hm, -⟩
    rw [hm]
    exact Option.some_ne_none m
  · intro hlink
    obtain ⟨m, hm⟩ := Option.ne_none_iff_exists'.mp hlink
    obtain ⟨link, hl, htype⟩ := ((Consistent.of_reachable hs).master_iff m).mp hm
    exact ⟨hrole, hhost, hport, m, link, hm, hl, htype⟩

/-- The server has a link to the requested master already, or the peer admits it. -/
def Attaches (env : Env) (c : ClientId) (host : Bytes) (port : ℤ) (s : Server) : Prop :=
  if s.replicaof = some (host, port) then s.masterClient ≠ none
  else Admits (s.demotionPeer env c host port)

/-- What `handle_replicaof_set_master` leaves behind is a linked worker exactly when the server
attaches. -/
theorem linkedTo_setMaster (hs : Reachable s) (hc : s.clients c = some client)
    (ht : client.type = .regular) (env : Env) (host : Bytes) (port : ℤ) :
    LinkedTo host port (handleReplicaofSetMaster env.clock env.peer c host port
      { s with sends := env.sends }) ↔ Attaches env c host port s := by
  have hunlinked {t u : Server} (hm : t.masterClient = none)
      (hu : u.masterClient = t.masterClient) : ¬LinkedTo host port u := by
    rintro ⟨-, -, -, m, link, h, -⟩
    rw [hu, hm] at h
    cases h
  have h := handleReplicaofSetMaster_masterSet env.clock env.peer c host port
    { s with sends := env.sends }
  generalize handleReplicaofSetMaster env.clock env.peer c host port { s with sends := env.sends }
    = t at h ⊢
  unfold Attaches
  rw [← handshakeFrom_admits]
  cases h with
  | already h =>
    rw [if_pos h, linkedTo_reply (s := { s with sends := env.sends }) hc (by rw [ht]; exact nofun),
      ← linkedTo_iff_link hs h]
    exact linkedTo_congr ⟨rfl, fun _ ↦ rfl, rfl, fun _ ↦ rfl, rfl, rfl, .inl⟩ rfl
  | linked hne t h =>
    rw [if_neg hne]
    change s.handshakeFrom env c host port = (t, none) at h
    rw [h]
    exact iff_of_true (handshakeFrom_linked h) rfl
  | reverted hne t what h =>
    rw [if_neg hne]
    change s.handshakeFrom env c host port = (t, _) at h
    rw [h]
    exact iff_of_false (hunlinked (handshakeFrom_unlinked h) rfl) nofun
  | terminated hne t h =>
    rw [if_neg hne]
    change s.handshakeFrom env c host port = (t, _) at h
    rw [h]
    exact iff_of_false (hunlinked (handshakeFrom_unlinked h) rfl) nofun

theorem of_target (h : replicaofTarget args = some (host, port)) :
    ∃ name portText rest, args = name :: host :: portText :: rest ∧ stoi portText = .ok port ∧
      (toUpper host == ascii "NO" && toUpper portText == ascii "ONE") = false := by
  rcases args with _ | ⟨name, _ | ⟨host', _ | ⟨portText, rest⟩⟩⟩
  case cons.cons.cons =>
    simp only [replicaofTarget] at h
    split at h
    · cases h
    · next hno =>
      split at h
      · cases h
      · next n hport =>
        cases h
        exact ⟨name, portText, rest, rfl, hport, Bool.eq_false_iff.mpr hno⟩
  all_goals cases h

theorem handleReplicaof_of_target (h : replicaofTarget args = some (host, port)) (env : Env)
    (c : ClientId) (s : Server) : s.handleReplicaof env c args =
      s.handleReplicaofSetMaster env.clock env.peer c host port := by
  obtain ⟨name, portText, rest, rfl, hport, hno⟩ := of_target h
  simp only [handleReplicaof, hno, hport, Bool.false_eq_true, if_false]

/-- The controller takes every reply for a success that the command layer has let pass. -/
theorem replicaOf_answer (hn : commandName args = ascii "REPLICAOF")
    (h : replicaofTarget args = some (host, port)) (env : Env) (s : Server) :
    Controller.replicaOf (s.answer env args) = true ↔ Command.executeReplicaof args = [] := by
  obtain ⟨name, portText, rest, rfl, hport, hno⟩ := of_target h
  rw [answer_replicaof hn]
  by_cases hr : Command.executeReplicaof (name :: host :: portText :: rest) = []
  · rw [if_pos hr]
    refine iff_of_true ?_ hr
    simp only [replicaofAnswer, hno, hport, Bool.false_eq_true, if_false]
    split <;> decide
  · rw [if_neg hr]
    refine iff_of_false ?_ hr
    cases rest with
    | nil =>
      simp only [Command.executeReplicaof, hno, hport, Bool.false_eq_true, if_false] at hr ⊢
      split
      · decide
      · next hrange =>
        rw [if_neg hrange] at hr
        exact absurd rfl hr
    | cons word rest =>
      have herror : Command.executeReplicaof (name :: host :: portText :: word :: rest) =
          ascii "-ERR wrong number of arguments for 'replicaof' command\r\n" := rfl
      rw [herror]
      decide

/-- A `REPLICAOF host port` is answered `+OK` before its outcome is known: the reply tells the
truth exactly when the server has a link to that master already or the peer admits it. -/
theorem ok_means_linked_iff (s : Server) (env : Env) (c : ClientId) (client : Client)
    (args : List Bytes) (n : ℕ) (host : Bytes) (port : ℤ) (hs : Reachable s)
    (hc : Receives s c client args n)
    (ht : client.type = .regular) (hn : commandName args = ascii "REPLICAOF")
    (htarget : replicaofTarget args = some (host, port)) :
    (∃ replies, Heard replies (only c ((s.answer env args).getD [])) s (step s (.process env))) ∧
    (Controller.replicaOf (s.answer env args) = true ↔ Command.executeReplicaof args = []) ∧
    ((Controller.replicaOf (s.answer env args) = true →
        LinkedTo host port (step s (.process env))) ↔
      (Command.executeReplicaof args = [] → Attaches env c host port s)) := by
  have hreply := replicaOf_answer hn htarget env s
  obtain ⟨replies, hleave⟩ := Says.leaveMasterRole { s with sends := env.sends }
  refine ⟨⟨_, heard_replicaof env hleave hc ht hn⟩, hreply, ?_⟩
  rw [hreply]
  refine forall_congr' (fun hr ↦ ?_)
  rw [step_replicaof env hc ht hn, if_pos hr, handleReplicaof_of_target htarget,
    linkedTo_congr (eraseRead_same c n _) (congrArg Data.replInfo (data_eraseRead c n _))]
  exact linkedTo_setMaster hs hc.connected ht env host port

def followRun (port : String) : List Event :=
  [.accept 5, .recv 0 (Resp.encodeArray [ascii "REPLICAOF", ascii "localhost", ascii port])]

theorem ok_means_linked_to_peer :
    LinkedTo (ascii "localhost") 6379 (step (run step (init sampleId) (followRun "6379"))
      (.process { Env.quiet 0 with peer := samplePeer })) := by
  have hend : (run step (init sampleId) (followRun "6379")).pc = .reading 0 ∧
      (run step (init sampleId) (followRun "6379")).clients 0 = some {
        fd := 5
        type := .regular
        readBuf := Resp.encodeArray [ascii "REPLICAOF", ascii "localhost", ascii "6379"] } ∧
      (run step (init sampleId) (followRun "6379")).replicaof ≠ some (ascii "localhost", 6379) ∧
      ((run step (init sampleId) (followRun "6379")).handshakeFrom
        { Env.quiet 0 with peer := samplePeer } 0 (ascii "localhost") 6379).2 = none := by
    decide +kernel
  obtain ⟨hpc, hclient, hne, hshake⟩ := hend
  obtain ⟨-, hreply, hiff⟩ := ok_means_linked_iff _ { Env.quiet 0 with peer := samplePeer } 0 _
    [ascii "REPLICAOF", ascii "localhost", ascii "6379"] 44 (ascii "localhost") 6379
    ⟨_, _, .master sampleId, rfl⟩ ⟨hpc, hclient, by decide +kernel, by decide⟩ rfl rfl
    (by decide +kernel)
  refine hiff.mpr (fun _ ↦ ?_) (hreply.mpr (by decide +kernel))
  rw [Attaches, if_neg hne]
  exact handshakeFrom_admits.mp hshake

def staleRun : List Event :=
  [.hangup 0, .accept 5] ++
    request 1 [ascii "REPLICAOF", ascii "localhost", ascii "6379"]
      { Env.quiet 0 with peer := samplePeer }

/-- The master would be there, yet the worker answers `+OK` and does not try to get its link
back. -/
theorem ok_without_link :
    Initial sampleWorker ∧
      (run step sampleWorker staleRun).outbound 1 =
        ascii "+OK Already connected to specified master\r\n" ∧
      Controller.replicaOf (some ((run step sampleWorker staleRun).outbound 1)) = true ∧
      (run step sampleWorker staleRun).pc = .idle ∧
      ¬LinkedTo (ascii "localhost") 6379 (run step sampleWorker staleRun) := by
  have hend : (run step sampleWorker staleRun).outbound 1 =
        ascii "+OK Already connected to specified master\r\n" ∧
      Controller.replicaOf (some ((run step sampleWorker staleRun).outbound 1)) = true ∧
      (run step sampleWorker staleRun).pc = .idle ∧
      (run step sampleWorker staleRun).masterClient = none := by
    decide +kernel
  obtain ⟨hreply, hok, hidle, hnone⟩ := hend
  refine ⟨sampleWorker_initial, hreply, hok, hidle, ?_⟩
  rintro ⟨-, -, -, m, link, hm, -⟩
  rw [hnone] at hm
  cases hm

/-- A master as it was, apart from its replicas and its parked waits. -/
structure Unharmed (s t : Server) : Prop where
  role : t.replInfo.role = .master
  replid : t.replInfo.masterReplid = s.replInfo.masterReplid
  replid2 : t.replInfo.masterReplid2 = s.replInfo.masterReplid2
  second : t.replInfo.secondReplOffset = s.replInfo.secondReplOffset
  offset : t.masterReplOffset = s.masterReplOffset
  infoOffset : t.replInfo.masterReplOffset = s.replInfo.masterReplOffset
  backlog : t.backlog = s.backlog
  store : t.store = s.store

/-- The data after a `REPLICAOF` whose handshake fails, with an exception that is caught or in
another way. -/
theorem data_step_failed {failure : Failure} (hc : Receives s c client args n)
    (ht : client.type = .regular) (hn : commandName args = ascii "REPLICAOF")
    (htarget : replicaofTarget args = some (host, port)) (hok : Command.executeReplicaof args = [])
    (hne : s.replicaof ≠ some (host, port))
    (h : s.handshakeFrom env c host port = (t, some failure)) :
    (step s (.process env)).data =
      match failure with
      | .runtimeError _ => t.data.revert
      | _ => t.data := by
  change connectToMaster env.clock env.peer host port
    (demote c host port { s with sends := env.sends }) = _ at h
  rw [step_replicaof env hc ht hn, if_pos hok, data_eraseRead, handleReplicaof_of_target htarget,
    handleReplicaofSetMaster, if_neg hne, h]
  cases failure <;> rfl

theorem not_unharmed_of_fatal {failure : Failure} {u : Server}
    (hf : s.handshakeFrom env c host port = (t, some failure)) (hu : u.data = t.data) :
    ¬Unharmed s u := by
  intro h
  have hrole : u.replInfo.role = t.replInfo.role :=
    congrArg (fun d : Data ↦ d.replInfo.role) hu
  have hworker : t.replInfo.role = .worker := handshakeFrom_role hf
  rw [h.role, hworker] at hrole
  cases hrole

/-- A master again, with the ID and the offset that the handshake has come to. -/
theorem reverted_data {failure : Failure} {u : Server} (hr : s.replInfo.role = .master)
    (hf : s.handshakeFrom env c host port = (t, some failure)) (hu : u.data = t.data.revert) :
    u.replInfo = { s.replInfo with
        role := .master
        masterReplid := t.replInfo.masterReplid
        masterReplOffset := t.replInfo.masterReplOffset
        masterHost := []
        masterPort := 0 } ∧
      u.masterReplOffset = 0 ∧ u.backlog = s.backlog ∧ u.store = s.store := by
  obtain ⟨id, m, hfailed⟩ := handshakeFrom_failed hf
  have hid : t.replInfo.masterReplid = id :=
    congrArg (fun d : Data ↦ d.replInfo.masterReplid) hfailed
  have hoffset : t.replInfo.masterReplOffset = m :=
    congrArg (fun d : Data ↦ d.replInfo.masterReplOffset) hfailed
  rw [hfailed] at hu
  refine ⟨?_, ?_, congrArg Data.backlog hu, congrArg Data.store hu⟩
  · rw [hid, hoffset]
    exact congrArg Data.replInfo hu
  · have h := congrArg Data.masterReplOffset hu
    change u.masterReplOffset = if s.replInfo.role = .master then 0 else s.masterReplOffset at h
    rwa [if_pos hr] at h

/-- Such a master is the one it was exactly when its offset was zero and ID and offset are still
its own. -/
theorem unharmed_reverted_iff {failure : Failure} {u : Server} (hr : s.replInfo.role = .master)
    (hf : s.handshakeFrom env c host port = (t, some failure)) (hu : u.data = t.data.revert) :
    Unharmed s u ↔ s.masterReplOffset = 0 ∧ t.replInfo.masterReplid = s.replInfo.masterReplid ∧
      t.replInfo.masterReplOffset = s.replInfo.masterReplOffset := by
  obtain ⟨hinfo, hzero, hbacklog, hstore⟩ := reverted_data hr hf hu
  constructor
  · rintro ⟨-, hreplid, -, -, hsame, hinfoOffset, -, -⟩
    rw [hinfo] at hreplid hinfoOffset
    exact ⟨hsame.symm.trans hzero, hreplid, hinfoOffset⟩
  · rintro ⟨hsame, hreplid, hinfoOffset⟩
    refine ⟨by rw [hinfo], ?_, by rw [hinfo], by rw [hinfo], hzero.trans hsame.symm, ?_, hbacklog,
      hstore⟩
    · rw [hinfo]
      exact hreplid
    · rw [hinfo]
      exact hinfoOffset

/-- The handshake leaves ID and offset of the server as they were exactly when the peer announces
these, or announces none and the offset was zero. -/
theorem handshakeFrom_kept_iff {failure : Failure}
    (hf : s.handshakeFrom env c host port = (t, some failure))
    (hsurvives : Survives (s.demotionPeer env c host port)) :
    (t.replInfo.masterReplid = s.replInfo.masterReplid ∧
      t.replInfo.masterReplOffset = s.replInfo.masterReplOffset) ↔
    (∀ id k, Announces (s.demotionPeer env c host port) id k →
        id = s.replInfo.masterReplid ∧ k = s.replInfo.masterReplOffset) ∧
      ((∀ id k, ¬Announces (s.demotionPeer env c host port) id k) →
        s.replInfo.masterReplOffset = 0) := by
  rcases handshakeFrom_announced hf hsurvives with hann | ⟨hnone, hid, hzero⟩
  · constructor
    · intro hkept
      refine ⟨fun id k h ↦ ?_, fun h ↦ absurd hann (h _ _)⟩
      obtain ⟨rfl, rfl⟩ := hann.unique h
      exact hkept
    · exact fun h ↦ h.1 _ _ hann
  · rw [hzero]
    constructor
    · exact fun hkept ↦ ⟨fun id k h ↦ absurd h (hnone id k), fun _ ↦ hkept.2.symm⟩
    · exact fun h ↦ ⟨hid, (h.2 hnone).symm⟩

/-- A master that is not admitted keeps its store, its backlog and its former identity, if it
survives. It is the master it was exactly when its offset was zero and the peer has announced no
other ID or offset. -/
theorem failed_demotion_unharmed_iff (s : Server) (env : Env) (c : ClientId) (client : Client)
    (args : List Bytes) (n : ℕ) (host : Bytes) (port : ℤ) (hs : Reachable s)
    (hr : s.replInfo.role = .master) (hc : Receives s c client args n)
    (ht : client.type = .regular) (hn : commandName args = ascii "REPLICAOF")
    (htarget : replicaofTarget args = some (host, port)) (hok : Command.executeReplicaof args = [])
    (hnot : ¬Admits (s.demotionPeer env c host port)) :
    (Survives (s.demotionPeer env c host port) →
      (step s (.process env)).replInfo.role = .master ∧
      (step s (.process env)).replInfo.masterReplid2 = s.replInfo.masterReplid2 ∧
      (step s (.process env)).replInfo.secondReplOffset = s.replInfo.secondReplOffset ∧
      (step s (.process env)).backlog = s.backlog ∧ (step s (.process env)).store = s.store) ∧
    (Unharmed s (step s (.process env)) ↔
      Survives (s.demotionPeer env c host port) ∧ s.masterReplOffset = 0 ∧
      (∀ id k, Announces (s.demotionPeer env c host port) id k →
        id = s.replInfo.masterReplid ∧ k = s.replInfo.masterReplOffset) ∧
      ((∀ id k, ¬Announces (s.demotionPeer env c host port) id k) →
        s.replInfo.masterReplOffset = 0)) := by
  have hne : s.replicaof ≠ some (host, port) := by
    rw [replicaof_of_master hs hr]
    exact nofun
  generalize hf : s.handshakeFrom env c host port = out
  obtain ⟨t, failure⟩ := out
  cases failure with
  | none =>
    rw [← handshakeFrom_admits, hf] at hnot
    exact absurd rfl hnot
  | some failure =>
    have hdata := data_step_failed hc ht hn htarget hok hne hf
    have hcaught := handshakeFrom_failure hf
    rw [← hcaught]
    cases failure with
    | uncaught | sigpipe =>
      exact ⟨False.elim, iff_of_false (not_unharmed_of_fatal hf hdata) (fun h ↦ h.1)⟩
    | runtimeError what =>
      obtain ⟨hinfo, -, hbacklog, hstore⟩ := reverted_data hr hf hdata
      refine ⟨fun _ ↦ ⟨by rw [hinfo], by rw [hinfo], by rw [hinfo], hbacklog, hstore⟩, ?_⟩
      rw [unharmed_reverted_iff hr hf hdata, handshakeFrom_kept_iff hf (hcaught.mp trivial)]
      exact (and_iff_right trivial).symm

/-- A fresh master that gets no socket is a fresh master again. -/
theorem failed_demotion_of_fresh_master :
    Unharmed (run step (init sampleId) (followRun "1"))
      (step (run step (init sampleId) (followRun "1")) (.process (.quiet 0))) := by
  have hend : (run step (init sampleId) (followRun "1")).pc = .reading 0 ∧
      (run step (init sampleId) (followRun "1")).clients 0 = some {
        fd := 5
        type := .regular
        readBuf := Resp.encodeArray [ascii "REPLICAOF", ascii "localhost", ascii "1"] } ∧
      (run step (init sampleId) (followRun "1")).replInfo = (init sampleId).replInfo ∧
      (run step (init sampleId) (followRun "1")).masterReplOffset = 0 := by
    decide +kernel
  obtain ⟨hpc, hclient, hinfo, hoffset⟩ := hend
  have hunasked {i : ℕ} : ¬Asked ((run step (init sampleId) (followRun "1")).demotionPeer (.quiet 0)
      0 (ascii "localhost") 1) i := fun h ↦ h.socket rfl
  refine (failed_demotion_unharmed_iff _ (.quiet 0) 0 _
    [ascii "REPLICAOF", ascii "localhost", ascii "1"] 41 (ascii "localhost") 1
    ⟨_, _, .master sampleId, rfl⟩ (by rw [hinfo]; rfl) ⟨hpc, hclient, by decide +kernel, by decide⟩
    rfl rfl (by decide +kernel) (by decide +kernel) ?_).2.mpr ?_
  · rintro ⟨first, recvs, hans, -⟩
    exact hunasked hans.asked
  · refine ⟨⟨fun i _ h ↦ absurd h hunasked, fun first recvs h ↦ absurd h.asked hunasked⟩, hoffset,
      fun id k ⟨first, recvs, digits, h, _⟩ ↦ absurd h.asked hunasked, fun _ ↦ ?_⟩
    rw [hinfo]
    rfl

/-- After one write the same failure puts both offsets back to zero; and a handshake that breaks
off behind the `+FULLRESYNC` line leaves the other side's ID and offset. -/
theorem failed_demotion_loses_offsets :
    ((run step (init sampleId) ([.accept 5] ++
        request 0 [ascii "SET", ascii "k", ascii "v"] (.quiet 0))).masterReplOffset = 27 ∧
      (run step (init sampleId) ([.accept 5] ++
        request 0 [ascii "SET", ascii "k", ascii "v"] (.quiet 0) ++
        request 0 [ascii "REPLICAOF", ascii "localhost", ascii "1"] (.quiet 1))).replInfo.role =
          .master ∧
      (run step (init sampleId) ([.accept 5] ++
        request 0 [ascii "SET", ascii "k", ascii "v"] (.quiet 0) ++
        request 0 [ascii "REPLICAOF", ascii "localhost", ascii "1"] (.quiet 1))).masterReplOffset =
          0) ∧
    ((step (run step (init sampleId) (followRun "1")) (.process { Env.quiet 0 with
        peer := { socket := some 6, recvs := [ascii "+PONG\r\n", ascii "+OK\r\n", ascii "+OK\r\n",
          ascii "+FULLRESYNC 1 9\r\n"] } })).replInfo =
      { role := .master, masterReplid := ascii "1", masterReplOffset := 9 }) := by
  decide +kernel

end RedisLite.Server
