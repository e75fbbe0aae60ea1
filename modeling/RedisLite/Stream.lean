import RedisLite.Propagation
import RedisLite.Replies

namespace RedisLite.Server

open Function Lib.Run

variable {s t : Server} {c d : ClientId} {ds : List ClientId}

def broadcast (args : List Bytes) (s : Server) : List (List Bytes) :=
  if Command.isWrite args then [args]
  else if commandName args = ascii "WAIT" ∧ Command.executeWait args = [] ∧ s.parks args then
    [Command.getack]
  else []

def streamed (s : Server) (e : Event) : List (List Bytes) :=
  match e, s.pc with
  | .process _, .reading c =>
    match s.clients c with
    | some client =>
      if client.type = .regular then ((Resp.next client.readBuf).map (s.broadcast ·.1)).getD []
      else []
    | none => []
  | .sweepNext, .sweeping => (s.unswept.take 1).map (fun key ↦ [ascii "DEL", key])
  | _, _ => []

/-- A step of a run without failing sends, without a replica hanging up and without a
change of role. -/
def Calm (s : Server) : Event → Prop
  | .hangup c => ∀ client, s.clients c = some client → client.type ≠ .replica
  | .writable _ sends => NoError sends
  | .timeouts _ sends => NoError sends
  | .process env => NoError env.sends ∧ ∀ c host port, ¬Demotes s c host port
  | .writerStep result => result ≠ .error
  | _ => True

instance (s : Server) : ∀ e, Decidable (Calm s e)
  | .hangup c => inferInstanceAs (Decidable (∀ client ∈ s.clients c, client.type ≠ .replica))
  | .writable _ sends => inferInstanceAs (Decidable (NoError sends))
  | .timeouts _ sends => inferInstanceAs (Decidable (NoError sends))
  | .process env => decidable_of_iff _ (and_congr_right (fun _ ↦ not_demotes_iff env))
  | .writerStep result => inferInstanceAs (Decidable (result ≠ .error))
  | .accept _ | .recv _ _ | .sweep _ | .sweepNext | .rehash _ | .writerSwap _ => .isTrue trivial

def NoneRemoved (s : Server) : Prop :=
  ∀ c queue, s.replQueues c = some queue → queue.removed = false

structure Serving (s : Server) : Prop where
  consistent : Consistent s
  role : s.replInfo.role = .master
  registered : NoneRemoved s

inductive Ran (env : Env) (c : ClientId) (type : ClientType) (args : List Bytes) (s : Server) :
    Server → Prop
  | acked (ht : type = .replica) (n : ℤ) (hn : ackOf args = some n) : Ran env c type args s
      (s.mapClient c (fun client ↦ { client with ackOffset := n })).resolvePendingWaits
  | ignored (ht : type = .replica) (hn : ackOf args = none) : Ran env c type args s s
  | write (ht : type = .regular) (hw : Command.isWrite args = true) (response : Bytes) :
    Ran env c type args s ((s.appendReply c response).trackWrite args)
  | waited (ht : type = .regular) (hw : Command.isWrite args = false)
    (hn : commandName args = ascii "WAIT") (hr : Command.executeWait args = []) (t : Server)
    (h : Waited env.clock.steady c args s t) : Ran env c type args s t
  | psync (ht : type = .regular) (hw : Command.isWrite args = false)
    (hn : commandName args = ascii "PSYNC") (data : Bytes) :
    Ran env c type args s (s.addReplica c data)
  | replied (ht : type = .regular) (hb : s.broadcast args = []) (response : Bytes) :
    Ran env c type args s (s.reply c response)
  | buffered (ht : type = .regular) (hb : s.broadcast args = []) (response : Bytes) :
    Ran env c type args s (s.appendReply c response)
  | skipped (ht : type = .regular) (hb : s.broadcast args = []) : Ran env c type args s s

theorem ran_handleReplicaRead (env : Env) (c : ClientId) (args : List Bytes) (s : Server) :
    Ran env c .replica args s (s.handleReplicaRead c args) := by
  unfold handleReplicaRead
  split
  · next name sub offset _ =>
    split
    · next h =>
      split
      · next herr => exact .ignored rfl (by simp [ackOf, h, herr])
      · next n hok => exact .acked rfl n (by simp [ackOf, h, hok])
    · next h => exact .ignored rfl (by simp [ackOf, h])
  · next h =>
    refine .ignored rfl ?_
    unfold ackOf
    split
    · exact (h _ _ _ _ rfl).elim
    · rfl

theorem broadcast_of_name {args : List Bytes} (hw : Command.isWrite args = false)
    (hn : commandName args = ascii "WAIT" → Command.executeWait args ≠ []) (s : Server) :
    s.broadcast args = [] := by
  unfold broadcast
  rw [if_neg (by rw [hw]; decide), if_neg (fun h ↦ hn h.1 h.2.1)]

theorem ran_replicaof (env : Env) (c : ClientId) {args : List Bytes}
    (hr : s.replInfo.role = .master) (hw : Command.isWrite args = false)
    (hn : commandName args = ascii "REPLICAOF")
    (hd : ∀ host port, replicaofTarget args = some (host, port) → s.replicaof = some (host, port)) :
    Ran env c .regular args s (s.handleReplicaof env c args) := by
  have hb : s.broadcast args = [] :=
    broadcast_of_name hw (fun h ↦ absurd (hn.symm.trans h) (by decide)) s
  have h := handleReplicaof_demoted env c args s
  generalize s.handleReplicaof env c args = t at h ⊢
  cases h with
  | noOne =>
    unfold handleReplicaofNoOne
    rw [if_pos hr]
    exact .replied rfl hb _
  | refused response => exact .replied rfl hb response
  | ignored => exact .skipped rfl hb
  | setMaster host port htarget =>
    unfold handleReplicaofSetMaster
    rw [if_pos (hd host port htarget)]
    exact .replied rfl hb _

theorem ran_runCommand (env : Env) {client : Client} {args : List Bytes} {n : ℕ} (hs : Serving s)
    (hc : Receives s c client args n) (hd : ∀ c host port, ¬Demotes s c host port) :
    Ran env c client.type args { s with
      sends := env.sends
      store := (Command.execute env.clock.steady args s.store s.replInfo false).2 }
      (s.runCommand env c client args n) := by
  unfold runCommand dispatch
  dsimp only
  split
  · next ht =>
    have hrole := role_of_link hs.consistent hc.connected ht
    rw [hs.role] at hrole
    cases hrole
  · next ht =>
    rw [ht]
    exact ran_handleReplicaRead env c args _
  · next ht =>
    have hfrom : (client.type == .masterConn) = false := by rw [ht]; rfl
    rw [hfrom, ht]
    have h := handleRegular_handled env c args
      (Command.execute env.clock.steady args s.store s.replInfo false).1 { s with
        sends := env.sends
        store := (Command.execute env.clock.steady args s.store s.replInfo false).2 }
    generalize handleRegular env c args _ _ = t at h ⊢
    cases h with
    | write hw => exact .write rfl hw _
    | wait hw hn hr =>
      rw [execute_wait hn] at hr
      exact .waited rfl hw hn hr _ (handleWait_waited ..)
    | psync hw hn =>
      unfold handlePsync
      dsimp only
      split <;> exact .psync rfl hw hn _
    | plain hw hn =>
      refine .buffered rfl (broadcast_of_name hw (fun hname ↦ ?_) _) _
      rw [← execute_wait hname]
      exact hn hname
    | replicaof hw hn =>
      refine ran_replicaof env c hs.role hw hn (fun host port htarget ↦ ?_)
      by_contra hne
      exact hd c host port ⟨⟨client, args, n, hc, ht, hn, htarget⟩, hne⟩

namespace NoneRemoved

theorem of_queues (hs : NoneRemoved s) (h : t.replQueues = s.replQueues) : NoneRemoved t :=
  fun c queue hq ↦ hs c queue (h ▸ hq)

theorem mapQueues (hs : NoneRemoved s) (f : ClientId → ReplicaWriteQueue → ReplicaWriteQueue)
    (hf : ∀ c queue, queue.removed = false → (f c queue).removed = false)
    (h : ∀ c, t.replQueues c = (s.replQueues c).map (f c)) : NoneRemoved t := by
  intro c queue hq
  rw [h c] at hq
  obtain ⟨queue', hq', rfl⟩ := Option.map_eq_some_iff.mp hq
  exact hf c queue' (hs c queue' hq')

theorem propagate (hs : NoneRemoved s) (data : Bytes) :
    NoneRemoved (s.propagateToReplicas data) := by
  unfold propagateToReplicas
  split
  · exact hs
  · refine hs.mapQueues _ (fun c queue hr ↦ ?_) (fun _ ↦ rfl)
    rw [if_neg (by rw [hr]; decide)]
    exact hr

theorem addReplica (hs : NoneRemoved s) (c : ClientId) (data : Bytes) :
    NoneRemoved (s.addReplica c data) := by
  intro d queue hq
  by_cases h : d = c
  · subst h
    simp only [Server.addReplica, update_self, Option.map_eq_some_iff] at hq
    obtain ⟨_, -, rfl⟩ := hq
    rfl
  · simp only [Server.addReplica, update_of_ne h] at hq
    exact hs d queue hq

theorem setDraining (hs : NoneRemoved s) (c : ClientId) (draining : Bytes) :
    NoneRemoved (s.setDraining c draining) := by
  intro d queue hq
  by_cases h : d = c
  · subst h
    simp only [Server.setDraining, update_self, Option.map_eq_some_iff] at hq
    obtain ⟨queue', hq', rfl⟩ := hq
    exact hs d queue' hq'
  · simp only [Server.setDraining, update_of_ne h] at hq
    exact hs d queue hq

theorem waited {now : TimePoint} {args : List Bytes} (hs : NoneRemoved s) (hsends : NoError s.sends)
    (h : Waited now c args s t) : NoneRemoved t := by
  cases h with
  | replied count => exact hs.of_queues (Answers.replyWait hsends (List.mem_singleton_self c) _ _).queues
  | refused response =>
    exact hs.of_queues (Answers.reply hsends (List.mem_singleton_self c) response).queues
  | ignored => exact hs
  | parked => exact hs.propagate _

theorem ran {env : Env} {type : ClientType} {args : List Bytes} (hs : NoneRemoved s)
    (hsends : NoError s.sends) (h : Ran env c type args s t) : NoneRemoved t := by
  cases h with
  | acked ht n =>
    exact hs.of_queues (Answers.settleAll _
      (s := s.mapClient c (fun client ↦ { client with ackOffset := n })) hsends).queues
  | ignored => exact hs
  | write _ _ response =>
    unfold trackWrite
    refine NoneRemoved.propagate ?_ _
    exact hs.of_queues rfl
  | waited _ _ _ _ t hwaited => exact hs.waited hsends hwaited
  | psync _ _ _ data => exact hs.addReplica c data
  | replied _ _ response =>
    exact hs.of_queues (Answers.reply hsends (List.mem_singleton_self c) response).queues
  | buffered => exact hs.of_queues rfl
  | skipped => exact hs

theorem writerStep (hs : NoneRemoved s) (result : SendResult) : NoneRemoved (s.writerStep result) := by
  unfold Server.writerStep
  split
  · exact hs
  · split
    · exact hs
    · split
      · split <;> exact hs
      · split
        · exact hs
        · split
          · exact (hs.setDraining _ _).of_queues rfl
          · exact hs
          · exact (hs.setDraining _ _).of_queues rfl

theorem step {e : Event} (hs : Serving s) (hcalm : Calm s e) : NoneRemoved (step s e) := by
  have h := step_outcome s e
  generalize Server.step s e = t at h ⊢
  have hnone := hs.registered
  cases h with
  | accept fd =>
    unfold handleAccept
    split <;> exact hnone
  | recv c data =>
    unfold handleRecv
    split <;> exact hnone
  | hangup c =>
    unfold removeClient
    split
    · exact hnone
    · next client hc =>
      have hq : s.replQueues c = none := by
        cases hq : s.replQueues c with
        | none => rfl
        | some queue =>
          have hmem := (hs.consistent.queue_iff c).mpr ⟨queue, hq, hnone c queue hq⟩
          obtain ⟨client', hc', ht⟩ := (hs.consistent.replica_iff c).mp hmem
          exact absurd ht (hcalm client' hc')
      refine hnone.of_queues ?_
      simp only [hq, Option.map_none]
      rw [← hq, update_eq_self]
  | writable c sends =>
    exact hnone.of_queues
      (Answers.trySend (s := { s with sends := sends }) hcalm (List.mem_singleton_self c)).queues
  | process env c hpc =>
    have h := processCommand_processed env c s
    generalize s.processCommand env c = t at h ⊢
    cases h with
    | gone => exact hnone
    | done client =>
      unfold finishRead
      dsimp only
      split
      · exact hnone
      · exact hnone.of_queues (Answers.trySend (s := { s with sends := env.sends, pc := .idle })
          hcalm.1 (List.mem_singleton_self c)).queues
    | command client hc args n hp hn =>
      have hran := ran_runCommand env hs ⟨hpc, hc, hp, hn⟩ hcalm.2
      refine NoneRemoved.of_queues ?_ (eraseRead_queues c n _)
      exact NoneRemoved.ran (s := { s with
        sends := env.sends
        store := (Command.execute env.clock.steady args s.store s.replInfo false).2 })
        hnone hcalm.1 hran
  | timeouts now sends =>
    exact hnone.of_queues (Answers.settleAll _ (s := { s with sends := sends }) hcalm).queues
  | sweep now =>
    unfold startSweep
    split <;> exact hnone
  | sweepNext =>
    unfold continueSweep
    split
    · exact hnone
    · next key keys _ =>
      have hkey : NoneRemoved (s.sweepKey key) := by
        refine NoneRemoved.propagate ?_ _
        exact hnone.of_queues rfl
      exact hkey.of_queues rfl
  | rehash items => exact hnone
  | writerSwap order =>
    refine hnone.mapQueues (fun _ ↦ swapQueue) (fun c queue hr ↦ ?_) (fun _ ↦ rfl)
    unfold swapQueue
    rw [if_neg (by rw [hr]; decide)]
    exact hr
  | writerStep result => exact hnone.writerStep result
  | skip => exact hnone

end NoneRemoved

theorem streamed_process {env : Env} {client : Client} {args : List Bytes} {n : ℕ}
    (hc : Receives s c client args n) : streamed s (.process env) =
      if client.type = .regular then s.broadcast args else [] := by
  simp only [streamed, hc.pc, hc.connected, hc.next, Option.map_some, Option.getD_some]

/-- The connection of a replica that is fed by the writer thread alone: `bytes` have
been sent, are being sent or are waiting. -/
structure Link (s : Server) (c : ClientId) (client : Client) (bytes : Bytes) : Prop where
  connected : s.clients c = some client
  type : client.type = .replica
  unbuffered : client.writeBuf = []
  queue : ∃ queue, Registered s c queue ∧ s.wire c ++ queue.draining ++ queue.pending = bytes
  waits : ∀ wait ∈ s.pendingWaits, wait.client ≠ c

namespace Link

variable {client : Client} {bytes : Bytes}

theorem of_eq (hl : Link s c client bytes) (hc : t.clients c = s.clients c)
    (hq : t.replQueues c = s.replQueues c) (hw : t.wire c = s.wire c)
    (hp : ∀ wait ∈ t.pendingWaits, wait.client ≠ c) : Link t c client bytes where
  connected := hc.trans hl.connected
  type := hl.type
  unbuffered := hl.unbuffered
  queue := by
    unfold Registered
    rw [hq, hw]
    exact hl.queue
  waits := hp

theorem answers (hl : Link s c client bytes) (h : Answers ds s t) (hc : c ∉ ds)
    (hp : ∀ wait ∈ t.pendingWaits, wait.client ≠ c) : Link t c client bytes :=
  hl.of_eq (h.client c hc) (congrFun h.queues c) (h.wire c hc) hp

theorem settleAll (hl : Link s c client bytes) (due : WaitState → ℕ → Bool)
    (hs : NoError s.sends) : Link (settleWaits due [] s.pendingWaits s) c client bytes := by
  refine hl.answers (Answers.settleAll due hs) (fun hmem ↦ ?_) ?_
  · obtain ⟨wait, hw, he⟩ := List.mem_map.mp hmem
    exact hl.waits wait hw he
  · exact settleWaits_waits _ _ _ (fun _ h ↦ absurd h List.not_mem_nil) hl.waits hl.waits

theorem mapClient (hl : Link s c client bytes) (d : ClientId) (f : Client → Client)
    (hf : ∀ client, (f client).type = client.type ∧ (f client).writeBuf = client.writeBuf) :
    Link (s.mapClient d f) c (if c = d then f client else client) bytes := by
  by_cases h : c = d
  · subst h
    rw [if_pos rfl]
    exact ⟨by simp [Server.mapClient, hl.connected], (hf client).1.trans hl.type,
      (hf client).2.trans hl.unbuffered, hl.queue, hl.waits⟩
  · rw [if_neg h]
    exact hl.of_eq (update_of_ne h ..) rfl rfl hl.waits

theorem propagate (hl : Link s c client bytes) (hs : Consistent s) (data : Bytes) :
    Link (s.propagateToReplicas data) c client (bytes ++ data) := by
  have hsame : (s.propagateToReplicas data).clients = s.clients ∧
      (s.propagateToReplicas data).wire = s.wire ∧
      (s.propagateToReplicas data).pendingWaits = s.pendingWaits := by
    unfold propagateToReplicas
    split <;> exact ⟨rfl, rfl, rfl⟩
  obtain ⟨queue, hq, rfl⟩ := hl.queue
  refine ⟨hsame.1 ▸ hl.connected, hl.type, hl.unbuffered,
    ⟨_, ⟨propagate_registered hs hq data, hq.2⟩, ?_⟩, hsame.2.2 ▸ hl.waits⟩
  rw [hsame.2.1]
  simp only [List.append_assoc]

theorem eraseRead (hl : Link s c client bytes) (d : ClientId) (n : ℕ) :
    ∃ client', Link (s.eraseRead d n) c client' bytes ∧ (client' = client ∨
      c = d ∧ client' = { client with readBuf := client.readBuf.drop n }) := by
  unfold Server.eraseRead
  split
  · exact ⟨client, hl, .inl rfl⟩
  · split
    · exact ⟨client, hl.of_eq rfl rfl rfl hl.waits, .inl rfl⟩
    · refine ⟨_, hl.mapClient d _ (fun _ ↦ ⟨rfl, rfl⟩), ?_⟩
      by_cases h : c = d
      · rw [if_pos h]
        exact .inr ⟨h, rfl⟩
      · rw [if_neg h]
        exact .inl rfl

end Link

/-- What a step does to a replica's connection, apart from feeding it. An
acknowledgement stays in the buffer when the process breaks down over the waits that
it resolves. -/
inductive Served (s : Server) (c : ClientId) (client : Client) : Event → Client → Prop
  | same (e : Event) : Served s c client e client
  | recv (data : Bytes) :
    Served s c client (.recv c data) { client with readBuf := client.readBuf ++ data }
  | command (env : Env) (args : List Bytes) (n : ℕ) (hc : Receives s c client args n)
    (left : Bytes) (hleft : left = client.readBuf ∨ left = client.readBuf.drop n) :
    Served s c client (.process env) { client with
      readBuf := left, ackOffset := (ackOf args).getD client.ackOffset }

namespace Link

variable {client : Client} {bytes : Bytes}

theorem waited {now : TimePoint} {args : List Bytes} (hl : Link s c client bytes)
    (hs : Consistent s) (hsends : NoError s.sends) (hne : c ≠ d)
    (hw : Command.isWrite args = false) (hn : commandName args = ascii "WAIT")
    (hr : Command.executeWait args = []) (h : Waited now d args s t) :
    Link t c client (bytes ++ Resp.framing.stream (s.broadcast args)) := by
  have hnot : c ∉ [d] := fun hmem ↦ hne (List.mem_singleton.mp hmem)
  have hnone (hp : s.parks args = false) : s.broadcast args = [] := by
    unfold broadcast
    rw [if_neg (by rw [hw]; decide), if_neg (by rw [hp]; rintro ⟨-, -, h⟩; cases h)]
  cases h with
  | replied count hv =>
    rw [hnone (by rw [parks, hv]), Lib.Framing.stream_nil, List.append_nil]
    exact hl.answers (Answers.replyWait hsends (List.mem_singleton_self d) _ _) hnot
      (fun wait h ↦ hl.waits wait (replyWait_waits _ _ _ h))
  | refused response hv =>
    rw [hnone (by rw [parks, hv]), Lib.Framing.stream_nil, List.append_nil]
    exact hl.answers (Answers.reply hsends (List.mem_singleton_self d) _) hnot
      (fun wait h ↦ hl.waits wait (reply_waits _ _ h))
  | ignored hv =>
    rw [hnone (by rw [parks, hv]), Lib.Framing.stream_nil, List.append_nil]
    exact hl
  | parked numNeeded timeoutMs hv =>
    have hone : s.broadcast args = [Command.getack] := by
      unfold broadcast
      rw [if_neg (by rw [hw]; decide), if_pos ⟨hn, hr, by rw [parks, hv]⟩]
    rw [hone, Lib.Framing.stream_cons, Lib.Framing.stream_nil, List.append_nil]
    have hprop := hl.propagate hs (Resp.encodeArray Command.getack)
    refine hprop.of_eq rfl rfl rfl (fun wait h ↦ ?_)
    rcases List.mem_append.mp h with h | h
    · exact hl.waits wait h
    · rw [List.mem_singleton.mp h]
      exact hne.symm

theorem ran {env : Env} {type : ClientType} {args : List Bytes} (hl : Link s c client bytes)
    (hs : Consistent s) (hsends : NoError s.sends)
    (hd : ∃ client', s.clients d = some client' ∧ client'.type = type)
    (h : Ran env d type args s t) :
    Link t c (if c = d then { client with ackOffset := (ackOf args).getD client.ackOffset } else client)
      (bytes ++ Resp.framing.stream (if type = .regular then s.broadcast args else [])) := by
  have hne (ht : type = .regular) : c ≠ d := by
    rintro rfl
    obtain ⟨client', hc, htype⟩ := hd
    rw [hl.connected] at hc
    cases hc
    rw [hl.type, ht] at htype
    cases htype
  have hnot (ht : type = .regular) : c ∉ [d] := fun hmem ↦ hne ht (List.mem_singleton.mp hmem)
  have hnil (ht : type = .replica) :
      (if type = .regular then s.broadcast args else []) = [] := by rw [ht]; rfl
  cases h with
  | acked ht n hn =>
    rw [hnil ht, Lib.Framing.stream_nil, List.append_nil]
    have hmap := hl.mapClient d (fun client ↦ { client with ackOffset := n })
      (fun _ ↦ ⟨rfl, rfl⟩)
    rw [hn]
    exact hmap.settleAll _ hsends
  | ignored ht hn =>
    rw [hnil ht, Lib.Framing.stream_nil, List.append_nil, hn]
    simpa only [Option.getD_none, ite_self] using hl
  | write ht hw response =>
    have hb : s.broadcast args = [args] := by
      unfold broadcast
      rw [if_pos hw]
    rw [if_pos ht, if_neg (hne ht), hb, Lib.Framing.stream_cons, Lib.Framing.stream_nil, List.append_nil]
    have happ := hl.answers (Answers.mapClient (d := d) hsends (List.mem_singleton_self d)
      (fun client ↦ { client with writeBuf := client.writeBuf ++ response }) (fun _ ↦ rfl))
      (hnot ht) hl.waits
    unfold trackWrite
    refine Link.propagate ?_ ?_ _
    · exact happ.of_eq rfl rfl rfl hl.waits
    · exact (hs.of_same (appendReply_same d response s)).of_same
        ⟨rfl, fun _ ↦ rfl, rfl, fun _ ↦ rfl, rfl, rfl, .inl⟩
  | waited ht hw hn hr t h =>
    rw [if_pos ht, if_neg (hne ht)]
    exact hl.waited hs hsends (hne ht) hw hn hr h
  | psync ht hw hn data =>
    have hb : s.broadcast args = [] :=
      broadcast_of_name hw (fun h ↦ absurd (hn.symm.trans h) (by decide)) s
    rw [if_pos ht, if_neg (hne ht), hb, Lib.Framing.stream_nil, List.append_nil]
    exact hl.of_eq (update_of_ne (hne ht) ..) (update_of_ne (hne ht) ..) rfl hl.waits
  | replied ht hb response =>
    rw [if_pos ht, if_neg (hne ht), hb, Lib.Framing.stream_nil, List.append_nil]
    exact hl.answers (Answers.reply hsends (List.mem_singleton_self d) response) (hnot ht)
      (fun wait h ↦ hl.waits wait (reply_waits _ _ h))
  | buffered ht hb response =>
    rw [if_pos ht, if_neg (hne ht), hb, Lib.Framing.stream_nil, List.append_nil]
    exact hl.answers (Answers.mapClient (d := d) hsends (List.mem_singleton_self d)
      (fun client ↦ { client with writeBuf := client.writeBuf ++ response }) (fun _ ↦ rfl))
      (hnot ht) hl.waits
  | skipped ht hb =>
    rw [if_pos ht, if_neg (hne ht), hb, Lib.Framing.stream_nil, List.append_nil]
    exact hl

theorem command {env : Env} {client' : Client} {args : List Bytes} {n : ℕ}
    (hl : Link s c client bytes) (hs : Serving s) (hsends : NoError env.sends)
    (hd : ∀ c host port, ¬Demotes s c host port) (hc : Receives s d client' args n) :
    ∃ client₁, Link (step s (.process env)) c client₁
        (bytes ++ Resp.framing.stream (streamed s (.process env))) ∧
      Served s c client (.process env) client₁ := by
  have hl' : Link { s with
      sends := env.sends
      store := (Command.execute env.clock.steady args s.store s.replInfo false).2 } c client bytes :=
    hl.of_eq rfl rfl rfl hl.waits
  have hcons := hs.consistent.of_same (t := { s with
      sends := env.sends
      store := (Command.execute env.clock.steady args s.store s.replInfo false).2 })
    ⟨rfl, fun _ ↦ rfl, rfl, fun _ ↦ rfl, rfl, rfl, .inl⟩
  have hran := hl'.ran hcons hsends ⟨client', hc.connected, rfl⟩ (ran_runCommand env hs hc hd)
  obtain ⟨client₁, herase, h₁⟩ := hran.eraseRead d n
  rw [hc.step_eq env, streamed_process hc]
  refine ⟨client₁, herase, ?_⟩
  -- only a command on the connection itself touches it
  by_cases h : c = d
  · subst h
    have hsame := hc.connected
    rw [hl.connected] at hsame
    cases hsame
    rw [if_pos rfl] at h₁
    rcases h₁ with rfl | ⟨-, rfl⟩
    · exact .command env args n hc _ (.inl rfl)
    · exact .command env args n hc _ (.inr rfl)
  · rw [if_neg h] at h₁
    rcases h₁ with rfl | ⟨hcd, -⟩
    · exact .same _
    · exact absurd hcd h

theorem writerSwap (hl : Link s c client bytes) (order : List ClientId) :
    Link (s.writerSwap order) c client bytes := by
  obtain ⟨queue, ⟨hq, hr⟩, hb⟩ := hl.queue
  refine ⟨hl.connected, hl.type, hl.unbuffered, ⟨swapQueue queue, ⟨?_, ?_⟩, ?_⟩, hl.waits⟩
  · simp [Server.writerSwap, hq]
  · simp [swapQueue, hr]
  · simp only [swapQueue, hr, Bool.false_eq_true, if_false, List.append_nil]
    rw [← hb, ← List.append_assoc]
    rfl

theorem nextQueue (hl : Link s c client bytes) : Link s.nextQueue c client bytes :=
  hl.of_eq rfl rfl rfl hl.waits

theorem send (hl : Link s c client bytes) {queue : ReplicaWriteQueue} (hq : s.replQueues d = some queue)
    (k : ℕ) : Link { s.setDraining d (queue.draining.drop k) with
      wire := update s.wire d (s.wire d ++ queue.draining.take k) } c client bytes := by
  by_cases h : c = d
  · subst h
    obtain ⟨queue', ⟨hq', hr⟩, hb⟩ := hl.queue
    rw [hq] at hq'
    cases hq'
    refine ⟨hl.connected, hl.type, hl.unbuffered,
      ⟨{ queue with draining := queue.draining.drop k }, ⟨?_, hr⟩, ?_⟩, hl.waits⟩
    · simp [setDraining, hq]
    · simp only [update_self, ← hb, List.append_assoc]
      rw [← List.append_assoc (queue.draining.take k), List.take_append_drop]
  · exact hl.of_eq rfl (update_of_ne h ..) (update_of_ne h ..) hl.waits

theorem writerStep (hl : Link s c client bytes) (hs : Serving s) {result : SendResult}
    (hne : result ≠ .error) : Link (s.writerStep result) c client bytes := by
  unfold Server.writerStep
  split
  · exact hl
  · next d _ hsnap =>
    split
    · exact hl.nextQueue
    · next queue hq =>
      have hr := hs.registered d queue hq
      -- the queue's descriptor is its client's, for no replica has been lost
      obtain ⟨owner, ho, -⟩ := (hs.consistent.replica_iff d).mp
        ((hs.consistent.queue_iff d).mpr ⟨queue, hq, hr⟩)
      have hfd : s.fds queue.fd = some d := by
        rw [hs.consistent.queue_fd d queue owner hq ho hr]
        exact hs.consistent.fd d owner ho
      split
      · split
        · exact hl.nextQueue
        · exact hl.of_eq rfl rfl rfl hl.waits
      · split
        · exact hl.nextQueue
        · rw [hfd]
          cases result with
          | sent n => exact hl.send hq (n + 1)
          | again => exact hl.nextQueue
          | error => exact absurd rfl hne

theorem trySend (hl : Link s c client bytes) (hs : NoError s.sends) (d : ClientId) :
    Link (s.trySend d) c client bytes := by
  by_cases h : c = d
  · subst h
    have hnil (sends : List SendResult) : sendLoop sends [] = ([], [], sends, false) := by
      cases sends <;> rfl
    simp only [Server.trySend, hl.connected, hl.unbuffered, hnil, Bool.false_eq_true, if_false]
    refine hl.of_eq ?_ rfl ?_ hl.waits
    · simp [deliver, Server.mapClient, hl.connected, ← hl.unbuffered]
    · simp [deliver]
  · exact hl.answers (Answers.trySend hs (List.mem_singleton_self d))
      (fun hmem ↦ h (List.mem_singleton.mp hmem)) (fun wait h ↦ hl.waits wait (trySend_waits _ _ h))

theorem finishRead (hl : Link s c client bytes) (hs : NoError s.sends) (d : ClientId)
    (client' : Client) : Link (s.finishRead d client') c client bytes := by
  have hidle : Link { s with pc := .idle } c client bytes := hl.of_eq rfl rfl rfl hl.waits
  unfold Server.finishRead
  dsimp only
  split
  · exact hidle
  · exact hidle.trySend hs d

theorem removeClient (hl : Link s c client bytes) (h : c ≠ d) :
    Link (s.removeClient d) c client bytes := by
  unfold Server.removeClient
  split
  · exact hl
  · exact hl.of_eq (update_of_ne h ..) (update_of_ne h ..) rfl
      (fun wait hw ↦ hl.waits wait (List.mem_of_mem_filter hw))

theorem handleAccept (hl : Link s c client bytes) (hs : Consistent s) (fd : ℕ) :
    Link (s.handleAccept fd) c client bytes := by
  unfold Server.handleAccept
  split
  · exact hl
  · exact hl.of_eq (update_of_ne (hs.lt_nextId hl.connected).ne ..) rfl rfl hl.waits

theorem startSweep (hl : Link s c client bytes) (now : TimePoint) :
    Link (s.startSweep now) c client bytes := by
  unfold Server.startSweep
  split
  · exact hl.of_eq rfl rfl rfl hl.waits
  · exact hl

theorem continueSweep (hl : Link s c client bytes) (hs : Consistent s) (hpc : s.pc = .sweeping) :
    Link s.continueSweep c client
      (bytes ++ Resp.framing.stream (streamed s .sweepNext)) := by
  unfold Server.continueSweep
  split
  · next hkeys =>
    have hnone : streamed s .sweepNext = [] := by simp [streamed, hpc, hkeys]
    rw [hnone, Lib.Framing.stream_nil, List.append_nil]
    exact hl.of_eq rfl rfl rfl hl.waits
  · next key keys hkeys =>
    have hstream : streamed s .sweepNext = [[ascii "DEL", key]] := by simp [streamed, hpc, hkeys]
    rw [hstream, Lib.Framing.stream_cons, Lib.Framing.stream_nil, List.append_nil]
    have hkey : Link (s.sweepKey key) c client (bytes ++ Resp.encodeArray [ascii "DEL", key]) := by
      refine Link.propagate ?_ ?_ _
      · exact hl.of_eq rfl rfl rfl hl.waits
      · exact hs.of_same ⟨rfl, fun _ ↦ rfl, rfl, fun _ ↦ rfl, rfl, rfl, .inl⟩
    exact hkey.of_eq rfl rfl rfl hkey.waits

/-- One step of a master: the replica's connection carries what it did and what the
step streams. -/
theorem step {e : Event} (hl : Link s c client bytes) (hs : Serving s) (hcalm : Calm s e) :
    ∃ client', Link (step s e) c client' (bytes ++ Resp.framing.stream (streamed s e)) ∧
      Served s c client e client' := by
  have hquiet {t : Server} (hn : streamed s e = []) (h : Link t c client bytes) :
      ∃ client', Link t c client' (bytes ++ Resp.framing.stream (streamed s e)) ∧
        Served s c client e client' := by
    rw [hn, Lib.Framing.stream_nil, List.append_nil]
    exact ⟨client, h, .same e⟩
  have h := step_outcome s e
  generalize ht : Server.step s e = t at h ⊢
  cases h with
  | accept fd => exact hquiet rfl (hl.handleAccept hs.consistent fd)
  | recv d data hpc =>
    unfold handleRecv
    split
    · exact hquiet rfl hl
    · have hmap := hl.mapClient d (fun client ↦ { client with readBuf := client.readBuf ++ data })
        (fun _ ↦ ⟨rfl, rfl⟩)
      rw [show streamed s (.recv d data) = [] from rfl, Lib.Framing.stream_nil, List.append_nil]
      refine ⟨_, hmap.of_eq rfl rfl rfl hl.waits, ?_⟩
      by_cases h : c = d
      · subst h
        rw [if_pos rfl]
        exact .recv data
      · rw [if_neg h]
        exact .same _
  | hangup d =>
    refine hquiet rfl (hl.removeClient ?_)
    rintro rfl
    exact hcalm client hl.connected hl.type
  | writable d sends =>
    have hl' : Link { s with sends := sends } c client bytes := hl.of_eq rfl rfl rfl hl.waits
    exact hquiet rfl (hl'.trySend hcalm d)
  | process env d hpc =>
    have h := processCommand_processed env d s
    generalize s.processCommand env d = t at h ht ⊢
    cases h with
    | gone hc =>
      refine hquiet ?_ (hl.of_eq rfl rfl rfl hl.waits)
      simp only [streamed, hpc, hc]
    | done client' hc hn =>
      have hl' : Link { s with sends := env.sends } c client bytes :=
        hl.of_eq rfl rfl rfl hl.waits
      refine hquiet ?_ (hl'.finishRead hcalm.1 d client')
      simp only [streamed, hpc, hc, hn, Option.map_none, Option.getD_none, ite_self]
    | command client' hc args n hp hn =>
      rw [← ht]
      exact hl.command hs hcalm.1 hcalm.2 ⟨hpc, hc, hp, hn⟩
  | timeouts now sends =>
    have hl' : Link { s with sends := sends } c client bytes := hl.of_eq rfl rfl rfl hl.waits
    exact hquiet rfl (hl'.settleAll _ hcalm)
  | sweep now => exact hquiet rfl (hl.startSweep now)
  | sweepNext hpc => exact ⟨client, hl.continueSweep hs.consistent hpc, .same _⟩
  | rehash items => exact hquiet rfl (hl.of_eq rfl rfl rfl hl.waits)
  | writerSwap order => exact hquiet rfl (hl.writerSwap order)
  | writerStep result => exact hquiet rfl (hl.writerStep hs hcalm)
  | skip _ hp hsw =>
    refine hquiet ?_ hl
    unfold streamed
    split
    · next hpc => exact absurd hpc (hp _ _ rfl)
    · next hpc => exact absurd hpc (hsw rfl)
    · rfl

end Link

namespace Serving

theorem init (replid : Bytes) : Serving (init replid) := ⟨.init replid, rfl, nofun⟩

theorem step {e : Event} (hs : Serving s) (hcalm : Calm s e) : Serving (step s e) := by
  refine ⟨hs.consistent.step e, ?_, NoneRemoved.step hs hcalm⟩
  change (Server.step s e).data.replInfo.role = _
  have hd := step_dataStep s e
  generalize (Server.step s e).data = d, written s e = cmds at hd ⊢
  cases hd with
  | promote env c client args n hc ht hn hr => exact absurd hs.role hr
  | linked env c host port hd => exact absurd hd (hcalm.2 c host port)
  | reverted env c host port hd => exact absurd hd (hcalm.2 c host port)
  | terminated env c host port hd => exact absurd hd (hcalm.2 c host port)
  | same => exact hs.role
  | rehash => exact hs.role
  | sweep => exact hs.role
  | sweepNext => exact hs.role
  | link => exact hs.role
  | replica => exact hs.role
  | write => exact hs.role

end Serving

end RedisLite.Server
