import RedisLite.Thinning

namespace RedisLite.Server

open Function

variable {s t : Server} {gone : ClientId → Prop} {c d : ClientId}

/-- A `REPLICAOF` that names another master than the present one, or ends the time as a worker. -/
def Overturns (args : List Bytes) (s : Server) : Prop :=
  commandName args = ascii "REPLICAOF" ∧ Command.executeReplicaof args = [] ∧
    (s.redirects args = true ∨ replicaofTarget args = none ∧ s.replInfo.role = .worker)

instance (args : List Bytes) (s : Server) : Decidable (Overturns args s) :=
  inferInstanceAs (Decidable (_ ∧ _ ∧ (_ ∨ _ ∧ _)))

structure Unfed (args : List Bytes) (s : Server) : Prop where
  broadcast : s.broadcast args = []
  name : commandName args ≠ ascii "PSYNC"

/-- What a command does to the connections, apart from its removal from the buffer. -/
inductive Acted (gone : ClientId → Prop) (env : Env) (c : ClientId) (client : Client)
    (args : List Bytes) (s : Server) : Server → Prop
  | thinned (t : Server) (h : Thins gone s t) (hp : client.type = .regular → Unfed args s) :
    Acted gone env c client args s t
  | acked (ht : client.type = .replica) (n : ℤ) (t : Server) (h : Thins gone (s.acknowledge c n) t) :
    Acted gone env c client args s t
  | wrote (ht : client.type = .regular) (hb : s.broadcast args = [args])
    (hn : commandName args ≠ ascii "PSYNC") (t : Server)
    (h : Thins gone s t) (hq : t.replQueues = s.replQueues) (hr : t.replicas = s.replicas) :
    Acted gone env c client args s (t.propagateToReplicas (Resp.encodeArray args))
  | parked (ht : client.type = .regular) (hb : s.broadcast args = [Command.getack])
    (hn : commandName args ≠ ascii "PSYNC") (t : Server)
    (h : t = s.propagateToReplicas (Resp.encodeArray Command.getack)) (wait : WaitState)
    (hw : wait.client = c) :
    Acted gone env c client args s { t with pendingWaits := t.pendingWaits ++ [wait] }
  | joined (ht : client.type = .regular) (hb : s.broadcast args = [])
    (hn : commandName args = ascii "PSYNC") :
    Acted gone env c client args s (s.handlePsync env.clock c args)
  | linked (ht : client.type = .regular) (hn : commandName args = ascii "REPLICAOF")
    (hp : Unfed args s) (fd : ℕ) (leftover : Bytes) (t : Server) (h : Thins gone s t)
    (hm : t.masterClient = none) (hr : Command.executeReplicaof args = []) (host : Bytes) (port : ℤ)
    (htarget : replicaofTarget args = some (host, port)) (hne : s.replicaof ≠ some (host, port))
    (hout : ∃ info info' store store', Handshake.connect env.clock
      ((s.demote c host port).granting env.peer) host port info store =
        ⟨info', store', .ok leftover⟩) :
    Acted gone env c client args s (t.addMasterLink fd leftover)

theorem acted_setMaster {env : Env} {client : Client} {args : List Bytes} {host : Bytes} {port : ℤ}
    (hs : NoError s.sends ∨ gone c ∧ ∀ wait ∈ s.pendingWaits, gone wait.client)
    (htorn : s.replicaof ≠ some (host, port) → Thins.Torn gone s) (ht : client.type = .regular)
    (hn : commandName args = ascii "REPLICAOF") (hr : Command.executeReplicaof args = [])
    (htarget : replicaofTarget args = some (host, port)) (hp : Unfed args s) :
    Acted gone env c client args s
      (s.handleReplicaofSetMaster env.clock env.peer c host port) := by
  have hnone := demote_masterClient c host port s
  have h := handleReplicaofSetMaster_masterSet env.clock env.peer c host port s
  generalize s.handleReplicaofSetMaster env.clock env.peer c host port = t at h ⊢
  have hfailed (hne : s.replicaof ≠ some (host, port)) (id : Bytes) (n : ℤ) (store : Store) :
      Thins gone s { s.demote c host port with
        replInfo := ((s.demote c host port).data.handshake id n store).replInfo
        store := store } :=
    (Thins.demote hs (htorn hne) host port).trans
      (.of_eq rfl rfl rfl rfl rfl rfl rfl (fun h ↦ h) (.inl rfl))
  have hconn := connectToMaster_connected env.clock env.peer host port (s.demote c host port)
  cases h with
  | already => exact .thinned _ (.reply (hs.imp_right And.left) _) (fun _ ↦ hp)
  | linked hne t h =>
    rw [h] at hconn
    cases hconn with
    | linked fd id n store leftover hfd hout =>
      exact .linked ht hn hp fd leftover _ (hfailed hne id n store) hnone hr host port htarget hne
        ⟨_, _, _, _, hout⟩
  | reverted hne t what h =>
    rw [h] at hconn
    cases hconn with
    | failed id n store failure =>
      exact .thinned _ ((hfailed hne id n store).trans
        (.of_eq rfl rfl rfl rfl rfl rfl rfl (fun h ↦ h) (.inl rfl))) (fun _ ↦ hp)
  | terminated hne t h =>
    rw [h] at hconn
    cases hconn with
    | failed id n store failure =>
      exact .thinned _ ((hfailed hne id n store).trans
        (.of_eq rfl rfl rfl rfl rfl rfl rfl (fun h ↦ h) (.inr trivial))) (fun _ ↦ hp)

theorem acted_replicaof {env : Env} {client : Client} {args : List Bytes}
    (hs : NoError s.sends ∨ gone c ∧ ∀ wait ∈ s.pendingWaits, gone wait.client)
    (htorn : Overturns args s → Thins.Torn gone s) (ht : client.type = .regular)
    (hn : commandName args = ascii "REPLICAOF") (hr : Command.executeReplicaof args = [])
    (hp : Unfed args s) : Acted gone env c client args s (s.handleReplicaof env c args) := by
  have hc := hs.imp_right And.left
  cases htarget : replicaofTarget args with
  | some target =>
    rw [handleReplicaof_of_target htarget]
    refine acted_setMaster hs (fun hne ↦ htorn ⟨hn, hr, .inl ?_⟩) ht hn hr htarget hp
    rw [redirects, htarget, Option.any_some, bne_iff_ne]
    exact hne
  | none =>
    have h := handleReplicaof_demoted env c args s
    generalize s.handleReplicaof env c args = t at h ⊢
    cases h with
    | noOne =>
      refine .thinned _ (.noOne hc (fun hrole ↦ ?_) env.replid) (fun _ ↦ hp)
      exact (htorn ⟨hn, hr, .inr ⟨htarget, hrole⟩⟩).link
    | refused response => exact .thinned _ (.reply hc response) (fun _ ↦ hp)
    | ignored => exact .thinned _ (.refl gone s) (fun _ ↦ hp)
    | setMaster host port h =>
      rw [htarget] at h
      cases h

theorem acted_wait {env : Env} {client : Client} {args : List Bytes} (hc : NoError s.sends ∨ gone c)
    (ht : client.type = .regular) (hw : Command.isWrite args = false)
    (hn : commandName args = ascii "WAIT") (hr : Command.executeWait args = []) :
    Acted gone env c client args s (s.handleWait env.clock.steady c args) := by
  have hname : commandName args ≠ ascii "PSYNC" := by
    rw [hn]
    decide
  have hnone (hp : s.parks args = false) : Unfed args s := by
    refine ⟨?_, hname⟩
    unfold broadcast
    rw [if_neg (by rw [hw]; decide), if_neg (by rw [hp]; rintro ⟨-, -, h⟩; cases h)]
  have h := handleWait_waited env.clock.steady c args s
  generalize s.handleWait env.clock.steady c args = t at h ⊢
  cases h with
  | replied count hv =>
    exact .thinned _ (.replyWait hc count _) (fun _ ↦ hnone (by rw [parks, hv]))
  | refused response hv =>
    exact .thinned _ (.reply hc response) (fun _ ↦ hnone (by rw [parks, hv]))
  | ignored hv => exact .thinned _ (.refl gone s) (fun _ ↦ hnone (by rw [parks, hv]))
  | parked numNeeded timeoutMs hv =>
    have hb : s.broadcast args = [Command.getack] := by
      unfold broadcast
      rw [if_neg (by rw [hw]; decide), if_pos ⟨hn, hr, by rw [parks, hv]⟩]
    have h : Acted gone env c client args s _ := .parked ht hb hname _ rfl
      ⟨c, numNeeded, s.masterReplOffset, waitDeadline env.clock.steady timeoutMs⟩ rfl
    rwa [(propagate_frame _ s).1] at h

structure Deferred (args : List Bytes) (response : Bytes) : Prop where
  wait : commandName args = ascii "WAIT" → response = Command.executeWait args
  replicaof : commandName args = ascii "REPLICAOF" → response = Command.executeReplicaof args
  psync : commandName args = ascii "PSYNC" → response = []

theorem acted_regular {env : Env} {client : Client} {args : List Bytes} {response : Bytes}
    (hs : NoError s.sends ∨ gone c ∧ ∀ wait ∈ s.pendingWaits, gone wait.client)
    (htorn : Overturns args s → Thins.Torn gone s)
    (ht : client.type = .regular) (hresponse : Deferred args response) :
    Acted gone env c client args s (s.handleRegular env c args response) := by
  have hnone (hw : Command.isWrite args = false) (hn : commandName args ≠ ascii "WAIT") :
      s.broadcast args = [] := broadcast_of_name hw (fun h ↦ absurd h hn) s
  by_cases hpsync : commandName args = ascii "PSYNC"
  · have hregular : s.handleRegular env c args response = s.handlePsync env.clock c args := by
      simp only [handleRegular, hpsync, hresponse.psync hpsync]
      rfl
    rw [hregular]
    exact .joined ht (hnone (isWrite_of_psync hpsync) (by rw [hpsync]; decide)) hpsync
  · have h := handleRegular_handled env c args response s
    generalize s.handleRegular env c args response = t at h ⊢
    cases h with
    | write hw =>
      have hb : s.broadcast args = [args] := by
        unfold broadcast
        rw [if_pos hw]
      exact .wrote ht hb hpsync _ ((Thins.appendReply c response s).trans
        (.of_eq rfl rfl rfl rfl rfl rfl rfl (fun h ↦ h) (.inl rfl))) rfl rfl
    | wait hw hn hr =>
      exact acted_wait (hs.imp_right And.left) ht hw hn ((hresponse.wait hn).symm.trans hr)
    | replicaof hw hn hr =>
      exact acted_replicaof hs htorn ht hn ((hresponse.replicaof hn).symm.trans hr)
        ⟨hnone hw (by rw [hn]; decide), hpsync⟩
    | psync hw hn => exact absurd hn hpsync
    | plain hw hn =>
      refine .thinned _ (.appendReply c response s) (fun _ ↦ ⟨?_, hpsync⟩)
      refine broadcast_of_name hw (fun h ↦ ?_) s
      rw [← hresponse.wait h]
      exact hn h

def loaded (env : Env) (client : Client) (args : List Bytes) (s : Server) : Server :=
  { s with
    sends := env.sends
    store := (Command.execute env.clock.steady args s.store s.replInfo
      (client.type == .masterConn)).2 }

theorem acted_runCommand {env : Env} {client : Client} {args : List Bytes}
    (hs : NoError env.sends ∨ gone c ∧ ∀ wait ∈ s.pendingWaits, gone wait.client)
    (htorn : client.type = .regular → Overturns args s → Thins.Torn gone s) (n : ℕ) :
    Acted gone env c client args (loaded env client args s) (s.runCommand env c client args n) := by
  change Acted gone env c client args (loaded env client args s)
    (dispatch env c client.type args _ n (loaded env client args s))
  unfold dispatch
  split
  · next ht =>
    refine .thinned _ (.handleMasterRead c args _ n _) (fun h ↦ ?_)
    rw [ht] at h
    cases h
  · next ht =>
    rw [handleReplicaRead_eq]
    cases hack : ackOf args with
    | none =>
      refine .thinned _ (.refl gone _) (fun h ↦ ?_)
      rw [ht] at h
      cases h
    | some m => exact .acked ht m _ (.settleAll _ (hs.imp_right And.right))
  · next ht =>
    exact acted_regular hs (fun h ↦ ⟨(htorn ht h).replicas, (htorn ht h).link⟩) ht
      ⟨fun hn ↦ execute_wait hn .., fun hn ↦ execute_replicaof hn .., fun hn ↦ execute_psync hn ..⟩

theorem clients_propagate (data : Bytes) (s : Server) :
    (s.propagateToReplicas data).clients = s.clients ∧
      (s.propagateToReplicas data).nextId = s.nextId := by
  unfold propagateToReplicas
  split <;> exact ⟨rfl, rfl⟩

theorem eraseRead_other (h : d ≠ c) (n : ℕ) (s : Server) :
    (s.eraseRead c n).clients d = s.clients d := by
  unfold eraseRead
  split
  · rfl
  · split
    · rfl
    · exact update_of_ne h ..

/-- A step that executes no command, feeds no queue and is not one of the writer thread's sends. -/
structure Uneventful (s : Server) (e : Event) : Prop where
  taking : s.taking e = none
  streamed : streamed s e = []
  result : e.result = none

theorem Consistent.not_link (hcons : Consistent s) {client : Client}
    (hc : s.clients c = some client) (ht : client.type = .regular) : s.masterClient ≠ some c := by
  intro hm
  obtain ⟨link, hlink, htype⟩ := (hcons.master_iff c).mp hm
  rw [hc] at hlink
  cases hlink
  rw [ht] at htype
  cases htype

inductive Churn (gone : ClientId → Prop) (s : Server) : Event → Server → Prop
  | accepted (fd : ℕ) (hfd : s.fds fd = none) : Churn gone s (.accept fd) (s.handleAccept fd)
  | received (c : ClientId) (data : Bytes) (client : Client) (hc : s.clients c = some client)
    (hpc : s.pc = .idle) :
    Churn gone s (.recv c data)
      { s.mapClient c (fun client ↦ { client with readBuf := client.readBuf ++ data }) with
        pc := .reading c }
  | thinned (e : Event) (sends : List SendResult) (t : Server)
    (h : Thins gone { s with sends := sends } t) (he : Uneventful s e) : Churn gone s e t
  | paused (e : Event) (store : Store) (pc : Pc) (unswept : List Bytes)
    (hs : s.pc = .idle ∨ s.pc = .sweeping) (hpc : pc = .idle ∨ pc = .sweeping)
    (he : Uneventful s e) :
    Churn gone s e { s with store := store, pc := pc, unswept := unswept }
  | finished (env : Env) (c : ClientId) (client : Client) (hpc : s.pc = .reading c)
    (hc : s.clients c = some client) (hn : Resp.next client.readBuf = none) (t : Server)
    (h : Thins gone { s with sends := env.sends, pc := .idle } t) : Churn gone s (.process env) t
  | command (env : Env) (c : ClientId) (client : Client) (args : List Bytes) (n : ℕ)
    (hc : Receives s c client args n) (t : Server)
    (h : Acted gone env c client args (loaded env client args s) t) :
    Churn gone s (.process env) (t.eraseRead c n)
  | swept (key : Bytes) (keys : List Bytes) (hpc : s.pc = .sweeping)
    (hb : streamed s .sweepNext = [[ascii "DEL", key]]) :
    Churn gone s .sweepNext { s.sweepKey key with unswept := keys }
  | swapped (order : List ClientId) (h : s.snapshot = []) :
    Churn gone s (.writerSwap order) (s.writerSwap order)
  | sent (result : SendResult) : Churn gone s (.writerStep result) (s.writerStep result)

/-- A step that removes no connection but those in `gone`. -/
def Spares (gone : ClientId → Prop) (s : Server) : Event → Prop
  | .hangup c => gone c
  | .writable c sends => NoError sends ∨ gone c
  | .timeouts _ sends => NoError sends ∨ ∀ wait ∈ s.pendingWaits, gone wait.client
  | .process env =>
    (NoError env.sends ∨ ∀ c, s.pc = .reading c → gone c) ∧
    ∀ tk ∈ s.taking (.process env),
      (NoError env.sends ∨ ∀ wait ∈ s.pendingWaits, gone wait.client) ∧
      (tk.client.type = .regular → Overturns tk.args s → Thins.Torn gone s)
  | _ => True

theorem spares_all (s : Server) (e : Event) : Spares (fun _ ↦ True) s e := by
  cases e with
  | process env =>
    exact ⟨.inr (fun _ _ ↦ trivial), fun _ _ ↦ ⟨.inr (fun _ _ ↦ trivial), fun _ _ ↦
      ⟨fun _ _ _ ↦ trivial, fun _ _ ↦ trivial⟩⟩⟩
  | writable c sends => exact .inr trivial
  | timeouts now sends => exact .inr (fun _ _ ↦ trivial)
  | _ => trivial

theorem churn_process {env : Env} (hs : Spares gone s (.process env)) (hpc : s.pc = .reading c) :
    Churn gone s (.process env) (s.processCommand env c) := by
  have hsends : NoError env.sends ∨ gone c := hs.1.imp_right (fun h ↦ h c hpc)
  have h := processCommand_processed env c s
  generalize s.processCommand env c = t at h ⊢
  cases h with
  | gone hc =>
    refine .thinned _ s.sends _ (.of_eq rfl rfl rfl rfl rfl rfl rfl (fun h ↦ h) (.inr trivial)) ?_
    exact ⟨by simp [taking, hpc, hc], by simp only [streamed, hpc, hc], rfl⟩
  | done client hc hn =>
    refine .finished env c client hpc hc hn _ ?_
    unfold finishRead
    dsimp only
    split
    · exact .refl gone _
    · exact .trySend hsends
  | command client hc args n hp hn =>
    have hrec : Receives s c client args n := ⟨hpc, hc, hp, hn⟩
    obtain ⟨hwaits, htorn⟩ := hs.2 _ (hrec.taking_eq env)
    refine .command env c client args n hrec _ (acted_runCommand ?_ htorn n)
    rcases hsends with hok | hgone
    · exact .inl hok
    · exact hwaits.imp_right (fun h ↦ ⟨hgone, h⟩)

theorem step_churn {e : Event} (hs : Spares gone s e) : Churn gone s e (step s e) := by
  cases he : e.result with
  | some result =>
    cases e with
    | writerStep result => exact .sent result
    | _ => cases he
  | none =>
    have h := step_outcome s e
    generalize step s e = t at h ⊢
    have hsame (he : Uneventful s e) : Churn gone s e s := .thinned e s.sends s (.refl gone s) he
    cases h with
    | accept fd hpc =>
      cases hfd : s.fds fd with
      | none => exact .accepted fd hfd
      | some d =>
        rw [handleAccept, hfd]
        exact hsame ⟨rfl, rfl, rfl⟩
    | recv c data hpc =>
      unfold handleRecv
      split
      · exact hsame ⟨rfl, rfl, rfl⟩
      · next h =>
        rw [Bool.or_eq_true, not_or, Option.isNone_iff_eq_none] at h
        obtain ⟨client, hc⟩ := Option.ne_none_iff_exists'.mp h.2
        exact .received c data client hc hpc
    | hangup c => exact .thinned _ s.sends _ (.removeClient hs s) ⟨rfl, rfl, rfl⟩
    | writable c sends => exact .thinned _ sends _ (.trySend hs) ⟨rfl, rfl, rfl⟩
    | process env c hpc => exact churn_process hs hpc
    | timeouts now sends => exact .thinned _ sends _ (.settleAll _ hs) ⟨rfl, rfl, rfl⟩
    | sweep now hpc =>
      unfold startSweep
      split
      · exact .paused _ _ _ _ (.inl hpc) (.inr rfl) ⟨rfl, rfl, rfl⟩
      · exact hsame ⟨rfl, rfl, rfl⟩
    | sweepNext hpc =>
      unfold continueSweep
      split
      · next h =>
        exact .paused _ s.store .idle s.unswept (.inr hpc) (.inl rfl)
          ⟨rfl, by simp [streamed, hpc, h], rfl⟩
      · next key keys h => exact .swept key keys hpc (by simp [streamed, hpc, h])
    | rehash items =>
      exact .thinned _ s.sends _ (.of_eq rfl rfl rfl rfl rfl rfl rfl (fun h ↦ h) (.inl rfl))
        ⟨rfl, rfl, rfl⟩
    | writerSwap order h => exact .swapped order h
    | writerStep result => exact .sent result
    | skip e hp hsweep =>
      refine hsame ⟨?_, ?_, he⟩
      · cases e with
        | process env =>
          cases hpc : s.pc with
          | reading c => exact absurd hpc (hp env c rfl)
          | _ => simp only [taking, hpc]
        | _ => rfl
      · cases e with
        | process env =>
          cases hpc : s.pc with
          | reading c => exact absurd hpc (hp env c rfl)
          | _ => simp only [streamed, hpc]
        | sweepNext =>
          cases hpc : s.pc with
          | sweeping => exact absurd hpc (hsweep rfl)
          | _ => simp only [streamed, hpc]
        | _ => rfl

end RedisLite.Server
