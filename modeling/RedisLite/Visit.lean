import RedisLite.Attachment
import RedisLite.Queues

namespace RedisLite.Server

open Function Lib.Run

variable {s t : Server} {fd : ℕ} {args : List Bytes} {env : Env} {client : Client}

/-- A client connects through the descriptor `fd`, sends `data`, reads the reply and hangs up. -/
def visit (fd : ℕ) (env : Env) (data : Bytes) (s : Server) : Server :=
  run step s [.accept fd, .recv s.nextId data, .process env, .process env, .hangup s.nextId]

def heard (fd : ℕ) (env : Env) (data : Bytes) (s : Server) : Bytes :=
  ((s.visit fd env data).wire s.nextId).drop (s.wire s.nextId).length

def hosting (client : Client) (s : Server) : Server :=
  { s with
    clients := update s.clients s.nextId (some client)
    fds := update s.fds client.fd (some s.nextId)
    nextId := s.nextId + 1 }

structure Vacant (fd : ℕ) (s : Server) : Prop where
  descriptor : s.fds fd = none
  fresh : s.clients s.nextId = none
  queue : s.replQueues s.nextId = none
  replicas : s.nextId ∉ s.replicas
  waits : ∀ wait ∈ s.pendingWaits, wait.client ≠ s.nextId
  link : s.masterClient ≠ some s.nextId

theorem Vacant.of_reachable (h : Reachable s) (hfd : s.fds fd = none) : Vacant fd s := by
  have hcons := Consistent.of_reachable h
  obtain ⟨s₀, es, h₀, rfl⟩ := h
  have hrun : Consistent (run step s₀ es) ∧ Enrolled (run step s₀ es) ∧ Apart (run step s₀ es) := by
    refine run_stable step (I := fun s ↦ Consistent s ∧ Enrolled s ∧ Apart s) ?_ ?_ es
    · intro s e ⟨hcons, henrolled, hapart⟩
      exact ⟨hcons.step e, henrolled.step hcons e, hapart.step hcons e⟩
    · have hnone := queues_of_initial h₀
      have hwaits := waits_of_initial h₀
      refine ⟨.of_initial h₀, ⟨fun c _ _ _ ↦ hnone c, fun c _ ↦ hnone c⟩, ⟨?_, ?_⟩⟩ <;>
        rw [hwaits] <;> exact fun _ hmem ↦ absurd hmem List.not_mem_nil
  obtain ⟨-, henrolled, hapart⟩ := hrun
  have hfresh := hcons.fresh _ (le_refl _)
  refine ⟨hfd, hfresh, henrolled.fresh _ (le_refl _), fun hmem ↦ ?_, ?_, fun hm ↦ ?_⟩
  · obtain ⟨client, hclient, -⟩ := (hcons.replica_iff _).mp hmem
    rw [hfresh] at hclient
    cases hclient
  · exact fun wait hmem ↦ (hapart.ids wait hmem).ne
  · obtain ⟨client, hclient, -⟩ := (hcons.master_iff _).mp hm
    rw [hfresh] at hclient
    cases hclient

theorem reachable_visit (h : Reachable s) (fd : ℕ) (env : Env) (data : Bytes) :
    Reachable (s.visit fd env data) := by
  obtain ⟨s₀, es, h₀, rfl⟩ := h
  exact ⟨s₀, es ++ _, h₀, run_append ..⟩

theorem hosting_client (client : Client) (s : Server) :
    (s.hosting client).clients s.nextId = some client := update_self ..

theorem mapClient_hosting (client : Client) (f : Client → Client)
    (hfd : (f client).fd = client.fd) (s : Server) :
    (s.hosting client).mapClient s.nextId f = s.hosting (f client) := by
  simp only [mapClient, hosting, update_self, update_idem, Option.map_some, hfd]

theorem removeClient_hosting (client : Client) (h : Vacant client.fd s) :
    (s.hosting client).removeClient s.nextId = { s with nextId := s.nextId + 1 } := by
  have hreplicas : s.replicas.filter (· ≠ s.nextId) = s.replicas := by
    refine List.filter_eq_self.mpr (fun r hr ↦ decide_eq_true ?_)
    rintro rfl
    exact h.replicas hr
  have hwaits : s.pendingWaits.filter (·.client ≠ s.nextId) = s.pendingWaits :=
    List.filter_eq_self.mpr (fun wait hmem ↦ decide_eq_true (h.waits wait hmem))
  have hclients : update s.clients s.nextId none = s.clients := by
    rw [← h.fresh, update_eq_self]
  have hfds : update s.fds client.fd none = s.fds := by rw [← h.descriptor, update_eq_self]
  have hqueues : update s.replQueues s.nextId ((s.replQueues s.nextId).map
      (fun queue ↦ { queue with removed := true })) = s.replQueues := by
    rw [h.queue, Option.map_none, ← h.queue, update_eq_self]
  simp only [removeClient, hosting, update_self, update_idem, hreplicas, hwaits, hclients, hfds,
    hqueues, eq_false h.link, if_false]

def Takes (n : ℕ) (s : Server) : Prop := ∃ k rest, s.sends = .sent k :: rest ∧ n ≤ k + 1

theorem Takes.mono {n k : ℕ} (h : Takes n s) (hle : k ≤ n) : Takes k s := by
  obtain ⟨size, rest, hsends, hlen⟩ := h
  exact ⟨size, rest, hsends, hle.trans hlen⟩

theorem trySend_hosting (client : Client) (htakes : Takes client.writeBuf.length s)
    (hne : client.writeBuf ≠ []) :
    ∃ rest, (s.hosting client).trySend s.nextId =
      { s with
        wire := update s.wire s.nextId (s.wire s.nextId ++ client.writeBuf)
        sends := rest }.hosting { client with writeBuf := [] } := by
  obtain ⟨k, rest, hsends, hlen⟩ := htakes
  have hloop : sendLoop s.sends client.writeBuf = (client.writeBuf, [], rest, false) := by
    rw [hsends]
    cases hbuf : client.writeBuf with
    | nil => exact absurd hbuf hne
    | cons b buf =>
      rw [hbuf] at hlen
      have hsent : sendLoop (.sent k :: rest) (b :: buf) = ((b :: buf).take (k + 1) ++
          (sendLoop rest ((b :: buf).drop (k + 1))).1,
          (sendLoop rest ((b :: buf).drop (k + 1))).2) := rfl
      rw [hsent, List.take_of_length_le hlen, List.drop_of_length_le hlen]
      cases rest <;> simp [sendLoop]
  refine ⟨rest, ?_⟩
  have hsend : (s.hosting client).trySend s.nextId =
      (s.hosting client).deliver s.nextId client.writeBuf [] rest := by
    have hloop' : sendLoop (s.hosting client).sends client.writeBuf =
        (client.writeBuf, [], rest, false) := hloop
    simp only [trySend, hosting_client, hloop', Bool.false_eq_true, if_false]
  rw [hsend, deliver, mapClient_hosting client _ rfl]
  rfl

theorem eraseRead_hosting (client : Client) (hpc : s.pc = .reading s.nextId) (n : ℕ) :
    (s.hosting client).eraseRead s.nextId n =
      s.hosting { client with readBuf := client.readBuf.drop n } := by
  have hpc' : (s.hosting client).pc = .reading s.nextId := hpc
  rw [eraseRead, if_neg (by rw [hpc']; simp), if_neg (by rw [hosting_client]; simp)]
  exact mapClient_hosting client _ rfl s

theorem step_finish (client : Client) (hpc : s.pc = .reading s.nextId)
    (hread : client.readBuf = []) (env : Env) :
    step (s.hosting client) (.process env) =
      if client.writeBuf.isEmpty then { s with sends := env.sends, pc := .idle }.hosting client
      else ({ s with sends := env.sends, pc := .idle }.hosting client).trySend s.nextId := by
  have hstep : step (s.hosting client) (.process env) =
      (s.hosting client).processCommand env s.nextId := by
    have hpc' : (s.hosting client).pc = .reading s.nextId := hpc
    simp only [step, hpc']
  have hparse : Resp.parse client.readBuf = ⟨[], 0⟩ := by
    rw [hread]
    decide
  rw [hstep, processCommand, hosting_client]
  simp only [hparse, if_true, finishRead]
  rfl

def guest (fd : ℕ) (args : List Bytes) : Client where
  fd := fd
  type := .regular
  readBuf := Resp.encodeArray args

theorem visit_eq (h : Vacant fd s) (hidle : s.pc = .idle) (args : List Bytes) (env : Env) :
    s.visit fd env (Resp.encodeArray args) =
      (step (step ({ s with pc := .reading s.nextId }.hosting (guest fd args))
        (.process env)) (.process env)).step (.hangup s.nextId) := by
  have haccept : step s (.accept fd) = s.hosting { fd := fd, type := .regular } := by
    have haccept' : step s (.accept fd) = s.handleAccept fd := by simp only [step, hidle]
    rw [haccept', handleAccept, if_neg (by rw [h.descriptor]; exact Bool.false_ne_true)]
    rfl
  have hne : Resp.encodeArray args ≠ [] := List.length_pos_iff.mp (Resp.encodeArray_length_pos args)
  have hrecv : step (s.hosting { fd := fd, type := .regular })
      (.recv s.nextId (Resp.encodeArray args)) =
      { s with pc := .reading s.nextId }.hosting (guest fd args) := by
    have hpc : (s.hosting { fd := fd, type := .regular }).pc = .idle := hidle
    have hrecv' : step (s.hosting { fd := fd, type := .regular })
        (.recv s.nextId (Resp.encodeArray args)) = handleRecv s.nextId (Resp.encodeArray args)
          (s.hosting { fd := fd, type := .regular }) := by
      simp only [step, hpc]
    rw [hrecv', handleRecv, if_neg (by simp [hosting_client, hne]), mapClient_hosting _ _ rfl]
    rfl
  rw [visit, run_cons, haccept, run_cons, hrecv]
  rfl

theorem receives_guest (ha : Resp.Sized args) (fd : ℕ) (s : Server) :
    Receives ({ s with pc := .reading s.nextId }.hosting (guest fd args)) s.nextId (guest fd args)
      args (Resp.encodeArray args).length where
  pc := rfl
  connected := hosting_client ..
  parsed := by
    have hnext := Resp.next_encode ha []
    rw [List.append_nil] at hnext
    rw [guest, Resp.parse_eq_next, hnext]
  complete := Resp.encodeArray_length_pos args

/-- Commands that are answered without further ado: nothing is written, and the reply is that of
the command layer. -/
structure PlainRequest (args : List Bytes) : Prop where
  read : Command.isWrite args = false
  wait : commandName args ≠ ascii "WAIT"
  replicaof : commandName args ≠ ascii "REPLICAOF"
  psync : commandName args ≠ ascii "PSYNC"

theorem runCommand_plain (hp : PlainRequest args) (ht : client.type = .regular) (env : Env)
    (c : ClientId) (n : ℕ) (s : Server) : s.runCommand env c client args n = appendReply c
      (Command.execute env.clock.steady args s.store s.replInfo false).1
      { s with sends := env.sends } := by
  have hwrite : Command.isWriteCommand (commandName args) = false := by
    rw [isWriteCommand_commandName, hp.read]
  rw [runCommand_regular env c args n ht, Command.execute_of_not_write _ _ _ _ hp.read]
  simp only [handleRegular, hwrite, beq_eq_false_iff_ne.mpr hp.wait,
    beq_eq_false_iff_ne.mpr hp.replicaof, beq_eq_false_iff_ne.mpr hp.psync, Bool.false_and,
    Bool.false_eq_true, if_false]

theorem visit_end {response : Bytes} (h : Vacant fd s) (hidle : s.pc = .idle) (hne : response ≠ [])
    (htakes : Takes response.length { s with sends := env.sends }) {sends : List SendResult} :
    ∃ rest, step (step ({ s with pc := .reading s.nextId, sends := sends }.hosting
        { fd := fd, type := .regular, writeBuf := response }) (.process env)) (.hangup s.nextId) =
      { s with
        nextId := s.nextId + 1
        wire := update s.wire s.nextId (s.wire s.nextId ++ response)
        sends := rest } := by
  have hfinish := step_finish (s := { s with pc := .reading s.nextId, sends := sends })
    { fd := fd, type := .regular, writeBuf := response } rfl rfl env
  rw [if_neg (by simpa using hne)] at hfinish
  obtain ⟨rest, hsend⟩ := trySend_hosting (s := { s with pc := .idle, sends := env.sends })
    { fd := fd, type := .regular, writeBuf := response } htakes hne
  refine ⟨rest, ?_⟩
  rw [hfinish]
  refine (congrArg (step · (.hangup s.nextId)) hsend).trans ?_
  have hvacant : Vacant fd ({ s with
      pc := .idle
      wire := update s.wire s.nextId (s.wire s.nextId ++ response)
      sends := rest } : Server) :=
    ⟨h.descriptor, h.fresh, h.queue, h.replicas, h.waits, h.link⟩
  refine (removeClient_hosting { fd := fd, type := .regular, writeBuf := [] } hvacant).trans ?_
  rw [← hidle]

/-- A visit with such a command: the visitor reads the reply, and the server is as it was. -/
theorem visit_plain (h : Vacant fd s) (hidle : s.pc = .idle) (hp : PlainRequest args)
    (ha : Resp.Sized args) {response : Bytes}
    (hresponse : (Command.execute env.clock.steady args s.store s.replInfo false).1 = response)
    (hne : response ≠ []) (htakes : Takes response.length { s with sends := env.sends }) :
    ∃ rest, s.visit fd env (Resp.encodeArray args) =
      { s with
        nextId := s.nextId + 1
        wire := update s.wire s.nextId (s.wire s.nextId ++ response)
        sends := rest } := by
  have hrun : step ({ s with pc := .reading s.nextId }.hosting (guest fd args)) (.process env) =
      { s with pc := .reading s.nextId, sends := env.sends }.hosting
        { fd := fd, type := .regular, writeBuf := response } := by
    have happend : appendReply s.nextId response
        ({ s with pc := .reading s.nextId, sends := env.sends }.hosting (guest fd args)) =
        { s with pc := .reading s.nextId, sends := env.sends }.hosting
          { guest fd args with writeBuf := response } :=
      mapClient_hosting (guest fd args)
        (fun client ↦ { client with writeBuf := client.writeBuf ++ response }) rfl
        { s with pc := .reading s.nextId, sends := env.sends }
    have herase := eraseRead_hosting (s := { s with pc := .reading s.nextId, sends := env.sends })
      { guest fd args with writeBuf := response } rfl (Resp.encodeArray args).length
    rw [(receives_guest ha fd s).step_eq env, runCommand_plain hp rfl]
    refine (congrArg (eraseRead s.nextId _) ?_).trans (herase.trans ?_)
    · rw [← happend, ← hresponse]
      rfl
    · rw [guest, List.drop_length]
  rw [visit_eq h hidle, hrun]
  exact visit_end h hidle hne htakes

theorem removeMaster_nextId (s : Server) : s.removeMaster.nextId = s.nextId := by
  unfold removeMaster removeClient
  split
  · rfl
  · dsimp only
    split <;> rfl

theorem removeMaster_wire (s : Server) : s.removeMaster.wire = s.wire := by
  unfold removeMaster removeClient
  split
  · rfl
  · dsimp only
    split <;> rfl

theorem removeMaster_pc (s : Server) : s.removeMaster.pc = s.pc := by
  unfold removeMaster removeClient
  split
  · rfl
  · dsimp only
    split <;> rfl

theorem removeMaster_hosting (h : Vacant client.fd s) (hcons : Consistent s) :
    (s.hosting client).removeMaster = s.removeMaster.hosting client := by
  cases hm : s.masterClient with
  | none => simp only [removeMaster, hosting, hm]
  | some m =>
    obtain ⟨link, hlink, -⟩ := (hcons.master_iff m).mp hm
    have hne : m ≠ s.nextId := by
      rintro rfl
      exact h.link hm
    have hfd : link.fd ≠ client.fd := by
      intro heq
      have howner := hcons.fd m link hlink
      rw [heq, h.descriptor] at howner
      cases howner
    have hlink' : (s.hosting client).clients m = some link := (update_of_ne hne ..).trans hlink
    have hm' : (s.hosting client).masterClient = some m := hm
    simp only [removeMaster, hm, hm', removeClient, hlink, hlink']
    simp only [hosting, update_comm hne, update_comm hfd]

theorem Vacant.removeMaster (h : Vacant fd s) (hcons : Consistent s) :
    Vacant fd s.removeMaster := by
  cases hm : s.masterClient with
  | none =>
    have hsame : s.removeMaster = s := by simp only [Server.removeMaster, hm]
    rw [hsame]
    exact h
  | some m =>
    obtain ⟨link, hlink, -⟩ := (hcons.master_iff m).mp hm
    have hne : s.nextId ≠ m := by
      rintro rfl
      exact h.link hm
    have hremove : s.removeMaster = { s.removeClient m with masterClient := none } := by
      simp only [Server.removeMaster, hm]
    rw [hremove]
    simp only [removeClient, hlink]
    refine ⟨?_, ?_, ?_, ?_, ?_, (Option.some_ne_none _).symm⟩
    · by_cases heq : fd = link.fd
      · rw [heq]
        exact update_self ..
      · exact (update_of_ne heq ..).trans h.descriptor
    · exact (update_of_ne hne ..).trans h.fresh
    · exact (update_of_ne hne ..).trans h.queue
    · exact fun hmem ↦ h.replicas (List.mem_of_mem_filter hmem)
    · exact fun wait hmem ↦ h.waits wait (List.mem_of_mem_filter hmem)

theorem reply_hosting (client : Client) {response : Bytes} (hbuf : client.writeBuf = [])
    (hne : response ≠ []) (htakes : Takes response.length s) :
    ∃ rest, (s.hosting client).reply s.nextId response =
      { s with
        wire := update s.wire s.nextId (s.wire s.nextId ++ response)
        sends := rest }.hosting client := by
  have happend : (s.hosting client).appendReply s.nextId response =
      s.hosting { client with writeBuf := response } := by
    rw [appendReply, mapClient_hosting client
      (fun client ↦ { client with writeBuf := client.writeBuf ++ response }) rfl, hbuf,
      List.nil_append]
  obtain ⟨rest, hsend⟩ := trySend_hosting { client with writeBuf := response } htakes hne
  refine ⟨rest, ?_⟩
  rw [reply, happend, hsend, ← hbuf]

def released (replid : Bytes) (s : Server) : Server :=
  if s.replInfo.role = .master then s else s.removeMaster.promote replid

theorem released_nextId (replid : Bytes) (s : Server) : (s.released replid).nextId = s.nextId := by
  unfold released
  split
  · rfl
  · exact removeMaster_nextId s

theorem released_wire (replid : Bytes) (s : Server) : (s.released replid).wire = s.wire := by
  unfold released
  split
  · rfl
  · exact removeMaster_wire s

theorem released_pc (replid : Bytes) (s : Server) : (s.released replid).pc = s.pc := by
  unfold released
  split
  · rfl
  · exact removeMaster_pc s

theorem Vacant.released (h : Vacant fd s) (hcons : Consistent s) (replid : Bytes) :
    Vacant fd (s.released replid) := by
  unfold Server.released
  split
  · exact h
  · have hm := h.removeMaster hcons
    exact ⟨hm.descriptor, hm.fresh, hm.queue, hm.replicas, hm.waits, hm.link⟩

theorem released_reading (replid : Bytes) (pc : Pc) (sends : List SendResult) (s : Server) :
    { s with pc := pc, sends := sends }.released replid =
      { s.released replid with pc := pc, sends := sends } := by
  unfold released removeMaster removeClient
  dsimp only
  split
  · rfl
  · split
    · rfl
    · split <;> rfl

theorem handleReplicaofNoOne_hosting (h : Vacant client.fd s) (hcons : Consistent s)
    (replid : Bytes) (c : ClientId) : (s.hosting client).handleReplicaofNoOne replid c =
      ((s.released replid).hosting client).reply c (ascii "+OK\r\n") := by
  unfold handleReplicaofNoOne released
  have hsame : (s.hosting client).replInfo = s.replInfo := rfl
  rw [hsame, removeMaster_hosting h hcons]
  split <;> rfl

theorem visit_replied (h : Vacant fd s) (hidle : s.pc = .idle) {response : Bytes}
    (hne : response ≠ []) (htakes : Takes response.length { s with sends := env.sends })
    (args : List Bytes) :
    step (step (((({ s with pc := .reading s.nextId, sends := env.sends }.hosting
        (guest fd args)).reply s.nextId response).eraseRead s.nextId
          (Resp.encodeArray args).length)) (.process env)) (.hangup s.nextId) =
      { s with
        nextId := s.nextId + 1
        wire := update s.wire s.nextId (s.wire s.nextId ++ response)
        sends := env.sends } := by
  obtain ⟨rest, hreply⟩ := reply_hosting (guest fd args)
    (s := { s with pc := .reading s.nextId, sends := env.sends }) rfl hne htakes
  have herase := eraseRead_hosting (guest fd args) (s := { s with
    pc := .reading s.nextId
    wire := update s.wire s.nextId (s.wire s.nextId ++ response)
    sends := rest }) rfl (Resp.encodeArray args).length
  have hfinish := step_finish { fd := fd, type := .regular } (s := { s with
    pc := .reading s.nextId
    wire := update s.wire s.nextId (s.wire s.nextId ++ response)
    sends := rest }) rfl rfl env
  have hleave := removeClient_hosting { fd := fd, type := .regular } (s := { s with
    pc := .idle
    wire := update s.wire s.nextId (s.wire s.nextId ++ response)
    sends := env.sends }) ⟨h.descriptor, h.fresh, h.queue, h.replicas, h.waits, h.link⟩
  have hguest : { guest fd args with
      readBuf := (guest fd args).readBuf.drop (Resp.encodeArray args).length } =
      { fd := fd, type := .regular } := by
    rw [guest, List.drop_length]
  rw [hguest] at herase
  rw [hreply, herase, hfinish]
  refine hleave.trans ?_
  rw [← hidle]

def noOneArgs : List Bytes := [ascii "REPLICAOF", ascii "NO", ascii "ONE"]

theorem visit_noOne (h : Vacant fd s) (hidle : s.pc = .idle) (hcons : Consistent s)
    (htakes : Takes 5 { s with sends := env.sends }) :
    s.visit fd env (Resp.encodeArray noOneArgs) =
      { s.released env.replid with
        nextId := s.nextId + 1
        wire := update s.wire s.nextId (s.wire s.nextId ++ ascii "+OK\r\n")
        sends := env.sends } := by
  have hsized : Resp.Sized noOneArgs := by decide
  have hloaded : Consistent { s with pc := .reading s.nextId, sends := env.sends } :=
    hcons.of_same ⟨rfl, fun _ ↦ rfl, rfl, fun _ ↦ rfl, rfl, rfl, .inl⟩
  have hvacant : Vacant fd { s with pc := .reading s.nextId, sends := env.sends } :=
    ⟨h.descriptor, h.fresh, h.queue, h.replicas, h.waits, h.link⟩
  have hstep := step_replicaof env (receives_guest hsized fd s) rfl (by decide)
  rw [if_pos (by decide)] at hstep
  change _ = ((({ s with pc := .reading s.nextId, sends := env.sends }.hosting
    (guest fd noOneArgs)).handleReplicaofNoOne env.replid s.nextId).eraseRead s.nextId _) at hstep
  rw [handleReplicaofNoOne_hosting hvacant hloaded, released_reading] at hstep
  have hid := released_nextId env.replid s
  have hwire := released_wire env.replid s
  have htakes' : Takes (ascii "+OK\r\n").length { s.released env.replid with sends := env.sends } :=
    htakes
  have hend := visit_replied (h.released hcons env.replid) ((released_pc env.replid s).trans hidle)
    (List.cons_ne_nil _ _) htakes' noOneArgs
  rw [visit_eq h hidle, hstep, ← hid, ← hwire]
  exact hend

theorem heard_of_wire {data response : Bytes}
    (h : (s.visit fd env data).wire =
      update s.wire s.nextId (s.wire s.nextId ++ response)) : s.heard fd env data = response := by
  rw [heard, h, update_self, List.drop_left]

end RedisLite.Server
