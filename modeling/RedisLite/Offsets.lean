import RedisLite.Answers
import RedisLite.Bookkeeping

namespace RedisLite

open Handshake Lib.Run

theorem encodeArray_pos (args : List Bytes) : (0 : ℤ) < (Resp.encodeArray args).length := by
  have := Resp.encodeArray_length_pos args
  omega

namespace Server

variable {s : Server}

def IsError (response : Bytes) : Prop := response.head? = some 45

theorem handleRegular_of_error {env : Env} {c : ClientId} {args : List Bytes} {response : Bytes}
    (hr : IsError response) (hw : Command.isWrite args = false) (s : Server) :
    s.handleRegular env c args response = s.appendReply c response := by
  have hne : response ≠ [] := by
    rintro rfl
    cases hr
  have h := handleRegular_handled env c args response s
  generalize s.handleRegular env c args response = t at h ⊢
  cases h with
  | write h => rw [hw] at h; cases h
  | wait _ _ h => exact absurd h hne
  | replicaof _ _ h => exact absurd h hne
  | psync _ _ h => exact absurd h hne
  | plain => rfl

theorem handleRegular_of_write {env : Env} {c : ClientId} {args : List Bytes} {response : Bytes}
    (hw : Command.isWrite args = true) (s : Server) :
    s.handleRegular env c args response = (s.appendReply c response).trackWrite args := by
  have h := handleRegular_handled env c args response s
  generalize s.handleRegular env c args response = t at h ⊢
  cases h with
  | write => rfl
  | wait h => rw [hw] at h; cases h
  | replicaof h => rw [hw] at h; cases h
  | psync h => rw [hw] at h; cases h
  | plain h => rw [hw] at h; cases h

theorem runCommand_regular (env : Env) (c : ClientId) {client : Client} (args : List Bytes) (n : ℕ)
    (ht : client.type = .regular) (s : Server) :
    s.runCommand env c client args n = handleRegular env c args
      (Command.execute env.clock.steady args s.store s.replInfo false).1
      { s with
        sends := env.sends
        store := (Command.execute env.clock.steady args s.store s.replInfo false).2 } := by
  simp only [runCommand, ht, dispatch]
  rfl

theorem runCommand_link (env : Env) (c : ClientId) {client : Client} (args : List Bytes) (n : ℕ)
    (ht : client.type = .masterConn) (s : Server) :
    s.runCommand env c client args n = handleMasterRead c args
      (Command.execute env.clock.steady args s.store s.replInfo true).1 n
      { s with
        sends := env.sends
        store := (Command.execute env.clock.steady args s.store s.replInfo true).2 } := by
  simp only [runCommand, ht, dispatch]
  rfl

theorem runCommand_replica (env : Env) (c : ClientId) {client : Client} (args : List Bytes) (n : ℕ)
    (ht : client.type = .replica) (s : Server) :
    s.runCommand env c client args n = handleReplicaRead c args
      { s with
        sends := env.sends
        store := (Command.execute env.clock.steady args s.store s.replInfo false).2 } := by
  simp only [runCommand, ht, dispatch]
  rfl

theorem execute_psync {args : List Bytes} (hn : commandName args = ascii "PSYNC") (now : TimePoint)
    (store : Store) (info : ReplicationInfo) (fromMaster : Bool) :
    (Command.execute now args store info fromMaster).1 = [] := by
  cases args with
  | nil => cases hn
  | cons name args =>
    have hw : Command.isWriteCommand (ascii "PSYNC") = false := by decide
    change toUpper name = _ at hn
    simp only [Command.execute, hn, hw, Bool.and_false, Bool.false_eq_true, if_false]
    rfl

theorem isWrite_of_psync {args : List Bytes} (hn : commandName args = ascii "PSYNC") :
    Command.isWrite args = false := by
  rw [← isWriteCommand_commandName, hn]
  decide

theorem step_psync (env : Env) {c : ClientId} {client : Client} {args : List Bytes} {n : ℕ}
    {s : Server} (hc : Receives s c client args n) (ht : client.type = .regular)
    (hn : commandName args = ascii "PSYNC") : step s (.process env) =
      (handlePsync env.clock c args { s with sends := env.sends }).eraseRead c n := by
  have hregular : (handleRegular env c args [] { s with sends := env.sends }) =
      handlePsync env.clock c args { s with sends := env.sends } := by
    simp only [handleRegular, hn]
    rfl
  rw [hc.step_eq env, runCommand_regular env c args n ht, execute_psync hn,
    Command.execute_of_not_write _ _ _ _ (isWrite_of_psync hn), hregular]

theorem execute_wait {args : List Bytes} (hn : commandName args = ascii "WAIT") (now : TimePoint)
    (store : Store) (info : ReplicationInfo) (fromMaster : Bool) :
    (Command.execute now args store info fromMaster).1 = Command.executeWait args := by
  cases args with
  | nil => cases hn
  | cons name args =>
    have hw : Command.isWriteCommand (ascii "WAIT") = false := by decide
    change toUpper name = _ at hn
    simp only [Command.execute, hn, hw, Bool.and_false, Bool.false_eq_true, if_false]
    rfl

theorem isWrite_of_wait {args : List Bytes} (hn : commandName args = ascii "WAIT") :
    Command.isWrite args = false := by
  rw [← isWriteCommand_commandName, hn]
  decide

theorem eraseRead_queues (c : ClientId) (n : ℕ) (s : Server) :
    (s.eraseRead c n).replQueues = s.replQueues := by
  unfold eraseRead
  split
  · rfl
  · split <;> rfl

def NoReplicationEffect (s t : Server) : Prop :=
  t.store = s.store ∧ t.masterReplOffset = s.masterReplOffset ∧ t.replInfo = s.replInfo ∧
    t.backlog = s.backlog ∧ t.replQueues = s.replQueues

/-- A refused command of a regular client leaves replication alone exactly when its
name is not that of a write command; a refused `SET` or `DEL` is counted, fed to the
backlog and queued like an accepted one. -/
theorem refused_iff_not_write (s : Server) (env : Env) (c : ClientId) (client : Client)
    (args : List Bytes) (n : ℕ) (hc : Receives s c client args n) (ht : client.type = .regular)
    (hr : IsError (Command.execute env.clock.steady args s.store s.replInfo false).1) :
    NoReplicationEffect s (step s (.process env)) ↔ Command.isWrite args = false := by
  rw [hc.step_eq env]
  have hd := data_eraseRead c n (s.runCommand env c client args n)
  have hq := eraseRead_queues c n (s.runCommand env c client args n)
  have hrun := runCommand_regular env c args n ht s
  constructor
  · intro h
    by_contra hw
    rw [Bool.not_eq_false] at hw
    rw [hrun, handleRegular_of_write hw] at h
    rw [hrun, handleRegular_of_write hw, data_trackWrite, data_appendReply] at hd
    have hoff : s.masterReplOffset = s.masterReplOffset + (Resp.encodeArray args).length :=
      h.2.1.symm.trans (congrArg Data.masterReplOffset hd)
    have hpos := encodeArray_pos args
    omega
  · intro hw
    rw [handleRegular_of_error hr hw, Command.execute_of_not_write _ _ _ _ hw] at hrun
    rw [hrun, data_appendReply] at hd
    rw [hrun] at hq
    rw [hrun]
    exact ⟨congrArg Data.store hd, congrArg Data.masterReplOffset hd, congrArg Data.replInfo hd,
      congrArg Data.backlog hd, hq⟩

/-- A `GET` without a key is refused and leaves no trace. -/
theorem refused_get_ignored :
    IsError (Command.execute 0 [ascii "GET"] (run step (init sampleId)
      [.accept 5, .recv 0 (Resp.encodeArray [ascii "GET"])]).store (init sampleId).replInfo false).1 ∧
    NoReplicationEffect (run step (init sampleId)
        [.accept 5, .recv 0 (Resp.encodeArray [ascii "GET"])])
      (step (run step (init sampleId) [.accept 5, .recv 0 (Resp.encodeArray [ascii "GET"])])
        (.process (.quiet 0))) := by
  refine ⟨rfl, (refused_iff_not_write _ (.quiet 0) 0
    { fd := 5, type := .regular, readBuf := Resp.encodeArray [ascii "GET"] } [ascii "GET"] 13
    ⟨rfl, rfl, rfl, by decide⟩ rfl ?_).mpr rfl⟩
  rfl

/-- A `SET` without a value is refused, yet it moves the offset of a fresh master. -/
theorem refused_set_counted :
    ∃ s client, Reachable s ∧ Receives s 0 client [ascii "SET", ascii "k"] 20 ∧
      client.type = .regular ∧
      (Command.execute 0 [ascii "SET", ascii "k"] s.store s.replInfo false).1 =
        ascii "-ERR wrong number of arguments for 'set' command\r\n" ∧
      s.masterReplOffset = 0 ∧ (step s (.process (.quiet 0))).masterReplOffset = 20 ∧
      ¬NoReplicationEffect s (step s (.process (.quiet 0))) := by
  refine ⟨run step (init sampleId) [.accept 5, .recv 0 (Resp.encodeArray [ascii "SET", ascii "k"])],
    { fd := 5, type := .regular, readBuf := Resp.encodeArray [ascii "SET", ascii "k"] },
    ⟨_, _, .master sampleId, rfl⟩, ⟨rfl, rfl, rfl, by decide⟩, rfl, rfl, rfl, rfl, fun h ↦ ?_⟩
  exact absurd h.2.1 (by decide)

/-- The offset that is left in `master_repl_offset_` while the server tries to become
a worker. -/
def handshakeOffset (s : Server) : ℤ :=
  if s.replInfo.role = .master then 0 else s.masterReplOffset

/-- No sweep has a key to delete, and a peer that survivably refuses a demotion has announced the
offset the server is left with, or none if that is zero; a backlog that is not empty ends there. -/
def KeepsCounters (s : Server) : Event → Prop
  | .sweepNext => s.unswept = []
  | .process env => ∀ c host port, Demotes s c host port →
      Survives (s.demotionPeer env c host port) → ¬Admits (s.demotionPeer env c host port) →
      (∀ id n, Announces (s.demotionPeer env c host port) id n → n = s.handshakeOffset) ∧
        ((∀ id n, ¬Announces (s.demotionPeer env c host port) id n) → s.handshakeOffset = 0) ∧
        (s.backlog.isEmpty = false → s.backlog.endOffset = s.handshakeOffset)
  | _ => True

end Server

namespace Data

def Agrees (d : Data) : Prop := d.replInfo.role = .master →
  d.masterReplOffset = d.replInfo.masterReplOffset ∧
    (d.backlog.isEmpty = false → d.backlog.endOffset = d.masterReplOffset)

theorem feed_end (b : ReplicationBacklog) (data : Bytes) (o : ℤ) (h : 0 < data.length) :
    (b.feed data o).endOffset = o + data.length := by
  have hne : data ≠ [] := List.length_pos_iff.mp h
  simp [ReplicationBacklog.feed, hne]

theorem agrees_track (args : List Bytes) (d : Data) : Agrees (d.track args) :=
  fun _ ↦ ⟨rfl, fun _ ↦ feed_end _ _ _ (Resp.encodeArray_length_pos args)⟩

theorem agrees_promote (replid : Bytes) (d : Data) : Agrees (d.promote replid) :=
  fun _ ↦ ⟨rfl, fun _ ↦ rfl⟩

theorem agrees_of_worker {d : Data} (h : d.replInfo.role = .worker) : Agrees d := by
  intro hr
  rw [h] at hr
  cases hr

end Data

namespace Server

variable {s : Server}

theorem role_of_link (hs : Consistent s) {c : ClientId} {client : Client}
    (hc : s.clients c = some client) (ht : client.type = .masterConn) :
    s.replInfo.role = .worker := by
  cases hr : s.replInfo.role with
  | worker => rfl
  | master =>
    have hm := (hs.master_iff c).mpr ⟨client, hc, ht⟩
    rw [hs.role hr] at hm
    cases hm

theorem handshakeFrom_data {env : Env} {c : ClientId} {host : Bytes} {port : ℤ} {t : Server}
    {failure : Option Handshake.Failure} (h : s.handshakeFrom env c host port = (t, failure)) :
    ∃ id n store, t.data = (s.data.demote host port).handshake id n store := by
  obtain ⟨id, n, store, hd⟩ := data_connectToMaster h
  rw [data_demote] at hd
  exact ⟨id, n, store, hd⟩

theorem handshakeFrom_role {env : Env} {c : ClientId} {host : Bytes} {port : ℤ} {t : Server}
    {failure : Option Handshake.Failure} (h : s.handshakeFrom env c host port = (t, failure)) :
    t.data.replInfo.role = .worker := by
  obtain ⟨id, n, store, hd⟩ := handshakeFrom_data h
  rw [hd]
  rfl

theorem handshakeFrom_failed {env : Env} {c : ClientId} {host : Bytes} {port : ℤ} {t : Server}
    {failure : Handshake.Failure} (h : s.handshakeFrom env c host port = (t, some failure)) :
    ∃ id n, t.data = (s.data.demote host port).handshake id n s.store := by
  have hcon := handshakeFrom_connected env c host port s
  have hd : (demote c host port { s with sends := env.sends }).data = s.data.demote host port :=
    data_demote c host port { s with sends := env.sends }
  rw [h] at hcon
  cases hcon with
  | failed id n store _ hout =>
    have hstore := Handshake.connect_error (congrArg Handshake.Outcome.result hout)
    rw [hout] at hstore
    change store = (demote c host port { s with sends := env.sends }).data.store at hstore
    rw [hd] at hstore
    refine ⟨id, n, ?_⟩
    rw [← hd]
    subst hstore
    rfl

theorem agrees_step {e : Event} (hcons : Consistent s) (hs : s.data.Agrees)
    (hk : KeepsCounters s e) : (step s e).data.Agrees := by
  have h := step_dataStep s e
  generalize (step s e).data = d, written s e = cmds at h ⊢
  cases h with
  | same => exact hs
  | rehash => exact hs
  | sweep => exact hs
  | sweepNext key keys hpc hkeys =>
    have hnone : s.unswept = [] := hk
    rw [hkeys] at hnone
    cases hnone
  | link env c client args n hc ht =>
    exact Data.agrees_of_worker (role_of_link hcons hc.connected ht)
  | replica => exact hs
  | write env c client args => exact Data.agrees_track args _
  | promote env => exact Data.agrees_promote env.replid _
  | linked env c host port hd t h => exact Data.agrees_of_worker (handshakeFrom_role h)
  | terminated env c host port hd t h => exact Data.agrees_of_worker (handshakeFrom_role h)
  | reverted env c host port hd t what h =>
    obtain ⟨hsurvives, hnot⟩ := handshakeFrom_reverted h
    obtain ⟨hannounced, hsilent, hback⟩ := hk c host port hd hsurvives hnot
    have hoffset : t.replInfo.masterReplOffset = s.handshakeOffset := by
      rcases handshakeFrom_announced h hsurvives with hann | ⟨hnone, -, hzero⟩
      · exact hannounced _ _ hann
      · exact hzero.trans (hsilent hnone).symm
    obtain ⟨id, n, store, hdata⟩ := handshakeFrom_data h
    have hn : t.replInfo.masterReplOffset = n :=
      congrArg (fun d : Data ↦ d.replInfo.masterReplOffset) hdata
    rw [hdata]
    exact fun _ ↦ ⟨hoffset.symm.trans hn, hback⟩

theorem agrees_of_initial (hs : Initial s) : s.data.Agrees := by
  cases hs with
  | master replid => exact fun _ ↦ ⟨rfl, fun h ↦ by cases h⟩
  | worker replid host port clk peer s h =>
    obtain ⟨id, n, store, hd⟩ := data_connectToMaster h
    rw [hd]
    exact Data.agrees_of_worker rfl

/-- In every run whose steps keep the counters together, `INFO`, `WAIT` and `PSYNC`
of a master speak of one offset, at the boundaries of the event loop and between them. -/
theorem counters_agree_along {s₀ : Server} {es : List Event} (h₀ : Initial s₀)
    (hk : Along step KeepsCounters s₀ es) (hr : (run step s₀ es).replInfo.role = .master) :
    (run step s₀ es).masterReplOffset = (run step s₀ es).replInfo.masterReplOffset ∧
      ((run step s₀ es).backlog.isEmpty = false →
        (run step s₀ es).backlog.endOffset = (run step s₀ es).masterReplOffset) := by
  have h : Consistent (run step s₀ es) ∧ (run step s₀ es).data.Agrees :=
    run_invariant step (I := fun s ↦ Consistent s ∧ s.data.Agrees)
      (fun s e hs he ↦ ⟨hs.1.step e, agrees_step hs.1 hs.2 he⟩)
      ⟨Consistent.of_initial h₀, agrees_of_initial h₀⟩ hk
  exact h.2 hr

def setRun : List Event :=
  [.accept 5, .recv 0 (Resp.encodeArray [ascii "SET", ascii "k", ascii "v"]), .process (.quiet 0)]

/-- A master that has taken one write. -/
theorem counters_agree_after_set :
    (run step (init sampleId) setRun).masterReplOffset = 27 ∧
      (run step (init sampleId) setRun).masterReplOffset =
        (run step (init sampleId) setRun).replInfo.masterReplOffset := by
  have hk : Along step KeepsCounters (init sampleId) setRun := by
    refine ⟨trivial, trivial, ?_, trivial⟩
    intro c host port hd
    have hc : Receives (run step (init sampleId) (setRun.take 2)) 0
        { fd := 5, type := .regular,
          readBuf := Resp.encodeArray [ascii "SET", ascii "k", ascii "v"] }
        [ascii "SET", ascii "k", ascii "v"] 27 := ⟨rfl, rfl, rfl, by decide⟩
    cases hd.commandName_eq hc
  exact ⟨rfl, (counters_agree_along (.master sampleId) hk rfl).1⟩

/-- One key runs out and is swept: the stream has moved on, `INFO` has not. -/
theorem sweep_splits_counters :
    ∃ s, Reachable s ∧ s.pc = .idle ∧ s.replInfo.role = .master ∧ s.masterReplOffset = 62 ∧
      s.replInfo.masterReplOffset = 42 := by
  refine ⟨run step (init sampleId) [.accept 5,
    .recv 0 (Resp.encodeArray [ascii "SET", ascii "k", ascii "v", ascii "PX", ascii "1"]),
    .process (.quiet 0), .process (.quiet 0), .sweep 1000000, .sweepNext, .sweepNext],
    ⟨_, _, .master sampleId, rfl⟩, ?_⟩
  decide +kernel

end Server

end RedisLite
