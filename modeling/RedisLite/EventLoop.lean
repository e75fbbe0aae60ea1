import RedisLite.Server

namespace RedisLite.Server

open Function Lib.Run

/-- Everything that can happen to a server: the calls of its event loop, with what
the kernel and the clocks answer, and the steps of the writer thread. -/
inductive Event
  | accept (fd : ℕ)
  | recv (c : ClientId) (data : Bytes)
  | hangup (c : ClientId)
  | writable (c : ClientId) (sends : List SendResult)
  | process (env : Env)
  | timeouts (now : TimePoint) (sends : List SendResult)
  | sweep (now : TimePoint)
  | sweepNext
  | rehash (items : List Item)
  | writerSwap (order : List ClientId)
  | writerStep (result : SendResult)

def handleAccept (fd : ℕ) (s : Server) : Server :=
  if (s.fds fd).isSome then s
  else
    { s with
      clients := update s.clients s.nextId (some { fd := fd, type := .regular })
      fds := update s.fds fd (some s.nextId)
      nextId := s.nextId + 1 }

def handleRecv (c : ClientId) (data : Bytes) (s : Server) : Server :=
  if data.isEmpty || (s.clients c).isNone then s
  else
    { s.mapClient c (fun client ↦ { client with readBuf := client.readBuf ++ data }) with
      pc := .reading c }

def startSweep (now : TimePoint) (s : Server) : Server :=
  if s.replInfo.role = .master then
    let expired := s.store.evictExpired now
    { s with store := expired.2, unswept := expired.1, pc := .sweeping }
  else s

def continueSweep (s : Server) : Server :=
  match s.unswept with
  | [] => { s with pc := .idle }
  | key :: keys => { s.sweepKey key with unswept := keys }

/-- An event at which the thread it belongs to does not stand has no effect. -/
def step (s : Server) (e : Event) : Server :=
  match e, s.pc with
  | .accept fd, .idle => s.handleAccept fd
  | .recv c data, .idle => s.handleRecv c data
  | .hangup c, .idle => s.removeClient c
  | .writable c sends, .idle =>
    if (s.clients c).isNone then s else trySend c { s with sends := sends }
  | .process env, .reading c => s.processCommand env c
  | .timeouts now sends, .idle => checkWaitTimeouts now { s with sends := sends }
  | .sweep now, .idle => s.startSweep now
  | .sweepNext, .sweeping => s.continueSweep
  | .rehash items, _ => { s with store := s.store.rehash items }
  | .writerSwap order, _ => if s.snapshot.isEmpty then s.writerSwap order else s
  | .writerStep result, _ => s.writerStep result
  | _, _ => s

inductive Outcome (s : Server) : Event → Server → Prop
  | accept (fd : ℕ) (h : s.pc = .idle) : Outcome s (.accept fd) (s.handleAccept fd)
  | recv (c : ClientId) (data : Bytes) (h : s.pc = .idle) :
    Outcome s (.recv c data) (s.handleRecv c data)
  | hangup (c : ClientId) (h : s.pc = .idle) : Outcome s (.hangup c) (s.removeClient c)
  | writable (c : ClientId) (sends : List SendResult) (h : s.pc = .idle)
    (hc : (s.clients c).isNone = false) :
    Outcome s (.writable c sends) (trySend c { s with sends := sends })
  | process (env : Env) (c : ClientId) (h : s.pc = .reading c) :
    Outcome s (.process env) (s.processCommand env c)
  | timeouts (now : TimePoint) (sends : List SendResult) (h : s.pc = .idle) :
    Outcome s (.timeouts now sends) (checkWaitTimeouts now { s with sends := sends })
  | sweep (now : TimePoint) (h : s.pc = .idle) : Outcome s (.sweep now) (s.startSweep now)
  | sweepNext (h : s.pc = .sweeping) : Outcome s .sweepNext s.continueSweep
  | rehash (items : List Item) :
    Outcome s (.rehash items) { s with store := s.store.rehash items }
  | writerSwap (order : List ClientId) (h : s.snapshot = []) :
    Outcome s (.writerSwap order) (s.writerSwap order)
  | writerStep (result : SendResult) : Outcome s (.writerStep result) (s.writerStep result)
  | skip (e : Event) (hp : ∀ env c, e = .process env → s.pc ≠ .reading c)
    (hs : e = .sweepNext → s.pc ≠ .sweeping) : Outcome s e s

theorem step_outcome (s : Server) (e : Event) : Outcome s e (step s e) := by
  unfold step
  split
  · next h => exact .accept _ h
  · next h => exact .recv _ _ h
  · next h => exact .hangup _ h
  · next h =>
    split
    · exact .skip _ nofun nofun
    · next hc => exact .writable _ _ h (Bool.eq_false_iff.mpr hc)
  · next h => exact .process _ _ h
  · next h => exact .timeouts _ _ h
  · next h => exact .sweep _ h
  · next h => exact .sweepNext h
  · exact .rehash _
  · split
    · next h => exact .writerSwap _ (List.isEmpty_iff.mp h)
    · exact .skip _ nofun nofun
  · exact .writerStep _
  · next hprocess _ _ hsweep => exact .skip _ hprocess hsweep

/-- The command at the front of a connection's read buffer, executed and handed to
the branch for its connection type. -/
def runCommand (env : Env) (c : ClientId) (client : Client) (args : List Bytes) (n : ℕ)
    (s : Server) : Server :=
  let executed := Command.execute env.clock.steady args s.store s.replInfo
    (client.type == .masterConn)
  dispatch env c client.type args executed.1 n
    { s with sends := env.sends, store := executed.2 }

inductive Processed (env : Env) (c : ClientId) (s : Server) : Server → Prop
  | gone (h : s.clients c = none) : Processed env c s { s with pc := .useAfterFree }
  | done (client : Client) (h : s.clients c = some client) (hn : Resp.next client.readBuf = none) :
    Processed env c s (finishRead c client { s with sends := env.sends })
  | command (client : Client) (h : s.clients c = some client) (args : List Bytes) (n : ℕ)
    (hp : Resp.parse client.readBuf = ⟨args, n⟩) (hn : 0 < n) :
    Processed env c s ((s.runCommand env c client args n).eraseRead c n)

theorem processCommand_processed (env : Env) (c : ClientId) (s : Server) :
    Processed env c s (s.processCommand env c) := by
  unfold processCommand
  split
  · next h => exact .gone h
  · next client h =>
    cases hn : Resp.next client.readBuf with
    | none =>
      simp only [Resp.parse_eq_next, hn, if_true]
      exact .done client h hn
    | some p =>
      obtain ⟨args, n⟩ := p
      have hpos := Resp.next_pos hn
      have hp : Resp.parse client.readBuf = ⟨args, n⟩ := by rw [Resp.parse_eq_next, hn]
      simp only [hp, Nat.pos_iff_ne_zero.mp hpos, if_false]
      exact .command client h args n hp hpos

inductive Handled (env : Env) (c : ClientId) (args : List Bytes) (response : Bytes) (s : Server) :
    Server → Prop
  | write (h : Command.isWrite args = true) :
    Handled env c args response s ((s.appendReply c response).trackWrite args)
  | wait (hw : Command.isWrite args = false) (hn : commandName args = ascii "WAIT")
    (hr : response = []) : Handled env c args response s (s.handleWait env.clock.steady c args)
  | replicaof (hw : Command.isWrite args = false) (hn : commandName args = ascii "REPLICAOF")
    (hr : response = []) : Handled env c args response s (s.handleReplicaof env c args)
  | psync (hw : Command.isWrite args = false) (hn : commandName args = ascii "PSYNC")
    (hr : response = []) : Handled env c args response s (s.handlePsync env.clock c args)
  | plain (hw : Command.isWrite args = false)
    (hn : commandName args = ascii "WAIT" → response ≠ []) :
    Handled env c args response s (s.appendReply c response)

theorem isWriteCommand_commandName (args : List Bytes) :
    Command.isWriteCommand (commandName args) = Command.isWrite args := by
  cases args with
  | nil => rfl
  | cons name rest => exact Command.isWriteCommand_toUpper name

theorem commandName_of_write {args : List Bytes} (h : Command.isWrite args = true) :
    commandName args = ascii "SET" ∨ commandName args = ascii "DEL" := by
  cases args with
  | nil => cases h
  | cons name rest => exact Command.isWriteCommand_iff.mp h

theorem handleRegular_handled (env : Env) (c : ClientId) (args : List Bytes) (response : Bytes)
    (s : Server) : Handled env c args response s (s.handleRegular env c args response) := by
  unfold handleRegular
  simp only [isWriteCommand_commandName]
  by_cases hw : Command.isWrite args = true
  · have hne : commandName args ≠ ascii "WAIT" ∧ commandName args ≠ ascii "REPLICAOF" ∧
        commandName args ≠ ascii "PSYNC" := by
      rcases commandName_of_write hw with hn | hn <;> rw [hn] <;> decide
    simp only [hw, if_true, beq_eq_false_iff_ne.mpr hne.1, beq_eq_false_iff_ne.mpr hne.2.1,
      beq_eq_false_iff_ne.mpr hne.2.2, Bool.false_and, Bool.false_eq_true, if_false]
    exact .write hw
  · rw [Bool.not_eq_true] at hw
    simp only [hw, Bool.false_eq_true, if_false, Bool.and_eq_true, beq_iff_eq, List.isEmpty_iff]
    split
    · next h => exact .wait hw h.1 h.2
    · next hwait =>
      split
      · next h => exact .replicaof hw h.1 h.2
      · split
        · next h => exact .psync hw h.1 h.2
        · exact .plain hw (not_and.mp hwait)

/-- Host and port that a command hands to `handle_replicaof_set_master`. -/
def replicaofTarget (args : List Bytes) : Option (Bytes × ℤ) :=
  match args with
  | _ :: host :: port :: _ =>
    if toUpper host == ascii "NO" && toUpper port == ascii "ONE" then none
    else
      match stoi port with
      | .error _ => none
      | .ok n => some (host, n)
  | _ => none

inductive Demoted (env : Env) (c : ClientId) (args : List Bytes) (s : Server) : Server → Prop
  | noOne : Demoted env c args s (s.handleReplicaofNoOne env.replid c)
  | refused (response : Bytes) : Demoted env c args s (s.reply c response)
  | ignored : Demoted env c args s s
  | setMaster (host : Bytes) (port : ℤ) (h : replicaofTarget args = some (host, port)) :
    Demoted env c args s (s.handleReplicaofSetMaster env.clock env.peer c host port)

theorem handleReplicaof_demoted (env : Env) (c : ClientId) (args : List Bytes) (s : Server) :
    Demoted env c args s (s.handleReplicaof env c args) := by
  unfold handleReplicaof
  split
  · next host port _ =>
    split
    · exact .noOne
    · next hno =>
      split
      · exact .refused _
      · next n hport =>
        refine .setMaster host n ?_
        simp [replicaofTarget, hno, hport]
  · exact .ignored

/-- The main thread is about to execute `args`, the first command in the read buffer
of the connection it is reading. -/
structure Receives (s : Server) (c : ClientId) (client : Client) (args : List Bytes) (n : ℕ) :
    Prop where
  pc : s.pc = .reading c
  connected : s.clients c = some client
  parsed : Resp.parse client.readBuf = ⟨args, n⟩
  complete : 0 < n

theorem Receives.next {s : Server} {c : ClientId} {client : Client} {args : List Bytes} {n : ℕ}
    (h : Receives s c client args n) : Resp.next client.readBuf = some (args, n) := by
  have hp := h.parsed
  rw [Resp.parse_eq_next] at hp
  cases hn : Resp.next client.readBuf with
  | none =>
    rw [hn] at hp
    cases hp
    exact absurd h.complete (lt_irrefl 0)
  | some p =>
    rw [hn] at hp
    cases hp
    rfl

theorem Receives.unique {s : Server} {c c' : ClientId} {client client' : Client}
    {args args' : List Bytes} {n n' : ℕ} (h : Receives s c client args n)
    (h' : Receives s c' client' args' n') : c' = c ∧ client' = client ∧ args' = args ∧ n' = n := by
  have hpc := h'.pc
  rw [h.pc] at hpc
  cases hpc
  have hclient := h'.connected
  rw [h.connected] at hclient
  cases hclient
  have hparsed := h'.parsed
  rw [h.parsed] at hparsed
  cases hparsed
  exact ⟨rfl, rfl, rfl, rfl⟩

structure Taking where
  env : Env
  c : ClientId
  client : Client
  args : List Bytes
  n : ℕ

def taking (s : Server) (e : Event) : Option Taking :=
  match e, s.pc with
  | .process env, .reading c =>
    (s.clients c).bind (fun client ↦
      (Resp.next client.readBuf).map (fun p ↦ ⟨env, c, client, p.1, p.2⟩))
  | _, _ => none

theorem Receives.taking_eq {s : Server} {c : ClientId} {client : Client} {args : List Bytes} {n : ℕ}
    (h : Receives s c client args n) (env : Env) :
    s.taking (.process env) = some ⟨env, c, client, args, n⟩ := by
  simp only [taking, h.pc, h.connected, h.next, Option.bind_some, Option.map_some]

theorem receives_of_taking {s : Server} {e : Event} {tk : Taking} (h : s.taking e = some tk) :
    e = .process tk.env ∧ Receives s tk.c tk.client tk.args tk.n := by
  unfold taking at h
  split at h
  · next env c hpc =>
    obtain ⟨client, hc, h⟩ := Option.bind_eq_some_iff.mp h
    obtain ⟨⟨args, n⟩, hnext, h⟩ := Option.map_eq_some_iff.mp h
    cases h
    refine ⟨rfl, hpc, hc, ?_, Resp.next_pos hnext⟩
    rw [Resp.parse_eq_next, hnext]
  · cases h

/-- What holds of every command that a step executes can be decided. -/
theorem forall_taking_iff {s : Server} {e : Event} {P : Env → ClientId → Client → List Bytes → Prop} :
    (∀ tk ∈ s.taking e, P tk.env tk.c tk.client tk.args) ↔
      ∀ env c client args n, e = .process env → Receives s c client args n → P env c client args := by
  constructor
  · rintro h env c client args n rfl hc
    exact h _ (hc.taking_eq env)
  · intro h tk htk
    obtain ⟨he, hc⟩ := receives_of_taking htk
    exact h _ _ _ _ _ he hc

theorem Receives.step_eq {s : Server} {c : ClientId} {client : Client} {args : List Bytes} {n : ℕ}
    (h : Receives s c client args n) (env : Env) :
    step s (.process env) = (s.runCommand env c client args n).eraseRead c n := by
  have hne : n ≠ 0 := Nat.pos_iff_ne_zero.mp h.complete
  have hstep : step s (.process env) = s.processCommand env c := by simp only [step, h.pc]
  rw [hstep]
  simp only [processCommand, h.connected, h.parsed, hne, if_false]
  rfl

/-- The write commands of regular clients and the deletions of a sweep, which are counted,
fed to the backlog and queued. -/
def written (s : Server) (e : Event) : List (List Bytes) :=
  match e, s.pc with
  | .process _, .reading c =>
    match s.clients c with
    | some client =>
      if client.type = .regular then
        ((Resp.next client.readBuf).toList.map (·.1)).filter Command.isWrite
      else []
    | none => []
  | .sweepNext, .sweeping => (s.unswept.take 1).map (fun key ↦ [ascii "DEL", key])
  | _, _ => []

theorem Receives.written_eq {s : Server} {c : ClientId} {client : Client} {args : List Bytes} {n : ℕ}
    (h : Receives s c client args n) (env : Env) : written s (.process env) =
      if client.type = .regular then [args].filter Command.isWrite else [] := by
  simp only [written, h.pc, h.connected, h.next]
  rfl

def init (replid : Bytes) : Server where
  replInfo := { role := .master, masterReplid := replid }

def sampleId : Bytes := ascii "8371b4fb1155b71f4a04d3e1bc3e18c4a990aeeb"

theorem ofNat_nonneg (t : ℕ) : 0 ≤ Int64.ofNat (t % 2 ^ 63) := by
  rw [Int64.le_iff_toInt_le, Int64.toInt_ofNat_of_lt (Nat.mod_lt t (by decide))]
  exact Int.natCast_nonneg _

def Env.quiet (t : ℕ) : Env where
  clock := ⟨Int64.ofNat (t % 2 ^ 63), Int64.ofNat (t % 2 ^ 63), ofNat_nonneg t, ofNat_nonneg t⟩

def request (c : ClientId) (args : List Bytes) (env : Env) : List Event :=
  [.recv c (Resp.encodeArray args), .process env, .process env]

/-- A server started with `--replicaof`, before its handshake. -/
def initWorker (replid host : Bytes) (port : ℤ) : Server where
  replInfo := { role := .worker, masterReplid := replid, masterHost := host, masterPort := port }
  replicaof := some (host, port)

/-- The states a server can start its event loop in. A worker whose handshake fails
does not get that far. -/
inductive Initial : Server → Prop
  | master (replid : Bytes) : Initial (init replid)
  | worker (replid host : Bytes) (port : ℤ) (clk : Clock) (peer : Handshake.Peer) (s : Server)
    (h : (initWorker replid host port).connectToMaster clk peer host port = (s, none)) : Initial s

def samplePeer : Handshake.Peer where
  socket := some 6
  recvs := [ascii "+PONG\r\n", ascii "+OK\r\n", ascii "+OK\r\n",
    (init sampleId).fullResyncReply (Env.quiet 0).clock]

def sampleWorker : Server :=
  ((initWorker (ascii "0") (ascii "localhost") 6379).connectToMaster (Env.quiet 0).clock samplePeer
    (ascii "localhost") 6379).1

theorem sampleWorker_initial : Initial sampleWorker := by
  refine .worker (ascii "0") (ascii "localhost") 6379 (Env.quiet 0).clock samplePeer _
    (Prod.ext ?_ ?_)
  · rw [sampleWorker]
  · decide +kernel

def Reachable (s : Server) : Prop := ∃ s₀ es, Initial s₀ ∧ run step s₀ es = s

end RedisLite.Server
