import RedisLite.Backlog
import RedisLite.Handshake
import Mathlib.Logic.Function.Basic

namespace RedisLite

abbrev ClientId := ℕ

inductive ClientType
  | regular
  | replica
  | masterConn
  deriving DecidableEq

structure Client where
  fd : ℕ
  type : ClientType
  readBuf : Bytes := []
  writeBuf : Bytes := []
  ackOffset : ℤ := 0
  deriving DecidableEq

structure WaitState where
  client : ClientId
  numNeeded : ℤ
  targetOffset : ℤ
  deadline : TimePoint
  deriving DecidableEq

structure ReplicaWriteQueue where
  pending : Bytes
  draining : Bytes := []
  fd : ℕ
  removed : Bool := false

/-- What the kernel answers to a `send`: a positive number of bytes, one more than
`n` and at most all of them, or one of the two kinds of failure. A broken pipe is an error for the
writer thread only, which sends with `MSG_NOSIGNAL`; on the main thread its signal ends the process,
and the run with it. -/
inductive SendResult
  | sent (n : ℕ)
  | again
  | error
  deriving DecidableEq

/-- Where the main thread stands. After a use of freed memory or an exception that
nothing catches, the behaviour of the process is not described any further. -/
inductive Pc
  | idle
  | reading (c : ClientId)
  | sweeping
  | useAfterFree
  | terminated
  deriving DecidableEq

structure WaitReply where
  client : ClientId
  count : ℕ
  target : ℤ
  deriving DecidableEq

/-- The fields of `Server`, and of its environment the open connections, the bytes
handed to each of their sockets, the answers still to come from `send`, and the
positions of the two threads, with the keys that the running sweep has removed and
not yet propagated. `repl_queues_` has the queues that are not `removed`; a removed
one can only be seen by the writer thread that still holds it. `waitReplies` records
every integer sent in reply to a `WAIT`. -/
structure Server where
  store : Store := Store.empty
  replInfo : ReplicationInfo
  replicaof : Option (Bytes × ℤ) := none
  masterClient : Option ClientId := none
  replicas : List ClientId := []
  masterReplOffset : ℤ := 0
  backlog : ReplicationBacklog := ReplicationBacklog.new 1048576 (by decide)
  pendingWaits : List WaitState := []
  replQueues : ClientId → Option ReplicaWriteQueue := fun _ ↦ none
  clients : ClientId → Option Client := fun _ ↦ none
  nextId : ClientId := 0
  fds : ℕ → Option ClientId := fun _ ↦ none
  wire : ClientId → Bytes := fun _ ↦ []
  sends : List SendResult := []
  pc : Pc := .idle
  unswept : List Bytes := []
  snapshot : List ClientId := []
  sending : Bool := false
  waitReplies : List WaitReply := []

namespace Server

open Function

def mapClient (c : ClientId) (f : Client → Client) (s : Server) : Server :=
  { s with clients := update s.clients c ((s.clients c).map f) }

def appendReply (c : ClientId) (response : Bytes) (s : Server) : Server :=
  s.mapClient c (fun client ↦ { client with writeBuf := client.writeBuf ++ response })

def removeClient (c : ClientId) (s : Server) : Server :=
  match s.clients c with
  | none => s
  | some client =>
    { s with
      masterClient := if s.masterClient = some c then none else s.masterClient
      replicas := s.replicas.filter (· ≠ c)
      replQueues := update s.replQueues c
        ((s.replQueues c).map (fun queue ↦ { queue with removed := true }))
      pendingWaits := s.pendingWaits.filter (·.client ≠ c)
      fds := update s.fds client.fd none
      clients := update s.clients c none }

/-- The outcome of `try_send`'s loop: the bytes sent, the bytes kept, the answers
left over, and whether `send` failed for good. No answer left means `EAGAIN`. -/
def sendLoop : List SendResult → Bytes → Bytes × Bytes × List SendResult × Bool
  | sends, [] => ([], [], sends, false)
  | [], buf => ([], buf, [], false)
  | .again :: sends, buf => ([], buf, sends, false)
  | .error :: sends, buf => ([], buf, sends, true)
  | .sent n :: sends, buf =>
    let r := sendLoop sends (buf.drop (n + 1))
    (buf.take (n + 1) ++ r.1, r.2)

def deliver (c : ClientId) (sent kept : Bytes) (sends : List SendResult) (s : Server) : Server :=
  { s.mapClient c (fun client ↦ { client with writeBuf := kept }) with
    wire := update s.wire c (s.wire c ++ sent)
    sends := sends }

def trySend (c : ClientId) (s : Server) : Server :=
  match s.clients c with
  | none => { s with pc := .useAfterFree }
  | some client =>
    let r := sendLoop s.sends client.writeBuf
    let s := s.deliver c r.1 r.2.1 r.2.2.1
    if r.2.2.2 then s.removeClient c else s

def reply (c : ClientId) (response : Bytes) (s : Server) : Server :=
  (s.appendReply c response).trySend c

def countCaughtUpReplicas (targetOffset : ℤ) (s : Server) : ℕ :=
  s.replicas.countP (fun r ↦ (s.clients r).any (fun replica ↦ targetOffset ≤ replica.ackOffset))

def integerReply (n : ℕ) : Bytes := ascii ":" ++ toStr n ++ crlf

def replyWait (c : ClientId) (count : ℕ) (target : ℤ) (s : Server) : Server :=
  reply c (integerReply count) { s with waitReplies := s.waitReplies ++ [⟨c, count, target⟩] }

/-- The loop over `pending_waits_`: every wait that is due gets its reply and leaves
the list. A failed `send` removes the client and with it the element under the
iterator. -/
def settleWaits (due : WaitState → ℕ → Bool) : List WaitState → List WaitState → Server → Server
  | kept, [], s => { s with pendingWaits := kept }
  | kept, wait :: waits, s =>
    let caughtUp := s.countCaughtUpReplicas wait.targetOffset
    if due wait caughtUp then
      let s := s.replyWait wait.client caughtUp wait.targetOffset
      if (s.clients wait.client).isNone then { s with pc := .useAfterFree }
      else settleWaits due kept waits s
    else settleWaits due (kept ++ [wait]) waits s

def resolvePendingWaits (s : Server) : Server :=
  settleWaits (fun wait caughtUp ↦ decide (wait.numNeeded ≤ caughtUp)) [] s.pendingWaits s

def checkWaitTimeouts (now : TimePoint) (s : Server) : Server :=
  settleWaits (fun wait _ ↦ decide (wait.deadline ≤ now)) [] s.pendingWaits s

def propagateToReplicas (data : Bytes) (s : Server) : Server :=
  if s.replicas.isEmpty then s
  else
    { s with
      replQueues := fun c ↦ (s.replQueues c).map (fun queue ↦
        if queue.removed then queue else { queue with pending := queue.pending ++ data }) }

def handleMasterRead (c : ClientId) (args : List Bytes) (response : Bytes) (bytesConsumed : ℕ)
    (s : Server) : Server :=
  let s := { s with
    replInfo := { s.replInfo with
      masterReplOffset := s.replInfo.masterReplOffset + bytesConsumed } }
  match args with
  | name :: sub :: _ =>
    if toUpper name == ascii "REPLCONF" && toUpper sub == ascii "GETACK" then
      s.appendReply c response
    else s
  | _ => s

def handleReplicaRead (c : ClientId) (args : List Bytes) (s : Server) : Server :=
  match args with
  | name :: sub :: offset :: _ =>
    if toUpper name == ascii "REPLCONF" && toUpper sub == ascii "ACK" then
      match stoll offset with
      | .error _ => s
      | .ok n =>
        (s.mapClient c (fun client ↦ { client with ackOffset := n })).resolvePendingWaits
    else s
  | _ => s

def addReplica (c : ClientId) (data : Bytes) (s : Server) : Server :=
  { s.mapClient c (fun client ↦ { client with type := .replica }) with
    replicas := s.replicas ++ [c]
    replQueues := update s.replQueues c
      ((s.clients c).map (fun client ↦ { pending := data, fd := client.fd })) }

def psyncPosition (args : List Bytes) : Bytes × ℤ :=
  let id := match args with
    | _ :: id :: _ => id
    | _ => ascii "?"
  let offset := match args with
    | _ :: _ :: offset :: _ =>
      if offset == ascii "-1" then -1
      else
        match stoll offset with
        | .ok n => n
        | .error _ => -1
    | _ => -1
  (id, offset)

def acceptsPartial (id : Bytes) (offset : ℤ) (s : Server) : Bool :=
  id != ascii "?" && decide (0 ≤ offset) &&
    (id == s.replInfo.masterReplid ||
      (id == s.replInfo.masterReplid2 && decide (offset ≤ s.replInfo.secondReplOffset))) &&
    s.backlog.contains offset

def continueReply (offset : ℤ) (s : Server) : Bytes :=
  ascii "+CONTINUE " ++ s.replInfo.masterReplid ++ crlf ++ s.backlog.read offset

def fullResyncHeader (id : Bytes) (offset : ℤ) : Bytes :=
  ascii "+FULLRESYNC " ++ id ++ ascii " " ++ toStr offset ++ crlf

def bulkPayload (data : Bytes) : Bytes := ascii "$" ++ Lib.Numerals.decimal data.length ++ crlf ++ data

def fullResyncReply (clk : Clock) (s : Server) : Bytes :=
  fullResyncHeader s.replInfo.masterReplid s.masterReplOffset
    ++ bulkPayload (Rdb.serialize clk s.store)

def handlePsync (clk : Clock) (c : ClientId) (args : List Bytes) (s : Server) : Server :=
  let request := psyncPosition args
  if s.acceptsPartial request.1 request.2 then s.addReplica c (s.continueReply request.2)
  else s.addReplica c (s.fullResyncReply clk)

def disconnectAllReplicas (s : Server) : Server :=
  s.replicas.foldl (fun s replica ↦ s.removeClient replica) s

def removeMaster (s : Server) : Server :=
  match s.masterClient with
  | none => s
  | some m => { s.removeClient m with masterClient := none }

def promote (replid : Bytes) (s : Server) : Server :=
  let offset := s.replInfo.masterReplOffset
  { s with
    replInfo := {
      role := .master
      masterReplid := replid
      masterReplOffset := offset
      masterHost := []
      masterPort := 0
      masterReplid2 := s.replInfo.masterReplid
      secondReplOffset := offset }
    replicaof := none
    masterReplOffset := offset
    backlog := s.backlog.setStart offset }

def handleReplicaofNoOne (replid : Bytes) (c : ClientId) (s : Server) : Server :=
  if s.replInfo.role = .master then s.reply c (ascii "+OK\r\n")
  else (s.removeMaster.promote replid).reply c (ascii "+OK\r\n")

def addMasterLink (fd : ℕ) (leftover : Bytes) (s : Server) : Server :=
  { s with
    masterClient := some s.nextId
    clients := update s.clients s.nextId (some { fd := fd, type := .masterConn, readBuf := leftover })
    fds := update s.fds fd (some s.nextId)
    nextId := s.nextId + 1 }

/-- The kernel does not hand out a descriptor that is still open. -/
def granting (s : Server) (peer : Handshake.Peer) : Handshake.Peer :=
  { peer with socket := peer.socket.filter (fun fd ↦ (s.fds fd).isNone) }

def connectToMaster (clk : Clock) (peer : Handshake.Peer) (host : Bytes) (port : ℤ) (s : Server) :
    Server × Option Handshake.Failure :=
  let peer := s.granting peer
  let out := Handshake.connect clk peer host port s.replInfo s.store
  let s := { s with replInfo := out.info, store := out.store }
  match out.result, peer.socket with
  | .ok leftover, some fd => (s.addMasterLink fd leftover, none)
  | .error failure, _ => (s, some failure)
  | .ok _, none => (s, none)

/-- The state in which a master goes into the handshake: waits answered, replicas
dropped and the offset reset. -/
def leaveMasterRole (s : Server) : Server :=
  if s.replInfo.role = .master then
    let s := settleWaits (fun _ _ ↦ true) [] s.pendingWaits s
    { s.disconnectAllReplicas with masterReplOffset := 0 }
  else s

def becomeWorker (host : Bytes) (port : ℤ) (s : Server) : Server :=
  { s with
    replInfo := { s.replInfo with
      role := .worker, masterReplOffset := 0, masterHost := host, masterPort := port }
    replicaof := some (host, port) }

def demote (c : ClientId) (host : Bytes) (port : ℤ) (s : Server) : Server :=
  ((s.leaveMasterRole.removeMaster).becomeWorker host port).reply c (ascii "+OK\r\n")

def revertToMaster (s : Server) : Server :=
  { s with
    replInfo := { s.replInfo with role := .master, masterHost := [], masterPort := 0 }
    replicaof := none }

def handleReplicaofSetMaster (clk : Clock) (peer : Handshake.Peer) (c : ClientId) (host : Bytes)
    (port : ℤ) (s : Server) : Server :=
  if s.replicaof = some (host, port) then
    s.reply c (ascii "+OK Already connected to specified master\r\n")
  else
    match (s.demote c host port).connectToMaster clk peer host port with
    | (s, none) => s
    | (s, some (.runtimeError _)) => s.revertToMaster
    | (s, some .uncaught) | (s, some .sigpipe) => { s with pc := .terminated }

/-- What one iteration of the pipelining loop takes from its environment. -/
structure Env where
  clock : Clock
  sends : List SendResult := []
  peer : Handshake.Peer := { socket := none, recvs := [] }
  replid : Bytes := []

def handleReplicaof (env : Env) (c : ClientId) (args : List Bytes) (s : Server) : Server :=
  match args with
  | _ :: host :: port :: _ =>
    if toUpper host == ascii "NO" && toUpper port == ascii "ONE" then
      s.handleReplicaofNoOne env.replid c
    else
      match stoi port with
      | .error _ => s.reply c (ascii "-ERR Invalid master port\r\n")
      | .ok n => s.handleReplicaofSetMaster env.clock env.peer c host n
  | _ => s

def waitDeadline (now : TimePoint) (timeoutMs : ℤ) : TimePoint :=
  if 0 < timeoutMs then now + Store.millis (Int64.ofInt timeoutMs) else Int64.maxValue

def handleWait (now : TimePoint) (c : ClientId) (args : List Bytes) (s : Server) : Server :=
  match args with
  | _ :: numreplicas :: timeout :: _ =>
    match stoi numreplicas, stoll timeout with
    | .ok numNeeded, .ok timeoutMs =>
      if s.replicas.isEmpty || s.masterReplOffset == 0 then
        s.replyWait c (if s.masterReplOffset = 0 then s.replicas.length else 0) s.masterReplOffset
      else
        let caughtUp := s.countCaughtUpReplicas s.masterReplOffset
        if numNeeded ≤ caughtUp then s.replyWait c caughtUp s.masterReplOffset
        else
          let s := s.propagateToReplicas (Resp.encodeArray Command.getack)
          { s with
            pendingWaits := s.pendingWaits ++
              [⟨c, numNeeded, s.masterReplOffset, waitDeadline now timeoutMs⟩] }
    | _, _ => s.reply c (ascii "-ERR value is not an integer or out of range\r\n")
  | _ => s

def commandName (args : List Bytes) : Bytes :=
  match args with
  | [] => []
  | name :: _ => toUpper name

def trackWrite (args : List Bytes) (s : Server) : Server :=
  let propagated := Resp.encodeArray args
  let postOffset := s.masterReplOffset + propagated.length
  propagateToReplicas propagated
    { s with
      masterReplOffset := postOffset
      replInfo := { s.replInfo with masterReplOffset := postOffset }
      backlog := s.backlog.feed propagated s.masterReplOffset }

/-- The branch of `handle_read` for regular clients. The `continue` behind
`REPLICAOF` skips the tracking, which its name does not pass anyway. -/
def handleRegular (env : Env) (c : ClientId) (args : List Bytes) (response : Bytes) (s : Server) :
    Server :=
  let cmdName := commandName args
  let s :=
    if cmdName == ascii "WAIT" && response.isEmpty then s.handleWait env.clock.steady c args
    else if cmdName == ascii "REPLICAOF" && response.isEmpty then s.handleReplicaof env c args
    else if cmdName == ascii "PSYNC" && response.isEmpty then s.handlePsync env.clock c args
    else s.appendReply c response
  if Command.isWriteCommand cmdName then s.trackWrite args else s

def dispatch (env : Env) (c : ClientId) (type : ClientType) (args : List Bytes) (response : Bytes)
    (bytesConsumed : ℕ) (s : Server) : Server :=
  match type with
  | .masterConn => s.handleMasterRead c args response bytesConsumed
  | .replica => s.handleReplicaRead c args
  | .regular => s.handleRegular env c args response

def eraseRead (c : ClientId) (bytesConsumed : ℕ) (s : Server) : Server :=
  if s.pc = .useAfterFree ∨ s.pc = .terminated then s
  else if (s.clients c).isNone then { s with pc := .useAfterFree }
  else s.mapClient c (fun client ↦ { client with readBuf := client.readBuf.drop bytesConsumed })

def finishRead (c : ClientId) (client : Client) (s : Server) : Server :=
  let s := { s with pc := .idle }
  if client.writeBuf.isEmpty then s else s.trySend c

def processCommand (env : Env) (c : ClientId) (s : Server) : Server :=
  match s.clients c with
  | none => { s with pc := .useAfterFree }
  | some client =>
    let s := { s with sends := env.sends }
    let result := Resp.parse client.readBuf
    if result.bytesConsumed = 0 then s.finishRead c client
    else
      let executed := Command.execute env.clock.steady result.args s.store s.replInfo
        (client.type == .masterConn)
      let s := { s with store := executed.2 }
      (s.dispatch env c client.type result.args executed.1 result.bytesConsumed).eraseRead c
        result.bytesConsumed

def sweepKey (key : Bytes) (s : Server) : Server :=
  let propagated := Resp.encodeArray [ascii "DEL", key]
  propagateToReplicas propagated
    { s with
      masterReplOffset := s.masterReplOffset + propagated.length
      backlog := s.backlog.feed propagated s.masterReplOffset }

def swapQueue (queue : ReplicaWriteQueue) : ReplicaWriteQueue :=
  if queue.removed then queue
  else { queue with draining := queue.draining ++ queue.pending, pending := [] }

/-- The writer thread takes all pending bytes under the lock and keeps the queues
that have something to send, in the order in which the map iterates. -/
def writerSwap (order : List ClientId) (s : Server) : Server :=
  let queues := fun c ↦ (s.replQueues c).map swapQueue
  { s with
    replQueues := queues
    snapshot := order.filter (fun c ↦
      (queues c).any (fun queue ↦ !queue.removed && !queue.draining.isEmpty))
    sending := false }

def setDraining (c : ClientId) (draining : Bytes) (s : Server) : Server :=
  { s with
    replQueues := update s.replQueues c
      ((s.replQueues c).map (fun queue ↦ { queue with draining := draining })) }

def nextQueue (s : Server) : Server := { s with snapshot := s.snapshot.tail, sending := false }

/-- One step of the writer thread on its snapshot: the test of `removed`, or one
`send` to whatever connection the queue's descriptor belongs to by then. -/
def writerStep (result : SendResult) (s : Server) : Server :=
  match s.snapshot with
  | [] => s
  | c :: _ =>
    match s.replQueues c with
    | none => s.nextQueue
    | some queue =>
      if !s.sending then if queue.removed then s.nextQueue else { s with sending := true }
      else if queue.draining.isEmpty then s.nextQueue
      else
        match s.fds queue.fd, result with
        | some d, .sent n =>
          { s.setDraining c (queue.draining.drop (n + 1)) with
            wire := update s.wire d (s.wire d ++ queue.draining.take (n + 1)) }
        | some _, .again => s.nextQueue
        | _, _ => (s.setDraining c []).nextQueue

end Server

end RedisLite
