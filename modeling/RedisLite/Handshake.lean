import RedisLite.Lib.Search
import RedisLite.Command
import RedisLite.Rdb

namespace RedisLite.Handshake

open Lib.Search

/-- How `connect_to_master` ends without a link: by the exception that its callers catch, by
another one, or by `SIGPIPE`, which the process neither handles nor ignores. -/
inductive Failure
  | runtimeError (what : Bytes)
  | uncaught
  | sigpipe
  deriving DecidableEq

def Failure.Caught : Failure → Prop
  | runtimeError _ => True
  | uncaught => False
  | sigpipe => False

/-- What a blocking `send` without `MSG_NOSIGNAL` comes to. On a broken pipe, when the other side
has shut the connection down and reset it, the call does not return. -/
inductive Sending
  | sent
  | failed
  | pipe
  deriving DecidableEq

/-- The master's side of one blocking handshake: what `socket`, `getaddrinfo` and
`connect` answer, then for each request the result of its `send`, and the result of
every `recv`, where no bytes at all stand for a failed call. -/
structure Peer where
  socket : Option ℕ
  resolves : Bool := true
  connects : Bool := true
  sends : ℕ → Sending := fun _ ↦ .sent
  recvs : List Bytes

def sendAndRecv (sending : Sending) (recvs : List Bytes) : Except Failure (Bytes × List Bytes) :=
  match sending with
  | .pipe => .error .sigpipe
  | .failed => .error (.runtimeError (ascii "Failed to send to master"))
  | .sent =>
    match recvs with
    | [] => .error (.runtimeError (ascii "No response from master"))
    | chunk :: recvs =>
      if chunk.isEmpty then .error (.runtimeError (ascii "No response from master"))
      else .ok (chunk, recvs)

def expect (wanted what : String) (sending : Sending) (recvs : List Bytes) :
    Except Failure (List Bytes) :=
  match sendAndRecv sending recvs with
  | .error f => .error f
  | .ok (reply, recvs) =>
    if (find? (ascii wanted) reply).isNone then .error (.runtimeError (ascii what)) else .ok recvs

def greet (sends : ℕ → Sending) (recvs : List Bytes) : Except Failure (List Bytes) := do
  let recvs ← expect "+PONG" "Expected +PONG from master" (sends 0) recvs
  let recvs ← expect "+OK" "Expected +OK for REPLCONF listening-port" (sends 1) recvs
  expect "+OK" "Expected +OK for REPLCONF capa" (sends 2) recvs

def openLink (peer : Peer) (host : Bytes) (port : ℤ) : Except Failure ℕ :=
  match peer.socket with
  | none => .error (.runtimeError (ascii "Failed to create master socket"))
  | some fd =>
    if !peer.resolves then
      .error (.runtimeError (ascii "Failed to resolve master address: " ++ host))
    else if !peer.connects then
      .error (.runtimeError (ascii "Failed to connect to master " ++ host ++ ascii ":" ++ toStr port))
    else .ok fd

def psyncRequest (info : ReplicationInfo) : List Bytes :=
  if info.masterReplid.isEmpty || info.masterReplOffset == 0 then
    [ascii "PSYNC", ascii "?", ascii "-1"]
  else [ascii "PSYNC", info.masterReplid, toStr info.masterReplOffset]

/-- Replication ID and offset of a `+FULLRESYNC` line, when both blanks and the end
of the line are there. The third part runs to the end of the reply when the line
ends before the second blank. -/
def fullResyncLine (reply : Bytes) : Option (Bytes × Bytes) := do
  let space₁ ← find? (ascii " ") reply
  let space₂ ← (find? (ascii " ") (reply.drop (space₁ + 1))).map (· + (space₁ + 1))
  let stop ← find? crlf reply
  let offset := reply.drop (space₂ + 1)
  some ((reply.drop (space₁ + 1)).take (space₂ - space₁ - 1),
    if space₂ + 1 ≤ stop then offset.take (stop - space₂ - 1) else offset)

def rdbHeader (accumulated : Bytes) : Option (ℕ × Bytes) := do
  let dollar ← find? (ascii "$") accumulated
  let stop ← (find? crlf (accumulated.drop dollar)).map (· + dollar)
  some (stop + 2, (accumulated.drop (dollar + 1)).take (stop - dollar - 1))

def toSize (n : ℤ) : ℕ := (n % 2 ^ 64).toNat

/-- The snapshot and the bytes behind it, or `none` while more has to be received. -/
def rdbTake (accumulated : Bytes) : Option (Except Failure (Bytes × Bytes)) :=
  match rdbHeader accumulated with
  | none => none
  | some (start, digits) =>
    match stoi digits with
    | .error _ => some (.error (.runtimeError (ascii "Malformed RDB length from master")))
    | .ok len =>
      if accumulated.length < toSize (start + len) then none
      else some (.ok ((accumulated.drop start).take (toSize len),
        accumulated.drop (toSize (start + len))))

/-- The receive loop around `rdbTake`; it also gives the calls of `recv` that are
left to the event loop. -/
def readRdb : List Bytes → Bytes → Except Failure (Bytes × Bytes × List Bytes)
  | [], accumulated =>
    match rdbTake accumulated with
    | some (.ok (rdb, leftover)) => .ok (rdb, leftover, [])
    | some (.error f) => .error f
    | none => .error (.runtimeError (ascii "Failed to recv RDB from master"))
  | chunk :: recvs, accumulated =>
    match rdbTake accumulated with
    | some (.ok (rdb, leftover)) => .ok (rdb, leftover, chunk :: recvs)
    | some (.error f) => .error f
    | none =>
      if chunk.isEmpty then .error (.runtimeError (ascii "Failed to recv RDB from master"))
      else readRdb recvs (accumulated ++ chunk)

/-- What the handshake leaves behind, also when it fails half-way: the replication
info, the store, and on success the bytes that seed the link's read buffer. -/
structure Outcome where
  info : ReplicationInfo
  store : Store
  result : Except Failure Bytes

/-- A snapshot that does not load leaves an empty store and no failure. -/
def loadRdb (clk : Clock) (rdb : Bytes) (store : Store) : Store :=
  match Rdb.load clk rdb store with
  | .ok loaded => loaded
  | .error _ => store.clear

def fullResync (clk : Clock) (reply : Bytes) (recvs : List Bytes) (info : ReplicationInfo)
    (store : Store) : Outcome :=
  let receive (info : ReplicationInfo) : Outcome :=
    match readRdb recvs reply with
    | .error f => ⟨info, store, .error f⟩
    | .ok (rdb, leftover, _) => ⟨info, loadRdb clk rdb store, .ok leftover⟩
  match fullResyncLine reply with
  | none => receive info
  | some (id, offset) =>
    match stoll offset with
    | .error _ => ⟨{ info with masterReplid := id }, store, .error .uncaught⟩
    | .ok n => receive { info with masterReplid := id, masterReplOffset := n }

/-- `connect_to_master` up to the registration of the link. -/
def connect (clk : Clock) (peer : Peer) (host : Bytes) (port : ℤ) (info : ReplicationInfo)
    (store : Store) : Outcome :=
  let opened := do
    let _ ← openLink peer host port
    sendAndRecv (peer.sends 3) (← greet peer.sends peer.recvs)
  match opened with
  | .error f => ⟨info, store, .error f⟩
  | .ok (reply, recvs) =>
    if (find? (ascii "+CONTINUE") reply).isSome then ⟨info, store, .ok []⟩
    else if (find? (ascii "+FULLRESYNC") reply).isSome then fullResync clk reply recvs info store
    else ⟨info, store, .error (.runtimeError (ascii "Unexpected PSYNC response from master"))⟩

theorem connect_socket {clk : Clock} {peer : Peer} {host : Bytes} {port : ℤ}
    {info : ReplicationInfo} {store : Store} {leftover : Bytes}
    (h : (connect clk peer host port info store).result = .ok leftover) : peer.socket ≠ none := by
  intro hs
  simp [connect, openLink, hs, bind, Except.bind] at h

theorem fullResync_info (clk : Clock) (reply : Bytes) (recvs : List Bytes)
    (info : ReplicationInfo) (store : Store) :
    ∃ id n, (fullResync clk reply recvs info store).info =
      { info with masterReplid := id, masterReplOffset := n } := by
  have hreceive (info' : ReplicationInfo) : (match readRdb recvs reply with
      | .error f => Outcome.mk info' store (.error f)
      | .ok (rdb, leftover, _) => ⟨info', loadRdb clk rdb store, .ok leftover⟩).info = info' := by
    split <;> rfl
  unfold fullResync
  dsimp only
  split
  · exact ⟨_, _, hreceive info⟩
  · next id _ _ =>
    split
    · exact ⟨id, _, rfl⟩
    · exact ⟨id, _, hreceive _⟩

theorem connect_info (clk : Clock) (peer : Peer) (host : Bytes) (port : ℤ)
    (info : ReplicationInfo) (store : Store) :
    ∃ id n, (connect clk peer host port info store).info =
      { info with masterReplid := id, masterReplOffset := n } := by
  have hsame : ∃ id n, info = { info with masterReplid := id, masterReplOffset := n } :=
    ⟨info.masterReplid, info.masterReplOffset, rfl⟩
  unfold connect
  dsimp only
  split
  · exact hsame
  · split
    · exact hsame
    · split
      · exact fullResync_info clk _ _ info store
      · exact hsame

theorem fullResync_error {clk : Clock} {reply : Bytes} {recvs : List Bytes}
    {info : ReplicationInfo} {store : Store} {failure : Failure} :
    (fullResync clk reply recvs info store).result = .error failure →
      (fullResync clk reply recvs info store).store = store := by
  have hreceive (info' : ReplicationInfo) : (match readRdb recvs reply with
      | .error f => Outcome.mk info' store (.error f)
      | .ok (rdb, leftover, _) => ⟨info', loadRdb clk rdb store, .ok leftover⟩).result =
        .error failure → (match readRdb recvs reply with
      | .error f => Outcome.mk info' store (.error f)
      | .ok (rdb, leftover, _) => ⟨info', loadRdb clk rdb store, .ok leftover⟩).store = store := by
    split
    · exact fun _ ↦ rfl
    · exact nofun
  unfold fullResync
  dsimp only
  split
  · exact hreceive info
  · split
    · exact fun _ ↦ rfl
    · exact hreceive _

theorem connect_error {clk : Clock} {peer : Peer} {host : Bytes} {port : ℤ}
    {info : ReplicationInfo} {store : Store} {failure : Failure} :
    (connect clk peer host port info store).result = .error failure →
      (connect clk peer host port info store).store = store := by
  unfold connect
  dsimp only
  split
  · exact fun _ ↦ rfl
  · split
    · intro h
      cases h
    · split
      · exact fullResync_error
      · exact fun _ ↦ rfl

end RedisLite.Handshake
