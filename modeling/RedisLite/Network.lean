import RedisLite.Attach
import RedisLite.FullResync
import RedisLite.Lib.Delivery
import RedisLite.Lib.Tally

namespace RedisLite

open Function Server
open scoped List

/-- How a replica has joined the stream of its master: how many commands and which offset the
snapshot stands for, and the bytes that go ahead of the stream on its connection. -/
structure Joined where
  start : ℕ
  offset : ℤ
  greeting : Bytes
  reply : Bytes

/-- A replica that has come out of its handshake, with its connection to the master, the offset
it has begun with, the bytes that have come in from the master and those of its own that have
reached the master, and the commands of the link that it has executed. -/
structure Node where
  server : Server
  up : ClientId
  base : ℤ
  received : Bytes
  delivered : Bytes
  done : List (List Bytes)

namespace Node

def enter (server : Server) (chunks : List Bytes) : Node where
  server := server
  up := server.masterClient.getD 0
  base := server.replInfo.masterReplOffset
  received := chunks.flatten
  delivered := server.wire (server.masterClient.getD 0)
  done := []

def advance (e : Event) (node : Node) : Node :=
  { node with
    server := Server.step node.server e
    done := node.done ++ executed node.up node.server e }

def receive (data : Bytes) (node : Node) : Node :=
  { node with
    server := Server.step node.server (.recv node.up data)
    received := node.received ++ data }

def deliver (data : Bytes) (node : Node) : Node :=
  { node with delivered := node.delivered ++ data }

end Node

/-- A master and its replicas, each under its connection on the master. The log has every command
that the master has put into the queues, with `master_repl_offset_` just after it. -/
structure Net where
  master : Server
  log : List (List Bytes × ℤ) := []
  joined : ClientId → Option Joined := fun _ ↦ none
  nodes : ClientId → Option Node := fun _ ↦ none

/-- A step of the master or of a replica, the end of a replica's handshake, or the arrival of at
most `k + 1` more bytes on one direction of a link. -/
inductive NetEvent
  | master (e : Event)
  | attach (c : ClientId) (server : Server) (greeting : List Bytes) (reply : Bytes)
    (recvs : List Bytes)
  | node (c : ClientId) (e : Event)
  | down (c : ClientId) (k : ℕ)
  | up (c : ClientId) (k : ℕ)

namespace Net

def init (replid : Bytes) : Net := { master := Server.init replid }

def since (k : ℕ) (net : Net) : List (List Bytes) := (net.log.drop k).map (·.1)

def joining (s : Server) (e : Event) : Option Taking :=
  (s.taking e).filter (fun tk ↦ tk.client.type = .regular ∧ commandName tk.args = ascii "PSYNC")

def enrol (tk : Taking) (net : Net) : Joined where
  start := net.log.length
  offset := net.master.masterReplOffset
  greeting := net.master.wire tk.c
  reply := net.master.fullResyncReply tk.env.clock

def join (e : Event) (net : Net) : ClientId → Option Joined :=
  match joining net.master e with
  | none => net.joined
  | some tk => update net.joined tk.c (some (net.enrol tk))

def serve (e : Event) (net : Net) : Net :=
  { net with
    master := Server.step net.master e
    log := net.log ++ (streamed net.master e).map
      (fun args ↦ (args, (Server.step net.master e).masterReplOffset))
    joined := net.join e }

def setNode (c : ClientId) (node : Node) (net : Net) : Net :=
  { net with nodes := update net.nodes c (some node) }

def pending (wire taken : Bytes) (k : ℕ) : Bytes := (wire.drop taken.length).take k

/-- What comes in on a link is what the other end has sent: a `recv` on it is no step of its
own. -/
def step (net : Net) : NetEvent → Net
  | .master e => if net.master.replicas.any e.reads then net else net.serve e
  | .attach c server greeting reply recvs =>
    if (net.joined c).isSome ∧ net.nodes c = none then
      net.setNode c (.enter server (greeting ++ reply :: recvs))
    else net
  | .node c e =>
    match net.nodes c with
    | none => net
    | some node => if e.reads node.up then net else net.setNode c (node.advance e)
  | .down c k =>
    match net.nodes c with
    | none => net
    | some node =>
      let data := pending (net.master.wire c) node.received (k + 1)
      if data = [] ∨ node.server.pc ≠ .idle then net else net.setNode c (node.receive data)
  | .up c k =>
    match net.nodes c with
    | none => net
    | some node =>
      let data := pending (node.server.wire node.up) node.delivered (k + 1)
      if data = [] ∨ net.master.pc ≠ .idle then net
      else (net.serve (.recv c data)).setNode c (node.deliver data)

inductive Outcome (net : Net) : NetEvent → Net → Prop
  | skip (e : NetEvent) : Outcome net e net
  | master (e : Event) (hreads : ∀ c ∈ net.master.replicas, e.reads c = false) :
    Outcome net (.master e) (net.serve e)
  | attach (c : ClientId) (server : Server) (greeting : List Bytes) (reply : Bytes)
    (recvs : List Bytes) (j : Joined) (hj : net.joined c = some j) (hnone : net.nodes c = none) :
    Outcome net (.attach c server greeting reply recvs)
      (net.setNode c (.enter server (greeting ++ reply :: recvs)))
  | node (c : ClientId) (e : Event) (node : Node) (hnode : net.nodes c = some node)
    (hreads : e.reads node.up = false) :
    Outcome net (.node c e) (net.setNode c (node.advance e))
  | down (c : ClientId) (k : ℕ) (node : Node) (hnode : net.nodes c = some node)
    (hne : pending (net.master.wire c) node.received (k + 1) ≠ [])
    (hpc : node.server.pc = .idle) : Outcome net (.down c k)
      (net.setNode c (node.receive (pending (net.master.wire c) node.received (k + 1))))
  | up (c : ClientId) (k : ℕ) (node : Node) (hnode : net.nodes c = some node)
    (hne : pending (node.server.wire node.up) node.delivered (k + 1) ≠ [])
    (hpc : net.master.pc = .idle) : Outcome net (.up c k)
      ((net.serve (.recv c (pending (node.server.wire node.up) node.delivered (k + 1)))).setNode c
        (node.deliver (pending (node.server.wire node.up) node.delivered (k + 1))))

theorem step_outcome (net : Net) (e : NetEvent) : Outcome net e (net.step e) := by
  cases e with
  | master e =>
    simp only [step]
    split
    · exact .skip _
    · next hreads => exact .master e (by simpa using hreads)
  | attach c server greeting reply recvs =>
    simp only [step]
    split
    · next hopen =>
      obtain ⟨j, hj⟩ := Option.isSome_iff_exists.mp hopen.1
      exact .attach c server greeting reply recvs j hj hopen.2
    · exact .skip _
  | node c e =>
    simp only [step]
    split
    · exact .skip _
    · next node hnode =>
      split
      · exact .skip _
      · next hreads => exact .node c e node hnode (Bool.eq_false_iff.mpr hreads)
  | down c k =>
    simp only [step]
    split
    · exact .skip _
    · next node hnode =>
      split
      · exact .skip _
      · next hopen =>
        rw [not_or, not_not] at hopen
        exact .down c k node hnode hopen.1 hopen.2
  | up c k =>
    simp only [step]
    split
    · exact .skip _
    · next node hnode =>
      split
      · exact .skip _
      · next hopen =>
        rw [not_or, not_not] at hopen
        exact .up c k node hnode hopen.1 hopen.2

/-- The `PSYNC` of a replica: it asks for a full resync and has nothing else under way. -/
def Greets (s : Server) (e : Event) : Prop :=
  ∀ tk ∈ joining s e,
    tk.client = { fd := tk.client.fd, type := .regular,
                  readBuf := Resp.encodeArray [ascii "PSYNC", ascii "?", ascii "-1"] } ∧
    ∀ wait ∈ s.pendingWaits, wait.client ≠ tk.c

instance (s : Server) (e : Event) : Decidable (Greets s e) :=
  inferInstanceAs (Decidable (∀ tk ∈ joining s e, tk.client = _ ∧ ∀ wait ∈ s.pendingWaits, _))

/-- A replica comes out of the handshake that its connection has served. -/
structure Attaches (j : Joined) (wire : Bytes) (server : Server) (greeting : List Bytes)
    (reply : Bytes) (recvs : List Bytes) : Prop where
  resyncs : Resyncs greeting reply recvs server
  aligned : greeting.flatten = j.greeting
  sent : (greeting ++ reply :: recvs).flatten <+: wire
  bounded : j.offset < 2 ^ 63

/-- The runs of replicas that execute this program on links that do not fail: no send fails and
no replica hangs up or changes its master, replicas join by a full resync, no regular client
sends a write command to a replica, and the offsets fit their type. -/
def Orderly (net : Net) : NetEvent → Prop
  | .master e => Calm net.master e ∧ Greets net.master e
  | .attach c server greeting reply recvs => ∀ j, net.joined c = some j → net.nodes c = none →
    Attaches j (net.master.wire c) server greeting reply recvs
  | .node c e => ∀ node, net.nodes c = some node → Stays node.up node.server e ∧
    node.server.replInfo.masterReplOffset < 2 ^ 63
  | .down _ _ => True
  | .up _ _ => True

def weight (args : List Bytes) : ℕ :=
  if Command.isWrite args then (Resp.encodeArray args).length else 0

theorem weight_pos {args : List Bytes} : 0 < weight args ↔ Command.isWrite args = true := by
  unfold weight
  split
  · next h => exact iff_of_true (Resp.encodeArray_length_pos args) h
  · next h => exact iff_of_false (lt_irrefl 0) h

def acks : ℤ → List (List Bytes) → List (List Bytes)
  | _, [] => []
  | offset, args :: cmds =>
    ackFor offset args ++ acks (offset + (Resp.encodeArray args).length) cmds

theorem acks_append (offset : ℤ) (cmds cmds' : List (List Bytes)) :
    acks offset (cmds ++ cmds') =
      acks offset cmds ++ acks (offset + (Resp.framing.stream cmds).length) cmds' := by
  induction cmds generalizing offset with
  | nil => simp [acks]
  | cons args cmds ih =>
    have hlen : (Resp.framing.stream (args :: cmds)).length =
        (Resp.encodeArray args).length + (Resp.framing.stream cmds).length := List.length_append
    rw [List.cons_append, acks, ih, acks, List.append_assoc, hlen, Nat.cast_add, add_assoc]

theorem mem_acks {offset : ℤ} {cmds : List (List Bytes)} {args : List Bytes}
    (h : args ∈ acks offset cmds) : ∃ before getack after, cmds = before ++ getack :: after ∧
      isGetack getack = true ∧ args = [ascii "REPLCONF", ascii "ACK",
        toStr (offset + (Resp.framing.stream before).length)] := by
  induction cmds generalizing offset with
  | nil => cases h
  | cons cmd cmds ih =>
    rw [acks] at h
    rcases List.mem_append.mp h with h | h
    · unfold ackFor at h
      split at h
      · next hg =>
        refine ⟨[], cmd, cmds, rfl, hg, ?_⟩
        rw [List.mem_singleton.mp h]
        simp
      · cases h
    · obtain ⟨before, getack, after, rfl, hg, rfl⟩ := ih h
      refine ⟨cmd :: before, getack, after, rfl, hg, ?_⟩
      have hlen : (Resp.framing.stream (cmd :: before)).length =
          (Resp.encodeArray cmd).length + (Resp.framing.stream before).length := List.length_append
      rw [hlen, Nat.cast_add, add_assoc]

end Net

end RedisLite
