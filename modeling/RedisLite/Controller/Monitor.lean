import Mathlib.Data.List.Dedup
import RedisLite.Controller.Promoter
import RedisLite.Lib.Run

namespace RedisLite.Controller

open Lib.Run

structure Config where
  nodes : List Addr
  failureThresh : ℤ

/-- The keys of `m.nodes` in the order of one `range` loop, or of one round of ping results. -/
def Order (cfg : Config) : Type := { keys : List Addr // keys.Perm cfg.nodes.dedup }

/-- What a run of the monitor depends on: how the nodes answer, and the orders of the loops over
`m.nodes` in the `n`-th failover. -/
structure World (cfg : Config) where
  script : Script
  candidateOrder : ℕ → Order cfg
  siblingOrder : ℕ → Order cfg

structure Node where
  role : Bytes
  alive : Bool
  deriving DecidableEq

/-- `Monitor`, with the log of all calls made so far. -/
structure Monitor where
  nodes : Addr → Node
  fails : Addr → ℕ
  master : Addr
  failoverCount : ℕ
  failoverInProgress : Bool
  log : List Call

def newMonitor : Monitor :=
  { nodes := fun _ ↦ ⟨[], false⟩
    fails := fun _ ↦ 0
    master := []
    failoverCount := 0
    failoverInProgress := false
    log := [] }

namespace Monitor

def setRole (m : Monitor) (addr : Addr) (role : Bytes) : Monitor :=
  { m with nodes := Function.update m.nodes addr { m.nodes addr with role := role } }

def setAlive (m : Monitor) (addr : Addr) (alive : Bool) : Monitor :=
  { m with nodes := Function.update m.nodes addr { m.nodes addr with alive := alive } }

def setFails (m : Monitor) (addr : Addr) (n : ℕ) : Monitor :=
  { m with fails := Function.update m.fails addr n }

def record (m : Monitor) (calls : List Call) : Monitor := { m with log := m.log ++ calls }

def eligible (m : Monitor) (addr : Addr) : Bool :=
  (m.nodes addr).alive && (m.nodes addr).role == ascii "slave" && addr != m.master

end Monitor

/-- One round of the loop of `discoverTopology`. -/
def discoverNode (script : Script) (m : Monitor) (addr : Addr) : Monitor :=
  let x := call script m.log addr .role
  let m := m.record [x]
  match role x.response with
  | none => (m.setAlive addr false).setRole addr (ascii "unknown")
  | some value =>
    let m := (m.setAlive addr true).setRole addr value
    if value = ascii "master" then { m with master := addr } else m

section

variable {cfg : Config} (w : World cfg)

def discoverTopology (order : Order cfg) (m : Monitor) : Monitor :=
  order.1.foldl (discoverNode w.script) m

/-- The state update and the last stage of a failover, once `newMaster` is confirmed. -/
def completeFailover (m : Monitor) (newMaster : Addr) : Monitor :=
  let oldMaster := m.master
  let m := { m with master := newMaster }.setRole newMaster (ascii "master")
  let siblings := (w.siblingOrder m.failoverCount).1.filter
    (fun addr ↦ addr != newMaster && addr != oldMaster && (m.nodes addr).alive)
  if siblings.isEmpty then m
  else m.record (reconfigure w.script siblings newMaster m.log).2

/-- The body of `triggerFailover` behind its guard. -/
def failover (m : Monitor) : Monitor :=
  let m := { m with failoverCount := m.failoverCount + 1 }
  let candidates := (w.candidateOrder m.failoverCount).1.filter m.eligible
  if candidates.isEmpty then m
  else
    match pickBestReplica w.script candidates m.log with
    | (.error _, calls) => m.record calls
    | (.ok ranked, calls) =>
      let m := m.record calls
      match promote w.script ranked m.log with
      | (.error _, calls) => m.record calls
      | (.ok newMaster, calls) => completeFailover w (m.record calls) newMaster

def triggerFailover (m : Monitor) : Monitor :=
  if m.failoverInProgress then m
  else { failover w { m with failoverInProgress := true } with failoverInProgress := false }

/-- `Reconfigure` for one node that claims to be a master next to `m.master`. -/
def redirect (m : Monitor) (addr : Addr) : Monitor :=
  let result := reconfigure w.script [addr] m.master m.log
  let m := m.record result.2
  if result.1.head? = some true then m.setRole addr (ascii "slave") else m

def recovered (m : Monitor) (addr : Addr) (value : Bytes) : Monitor :=
  let m := m.setRole addr value
  if value = ascii "master" then
    if m.master = [] ∨ m.master = addr then { m with master := addr } else redirect w m addr
  else m

def retryStale (m : Monitor) (addr : Addr) : Monitor :=
  if (m.nodes addr).role = ascii "master" ∧ addr ≠ m.master ∧ m.master ≠ [] then
    redirect w m addr
  else m

structure PingResult where
  addr : Addr
  alive : Bool
  deriving DecidableEq

/-- The answered ping of a node, up to the `continue`. -/
def pingAnswered (m : Monitor) (addr : Addr) : Monitor :=
  let wasDead := !(m.nodes addr).alive
  let m := (m.setFails addr 0).setAlive addr true
  if wasDead then
    let x := call w.script m.log addr .role
    let m := m.record [x]
    match role x.response with
    | none => m
    | some value => retryStale w (recovered w m addr value) addr
  else retryStale w m addr

def pingFailed (m : Monitor) (addr : Addr) : Monitor :=
  let m := m.setFails addr (m.fails addr + 1)
  if cfg.failureThresh ≤ m.fails addr then
    let m := if (m.nodes addr).alive then m.setAlive addr false else m
    if addr = m.master then triggerFailover w m else m
  else m

/-- One round of the loop of `healthCheck`. -/
def handleResult (m : Monitor) (r : PingResult) : Monitor :=
  if r.alive then pingAnswered w m r.addr else pingFailed w m r.addr

/-- One tick: what the pings bring, and the order in which the results stand in the channel. -/
structure Tick (cfg : Config) where
  pings : Addr → Response
  arrivals : Order cfg

def Tick.results (t : Tick cfg) : List PingResult :=
  t.arrivals.1.map (fun addr ↦ ⟨addr, ping (t.pings addr)⟩)

def healthCheck (m : Monitor) (t : Tick cfg) : Monitor := run (handleResult w) m t.results

def start (order : Order cfg) : Monitor := discoverTopology w order newMonitor

end

def answering (info role noOne follow : Addr → Response) : Script := fun addr commands ↦
  match commands.getLast? with
  | none => none
  | some command =>
    if command = encodeRESP Request.info.args then info addr
    else if command = encodeRESP Request.role.args then role addr
    else if command = encodeRESP Request.noOne.args then noOne addr
    else follow addr

def configured (nodes : List Addr) (failureThresh : ℤ) (hnodes : nodes.Nodup) (script : Script) :
    World ⟨nodes, failureThresh⟩ :=
  ⟨script, fun _ ↦ ⟨nodes, by rw [hnodes.dedup]⟩, fun _ ↦ ⟨nodes, by rw [hnodes.dedup]⟩⟩

def sampleNodes : List Addr := [ascii "a:1", ascii "b:2", ascii "c:3"]

theorem sampleNodes_nodup : sampleNodes.Nodup := by decide

def sampleInfo (addr : Addr) : Response :=
  if addr = ascii "c:3" then some (ascii "$24\r\nmaster_repl_offset:300\r\n")
  else some (ascii "$24\r\nmaster_repl_offset:100\r\n")

def masterRole : Response := some (ascii "*3\r\n$6\r\nmaster\r\n:100\r\n*0\r\n")

def ok : Response := some (ascii "+OK\r\n")

def slaveRole : Response :=
  some (ascii "*5\r\n$5\r\nslave\r\n$1\r\na\r\n:1\r\n$9\r\nconnected\r\n:100\r\n")

/-- Nodes of which `a:1` is the master at first. A replica becomes a master when it is told to. -/
def electing (follow : Addr → Response) : Script := fun addr commands ↦
  answering sampleInfo
    (fun addr ↦ if addr = ascii "a:1" ∨ encodeRESP Request.noOne.args ∈ commands then masterRole
      else slaveRole) (fun _ ↦ ok) follow addr commands

def sampleOrder (failureThresh : ℤ) : Order ⟨sampleNodes, failureThresh⟩ :=
  ⟨sampleNodes, show sampleNodes.Perm sampleNodes.dedup by decide⟩

def tickWithout (failureThresh : ℤ) (silent : List Addr) : Tick ⟨sampleNodes, failureThresh⟩ :=
  ⟨fun addr ↦ if addr ∈ silent then none else some (ascii "+PONG\r\n"), sampleOrder failureThresh⟩

end RedisLite.Controller
