import Mathlib.Data.List.Sort
import RedisLite.Controller.Client
import RedisLite.Lib.Transcript

namespace RedisLite.Controller

open Lib.Numerals Lib.Transcript

abbrev Addr := Bytes

/-- The commands sent besides `PING`. The one of `Promote` and the one of `Reconfigure` are told
apart here; on the wire they differ unless the master is called `NO:ONE`. -/
inductive Request where
  | info
  | role
  | noOne
  | replicaOf (host port : Bytes)
  deriving DecidableEq

def Request.args : Request → List Bytes
  | .info => [ascii "INFO", ascii "replication"]
  | .role => [ascii "ROLE"]
  | .noOne => [ascii "REPLICAOF", ascii "NO", ascii "ONE"]
  | .replicaOf host port => [ascii "REPLICAOF", host, port]

/-- How every node answers, from the commands it has been sent so far. -/
abbrev Script := Addr → List Bytes → Response

abbrev Call := Exchange Addr Request Response

def peers (script : Script) (addr : Addr) (requests : List Request) : Response :=
  script addr (requests.map (fun request ↦ encodeRESP request.args))

/-- `sendCommand`, with what came back. -/
def call (script : Script) (log : List Call) (addr : Addr) (request : Request) : Call :=
  ask (peers script) log addr request

def parseInt (s : Bytes) : Option ℤ :=
  let neg := s.head? == some 45
  let digits := if neg || s.head? == some 43 then s.tail else s
  if digits.isEmpty || !digits.all isDigit then none
  else
    let un := digitsValue digits
    if neg then (if un ≤ 2 ^ 63 then some (-un) else none)
    else if un < 2 ^ 63 then some un else none

def splitHostPort (hostport : Bytes) : Option (Bytes × Bytes) :=
  match hostport.reverse.idxOf? 58 with
  | none => none
  | some back =>
    -- the position of the last colon
    let i := hostport.length - 1 - back
    if hostport.head? = some 91 then
      match hostport.idxOf? 93 with
      | none => none
      | some close =>
        if close + 1 ≠ i then none
        else if (hostport.drop 1).contains 91 || (hostport.drop (close + 1)).contains 93 then none
        else some ((hostport.take close).drop 1, hostport.drop (i + 1))
    else if (hostport.take i).contains 58 || hostport.contains 91 || hostport.contains 93 then none
    else some (hostport.take i, hostport.drop (i + 1))

structure ReplicaCandidate where
  addr : Addr
  offset : ℤ
  deriving DecidableEq

def ReplicaCandidate.less (a b : ReplicaCandidate) : Bool :=
  if a.offset ≠ b.offset then b.offset < a.offset else a.addr < b.addr

/-- An offset that is missing or not a number counts as zero. -/
def replOffset (fields : Bytes → Option Bytes) : ℤ :=
  ((fields (ascii "master_repl_offset")).bind parseInt).getD 0

def replicaCandidate (x : Call) : Option ReplicaCandidate :=
  (info x.response).map (fun fields ↦ ⟨x.peer, replOffset fields⟩)

def ReplicaCandidate.le (a b : ReplicaCandidate) : Prop := b.less a = false

instance : DecidableRel ReplicaCandidate.le := fun _ _ ↦ inferInstanceAs (Decidable (_ = false))

def sortSlice (reachable : List ReplicaCandidate) : List ReplicaCandidate :=
  reachable.insertionSort ReplicaCandidate.le

def pickBestReplica (script : Script) (candidates : List Addr) (log : List Call) :
    Except Bytes (List Addr) × List Call :=
  if candidates.isEmpty then (.error (ascii "no candidates provided"), [])
  else
    let calls := survey (peers script) .info candidates log
    let reachable := calls.filterMap replicaCandidate
    if reachable.isEmpty then
      (.error (ascii "all " ++ decimal candidates.length ++ ascii " candidates unreachable"), calls)
    else (.ok ((sortSlice reachable).map (·.addr)), calls)

def promoteMaxRetries : ℕ := 3

/-- The inner loop of `Promote`: whether `ROLE` reports a master within the attempts left. -/
def pollRole (script : Script) (addr : Addr) : ℕ → List Call → Bool × List Call
  | 0, _ => (false, [])
  | attempts + 1, log =>
    let x := call script log addr .role
    if role x.response = some (ascii "master") then (true, [x])
    else
      let rest := pollRole script addr attempts (log ++ [x])
      (rest.1, x :: rest.2)

/-- One round of the outer loop of `Promote`. -/
def tryCandidate (script : Script) (log : List Call) (addr : Addr) : Bool × List Call :=
  let x := call script log addr .noOne
  if replicaOf x.response then
    let polls := pollRole script addr promoteMaxRetries (log ++ [x])
    (polls.1, x :: polls.2)
  else (false, [x])

def promoteFirst (script : Script) : List Addr → List Call → Option Addr × List Call
  | [], _ => (none, [])
  | addr :: rest, log =>
    let tried := tryCandidate script log addr
    if tried.1 then (some addr, tried.2)
    else
      let next := promoteFirst script rest (log ++ tried.2)
      (next.1, tried.2 ++ next.2)

def promote (script : Script) (ranked : List Addr) (log : List Call) :
    Except Bytes Addr × List Call :=
  if ranked.isEmpty then (.error (ascii "no candidates to promote"), [])
  else
    match promoteFirst script ranked log with
    | (some addr, calls) => (.ok addr, calls)
    | (none, calls) =>
      (.error (ascii "all " ++ decimal ranked.length ++ ascii " candidates failed promotion"), calls)

/-- `Reconfigure`, with the calls it makes: whether each entry of the slice it returns is nil. -/
def reconfigure (script : Script) (siblings : List Addr) (newMasterAddr : Addr) (log : List Call) :
    List Bool × List Call :=
  match splitHostPort newMasterAddr with
  | none => (siblings.map (fun _ ↦ false), [])
  | some (host, port) =>
    let calls := survey (peers script) (.replicaOf host port) siblings log
    (calls.map (fun x ↦ replicaOf x.response), calls)

example : splitHostPort (ascii "redis-1:6379") = some (ascii "redis-1", ascii "6379") := by decide

example : splitHostPort (ascii "[::1]:80") = some (ascii "::1", ascii "80") := by decide

example : splitHostPort (ascii "::1:80") = none := by decide

example : parseInt (ascii "-9223372036854775808") = some (-2 ^ 63) := by decide

example : parseInt (ascii "9223372036854775808") = none := by decide

/-- What a node that has been sent the commands of `log` replies to the last of `requests`. -/
def replies (script : Script) (log : List Call) (addr : Addr) (requests : List Request) :
    Response :=
  peers script addr (asked log addr ++ requests)

theorem call_response (script : Script) (log : List Call) (addr : Addr) (request : Request) :
    (call script log addr request).response = replies script log addr [request] := rfl

theorem replies_append {script : Script} {log more : List Call} {addr : Addr}
    {sent requests : List Request} (h : asked more addr = sent) :
    replies script (log ++ more) addr requests = replies script log addr (sent ++ requests) := by
  rw [replies, replies, asked_append, h, List.append_assoc]

end RedisLite.Controller
