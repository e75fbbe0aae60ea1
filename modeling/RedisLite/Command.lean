import RedisLite.Resp
import RedisLite.Store

namespace RedisLite

inductive Role
  | master
  | worker
  deriving DecidableEq

def Role.text : Role → Bytes
  | .master => ascii "master"
  | .worker => ascii "worker"

theorem Role.eq_worker {role : Role} (h : role ≠ .master) : role = .worker := by
  cases role with
  | master => exact absurd rfl h
  | worker => rfl

structure ReplicationInfo where
  role : Role
  masterReplid : Bytes
  masterReplOffset : ℤ := 0
  masterHost : Bytes := []
  masterPort : ℤ := 0
  masterReplid2 : Bytes := List.replicate 40 48
  secondReplOffset : ℤ := -1
  deriving DecidableEq

namespace Command

open Resp

def isWriteCommand (cmd : Bytes) : Bool :=
  let upper := toUpper cmd
  upper == ascii "SET" || upper == ascii "DEL"

/-- The options of `SET` behind key and value. The last `PX` or `EX` wins; any other
word is skipped. -/
def setOptions : Option Int64 → List Bytes → Except ConversionError (Option Int64)
  | px, opt :: value :: rest =>
    if toUpper opt == ascii "PX" then
      match stoll value with
      | .error e => .error e
      | .ok n => setOptions (some (Int64.ofInt n)) rest
    else if toUpper opt == ascii "EX" then
      match stoll value with
      | .error e => .error e
      | .ok n => setOptions (some (Int64.ofInt n * 1000)) rest
    else setOptions px (value :: rest)
  | px, _ => .ok px

def executeSet (now : TimePoint) (args : List Bytes) (store : Store) : Bytes × Store :=
  match args with
  | _ :: key :: value :: opts =>
    match setOptions none opts with
    | .error _ => (ascii "-ERR value is not an integer or out of range\r\n", store)
    | .ok none => (ascii "+OK\r\n", store.set now key value none)
    | .ok (some px) =>
      if px ≤ 0 then (ascii "-ERR invalid expire time in 'set' command\r\n", store)
      else (ascii "+OK\r\n", store.set now key value (some px))
  | _ => (ascii "-ERR wrong number of arguments for 'set' command\r\n", store)

def delLoop : List Bytes → Store → ℕ × Store
  | [], store => (0, store)
  | key :: keys, store =>
    let r := store.del key
    let rest := delLoop keys r.2
    ((if r.1 then 1 else 0) + rest.1, rest.2)

def executeDel (args : List Bytes) (store : Store) : Bytes × Store :=
  match args with
  | _ :: key :: keys =>
    let r := delLoop (key :: keys) store
    (ascii ":" ++ toStr r.1 ++ crlf, r.2)
  | _ => (ascii "-ERR wrong number of arguments for 'del' command\r\n", store)

def executeEcho (args : List Bytes) : Bytes :=
  match args with
  | _ :: message :: _ => encodeBulkString message
  | _ => ascii "-ERR wrong number of arguments for 'echo' command\r\n"

def executeInfo (args : List Bytes) (info : ReplicationInfo) : Bytes :=
  let sect := match args with
    | _ :: s :: _ => toUpper s
    | _ => []
  if sect == [] || sect == ascii "REPLICATION" then
    encodeBulkString (ascii "role:" ++ info.role.text
      ++ ascii "\r\nmaster_replid:" ++ info.masterReplid
      ++ ascii "\r\nmaster_repl_offset:" ++ toStr info.masterReplOffset
      ++ ascii "\r\nmaster_replid2:" ++ info.masterReplid2
      ++ ascii "\r\nsecond_repl_offset:" ++ toStr info.secondReplOffset)
  else encodeBulkString []

def executeGet (now : TimePoint) (args : List Bytes) (store : Store) : Bytes :=
  match args with
  | _ :: key :: _ =>
    match store.get now key with
    | none => encodeNullBulkString
    | some value => encodeBulkString value
  | _ => ascii "-ERR wrong number of arguments for 'get' command\r\n"

def executeRole (info : ReplicationInfo) : Bytes :=
  match info.role with
  | .master =>
    ascii "*3\r\n$6\r\nmaster\r\n:" ++ toStr info.masterReplOffset ++ ascii "\r\n*0\r\n"
  | .worker =>
    ascii "*5\r\n$5\r\nslave\r\n" ++ encodeBulkString info.masterHost
      ++ ascii ":" ++ toStr info.masterPort ++ ascii "\r\n$9\r\nconnected\r\n:"
      ++ toStr info.masterReplOffset ++ crlf

def getack : List Bytes := [ascii "REPLCONF", ascii "GETACK", ascii "*"]

def executeReplconf (args : List Bytes) (info : ReplicationInfo) : Bytes :=
  match args with
  | _ :: sub :: _ =>
    if toUpper sub == ascii "GETACK" then
      encodeArray [ascii "REPLCONF", ascii "ACK", toStr info.masterReplOffset]
    else ascii "+OK\r\n"
  | _ => ascii "+OK\r\n"

def executeReplicaof (args : List Bytes) : Bytes :=
  match args with
  | [_, host, port] =>
    if toUpper host == ascii "NO" && toUpper port == ascii "ONE" then []
    else
      match stoi port with
      | .error _ => ascii "-ERR Invalid master port\r\n"
      | .ok p => if p < 1 || p > 65535 then ascii "-ERR Invalid master port\r\n" else []
  | _ => ascii "-ERR wrong number of arguments for 'replicaof' command\r\n"

def executeWait (args : List Bytes) : Bytes :=
  match args with
  | _ :: numreplicas :: timeout :: _ =>
    match stoi numreplicas, stoi timeout with
    | .ok _, .ok _ => []
    | _, _ => ascii "-ERR value is not an integer or out of range\r\n"
  | _ => ascii "-ERR wrong number of arguments for 'wait' command\r\n"

/-- The reply of `command::execute` and the store it leaves. An empty reply hands
the command over to the server. -/
def execute (now : TimePoint) (args : List Bytes) (store : Store) (info : ReplicationInfo)
    (fromMaster : Bool) : Bytes × Store :=
  match args with
  | [] => (ascii "-ERR no command\r\n", store)
  | name :: _ =>
    let cmd := toUpper name
    if !fromMaster && info.role == .worker && isWriteCommand cmd then
      (ascii "-READONLY You can't write against a read only replica.\r\n", store)
    else if cmd == ascii "PING" then (ascii "+PONG\r\n", store)
    else if cmd == ascii "ECHO" then (executeEcho args, store)
    else if cmd == ascii "INFO" then (executeInfo args info, store)
    else if cmd == ascii "SET" then executeSet now args store
    else if cmd == ascii "DEL" then executeDel args store
    else if cmd == ascii "GET" then (executeGet now args store, store)
    else if cmd == ascii "ROLE" then (executeRole info, store)
    else if cmd == ascii "REPLCONF" then (executeReplconf args info, store)
    else if cmd == ascii "PSYNC" then ([], store)
    else if cmd == ascii "REPLICAOF" then (executeReplicaof args, store)
    else if cmd == ascii "WAIT" then (executeWait args, store)
    else (ascii "-ERR unknown command '" ++ name ++ ascii "'\r\n", store)

def isWrite (args : List Bytes) : Bool :=
  match args with
  | [] => false
  | name :: _ => isWriteCommand name

theorem isWriteCommand_toUpper (cmd : Bytes) : isWriteCommand (toUpper cmd) = isWriteCommand cmd := by
  unfold isWriteCommand
  rw [toUpper_toUpper]

theorem isWriteCommand_iff {cmd : Bytes} :
    isWriteCommand cmd = true ↔ toUpper cmd = ascii "SET" ∨ toUpper cmd = ascii "DEL" := by
  simp [isWriteCommand]

inductive Effect
  | keep
  | set (key value : Bytes) (px : Option Int64)
  | del (keys : List Bytes)

def Effect.apply (now : TimePoint) (store : Store) : Effect → Store
  | .keep => store
  | .set key value px => store.set now key value px
  | .del keys => (delLoop keys store).2

def setEffect (args : List Bytes) : Effect :=
  match args with
  | _ :: key :: value :: opts =>
    match setOptions none opts with
    | .error _ => .keep
    | .ok none => .set key value none
    | .ok (some px) => if px ≤ 0 then .keep else .set key value (some px)
  | _ => .keep

def effect (args : List Bytes) : Effect :=
  match args with
  | [] => .keep
  | name :: rest =>
    if toUpper name = ascii "SET" then setEffect args
    else if toUpper name = ascii "DEL" then .del rest
    else .keep

theorem executeSet_store (now : TimePoint) (args : List Bytes) (store : Store) :
    (executeSet now args store).2 = (setEffect args).apply now store := by
  unfold executeSet setEffect
  split
  · split
    · rfl
    · rfl
    · split <;> rfl
  · rfl

theorem executeDel_store (name : Bytes) (rest : List Bytes) (now : TimePoint) (store : Store) :
    (executeDel (name :: rest) store).2 = (Effect.del rest).apply now store := by
  cases rest <;> rfl

theorem effect_of_not_write {args : List Bytes} (h : isWrite args = false) : effect args = .keep := by
  cases args with
  | nil => rfl
  | cons name rest =>
    have hn : ¬(toUpper name = ascii "SET" ∨ toUpper name = ascii "DEL") := by
      rw [← isWriteCommand_iff]
      exact Bool.eq_false_iff.mp h
    rw [not_or] at hn
    simp only [effect, hn.1, hn.2, if_false]

/-- The one place that looks at every branch of `execute`: a worker refuses its
clients' writes, and everything else has the effect its words announce. -/
theorem execute_store (now : TimePoint) (args : List Bytes) (store : Store)
    (info : ReplicationInfo) (fromMaster : Bool) :
    (execute now args store info fromMaster).2 =
      if !fromMaster && info.role == .worker then store else (effect args).apply now store := by
  cases args with
  | nil => simp [execute, effect, Effect.apply]
  | cons name rest =>
    by_cases hw : isWriteCommand name = true
    · by_cases hr : (!fromMaster && info.role == .worker) = true
      · simp only [execute, isWriteCommand_toUpper, hw, hr, Bool.and_true, if_true]
      · rw [if_neg hr]
        rw [Bool.not_eq_true] at hr
        -- The words are compared by evaluation: neither is one of those asked for before it.
        rcases isWriteCommand_iff.mp hw with hn | hn
        · rw [execute, effect, hr, hn, Bool.false_and, if_neg (by decide), if_neg (by decide),
            if_neg (by decide), if_neg (by decide), if_pos (by decide), if_pos rfl]
          exact executeSet_store now (name :: rest) store
        · rw [execute, effect, hr, hn, Bool.false_and, if_neg (by decide), if_neg (by decide),
            if_neg (by decide), if_neg (by decide), if_neg (by decide), if_pos (by decide),
            if_neg (by decide), if_pos rfl]
          exact executeDel_store name rest now store
    · have he : effect (name :: rest) = .keep := effect_of_not_write (Bool.eq_false_iff.mpr hw)
      rw [he]
      rw [isWriteCommand_iff, not_or] at hw
      simp only [Effect.apply, ite_self]
      simp only [execute, beq_iff_eq, hw.1, hw.2, if_false, apply_ite Prod.snd, ite_self]

theorem execute_of_not_write (now : TimePoint) {args : List Bytes} (store : Store)
    (info : ReplicationInfo) (fromMaster : Bool) (h : isWrite args = false) :
    (execute now args store info fromMaster).2 = store := by
  rw [execute_store, effect_of_not_write h]
  exact ite_self store

theorem find_delLoop (keys : List Bytes) (store : Store) (k : Bytes) :
    (delLoop keys store).2.find k = if k ∈ keys then none else store.find k := by
  induction keys generalizing store with
  | nil => simp [delLoop]
  | cons key keys ih =>
    simp only [delLoop, ih, Store.find_del, List.mem_cons]
    by_cases h : k ∈ keys <;> by_cases h' : k = key <;> simp [h, h']

theorem find_apply (now : TimePoint) (store : Store) (eff : Effect) (k : Bytes) :
    (eff.apply now store).find k =
      match eff with
      | .keep => store.find k
      | .set key value px =>
        if k = key then some ⟨value, px.map (fun p ↦ now + Store.millis p)⟩ else store.find k
      | .del keys => if k ∈ keys then none else store.find k := by
  cases eff with
  | keep => rfl
  | set key value px => exact Store.find_set now key value px store k
  | del keys => exact find_delLoop keys store k

end Command

end RedisLite
