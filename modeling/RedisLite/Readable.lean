import RedisLite.Conversation
import RedisLite.Lib.Value

namespace RedisLite

open Lib Lib.Numerals Lib.Search

def IsReply (response : Bytes) : Prop := ∃ v : Value, Value.Valid 1 v ∧ v.encode = response

namespace IsReply

theorem ne_nil {response : Bytes} (h : IsReply response) : response ≠ [] := by
  obtain ⟨v, -, rfl⟩ := h
  exact v.encode_ne_nil

theorem error {text : Bytes} (h : find? Value.lineEnd text = none) :
    IsReply (45 :: (text ++ crlf)) := ⟨.error text, h, rfl⟩

theorem integer (n : ℤ) : IsReply (ascii ":" ++ toStr n ++ crlf) := ⟨.integer n, trivial, rfl⟩

theorem bulk_eq (str : Bytes) : (Value.bulk str).encode = Resp.encodeBulkString str := by
  rw [Value.encode, signed_natCast, Resp.encodeBulkString, List.append_assoc, List.append_assoc,
    List.append_assoc]
  rfl

theorem bulk (str : Bytes) : IsReply (Resp.encodeBulkString str) :=
  ⟨.bulk str, trivial, bulk_eq str⟩

theorem null : IsReply Resp.encodeNullBulkString := ⟨.null, trivial, rfl⟩

theorem array (args : List Bytes) : IsReply (Resp.encodeArray args) := by
  refine ⟨.array (args.map .bulk), fun v hv ↦ ?_, ?_⟩
  · obtain ⟨str, -, rfl⟩ := List.mem_map.mp hv
    trivial
  · rw [Value.encode, Value.encodeItems_eq, List.flatMap_map, List.length_map, signed_natCast,
      Resp.encodeArray]
    simp only [bulk_eq, List.append_assoc]
    rfl

theorem values {replies : List Bytes} (h : ∀ reply ∈ replies, IsReply reply) :
    ∃ values : List Value, values.map Value.encode = replies ∧ ∀ v ∈ values, Value.Valid 1 v := by
  induction replies with
  | nil => exact ⟨[], rfl, fun _ hv ↦ absurd hv List.not_mem_nil⟩
  | cons reply replies ih =>
    obtain ⟨v, hv, hreply⟩ := h reply (List.mem_cons_self ..)
    obtain ⟨values, hvalues, hvalid⟩ := ih (fun r hr ↦ h r (List.mem_cons_of_mem _ hr))
    refine ⟨v :: values, ?_, List.forall_mem_cons.mpr ⟨hv, hvalid⟩⟩
    rw [List.map_cons, hreply, hvalues]

end IsReply

def heardValues (chunks : List Bytes) : List Value × Bytes :=
  chunks.foldl (Value.framing 1).receive ([], [])

theorem heardValues_eq (chunks : List Bytes) :
    heardValues chunks = (Value.framing 1).drain chunks.flatten :=
  (Value.framing 1).foldl_receive Value.next_pos chunks [] (Value.framing 1).decode_nil

namespace Command

def known : List Bytes :=
  [ascii "PING", ascii "ECHO", ascii "INFO", ascii "SET", ascii "DEL", ascii "GET", ascii "ROLE",
    ascii "REPLCONF", ascii "PSYNC", ascii "REPLICAOF", ascii "WAIT"]

theorem isReply_set (now : TimePoint) (args : List Bytes) (store : Store) :
    IsReply (executeSet now args store).1 := by
  unfold executeSet
  split
  · split
    · exact ⟨.error (ascii "ERR value is not an integer or out of range"), rfl, rfl⟩
    · exact ⟨.simple (ascii "OK"), rfl, rfl⟩
    · split
      · exact ⟨.error (ascii "ERR invalid expire time in 'set' command"), rfl, rfl⟩
      · exact ⟨.simple (ascii "OK"), rfl, rfl⟩
  · exact ⟨.error (ascii "ERR wrong number of arguments for 'set' command"), rfl, rfl⟩

theorem isReply_del (args : List Bytes) (store : Store) : IsReply (executeDel args store).1 := by
  unfold executeDel
  split
  · exact .integer _
  · exact ⟨.error (ascii "ERR wrong number of arguments for 'del' command"), rfl, rfl⟩

theorem isReply_echo (args : List Bytes) : IsReply (executeEcho args) := by
  unfold executeEcho
  split
  · exact .bulk _
  · exact ⟨.error (ascii "ERR wrong number of arguments for 'echo' command"), rfl, rfl⟩

theorem isReply_info (args : List Bytes) (info : ReplicationInfo) :
    IsReply (executeInfo args info) := by
  unfold executeInfo
  extract_lets sect
  split
  · exact .bulk _
  · exact .bulk _

theorem isReply_get (now : TimePoint) (args : List Bytes) (store : Store) :
    IsReply (executeGet now args store) := by
  unfold executeGet
  split
  · split
    · exact .null
    · exact .bulk _
  · exact ⟨.error (ascii "ERR wrong number of arguments for 'get' command"), rfl, rfl⟩

theorem isReply_role (info : ReplicationInfo) : IsReply (executeRole info) := by
  unfold executeRole
  split
  · refine ⟨.array [.bulk (ascii "master"), .integer info.masterReplOffset, .array []],
      by simp [Value.Valid, Value.WellFormed], ?_⟩
    have hhead : 42 :: (signed (3 : ℕ) ++ Value.lineEnd) ++ Resp.encodeBulkString (ascii "master") ++
        [58] = ascii "*3\r\n$6\r\nmaster\r\n:" := by decide +kernel
    have htail : Value.lineEnd ++ (42 :: (signed (0 : ℕ) ++ Value.lineEnd)) =
        ascii "\r\n*0\r\n" := by decide +kernel
    rw [← hhead, ← htail]
    simp only [Value.encode, Value.encodeItems, ← IsReply.bulk_eq, List.append_assoc,
      List.append_nil, List.cons_append, List.nil_append]
    rfl
  · refine ⟨.array [.bulk (ascii "slave"), .bulk info.masterHost, .integer info.masterPort,
      .bulk (ascii "connected"), .integer info.masterReplOffset],
      by simp [Value.Valid, Value.WellFormed], ?_⟩
    have hhead : 42 :: (signed (5 : ℕ) ++ Value.lineEnd) ++ Resp.encodeBulkString (ascii "slave") =
        ascii "*5\r\n$5\r\nslave\r\n" := by decide +kernel
    have htail : Value.lineEnd ++ Resp.encodeBulkString (ascii "connected") ++ [58] =
        ascii "\r\n$9\r\nconnected\r\n:" := by decide +kernel
    rw [← hhead, ← htail]
    simp only [Value.encode, Value.encodeItems, ← IsReply.bulk_eq, List.append_assoc,
      List.append_nil, List.cons_append, List.nil_append]
    rfl

theorem isReply_replconf (args : List Bytes) (info : ReplicationInfo) :
    IsReply (executeReplconf args info) := by
  unfold executeReplconf
  split
  · split
    · exact .array _
    · exact ⟨.simple (ascii "OK"), rfl, rfl⟩
  · exact ⟨.simple (ascii "OK"), rfl, rfl⟩

theorem isReply_replicaof (args : List Bytes) :
    executeReplicaof args = [] ∨ IsReply (executeReplicaof args) := by
  unfold executeReplicaof
  split
  · split
    · exact .inl rfl
    · split
      · exact .inr ⟨.error (ascii "ERR Invalid master port"), rfl, rfl⟩
      · split
        · exact .inr ⟨.error (ascii "ERR Invalid master port"), rfl, rfl⟩
        · exact .inl rfl
  · exact .inr ⟨.error (ascii "ERR wrong number of arguments for 'replicaof' command"), rfl, rfl⟩

theorem isReply_wait (args : List Bytes) :
    executeWait args = [] ∨ IsReply (executeWait args) := by
  unfold executeWait
  split
  · split
    · exact .inl rfl
    · exact .inr ⟨.error (ascii "ERR value is not an integer or out of range"), rfl, rfl⟩
  · exact .inr ⟨.error (ascii "ERR wrong number of arguments for 'wait' command"), rfl, rfl⟩

def complaint (name : Bytes) : Bytes := ascii "ERR unknown command '" ++ name ++ ascii "'"

theorem find?_complaint (name : Bytes) :
    find? Value.lineEnd (complaint name) = none ↔ find? Value.lineEnd name = none := by
  rw [complaint, List.append_assoc, Value.lineEnd, find?_eq_none_append_left (by decide),
    find?_eq_none_append_right (by decide) (by decide)]

theorem isReply_complaint (name : Bytes) :
    IsReply (45 :: (complaint name ++ crlf)) ↔ find? Value.lineEnd name = none := by
  rw [← find?_complaint]
  constructor
  · rintro ⟨v, hv, hencode⟩
    by_contra hfind
    obtain ⟨i, hi⟩ := Option.ne_none_iff_exists'.mp hfind
    have hread := Value.read_encode 1 hv []
    rw [List.append_nil, hencode] at hread
    have hline : Value.line (complaint name ++ crlf) =
        .ok ((complaint name ++ crlf).take i, (complaint name ++ crlf).drop (i + 2)) := by
      rw [Value.line, find?_append crlf Value.lineEnd_ne_nil hi]
    have hle : i + 2 ≤ (complaint name).length := find?_le hi
    have herror : Value.read 1 (45 :: (complaint name ++ crlf)) =
        .ok (.error ((complaint name ++ crlf).take i), (complaint name ++ crlf).drop (i + 2)) := by
      rw [Value.read, Value.reader, Decode.andThen_of_ok rfl, if_neg (by decide), if_pos rfl,
        Decode.andThen_of_ok hline]
    rw [herror] at hread
    have hrest : (complaint name ++ crlf).drop (i + 2) = [] :=
      congrArg Prod.snd (Except.ok.inj hread)
    rw [List.drop_eq_nil_iff, List.length_append] at hrest
    have hcrlf : crlf.length = 2 := rfl
    omega
  · exact IsReply.error

end Command

namespace Server

open Command Lib.Run
open scoped List

variable {s : Server} {c : ClientId} {e : Event} {args : List Bytes}

/-- A command with a reply of its own that is one value: not `PSYNC`, and if it is unknown, its
name fits on a line. -/
def Spelled (args : List Bytes) : Prop :=
  commandName args ≠ ascii "PSYNC" ∧
    (commandName args ∈ known ∨ find? Value.lineEnd (args.headD []) = none)

instance (args : List Bytes) : Decidable (Spelled args) := inferInstanceAs (Decidable (_ ∧ _))

theorem execute_unknown (h : commandName args ∉ known) (hne : args ≠ []) (now : TimePoint)
    (store : Store) (info : ReplicationInfo) (fromMaster : Bool) :
    (execute now args store info fromMaster).1 =
      45 :: (complaint (args.headD []) ++ crlf) := by
  cases args with
  | nil => exact absurd rfl hne
  | cons name rest =>
    simp only [known, commandName, List.mem_cons, List.not_mem_nil, or_false, not_or] at h
    simp only [execute, isWriteCommand, toUpper_toUpper, beq_eq_false_iff_ne.mpr, h, ne_eq,
      not_false_eq_true, Bool.or_self, Bool.and_false, Bool.false_eq_true, if_false, complaint,
      List.headD_cons, List.append_assoc]
    rfl

def Responds (cmd : Bytes) (r : Bytes × Store) : Prop :=
  IsReply r.1 ∨ r.1 = [] ∧ (cmd = ascii "REPLICAOF" ∨ cmd = ascii "WAIT")

theorem execute_known (h : commandName args ∈ known) (hpsync : commandName args ≠ ascii "PSYNC")
    (now : TimePoint) (store : Store) (info : ReplicationInfo) (fromMaster : Bool) :
    Responds (commandName args) (execute now args store info fromMaster) := by
  cases args with
  | nil => exact .inl ⟨.error (ascii "ERR no command"), rfl, rfl⟩
  | cons name rest =>
    unfold execute
    apply iteInduction (fun _ ↦
      .inl ⟨.error (ascii "READONLY You can't write against a read only replica."), rfl, rfl⟩)
      (fun _ ↦ ?_)
    apply iteInduction (fun _ ↦ .inl ⟨.simple (ascii "PONG"), rfl, rfl⟩) (fun hping ↦ ?_)
    apply iteInduction (fun _ ↦ .inl (isReply_echo _)) (fun hecho ↦ ?_)
    apply iteInduction (fun _ ↦ .inl (isReply_info _ _)) (fun hinfo ↦ ?_)
    apply iteInduction (fun _ ↦ .inl (isReply_set _ _ _)) (fun hset ↦ ?_)
    apply iteInduction (fun _ ↦ .inl (isReply_del _ _)) (fun hdel ↦ ?_)
    apply iteInduction (fun _ ↦ .inl (isReply_get _ _ _)) (fun hget ↦ ?_)
    apply iteInduction (fun _ ↦ .inl (isReply_role _)) (fun hrole ↦ ?_)
    apply iteInduction (fun _ ↦ .inl (isReply_replconf _ _)) (fun hconf ↦ ?_)
    apply iteInduction (fun hsync ↦ absurd (beq_iff_eq.mp hsync) hpsync) (fun _ ↦ ?_)
    apply iteInduction (fun hof ↦ ?_) (fun hof ↦ ?_)
    · rcases isReply_replicaof (name :: rest) with hnil | hreply
      · exact .inr ⟨hnil, .inl (beq_iff_eq.mp hof)⟩
      · exact .inl hreply
    apply iteInduction (fun hwait ↦ ?_) (fun hwait ↦ ?_)
    · rcases isReply_wait (name :: rest) with hnil | hreply
      · exact .inr ⟨hnil, .inr (beq_iff_eq.mp hwait)⟩
      · exact .inl hreply
    simp only [beq_iff_eq] at hping hecho hinfo hset hdel hget hrole hconf hof hwait
    simp only [known, commandName, List.mem_cons, List.not_mem_nil, or_false] at h hpsync
    tauto

theorem isReply_waitAnswer {reply : Bytes} (hpass : executeWait args = [])
    (h : s.waitAnswer args = some reply) : IsReply reply := by
  unfold waitAnswer at h
  split at h
  · cases h
    exact .integer _
  · next hv =>
    cases h
    rw [waitVerdict_refused hv]
    exact ⟨.error (ascii "ERR value is not an integer or out of range"), rfl, rfl⟩
  · next hv =>
    unfold executeWait at hpass
    split at hpass
    · exact absurd hv waitVerdict_ne_ignored
    · cases hpass
  · cases h

theorem isReply_replicaofAnswer (hpass : executeReplicaof args = []) (s : Server) :
    IsReply (s.replicaofAnswer args) := by
  unfold replicaofAnswer
  split
  · split
    · exact ⟨.simple (ascii "OK"), rfl, rfl⟩
    · split
      · exact ⟨.error (ascii "ERR Invalid master port"), rfl, rfl⟩
      · split
        · exact ⟨.simple (ascii "OK Already connected to specified master"), rfl, rfl⟩
        · exact ⟨.simple (ascii "OK"), rfl, rfl⟩
  · next hargs =>
    unfold executeReplicaof at hpass
    split at hpass
    · next name host port => exact absurd rfl (hargs name host port [])
    · cases hpass

theorem spelled_of_known (h : commandName args ∈ known) (hpsync : commandName args ≠ ascii "PSYNC") :
    Spelled args := ⟨hpsync, .inl h⟩

/-- The one reply to a command is one value exactly if the command is spelled as it should be. -/
theorem spelled_iff_isReply {env : Env} {reply : Bytes} (h : s.answer env args = some reply) :
    Spelled args ↔ IsReply reply := by
  by_cases hwait : commandName args = ascii "WAIT"
  · have hspelled : Spelled args :=
      spelled_of_known (by rw [hwait]; decide) (by rw [hwait]; decide)
    refine iff_of_true hspelled ?_
    rw [answer_wait hwait] at h
    split at h
    · next hpass => exact isReply_waitAnswer hpass h
    · next hpass =>
      cases h
      exact (isReply_wait args).resolve_left hpass
  by_cases hreplicaof : commandName args = ascii "REPLICAOF"
  · have hspelled : Spelled args :=
      spelled_of_known (by rw [hreplicaof]; decide) (by rw [hreplicaof]; decide)
    refine iff_of_true hspelled ?_
    rw [answer_replicaof hreplicaof, Option.some.injEq] at h
    rw [← h]
    split
    · next hpass => exact isReply_replicaofAnswer hpass s
    · next hpass => exact (isReply_replicaof args).resolve_left hpass
  rw [answer_other hwait hreplicaof, Option.some.injEq] at h
  rw [← h]
  by_cases hpsync : commandName args = ascii "PSYNC"
  · refine iff_of_false (fun hspelled ↦ hspelled.1 hpsync) (fun hreply ↦ hreply.ne_nil ?_)
    rw [execute_psync hpsync]
  by_cases hknown : commandName args ∈ known
  · refine iff_of_true (spelled_of_known hknown hpsync) ?_
    refine (execute_known hknown hpsync _ _ _ _).resolve_right ?_
    rintro ⟨-, hof | hw⟩
    · exact hreplicaof hof
    · exact hwait hw
  · cases args with
    | nil => exact iff_of_true ⟨by decide, .inr rfl⟩ ⟨.error (ascii "ERR no command"), rfl, rfl⟩
    | cons name rest =>
      rw [execute_unknown hknown (List.cons_ne_nil _ _), isReply_complaint]
      exact ⟨fun hspelled ↦ hspelled.2.resolve_left hknown, fun hline ↦ ⟨hpsync, .inr hline⟩⟩

theorem wait_of_unanswered {env : Env} (h : s.answer env args = none) :
    commandName args = ascii "WAIT" := by
  by_contra hwait
  by_cases hreplicaof : commandName args = ascii "REPLICAOF"
  · rw [answer_replicaof hreplicaof] at h
    cases h
  · rw [answer_other hwait hreplicaof] at h
    cases h

def Fits : Turn → Turn → Prop
  | .asked args, .told reply => Spelled args ↔ IsReply reply
  | _, _ => True

/-- Replies fit their commands, those put off are one value, and only a `WAIT` is put off. -/
structure Readable (dialogue : List Turn) : Prop where
  fits : dialogue.IsChain Fits
  head : ∀ reply, dialogue.head? = some (.told reply) → IsReply reply
  last : ∀ args, dialogue.getLast? = some (.asked args) → commandName args = ascii "WAIT"

namespace Readable

variable {dialogue dialogue' : List Turn}

theorem nil : Readable [] := ⟨.nil, nofun, nofun⟩

theorem append (h : Readable dialogue) (h' : Readable dialogue') :
    Readable (dialogue ++ dialogue') where
  fits := by
    refine List.isChain_append.mpr ⟨h.fits, h'.fits, fun x hx y hy ↦ ?_⟩
    cases x with
    | told reply => trivial
    | asked args =>
      cases y with
      | asked args' => trivial
      | told reply =>
        have hname := h.last args hx
        exact iff_of_true (spelled_of_known (by rw [hname]; decide) (by rw [hname]; decide))
          (h'.head reply hy)
  head reply hreply := by
    cases dialogue with
    | nil => exact h'.head reply hreply
    | cons turn rest => exact h.head reply hreply
  last args hargs := by
    cases hlast : dialogue'.getLast? with
    | none =>
      rw [List.getLast?_eq_none_iff.mp hlast, List.append_nil] at hargs
      exact h.last args hargs
    | some turn =>
      rw [List.getLast?_append, hlast, Option.some_or] at hargs
      rw [hargs] at hlast
      exact h'.last args hlast

theorem told {replies : List Bytes} (h : ∀ reply ∈ replies, IsReply reply) :
    Readable (replies.map .told) := by
  induction replies with
  | nil => exact nil
  | cons reply replies ih =>
    have hone : Readable [.told reply] := by
      refine ⟨.singleton _, fun r hr ↦ ?_, nofun⟩
      cases hr
      exact h reply (List.mem_cons_self ..)
    exact hone.append (ih (fun r hr ↦ h r (List.mem_cons_of_mem _ hr)))

theorem settled (c : ClientId) (s : Server) (e : Event) : Readable (settledTurns c s e) := by
  have hmap : settledTurns c s e = (((answered s e).filter (·.client = c)).map (fun wait ↦
      integerReply ((s.counted e).countCaughtUpReplicas wait.targetOffset))).map .told := by
    rw [settledTurns, List.map_map]
    rfl
  rw [hmap]
  refine told (fun reply hmem ↦ ?_)
  obtain ⟨wait, -, rfl⟩ := List.mem_map.mp hmem
  exact .integer _

theorem turns (c : ClientId) (s : Server) (e : Event) : Readable (turns c s e) := by
  unfold Server.turns
  split
  · next env d client args n ht =>
    split
    · cases hanswer : s.answer env args with
      | none =>
        refine ⟨.singleton _, nofun, fun args' hlast ↦ ?_⟩
        cases hlast
        exact wait_of_unanswered hanswer
      | some reply =>
        refine ⟨?_, nofun, nofun⟩
        exact List.isChain_pair.mpr (spelled_iff_isReply hanswer)
    · exact settled c s e
  · exact settled c s e

theorem trace (c : ClientId) (s : Server) (es : List Event) :
    Readable (trace step (Server.turns c) s es) := by
  induction es generalizing s with
  | nil => exact nil
  | cons e es ih => exact (turns c s e).append (ih (step s e))

theorem pair {pairs : List (List Bytes × Bytes)} {pending : Option (List Bytes)}
    (h : Readable (exchange pairs pending)) {p : List Bytes × Bytes} (hmem : p ∈ pairs) :
    Spelled p.1 ↔ IsReply p.2 := by
  obtain ⟨before, after, rfl⟩ := List.append_of_mem hmem
  have hparts : exchange (before ++ p :: after) pending =
      before.flatMap (fun p ↦ [.asked p.1, .told p.2]) ++ ([.asked p.1, .told p.2] ++
        (after.flatMap (fun p ↦ [.asked p.1, .told p.2]) ++ (pending.map .asked).toList)) := by
    simp [exchange]
  have hchain := h.fits
  rw [hparts] at hchain
  have hfits : Fits (.asked p.1) (.told p.2) :=
    List.isChain_pair.mp hchain.right_of_append.left_of_append
  exact hfits

end Readable

/-- A client can read what it is sent. In every run whose steps serve the regular client `c`, the
reply to each of its commands is exactly one value, unless the command is `PSYNC` or an unknown one
whose name has a line end in it. If there is no such command, a receiver that knows nothing but the
protocol gets these values back, one for each command and in their order, however the bytes that
have been sent are cut on the way, and all of them once everything has arrived. -/
theorem replies_readable {s₀ : Server} {es : List Event} (h₀ : Initial s₀)
    (hrun : Along step (Serves c) s₀ es) :
    ∃ pairs pending, Lib.Run.trace step (turns c) s₀ es = exchange pairs pending ∧
      (∀ p ∈ pairs, Spelled p.1 ↔ IsReply p.2) ∧
      ((∀ p ∈ pairs, Spelled p.1) → ∃ values, values.map Value.encode = pairs.map (·.2) ∧
        ∀ chunks : List Bytes,
          (chunks.flatten <+: (run step s₀ es).wire c →
            (heardValues chunks).1 <+: values) ∧
          (((run step s₀ es).clients c).isSome = true →
            chunks.flatten = (run step s₀ es).outbound c → heardValues chunks = (values, []))) := by
  have hconv := Conversing.of_along h₀ hrun
  obtain ⟨pairs, pending, hdialogue, -⟩ := hconv.exchange
  have hreadable := Readable.trace c s₀ es
  rw [hdialogue] at hreadable
  refine ⟨pairs, pending, hdialogue, fun p hp ↦ hreadable.pair hp, fun hspelled ↦ ?_⟩
  have hreplies : ∀ reply ∈ pairs.map (·.2), IsReply reply := by
    intro reply hmem
    obtain ⟨p, hp, rfl⟩ := List.mem_map.mp hmem
    exact (hreadable.pair hp).mp (hspelled p hp)
  obtain ⟨values, hencode, hvalid⟩ := IsReply.values hreplies
  have hsaid : saying (Lib.Run.trace step (turns c) s₀ es) = (Value.framing 1).stream values := by
    rw [hdialogue, saying_exchange, ← hencode]
    exact (List.flatMap_def ..).symm
  have htold : (run step s₀ es).outbound c <+: (Value.framing 1).stream values ∧
      (((run step s₀ es).clients c).isSome = true →
        (run step s₀ es).outbound c = (Value.framing 1).stream values) := by
    rw [← hsaid]
    rcases Nat.lt_or_ge c (run step s₀ es).nextId with hlt | hge
    · exact hconv.known hlt
    · obtain ⟨hnil, hempty⟩ := hconv.unknown hge
      rw [hnil, hempty]
      exact ⟨List.prefix_rfl, fun _ ↦ rfl⟩
  refine ⟨values, hencode, fun chunks ↦ ⟨fun hpart ↦ ?_, fun hopen hall ↦ ?_⟩⟩
  · obtain ⟨more, hmore⟩ := (hpart.trans (List.prefix_append _ _)).trans htold.1
    rw [heardValues_eq]
    exact (Value.framing 1).drain_part Value.next_pos hvalid Value.encode_ne_nil hmore
  · rw [heardValues_eq, hall, htold.2 hopen]
    exact (Value.framing 1).decodeAll_stream values hvalid _
      ((Value.framing 1).length_le_stream values Value.encode_ne_nil)

theorem replies_readable_of_patient :
    (run step (init sampleId) patientRun).wire 1 = ascii "+OK\r\n:0\r\n+PONG\r\n" ∧
    ∃ values : List Value, (values.map Value.encode).flatten = ascii "+OK\r\n:0\r\n+PONG\r\n" ∧
      heardValues [ascii "+O", ascii "K\r\n:0\r\n+PO", ascii "NG\r\n"] = (values, []) := by
  have heval : (run step (init sampleId) patientRun).wire 1 = ascii "+OK\r\n:0\r\n+PONG\r\n" ∧
      (run step (init sampleId) patientRun).outbound 1 = ascii "+OK\r\n:0\r\n+PONG\r\n" ∧
      ((run step (init sampleId) patientRun).clients 1).isSome = true ∧
      Along step (Serves 1) (init sampleId) patientRun ∧
      Lib.Run.trace step (turns 1) (init sampleId) patientRun =
        exchange [([ascii "SET", ascii "k", ascii "v"], ascii "+OK\r\n"),
          ([ascii "WAIT", ascii "1", ascii "100"], ascii ":0\r\n"),
          ([ascii "PING"], ascii "+PONG\r\n")] none := by
    decide +kernel
  obtain ⟨hwire, hout, hopen, hserves, htrace⟩ := heval
  obtain ⟨pairs, pending, hpairs, -, hread⟩ := replies_readable (.master sampleId)
    hserves
  rw [htrace] at hpairs
  have hspelled : ∀ p ∈ pairs, Spelled p.1 := by
    intro p hp
    have hmem : .asked p.1 ∈ exchange pairs pending :=
      List.mem_append_left _ (List.mem_flatMap.mpr ⟨p, hp, List.mem_cons_self ..⟩)
    rw [← hpairs] at hmem
    simp only [exchange, List.flatMap_cons, List.flatMap_nil, List.mem_append, List.mem_cons,
      Turn.asked.injEq, reduceCtorEq, List.not_mem_nil, or_false, Option.map_none,
      Option.toList_none, List.append_nil] at hmem
    rcases hmem with h | h | h <;> rw [h] <;> decide
  obtain ⟨values, hencode, hchunks⟩ := hread hspelled
  have hsaid : (values.map Value.encode).flatten = ascii "+OK\r\n:0\r\n+PONG\r\n" := by
    rw [hencode, ← saying_exchange pairs pending, ← hpairs]
    decide +kernel
  refine ⟨hwire, values, hsaid, (hchunks _).2 hopen ?_⟩
  rw [hout]
  decide

/-- A line end in the name of an unknown command begins a reply that nobody has asked for. -/
example : (heardValues [45 :: (complaint (ascii "x\r\n+y") ++ crlf)]).1 =
    [.error (ascii "ERR unknown command 'x"), .simple (ascii "y'")] := rfl

end Server

end RedisLite
