import RedisLite.Controller.Failover
import RedisLite.Controller.Report
import RedisLite.Visit

namespace RedisLite.Controller

open Server Lib.Numerals Lib.Transcript

variable {cfg : Config} {w : World cfg} {m : Monitor} {script : Script} {log : List Call}
  {addr : Addr} {fd : ℕ} {env : Env} {s : Server}

/-- What `sendCommand` gets from a server that is doing nothing else: the bytes of one `Read`
into its buffer, or a timeout. -/
def consult (fd : ℕ) (env : Env) (data : Bytes) (s : Server) : Response :=
  if (s.heard fd env data).isEmpty then none else some ((s.heard fd env data).take 4096)

def converse (fd : ℕ) (env : Env) : List Bytes → Server → Response
  | [], _ => none
  | [data], s => consult fd env data s
  | data :: rest, s => converse fd env rest (s.visit fd env data)

/-- From `log` on, the node at `addr` answers as the server `s`. -/
def AnswersAs (script : Script) (log : List Call) (addr : Addr) (fd : ℕ) (env : Env) (s : Server) :
    Prop :=
  ∀ requests, requests ≠ [] → replies script log addr requests =
    converse fd env (requests.map (fun request ↦ encodeRESP request.args)) s

theorem consult_of_heard {data response : Bytes} (h : s.heard fd env data = response)
    (hne : response ≠ []) (hlen : response.length ≤ 4096) :
    consult fd env data s = some response := by
  rw [consult, h, if_neg (by simpa using hne), List.take_of_length_le hlen]

theorem plain_info : PlainRequest Request.info.args :=
  ⟨by decide, by decide, by decide, by decide⟩

theorem plain_role : PlainRequest Request.role.args :=
  ⟨by decide, by decide, by decide, by decide⟩

theorem execute_info (now : TimePoint) (store : Store) (info : ReplicationInfo) :
    (Command.execute now Request.info.args store info false).1 =
      Command.executeInfo Request.info.args info := by
  have hread : Command.isWriteCommand (toUpper (ascii "INFO")) = false := by decide
  change (Command.execute now [ascii "INFO", ascii "replication"] store info false).1 = _
  unfold Command.execute
  dsimp only
  rw [hread, Bool.and_false]
  rfl

theorem execute_role (now : TimePoint) (store : Store) (info : ReplicationInfo) :
    (Command.execute now Request.role.args store info false).1 = Command.executeRole info := by
  have hread : Command.isWriteCommand (toUpper (ascii "ROLE")) = false := by decide
  change (Command.execute now [ascii "ROLE"] store info false).1 = _
  unfold Command.execute
  dsimp only
  rw [hread, Bool.and_false]
  rfl

/-- A server that can be asked for its offset: its main thread is free, its replies fit one `Read`
and are sent at once, and what it reports can be read. -/
structure Askable (fd : ℕ) (env : Env) (s : Server) : Prop where
  vacant : Vacant fd s
  idle : s.pc = .idle
  takes : Takes 4096 { s with sends := env.sends }
  short : (Command.executeInfo Request.info.args s.replInfo).length ≤ 4096
  id : 13 ∉ s.replInfo.masterReplid
  id₂ : 13 ∉ s.replInfo.masterReplid2
  low : -2 ^ 63 ≤ s.replInfo.masterReplOffset
  high : s.replInfo.masterReplOffset < 2 ^ 63

theorem executeInfo_ne_nil (info : ReplicationInfo) :
    Command.executeInfo Request.info.args info ≠ [] := by
  obtain ⟨n, hlines⟩ := executeInfo_lines info
  change Command.executeInfo [ascii "INFO", ascii "replication"] info ≠ []
  rw [hlines]
  exact nofun

theorem executeRole_ne_nil (info : ReplicationInfo) : Command.executeRole info ≠ [] := by
  unfold Command.executeRole
  split <;> exact nofun

theorem executeRole_short {info : ReplicationInfo} (hrole : info.role = .master)
    (hlow : -2 ^ 63 ≤ info.masterReplOffset) (hhigh : info.masterReplOffset < 2 ^ 63) :
    (Command.executeRole info).length ≤ 4096 := by
  have hdigits : (decimal info.masterReplOffset.natAbs).length ≤ 19 :=
    decimal_length_le_of_lt (by decide) (by omega)
  have hnumber : (toStr info.masterReplOffset).length ≤ 20 := by
    unfold toStr
    split
    · rw [List.length_cons]
      omega
    · omega
  have hframe : (ascii "*3\r\n$6\r\nmaster\r\n:").length = 17 ∧
      (ascii "\r\n*0\r\n").length = 6 := by decide
  simp only [Command.executeRole, hrole, List.length_append]
  omega

theorem Askable.visit_info (h : Askable fd env s) :
    ∃ rest, s.visit fd env (encodeRESP Request.info.args) =
      { s with
        nextId := s.nextId + 1
        wire := Function.update s.wire s.nextId
          (s.wire s.nextId ++ Command.executeInfo Request.info.args s.replInfo)
        sends := rest } := by
  rw [encodeRESP_eq]
  exact visit_plain h.vacant h.idle plain_info (by decide) (execute_info ..)
    (executeInfo_ne_nil _) (h.takes.mono h.short)

theorem Askable.consult_info (h : Askable fd env s) :
    consult fd env (encodeRESP Request.info.args) s =
      some (Command.executeInfo Request.info.args s.replInfo) := by
  obtain ⟨rest, hvisit⟩ := h.visit_info
  exact consult_of_heard (heard_of_wire (by rw [hvisit])) (executeInfo_ne_nil _) h.short

theorem replOffset_reads {info : ReplicationInfo} (hid : 13 ∉ info.masterReplid)
    (hid₂ : 13 ∉ info.masterReplid2) (hlow : -2 ^ 63 ≤ info.masterReplOffset)
    (hhigh : info.masterReplOffset < 2 ^ 63) :
    (Controller.info (some (Command.executeInfo Request.info.args info))).map replOffset =
      some info.masterReplOffset := by
  have hreads := info_reads hid hid₂
  change Controller.info (some (Command.executeInfo Request.info.args info)) = _ at hreads
  rw [hreads, Option.map_some, Option.some_inj]
  change ((some (toStr info.masterReplOffset)).bind parseInt).getD 0 = _
  rw [Option.bind_some, parseInt_toStr hlow hhigh, Option.getD_some]

theorem Askable.offset (h : Askable fd env s) :
    (Controller.info (consult fd env (encodeRESP Request.info.args) s)).map replOffset =
      some s.replInfo.masterReplOffset := by
  rw [h.consult_info]
  exact replOffset_reads h.id h.id₂ h.low h.high

structure Electable (fd : ℕ) (env : Env) (s : Server) : Prop extends Askable fd env s where
  reachable : Reachable s
  worker : s.replInfo.role = .worker

def consulted (fd : ℕ) (env : Env) (s : Server) : Server :=
  s.visit fd env (encodeRESP Request.info.args)

def elevated (fd : ℕ) (env : Env) (s : Server) : Server :=
  (consulted fd env s).visit fd env (encodeRESP Request.noOne.args)

namespace Electable

theorem consulted_eq (h : Electable fd env s) : ∃ wire rest, consulted fd env s =
    { s with nextId := s.nextId + 1, wire := wire, sends := rest } := by
  obtain ⟨rest, hvisit⟩ := h.visit_info
  exact ⟨_, rest, hvisit⟩

theorem consulted_vacant (h : Electable fd env s) : Vacant fd (consulted fd env s) := by
  obtain ⟨wire, rest, heq⟩ := h.consulted_eq
  refine Vacant.of_reachable (reachable_visit h.reachable ..) ?_
  rw [heq]
  exact h.vacant.descriptor

theorem consulted_idle (h : Electable fd env s) : (consulted fd env s).pc = .idle := by
  obtain ⟨wire, rest, heq⟩ := h.consulted_eq
  rw [heq]
  exact h.idle

theorem visit_noOne (h : Electable fd env s) : elevated fd env s =
    { (consulted fd env s).released env.replid with
      nextId := (consulted fd env s).nextId + 1
      wire := Function.update (consulted fd env s).wire (consulted fd env s).nextId
        ((consulted fd env s).wire (consulted fd env s).nextId ++ ascii "+OK\r\n")
      sends := env.sends } := by
  have htakes : Takes 5 { consulted fd env s with sends := env.sends } := h.takes.mono (by decide)
  rw [elevated, encodeRESP_eq]
  exact Server.visit_noOne h.consulted_vacant h.consulted_idle
    (.of_reachable (reachable_visit h.reachable ..)) htakes

theorem data_elevated (h : Electable fd env s) :
    (elevated fd env s).data = s.data.promote env.replid := by
  obtain ⟨wire, rest, heq⟩ := h.consulted_eq
  have hdata : (consulted fd env s).data = s.data := by rw [heq]; rfl
  have hrole : ¬(consulted fd env s).replInfo.role = .master := by
    have hinfo : (consulted fd env s).replInfo = s.replInfo := by rw [heq]
    rw [hinfo, h.worker]
    decide
  rw [h.visit_noOne]
  change ((consulted fd env s).released env.replid).data = _
  rw [released, if_neg hrole]
  change (consulted fd env s).removeMaster.data.promote env.replid = _
  rw [data_removeMaster, hdata]

theorem consult_noOne (h : Electable fd env s) :
    consult fd env (encodeRESP Request.noOne.args) (consulted fd env s) =
      some (ascii "+OK\r\n") := by
  have hwire := congrArg Server.wire h.visit_noOne
  exact consult_of_heard (heard_of_wire hwire) (by decide) (by decide)

theorem elevated_info (h : Electable fd env s) :
    (elevated fd env s).replInfo = (s.data.promote env.replid).replInfo :=
  congrArg Data.replInfo h.data_elevated

theorem elevated_short (h : Electable fd env s) :
    (Command.executeRole (elevated fd env s).replInfo).length ≤ 4096 := by
  rw [h.elevated_info]
  exact executeRole_short rfl h.low h.high

theorem visit_role (h : Electable fd env s) :
    ∃ rest, (elevated fd env s).visit fd env (encodeRESP Request.role.args) =
      { elevated fd env s with
        nextId := (elevated fd env s).nextId + 1
        wire := Function.update (elevated fd env s).wire (elevated fd env s).nextId
          ((elevated fd env s).wire (elevated fd env s).nextId ++
            Command.executeRole (elevated fd env s).replInfo)
        sends := rest } := by
  have hcons : Consistent (consulted fd env s) := .of_reachable (reachable_visit h.reachable ..)
  have hvacant : Vacant fd (elevated fd env s) := by
    refine Vacant.of_reachable (reachable_visit (reachable_visit h.reachable ..) ..) ?_
    rw [h.visit_noOne]
    exact (h.consulted_vacant.released hcons env.replid).descriptor
  have hidle : (elevated fd env s).pc = .idle := by
    rw [h.visit_noOne]
    exact (released_pc ..).trans h.consulted_idle
  have htakes : Takes (Command.executeRole (elevated fd env s).replInfo).length
      { elevated fd env s with sends := env.sends } := h.takes.mono h.elevated_short
  rw [encodeRESP_eq]
  exact visit_plain hvacant hidle plain_role (by decide) (execute_role ..) (executeRole_ne_nil _)
    htakes

theorem consult_role (h : Electable fd env s) :
    role (consult fd env (encodeRESP Request.role.args) (elevated fd env s)) =
      some (ascii "master") := by
  obtain ⟨rest, hvisit⟩ := h.visit_role
  rw [consult_of_heard (heard_of_wire (congrArg Server.wire hvisit)) (executeRole_ne_nil _)
    h.elevated_short, role_reads]
  · rw [h.elevated_info]
    rfl
  · rw [h.elevated_info]
    exact List.not_mem_nil

end Electable

theorem AnswersAs.offsetOf (hanswers : AnswersAs script log addr fd env s)
    (h : Askable fd env s) : offsetOf script log addr = some s.replInfo.masterReplOffset := by
  rw [Controller.offsetOf, hanswers _ (List.cons_ne_nil _ _)]
  exact h.offset

theorem AnswersAs.noOne (hanswers : AnswersAs script log addr fd env s)
    (h : Electable fd env s) : replicaOf (replies script log addr [.info, .noOne]) = true := by
  rw [hanswers _ (List.cons_ne_nil _ _)]
  change replicaOf (consult fd env _ (consulted fd env s)) = true
  rw [h.consult_noOne]
  decide

theorem AnswersAs.role (hanswers : AnswersAs script log addr fd env s) (h : Electable fd env s) :
    Controller.role (replies script log addr [.info, .noOne, .role]) = some (ascii "master") := by
  rw [hanswers _ (List.cons_ne_nil _ _)]
  exact h.consult_role

theorem AnswersAs.promotes (hanswers : AnswersAs script log addr fd env s)
    (h : Electable fd env s) : Promotes script log addr :=
  ⟨hanswers.noOne h, 0, by decide, hanswers.role h⟩

def attended (fd : ℕ) (env : Env) (requests : List Request) (s : Server) : Server :=
  requests.foldl (fun s request ↦ s.visit fd env (encodeRESP request.args)) s

theorem tryCandidate_prompt (hno : replicaOf (replies script log addr [.noOne]) = true)
    (hrole : role (replies script log addr [.noOne, .role]) = some (ascii "master")) :
    (tryCandidate script log addr).2.map (·.request) = [.noOne, .role] := by
  have hpoll : role (call script (log ++ [call script log addr .noOne]) addr .role).response =
      some (ascii "master") := by
    have hasked : asked [call script log addr .noOne] addr = [.noOne] :=
      asked_eq_map (List.forall_mem_singleton.mpr rfl)
    rw [call_response, replies_append hasked]
    exact hrole
  rw [tryCandidate, call_response, if_pos hno]
  simp only [promoteMaxRetries, pollRole, hpoll, if_true]
  rfl

theorem asked_promotion_prompt {tried : List Addr} (hnodup : tried.Nodup) (hmem : addr ∈ tried)
    (hranked : addr ∈ ranked w m) (hno : replicaOf (replies w.script m.log addr [.info, .noOne]) = true)
    (hrole : role (replies w.script m.log addr [.info, .noOne, .role]) = some (ascii "master")) :
    asked (promotionCalls w m tried) addr = [.info, .noOne, .role] := by
  have hcandidate := mem_candidates_of_ranked hranked
  have hinfo : asked (infoCalls w m) addr = [.info] :=
    asked_map_ask _ candidatesOf_nodup hcandidate _ _
  rw [← replies_after_info hcandidate] at hno hrole
  rw [promotionCalls, asked_append, hinfo, attempts,
    asked_flatMap hnodup hmem (fun _ ↦ tryCandidate_peer),
    tryCandidate_prompt hno hrole]
  rfl

theorem Electable.data_attended (h : Electable fd env s) :
    (attended fd env [.info, .noOne, .role] s).data = s.data.promote env.replid := by
  obtain ⟨rest, hvisit⟩ := h.visit_role
  have hlast : attended fd env [.info, .noOne, .role] s =
      (elevated fd env s).visit fd env (encodeRESP Request.role.args) := rfl
  rw [hlast, hvisit, ← h.data_elevated]
  rfl

theorem asked_redirectCalls (tried : List Addr) (n : Addr) : asked (redirectCalls w m tried n) n = [] := by
  unfold redirectCalls
  split
  · rfl
  · refine asked_eq_nil (fun x hx ↦ ?_)
    obtain ⟨a, ha, rfl⟩ := List.mem_map.mp hx
    have hne := (List.mem_filter.mp ha).2
    simp only [Bool.and_eq_true, bne_iff_ne] at hne
    exact hne.1.1

/-- As long as one eligible node is a worker of this program that can be reached, a failover ends
the outage, whatever the other nodes do: some configured node becomes the master, and none with a
smaller offset than that worker's, or the same and a larger address. If it is the worker itself,
it is sent `INFO`, `REPLICAOF NO ONE` and `ROLE` and has become a master at its own offset, with
its store as it was. -/
theorem electable_node_ends_outage (hidle : m.failoverInProgress = false) (hnode : addr ∈ cfg.nodes)
    (heligible : m.eligible addr = true) (hanswers : AnswersAs w.script m.log addr fd env s)
    (h : Electable fd env s) :
    ∃ n ∈ cfg.nodes, (triggerFailover w m).master = n ∧ n ≠ m.master ∧
      (∃ k, offsetOf w.script m.log n = some k ∧ (s.replInfo.masterReplOffset < k ∨
        s.replInfo.masterReplOffset = k ∧ n ≤ addr)) ∧
      (n = addr → asked (triggerFailover w m).log addr =
          asked m.log addr ++ [.info, .noOne, .role] ∧
        (attended fd env [.info, .noOne, .role] s).data = s.data.promote env.replid) := by
  have hoffset := hanswers.offsetOf h.toAskable
  have hranked : addr ∈ ranked w m := mem_ranked.mpr ⟨hnode, heligible, by rw [hoffset]; rfl⟩
  have hout := triggerFailover_outcome w m
  generalize triggerFailover w m = m' at hout ⊢
  cases hout with
  | skipped hbusy =>
    rw [hidle] at hbusy
    cases hbusy
  | failed _ hnone => exact absurd (hanswers.promotes h) (hnone addr hranked)
  | @promoted before after n _ heq hbefore hn =>
    have hmem : n ∈ ranked w m := by
      rw [heq]
      exact List.mem_append_right _ (List.mem_cons_self ..)
    obtain ⟨hnode', heligible', -⟩ := mem_ranked.mp hmem
    refine ⟨n, hnode', rfl, ?_, ?_, ?_⟩
    · simp only [Monitor.eligible, Bool.and_eq_true, bne_iff_ne] at heligible'
      exact heligible'.2
    · rw [heq] at hranked
      rcases List.mem_append.mp hranked with hfirst | hrest
      · exact absurd (hanswers.promotes h) (hbefore addr hfirst)
      · rcases List.mem_cons.mp hrest with rfl | hafter
        · exact ⟨_, hoffset, .inr ⟨rfl, List.le_refl _⟩⟩
        · have hahead : Ahead w.script m.log n addr := by
            have hpairs := ranked_ahead (w := w) (m := m)
            rw [heq, List.pairwise_append] at hpairs
            exact (List.pairwise_cons.mp hpairs.2.1).1 addr hafter
          obtain ⟨k, k', hk, hk', hless⟩ := hahead
          rw [hoffset, Option.some.injEq] at hk'
          refine ⟨k, hk, ?_⟩
          rcases hless with hless | ⟨hsame, hless⟩
          · exact .inl (hk' ▸ hless)
          · exact .inr ⟨hk'.trans hsame.symm, List.le_of_lt hless⟩
    · rintro rfl
      have hnodup : (before ++ [n]).Nodup := by
        have hall := ranked_nodup (w := w) (m := m)
        rw [heq, List.append_cons] at hall
        exact hall.of_append_left
      refine ⟨?_, h.data_attended⟩
      rw [asked_append, asked_append, asked_redirectCalls, List.append_nil,
        asked_promotion_prompt hnodup (List.mem_append_right _ (List.mem_singleton_self n)) hmem
          (hanswers.noOne h) (hanswers.role h)]

def generousEnv : Env := { Env.quiet 0 with sends := [.sent 4095], replid := sampleId }

theorem sampleWorker_electable : Electable 7 generousEnv sampleWorker := by
  have hreachable : Reachable sampleWorker := ⟨sampleWorker, [], sampleWorker_initial, rfl⟩
  have heval : sampleWorker.fds 7 = none ∧ sampleWorker.pc = .idle ∧
      (Command.executeInfo Request.info.args sampleWorker.replInfo).length ≤ 4096 ∧
      13 ∉ sampleWorker.replInfo.masterReplid ∧ 13 ∉ sampleWorker.replInfo.masterReplid2 ∧
      sampleWorker.replInfo.masterReplOffset = 0 ∧ sampleWorker.replInfo.role = .worker := by
    decide +kernel
  obtain ⟨hfd, hidle, hshort, hid, hid₂, hoffset, hworker⟩ := heval
  exact {
    vacant := .of_reachable hreachable hfd
    idle := hidle
    takes := ⟨4095, [], rfl, le_refl _⟩
    short := hshort
    id := hid
    id₂ := hid₂
    low := by rw [hoffset]; decide
    high := by rw [hoffset]; decide
    reachable := hreachable
    worker := hworker }

def lonelyWorld (s : Server) : World ⟨sampleNodes, 3⟩ :=
  configured sampleNodes 3 sampleNodes_nodup (fun addr commands ↦
    if addr = ascii "b:2" then converse 7 generousEnv commands s else none)

def lonelyMonitor : Monitor :=
  { newMonitor with nodes := fun _ ↦ ⟨ascii "slave", true⟩, master := ascii "a:1" }

theorem lonely_answers (s : Server) :
    AnswersAs (lonelyWorld s).script lonelyMonitor.log (ascii "b:2") 7 generousEnv s := by
  intro requests _
  change (if ascii "b:2" = ascii "b:2" then converse 7 generousEnv _ s else none) = _
  exact if_pos rfl

theorem lonely_worker_ends_outage :
    ∃ n ∈ sampleNodes, (triggerFailover (lonelyWorld sampleWorker) lonelyMonitor).master = n ∧
      n ≠ ascii "a:1" ∧
      (n = ascii "b:2" → (attended 7 generousEnv [.info, .noOne, .role] sampleWorker).data =
        sampleWorker.data.promote sampleId) := by
  obtain ⟨n, hnode, hmaster, hne, -, hself⟩ := electable_node_ends_outage (m := lonelyMonitor)
    (w := lonelyWorld sampleWorker) rfl (by decide) (by decide) (lonely_answers sampleWorker)
    sampleWorker_electable
  exact ⟨n, hnode, hmaster, hne, fun heq ↦ (hself heq).2⟩

end RedisLite.Controller
