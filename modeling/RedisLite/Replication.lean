import RedisLite.Tracking

namespace RedisLite.Net

open Function Lib Lib.Run Server
open scoped List

variable {net : Net} {replid : Bytes} {c : ClientId} {j : Joined} {client client' : Client}
  {node : Node} {e : Event}

structure Sound (replid : Bytes) (net : Net) : Prop extends Ledger replid net where
  nodes : ∀ c, (net.nodes c).isSome = true → (net.joined c).isSome = true
  attached : ∀ c j client, net.joined c = some j → net.master.clients c = some client →
    Attached (net.since j.start) j client (net.nodes c)

namespace Sound

theorem init (replid : Bytes) : Sound replid (Net.init replid) where
  toLedger := .init replid
  nodes := nofun
  attached := nofun

theorem tracks (h : Sound replid net) (hj : net.joined c = some j) (hnode : net.nodes c = some node)
    (hclient : net.master.clients c = some client) :
    Tracks (net.since j.start) j client node := by
  have hattached := h.attached c j client hj hclient
  rw [hnode] at hattached
  exact hattached

theorem silent (h : Sound replid net) (e : Event) : Silent net.master e := by
  intro env c client args n _ hc ht
  have hmem := (h.steady.serving.consistent.replica_iff c).mpr ⟨client, hc.connected, ht⟩
  obtain ⟨j, hj⟩ := Option.isSome_iff_exists.mp (h.joined c hmem)
  have hattached := h.attached c j client hj hc.connected
  have hnext := hc.next
  cases hnode : net.nodes c with
  | none =>
    rw [hnode] at hattached
    rw [hattached.1] at hnext
    cases hnext
  | some node =>
    rw [hnode] at hattached
    obtain ⟨_, _, _, -, -, rfl⟩ := mem_acks (Tracks.next_ack hattached hnext)
    change Command.isWriteCommand (ascii "REPLCONF") = false
    decide

theorem tame (h : Sound replid net) (hcalm : Calm net.master e) : Tame net.master e :=
  ⟨hcalm, h.silent e⟩

theorem since_sized (h : Ledger replid net) (k : ℕ) : ∀ args ∈ net.since k, Resp.Sized args := by
  intro args hmem
  obtain ⟨entry, hentry, rfl⟩ := List.mem_map.mp hmem
  exact h.sized entry (List.mem_of_mem_drop hentry)

theorem attached_serve (h : Sound replid net) (hcalm : Calm net.master e)
    (hreads : e.reads c = false) (hj : net.joined c = some j)
    (hc : (Server.step net.master e).clients c = some client') :
    Attached ((net.serve e).since j.start) j client' (net.nodes c) := by
  obtain ⟨client, hfed⟩ := h.fed c j hj
  obtain ⟨client₁, hfed₁, hserved⟩ := h.fed_serve hcalm hfed
  have hclient : client₁ = client' := Option.some.inj (hfed₁.link.connected.symm.trans hc)
  rw [since_serve hfed.start, ← hclient]
  exact ((h.attached c j client hj hfed.link.connected).served hserved hreads).feed _

theorem nodes_joining (h : Sound replid net) (hg : Greets net.master e) {tk : Taking}
    (hj : joining net.master e = some tk) : net.nodes tk.c = none := by
  by_contra hne
  obtain ⟨hregular, htype, -⟩ := link_joining hj hg
  obtain ⟨j, hj⟩ := Option.isSome_iff_exists.mp (h.nodes tk.c (Option.isSome_iff_ne_none.mpr hne))
  obtain ⟨client, hfed⟩ := h.fed tk.c j hj
  have hclient := hfed.link.connected
  rw [hregular] at hclient
  cases hclient
  rw [hfed.link.type] at htype
  cases htype

theorem serve (h : Sound replid net) (hcalm : Calm net.master e) (hg : Greets net.master e)
    (hreads : ∀ c ∈ net.master.replicas, e.reads c = false) : Sound replid (net.serve e) := by
  have hlink {c : ClientId} {j : Joined} (hj : net.joined c = some j) : e.reads c = false := by
    obtain ⟨client, hfed⟩ := h.fed c j hj
    exact hreads c ((h.steady.serving.consistent.replica_iff c).mpr
      ⟨client, hfed.link.connected, hfed.link.type⟩)
  refine ⟨h.toLedger.serve (h.tame hcalm) hg, fun c hc ↦ ?_, fun c j client' hserved hc ↦ ?_⟩
  · have hsome := h.nodes c hc
    change (net.join e c).isSome = true
    cases hj : joining net.master e with
    | none =>
      rw [join_of_none hj]
      exact hsome
    | some tk =>
      rw [join_of_some hj]
      by_cases heq : c = tk.c
      · simp [heq]
      · rw [update_of_ne heq]
        exact hsome
  · change net.join e c = some j at hserved
    change Attached _ j client' (net.nodes c)
    cases hj : joining net.master e with
    | none =>
      rw [join_of_none hj] at hserved
      exact h.attached_serve hcalm (hlink hserved) hserved hc
    | some tk =>
      rw [join_of_some hj] at hserved
      by_cases heq : c = tk.c
      · subst heq
        have hclient : client' = { fd := tk.client.fd, type := .replica } :=
          Option.some.inj (hc.symm.trans (link_joining hj hg).2.2.connected)
        rw [h.nodes_joining hg hj, hclient]
        exact ⟨rfl, rfl⟩
      · rw [update_of_ne heq] at hserved
        exact h.attached_serve hcalm (hlink hserved) hserved hc

theorem setNode (h : Sound replid net) {node : Node} (hj : net.joined c = some j)
    (hnode : ∀ client, net.master.clients c = some client →
      Tracks (net.since j.start) j client node) : Sound replid (net.setNode c node) := by
  refine ⟨h.toLedger.setNode c node, fun d hd ↦ ?_, fun d j' client hj' hclient ↦ ?_⟩
  · by_cases heq : d = c
    · subst heq
      exact Option.isSome_iff_exists.mpr ⟨j, hj⟩
    · refine h.nodes d ?_
      simpa only [Net.setNode, update_of_ne heq] using hd
  · by_cases heq : d = c
    · subst heq
      have hsame : j' = j := Option.some.inj (hj'.symm.trans hj)
      subst hsame
      simp only [Net.setNode, update_self]
      exact hnode client hclient
    · simp only [Net.setNode, update_of_ne heq]
      exact h.attached d j' client hj' hclient

theorem entered (h : Sound replid net) (hid : IsReplid replid) {server : Server}
    {greeting recvs : List Bytes} {reply : Bytes} (hj : net.joined c = some j)
    (ha : Attaches j (net.master.wire c) server greeting reply recvs) :
    ∃ rdb up link, j.reply = fullResyncHeader replid j.offset ++ bulkPayload rdb ∧
      reply ++ recvs.flatten <+: j.reply ++ Resp.framing.stream (net.since j.start) ∧
      Entered reply recvs replid j.offset rdb server up link := by
  obtain ⟨client, hfed⟩ := h.fed c j hj
  obtain ⟨rdb, hreply⟩ := hfed.reply
  have h₀ : 0 ≤ j.offset := by
    rw [hfed.offset]
    exact Int.natCast_nonneg _
  have hbytes : reply ++ recvs.flatten <+:
      j.reply ++ Resp.framing.stream (net.since j.start) := by
    have hsent := ha.sent.trans hfed.link.wire_initial
    rwa [List.flatten_append, ha.aligned, List.flatten_cons, List.append_assoc,
      List.prefix_append_right_inj] at hsent
  obtain ⟨up, link, hentered⟩ := ha.resyncs.entered hid h₀ ha.bounded (hreply ▸ hbytes)
  exact ⟨rdb, up, link, hreply, hbytes, hentered⟩

theorem attach (h : Sound replid net) (hid : IsReplid replid) {server : Server}
    {greeting recvs : List Bytes} {reply : Bytes} (hj : net.joined c = some j)
    (hnone : net.nodes c = none)
    (ha : Attaches j (net.master.wire c) server greeting reply recvs) :
    Sound replid (net.setNode c (.enter server (greeting ++ reply :: recvs))) := by
  obtain ⟨rdb, up, link, hreply, hbytes, hentered⟩ := h.entered hid hj ha
  have hunread : reply ++ recvs.flatten = j.reply ++ link.readBuf := by
    rw [hentered.unread, hreply]
  have hup : server.masterClient.getD 0 = up := by rw [hentered.link, Option.getD_some]
  rw [Node.enter, hup, List.flatten_append, ha.aligned, List.flatten_cons]
  refine h.setNode hj (fun client hclient ↦ ?_)
  have hidle := h.attached c j client hj hclient
  rw [hnone] at hidle
  refine ⟨hentered.consistent, hentered.nonneg, hentered.le, ?_, nofun, ?_, .inl hidle.2⟩
  · exact (add_zero _).symm
  · refine ⟨link, server.wire up, ?_, ⟨link.readBuf, ?_, ?_⟩, [], [], ?_, ?_⟩
    · simpa [acks] using hentered.uplink
    · rw [hunread, List.append_assoc]
    · refine .start _ _ ?_
      rwa [hunread, List.prefix_append_right_inj] at hbytes
    · exact (List.append_nil _).symm
    · rw [hidle.1]
      exact .start _ _ List.nil_prefix

theorem up (h : Sound replid net) (hnode : net.nodes c = some node) (k : ℕ)
    (hpc : net.master.pc = .idle)
    (hne : pending (node.server.wire node.up) node.delivered k ≠ []) :
    Sound replid ((net.serve
      (.recv c (pending (node.server.wire node.up) node.delivered k))).setNode c
        (node.deliver (pending (node.server.wire node.up) node.delivered k))) := by
  obtain ⟨j, hj⟩ := Option.isSome_iff_exists.mp (h.nodes c (by rw [hnode]; rfl))
  obtain ⟨client, hfed⟩ := h.fed c j hj
  have hup := (h.tracks hj hnode hfed.link.connected).up k
  generalize pending (node.server.wire node.up) node.delivered k = data at hne hup ⊢
  have hcalm : Calm net.master (.recv c data) := trivial
  have hledger := h.toLedger.serve (e := .recv c data) (h.tame hcalm) nofun
  have hnone : joining net.master (.recv c data) = none := rfl
  have hjoined : (net.serve (.recv c data)).joined = net.joined := join_of_none hnone
  have hclient : (Server.step net.master (.recv c data)).clients c =
      some { client with readBuf := client.readBuf ++ data } := by
    have hdata : data.isEmpty = false := List.isEmpty_eq_false_iff.mpr hne
    simp [Server.step, hpc, handleRecv, hdata, hfed.link.connected, mapClient]
  refine ⟨hledger.setNode c _, fun d hd ↦ ?_, fun d j' client' hj' hclient' ↦ ?_⟩
  · by_cases heq : d = c
    · subst heq
      exact Option.isSome_iff_exists.mpr ⟨j, by rw [← hj, ← hjoined]; rfl⟩
    · have hnodes : (net.nodes d).isSome = true := by
        simpa only [Net.setNode, Net.serve, update_of_ne heq] using hd
      change ((net.serve (.recv c data)).joined d).isSome = true
      rw [hjoined]
      exact h.nodes d hnodes
  · change (net.serve (.recv c data)).joined d = some j' at hj'
    rw [hjoined] at hj'
    by_cases heq : d = c
    · subst heq
      have hsame : j' = j := Option.some.inj (hj'.symm.trans hj)
      have hread : client' = { client with readBuf := client.readBuf ++ data } :=
        Option.some.inj (hclient'.symm.trans hclient)
      subst hsame hread
      simp only [Net.setNode, update_self]
      change Tracks ((net.serve (.recv d data)).since _) _ _ _
      rw [since_serve hfed.start]
      exact hup.feed _
    · simp only [Net.setNode, update_of_ne heq]
      refine h.attached_serve hcalm ?_ hj' hclient'
      simpa [Event.reads] using Ne.symm heq

theorem step (h : Sound replid net) (hid : IsReplid replid) {e : NetEvent} (ho : Orderly net e) :
    Sound replid (Net.step net e) := by
  have hjoined {c : ClientId} {node : Node} (hnode : net.nodes c = some node) :
      ∃ j, net.joined c = some j := Option.isSome_iff_exists.mp (h.nodes c (by rw [hnode]; rfl))
  have hout := step_outcome net e
  generalize Net.step net e = net' at hout ⊢
  cases hout with
  | skip => exact h
  | master e hreads => exact h.serve ho.1 ho.2 hreads
  | attach c server greeting reply recvs j hj hnone => exact h.attach hid hj hnone (ho j hj hnone)
  | node c e node hnode hreads =>
    obtain ⟨j, hj⟩ := hjoined hnode
    obtain ⟨hstay, hbound⟩ := ho node hnode
    exact h.setNode hj (fun client hclient ↦ (h.tracks hj hnode hclient).step
      (since_sized h.toLedger j.start) hstay hreads hbound)
  | down c k node hnode hne hpc =>
    obtain ⟨j, hj⟩ := hjoined hnode
    obtain ⟨client, hfed⟩ := h.fed c j hj
    exact h.setNode hj (fun client hclient ↦
      (h.tracks hj hnode hclient).down hfed.link.wire_initial (k + 1) hne hpc)
  | up c k node hnode hne hpc => exact h.up hnode (k + 1) hpc hne

theorem run_with {J : Net → Prop} {Q : Net → NetEvent → Prop} (hid : IsReplid replid)
    (hstep : ∀ net e, Sound replid net → J net → Orderly net e → Q net e → J (Net.step net e))
    (hinit : J (Net.init replid)) {es : List NetEvent}
    (hrun : Along Net.step (fun net e ↦ Orderly net e ∧ Q net e) (Net.init replid) es) :
    Sound replid (Lib.Run.run Net.step (Net.init replid) es) ∧
      J (Lib.Run.run Net.step (Net.init replid) es) :=
  run_invariant Net.step (I := fun net ↦ Sound replid net ∧ J net)
    (fun net e h ho ↦ ⟨h.1.step hid ho.1, hstep net e h.1 h.2 ho.1 ho.2⟩) ⟨.init replid, hinit⟩ hrun

end Sound

def Smooth (net : Net) : NetEvent → Prop
  | .attach .. => False
  | e => Orderly net e

instance (net : Net) : ∀ e, Decidable (Smooth net e)
  | .master e => inferInstanceAs (Decidable (Calm net.master e ∧ Greets net.master e))
  | .attach .. => .isFalse id
  | .node c e => inferInstanceAs (Decidable (∀ node ∈ net.nodes c, Stays node.up node.server e ∧
    node.server.replInfo.masterReplOffset < 2 ^ 63))
  | .down _ _ | .up _ _ => .isTrue trivial

theorem Smooth.orderly {net : Net} {e : NetEvent} (h : Smooth net e) : Orderly net e := by
  cases e with
  | attach => exact h.elim
  | master | node | down | up => exact h

def sendingEnv : Env := { Env.quiet 0 with sends := [.sent 999] }

def flushed (c : ClientId) : List Event :=
  [.writerSwap [c], .writerStep .again, .writerStep (.sent 999), .writerStep .again]

def greetingRun : List Event :=
  request 0 [ascii "PING"] sendingEnv ++
    request 0 [ascii "REPLCONF", ascii "listening-port", ascii "6380"] sendingEnv ++
    request 0 [ascii "REPLCONF", ascii "capa", ascii "psync2"] sendingEnv ++
    request 0 [ascii "PSYNC", ascii "?", ascii "-1"] sendingEnv ++ flushed 0

def joinRun : List NetEvent := (Event.accept 5 :: greetingRun).map .master

def attachment : NetEvent :=
  .attach 0 sampleWorker [ascii "+PONG\r\n", ascii "+OK\r\n", ascii "+OK\r\n"]
    ((Server.init sampleId).fullResyncReply (Env.quiet 0).clock) []

theorem sampleWorker_resyncs : Resyncs [ascii "+PONG\r\n", ascii "+OK\r\n", ascii "+OK\r\n"]
    ((Server.init sampleId).fullResyncReply (Env.quiet 0).clock) [] sampleWorker where
  greeted := rfl
  full := by decide +kernel
  whole := by
    intro rdb leftover rest h
    have hread : (Handshake.readRdb []
        ((Server.init sampleId).fullResyncReply (Env.quiet 0).clock)).toOption.map (·.2.2) =
          some [] := by decide +kernel
    rw [h] at hread
    exact Option.some.inj hread
  connects := by
    refine ⟨6, _, (Env.quiet 0).clock, ascii "localhost", 6379, sampleWorker,
      unlinked_initWorker 6 (ascii "0") (ascii "localhost") 6379, ?_, .inl rfl⟩
    change Server.connectToMaster _ samplePeer _ _ _ = _
    refine Prod.ext ?_ ?_
    · rw [sampleWorker]
    · decide +kernel

theorem orderly_attachment : Orderly (run Net.step (Net.init sampleId) joinRun) attachment := by
  have hjoined : ((run Net.step (Net.init sampleId) joinRun).joined 0).map
        (fun j ↦ (j.greeting, j.offset)) = some (ascii "+PONG\r\n+OK\r\n+OK\r\n", 0) ∧
      (run Net.step (Net.init sampleId) joinRun).master.wire 0 =
        ascii "+PONG\r\n+OK\r\n+OK\r\n" ++
          (Server.init sampleId).fullResyncReply (Env.quiet 0).clock := by
    decide +kernel
  intro j hj _
  rw [hj, Option.map_some, Option.some.injEq, Prod.mk.injEq] at hjoined
  obtain ⟨⟨hgreeting, hoffset⟩, hwire⟩ := hjoined
  refine ⟨sampleWorker_resyncs, ?_, ?_, ?_⟩
  · rw [hgreeting]
    decide
  · rw [hwire]
    exact ⟨[], by simp [ascii]⟩
  · rw [hoffset]
    decide

theorem orderly_sample {es : List NetEvent}
    (h : Along Net.step Smooth
      (run Net.step (Net.init sampleId) (joinRun ++ [attachment])) es) :
    Along Net.step Orderly (Net.init sampleId) (joinRun ++ attachment :: es) := by
  have hjoin : Along Net.step Smooth (Net.init sampleId) joinRun := by
    decide +kernel
  rw [along_append]
  refine ⟨hjoin.mono _ (fun _ _ ↦ Smooth.orderly), orderly_attachment, ?_⟩
  rw [run_append] at h
  exact h.mono _ (fun _ _ ↦ Smooth.orderly)

end RedisLite.Net
