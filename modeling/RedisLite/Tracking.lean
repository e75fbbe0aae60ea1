import RedisLite.Feed

namespace RedisLite.Net

open Function Lib Lib.Numerals Lib.Tally Server
open scoped List

variable {net : Net} {replid : Bytes} {c : ClientId} {j : Joined} {client client' : Client}
  {node : Node} {e : Event} {cmds : List (List Bytes)} {s : Server}

/-- The connection of a replica on the master: the reply to its `PSYNC`, then every command that
has been queued since. -/
structure Fed (replid : Bytes) (net : Net) (c : ClientId) (j : Joined) (client : Client) : Prop where
  start : j.start ≤ net.log.length
  offset : j.offset = total weight ((net.log.take j.start).map (·.1))
  reply : ∃ rdb, j.reply = fullResyncHeader replid j.offset ++ bulkPayload rdb
  link : Link net.master c client
    (j.greeting ++ j.reply ++ Resp.framing.stream (net.since j.start))

structure Ledger (replid : Bytes) (net : Net) : Prop where
  steady : Steady replid net.master
  stamped : Stamped weight net.log
  offset : net.master.masterReplOffset = total weight (net.log.map (·.1))
  sized : ∀ entry ∈ net.log, Resp.Sized entry.1
  words : ∀ entry ∈ net.log, Command.isWrite entry.1 = true ∨ entry.1 = Command.getack
  joined : ∀ c ∈ net.master.replicas, (net.joined c).isSome = true
  fed : ∀ c j, net.joined c = some j → ∃ client, Fed replid net c j client

/-- A replica at its true place in the stream `cmds` of its master: it has executed the commands
that it has read, counts their bytes, and has been asked for the acknowledgements it gives. -/
structure Tracks (cmds : List (List Bytes)) (j : Joined) (client : Client) (node : Node) : Prop where
  consistent : Consistent node.server
  nonneg : 0 ≤ node.base
  le : node.base ≤ j.offset
  offset : node.server.replInfo.masterReplOffset =
    node.base + (Resp.framing.stream node.done).length
  sized : ∀ args ∈ acks node.base node.done, Resp.Sized args
  link : ∃ link before, Uplink node.server node.up link
      (before ++ Resp.framing.stream (acks node.base node.done)) ∧
    (∃ arrived, node.received = j.greeting ++ j.reply ++ arrived ∧
      Resp.framing.Delivery cmds arrived node.done link.readBuf) ∧
    ∃ arrived heard, node.delivered = before ++ arrived ∧
      Resp.framing.Delivery (acks node.base node.done) arrived heard client.readBuf
  ack : client.ackOffset = 0 ∨ ∃ args ∈ acks node.base node.done, ackOf args = some client.ackOffset

def Attached (cmds : List (List Bytes)) (j : Joined) (client : Client) : Option Node → Prop
  | none => client.readBuf = [] ∧ client.ackOffset = 0
  | some node => Tracks cmds j client node

theorem since_serve (hk : k ≤ net.log.length) :
    (net.serve e).since k = net.since k ++ streamed net.master e := by
  simp only [since, serve, List.drop_append_of_le_length hk, List.map_append, List.map_map]
  congr 1
  exact List.map_id _

theorem join_of_none (h : joining net.master e = none) : net.join e = net.joined := by
  rw [join, h]

theorem join_of_some {tk : Taking} (h : joining net.master e = some tk) :
    net.join e = update net.joined tk.c (some (net.enrol tk)) := by
  rw [join, h]

theorem streamed_joining {tk : Taking} (hj : joining s e = some tk) : streamed s e = [] := by
  obtain ⟨htaking, hname⟩ := Option.filter_eq_some_iff.mp hj
  simp only [decide_eq_true_eq] at hname
  obtain ⟨rfl, hc⟩ := receives_of_taking htaking
  have hwrite : Command.isWrite tk.args = false := by
    rw [← isWriteCommand_commandName, hname.2]
    decide
  rw [streamed_process hc, if_pos hname.1]
  exact broadcast_of_name hwrite (fun h ↦ absurd (hname.2.symm.trans h) (by decide)) s

theorem sized_ack {n : ℤ} (h₀ : 0 ≤ n) (h : n < 2 ^ 63) :
    Resp.Sized [ascii "REPLCONF", ascii "ACK", toStr n] := by
  have hdigits : (toStr n).length ≤ 19 := by
    rw [toStr, if_neg (by omega)]
    exact decimal_length_le_of_lt (by decide) (by omega)
  refine ⟨by simp, fun word hword ↦ ?_⟩
  simp only [List.mem_cons, List.not_mem_nil, or_false] at hword
  rcases hword with rfl | rfl | rfl
  · decide
  · decide
  · omega

theorem data_recv (s : Server) (c : ClientId) (data : Bytes) :
    (Server.step s (.recv c data)).data = s.data := by
  have h := step_dataStep s (.recv c data)
  generalize (Server.step s (.recv c data)).data = d, written s (.recv c data) = cmds at h ⊢
  cases h
  rfl

namespace Tracks

theorem feed (h : Tracks cmds j client node) (more : List (List Bytes)) :
    Tracks (cmds ++ more) j client node := by
  obtain ⟨link, before, hup, ⟨arrived, hreceived, hdown⟩, hsent⟩ := h.link
  exact { h with link := ⟨link, before, hup, ⟨arrived, hreceived, hdown.send more⟩, hsent⟩ }

theorem next_ack (h : Tracks cmds j client node) {args : List Bytes} {n : ℕ}
    (hn : Resp.next client.readBuf = some (args, n)) : args ∈ acks node.base node.done := by
  obtain ⟨link, before, -, -, arrived, heard, -, hdelivery⟩ := h.link
  have hwords := (hdelivery.next h.sized hn).2.words
  exact hwords.subset (List.mem_append_right _ (List.mem_singleton_self args))

theorem served (h : Tracks cmds j client node) (hs : Served s c client e client')
    (hreads : e.reads c = false) : Tracks cmds j client' node := by
  cases hs with
  | same => exact h
  | recv data => simp [Event.reads] at hreads
  | command env args n hc left hleft =>
    have hmem := h.next_ack hc.next
    refine { h with link := ?_, ack := ?_ }
    · obtain ⟨link, before, hup, hdown, arrived, heard, hdelivered, hdelivery⟩ := h.link
      rcases hleft with rfl | rfl
      · exact ⟨link, before, hup, hdown, arrived, heard, hdelivered, hdelivery⟩
      · exact ⟨link, before, hup, hdown, arrived, heard ++ [args], hdelivered,
          (hdelivery.next h.sized hc.next).2⟩
    · dsimp only
      cases hack : ackOf args with
      | none => exact h.ack
      | some m => exact .inr ⟨args, hmem, hack⟩

theorem step (h : Tracks cmds j client node) (hsized : ∀ args ∈ cmds, Resp.Sized args)
    (hstay : Stays node.up node.server e) (hreads : e.reads node.up = false)
    (hbound : node.server.replInfo.masterReplOffset < 2 ^ 63) :
    Tracks cmds j client (node.advance e) := by
  obtain ⟨link, before, hup, ⟨arrived, hreceived, hdown⟩, arrived', heard, hdelivered, hsent⟩ :=
    h.link
  obtain ⟨link', n, acks', hheeds, hup', hoffset⟩ := hup.step h.consistent hstay hreads
  have hcons := h.consistent.step e
  generalize hread : link'.readBuf = rest at hheeds
  cases hheeds with
  | other _ hnone =>
    rw [Node.advance, hnone, List.append_nil]
    rw [Framing.stream_nil, List.append_nil] at hup'
    refine { h with consistent := hcons, offset := ?_, link := ?_ }
    · rw [hoffset, Nat.cast_zero, add_zero]
      exact h.offset
    · exact ⟨link', before, hup', ⟨arrived, hreceived, hread ▸ hdown⟩, arrived', heard, hdelivered,
        hsent⟩
  | command env args _ hc =>
    obtain ⟨hn, hnext⟩ := hdown.next hsized hc.next
    have hexec : executed node.up node.server (.process env) = [args] := by
      rw [executed, hc.taking_eq env]
      exact if_pos rfl
    have hacks : acks node.base (node.done ++ [args]) = acks node.base node.done ++
        ackFor node.server.replInfo.masterReplOffset args := by
      rw [acks_append, ← h.offset, acks, acks, List.append_nil]
    rw [Node.advance, hexec]
    refine ⟨hcons, h.nonneg, h.le, ?_, ?_, ?_, ?_⟩
    · rw [hoffset, h.offset, Framing.stream_append, List.length_append, hn, Nat.cast_add, add_assoc]
      simp
    · intro words hmem
      dsimp only at hmem
      rw [hacks] at hmem
      rcases List.mem_append.mp hmem with hmem | hmem
      · exact h.sized words hmem
      · unfold ackFor at hmem
        split at hmem
        · rw [List.mem_singleton.mp hmem]
          refine sized_ack ?_ hbound
          rw [h.offset]
          exact add_nonneg h.nonneg (Int.natCast_nonneg _)
        · cases hmem
    · refine ⟨link', before, ?_, ⟨arrived, hreceived, hread ▸ hnext⟩, arrived', heard, hdelivered, ?_⟩
      · rw [hacks, Framing.stream_append, ← List.append_assoc]
        exact hup'
      · rw [hacks]
        exact hsent.send _
    · rcases h.ack with hack | ⟨words, hmem, hack⟩
      · exact .inl hack
      · exact .inr ⟨words, by rw [hacks]; exact List.mem_append_left _ hmem, hack⟩

theorem down (h : Tracks cmds j client node) {wire : Bytes}
    (hwire : wire <+: j.greeting ++ j.reply ++ Resp.framing.stream cmds) (k : ℕ)
    (hne : pending wire node.received k ≠ []) (hpc : node.server.pc = .idle) :
    Tracks cmds j client (node.receive (pending wire node.received k)) := by
  obtain ⟨link, before, hup, ⟨arrived, hreceived, hdown⟩, hsent⟩ := h.link
  have hinitial : node.received ++ pending wire node.received k <+: _ :=
    Framing.prefix_take_next (hreceived ▸ (List.prefix_append_right_inj _).mpr hdown.bytes) hwire k
  generalize pending wire node.received k = data at hne hinitial ⊢
  have hinfo : (Server.step node.server (.recv node.up data)).replInfo = node.server.replInfo :=
    congrArg Data.replInfo (data_recv node.server node.up data)
  rw [Node.receive]
  refine { h with
    consistent := h.consistent.step _
    offset := by rw [hinfo]; exact h.offset
    link := ?_ }
  refine ⟨_, before, hup.recv hpc hne, ⟨arrived ++ data, ?_, hdown.arrive ?_⟩, hsent⟩
  · rw [hreceived, List.append_assoc]
  · rw [hreceived, List.append_assoc] at hinitial
    exact (List.prefix_append_right_inj _).mp hinitial

theorem up (h : Tracks cmds j client node) (k : ℕ) : Tracks cmds j
    { client with
      readBuf := client.readBuf ++ pending (node.server.wire node.up) node.delivered k }
    (node.deliver (pending (node.server.wire node.up) node.delivered k)) := by
  obtain ⟨link, before, hup, hdown, arrived, heard, hdelivered, hsent⟩ := h.link
  have hwire : node.server.wire node.up <+:
      before ++ Resp.framing.stream (acks node.base node.done) := ⟨_, hup.said⟩
  have hinitial : node.delivered ++ pending (node.server.wire node.up) node.delivered k <+: _ :=
    Framing.prefix_take_next (hdelivered ▸ (List.prefix_append_right_inj _).mpr hsent.bytes) hwire k
  generalize pending (node.server.wire node.up) node.delivered k = data at hinitial ⊢
  rw [Node.deliver]
  refine { h with link := ⟨link, before, hup, hdown, arrived ++ data, heard, ?_, hsent.arrive ?_⟩ }
  · rw [hdelivered, List.append_assoc]
  · rw [hdelivered, List.append_assoc] at hinitial
    exact (List.prefix_append_right_inj _).mp hinitial

end Tracks

namespace Ledger

theorem init (replid : Bytes) : Ledger replid (Net.init replid) where
  steady := .init replid
  stamped := .nil
  offset := rfl
  sized := nofun
  words := nofun
  joined := nofun
  fed := nofun

theorem setNode (h : Ledger replid net) (c : ClientId) (node : Node) :
    Ledger replid (net.setNode c node) :=
  ⟨h.steady, h.stamped, h.offset, h.sized, h.words, h.joined, fun c j hj ↦ by
    obtain ⟨client, hfed⟩ := h.fed c j hj
    exact ⟨client, hfed.start, hfed.offset, hfed.reply, hfed.link⟩⟩

theorem fed_serve (h : Ledger replid net) (hcalm : Calm net.master e)
    (hf : Fed replid net c j client) :
    ∃ client', Fed replid (net.serve e) c j client' ∧ Served net.master c client e client' := by
  obtain ⟨client', hl, hserved⟩ := hf.link.step h.steady.serving hcalm
  refine ⟨client', ⟨?_, ?_, hf.reply, ?_⟩, hserved⟩
  · rw [serve, List.length_append]
    exact hf.start.trans (Nat.le_add_right ..)
  · rw [serve, List.take_append_of_le_length hf.start]
    exact hf.offset
  · rw [since_serve hf.start, Framing.stream_append, ← List.append_assoc]
    exact hl

theorem fed_join (h : Ledger replid net) (hg : Greets net.master e) {tk : Taking}
    (hj : joining net.master e = some tk) :
    Fed replid (net.serve e) tk.c (net.enrol tk) { fd := tk.client.fd, type := .replica } := by
  refine ⟨?_, ?_, ⟨Rdb.serialize tk.env.clock net.master.store, ?_⟩, ?_⟩
  · rw [Net.serve, List.length_append]
    exact Nat.le_add_right ..
  · rw [Net.serve, enrol, List.take_left]
    exact h.offset
  · rw [enrol, fullResyncReply, h.steady.id]
  · rw [enrol, since_serve (le_refl _), streamed_joining hj, List.append_nil]
    simp only [since, List.drop_length, List.map_nil, Framing.stream_nil, List.append_nil]
    exact (link_joining hj hg).2.2

theorem stamped_serve (h : Ledger replid net) (ht : Tame net.master e) :
    Stamped weight (net.serve e).log := by
  have hoffset := offset_streamed h.steady.serving ht
  rcases streamed_cases net.master e with hs | ⟨args, hs, -⟩
  · simp only [Net.serve, hs, List.map_nil, List.append_nil]
    exact h.stamped
  · rw [hs, total_singleton, h.offset, ← Nat.cast_add] at hoffset
    simp only [Net.serve, hs, List.map_cons, List.map_nil, hoffset]
    exact .snoc h.stamped args

theorem entries (h : Ledger replid net) (ht : Tame net.master e) {args : List Bytes}
    (hmem : args ∈ streamed net.master e) :
    Resp.Sized args ∧ (Command.isWrite args = true ∨ args = Command.getack) := by
  have hbounded := (masterStep h.steady.serving ht).bounded h.steady.serving.role h.steady.bounded
  rcases mem_streamed hmem with hwritten | rfl
  · refine ⟨hbounded.2 args hwritten, .inl ?_⟩
    rw [← filter_streamed] at hwritten
    exact (List.mem_filter.mp hwritten).2
  · exact ⟨by decide, .inr rfl⟩

theorem serve (h : Ledger replid net) (ht : Tame net.master e) (hg : Greets net.master e) :
    Ledger replid (net.serve e) := by
  have hlog {entry : List Bytes × ℤ} (hmem : entry ∈ (net.serve e).log) :
      entry ∈ net.log ∨ entry.1 ∈ streamed net.master e := by
    rcases List.mem_append.mp hmem with hmem | hmem
    · exact .inl hmem
    · obtain ⟨args, hargs, rfl⟩ := List.mem_map.mp hmem
      exact .inr hargs
  refine ⟨h.steady.step ht, h.stamped_serve ht, ?_, ?_, ?_, ?_, ?_⟩
  · have hoffset := offset_streamed h.steady.serving ht
    have hmap : (net.serve e).log.map (·.1) = net.log.map (·.1) ++ streamed net.master e := by
      simp [Net.serve, Function.comp_def]
    rw [hmap, total_append, Nat.cast_add, ← h.offset]
    exact hoffset
  · exact fun entry hmem ↦ (hlog hmem).elim (h.sized entry) (fun hs ↦ (h.entries ht hs).1)
  · exact fun entry hmem ↦ (hlog hmem).elim (h.words entry) (fun hs ↦ (h.entries ht hs).2)
  · intro c hc
    change (net.join e c).isSome = true
    cases hj : joining net.master e with
    | none =>
      rw [join_of_none hj]
      rcases (Counts.step h.steady.serving ht.calm).replicas c hc with hold | hnew
      · exact h.joined c hold
      · rw [hj] at hnew
        cases hnew
    | some tk =>
      rw [join_of_some hj]
      by_cases heq : c = tk.c
      · simp [heq]
      · rw [update_of_ne heq]
        rcases (Counts.step h.steady.serving ht.calm).replicas c hc with hold | hnew
        · exact h.joined c hold
        · rw [hj] at hnew
          exact absurd (List.mem_singleton.mp hnew) heq
  · intro c j hserved
    change net.join e c = some j at hserved
    have hold (hjoined : net.joined c = some j) : ∃ client, Fed replid (net.serve e) c j client := by
      obtain ⟨client, hfed⟩ := h.fed c j hjoined
      obtain ⟨client', hfed', -⟩ := h.fed_serve ht.calm hfed
      exact ⟨client', hfed'⟩
    cases hj : joining net.master e with
    | none =>
      rw [join_of_none hj] at hserved
      exact hold hserved
    | some tk =>
      rw [join_of_some hj] at hserved
      by_cases heq : c = tk.c
      · subst heq
        rw [update_self] at hserved
        cases hserved
        exact ⟨_, h.fed_join hg hj⟩
      · rw [update_of_ne heq] at hserved
        exact hold hserved

end Ledger

namespace Attached

variable {o : Option Node}

theorem feed (h : Attached cmds j client o) (more : List (List Bytes)) :
    Attached (cmds ++ more) j client o := by
  cases o with
  | none => exact h
  | some node => exact Tracks.feed h more

theorem served (h : Attached cmds j client o) (hs : Served s c client e client')
    (hreads : e.reads c = false) : Attached cmds j client' o := by
  cases o with
  | some node => exact Tracks.served h hs hreads
  | none =>
    cases hs with
    | same => exact h
    | recv data => simp [Event.reads] at hreads
    | command env args n hc =>
      have hnext := hc.next
      rw [h.1] at hnext
      cases hnext

end Attached

end RedisLite.Net
