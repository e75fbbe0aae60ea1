import RedisLite.Replication

namespace RedisLite.Net

open Function Lib Lib.Run Lib.Tally Server
open scoped List

variable {net : Net} {replid : Bytes} {c : ClientId} {j : Joined} {client : Client} {node : Node}
  {e : NetEvent}

theorem log_initial (net : Net) (e : NetEvent) : net.log <+: (Net.step net e).log := by
  have hout := step_outcome net e
  generalize Net.step net e = net' at hout ⊢
  cases hout with
  | master e => exact List.prefix_append ..
  | up c k => exact List.prefix_append ..
  | skip | attach | node | down => exact List.prefix_rfl

theorem log_run (net : Net) (es : List NetEvent) : net.log <+: (run Net.step net es).log := by
  induction es generalizing net with
  | nil => exact List.prefix_rfl
  | cons e es ih => exact (log_initial net e).trans (ih _)

def reached (net : Net) (j : Joined) (node : Node) : List (List Bytes × ℤ) :=
  (net.log.drop j.start).take node.done.length

/-- `master_repl_offset_` just after the last write command that the replica has executed, or the
offset of its full resync. -/
def position (net : Net) (j : Joined) (node : Node) : ℤ :=
  (((net.reached j node).filter (fun entry ↦ Command.isWrite entry.1)).getLast?.map (·.2)).getD
    j.offset

/-- The write commands in the store of a replica: those of the snapshot, then those of the link. -/
def history (net : Net) (j : Joined) (node : Node) : List (List Bytes) :=
  ((net.log.take j.start).map (·.1) ++ node.done).filter Command.isWrite

@[mk_iff] structure Drained (net : Net) (c : ClientId) (node : Node) : Prop where
  received : node.received = net.master.wire c
  queue : ∀ queue, net.master.replQueues c = some queue → queue.draining = [] ∧ queue.pending = []
  read : ∀ link, node.server.clients node.up = some link → link.readBuf = []

instance (net : Net) (c : ClientId) (node : Node) : Decidable (net.Drained c node) :=
  haveI : Decidable (∀ queue, net.master.replQueues c = some queue →
      queue.draining = [] ∧ queue.pending = []) :=
    inferInstanceAs (Decidable (∀ queue ∈ net.master.replQueues c, _))
  haveI : Decidable (∀ link, node.server.clients node.up = some link → link.readBuf = []) :=
    inferInstanceAs (Decidable (∀ link ∈ node.server.clients node.up, _))
  decidable_of_iff' _ (drained_iff net c node)

/-- No `WAIT` asks for acknowledgements, and the first piece of the answer to a `PSYNC` has the
whole line with the offset. -/
def Undisturbed (net : Net) : NetEvent → Prop
  | .master e => Command.getack ∉ streamed net.master e
  | .attach c _ _ reply _ => ∀ j, net.joined c = some j →
    fullResyncHeader net.master.replInfo.masterReplid j.offset <+: reply
  | _ => True

instance (net : Net) : ∀ e, Decidable (Undisturbed net e)
  | .master e => inferInstanceAs (Decidable (Command.getack ∉ streamed net.master e))
  | .attach c _ _ reply _ => inferInstanceAs (Decidable (∀ j ∈ net.joined c,
    fullResyncHeader net.master.replInfo.masterReplid j.offset <+: reply))
  | .node .. | .down .. | .up .. => .isTrue trivial

theorem done_eq (h : Tracks (net.since j.start) j client node) :
    node.done = (net.reached j node).map (·.1) := by
  obtain ⟨_, _, -, ⟨_, -, hdown⟩, -⟩ := h.link
  rw [reached, List.map_take]
  exact List.prefix_iff_eq_take.mp hdown.words

theorem position_eq (h : Ledger replid net) (hf : Fed replid net c j client)
    (ht : Tracks (net.since j.start) j client node) :
    net.position j node = j.offset + total weight node.done := by
  have hsplit : net.log.take (j.start + node.done.length) =
      net.log.take j.start ++ net.reached j node := List.take_add
  have hstamped := h.stamped.take (j.start + node.done.length)
  rw [hsplit] at hstamped
  have hlast := hstamped.last
  have hwrites : (net.reached j node).filter (fun entry ↦ decide (0 < weight entry.1)) =
      (net.reached j node).filter (fun entry ↦ Command.isWrite entry.1) :=
    List.filter_congr (fun entry _ ↦ Bool.eq_iff_iff.mpr (by rw [decide_eq_true_iff, weight_pos]))
  rw [hwrites, List.map_append, total_append, ← done_eq ht, Nat.cast_add, ← hf.offset] at hlast
  exact hlast

theorem history_eq (ht : Tracks (net.since j.start) j client node) :
    net.history j node =
      ((net.log.take (j.start + node.done.length)).map (·.1)).filter Command.isWrite := by
  have hsplit : net.log.take (j.start + node.done.length) =
      net.log.take j.start ++ net.reached j node := List.take_add
  rw [history, hsplit, List.map_append, ← done_eq ht]

theorem total_weight {cmds : List (List Bytes)} (h : ∀ args ∈ cmds, Command.isWrite args = true) :
    total weight cmds = (Resp.framing.stream cmds).length := by
  induction cmds with
  | nil => rfl
  | cons args cmds ih =>
    have hcmds := ih (fun args' hmem ↦ h args' (List.mem_cons_of_mem _ hmem))
    have hargs : weight args = (Resp.encodeArray args).length :=
      if_pos (h args (List.mem_cons_self ..))
    rw [Framing.stream_cons, List.length_append, ← hcmds, ← List.singleton_append, total_append,
      total_singleton, hargs]
    rfl

structure Exact (net : Net) : Prop where
  writes : ∀ entry ∈ net.log, Command.isWrite entry.1 = true
  bases : ∀ c j node, net.joined c = some j → net.nodes c = some node → node.base = j.offset

namespace Exact

theorem init (replid : Bytes) : Exact (Net.init replid) where
  writes := fun _ h ↦ absurd h List.not_mem_nil
  bases := fun _ _ _ h ↦ by cases h

theorem setNode (h : Exact net) (hbase : ∀ j, net.joined c = some j → node.base = j.offset) :
    Exact (net.setNode c node) := by
  refine ⟨h.writes, fun d j node' hj hnode ↦ ?_⟩
  by_cases heq : d = c
  · subst heq
    simp only [Net.setNode, update_self, Option.some.injEq] at hnode
    rw [← hnode]
    exact hbase j hj
  · simp only [Net.setNode, update_of_ne heq] at hnode
    exact h.bases d j node' hj hnode

theorem serve {e : Event} (hs : Sound replid net) (h : Exact net) (hcalm : Calm net.master e)
    (hg : Greets net.master e) (hu : Command.getack ∉ streamed net.master e) :
    Exact (net.serve e) := by
  refine ⟨fun entry hmem ↦ ?_, fun c j node hj hnode ↦ ?_⟩
  · rcases List.mem_append.mp hmem with hmem | hmem
    · exact h.writes entry hmem
    · obtain ⟨args, hargs, rfl⟩ := List.mem_map.mp hmem
      refine (hs.entries (hs.tame hcalm) hargs).2.resolve_right ?_
      rintro rfl
      exact hu hargs
  · change net.nodes c = some node at hnode
    change net.join e c = some j at hj
    refine h.bases c j node ?_ hnode
    cases hjoining : joining net.master e with
    | none => rwa [join_of_none hjoining] at hj
    | some tk =>
      have hne : c ≠ tk.c := by
        rintro rfl
        rw [hs.nodes_joining hg hjoining] at hnode
        cases hnode
      rwa [join_of_some hjoining, update_of_ne hne] at hj

theorem step (hs : Sound replid net) (hid : IsReplid replid) (h : Exact net) (ho : Orderly net e)
    (hu : Undisturbed net e) : Exact (Net.step net e) := by
  have hout := step_outcome net e
  generalize Net.step net e = net' at hout ⊢
  cases hout with
  | skip => exact h
  | master e => exact h.serve hs ho.1 ho.2 hu
  | attach c server greeting reply recvs j hj hnone =>
    refine h.setNode (fun j' hj' ↦ ?_)
    obtain ⟨_, _, _, -, -, hentered⟩ := hs.entered hid hj' (ho j' hj' hnone)
    refine hentered.eq ?_
    rw [← hs.steady.id]
    exact hu j' hj'
  | node c e node hnode => exact h.setNode (fun j hj ↦ h.bases c j node hj hnode)
  | down c k node hnode => exact h.setNode (fun j hj ↦ h.bases c j node hj hnode)
  | up c k node hnode =>
    have hserve (data : Bytes) : Exact (net.serve (.recv c data)) :=
      h.serve hs trivial nofun List.not_mem_nil
    exact (hserve _).setNode (fun j hj ↦ h.bases c j node hj hnode)

theorem run {es : List NetEvent} (hid : IsReplid replid)
    (hrun : Along Net.step (fun net e ↦ Orderly net e ∧ Undisturbed net e) (Net.init replid) es) :
    Sound replid (Lib.Run.run Net.step (Net.init replid) es) ∧
      Exact (Lib.Run.run Net.step (Net.init replid) es) :=
  Sound.run_with hid (fun _ _ hs h ho hu ↦ h.step hs hid ho hu) (.init replid) hrun

theorem offset_eq (h : Exact net) (hj : net.joined c = some j) (hnode : net.nodes c = some node)
    (ht : Tracks (net.since j.start) j client node) :
    node.server.replInfo.masterReplOffset = j.offset + total weight node.done := by
  have hdone : ∀ args ∈ node.done, Command.isWrite args = true := by
    intro args hmem
    rw [done_eq ht] at hmem
    obtain ⟨entry, hentry, rfl⟩ := List.mem_map.mp hmem
    exact h.writes entry (List.mem_of_mem_drop (List.mem_of_mem_take hentry))
  rw [ht.offset, h.bases c j node hj hnode, total_weight hdone]

theorem drained_offset (hs : Sound replid net) (h : Exact net) (hj : net.joined c = some j)
    (hnode : net.nodes c = some node) (hf : Fed replid net c j client)
    (ht : Tracks (net.since j.start) j client node) (hd : net.Drained c node) :
    node.server.replInfo.masterReplOffset = net.master.masterReplOffset := by
  obtain ⟨link, before, hup, ⟨arrived, hreceived, hdown⟩, -⟩ := ht.link
  rw [hd.read link hup.connected] at hdown
  have hall : arrived = Resp.framing.stream (net.since j.start) := by
    obtain ⟨queue, hq, hbytes⟩ := hf.link.queue
    obtain ⟨hdraining, hpending⟩ := hd.queue queue hq.1
    rw [hdraining, hpending, List.append_nil, List.append_nil, ← hd.received, hreceived,
      List.append_cancel_left_eq] at hbytes
    exact hbytes
  have hdone := hdown.done_eq hall
    (fun args ↦ List.length_pos_iff.mp (Resp.encodeArray_length_pos args))
  have hlog : net.log.map (·.1) = (net.log.take j.start).map (·.1) ++ net.since j.start := by
    rw [since, ← List.map_append, List.take_append_drop]
  rw [h.offset_eq hj hnode ht, hdone, hs.offset, hlog, total_append, Nat.cast_add, hf.offset]

/-- The commands that a replica has executed are as many of the log as its offset stands for. -/
theorem offset_total (hs : Sound replid net) (h : Exact net) (hj : net.joined c = some j)
    (hnode : net.nodes c = some node) : ∃ k ≤ net.log.length,
      node.server.replInfo.masterReplOffset = total weight ((net.log.map (·.1)).take k) ∧
      net.history j node = (net.log.map (·.1)).take k := by
  obtain ⟨client, hf⟩ := hs.fed c j hj
  have ht := hs.tracks hj hnode hf.link.connected
  have hlen : node.done.length ≤ net.log.length - j.start := by
    obtain ⟨_, _, -, ⟨_, -, hdown⟩, -⟩ := ht.link
    simpa [since] using hdown.words.length_le
  have hstart := hf.start
  have hsplit : net.log.take (j.start + node.done.length) =
      net.log.take j.start ++ net.reached j node := List.take_add
  refine ⟨j.start + node.done.length, by omega, ?_, ?_⟩
  · rw [h.offset_eq hj hnode ht, hf.offset, ← List.map_take, hsplit, List.map_append, total_append,
      ← done_eq ht, Nat.cast_add]
  · rw [history_eq ht, ← List.map_take, List.filter_eq_self]
    intro args hmem
    obtain ⟨entry, hentry, rfl⟩ := List.mem_map.mp hmem
    exact h.writes entry (List.mem_of_mem_take hentry)

end Exact

/-- In every run on which nothing disturbs the count, the offset that a replica reports is its
position in the write stream of its master: the offset of the master just after the last write
command that the replica has executed. Once its link is drained it is the offset of the master,
and of two replicas the one with the larger offset has executed every write of the other. -/
theorem offset_is_position {es : List NetEvent} (hid : IsReplid replid)
    (hrun : Along Net.step (fun net e ↦ Orderly net e ∧ Undisturbed net e) (Net.init replid) es)
    (hj : (run Net.step (Net.init replid) es).joined c = some j)
    (hnode : (run Net.step (Net.init replid) es).nodes c = some node) :
    node.server.replInfo.masterReplOffset =
      (run Net.step (Net.init replid) es).position j node ∧
    node.done = ((run Net.step (Net.init replid) es).reached j node).map (·.1) ∧
    ((run Net.step (Net.init replid) es).Drained c node →
      node.server.replInfo.masterReplOffset =
        (run Net.step (Net.init replid) es).master.masterReplOffset) ∧
    ∀ c' j' node', (run Net.step (Net.init replid) es).joined c' = some j' →
      (run Net.step (Net.init replid) es).nodes c' = some node' →
      node'.server.replInfo.masterReplOffset ≤ node.server.replInfo.masterReplOffset →
      (run Net.step (Net.init replid) es).history j' node' <+:
        (run Net.step (Net.init replid) es).history j node := by
  obtain ⟨hs, hx⟩ := Exact.run hid hrun
  generalize run Net.step (Net.init replid) es = net at *
  obtain ⟨client, hf⟩ := hs.fed c j hj
  have ht := hs.tracks hj hnode hf.link.connected
  refine ⟨?_, done_eq ht, hx.drained_offset hs hj hnode hf ht, ?_⟩
  · rw [hx.offset_eq hj hnode ht, position_eq hs.toLedger hf ht]
  · intro c' j' node' hj' hnode' hle
    obtain ⟨k, hk, hoffset, hhistory⟩ := hx.offset_total hs hj hnode
    obtain ⟨k', hk', hoffset', hhistory'⟩ := hx.offset_total hs hj' hnode'
    rw [hhistory, hhistory']
    rw [hoffset, hoffset'] at hle
    refine prefix_of_total_le weight (fun args hmem ↦ ?_) (by simpa using hk')
      (by exact_mod_cast hle)
    obtain ⟨entry, hentry, rfl⟩ := List.mem_map.mp hmem
    exact weight_pos.mpr (hx.writes entry hentry)

def writeRun : List NetEvent :=
  (Event.accept 6 :: request 1 [ascii "SET", ascii "k", ascii "v"] sendingEnv ++
    flushed 0).map .master ++
    [.down 0 999, .node 0 (.process (.quiet 0)), .node 0 (.process (.quiet 0))]

theorem writeRun_position : ∃ j node,
    (run Net.step (Net.init sampleId) (joinRun ++ attachment :: writeRun)).nodes 0 = some node ∧
    node.server.replInfo.masterReplOffset = 27 ∧
    (run Net.step (Net.init sampleId) (joinRun ++ attachment :: writeRun)).position j node = 27 := by
  have heval : ((run Net.step (Net.init sampleId) (joinRun ++ attachment :: writeRun)).nodes 0).map
        (fun node ↦ node.server.replInfo.masterReplOffset) = some 27 ∧
      ((run Net.step (Net.init sampleId) (joinRun ++ attachment :: writeRun)).joined 0).isSome ∧
      Along Net.step Smooth
        (run Net.step (Net.init sampleId) (joinRun ++ [attachment])) writeRun ∧
      Along Net.step Undisturbed (Net.init sampleId) (joinRun ++ attachment :: writeRun) := by
    decide +kernel
  obtain ⟨hnode, hj, hsmooth, hundisturbed⟩ := heval
  obtain ⟨node, hnode, hoffset⟩ := Option.map_eq_some_iff.mp hnode
  obtain ⟨j, hj⟩ := Option.isSome_iff_exists.mp hj
  have hid : IsReplid sampleId := by decide +kernel
  obtain ⟨hposition, -⟩ := offset_is_position hid
    ((orderly_sample hsmooth).and _ hundisturbed) hj hnode
  exact ⟨j, node, hnode, hoffset, hposition.symm.trans hoffset⟩

def waitRun (d : ClientId) (count : String) : List NetEvent :=
  (request d [ascii "WAIT", ascii count, ascii "0"] sendingEnv ++ flushed 0).map .master ++
    [.down 0 999, .node 0 (.process (.quiet 0)), .node 0 (.process sendingEnv), .up 0 999,
      .master (.process sendingEnv)]

def refusedRun : List NetEvent :=
  (Event.accept 9 :: request 1 [ascii "SET", ascii "key", ascii "v"] sendingEnv).map (.node 0)

def offsets (es : List NetEvent) : Option (ℤ × ℤ × ℤ) :=
  let net := run Net.step (Net.init sampleId) es
  (net.joined 0).bind (fun j ↦ (net.nodes 0).map (fun node ↦
    (node.server.replInfo.masterReplOffset, net.position j node, net.master.masterReplOffset)))

def splitRun : List NetEvent :=
  let master := (Event.accept 5 :: .accept 6 ::
    request 1 [ascii "SET", ascii "k", ascii "v"] sendingEnv ++ greetingRun).map NetEvent.master
  let greeting := [ascii "+PONG\r\n", ascii "+OK\r\n", ascii "+OK\r\n"]
  let sent := (run Net.step (Net.init sampleId) master).master.wire 0
  let reply := (sent.drop greeting.flatten.length).take 20
  let recvs := [sent.drop (greeting.flatten.length + 20)]
  let worker := ((initWorker (ascii "0") (ascii "localhost") 6379).connectToMaster
    (Env.quiet 0).clock { socket := some 6, recvs := greeting ++ reply :: recvs }
    (ascii "localhost") 6379).1
  master ++ [.attach 0 worker greeting reply recvs]

/-- A `WAIT` that parks, a write command refused by the replica and a split answer to `PSYNC`: each
takes the offset of the replica away from its position. -/
theorem offset_off_position :
    (Along Net.step Orderly (Net.init sampleId) (joinRun ++ attachment :: (writeRun ++ waitRun 1 "2")) ∧
      (∃ node, (run Net.step (Net.init sampleId)
          (joinRun ++ attachment :: (writeRun ++ waitRun 1 "2"))).nodes 0 = some node ∧
        (run Net.step (Net.init sampleId)
          (joinRun ++ attachment :: (writeRun ++ waitRun 1 "2"))).Drained 0 node) ∧
      offsets (joinRun ++ attachment :: (writeRun ++ waitRun 1 "2")) = some (64, 27, 27)) ∧
    offsets (joinRun ++ attachment :: (writeRun ++ refusedRun)) = some (29, 27, 27) ∧
    offsets splitRun = some (0, 27, 27) := by
  have hwait : Along Net.step Smooth
        (run Net.step (Net.init sampleId) (joinRun ++ [attachment])) (writeRun ++ waitRun 1 "2") ∧
      ((run Net.step (Net.init sampleId)
        (joinRun ++ attachment :: (writeRun ++ waitRun 1 "2"))).nodes 0).any (fun node ↦
          decide ((run Net.step (Net.init sampleId)
            (joinRun ++ attachment :: (writeRun ++ waitRun 1 "2"))).Drained 0 node)) = true ∧
      offsets (joinRun ++ attachment :: (writeRun ++ waitRun 1 "2")) = some (64, 27, 27) := by
    decide +kernel
  obtain ⟨hsmooth, hdrained, hoffsets⟩ := hwait
  rw [Option.any_eq_true] at hdrained
  obtain ⟨node, hnode, hdrained⟩ := hdrained
  exact ⟨⟨orderly_sample hsmooth, ⟨node, hnode, of_decide_eq_true hdrained⟩, hoffsets⟩,
    by decide +kernel⟩

end RedisLite.Net
