import RedisLite.Counting
import RedisLite.Position

namespace RedisLite.Net

open Function Lib Lib.Run Lib.Tally Server
open scoped List

variable {net : Net} {replid : Bytes} {c : ClientId} {j : Joined} {client : Client} {node : Node}
  {e : NetEvent} {target : ℤ} {cmds : List (List Bytes)}

def writesBefore (net : Net) (target : ℤ) : List (List Bytes) :=
  (net.log.filter (fun entry ↦ Command.isWrite entry.1 && decide (entry.2 ≤ target))).map (·.1)

def hasExecuted (net : Net) (target : ℤ) (c : ClientId) : Bool :=
  match net.joined c, net.nodes c with
  | some j, some node => (net.writesBefore target).isPrefixOf (net.history j node)
  | _, _ => false

/-- No write command goes out to a replica that has been asked for acknowledgements twice. -/
def AskedOnce (net : Net) : NetEvent → Prop
  | .master e => (∃ args ∈ streamed net.master e, Command.isWrite args = true) →
    ∀ c ∈ net.master.replicas, ∀ j ∈ net.joined c, (net.since j.start).count Command.getack ≤ 1
  | _ => True

instance (net : Net) : ∀ e, Decidable (AskedOnce net e)
  | .master e => inferInstanceAs (Decidable ((∃ args ∈ streamed net.master e, _) → _))
  | .attach .. | .node .. | .down .. | .up .. => .isTrue trivial

/-- Behind a `REPLCONF GETACK` that is not the first one no write command follows. -/
def Settled (cmds : List (List Bytes)) : Prop :=
  ∀ before after, cmds = before ++ Command.getack :: after →
    Command.getack ∉ before ∨ ∀ args ∈ after, Command.isWrite args = false

theorem Settled.of_count (h : cmds.count Command.getack ≤ 1) : Settled cmds := by
  rintro before after rfl
  rw [List.count_append, List.count_cons_self] at h
  exact .inl (List.count_eq_zero.mp (by omega))

theorem Settled.getack (h : Settled cmds) : Settled (cmds ++ [Command.getack]) := by
  intro before after heq
  rcases List.eq_nil_or_concat after with rfl | ⟨after, last, rfl⟩
  · exact .inr nofun
  · rw [List.concat_eq_append, ← List.cons_append, ← List.append_assoc] at heq
    obtain ⟨hinit, hlast⟩ := List.append_inj' heq rfl
    refine (h before after hinit).imp_right (fun hafter args hmem ↦ ?_)
    rw [List.concat_eq_append, ← hlast] at hmem
    rcases List.mem_append.mp hmem with hmem | hmem
    · exact hafter args hmem
    · rw [List.mem_singleton.mp hmem]
      decide

theorem Settled.write {args : List Bytes} (hw : Command.isWrite args = true)
    (h : cmds.count Command.getack ≤ 1) : Settled (cmds ++ [args]) := by
  refine .of_count ?_
  have hne : args ≠ Command.getack := by
    rintro rfl
    exact absurd hw (by decide)
  rwa [List.count_append, List.count_singleton, if_neg (by simpa using hne), Nat.add_zero]

def Questioned (net : Net) : Prop := ∀ c j, net.joined c = some j → Settled (net.since j.start)

namespace Questioned

theorem init (replid : Bytes) : Questioned (Net.init replid) := fun _ _ h ↦ by cases h

theorem serve {e : Event} (hs : Sound replid net) (h : Questioned net)
    (ha : AskedOnce net (.master e)) : Questioned (net.serve e) := by
  have hkept (c : ClientId) (j : Joined) (hj : net.joined c = some j) :
      Settled ((net.serve e).since j.start) := by
    obtain ⟨client, hfed⟩ := hs.fed c j hj
    have hc : c ∈ net.master.replicas := (hs.steady.serving.consistent.replica_iff c).mpr
      ⟨client, hfed.link.connected, hfed.link.type⟩
    rw [since_serve hfed.start]
    rcases streamed_cases net.master e with hnone | ⟨args, hone, hw | rfl⟩
    · rw [hnone, List.append_nil]
      exact h c j hj
    · have hwrites : ∃ args ∈ streamed net.master e, Command.isWrite args = true :=
        ⟨args, by rw [hone]; exact List.mem_singleton_self args, hw⟩
      rw [hone]
      exact .write hw (ha hwrites c hc j hj)
    · rw [hone]
      exact (h c j hj).getack
  intro c j hj
  change net.join e c = some j at hj
  cases hjoining : joining net.master e with
  | none => exact hkept c j (by rwa [join_of_none hjoining] at hj)
  | some tk =>
    rw [join_of_some hjoining] at hj
    by_cases heq : c = tk.c
    · -- a replica that joins has been asked for nothing yet
      subst heq
      rw [update_self] at hj
      cases hj
      refine .of_count ?_
      rw [enrol, since_serve (le_refl _), streamed_joining hjoining, since, List.drop_length]
      exact Nat.zero_le 1
    · exact hkept c j (by rwa [update_of_ne heq] at hj)

theorem step (hs : Sound replid net) (h : Questioned net) (ha : AskedOnce net e) :
    Questioned (Net.step net e) := by
  have hout := step_outcome net e
  generalize Net.step net e = net' at hout ⊢
  cases hout with
  | skip => exact h
  | master e => exact h.serve hs ha
  | up c k node hnode =>
    exact serve (e := .recv c (pending (node.server.wire node.up) node.delivered (k + 1))) hs h
      (fun hw ↦ absurd hw (by rintro ⟨_, hmem, -⟩; cases hmem))
  | attach | node | down => exact h

theorem run {es : List NetEvent} (hid : IsReplid replid)
    (hrun : Along Net.step (fun net e ↦ Orderly net e ∧ AskedOnce net e) (Net.init replid) es) :
    Sound replid (Lib.Run.run Net.step (Net.init replid) es) ∧
      Questioned (Lib.Run.run Net.step (Net.init replid) es) :=
  Sound.run_with hid (fun _ _ hs h _ ha ↦ h.step hs ha) (.init replid) hrun

end Questioned

theorem isWrite_of_isGetack {args : List Bytes} (h : isGetack args = true) :
    Command.isWrite args = false := by
  rcases args with _ | ⟨name, _ | ⟨sub, rest⟩⟩
  case cons.cons =>
    simp only [isGetack, Bool.and_eq_true, beq_iff_eq] at h
    rw [Command.isWrite, ← Command.isWriteCommand_toUpper, h.1]
    decide
  all_goals cases h

/-- The acknowledgement of a replica is its offset at one of the `REPLCONF GETACK`s that it has
executed. -/
theorem Tracks.asked (h : Tracks cmds j client node) (hpos : 0 < client.ackOffset)
    (hwords : ∀ args ∈ cmds, Command.isWrite args = true ∨ args = Command.getack) :
    ∃ before after, node.done = before ++ Command.getack :: after ∧
      client.ackOffset = node.base + (Resp.framing.stream before).length := by
  obtain ⟨_, _, -, ⟨_, -, hdown⟩, -⟩ := h.link
  rcases h.ack with hzero | ⟨args, hmem, hack⟩
  · exact absurd hzero hpos.ne'
  · obtain ⟨before, getack, after, hdone, hg, rfl⟩ := mem_acks hmem
    have hgetack : getack = Command.getack := by
      refine (hwords getack (hdown.words.subset ?_)).resolve_left ?_
      · rw [hdone]
        exact List.mem_append_right _ (List.mem_cons_self ..)
      · rw [isWrite_of_isGetack hg]
        decide
    have hnonneg := h.nonneg
    refine ⟨before, after, hgetack ▸ hdone, stoll_toStr (by omega) ?_⟩
    unfold ackOf at hack
    dsimp only at hack
    rw [if_pos (by decide)] at hack
    split at hack
    · cases hack
    · next hn =>
      cases hack
      exact hn

theorem decide_weight (entry : List Bytes × ℤ) :
    decide (0 < weight entry.1) = Command.isWrite entry.1 :=
  Bool.eq_iff_iff.mpr (by rw [decide_eq_true_iff, weight_pos])

theorem filter_isWrite_map (log : List (List Bytes × ℤ)) :
    (log.map (·.1)).filter Command.isWrite =
      (log.filter (fun entry ↦ decide (0 < weight entry.1))).map (·.1) := by
  simp only [decide_weight, List.filter_map]
  rfl

theorem writesBefore_eq (net : Net) (target : ℤ) : net.writesBefore target =
    (net.log.filter (fun entry ↦ decide (0 < weight entry.1) && decide (entry.2 ≤ target))).map
      (·.1) := by
  simp only [writesBefore, decide_weight]

/-- Where the `GETACK` that a replica has acknowledged is the first one, its offset counts writes
alone; where it is a later one, there is no write command behind it. -/
theorem writesBefore_initial (h : Ledger replid net) (hf : Fed replid net c j client)
    (ht : Tracks (net.since j.start) j client node) (hsettled : Settled (net.since j.start))
    (hwords : ∀ args ∈ net.since j.start, Command.isWrite args = true ∨ args = Command.getack)
    {before after : List (List Bytes)} (hdone : node.done = before ++ Command.getack :: after)
    (htarget : target ≤ node.base + (Resp.framing.stream before).length) :
    net.writesBefore target <+: net.history j node := by
  obtain ⟨_, _, -, ⟨_, -, hdown⟩, -⟩ := ht.link
  obtain ⟨rest, hrest⟩ := hdown.words
  have hsince : net.since j.start = before ++ Command.getack :: (after ++ rest) := by
    rw [← hrest, hdone, List.append_assoc, List.cons_append]
  have hlog : net.log.map (·.1) =
      (net.log.take j.start).map (·.1) ++ before ++ Command.getack :: (after ++ rest) := by
    rw [List.append_assoc, ← hsince, since, ← List.map_append, List.take_append_drop]
  have hpart : (net.log.take (j.start + before.length)).map (·.1) =
      (net.log.take j.start).map (·.1) ++ before := by
    have hlen : ((net.log.take j.start).map (·.1) ++ before).length = j.start + before.length := by
      have hstart := hf.start
      simp only [List.length_append, List.length_map, List.length_take]
      omega
    rw [List.map_take, hlog, ← hlen, List.take_left]
  have hhistory : (((net.log.take j.start).map (·.1) ++ before)).filter Command.isWrite <+:
      net.history j node := by
    rw [history, hdone, ← List.append_assoc, List.filter_append _ (_ :: _)]
    exact List.prefix_append ..
  refine List.IsPrefix.trans ?_ hhistory
  rw [writesBefore_eq, ← hpart, filter_isWrite_map]
  rcases hsettled before (after ++ rest) hsince with hfirst | hlast
  · -- the first one: every command before it is a write command
    have hwrites : ∀ args ∈ before, Command.isWrite args = true := by
      intro args hmem
      refine (hwords args ?_).resolve_right (fun heq ↦ hfirst (heq ▸ hmem))
      rw [hsince]
      exact List.mem_append_left _ hmem
    have hbound : target ≤ total weight ((net.log.take (j.start + before.length)).map (·.1)) := by
      have hle := ht.le
      rw [hpart, total_append, Nat.cast_add, ← hf.offset, total_weight hwrites]
      omega
    rw [h.stamped.filter_take hbound]
    exact ((h.stamped.take _).filter_initial target).map _
  · -- a later one: the replica has executed every write command of the log
    have hall : ((net.log.filter (fun entry ↦ decide (0 < weight entry.1))).map (·.1)) =
        ((net.log.take (j.start + before.length)).filter
          (fun entry ↦ decide (0 < weight entry.1))).map (·.1) := by
      have hnone : (Command.getack :: (after ++ rest)).filter Command.isWrite = [] := by
        rw [List.filter_eq_nil_iff]
        intro args hmem
        rcases List.mem_cons.mp hmem with rfl | hmem
        · decide
        · rw [hlast args hmem]
          decide
      rw [← filter_isWrite_map, ← filter_isWrite_map, hpart, hlog, List.filter_append, hnone,
        List.append_nil]
    rw [← hall]
    exact (h.stamped.filter_initial target).map _

/-- A replica that has acknowledged an offset has executed every write command before it. -/
theorem Sound.executed (h : Sound replid net) (hq : Questioned net) (hc : c ∈ net.master.replicas)
    (hclient : net.master.clients c = some client) (hpos : 0 < target)
    (hack : target ≤ client.ackOffset) : net.hasExecuted target c = true := by
  obtain ⟨j, hj⟩ := Option.isSome_iff_exists.mp (h.joined c hc)
  obtain ⟨client', hf⟩ := h.fed c j hj
  cases hf.link.connected.symm.trans hclient
  have hattached := h.attached c j client hj hclient
  cases hnode : net.nodes c with
  | none =>
    rw [hnode] at hattached
    have hzero := hattached.2
    omega
  | some node =>
    have ht := h.tracks hj hnode hclient
    have hwords : ∀ args ∈ net.since j.start, Command.isWrite args = true ∨ args = Command.getack := by
      intro args hmem
      obtain ⟨entry, hentry, rfl⟩ := List.mem_map.mp hmem
      exact h.words entry (List.mem_of_mem_drop hentry)
    obtain ⟨before, after, hdone, hoffset⟩ := ht.asked (by omega) hwords
    have hinitial := writesBefore_initial h.toLedger hf ht (hq c j hj) hwords hdone (hoffset ▸ hack)
    simp only [hasExecuted, hj, hnode, List.isPrefixOf_iff_prefix]
    exact hinitial

/-- The replies to `WAIT`s that a step of the network adds. -/
theorem count_le_caughtUp (h : Sound replid net) (ho : Orderly net e) {reply : WaitReply}
    (hmem : reply ∈ (Net.step net e).master.waitReplies.drop net.master.waitReplies.length)
    (hpos : 0 < reply.target) :
    reply.count ≤ (Net.step net e).master.countCaughtUpReplicas reply.target := by
  have hserve {e : Event} (hcalm : Calm net.master e)
      (hmem : reply ∈ (net.serve e).master.waitReplies.drop net.master.waitReplies.length) :
      reply.count ≤ (net.serve e).master.countCaughtUpReplicas reply.target := by
    obtain ⟨new, hnew, hcount⟩ := (Counts.step h.steady.serving hcalm).replies
    change reply ∈ (Server.step net.master e).waitReplies.drop _ at hmem
    rw [hnew, List.drop_left] at hmem
    exact hcount reply hmem hpos
  have hout := step_outcome net e
  generalize Net.step net e = net' at hout hmem ⊢
  cases hout with
  | master e => exact hserve ho.1 hmem
  | up c k => exact hserve trivial hmem
  | skip | attach | node | down => simp [Net.setNode] at hmem

/-- In every run in which no write command goes out to a replica that has been asked twice, an
integer that a client gets for a `WAIT` is at most the number of connected replicas that have
executed every write command before its target. -/
theorem wait_sound {es : List NetEvent} (hid : IsReplid replid)
    (hrun : Along Net.step (fun net e ↦ Orderly net e ∧ AskedOnce net e) (Net.init replid)
      (es ++ [e])) {reply : WaitReply}
    (hreply : reply ∈ (run Net.step (Net.init replid) (es ++ [e])).master.waitReplies.drop
      (run Net.step (Net.init replid) es).master.waitReplies.length) (hpos : 0 < reply.target) :
    reply.count ≤ (run Net.step (Net.init replid) (es ++ [e])).master.replicas.countP
      ((run Net.step (Net.init replid) (es ++ [e])).hasExecuted reply.target) := by
  obtain ⟨hs', hq'⟩ := Questioned.run hid hrun
  obtain ⟨hbefore, hlast, -⟩ := (along_append _).mp hrun
  have hs := (Questioned.run hid hbefore).1
  rw [run_append, run_cons, run_nil] at hs' hq' hreply ⊢
  generalize run Net.step (Net.init replid) es = net at *
  refine (count_le_caughtUp hs hlast.1 hreply hpos).trans (List.countP_mono_left (fun c hc hany ↦ ?_))
  rw [Option.any_eq_true] at hany
  obtain ⟨client, hclient, hack⟩ := hany
  exact hs'.executed hq' hc hclient hpos (of_decide_eq_true hack)

theorem waitRun_sound :
    ⟨1, 1, 27⟩ ∈ (run Net.step (Net.init sampleId)
      (joinRun ++ attachment :: (writeRun ++ waitRun 1 "1"))).master.waitReplies ∧
    1 ≤ (run Net.step (Net.init sampleId)
      (joinRun ++ attachment :: (writeRun ++ waitRun 1 "1"))).master.replicas.countP
        ((run Net.step (Net.init sampleId)
          (joinRun ++ attachment :: (writeRun ++ waitRun 1 "1"))).hasExecuted 27) := by
  have hsplit : joinRun ++ attachment :: (writeRun ++ waitRun 1 "1") =
      (joinRun ++ attachment :: (writeRun ++ (waitRun 1 "1").dropLast)) ++
        [.master (.process sendingEnv)] := by
    simp [waitRun]
  have heval : Along Net.step Smooth
        (run Net.step (Net.init sampleId) (joinRun ++ [attachment]))
        (writeRun ++ waitRun 1 "1") ∧
      Along Net.step AskedOnce (Net.init sampleId)
        (joinRun ++ attachment :: (writeRun ++ waitRun 1 "1")) ∧
      (run Net.step (Net.init sampleId)
        (joinRun ++ attachment :: (writeRun ++ (waitRun 1 "1").dropLast))).master.waitReplies = [] ∧
      (run Net.step (Net.init sampleId)
        (joinRun ++ attachment :: (writeRun ++ waitRun 1 "1"))).master.waitReplies =
          [⟨1, 1, 27⟩] := by
    decide +kernel
  obtain ⟨hsmooth, hasked, hnone, hone⟩ := heval
  have hrun := (orderly_sample hsmooth).and _ hasked
  have hid : IsReplid sampleId := by decide +kernel
  have hmem : (⟨1, 1, 27⟩ : WaitReply) ∈ (run Net.step (Net.init sampleId)
      (joinRun ++ attachment :: (writeRun ++ waitRun 1 "1"))).master.waitReplies :=
    hone ▸ List.mem_singleton_self _
  refine ⟨hmem, ?_⟩
  rw [hsplit] at hrun hmem ⊢
  have hnew : (⟨1, 1, 27⟩ : WaitReply) ∈ (run Net.step (Net.init sampleId)
      ((joinRun ++ attachment :: (writeRun ++ (waitRun 1 "1").dropLast)) ++
        [.master (.process sendingEnv)])).master.waitReplies.drop (run Net.step (Net.init sampleId)
      (joinRun ++ attachment :: (writeRun ++ (waitRun 1 "1").dropLast))).master.waitReplies.length := by
    rw [hnone]
    exact hmem
  exact wait_sound hid hrun hnew (by decide)

def staleRun : List NetEvent :=
  waitRun 1 "2" ++ [.master (.process sendingEnv), .master (.accept 7)] ++ waitRun 2 "2" ++
    (.process sendingEnv :: Event.accept 8 ::
      request 3 [ascii "SET", ascii "k", ascii "w"] sendingEnv ++
      request 3 [ascii "WAIT", ascii "1", ascii "0"] sendingEnv).map .master

/-- The acknowledgement of the second `WAIT` counts the `REPLCONF GETACK` of the first one, and the
third is answered by it at once, though the replica has not executed the write before its target. -/
theorem wait_counts_stale_ack :
    Along Net.step Orderly (Net.init sampleId) (joinRun ++ attachment :: (writeRun ++ staleRun)) ∧
    (run Net.step (Net.init sampleId)
      (joinRun ++ attachment :: (writeRun ++ staleRun))).master.waitReplies = [⟨3, 1, 54⟩] ∧
    (run Net.step (Net.init sampleId)
      (joinRun ++ attachment :: (writeRun ++ staleRun))).master.outbound 3 =
        ascii "+OK\r\n:1\r\n" ∧
    (run Net.step (Net.init sampleId)
      (joinRun ++ attachment :: (writeRun ++ staleRun))).master.replicas.countP
        ((run Net.step (Net.init sampleId)
          (joinRun ++ attachment :: (writeRun ++ staleRun))).hasExecuted 54) = 0 := by
  have heval : Along Net.step Smooth
        (run Net.step (Net.init sampleId) (joinRun ++ [attachment])) (writeRun ++ staleRun) ∧
      (run Net.step (Net.init sampleId)
        (joinRun ++ attachment :: (writeRun ++ staleRun))).master.waitReplies = [⟨3, 1, 54⟩] ∧
      (run Net.step (Net.init sampleId)
        (joinRun ++ attachment :: (writeRun ++ staleRun))).master.outbound 3 =
          ascii "+OK\r\n:1\r\n" ∧
      (run Net.step (Net.init sampleId)
        (joinRun ++ attachment :: (writeRun ++ staleRun))).master.replicas.countP
          ((run Net.step (Net.init sampleId)
            (joinRun ++ attachment :: (writeRun ++ staleRun))).hasExecuted 54) = 0 := by
    decide +kernel
  exact ⟨orderly_sample heval.1, heval.2⟩

end RedisLite.Net
