import RedisLite.Controller.Succession
import RedisLite.Survival

namespace RedisLite.Controller

open Server Lib.Run Lib.Transcript
open Net (AskedOnce Gathered)
open scoped List

variable {cfg : Config} {w : World cfg} {m : Monitor} {net : Net} {replid : Bytes} {c : ClientId}
  {resp : Response}

def Declares (net : Net) (c : ClientId) (resp : Response) : Prop :=
  ∃ node fd env, net.nodes c = some node ∧ Askable fd env node.server ∧
    resp = consult fd env (encodeRESP Request.info.args) node.server

theorem Declares.offset (h : Declares net c resp) : ∃ node, net.nodes c = some node ∧
    (info resp).map replOffset = some node.server.replInfo.masterReplOffset := by
  obtain ⟨node, fd, env, hnode, hs, rfl⟩ := h
  exact ⟨node, hnode, hs.offset⟩

/-- The node that wins has reported at least the offset of every candidate that could have won. -/
theorem elected_offset (hidle : m.failoverInProgress = false) {a : Addr} (ha : a ∈ ranked w m)
    (hpromotes : Promotes w.script m.log a) : ∃ n ∈ ranked w m, (triggerFailover w m).master = n ∧
      ∃ k k', offsetOf w.script m.log n = some k ∧ offsetOf w.script m.log a = some k' ∧
        k' ≤ k := by
  have hout := triggerFailover_outcome w m
  generalize triggerFailover w m = m' at hout ⊢
  cases hout with
  | skipped hbusy =>
    rw [hidle] at hbusy
    cases hbusy
  | failed _ hnone => exact absurd hpromotes (hnone a ha)
  | @promoted before after n _ heq hbefore hn =>
    have hmem : n ∈ ranked w m := by
      rw [heq]
      exact List.mem_append_right _ (List.mem_cons_self ..)
    refine ⟨n, hmem, rfl, ?_⟩
    rw [heq] at ha
    rcases List.mem_append.mp ha with hfirst | hrest
    · exact absurd hpromotes (hbefore a hfirst)
    · rcases List.mem_cons.mp hrest with rfl | hafter
      · obtain ⟨k, hk⟩ := Option.isSome_iff_exists.mp (mem_ranked.mp hmem).2.2
        exact ⟨k, k, hk, hk, le_refl k⟩
      · have hpairs := ranked_ahead (w := w) (m := m)
        rw [heq, List.pairwise_append] at hpairs
        obtain ⟨k, k', hk, hk', hless⟩ := (List.pairwise_cons.mp hpairs.2.1).1 a hafter
        refine ⟨k, k', hk, hk', ?_⟩
        rcases hless with hless | ⟨hsame, -⟩
        · exact hless.le
        · exact hsame.ge

/-- A write that a client has waited for survives a failover. Let a `WAIT` be answered with a
count of replicas, and let the candidates of a later failover report their offsets at any times
after that, each at its own. If fewer than that many of the replicas are lost, in that no
candidate which can be promoted stands for them, the failover succeeds, and the new master has
executed every write command before the target of the `WAIT`. -/
theorem acknowledged_writes_survive (hid : IsReplid replid) (es₁ : List NetEvent) (e : NetEvent)
    (es₂ : List NetEvent)
    (hrun : Along Net.step (fun net e ↦ (Net.Orderly net e ∧ AskedOnce net e) ∧ Gathered net e)
      (Net.init replid) (es₁ ++ e :: es₂)) {reply : WaitReply}
    (hreply : reply ∈ (run Net.step (Net.init replid) (es₁ ++ [e])).master.waitReplies.drop
      (run Net.step (Net.init replid) es₁).master.waitReplies.length) (hpos : 0 < reply.target)
    (hidle : m.failoverInProgress = false) (link : Addr → ClientId) (time : Addr → ℕ)
    (hdeclares : ∀ a ∈ ranked w m, Declares
      (run Net.step (Net.init replid) (es₁ ++ e :: es₂.take (time a))) (link a)
      (replies w.script m.log a [.info]))
    (hlost : (run Net.step (Net.init replid) (es₁ ++ [e])).master.replicas.countP
      (fun r ↦ !decide (∃ a ∈ ranked w m, link a = r ∧ Promotes w.script m.log a)) < reply.count) :
    ∃ n ∈ ranked w m, (triggerFailover w m).master = n ∧ ∃ j node,
      (run Net.step (Net.init replid) (es₁ ++ e :: es₂.take (time n))).joined (link n) = some j ∧
      (run Net.step (Net.init replid) (es₁ ++ e :: es₂.take (time n))).nodes (link n) = some node ∧
      (run Net.step (Net.init replid) (es₁ ++ [e])).writesBefore reply.target <+:
        (run Net.step (Net.init replid) (es₁ ++ e :: es₂.take (time n))).history j node := by
  have hasked := hrun.mono _ (fun _ _ h ↦ h.1)
  have hgathered := hrun.mono _ (fun net e h ↦ (⟨h.1.1, h.2⟩ : Net.Orderly net e ∧ _))
  have hinitial (k : ℕ) : es₁ ++ e :: es₂.take k <+: es₁ ++ e :: es₂ :=
    (List.prefix_append_right_inj _).mpr (List.prefix_cons_inj e |>.mpr (List.take_prefix k es₂))
  obtain ⟨r, j, hhere, hkept⟩ := Net.acknowledged_kept hid hasked hreply hpos hlost
  obtain ⟨a, ha, rfl, hpromotes⟩ := of_decide_eq_true hhere
  obtain ⟨n, hn, hmaster, k, k', hk, hk', hle⟩ := elected_offset hidle ha hpromotes
  obtain ⟨node, hnode, hoffset⟩ := (hdeclares n hn).offset
  obtain ⟨node', hnode', hoffset'⟩ := (hdeclares a ha).offset
  obtain ⟨node'', hj', hnode'', hwrites⟩ := hkept (time a)
  rw [hnode', Option.some.injEq] at hnode''
  subst hnode''
  obtain ⟨hs, -⟩ := Net.Even.run hid (hgathered.of_initial _ (hinitial (time n)))
  obtain ⟨j', hj⟩ := Option.isSome_iff_exists.mp (hs.nodes (link n) (by rw [hnode]; rfl))
  refine ⟨n, hn, hmaster, j', node, hj, hnode, hwrites.trans ?_⟩
  rw [offsetOf] at hk hk'
  rw [hk, Option.some.injEq] at hoffset
  rw [hk', Option.some.injEq] at hoffset'
  exact Net.history_of_offset_le hid hgathered (hinitial (time a)) (hinitial (time n)) hj' hnode' hj
    hnode (hoffset' ▸ hoffset ▸ hle)

open Net

def waitedRun : List NetEvent :=
  joinRun ++ attachment :: (writeRun ++ (waitRun 1 "1").dropLast)

def follower : Server :=
  (((run Net.step (Net.init sampleId) (waitedRun ++ [.master (.process sendingEnv)])).nodes 0).map
    (·.server)).getD sampleWorker

theorem follower_askable : Askable 7 generousEnv follower := by
  have heval : (follower.fds 7 = none ∧ follower.clients follower.nextId = none ∧
      follower.replQueues follower.nextId = none ∧ follower.replicas = [] ∧
      follower.pendingWaits = [] ∧ follower.masterClient ≠ some follower.nextId) ∧
      follower.pc = .idle ∧
      (Command.executeInfo Request.info.args follower.replInfo).length ≤ 4096 ∧
      13 ∉ follower.replInfo.masterReplid ∧ 13 ∉ follower.replInfo.masterReplid2 ∧
      follower.replInfo.masterReplOffset = 64 := by
    decide +kernel
  obtain ⟨⟨hfd, hfresh, hqueue, hreplicas, hwaits, hlink⟩, hidle, hshort, hid, hid₂, hoffset⟩ := heval
  exact {
    vacant := ⟨hfd, hfresh, hqueue, by rw [hreplicas]; exact List.not_mem_nil,
      by rw [hwaits]; exact fun _ hmem ↦ absurd hmem List.not_mem_nil, hlink⟩
    idle := hidle
    takes := ⟨4095, [], rfl, le_refl _⟩
    short := hshort
    id := hid
    id₂ := hid₂
    low := by rw [hoffset]; decide
    high := by rw [hoffset]; decide }

/-- The master goes away after it has told the client that one replica has its write. -/
theorem waited_write_survives :
    (triggerFailover (lonelyWorld follower) lonelyMonitor).master = ascii "b:2" ∧
    ∃ j node, (run Net.step (Net.init sampleId)
        (waitedRun ++ [.master (.process sendingEnv)])).nodes 0 = some node ∧
      (run Net.step (Net.init sampleId)
        (waitedRun ++ [.master (.process sendingEnv)])).writesBefore 27 <+:
        (run Net.step (Net.init sampleId)
          (waitedRun ++ [.master (.process sendingEnv)])).history j node := by
  have hall : waitedRun ++ [.master (.process sendingEnv)] =
      joinRun ++ attachment :: (writeRun ++ waitRun 1 "1") := by
    simp [waitedRun, Net.waitRun]
  have heval : Along Net.step Net.Smooth
        (run Net.step (Net.init sampleId) (joinRun ++ [attachment])) (writeRun ++ waitRun 1 "1") ∧
      Along Net.step AskedOnce (Net.init sampleId)
        (waitedRun ++ [.master (.process sendingEnv)]) ∧
      Along Net.step Gathered (Net.init sampleId)
        (waitedRun ++ [.master (.process sendingEnv)]) ∧
      (run Net.step (Net.init sampleId) waitedRun).master.waitReplies = [] ∧
      (run Net.step (Net.init sampleId)
        (waitedRun ++ [.master (.process sendingEnv)])).master.waitReplies = [⟨1, 1, 27⟩] ∧
      ((run Net.step (Net.init sampleId)
        (waitedRun ++ [.master (.process sendingEnv)])).nodes 0).isSome = true ∧
      (run Net.step (Net.init sampleId)
        (waitedRun ++ [.master (.process sendingEnv)])).master.replicas = [0] := by
    decide +kernel
  obtain ⟨hsmooth, hasked, hgathered, hnone, hone, hsome, hreplicas⟩ := heval
  have hranked : ranked (lonelyWorld follower) lonelyMonitor = [ascii "b:2"] := by decide +kernel
  have hpromotes : Promotes (lonelyWorld follower).script lonelyMonitor.log (ascii "b:2") := by
    decide +kernel
  have hrun := ((hall ▸ orderly_sample hsmooth : Along Net.step Net.Orderly (Net.init sampleId)
    (waitedRun ++ [.master (.process sendingEnv)])).and _ hasked).and _ hgathered
  obtain ⟨node, hnode⟩ := Option.isSome_iff_exists.mp hsome
  have hfollower : follower = node.server := by
    rw [follower, hnode]
    rfl
  have hdeclares : ∀ a ∈ ranked (lonelyWorld follower) lonelyMonitor, Declares
      (run Net.step (Net.init sampleId) (waitedRun ++ .master (.process sendingEnv) ::
        ([] : List NetEvent).take 0)) 0
      (replies (lonelyWorld follower).script lonelyMonitor.log a [.info]) := by
    intro a ha
    rw [hranked, List.mem_singleton] at ha
    have haskable := follower_askable
    rw [hfollower] at haskable
    rw [List.take_nil]
    refine ⟨node, 7, generousEnv, hnode, haskable, ?_⟩
    rw [ha, lonely_answers follower _ (List.cons_ne_nil _ _), ← hfollower]
    rfl
  have hreply : (⟨1, 1, 27⟩ : WaitReply) ∈ (run Net.step (Net.init sampleId)
      (waitedRun ++ [.master (.process sendingEnv)])).master.waitReplies.drop
      (run Net.step (Net.init sampleId) waitedRun).master.waitReplies.length := by
    rw [hone, hnone]
    exact List.mem_singleton_self _
  have hhere : ∃ a ∈ ranked (lonelyWorld follower) lonelyMonitor,
      (0 : ClientId) = 0 ∧ Promotes (lonelyWorld follower).script lonelyMonitor.log a := by
    refine ⟨ascii "b:2", ?_, rfl, hpromotes⟩
    rw [hranked]
    exact List.mem_singleton_self _
  have hlost : (run Net.step (Net.init sampleId)
      (waitedRun ++ [.master (.process sendingEnv)])).master.replicas.countP
        (fun r ↦ !decide (∃ a ∈ ranked (lonelyWorld follower) lonelyMonitor, 0 = r ∧
          Promotes (lonelyWorld follower).script lonelyMonitor.log a)) < 1 := by
    rw [hreplicas, List.countP_singleton, if_neg]
    · exact Nat.zero_lt_one
    · rw [decide_eq_true hhere]
      exact Bool.false_ne_true
  obtain ⟨n, hn, hmaster, j, node', -, hnode', hwrites⟩ := acknowledged_writes_survive
    (w := lonelyWorld follower) (m := lonelyMonitor) (by decide +kernel) waitedRun
    (.master (.process sendingEnv)) [] hrun hreply (by decide) rfl (fun _ ↦ 0) (fun _ ↦ 0)
    hdeclares hlost
  rw [hranked, List.mem_singleton] at hn
  rw [List.take_nil] at hnode' hwrites
  exact ⟨hn ▸ hmaster, j, node', hnode', hwrites⟩

end RedisLite.Controller
