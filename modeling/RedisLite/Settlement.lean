import RedisLite.Waits

namespace RedisLite.Server

open Lib.Run

variable {s : Server} {c : ClientId}

/-- A step that takes no command answers no wait, unless it is the check of the deadlines. -/
theorem due_of_idle {e : Event} (ht : s.taking e = none)
    (he : ∀ now sends, e = .timeouts now sends → s.pc ≠ .idle) : due s e = fun _ ↦ false := by
  funext wait
  unfold due
  split
  · next hpc => exact absurd hpc (he _ _ rfl)
  · rw [ht]

structure Accounted (s : Server) (e : Event) : Prop where
  leaves : Leaves (due s e) (parked s e) s (step s e)
  parked : ∀ wait ∈ parked s e, wait.client < (step s e).nextId ∧
    ((step s e).clients wait.client).isSome = true
  replies : Replies s e

theorem Accounted.of_drops {e : Event} (hdue : due s e = fun _ ↦ false) (hparked : s.parked e = [])
    (h : Drops s (step s e)) : Accounted s e := by
  refine ⟨?_, ?_, fun hne ↦ absurd ?_ hne⟩
  · rw [hdue, hparked]
    exact h
  · rw [hparked]
    exact nofun
  · rw [answered, hdue]
    exact List.filter_eq_nil_iff.mpr (fun _ _ ↦ Bool.false_ne_true)

theorem Accounted.of_taking_none {e : Event} (ht : s.taking e = none)
    (he : ∀ now sends, e = .timeouts now sends → s.pc ≠ .idle) (h : Drops s (step s e)) :
    Accounted s e := by
  refine .of_drops (due_of_idle ht he) ?_ h
  rw [Server.parked, ht]

theorem accounted_command (hcons : Consistent s) (hl : Live s) {env : Env}
    (hp : Prompt s (.process env)) {client : Client} {args : List Bytes} {n : ℕ}
    (hc : Receives s c client args n) : Accounted s (.process env) := by
  have hlt := hcons.lt_nextId hc.connected
  have hparked (h : client.type ≠ .regular ∨ commandName args ≠ ascii "WAIT") :
      s.parked (.process env) = [] := by
    rw [parked, hc.taking_eq]
    exact if_neg (fun h' ↦ h.elim (fun ht ↦ ht h'.1) (fun hn ↦ hn h'.2.1))
  cases ht : client.type with
  | masterConn =>
    refine .of_drops ?_ (hparked (.inl (by rw [ht]; decide))) (leaves_link hl env hc ht)
    funext wait
    simp only [due, hc.taking_eq, ht]
  | replica =>
    obtain ⟨hleaves, hsaid⟩ := leaves_replica hl hp hc ht
    have hnone := hparked (.inl (by rw [ht]; decide))
    have hown : s.ownReply (.process env) = nothing := by
      rw [ownReply, hc.taking_eq]
      exact if_neg (by rw [ht]; decide)
    refine ⟨by rw [hnone]; exact hleaves, by rw [hnone]; simp, fun _ ↦ ?_⟩
    rw [hown]
    exact hsaid.heard
  | regular =>
    have hdue : due s (.process env) = fun _ ↦ s.stepsDown args := funext (due_regular env hc ht)
    by_cases hwait : commandName args = ascii "WAIT"
    · obtain ⟨hleaves, hnew⟩ := leaves_wait hl env hc ht hwait
      have hno : s.stepsDown args = false := stepsDown_of_name (by rw [hwait]; decide) s
      rw [hno] at hdue
      refine ⟨by rw [hdue]; exact hleaves, fun wait hmem ↦ ?_, fun hne ↦ absurd ?_ hne⟩
      · obtain ⟨rfl, hopen⟩ := hnew wait hmem
        exact ⟨hlt.trans_le hleaves.ids, hopen⟩
      · rw [answered, hdue]
        exact List.filter_eq_nil_iff.mpr (fun _ _ ↦ Bool.false_ne_true)
    · have hnone := hparked (.inr hwait)
      by_cases hreplicaof : commandName args = ascii "REPLICAOF"
      · have hleaves := leaves_replicaof hl hp hc ht hreplicaof
        refine ⟨by rw [hnone, hdue]; exact hleaves, by rw [hnone]; simp, fun _ ↦ ?_⟩
        have hcounted : s.counted (.process env) = s := by
          simp only [counted, hc.taking_eq, ht]
        have hown : s.ownReply (.process env) = only c ((s.answer env args).getD []) := by
          rw [ownReply, hc.taking_eq]
          exact if_pos ht
        rw [hcounted, hown]
        exact heard_settled hl hp hc ht hreplicaof
      · refine .of_drops ?_ hnone (leaves_other hl env hc ht hwait hreplicaof)
        rw [hdue, stepsDown_of_name hreplicaof]

theorem settled_timeouts (hl : Live s) {now : TimePoint} {sends : List SendResult}
    (hpc : s.pc = .idle) (hp : Prompt s (.timeouts now sends)) :
    Leaves (due s (.timeouts now sends)) [] s (step s (.timeouts now sends)) ∧
      Says ((answered s (.timeouts now sends)).map s.replyAt) nothing s
        (step s (.timeouts now sends)) := by
  have hstep : step s (.timeouts now sends) = settleWaits (fun wait _ ↦ decide (wait.deadline ≤ now))
      [] s.pendingWaits { s with sends := sends } := by
    simp only [step, hpc]
    rfl
  have hdue : due s (.timeouts now sends) = fun wait ↦ decide (wait.deadline ≤ now) := by
    funext wait
    simp only [due, hpc]
  have hload : Drops s { s with sends := sends } := drops_loaded hl sends s.store
  have hok : (∃ wait ∈ s.pendingWaits, decide (wait.deadline ≤ now) = true) → NoError sends := by
    rintro ⟨wait, hmem, h⟩
    refine hp (List.ne_nil_of_mem (List.mem_filter.mpr ⟨hmem, ?_⟩))
    rw [hdue]
    exact h
  have hsettle := Leaves.settle (s := { s with sends := sends }) (hload.live hl)
    (fun wait _ ↦ decide (wait.deadline ≤ now)) hok
  obtain ⟨-, -, hsaid⟩ := settleWaits_spec (fun wait _ ↦ decide (wait.deadline ≤ now)) []
    s.pendingWaits { s with sends := sends } (fun w hw ↦ (hload.live hl w hw).2) hok
  have hsends : Says [] nothing s { s with sends := sends } := .of_eq rfl rfl rfl rfl
  rw [answered, hdue, hstep]
  exact ⟨hload.trans_leaves hl hsettle, hsends.nil_trans hsaid⟩

theorem drops_of_taking_none (hl : Live s) {e : Event} (ht : s.taking e = none)
    (he : ∀ now sends, e = .timeouts now sends → s.pc ≠ .idle) : Drops s (step s e) := by
  have hsame {t : Server} (h : SameClients s t) (hw : t.pendingWaits = s.pendingWaits) : Drops s t :=
    .of_same hl h hw
  have hrefl {t : Server} (hw : t.pendingWaits = s.pendingWaits) (hc : t.clients = s.clients)
      (hn : t.nextId = s.nextId) : Drops s t :=
    ⟨by rw [hw, hc]; exact (Drops.refl hl).waits, fun c _ h ↦ by rwa [hc] at h, hn.ge⟩
  have h := step_outcome s e
  generalize step s e = t at h ⊢
  cases h with
  | accept fd => exact .handleAccept hl fd
  | recv c data =>
    refine hsame (handleRecv_same c data s) ?_
    unfold handleRecv
    split <;> rfl
  | hangup c => exact .removeClient hl c
  | writable c sends =>
    have hload : Drops s { s with sends := sends } := hrefl rfl rfl rfl
    exact hload.trans hl (.trySend (hload.live hl) c)
  | process env c hpc =>
    have h := processCommand_processed env c s
    generalize s.processCommand env c = t at h ⊢
    cases h with
    | gone => exact hrefl rfl rfl rfl
    | done client =>
      have hload : Drops s { s with sends := env.sends } := hrefl rfl rfl rfl
      exact hload.trans hl (.finishRead (hload.live hl) c client)
    | command client hc args n hparse hn =>
      have hreceives : Receives s c client args n := ⟨hpc, hc, hparse, hn⟩
      rw [hreceives.taking_eq env] at ht
      cases ht
  | timeouts now sends hpc => exact absurd hpc (he now sends rfl)
  | sweep now =>
    unfold startSweep
    split
    · exact hrefl rfl rfl rfl
    · exact .refl hl
  | sweepNext => exact .continueSweep hl
  | rehash items => exact hrefl rfl rfl rfl
  | writerSwap order => exact hsame (writerSwap_same order s) rfl
  | writerStep result => exact .writerStep hl result
  | skip => exact .refl hl

theorem step_accounted (hcons : Consistent s) (hl : Live s) {e : Event} (hp : Prompt s e) :
    Accounted s e := by
  cases ht : s.taking e with
  | some tk =>
    obtain ⟨rfl, hc⟩ := receives_of_taking ht
    exact accounted_command hcons hl hp hc
  | none =>
    by_cases he : ∃ now sends, e = .timeouts now sends ∧ s.pc = .idle
    · obtain ⟨now, sends, rfl, hpc⟩ := he
      obtain ⟨hleaves, hsaid⟩ := settled_timeouts hl hpc hp
      exact ⟨hleaves, nofun, fun _ ↦ hsaid.heard⟩
    · have he' : ∀ now sends, e = .timeouts now sends → s.pc ≠ .idle :=
        fun now sends h hpc ↦ he ⟨now, sends, h, hpc⟩
      exact .of_taking_none ht he' (drops_of_taking_none hl ht he')

theorem live_step (hcons : Consistent s) (hl : Live s) {e : Event} (hp : Prompt s e) :
    Live (step s e) :=
  (step_accounted hcons hl hp).leaves.live hl (step_accounted hcons hl hp).parked

theorem waits_of_initial (h : Initial s) : s.pendingWaits = [] := by
  cases h with
  | master replid => rfl
  | worker replid host port clk peer _ h =>
    have hcon := connectToMaster_connected clk peer host port (initWorker replid host port)
    rw [h] at hcon
    cases hcon
    rfl

theorem live_of_initial (h : Initial s) : Live s := by
  intro wait hmem
  rw [waits_of_initial h] at hmem
  cases hmem

theorem live_run {s₀ : Server} {es : List Event} (h₀ : Initial s₀)
    (hrun : Along step Prompt s₀ es) : Consistent (run step s₀ es) ∧ Live (run step s₀ es) :=
  run_invariant step (I := fun s ↦ Consistent s ∧ Live s)
    (fun _ e hs hp ↦ ⟨hs.1.step e, live_step hs.1 hs.2 hp⟩)
    ⟨.of_initial h₀, live_of_initial h₀⟩ hrun

/-- One step moves every wait to exactly one place. -/
theorem step_partition {e : Event} (h : Accounted s e) :
    (s.pendingWaits ++ parked s e).Perm
      (answered s e ++ (abandoned s e ++ (step s e).pendingWaits)) := by
  have hdue := (List.filter_append_perm (due s e) s.pendingWaits).symm
  have hgone := (List.filter_append_perm (fun wait ↦ ((step s e).clients wait.client).isNone)
    (s.pendingWaits.filter (fun wait ↦ !due s e wait))).symm
  have habandoned : (s.pendingWaits.filter (fun wait ↦ !due s e wait)).filter
      (fun wait ↦ ((step s e).clients wait.client).isNone) = abandoned s e := by
    rw [List.filter_filter]
    exact List.filter_congr (fun wait _ ↦ Bool.and_comm _ _)
  have hstay : (s.pendingWaits.filter (fun wait ↦ !due s e wait)).filter
      (fun wait ↦ !((step s e).clients wait.client).isNone) = s.pendingWaits.filter
        (fun wait ↦ !due s e wait && ((step s e).clients wait.client).isSome) := by
    rw [List.filter_filter]
    refine List.filter_congr (fun wait _ ↦ ?_)
    rw [Option.not_isNone, Bool.and_comm]
  rw [habandoned, hstay] at hgone
  rw [h.leaves.waits, ← List.append_assoc, ← List.append_assoc]
  refine List.Perm.append_right _ (hdue.trans ?_)
  rw [List.append_assoc]
  exact hgone.append_left _

/-- Over a run, the waits that were there and those that were parked are those that were
answered, those whose client went away and those that are left, each as often as it was
parked. -/
theorem run_partition {es : List Event} (hcons : Consistent s) (hl : Live s)
    (hrun : Along step Prompt s es) :
    (s.pendingWaits ++ trace step parked s es).Perm (trace step answered s es ++
      (trace step abandoned s es ++ (run step s es).pendingWaits)) := by
  induction es generalizing s with
  | nil => simp
  | cons e es ih =>
    have hstep := step_partition (step_accounted hcons hl hrun.1)
    have hrest := ih (hcons.step e) (live_step hcons hl hrun.1) hrun.2
    rw [List.perm_iff_count] at hstep hrest ⊢
    intro wait
    have hstep := hstep wait
    have hrest := hrest wait
    simp only [trace_cons, run_cons, List.count_append] at hstep hrest ⊢
    omega

/-- In every run in which no send fails while parked waits are answered, each wait that is parked
leaves by one integer to its own client or with its own client, and stays until then. -/
theorem waits_settled_once {s₀ : Server} {es : List Event} (h₀ : Initial s₀)
    (hrun : Along step Prompt s₀ es) :
    (trace step parked s₀ es).Perm (trace step answered s₀ es ++
      (trace step abandoned s₀ es ++ (run step s₀ es).pendingWaits)) ∧
    ∀ es₁ e es₂, es = es₁ ++ e :: es₂ →
      Live (run step s₀ es₁) ∧ Accounted (run step s₀ es₁) e := by
  constructor
  · have h := run_partition (.of_initial h₀) (live_of_initial h₀) hrun
    have hnone : s₀.pendingWaits = [] := waits_of_initial h₀
    rwa [hnone, List.nil_append] at h
  · rintro es₁ e es₂ rfl
    rw [along_append] at hrun
    obtain ⟨hcons, hl⟩ := live_run h₀ hrun.1
    exact ⟨hl, step_accounted hcons hl hrun.2.1⟩

instance (s : Server) (e : Event) : Decidable (Prompt s e) :=
  inferInstanceAs (Decidable (answered s e ≠ [] → SendResult.error ∉ e.sends))

def waitRun : List Event :=
  [.accept 5, .accept 6, .accept 7] ++
    request 0 [ascii "PSYNC", ascii "?", ascii "-1"] (.quiet 0) ++
    request 1 [ascii "SET", ascii "k", ascii "v"] (.quiet 0) ++
    request 1 [ascii "WAIT", ascii "1", ascii "100"] (.quiet 0) ++
    request 2 [ascii "WAIT", ascii "1", ascii "0"] (.quiet 0)

/-- The first wait runs out, the second is acknowledged. -/
theorem waits_settled_once_each :
    (trace step parked (init sampleId) (waitRun ++ [.timeouts 100000000 [.sent 100]] ++
      request 0 [ascii "REPLCONF", ascii "ACK", ascii "27"] (.quiet 1))).map (·.client) = [1, 2] ∧
    (trace step parked (init sampleId) (waitRun ++ [.timeouts 100000000 [.sent 100]] ++
      request 0 [ascii "REPLCONF", ascii "ACK", ascii "27"] (.quiet 1))).Perm
      (trace step answered (init sampleId) (waitRun ++ [.timeouts 100000000 [.sent 100]] ++
        request 0 [ascii "REPLCONF", ascii "ACK", ascii "27"] (.quiet 1)) ++
      (trace step abandoned (init sampleId) (waitRun ++ [.timeouts 100000000 [.sent 100]] ++
        request 0 [ascii "REPLCONF", ascii "ACK", ascii "27"] (.quiet 1)) ++
      (run step (init sampleId) (waitRun ++ [.timeouts 100000000 [.sent 100]] ++
        request 0 [ascii "REPLCONF", ascii "ACK", ascii "27"] (.quiet 1))).pendingWaits)) :=
  ⟨by decide +kernel, (waits_settled_once (.master sampleId) (by decide +kernel)).1⟩

/-- The loop over the positions of `pending_waits_`, as its iterator runs through them. A reply
that cannot be sent takes the waits of its client out first, so that the erasure hits whatever
has moved to the position, or nothing. -/
def settleAt (due : WaitState → ℕ → Bool) : ℕ → ℕ → Server → Server
  | 0, _, s => s
  | fuel + 1, i, s =>
    match s.pendingWaits[i]? with
    | none => s
    | some wait =>
      let caughtUp := s.countCaughtUpReplicas wait.targetOffset
      if due wait caughtUp then
        let s := s.replyWait wait.client caughtUp wait.targetOffset
        if i < s.pendingWaits.length then
          settleAt due fuel i { s with pendingWaits := s.pendingWaits.eraseIdx i }
        else { s with pc := .useAfterFree }
      else settleAt due fuel (i + 1) s

theorem reply_waits_eq (hs : NoError s.sends) (c : ClientId) (response : Bytes)
    (waits : List WaitState) : reply c response { s with pendingWaits := waits } =
      { s.reply c response with pendingWaits := waits } := by
  have happend : appendReply c response { s with pendingWaits := waits } =
      { s.appendReply c response with pendingWaits := waits } := rfl
  have hs' : NoError (s.appendReply c response).sends := hs
  rw [reply, reply, happend]
  generalize s.appendReply c response = s' at hs' ⊢
  simp only [trySend]
  cases s'.clients c with
  | none => rfl
  | some client =>
    have hok := ((sendLoop_spec s'.sends client.writeBuf).2 hs').1
    simp only [hok, Bool.false_eq_true, if_false]
    rfl

/-- As long as no reply fails to be sent, positions and elements come to the same. -/
theorem settleAt_eq (due : WaitState → ℕ → Bool) (kept waits : List WaitState) (s : Server)
    (hl : ∀ wait ∈ waits, (s.clients wait.client).isSome = true) (hs : NoError s.sends) :
    settleAt due waits.length kept.length { s with pendingWaits := kept ++ waits } =
      settleWaits due kept waits s := by
  induction waits generalizing kept s with
  | nil => rw [List.append_nil]; rfl
  | cons wait waits ih =>
    have hl' := fun w (h : w ∈ waits) ↦ hl w (List.mem_cons_of_mem _ h)
    have hat : (kept ++ wait :: waits)[kept.length]? = some wait := by simp
    have hcount : countCaughtUpReplicas wait.targetOffset { s with
        pendingWaits := kept ++ wait :: waits } = s.countCaughtUpReplicas wait.targetOffset := rfl
    simp only [List.length_cons, settleAt, hat, hcount, settleWaits]
    by_cases hdue : due wait (s.countCaughtUpReplicas wait.targetOffset) = true
    · have hreply : replyWait wait.client (s.countCaughtUpReplicas wait.targetOffset)
          wait.targetOffset { s with pendingWaits := kept ++ wait :: waits } =
          { s.replyWait wait.client (s.countCaughtUpReplicas wait.targetOffset) wait.targetOffset with
            pendingWaits := kept ++ wait :: waits } :=
        reply_waits_eq (s := { s with waitReplies := s.waitReplies ++
          [⟨wait.client, s.countCaughtUpReplicas wait.targetOffset, wait.targetOffset⟩] }) hs _ _ _
      have hsame := replyWait_same hs wait.client (s.countCaughtUpReplicas wait.targetOffset)
        wait.targetOffset
      have hanswers := Answers.replyWait hs (List.mem_singleton_self wait.client)
        (s.countCaughtUpReplicas wait.targetOffset) wait.targetOffset
      rw [if_pos hdue, if_pos hdue, hreply]
      generalize s.replyWait wait.client (s.countCaughtUpReplicas wait.targetOffset)
        wait.targetOffset = s' at hsame hanswers ⊢
      have hopen : (s'.clients wait.client).isNone = false := by
        rw [← Option.not_isSome, hsame.isSome_eq, hl wait (List.mem_cons_self ..)]
        rfl
      have hlt : kept.length < (kept ++ wait :: waits).length := by simp
      have herase : (kept ++ wait :: waits).eraseIdx kept.length = kept ++ waits := by
        simp [List.eraseIdx_append_of_length_le]
      rw [if_pos hlt, if_neg (by rw [hopen]; exact Bool.false_ne_true)]
      simp only [herase]
      exact ih kept s' (fun w hw ↦ by rw [hsame.isSome_eq]; exact hl' w hw) hanswers.sends
    · rw [if_neg hdue, if_neg hdue]
      have h := ih (kept ++ [wait]) s hl' hs
      rwa [List.append_assoc, List.length_append] at h

/-- The reply to the first wait of `waitRun` fails to be sent when it runs out. Its client is
removed, the iterator is no longer valid, and in its place the wait of the other client is
erased, which is connected, has not run out and gets no reply. -/
theorem failed_send_loses_wait :
    Reachable (run step (init sampleId) waitRun) ∧
    (run step (init sampleId) waitRun).pendingWaits.map (fun wait ↦ (wait.client, wait.deadline)) =
      [(1, 100000000), (2, Int64.maxValue)] ∧
    (step (run step (init sampleId) waitRun) (.timeouts 100000000 [.error])).pc = .useAfterFree ∧
    (settleAt (fun wait _ ↦ decide (wait.deadline ≤ 100000000)) 2 0 { run step (init sampleId) waitRun
      with sends := [.error] }).pendingWaits = [] ∧
    (settleAt (fun wait _ ↦ decide (wait.deadline ≤ 100000000)) 2 0 { run step (init sampleId) waitRun
      with sends := [.error] }).waitReplies = [⟨1, 0, 27⟩] ∧
    ((settleAt (fun wait _ ↦ decide (wait.deadline ≤ 100000000)) 2 0 { run step (init sampleId) waitRun
      with sends := [.error] }).clients 2).isSome = true := by
  refine ⟨⟨_, _, .master sampleId, rfl⟩, ?_⟩
  decide +kernel

end RedisLite.Server
