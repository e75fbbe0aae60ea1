import RedisLite.Network

namespace RedisLite.Server

open Net

variable {s t u : Server} {c d : ClientId} {joined : List ClientId} {e : Event}

/-- What a step does to the replicas and to the replies to `WAIT`s: apart from those that join,
no replica is new, and every integer that a client gets is at most the number of replicas that
have acknowledged its target. -/
structure Counts (joined : List ClientId) (s t : Server) : Prop where
  replicas : ∀ c ∈ t.replicas, c ∈ s.replicas ∨ c ∈ joined
  replies : ∃ new, t.waitReplies = s.waitReplies ++ new ∧
    ∀ reply ∈ new, 0 < reply.target → reply.count ≤ t.countCaughtUpReplicas reply.target

theorem propagate_kept (data : Bytes) (s : Server) :
    (s.propagateToReplicas data).replicas = s.replicas ∧
      (s.propagateToReplicas data).waitReplies = s.waitReplies := by
  unfold propagateToReplicas
  split <;> exact ⟨rfl, rfl⟩

namespace Counts

theorem silent (hr : ∀ c ∈ t.replicas, c ∈ s.replicas ∨ c ∈ joined)
    (hw : t.waitReplies = s.waitReplies) : Counts joined s t :=
  ⟨hr, [], by rw [hw, List.append_nil], nofun⟩

theorem of_eq (hr : t.replicas = s.replicas) (hw : t.waitReplies = s.waitReplies) :
    Counts joined s t := silent (fun _ hc ↦ .inl (hr ▸ hc)) hw

theorem congr_left (h : Counts joined t u) (hr : t.replicas = s.replicas)
    (hw : t.waitReplies = s.waitReplies) : Counts joined s u := by
  obtain ⟨hreplicas, new, hnew, hcount⟩ := h
  exact ⟨fun c hc ↦ hr ▸ hreplicas c hc, new, hw ▸ hnew, hcount⟩

theorem trySend (hs : NoError s.sends) (d : ClientId) : Counts joined s (s.trySend d) := by
  have hrecorded := (Says.trySend d s).recorded
  rw [List.append_nil] at hrecorded
  exact of_eq (Answers.trySend hs (List.mem_singleton_self d)).replicas hrecorded

theorem reply (hs : NoError s.sends) (d : ClientId) (response : Bytes) :
    Counts joined s (s.reply d response) := by
  have hrecorded := (Says.reply d response s).recorded
  rw [List.append_nil] at hrecorded
  exact of_eq (Answers.reply hs (List.mem_singleton_self d) response).replicas hrecorded

theorem replyWait (hs : NoError s.sends) (d : ClientId) {count : ℕ} {target : ℤ}
    (hcount : 0 < target → count ≤ s.countCaughtUpReplicas target) :
    Counts joined s (s.replyWait d count target) := by
  have hanswers := Answers.replyWait hs (List.mem_singleton_self d) count target
  refine ⟨fun c hc ↦ .inl (hanswers.replicas ▸ hc), _, (Says.replyWait d count target s).recorded, ?_⟩
  intro reply hmem hpos
  rw [List.mem_singleton.mp hmem] at hpos ⊢
  rw [hanswers.count_eq]
  exact hcount hpos

theorem settleWaits (due : WaitState → ℕ → Bool) (hs : NoError s.sends)
    (kept waits : List WaitState) : Counts joined s (settleWaits due kept waits s) := by
  induction waits generalizing kept s with
  | nil => exact of_eq rfl rfl
  | cons wait waits ih =>
    have hds : ∀ w ∈ waits, w.client ∈ waits.map (·.client) := fun _ hw ↦ List.mem_map_of_mem hw
    unfold Server.settleWaits
    dsimp only
    split
    · have hreply : Counts joined s (s.replyWait wait.client
          (s.countCaughtUpReplicas wait.targetOffset) wait.targetOffset) :=
        replyWait hs wait.client (fun _ ↦ le_refl _)
      have hanswers := Answers.replyWait hs (List.mem_singleton_self wait.client)
        (s.countCaughtUpReplicas wait.targetOffset) wait.targetOffset
      generalize s.replyWait wait.client _ wait.targetOffset = s' at hreply hanswers ⊢
      obtain ⟨hr, new, hnew, hcount⟩ := hreply
      split
      · exact ⟨hr, new, hnew, hcount⟩
      · -- the rest of the loop keeps the counts, so the first reply stays right
        obtain ⟨hr', new', hnew', hcount'⟩ := ih (s := s') hanswers.sends kept
        have hrest := Answers.settleWaits due hanswers.sends kept waits hds
        refine ⟨fun c hc ↦ ?_, new ++ new', by rw [hnew', hnew, List.append_assoc], ?_⟩
        · exact (hr' c hc).elim (hr c) .inr
        · intro reply hmem hpos
          rcases List.mem_append.mp hmem with hmem | hmem
          · rw [hrest.count_eq]
            exact hcount reply hmem hpos
          · exact hcount' reply hmem hpos
    · exact ih hs (kept ++ [wait])

theorem eraseRead (h : Counts joined s t) (d : ClientId) (n : ℕ) :
    Counts joined s (t.eraseRead d n) := by
  have hsame := eraseRead_same d n t
  have hwaits : (t.eraseRead d n).waitReplies = t.waitReplies := by
    unfold Server.eraseRead
    split
    · rfl
    · split <;> rfl
  have hacks (c : ClientId) : ((t.eraseRead d n).clients c).map (·.ackOffset) =
      (t.clients c).map (·.ackOffset) := by
    unfold Server.eraseRead
    split
    · rfl
    · split
      · rfl
      · by_cases hc : c = d
        · simp [mapClient, hc, Function.comp_def]
        · simp [mapClient, hc]
  have hcount (target : ℤ) : (t.eraseRead d n).countCaughtUpReplicas target =
      t.countCaughtUpReplicas target := by
    have hany (o : Option Client) : o.any (fun replica ↦ decide (target ≤ replica.ackOffset)) =
        (o.map (·.ackOffset)).any (fun ack ↦ decide (target ≤ ack)) := by
      cases o <;> rfl
    unfold countCaughtUpReplicas
    rw [hsame.replicas]
    refine List.countP_congr (fun r _ ↦ ?_)
    rw [hany, hany, hacks]
  obtain ⟨hr, new, hnew, hle⟩ := h
  refine ⟨fun c hc ↦ hr c (hsame.replicas ▸ hc), new, hwaits.trans hnew, fun reply hmem hpos ↦ ?_⟩
  rw [hcount]
  exact hle reply hmem hpos

theorem waited {now : TimePoint} {args : List Bytes} (hs : NoError s.sends)
    (h : Waited now d args s t) : Counts joined s t := by
  cases h with
  | replied count _ hc => exact replyWait hs d (fun hpos ↦ hc hpos.ne')
  | refused response => exact reply hs d response
  | ignored => exact of_eq rfl rfl
  | parked =>
    have hkept := propagate_kept (Resp.encodeArray Command.getack) s
    exact of_eq hkept.1 hkept.2

theorem ran {env : Env} {type : ClientType} {args : List Bytes} (hs : NoError s.sends)
    (hj : commandName args = ascii "PSYNC" → type = .regular → d ∈ joined)
    (h : Ran env d type args s t) : Counts joined s t := by
  cases h with
  | acked _ m =>
    exact (settleWaits (s := s.mapClient d (fun client ↦ { client with ackOffset := m })) _ hs []
      _).congr_left rfl rfl
  | ignored => exact of_eq rfl rfl
  | write =>
    have hkept := propagate_kept (Resp.encodeArray args)
    exact of_eq (hkept _).1 (hkept _).2
  | waited _ _ _ _ t h => exact waited hs h
  | psync ht _ hn data =>
    refine silent (fun c hc ↦ ?_) rfl
    rcases List.mem_append.mp hc with hc | hc
    · exact .inl hc
    · rw [List.mem_singleton.mp hc]
      exact .inr (hj hn ht)
  | replied _ _ response => exact reply hs d response
  | buffered => exact of_eq rfl rfl
  | skipped => exact of_eq rfl rfl

theorem command {env : Env} {client : Client} {args : List Bytes} {n : ℕ} (hs : Serving s)
    (hcalm : Calm s (.process env)) (hc : Receives s d client args n) :
    Counts ((joining s (.process env)).map (·.c)).toList s (Server.step s (.process env)) := by
  rw [hc.step_eq env]
  refine Counts.eraseRead ?_ d n
  have hran := ran_runCommand env hs hc hcalm.2
  refine (Counts.ran hcalm.1 (fun hn ht ↦ ?_) hran).congr_left rfl rfl
  have hjoining : joining s (.process env) = some ⟨env, d, client, args, n⟩ := by
    rw [joining, hc.taking_eq env]
    simp [ht, hn]
  rw [hjoining]
  exact List.mem_singleton_self d

theorem step (hs : Serving s) (hcalm : Calm s e) :
    Counts ((joining s e).map (·.c)).toList s (Server.step s e) := by
  have hout := step_outcome s e
  generalize hstep : Server.step s e = t at hout ⊢
  cases hout with
  | accept fd =>
    unfold handleAccept
    split <;> exact of_eq rfl rfl
  | recv d data =>
    unfold handleRecv
    split <;> exact of_eq rfl rfl
  | hangup d =>
    unfold removeClient
    split
    · exact of_eq rfl rfl
    · exact silent (fun c hc ↦ .inl (List.mem_of_mem_filter hc)) rfl
  | writable d sends =>
    exact (trySend (s := { s with sends := sends }) hcalm d).congr_left rfl rfl
  | process env d hpc =>
    have hp := processCommand_processed env d s
    generalize s.processCommand env d = t at hp hstep ⊢
    cases hp with
    | gone => exact of_eq rfl rfl
    | done client =>
      unfold finishRead
      dsimp only
      split
      · exact of_eq rfl rfl
      · exact (trySend (s := { s with sends := env.sends, pc := .idle }) hcalm.1 d).congr_left
          rfl rfl
    | command client hd args n hparse hn =>
      rw [← hstep]
      exact command hs hcalm ⟨hpc, hd, hparse, hn⟩
  | timeouts now sends =>
    exact (settleWaits (s := { s with sends := sends }) _ hcalm [] _).congr_left rfl rfl
  | sweep now =>
    unfold startSweep
    split <;> exact of_eq rfl rfl
  | sweepNext =>
    unfold continueSweep
    split
    · exact of_eq rfl rfl
    · next key keys _ =>
      have hkept := propagate_kept (Resp.encodeArray [ascii "DEL", key])
      exact of_eq (hkept _).1 (hkept _).2
  | rehash items => exact of_eq rfl rfl
  | writerSwap order => exact of_eq rfl rfl
  | writerStep result =>
    unfold Server.writerStep
    split
    · exact of_eq rfl rfl
    · split
      · exact of_eq rfl rfl
      · split
        · split <;> exact of_eq rfl rfl
        · split
          · exact of_eq rfl rfl
          · split <;> exact of_eq rfl rfl
  | skip => exact of_eq rfl rfl

end Counts

end RedisLite.Server
