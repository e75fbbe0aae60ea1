import RedisLite.EventLoop

namespace RedisLite.Server

open Function

variable {s t u : Server} {c d : ClientId} {ds : List ClientId}

def NoError (sends : List SendResult) : Prop := SendResult.error ∉ sends

instance (sends : List SendResult) : Decidable (NoError sends) :=
  inferInstanceAs (Decidable (SendResult.error ∉ sends))

theorem sendLoop_spec (sends : List SendResult) (buf : Bytes) :
    (sendLoop sends buf).1 ++ (sendLoop sends buf).2.1 = buf ∧
      (NoError sends → (sendLoop sends buf).2.2.2 = false ∧ NoError (sendLoop sends buf).2.2.1) := by
  induction sends generalizing buf with
  | nil => cases buf <;> simp [sendLoop, NoError]
  | cons result sends ih =>
    cases buf with
    | nil => simp [sendLoop]
    | cons b buf =>
      cases result with
      | again =>
        simp only [sendLoop, List.nil_append, true_and]
        exact fun h ↦ fun hmem ↦ h (List.mem_cons_of_mem _ hmem)
      | error =>
        simp only [sendLoop, List.nil_append, true_and]
        exact fun h ↦ absurd (List.mem_cons_self ..) h
      | sent n =>
        obtain ⟨hsplit, hok⟩ := ih ((b :: buf).drop (n + 1))
        simp only [sendLoop]
        refine ⟨?_, fun h ↦ hok (fun hmem ↦ h (List.mem_cons_of_mem _ hmem))⟩
        rw [List.append_assoc, hsplit, List.take_append_drop]

def bare (client : Client) : Client := { client with writeBuf := [] }

/-- Replies have been written to the connections `ds`, and nothing else has happened to
any connection. -/
structure Answers (ds : List ClientId) (s t : Server) : Prop where
  queues : t.replQueues = s.replQueues
  replicas : t.replicas = s.replicas
  fds : t.fds = s.fds
  bare : ∀ c, (t.clients c).map bare = (s.clients c).map bare
  client : ∀ c, c ∉ ds → t.clients c = s.clients c
  wire : ∀ c, c ∉ ds → t.wire c = s.wire c
  sends : NoError t.sends

namespace Answers

theorem trans (h : Answers ds s t) (h' : Answers ds t u) : Answers ds s u where
  queues := h'.queues.trans h.queues
  replicas := h'.replicas.trans h.replicas
  fds := h'.fds.trans h.fds
  bare := fun c ↦ (h'.bare c).trans (h.bare c)
  client := fun c hc ↦ (h'.client c hc).trans (h.client c hc)
  wire := fun c hc ↦ (h'.wire c hc).trans (h.wire c hc)
  sends := h'.sends

theorem mapClient (hs : NoError s.sends) (hd : d ∈ ds) (f : Client → Client)
    (hf : ∀ client, Server.bare (f client) = Server.bare client) :
    Answers ds s (s.mapClient d f) where
  queues := rfl
  replicas := rfl
  fds := rfl
  bare := fun c ↦ by
    by_cases h : c = d
    · subst h
      simp only [Server.mapClient, update_self, Option.map_map]
      congr 1
      exact funext hf
    · simp only [Server.mapClient, update_of_ne h]
  client := fun c hc ↦ update_of_ne (ne_of_mem_of_not_mem hd hc).symm ..
  wire := fun _ _ ↦ rfl
  sends := hs

theorem trySend (hs : NoError s.sends) (hd : d ∈ ds) : Answers ds s (s.trySend d) := by
  unfold Server.trySend
  split
  · exact ⟨rfl, rfl, rfl, fun _ ↦ rfl, fun _ _ ↦ rfl, fun _ _ ↦ rfl, hs⟩
  · next client hc =>
    obtain ⟨hok, hrest⟩ := (sendLoop_spec s.sends client.writeBuf).2 hs
    simp only [hok, Bool.false_eq_true, if_false]
    have hmap := mapClient hs hd (fun client' ↦ { client' with
      writeBuf := (sendLoop s.sends client.writeBuf).2.1 }) (fun _ ↦ rfl)
    exact ⟨rfl, rfl, rfl, hmap.bare, hmap.client,
      fun c hc ↦ update_of_ne (ne_of_mem_of_not_mem hd hc).symm .., hrest⟩

theorem reply (hs : NoError s.sends) (hd : d ∈ ds) (response : Bytes) :
    Answers ds s (s.reply d response) := by
  have happ : Answers ds s (s.appendReply d response) := mapClient hs hd _ (fun _ ↦ rfl)
  exact happ.trans (trySend happ.sends hd)

theorem replyWait (hs : NoError s.sends) (hd : d ∈ ds) (count : ℕ) (target : ℤ) :
    Answers ds s (s.replyWait d count target) := by
  have hrecord : Answers ds s { s with waitReplies := s.waitReplies ++ [⟨d, count, target⟩] } :=
    ⟨rfl, rfl, rfl, fun _ ↦ rfl, fun _ _ ↦ rfl, fun _ _ ↦ rfl, hs⟩
  exact hrecord.trans (reply hrecord.sends hd _)

theorem settleWaits (due : WaitState → ℕ → Bool) (hs : NoError s.sends)
    (kept waits : List WaitState) (hds : ∀ wait ∈ waits, wait.client ∈ ds) :
    Answers ds s (settleWaits due kept waits s) := by
  induction waits generalizing kept s with
  | nil => exact ⟨rfl, rfl, rfl, fun _ ↦ rfl, fun _ _ ↦ rfl, fun _ _ ↦ rfl, hs⟩
  | cons wait waits ih =>
    have hd := hds wait (List.mem_cons_self ..)
    have hds' := fun w (h : w ∈ waits) ↦ hds w (List.mem_cons_of_mem _ h)
    unfold Server.settleWaits
    dsimp only
    split
    · have hr := replyWait hs hd (s.countCaughtUpReplicas wait.targetOffset) wait.targetOffset
      split
      · exact hr.trans ⟨rfl, rfl, rfl, fun _ ↦ rfl, fun _ _ ↦ rfl, fun _ _ ↦ rfl, hr.sends⟩
      · exact hr.trans (ih hr.sends kept hds')
    · exact ih hs (kept ++ [wait]) hds'

theorem settleAll (due : WaitState → ℕ → Bool) (hs : NoError s.sends) :
    Answers (s.pendingWaits.map (·.client)) s (Server.settleWaits due [] s.pendingWaits s) :=
  settleWaits due hs [] s.pendingWaits (fun _ hw ↦ List.mem_map_of_mem hw)

end Answers

theorem trySend_waits (d : ClientId) (s : Server) :
    (s.trySend d).pendingWaits ⊆ s.pendingWaits := by
  unfold trySend
  split
  · exact List.Subset.refl _
  · dsimp only
    split
    · unfold removeClient
      split
      · exact List.Subset.refl _
      · exact List.filter_sublist.subset
    · exact List.Subset.refl _

theorem reply_waits (d : ClientId) (response : Bytes) :
    (s.reply d response).pendingWaits ⊆ s.pendingWaits := trySend_waits d _

theorem replyWait_waits (d : ClientId) (count : ℕ) (target : ℤ) :
    (s.replyWait d count target).pendingWaits ⊆ s.pendingWaits := trySend_waits d _

theorem settleWaits_waits {P : WaitState → Prop} (due : WaitState → ℕ → Bool)
    (kept waits : List WaitState) (hk : ∀ wait ∈ kept, P wait) (hw : ∀ wait ∈ waits, P wait)
    (hs : ∀ wait ∈ s.pendingWaits, P wait) :
    ∀ wait ∈ (settleWaits due kept waits s).pendingWaits, P wait := by
  induction waits generalizing kept s with
  | nil => exact hk
  | cons wait waits ih =>
    have hw' := fun w (h : w ∈ waits) ↦ hw w (List.mem_cons_of_mem _ h)
    unfold settleWaits
    dsimp only
    split
    · have hs' : ∀ w ∈ (s.replyWait wait.client (s.countCaughtUpReplicas wait.targetOffset)
          wait.targetOffset).pendingWaits, P w := fun w h ↦ hs w (replyWait_waits _ _ _ h)
      split
      · exact hs'
      · exact ih kept hk hw' hs'
    · refine ih (kept ++ [wait]) (fun w h ↦ ?_) hw' hs
      rcases List.mem_append.mp h with h | h
      · exact hk w h
      · rw [List.mem_singleton.mp h]
        exact hw wait (List.mem_cons_self ..)

def ackOf (args : List Bytes) : Option ℤ :=
  match args with
  | name :: sub :: offset :: _ =>
    if toUpper name == ascii "REPLCONF" && toUpper sub == ascii "ACK" then
      match stoll offset with
      | .error _ => none
      | .ok n => some n
    else none
  | _ => none

/-- What `handle_wait` decides: to reply a count at once, to refuse the arguments, to ignore them,
or to park the wait for so many replicas and milliseconds. -/
inductive WaitVerdict
  | replied (count : ℕ)
  | refused (response : Bytes)
  | ignored
  | parked (numNeeded timeoutMs : ℤ)

def waitVerdict (args : List Bytes) (s : Server) : WaitVerdict :=
  match args with
  | _ :: numreplicas :: timeout :: _ =>
    match stoi numreplicas, stoll timeout with
    | .ok numNeeded, .ok timeoutMs =>
      if s.replicas.isEmpty || s.masterReplOffset == 0 then
        .replied (if s.masterReplOffset = 0 then s.replicas.length else 0)
      else if numNeeded ≤ s.countCaughtUpReplicas s.masterReplOffset then
        .replied (s.countCaughtUpReplicas s.masterReplOffset)
      else .parked numNeeded timeoutMs
    | _, _ => .refused (ascii "-ERR value is not an integer or out of range\r\n")
  | _ => .ignored

def parks (args : List Bytes) (s : Server) : Bool :=
  match s.waitVerdict args with
  | .parked .. => true
  | _ => false

inductive Waited (now : TimePoint) (c : ClientId) (args : List Bytes) (s : Server) : Server → Prop
  | replied (count : ℕ) (hv : s.waitVerdict args = .replied count)
    (hc : s.masterReplOffset ≠ 0 → count ≤ s.countCaughtUpReplicas s.masterReplOffset) :
    Waited now c args s (s.replyWait c count s.masterReplOffset)
  | refused (response : Bytes) (hv : s.waitVerdict args = .refused response) :
    Waited now c args s (s.reply c response)
  | ignored (hv : s.waitVerdict args = .ignored) : Waited now c args s s
  | parked (numNeeded timeoutMs : ℤ) (hv : s.waitVerdict args = .parked numNeeded timeoutMs) :
    Waited now c args s
      { s.propagateToReplicas (Resp.encodeArray Command.getack) with
        pendingWaits := s.pendingWaits ++
          [⟨c, numNeeded, s.masterReplOffset, waitDeadline now timeoutMs⟩] }

theorem propagate_frame (data : Bytes) (s : Server) :
    (s.propagateToReplicas data).pendingWaits = s.pendingWaits ∧
      (s.propagateToReplicas data).masterReplOffset = s.masterReplOffset := by
  unfold propagateToReplicas
  split <;> exact ⟨rfl, rfl⟩

theorem handleWait_waited (now : TimePoint) (c : ClientId) (args : List Bytes) (s : Server) :
    Waited now c args s (s.handleWait now c args) := by
  rcases args with _ | ⟨name, _ | ⟨numreplicas, _ | ⟨timeout, rest⟩⟩⟩
  case cons.cons.cons =>
    rw [handleWait]
    cases hnum : stoi numreplicas with
    | error e => exact .refused _ (by simp only [waitVerdict, hnum])
    | ok numNeeded =>
      cases htime : stoll timeout with
      | error e => exact .refused _ (by simp only [waitVerdict, hnum, htime])
      | ok timeoutMs =>
        dsimp only
        split
        · next hnone =>
          refine .replied _ (by simp only [waitVerdict, hnum, htime, if_pos hnone]) (fun hne ↦ ?_)
          rw [if_neg hne]
          exact Nat.zero_le _
        · next hnone =>
          split
          · next hle =>
            refine .replied _ ?_ (fun _ ↦ le_rfl)
            simp only [waitVerdict, hnum, htime, if_neg hnone, if_pos hle]
          · next hle =>
            obtain ⟨hwaits, hoffset⟩ := propagate_frame (Resp.encodeArray Command.getack) s
            have h : Waited now c (name :: numreplicas :: timeout :: rest) s _ :=
              .parked numNeeded timeoutMs
                (by simp only [waitVerdict, hnum, htime, if_neg hnone, if_neg hle])
            simpa only [hwaits, hoffset] using h
  all_goals exact .ignored rfl

section

variable {args : List Bytes} {s : Server}

theorem waitVerdict_refused {response : Bytes} (h : s.waitVerdict args = .refused response) :
    response = ascii "-ERR value is not an integer or out of range\r\n" := by
  unfold waitVerdict at h
  split at h
  · split at h
    · split_ifs at h
    · cases h
      rfl
  · cases h

theorem waitVerdict_ne_ignored {name numreplicas timeout : Bytes} :
    s.waitVerdict (name :: numreplicas :: timeout :: args) ≠ .ignored := by
  intro h
  simp only [waitVerdict] at h
  split at h
  · split_ifs at h
  · cases h

theorem waitVerdict_parked {numNeeded timeoutMs : ℤ}
    (h : s.waitVerdict args = .parked numNeeded timeoutMs) :
    s.countCaughtUpReplicas s.masterReplOffset < numNeeded := by
  unfold waitVerdict at h
  split at h
  · split at h
    · split_ifs at h with hnone hle
      injection h with hnum
      exact hnum ▸ Int.not_le.mp hle
    · cases h
  · cases h

end

end RedisLite.Server
