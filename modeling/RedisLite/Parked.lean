import RedisLite.Demotion

namespace RedisLite.Server

open Function

variable {s t u : Server} {c : ClientId}

def Live (s : Server) : Prop :=
  ∀ wait ∈ s.pendingWaits, wait.client < s.nextId ∧ (s.clients wait.client).isSome = true

/-- Between two states the parked waits in `gone` are taken out, with all those whose client is
removed, and `new` ones are parked. Closed connections stay closed. -/
structure Leaves (gone : WaitState → Bool) (new : List WaitState) (s t : Server) : Prop where
  waits : t.pendingWaits =
    s.pendingWaits.filter (fun wait ↦ !gone wait && (t.clients wait.client).isSome) ++ new
  open_of_open : ∀ c, c < s.nextId → (t.clients c).isSome = true → (s.clients c).isSome = true
  ids : s.nextId ≤ t.nextId

abbrev Drops (s t : Server) : Prop := Leaves (fun _ ↦ false) [] s t

theorem SameClients.isSome_eq (h : SameClients s t) (c : ClientId) :
    (t.clients c).isSome = (s.clients c).isSome := by
  have hmap := congrArg Option.isSome (h.clients c)
  rwa [Option.isSome_map, Option.isSome_map] at hmap

theorem eraseRead_waits (c : ClientId) (n : ℕ) (s : Server) :
    (s.eraseRead c n).pendingWaits = s.pendingWaits := by
  unfold eraseRead
  split
  · rfl
  · split <;> rfl

namespace Leaves

variable {gone gone' both : WaitState → Bool} {new : List WaitState}

theorem live (hl : Live s) (h : Leaves gone new s t)
    (hnew : ∀ wait ∈ new, wait.client < t.nextId ∧ (t.clients wait.client).isSome = true) :
    Live t := by
  intro wait hmem
  rw [h.waits] at hmem
  rcases List.mem_append.mp hmem with hmem | hmem
  · obtain ⟨hold, hopen⟩ := List.mem_filter.mp hmem
    rw [Bool.and_eq_true] at hopen
    exact ⟨(hl wait hold).1.trans_le h.ids, hopen.2⟩
  · exact hnew wait hmem

theorem trans (hl : Live s) (h : Leaves gone [] s t) (h' : Leaves gone' new t u)
    (hboth : ∀ wait, both wait = (gone wait || gone' wait)) : Leaves both new s u where
  waits := by
    rw [h'.waits, h.waits, List.append_nil, List.filter_filter]
    congr 1
    refine List.filter_congr (fun wait hmem ↦ ?_)
    have hclosed : (u.clients wait.client).isSome = true → (t.clients wait.client).isSome = true :=
      h'.open_of_open wait.client ((hl wait hmem).1.trans_le h.ids)
    rw [hboth]
    cases hu : (u.clients wait.client).isSome with
    | false => simp
    | true => simp [hclosed hu, Bool.and_comm]
  open_of_open c hc hu := h.open_of_open c hc (h'.open_of_open c (hc.trans_le h.ids) hu)
  ids := h.ids.trans h'.ids

theorem trans_drops (hl : Live s) (h : Leaves gone [] s t) (h' : Drops t u) : Leaves gone [] s u :=
  h.trans hl h' (fun _ ↦ (Bool.or_false _).symm)

theorem of_same (hl : Live s) (h : SameClients s t) (hw : t.pendingWaits = s.pendingWaits ++ new) :
    Leaves (fun _ ↦ false) new s t where
  waits := by
    rw [hw]
    congr 1
    symm
    refine List.filter_eq_self.mpr (fun wait hmem ↦ ?_)
    rw [h.isSome_eq, (hl wait hmem).2]
    rfl
  open_of_open c _ hc := by rwa [h.isSome_eq] at hc
  ids := h.nextId.ge

end Leaves

namespace Drops

theorem live (hl : Live s) (h : Drops s t) : Live t := Leaves.live hl h nofun

theorem trans (hl : Live s) (h : Drops s t) (h' : Drops t u) : Drops s u := h.trans_drops hl h'

theorem trans_leaves {gone : WaitState → Bool} {new : List WaitState} (hl : Live s)
    (h : Drops s t) (h' : Leaves gone new t u) : Leaves gone new s u :=
  Leaves.trans hl h h' (fun _ ↦ (Bool.false_or _).symm)

theorem of_same (hl : Live s) (h : SameClients s t) (hw : t.pendingWaits = s.pendingWaits) :
    Drops s t := Leaves.of_same hl h (by rw [hw, List.append_nil])

theorem refl (hl : Live s) : Drops s s := of_same hl (.refl s) rfl

theorem removeClient (hl : Live s) (c : ClientId) : Drops s (s.removeClient c) := by
  unfold Server.removeClient
  split
  · exact refl hl
  · refine ⟨?_, fun d hd h ↦ ?_, Nat.le_refl _⟩
    · rw [List.append_nil]
      refine List.filter_congr (fun wait hmem ↦ ?_)
      by_cases h : wait.client = c
      · simp [h]
      · simp [h, (hl wait hmem).2]
    · by_cases hc : d = c
      · subst hc
        change ((update s.clients d none) d).isSome = true at h
        rw [update_self] at h
        cases h
      · change ((update s.clients c none) d).isSome = true at h
        rwa [update_of_ne hc] at h

theorem trySend (hl : Live s) (c : ClientId) : Drops s (s.trySend c) := by
  unfold Server.trySend
  split
  · exact of_same hl ⟨rfl, fun _ ↦ rfl, rfl, fun _ ↦ rfl, rfl, rfl, .inl⟩ rfl
  · have hsent (sent kept : Bytes) (sends : List SendResult) :
        Drops s (s.deliver c sent kept sends) := of_same hl (deliver_same c sent kept sends s) rfl
    dsimp only
    split
    · exact (hsent _ _ _).trans hl (removeClient ((hsent _ _ _).live hl) c)
    · exact hsent _ _ _

theorem reply (hl : Live s) (c : ClientId) (response : Bytes) : Drops s (s.reply c response) := by
  have happend : Drops s (s.appendReply c response) := of_same hl (appendReply_same c response s) rfl
  exact happend.trans hl (trySend (happend.live hl) c)

theorem replyWait (hl : Live s) (c : ClientId) (count : ℕ) (target : ℤ) :
    Drops s (s.replyWait c count target) := by
  have hrecord : Drops s { s with waitReplies := s.waitReplies ++ [⟨c, count, target⟩] } :=
    of_same hl ⟨rfl, fun _ ↦ rfl, rfl, fun _ ↦ rfl, rfl, rfl, .inl⟩ rfl
  exact hrecord.trans hl (reply (hrecord.live hl) c _)

theorem eraseRead (hl : Live s) (c : ClientId) (n : ℕ) : Drops s (s.eraseRead c n) :=
  of_same hl (eraseRead_same c n s) (eraseRead_waits c n s)

theorem removeMaster (hl : Live s) : Drops s s.removeMaster := by
  unfold Server.removeMaster
  split
  · exact refl hl
  · next m _ =>
    have h := removeClient hl m
    exact ⟨h.waits, h.open_of_open, h.ids⟩

theorem disconnect (hl : Live s) (ds : List ClientId) :
    Drops s (ds.foldl (fun s d ↦ s.removeClient d) s) := by
  induction ds generalizing s with
  | nil => exact refl hl
  | cons d ds ih =>
    have h := removeClient hl d
    exact h.trans hl (ih (h.live hl))

theorem newClient (hl : Live s) {client : Client} (hw : t.pendingWaits = s.pendingWaits)
    (hc : t.clients = update s.clients s.nextId (some client)) (hn : t.nextId = s.nextId + 1) :
    Drops s t := by
  have hold (c : ClientId) (hlt : c < s.nextId) : t.clients c = s.clients c := by
    rw [hc, update_of_ne hlt.ne]
  refine ⟨?_, fun c hlt h ↦ ?_, hn.ge.trans' (Nat.le_succ _)⟩
  · rw [hw, List.append_nil]
    symm
    refine List.filter_eq_self.mpr (fun wait hmem ↦ ?_)
    rw [hold _ (hl wait hmem).1, (hl wait hmem).2]
    rfl
  · rwa [hold c hlt] at h

theorem handleAccept (hl : Live s) (fd : ℕ) : Drops s (s.handleAccept fd) := by
  unfold Server.handleAccept
  split
  · exact refl hl
  · exact newClient hl rfl rfl rfl

theorem connectToMaster (hl : Live s) (clk : Clock) (peer : Handshake.Peer) (host : Bytes)
    (port : ℤ) : Drops s (s.connectToMaster clk peer host port).1 := by
  have h := connectToMaster_connected clk peer host port s
  generalize s.connectToMaster clk peer host port = out at h ⊢
  cases h with
  | failed id n store failure =>
    exact of_same hl ⟨rfl, fun _ ↦ rfl, rfl, fun _ ↦ rfl, rfl, rfl, .inl⟩ rfl
  | linked fd id n store leftover hfd => exact newClient hl rfl rfl rfl

theorem handleReplicaofNoOne (hl : Live s) (replid : Bytes) (c : ClientId) :
    Drops s (s.handleReplicaofNoOne replid c) := by
  unfold Server.handleReplicaofNoOne
  split
  · exact reply hl c _
  · have hm := removeMaster hl
    have hp : Drops s (s.removeMaster.promote replid) := ⟨hm.waits, hm.open_of_open, hm.ids⟩
    exact hp.trans hl (reply (hp.live hl) c _)

theorem addReplica (hl : Live s) (c : ClientId) (data : Bytes) : Drops s (s.addReplica c data) := by
  have hsame (d : ClientId) : ((s.addReplica c data).clients d).isSome = (s.clients d).isSome := by
    by_cases h : d = c
    · subst h
      simp only [Server.addReplica, mapClient, update_self, Option.isSome_map]
    · simp only [Server.addReplica, mapClient, update_of_ne h]
  refine ⟨?_, fun d _ h ↦ by rwa [hsame] at h, Nat.le_refl _⟩
  rw [List.append_nil]
  symm
  refine List.filter_eq_self.mpr (fun wait hmem ↦ ?_)
  rw [hsame, (hl wait hmem).2]
  rfl

theorem trackWrite (hl : Live s) (args : List Bytes) : Drops s (s.trackWrite args) := by
  refine of_same hl (trackWrite_same args s) ?_
  unfold Server.trackWrite propagateToReplicas
  dsimp only
  split <;> rfl

theorem handleMasterRead (hl : Live s) (c : ClientId) (args : List Bytes) (response : Bytes)
    (n : ℕ) : Drops s (s.handleMasterRead c args response n) := by
  refine of_same hl (handleMasterRead_same c args response n s) ?_
  unfold Server.handleMasterRead
  dsimp only
  split
  · split <;> rfl
  · rfl

theorem finishRead (hl : Live s) (c : ClientId) (client : Client) : Drops s (s.finishRead c client) := by
  have hidle : Drops s { s with pc := .idle } :=
    of_same hl ⟨rfl, fun _ ↦ rfl, rfl, fun _ ↦ rfl, rfl, rfl, .inl⟩ rfl
  unfold Server.finishRead
  dsimp only
  split
  · exact hidle
  · exact hidle.trans hl (trySend (hidle.live hl) c)

theorem continueSweep (hl : Live s) : Drops s s.continueSweep := by
  refine of_same hl (continueSweep_same s) ?_
  unfold Server.continueSweep sweepKey propagateToReplicas
  split
  · rfl
  · dsimp only
    split <;> rfl

theorem writerStep (hl : Live s) (result : SendResult) : Drops s (s.writerStep result) :=
  of_same hl (writerStep_same result s) (writerStep_frame result s).2.1

end Drops

theorem Answers.count_eq {ds : List ClientId} (h : Answers ds s t) (target : ℤ) :
    t.countCaughtUpReplicas target = s.countCaughtUpReplicas target := by
  have hany (o : Option Client) : o.any (fun replica ↦ decide (target ≤ replica.ackOffset)) =
      (o.map Server.bare).any (fun replica ↦ decide (target ≤ replica.ackOffset)) := by
    cases o <;> rfl
  unfold countCaughtUpReplicas
  rw [h.replicas]
  refine List.countP_congr (fun r _ ↦ ?_)
  rw [hany (t.clients r), hany (s.clients r), h.bare]

theorem reply_same (hs : NoError s.sends) (c : ClientId) (response : Bytes) :
    SameClients s (s.reply c response) := by
  rw [reply]
  refine (appendReply_same c response s).trans ?_
  have hs' : NoError (s.appendReply c response).sends := hs
  generalize s.appendReply c response = s' at hs' ⊢
  unfold trySend
  split
  · exact ⟨rfl, fun _ ↦ rfl, rfl, fun _ ↦ rfl, rfl, rfl, .inl⟩
  · next client _ =>
    have hok := ((sendLoop_spec s'.sends client.writeBuf).2 hs').1
    simp only [hok, Bool.false_eq_true, if_false]
    exact deliver_same c _ _ _ s'

theorem replyWait_same (hs : NoError s.sends) (c : ClientId) (count : ℕ) (target : ℤ) :
    SameClients s (s.replyWait c count target) := by
  have hrecord : SameClients s { s with waitReplies := s.waitReplies ++ [⟨c, count, target⟩] } :=
    ⟨rfl, fun _ ↦ rfl, rfl, fun _ ↦ rfl, rfl, rfl, .inl⟩
  exact hrecord.trans (reply_same (s := { s with
    waitReplies := s.waitReplies ++ [⟨c, count, target⟩] }) hs c _)

def replyAt (s : Server) (wait : WaitState) : WaitReply :=
  ⟨wait.client, s.countCaughtUpReplicas wait.targetOffset, wait.targetOffset⟩

/-- The loop over the parked waits, as long as no reply fails to be sent: the due waits are
answered in their order, the others stay in theirs, and no connection is lost. -/
theorem settleWaits_spec (due : WaitState → ℕ → Bool) (kept waits : List WaitState) (s : Server)
    (hl : ∀ wait ∈ waits, (s.clients wait.client).isSome = true)
    (hs : (∃ wait ∈ waits, due wait (s.countCaughtUpReplicas wait.targetOffset) = true) →
      NoError s.sends) :
    (settleWaits due kept waits s).pendingWaits = kept ++
      waits.filter (fun wait ↦ !due wait (s.countCaughtUpReplicas wait.targetOffset)) ∧
    SameClients s (settleWaits due kept waits s) ∧
    Says ((waits.filter (fun wait ↦ due wait (s.countCaughtUpReplicas wait.targetOffset))).map
      s.replyAt) nothing s (settleWaits due kept waits s) := by
  induction waits generalizing kept s with
  | nil =>
    refine ⟨(List.append_nil _).symm, ⟨rfl, fun _ ↦ rfl, rfl, fun _ ↦ rfl, rfl, rfl, .inl⟩, ?_⟩
    exact .of_told (fun c ↦ .of_eq rfl rfl) rfl rfl
  | cons wait waits ih =>
    have hl' := fun w (h : w ∈ waits) ↦ hl w (List.mem_cons_of_mem _ h)
    let count := fun w : WaitState ↦ s.countCaughtUpReplicas w.targetOffset
    unfold settleWaits
    dsimp only
    by_cases hdue : due wait (s.countCaughtUpReplicas wait.targetOffset) = true
    · have hok := hs ⟨wait, List.mem_cons_self .., hdue⟩
      have hsame := replyWait_same hok wait.client (s.countCaughtUpReplicas wait.targetOffset)
        wait.targetOffset
      have hanswers := Answers.replyWait hok (List.mem_singleton_self wait.client)
        (s.countCaughtUpReplicas wait.targetOffset) wait.targetOffset
      have hsaid := Says.replyWait wait.client (s.countCaughtUpReplicas wait.targetOffset)
        wait.targetOffset s
      have hout : (wait :: waits).filter (fun w ↦ !due w (count w)) =
          waits.filter (fun w ↦ !due w (count w)) :=
        List.filter_cons_of_neg (by simp [count, hdue])
      have hin : (wait :: waits).filter (fun w ↦ due w (count w)) =
          wait :: waits.filter (fun w ↦ due w (count w)) := List.filter_cons_of_pos hdue
      rw [if_pos hdue, hout, hin, List.map_cons]
      generalize s.replyWait wait.client (s.countCaughtUpReplicas wait.targetOffset)
        wait.targetOffset = s' at hsame hanswers hsaid ⊢
      have hopen : (s'.clients wait.client).isNone = false := by
        rw [← Option.not_isSome, hsame.isSome_eq, hl wait (List.mem_cons_self ..)]
        rfl
      have hcount := hanswers.count_eq
      have hreply : s'.replyAt = s.replyAt := by
        funext w
        rw [replyAt, replyAt, hcount]
      rw [if_neg (by rw [hopen]; exact Bool.false_ne_true)]
      have h := ih kept s' (fun w hw ↦ by rw [hsame.isSome_eq]; exact hl' w hw)
        (fun _ ↦ hanswers.sends)
      simp only [hcount, hreply] at h
      exact ⟨h.1, hsame.trans h.2.1, hsaid.trans h.2.2⟩
    · have hout : (wait :: waits).filter (fun w ↦ !due w (count w)) =
          wait :: waits.filter (fun w ↦ !due w (count w)) :=
        List.filter_cons_of_pos (by simp [count, hdue])
      have hin : (wait :: waits).filter (fun w ↦ due w (count w)) =
          waits.filter (fun w ↦ due w (count w)) := List.filter_cons_of_neg hdue
      rw [if_neg hdue, hout, hin]
      have hs' : (∃ w ∈ waits, due w (s.countCaughtUpReplicas w.targetOffset) = true) →
          NoError s.sends := by
        rintro ⟨w, hw, h⟩
        exact hs ⟨w, List.mem_cons_of_mem _ hw, h⟩
      have h := ih (kept ++ [wait]) s hl' hs'
      rw [List.append_assoc] at h
      exact h

theorem Leaves.settle (hl : Live s) (due : WaitState → ℕ → Bool)
    (hs : (∃ wait ∈ s.pendingWaits, due wait (s.countCaughtUpReplicas wait.targetOffset) = true) →
      NoError s.sends) :
    Leaves (fun wait ↦ due wait (s.countCaughtUpReplicas wait.targetOffset)) [] s
      (settleWaits due [] s.pendingWaits s) := by
  obtain ⟨hwaits, hsame, -⟩ := settleWaits_spec due [] s.pendingWaits s (fun w h ↦ (hl w h).2) hs
  refine ⟨?_, fun c _ h ↦ by rwa [hsame.isSome_eq] at h, hsame.nextId.ge⟩
  rw [hwaits, List.nil_append, List.append_nil]
  refine List.filter_congr (fun wait hmem ↦ ?_)
  rw [hsame.isSome_eq, (hl wait hmem).2, Bool.and_true]

/-- What a master does to its parked waits when it stops being one. -/
theorem leaveMasterRole_spec (hl : Live s)
    (hs : s.replInfo.role = .master → s.pendingWaits ≠ [] → NoError s.sends) :
    Leaves (fun _ ↦ s.replInfo.role == .master) [] s s.leaveMasterRole ∧
      (s.replInfo.role = .master →
        Says (s.pendingWaits.map s.replyAt) nothing s s.leaveMasterRole) := by
  unfold leaveMasterRole
  by_cases hr : s.replInfo.role = .master
  · have hs' : (∃ wait ∈ s.pendingWaits, true = true) → NoError s.sends :=
      fun ⟨wait, hmem, _⟩ ↦ hs hr (List.ne_nil_of_mem hmem)
    have hleaves := Leaves.settle hl (fun _ _ ↦ true) hs'
    obtain ⟨-, -, hsaid⟩ := settleWaits_spec (fun _ _ ↦ true) [] s.pendingWaits s
      (fun w h ↦ (hl w h).2) hs'
    rw [List.filter_true] at hsaid
    rw [if_pos hr, hr]
    dsimp only
    generalize settleWaits (fun _ _ ↦ true) [] s.pendingWaits s = t at hleaves hsaid ⊢
    have hdisconnect := Drops.disconnect (hleaves.live hl nofun) t.replicas
    have hrest := hleaves.trans_drops hl hdisconnect
    exact ⟨⟨hrest.waits, hrest.open_of_open, hrest.ids⟩, fun _ ↦ hsaid.trans_nil
      ((Says.disconnect _ _).trans_nil (.of_told (fun c ↦ .of_eq rfl rfl) rfl rfl))⟩
  · rw [if_neg hr, Role.eq_worker hr]
    exact ⟨Drops.refl hl, fun h ↦ by cases h⟩

theorem Leaves.setMaster {host : Bytes} {port : ℤ} (hl : Live s)
    (hs : s.replInfo.role = .master → s.pendingWaits ≠ [] → NoError s.sends)
    (hne : s.replicaof ≠ some (host, port)) (clk : Clock) (peer : Handshake.Peer) (c : ClientId) :
    Leaves (fun _ ↦ s.replInfo.role == .master) [] s
      (s.handleReplicaofSetMaster clk peer c host port) := by
  have hdemote : Leaves (fun _ ↦ s.replInfo.role == .master) [] s (s.demote c host port) := by
    have hleave := (leaveMasterRole_spec hl hs).1
    have hmaster := hleave.trans_drops hl (.removeMaster (hleave.live hl nofun))
    have hworker : Leaves (fun _ ↦ s.replInfo.role == .master) [] s
        (s.leaveMasterRole.removeMaster.becomeWorker host port) :=
      ⟨hmaster.waits, hmaster.open_of_open, hmaster.ids⟩
    exact hworker.trans_drops hl (.reply (hworker.live hl nofun) c _)
  have hconnect := hdemote.trans_drops hl
    (.connectToMaster (hdemote.live hl nofun) clk peer host port)
  have h := handleReplicaofSetMaster_masterSet clk peer c host port s
  generalize s.handleReplicaofSetMaster clk peer c host port = t at h ⊢
  cases h with
  | already h => exact absurd h hne
  | linked hne t h =>
    rw [h] at hconnect
    exact hconnect
  | reverted hne t what h =>
    rw [h] at hconnect
    exact ⟨hconnect.waits, hconnect.open_of_open, hconnect.ids⟩
  | terminated hne t h =>
    rw [h] at hconnect
    exact ⟨hconnect.waits, hconnect.open_of_open, hconnect.ids⟩

end RedisLite.Server
