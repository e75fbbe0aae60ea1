import RedisLite.Lasting

namespace RedisLite.Server

open Function

variable {s t : Server} {e : Event} {c d : ClientId} {client : Client} {args : List Bytes} {n : ℕ}
  {env : Env} {cs : List ClientId}

theorem pc_removeClient (c : ClientId) (s : Server) : (s.removeClient c).pc = s.pc := by
  unfold removeClient
  split <;> rfl

theorem pc_trySend (hc : (s.clients c).isSome = true) : (s.trySend c).pc = s.pc := by
  obtain ⟨client, hclient⟩ := Option.isSome_iff_exists.mp hc
  unfold trySend
  rw [hclient]
  dsimp only
  split
  · exact pc_removeClient c _
  · rfl

theorem pc_reply (hc : (s.clients c).isSome = true) (response : Bytes) :
    (s.reply c response).pc = s.pc := by
  have hsome : ((s.appendReply c response).clients c).isSome = true := by
    rw [(appendReply_same c response s).isSome_eq, hc]
  exact pc_trySend hsome

theorem pc_replyWait (hc : (s.clients c).isSome = true) (count : ℕ) (target : ℤ) :
    (s.replyWait c count target).pc = s.pc :=
  pc_reply (s := { s with waitReplies := s.waitReplies ++ [⟨c, count, target⟩] }) hc _

theorem pc_settleWaits (due : WaitState → ℕ → Bool) (kept waits : List WaitState)
    (hs : NoError s.sends) (hl : ∀ wait ∈ waits, (s.clients wait.client).isSome = true) :
    (settleWaits due kept waits s).pc = s.pc := by
  induction waits generalizing kept s with
  | nil => rfl
  | cons wait waits ih =>
    have hwait := hl wait (List.mem_cons_self ..)
    have hl' := fun w (h : w ∈ waits) ↦ hl w (List.mem_cons_of_mem _ h)
    unfold settleWaits
    dsimp only
    split
    · have hsame := replyWait_same hs wait.client (s.countCaughtUpReplicas wait.targetOffset)
        wait.targetOffset
      have hsends := (Answers.replyWait hs (List.mem_singleton_self wait.client)
        (s.countCaughtUpReplicas wait.targetOffset) wait.targetOffset).sends
      have hpc := pc_replyWait hwait (s.countCaughtUpReplicas wait.targetOffset) wait.targetOffset
      generalize s.replyWait wait.client (s.countCaughtUpReplicas wait.targetOffset)
        wait.targetOffset = t at hsame hsends hpc ⊢
      rw [if_neg (by rw [← Option.not_isSome, hsame.isSome_eq, hwait]; exact Bool.false_ne_true),
        ih kept hsends (fun w hw ↦ by rw [hsame.isSome_eq, hl' w hw]), hpc]
    · exact ih _ hs hl'

theorem pc_disconnect (ds : List ClientId) (s : Server) :
    (ds.foldl (fun s d ↦ s.removeClient d) s).pc = s.pc := by
  induction ds generalizing s with
  | nil => rfl
  | cons d ds ih => rw [List.foldl_cons, ih, pc_removeClient]

theorem pc_leaveMasterRole (hs : NoError s.sends) (hl : Live s) : s.leaveMasterRole.pc = s.pc := by
  unfold leaveMasterRole
  split
  · exact (pc_disconnect _ _).trans (pc_settleWaits _ _ _ hs (fun wait h ↦ (hl wait h).2))
  · rfl

theorem pc_removeMaster (s : Server) : s.removeMaster.pc = s.pc := by
  unfold removeMaster
  split
  · rfl
  · exact pc_removeClient _ s

theorem torn_regular (hcons : Consistent s) (hc : s.clients c = some client)
    (ht : client.type = .regular) : Thins.Torn (fun d ↦ d ≠ c) s where
  replicas _ r hr := by
    rintro rfl
    obtain ⟨replica, hreplica, htype⟩ := (hcons.replica_iff r).mp hr
    rw [hc] at hreplica
    cases hreplica
    rw [ht] at htype
    cases htype
  link m hm := by
    rintro rfl
    exact hcons.not_link hc ht hm

theorem pc_demote (hcons : Consistent s) (hl : Live s) (hs : NoError s.sends)
    (hc : s.clients c = some client) (ht : client.type = .regular) (host : Bytes) (port : ℤ) :
    (s.demote c host port).pc = s.pc := by
  have hworker := Thins.becomeWorker (.inl hs) (torn_regular hcons hc ht) host port
  have hsome : ((s.leaveMasterRole.removeMaster.becomeWorker host port).clients c).isSome = true := by
    rw [hworker.isSome_eq (not_not.mpr rfl), hc]
    rfl
  calc (s.demote c host port).pc
      = (s.leaveMasterRole.removeMaster.becomeWorker host port).pc := pc_reply hsome _
    _ = s.leaveMasterRole.pc := pc_removeMaster _
    _ = s.pc := pc_leaveMasterRole hs hl

theorem pc_replicaof (hcons : Consistent s) (hl : Live s) (hs : NoError s.sends)
    (hc : s.clients c = some client) (ht : client.type = .regular) (env : Env) (args : List Bytes) :
    (s.handleReplicaof env c args).pc = s.pc ∨ (s.handleReplicaof env c args).pc = .terminated := by
  have hsome : (s.clients c).isSome = true := by
    rw [hc]
    rfl
  have h := handleReplicaof_demoted env c args s
  generalize s.handleReplicaof env c args = t at h ⊢
  cases h with
  | noOne =>
    left
    unfold handleReplicaofNoOne
    split
    · exact pc_reply hsome _
    · have hpromote : Thins (fun d ↦ d ≠ c) s (s.removeMaster.promote env.replid) :=
        (Thins.removeMaster (torn_regular hcons hc ht).link).trans
          (.of_eq rfl rfl rfl rfl rfl rfl rfl (fun h ↦ h) (.inl rfl))
      refine (pc_reply ?_ _).trans (pc_removeMaster s)
      rw [hpromote.isSome_eq (not_not.mpr rfl), hsome]
  | refused response => exact .inl (pc_reply hsome response)
  | ignored => exact .inl rfl
  | setMaster host port =>
    have hdemote := pc_demote hcons hl hs hc ht host port
    have h := handleReplicaofSetMaster_masterSet env.clock env.peer c host port s
    generalize s.handleReplicaofSetMaster env.clock env.peer c host port = t at h ⊢
    have hconn := connectToMaster_connected env.clock env.peer host port (s.demote c host port)
    cases h with
    | already => exact .inl (pc_reply hsome _)
    | linked hne t h =>
      rw [h] at hconn
      cases hconn with
      | linked => exact .inl hdemote
    | reverted hne t what h =>
      rw [h] at hconn
      cases hconn with
      | failed => exact .inl hdemote
    | terminated => exact .inr rfl

theorem pc_handleWait (hc : (s.clients c).isSome = true) (now : TimePoint) (args : List Bytes) :
    (s.handleWait now c args).pc = s.pc := by
  have h := handleWait_waited now c args s
  generalize s.handleWait now c args = t at h ⊢
  cases h with
  | replied count => exact pc_replyWait hc count _
  | refused response => exact pc_reply hc response
  | ignored => rfl
  | parked => exact pc_propagate _ s

theorem pc_runCommand (hcons : Consistent s) (hl : Live s) (hs : NoError env.sends)
    (hc : s.clients c = some client) (args : List Bytes) (n : ℕ) :
    (s.runCommand env c client args n).pc = s.pc ∨
      (s.runCommand env c client args n).pc = .terminated := by
  have hsome : (s.clients c).isSome = true := by
    rw [hc]
    rfl
  have hloaded : Consistent (loaded env client args s) :=
    hcons.of_same ⟨rfl, fun _ ↦ rfl, rfl, fun _ ↦ rfl, rfl, rfl, .inl⟩
  change (dispatch env c client.type args _ n (loaded env client args s)).pc = s.pc ∨
    (dispatch env c client.type args _ n (loaded env client args s)).pc = .terminated
  generalize (Command.execute env.clock.steady args s.store s.replInfo
    (client.type == .masterConn)).1 = response
  unfold dispatch
  split
  · left
    unfold handleMasterRead
    dsimp only
    split
    · split <;> rfl
    · rfl
  · left
    rw [handleReplicaRead_eq]
    cases ackOf args with
    | none => rfl
    | some m =>
      have hsame := mapClient_same c (fun client ↦ { client with ackOffset := m })
        (fun _ ↦ rfl) (loaded env client args s)
      refine pc_settleWaits (s := (loaded env client args s).acknowledge c m) _ _ _ hs ?_
      intro wait hmem
      exact (hsame.isSome_eq wait.client).trans (hl wait hmem).2
  · next ht =>
    have h := handleRegular_handled env c args response (loaded env client args s)
    generalize (loaded env client args s).handleRegular env c args response = t at h ⊢
    cases h with
    | write => exact .inl (pc_propagate _ _)
    | wait => exact .inl (pc_handleWait (s := loaded env client args s) hsome _ _)
    | replicaof => exact pc_replicaof hloaded hl hs hc ht env args
    | psync =>
      left
      unfold handlePsync
      dsimp only
      split <;> rfl
    | plain => exact .inl rfl

def closing (s : Server) : List ClientId :=
  if s.replInfo.role = .master then s.replicas else s.masterClient.toList

/-- A step that closes none of `cs` and does not lose, while a command is handled or deadlines are
checked, a client it is about to use. -/
def Minds (cs : List ClientId) (s : Server) : Event → Prop
  | .recv c _ => c ∉ cs
  | .hangup c => c ∉ cs
  | .writable c _ => c ∉ cs
  | .timeouts _ sends => NoError sends
  | .process env => ∀ tk ∈ s.taking (.process env), NoError env.sends ∧
    (tk.client.type = .regular → Overturns tk.args s → ∀ c ∈ s.closing, c ∉ cs)
  | _ => True

structure Tended (cs : List ClientId) (s : Server) : Prop where
  consistent : Consistent s
  live : Live s
  pc : s.pc ≠ .useAfterFree
  connected : ∀ c ∈ cs, (s.clients c).isSome = true
  reading : ∀ c, s.pc = .reading c → (s.clients c).isSome = true ∧ c ∉ cs

namespace Tended

theorem spares (h : Tended cs s) (hm : Minds cs s e) : Spares (fun d ↦ d ∉ cs) s e := by
  cases e with
  | hangup c => exact hm
  | writable c sends => exact .inr hm
  | timeouts now sends => exact .inl hm
  | process env =>
    refine ⟨.inr (fun c hpc ↦ (h.reading c hpc).2), fun tk htk ↦ ?_⟩
    obtain ⟨hok, hclosing⟩ := hm tk htk
    refine ⟨.inl hok, fun ht hover ↦ ⟨fun hr r hmem ↦ ?_, fun m hlink ↦ ?_⟩⟩
    · apply hclosing ht hover
      rw [closing, if_pos hr]
      exact hmem
    · apply hclosing ht hover
      rw [closing, if_neg, hlink]
      · exact List.mem_singleton_self m
      · intro hr
        rw [h.consistent.role hr] at hlink
        cases hlink
  | _ => trivial

theorem prompt (hm : Minds cs s e) : Prompt s e := by
  intro hne
  cases htk : s.taking e with
  | some tk =>
    obtain ⟨rfl, -⟩ := receives_of_taking htk
    exact (hm tk htk).1
  | none =>
    by_cases he : ∃ now sends, e = .timeouts now sends
    · obtain ⟨now, sends, rfl⟩ := he
      exact hm
    · refine absurd ?_ hne
      rw [answered, due_of_idle htk (fun now sends h _ ↦ he ⟨now, sends, h⟩)]
      exact List.filter_eq_nil_iff.mpr (fun _ _ ↦ Bool.false_ne_true)

theorem command (h : Tended cs s) (hm : Minds cs s (.process env))
    (hc : Receives s c client args n) :
    ((s.runCommand env c client args n).eraseRead c n).pc = .terminated ∨
      ((s.runCommand env c client args n).eraseRead c n).pc = .reading c ∧
        (((s.runCommand env c client args n).eraseRead c n).clients c).isSome = true := by
  have hok := (hm _ (hc.taking_eq env)).1
  have hacted : Acted (fun d ↦ d ≠ c) env c client args (loaded env client args s)
      (s.runCommand env c client args n) :=
    acted_runCommand (.inl hok) (fun ht _ ↦ torn_regular h.consistent hc.connected ht) n
  have hsome := hacted.isSome (not_not.mpr rfl) (by
    change (s.clients c).isSome = true
    rw [hc.connected]
    rfl)
  rw [(eraseRead_same c n _).isSome_eq]
  have hpc := pc_runCommand h.consistent h.live hok hc.connected args n
  generalize s.runCommand env c client args n = t at hsome hpc ⊢
  unfold eraseRead
  rcases hpc with hpc | hpc
  · rw [hc.pc] at hpc
    rw [if_neg (by rw [hpc]; exact nofun), if_neg (by rw [← Option.not_isSome, hsome]; exact nofun)]
    exact .inr ⟨hpc, hsome⟩
  · rw [if_pos (.inr hpc)]
    exact .inl hpc

theorem reading_step (h : Tended cs s) (hm : Minds cs s e) : (step s e).pc ≠ .useAfterFree ∧
    ∀ c, (step s e).pc = .reading c → ((step s e).clients c).isSome = true ∧ c ∉ cs := by
  have hout := step_outcome s e
  have hsettled {t : Server} (hpc : t.pc = .idle ∨ t.pc = .sweeping ∨ t.pc = .terminated) :
      t.pc ≠ .useAfterFree ∧
        ∀ c, t.pc = .reading c → (t.clients c).isSome = true ∧ c ∉ cs := by
    rcases hpc with hpc | hpc | hpc
    all_goals
      rw [hpc]
      refine ⟨by decide, fun c hc ↦ ?_⟩
      cases hc
  generalize Server.step s e = t at hout ⊢
  cases hout with
  | accept fd hpc =>
    refine hsettled (.inl ?_)
    unfold handleAccept
    split <;> exact hpc
  | recv c data hpc =>
    unfold handleRecv
    split
    · exact hsettled (.inl hpc)
    · next hrecv =>
      rw [Bool.or_eq_true, not_or, Option.isNone_iff_eq_none] at hrecv
      refine ⟨by simp, fun d hd ↦ ?_⟩
      cases hd
      refine ⟨?_, hm⟩
      simp only [mapClient, update_self, Option.isSome_map]
      exact Option.isSome_iff_ne_none.mpr hrecv.2
  | hangup c hpc => exact hsettled (.inl ((pc_removeClient c s).trans hpc))
  | writable c sends hpc hc =>
    refine hsettled (.inl ((pc_trySend (s := { s with sends := sends }) ?_).trans hpc))
    rw [← Option.not_isNone, hc]
    rfl
  | process env c hpc =>
    have hproc := processCommand_processed env c s
    generalize s.processCommand env c = t at hproc ⊢
    cases hproc with
    | gone hc =>
      have hsome := (h.reading c hpc).1
      rw [hc] at hsome
      cases hsome
    | done client hc hn =>
      refine hsettled (.inl ?_)
      unfold finishRead
      dsimp only
      split
      · rfl
      · exact pc_trySend (s := { s with sends := env.sends, pc := .idle }) (h.reading c hpc).1
    | command client hc args n hp hn =>
      rcases h.command hm ⟨hpc, hc, hp, hn⟩ with hend | ⟨hread, hsome⟩
      · exact hsettled (.inr (.inr hend))
      · rw [hread]
        refine ⟨by simp, fun d hd ↦ ?_⟩
        cases hd
        exact ⟨hsome, (h.reading c hpc).2⟩
  | timeouts now sends hpc =>
    refine hsettled (.inl ((pc_settleWaits (s := { s with sends := sends }) _ _ _ hm ?_).trans hpc))
    exact fun wait hmem ↦ (h.live wait hmem).2
  | sweep now hpc =>
    unfold startSweep
    split
    · exact hsettled (.inr (.inl rfl))
    · exact hsettled (.inl hpc)
  | sweepNext hpc =>
    unfold continueSweep
    split
    · exact hsettled (.inl rfl)
    · exact hsettled (.inr (.inl ((pc_propagate _ _).trans hpc)))
  | rehash items => exact ⟨h.pc, h.reading⟩
  | writerSwap order => exact ⟨h.pc, h.reading⟩
  | writerStep result =>
    obtain ⟨hclients, -, hpc⟩ := writerStep_frame result s
    rw [hclients, hpc]
    exact ⟨h.pc, h.reading⟩
  | skip => exact ⟨h.pc, h.reading⟩

theorem mono {cs' : List ClientId} (h : Tended cs s) (hsub : cs' ⊆ cs) : Tended cs' s where
  consistent := h.consistent
  live := h.live
  pc := h.pc
  connected c hc := h.connected c (hsub hc)
  reading c hpc := ⟨(h.reading c hpc).1, fun hc ↦ (h.reading c hpc).2 (hsub hc)⟩

theorem step (h : Tended cs s) (hm : Minds cs s e) : Tended cs (step s e) where
  consistent := h.consistent.step e
  live := live_step h.consistent h.live (prompt hm)
  pc := (h.reading_step hm).1
  connected c hc := (step_churn (h.spares hm)).isSome (not_not.mpr hc) (h.connected c hc)
  reading := (h.reading_step hm).2

end Tended

end RedisLite.Server
