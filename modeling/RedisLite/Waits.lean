import RedisLite.Parked

namespace RedisLite.Server

variable {s : Server} {c : ClientId}

def acknowledge (c : ClientId) (n : ℤ) (s : Server) : Server :=
  s.mapClient c (fun client ↦ { client with ackOffset := n })

def stepsDown (args : List Bytes) (s : Server) : Bool :=
  s.replInfo.role == .master && commandName args == ascii "REPLICAOF" &&
    Command.executeReplicaof args == [] && s.redirects args

/-- The state in which a step counts the replicas: an acknowledgement is stored first. -/
def counted (s : Server) (e : Event) : Server :=
  match s.taking e with
  | some ⟨_, c, client, args, _⟩ =>
    match client.type, ackOf args with
    | .replica, some n => s.acknowledge c n
    | _, _ => s
  | none => s

/-- Whether a step answers a parked wait: its deadline has passed, an acknowledgement has just
come in and is enough, or the server gives up the master role. -/
def due (s : Server) (e : Event) (wait : WaitState) : Bool :=
  match e, s.pc with
  | .timeouts now _, .idle => decide (wait.deadline ≤ now)
  | _, _ =>
    match s.taking e with
    | some ⟨_, _, client, args, _⟩ =>
      match client.type, ackOf args with
      | .replica, some _ =>
        decide (wait.numNeeded ≤ (s.counted e).countCaughtUpReplicas wait.targetOffset)
      | .regular, _ => s.stepsDown args
      | _, _ => false
    | none => false

def parkedWait (now : TimePoint) (c : ClientId) (args : List Bytes) (s : Server) :
    Option WaitState :=
  match s.waitVerdict args with
  | .parked numNeeded timeoutMs =>
    some ⟨c, numNeeded, s.masterReplOffset, waitDeadline now timeoutMs⟩
  | _ => none

def parked (s : Server) (e : Event) : List WaitState :=
  match s.taking e with
  | some ⟨env, c, client, args, _⟩ =>
    if client.type = .regular ∧ commandName args = ascii "WAIT" ∧ Command.executeWait args = [] then
      (s.parkedWait env.clock.steady c args).toList
    else []
  | none => []

def answered (s : Server) (e : Event) : List WaitState := s.pendingWaits.filter (due s e)

/-- The parked waits whose client a step removes before they are answered. -/
def abandoned (s : Server) (e : Event) : List WaitState :=
  s.pendingWaits.filter (fun wait ↦ !due s e wait && ((step s e).clients wait.client).isNone)

def Event.sends : Event → List SendResult
  | .writable _ sends => sends
  | .process env => env.sends
  | .timeouts _ sends => sends
  | _ => []

def Event.result : Event → Option SendResult
  | .writerStep result => some result
  | _ => none

/-- No send fails for good in a step that answers parked waits. -/
def Prompt (s : Server) (e : Event) : Prop := answered s e ≠ [] → NoError e.sends

section Command

variable {client : Client} {args : List Bytes} {n : ℕ}

theorem step_wait (env : Env) (hc : Receives s c client args n) (ht : client.type = .regular)
    (hn : commandName args = ascii "WAIT") : step s (.process env) =
      (if Command.executeWait args = [] then
        handleWait env.clock.steady c args { s with sends := env.sends }
      else appendReply c (Command.executeWait args) { s with sends := env.sends }).eraseRead c n := by
  have hname : (ascii "WAIT" == ascii "REPLICAOF") = false ∧
      (ascii "WAIT" == ascii "PSYNC") = false ∧
      Command.isWriteCommand (ascii "WAIT") = false := by decide
  rw [hc.step_eq env, runCommand_regular env c args n ht, execute_wait hn,
    Command.execute_of_not_write _ _ _ _ (isWrite_of_wait hn)]
  simp only [handleRegular, hn, hname.1, hname.2.1, hname.2.2, Bool.false_and, Bool.false_eq_true,
    if_false, beq_self_eq_true, Bool.true_and, List.isEmpty_iff]

theorem handleReplicaRead_eq (c : ClientId) (args : List Bytes) (s : Server) :
    s.handleReplicaRead c args =
      match ackOf args with
      | some n => (s.acknowledge c n).resolvePendingWaits
      | none => s := by
  rcases args with _ | ⟨name, _ | ⟨sub, _ | ⟨offset, rest⟩⟩⟩
  case cons.cons.cons =>
    simp only [handleReplicaRead, ackOf]
    split
    · cases stoll offset <;> rfl
    · rfl
  all_goals rfl

theorem drops_loaded (hl : Live s) (sends : List SendResult) (store : Store) :
    Drops s { s with sends := sends, store := store } :=
  .of_same hl ⟨rfl, fun _ ↦ rfl, rfl, fun _ ↦ rfl, rfl, rfl, .inl⟩ rfl

theorem stepsDown_of_name (h : commandName args ≠ ascii "REPLICAOF") (s : Server) :
    s.stepsDown args = false := by
  simp [stepsDown, h]

theorem leaves_wait (hl : Live s) (env : Env) (hc : Receives s c client args n)
    (ht : client.type = .regular) (hn : commandName args = ascii "WAIT") :
    Leaves (fun _ ↦ false) (parked s (.process env)) s (step s (.process env)) ∧
      ∀ wait ∈ parked s (.process env), wait.client = c ∧
        ((step s (.process env)).clients c).isSome = true := by
  have hload : Drops s { s with sends := env.sends } := drops_loaded hl env.sends s.store
  have hload' := hload.live hl
  rw [step_wait env hc ht hn, parked, hc.taking_eq]
  dsimp only
  by_cases hr : Command.executeWait args = []
  · rw [if_pos hr, if_pos ⟨ht, hn, hr⟩]
    have h := handleWait_waited env.clock.steady c args { s with sends := env.sends }
    have hverdict : waitVerdict args { s with sends := env.sends } = s.waitVerdict args := rfl
    generalize handleWait env.clock.steady c args { s with sends := env.sends } = t at h ⊢
    rw [parkedWait, ← hverdict]
    cases h with
    | replied count hv =>
      have h := hload.trans hl (.replyWait hload' c count s.masterReplOffset)
      rw [hv]
      exact ⟨h.trans hl (.eraseRead (h.live hl) c n), nofun⟩
    | refused response hv =>
      have h := hload.trans hl (.reply hload' c response)
      rw [hv]
      exact ⟨h.trans hl (.eraseRead (h.live hl) c n), nofun⟩
    | ignored hv =>
      rw [hv]
      exact ⟨hload.trans hl (.eraseRead hload' c n), nofun⟩
    | parked numNeeded timeoutMs hv =>
      rw [hv]
      dsimp only
      generalize hwait : (⟨c, numNeeded, s.masterReplOffset,
        waitDeadline env.clock.steady timeoutMs⟩ : WaitState) = wait
      have hprop := propagate_same (Resp.encodeArray Command.getack) { s with sends := env.sends }
      have hsame : SameClients s ({ propagateToReplicas (Resp.encodeArray Command.getack)
          { s with sends := env.sends } with
          pendingWaits := s.pendingWaits ++ [wait] } : Server) :=
        ⟨hprop.replicas, hprop.queues, hprop.masterClient, hprop.clients, hprop.fds, hprop.nextId,
          hprop.role⟩
      refine ⟨.of_same hl (hsame.trans (eraseRead_same c n _)) (eraseRead_waits c n _), ?_⟩
      intro wait' hmem
      rw [Option.toList_some, List.mem_singleton] at hmem
      rw [hmem, (hsame.trans (eraseRead_same c n _)).isSome_eq, hc.connected]
      exact ⟨hwait ▸ rfl, rfl⟩
  · rw [if_neg hr, if_neg (fun h ↦ hr h.2.2)]
    have h : Drops s (appendReply c (Command.executeWait args) { s with sends := env.sends }) :=
      hload.trans hl (.of_same hload' (appendReply_same c _ _) rfl)
    exact ⟨h.trans hl (.eraseRead (h.live hl) c n), nofun⟩

def ownReply (s : Server) (e : Event) : ClientId → Bytes :=
  match s.taking e with
  | some ⟨env, c, client, args, _⟩ =>
    if client.type = .regular then only c ((s.answer env args).getD []) else nothing
  | none => nothing

/-- A step that answers parked waits gives each of them its one integer. -/
def Replies (s : Server) (e : Event) : Prop :=
  answered s e ≠ [] →
    Heard ((answered s e).map (s.counted e).replyAt) (s.ownReply e) s (step s e)

theorem due_regular (env : Env) (hc : Receives s c client args n) (ht : client.type = .regular)
    (wait : WaitState) : due s (.process env) wait = s.stepsDown args := by
  simp only [due, hc.taking_eq, ht]

theorem answered_regular (env : Env) (hc : Receives s c client args n)
    (ht : client.type = .regular) :
    answered s (.process env) = if s.stepsDown args then s.pendingWaits else [] := by
  rw [answered, funext (due_regular env hc ht)]
  cases s.stepsDown args with
  | true => rw [if_pos rfl, List.filter_true]
  | false => exact List.filter_eq_nil_iff.mpr (fun _ _ ↦ Bool.false_ne_true)

theorem leaves_replicaof (hl : Live s) {env : Env} (hp : Prompt s (.process env))
    (hc : Receives s c client args n) (ht : client.type = .regular)
    (hn : commandName args = ascii "REPLICAOF") :
    Leaves (fun _ ↦ s.stepsDown args) [] s (step s (.process env)) := by
  have hload : Drops s { s with sends := env.sends } := drops_loaded hl env.sends s.store
  have hload' := hload.live hl
  have hkept {t : Server} (hno : s.stepsDown args = false)
      (h : Drops { s with sends := env.sends } t) :
      Leaves (fun _ ↦ s.stepsDown args) [] s (t.eraseRead c n) := by
    rw [hno]
    have h := hload.trans hl h
    exact h.trans hl (.eraseRead (h.live hl) c n)
  rw [step_replicaof env hc ht hn]
  by_cases hr : Command.executeReplicaof args = []
  · rw [if_pos hr]
    have hdown : s.stepsDown args = (s.replInfo.role == .master && s.redirects args) := by
      simp [stepsDown, hn, hr]
    cases htarget : replicaofTarget args with
    | none =>
      have hno : s.stepsDown args = false := by simp [hdown, redirects, htarget]
      have h := handleReplicaof_demoted env c args { s with sends := env.sends }
      generalize handleReplicaof env c args { s with sends := env.sends } = t at h ⊢
      cases h with
      | noOne => exact hkept hno (.handleReplicaofNoOne hload' env.replid c)
      | refused response => exact hkept hno (.reply hload' c response)
      | ignored => exact hkept hno (.refl hload')
      | setMaster host port h =>
        rw [htarget] at h
        cases h
    | some target =>
      obtain ⟨host, port⟩ := target
      rw [handleReplicaof_of_target htarget]
      by_cases hsame : s.replicaof = some (host, port)
      · have hno : s.stepsDown args = false := by simp [hdown, redirects, htarget, hsame]
        have hreply : handleReplicaofSetMaster env.clock env.peer c host port
            { s with sends := env.sends } = reply c
              (ascii "+OK Already connected to specified master\r\n")
              { s with sends := env.sends } := if_pos hsame
        rw [hreply]
        exact hkept hno (.reply hload' c _)
      · have hdown : s.stepsDown args = (s.replInfo.role == .master) := by
          simp [hdown, redirects, htarget, hsame]
        have hok : s.replInfo.role = .master → s.pendingWaits ≠ [] → NoError env.sends := by
          intro hm hne
          refine hp ?_
          rw [answered_regular env hc ht, hdown, hm]
          exact hne
        have h := Leaves.setMaster (s := { s with sends := env.sends }) hload' hok hsame env.clock
          env.peer c
        have h := hload.trans_leaves hl h
        rw [hdown]
        exact h.trans_drops hl (.eraseRead (h.live hl (by simp)) c n)
  · have hno : s.stepsDown args = false := by simp [stepsDown, hr]
    rw [if_neg hr]
    exact hkept hno (.of_same hload' (appendReply_same c _ _) rfl)

/-- What is heard around a `REPLICAOF`: the waits that it answers, then its own reply. -/
theorem heard_settled (hl : Live s) {env : Env} (hp : Prompt s (.process env))
    (hc : Receives s c client args n) (ht : client.type = .regular)
    (hn : commandName args = ascii "REPLICAOF") :
    Heard ((answered s (.process env)).map s.replyAt) (only c ((s.answer env args).getD [])) s
      (step s (.process env)) := by
  have hanswered := answered_regular env hc ht
  by_cases hdown : s.stepsDown args = true
  · rw [if_pos hdown] at hanswered
    have hok : s.replInfo.role = .master → s.pendingWaits ≠ [] → NoError env.sends := by
      intro _ hne
      refine hp ?_
      rw [hanswered]
      exact hne
    simp only [stepsDown, Bool.and_eq_true, beq_iff_eq] at hdown
    have hload : Live { s with sends := env.sends } :=
      (drops_loaded hl env.sends s.store).live hl
    have hleave := (leaveMasterRole_spec hload hok).2 hdown.1.1.1
    have h := heard_replicaof env hleave hc ht hn
    rw [if_pos ⟨hdown.1.2, hdown.2⟩] at h
    rw [hanswered]
    exact h
  · rw [if_neg hdown] at hanswered
    rw [hanswered]
    by_cases hr : s.replInfo.role = .master
    · obtain ⟨replies, hleave⟩ := Says.leaveMasterRole { s with sends := env.sends }
      have h := heard_replicaof env hleave hc ht hn
      have hstay : ¬(Command.executeReplicaof args = [] ∧ s.redirects args = true) :=
        fun h ↦ hdown (by simp [stepsDown, hr, hn, h.1, h.2])
      rwa [if_neg hstay] at h
    · have hleave : Says [] nothing { s with sends := env.sends }
          (leaveMasterRole { s with sends := env.sends }) := by
        rw [leaveMasterRole, if_neg hr]
        exact .refl _
      have h := heard_replicaof env hleave hc ht hn
      rwa [ite_self] at h

theorem leaves_replica (hl : Live s) {env : Env} (hp : Prompt s (.process env))
    (hc : Receives s c client args n) (ht : client.type = .replica) :
    Leaves (due s (.process env)) [] s (step s (.process env)) ∧
      Says ((answered s (.process env)).map (s.counted (.process env)).replyAt) nothing s
        (step s (.process env)) := by
  rw [hc.step_eq env, runCommand_replica env c args n ht, handleReplicaRead_eq]
  generalize (Command.execute env.clock.steady args s.store s.replInfo false).2 = store
  have hload := drops_loaded hl env.sends store
  have hstore : Says [] nothing s { s with sends := env.sends, store := store } :=
    .of_eq rfl rfl rfl rfl
  cases hack : ackOf args with
  | none =>
    have hdue (wait : WaitState) : due s (.process env) wait = false := by
      simp only [due, hc.taking_eq, ht, hack]
    have hnone : answered s (.process env) = [] := List.filter_eq_nil_iff.mpr (by simp [hdue])
    rw [hnone, funext hdue]
    exact ⟨hload.trans hl (.eraseRead (hload.live hl) c n), hstore.nil_trans (.eraseRead c n _)⟩
  | some m =>
    have hcounted : s.counted (.process env) = s.acknowledge c m := by
      simp only [counted, hc.taking_eq, ht, hack]
    have hdue (wait : WaitState) : due s (.process env) wait = decide (wait.numNeeded ≤
        (s.acknowledge c m).countCaughtUpReplicas wait.targetOffset) := by
      simp only [due, hcounted, hc.taking_eq, ht, hack]
    have hack : Drops s (acknowledge c m { s with sends := env.sends, store := store }) :=
      hload.trans hl (.of_same (hload.live hl) (mapClient_same c
        (fun client ↦ { client with ackOffset := m }) (fun _ ↦ rfl) _) rfl)
    have hok : (∃ wait ∈ s.pendingWaits, decide (wait.numNeeded ≤
        (s.acknowledge c m).countCaughtUpReplicas wait.targetOffset) = true) →
          NoError env.sends := by
      rintro ⟨wait, hmem, h⟩
      refine hp (List.ne_nil_of_mem (List.mem_filter.mpr ⟨hmem, ?_⟩))
      rw [hdue]
      exact h
    have hsettle := Leaves.settle (hack.live hl)
      (fun wait caughtUp ↦ decide (wait.numNeeded ≤ caughtUp)) hok
    obtain ⟨-, -, hsaid⟩ := settleWaits_spec
      (fun wait caughtUp ↦ decide (wait.numNeeded ≤ caughtUp)) [] s.pendingWaits
      (acknowledge c m { s with sends := env.sends, store := store })
      (fun w hw ↦ (hack.live hl w hw).2) hok
    have hall := hack.trans_leaves hl hsettle
    have hmap : Says [] nothing { s with sends := env.sends, store := store }
        (acknowledge c m { s with sends := env.sends, store := store }) :=
      .mapClient c (fun client ↦ { client with ackOffset := m }) (fun _ ↦ rfl) _
    rw [hcounted, answered, funext hdue]
    exact ⟨hall.trans_drops hl (.eraseRead (hall.live hl (by simp)) c n),
      hstore.nil_trans (hmap.nil_trans (hsaid.trans_nil (.eraseRead c n _)))⟩

theorem leaves_other (hl : Live s) (env : Env) (hc : Receives s c client args n)
    (ht : client.type = .regular) (hwait : commandName args ≠ ascii "WAIT")
    (hreplicaof : commandName args ≠ ascii "REPLICAOF") : Drops s (step s (.process env)) := by
  rw [hc.step_eq env, runCommand_regular env c args n ht]
  generalize (Command.execute env.clock.steady args s.store s.replInfo false).2 = store
  generalize (Command.execute env.clock.steady args s.store s.replInfo false).1 = response
  have hload := drops_loaded hl env.sends store
  have hload' := hload.live hl
  have happend : Drops s (appendReply c response { s with sends := env.sends, store := store }) :=
    hload.trans hl (.of_same hload' (appendReply_same c response _) rfl)
  have herase {t : Server} (h : Drops s t) : Drops s (t.eraseRead c n) :=
    h.trans hl (.eraseRead (h.live hl) c n)
  have h := handleRegular_handled env c args response { s with sends := env.sends, store := store }
  generalize handleRegular env c args response { s with sends := env.sends, store := store } = t
    at h ⊢
  cases h with
  | write => exact herase (happend.trans hl (.trackWrite (happend.live hl) args))
  | wait _ hn => exact absurd hn hwait
  | replicaof _ hn => exact absurd hn hreplicaof
  | psync =>
    unfold handlePsync
    dsimp only
    split
    · exact herase (hload.trans hl (.addReplica hload' c _))
    · exact herase (hload.trans hl (.addReplica hload' c _))
  | plain => exact herase happend

theorem leaves_link (hl : Live s) (env : Env) (hc : Receives s c client args n)
    (ht : client.type = .masterConn) : Drops s (step s (.process env)) := by
  rw [hc.step_eq env, runCommand_link env c args n ht]
  generalize (Command.execute env.clock.steady args s.store s.replInfo true).2 = store
  generalize (Command.execute env.clock.steady args s.store s.replInfo true).1 = response
  have hload := drops_loaded hl env.sends store
  have h := hload.trans hl (.handleMasterRead (hload.live hl) c args response n)
  exact h.trans hl (.eraseRead (h.live hl) c n)

end Command

end RedisLite.Server
