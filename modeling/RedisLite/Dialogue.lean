import RedisLite.Settlement

namespace RedisLite.Server

open Function

variable {s t : Server} {c d : ClientId} {e : Event}

inductive Turn
  | asked (args : List Bytes)
  | told (reply : Bytes)
  deriving DecidableEq

def settledTurns (c : ClientId) (s : Server) (e : Event) : List Turn :=
  ((answered s e).filter (·.client = c)).map (fun wait ↦
    .told (integerReply ((s.counted e).countCaughtUpReplicas wait.targetOffset)))

/-- What a step adds to the dialogue with `c`: a command that it takes from `c`, with its reply
unless that is put off, or replies that had been put off. -/
def turns (c : ClientId) (s : Server) (e : Event) : List Turn :=
  match s.taking e with
  | some ⟨env, d, _, args, _⟩ =>
    if d = c then .asked args :: ((s.answer env args).map .told).toList else settledTurns c s e
  | none => settledTurns c s e

def saying (dialogue : List Turn) : Bytes :=
  dialogue.flatMap (fun turn ↦
    match turn with
    | .asked _ => []
    | .told reply => reply)

theorem saying_append (h h' : List Turn) : saying (h ++ h') = saying h ++ saying h' :=
  List.flatMap_append

theorem saying_settledTurns (c : ClientId) (s : Server) (e : Event) :
    saying (settledTurns c s e) = waitBytes c ((answered s e).map (s.counted e).replyAt) := by
  unfold saying settledTurns waitBytes
  rw [List.filter_map, List.flatMap_map, List.flatMap_map]
  rfl

/-- `c` is told `said` between two states if it is known in the first, and nothing if it is
not. -/
structure Hears (c : ClientId) (said : Bytes) (s t : Server) : Prop where
  told : c < s.nextId → Told c said s t
  fresh : s.nextId ≤ c → s.clients c = none → t.outbound c = s.outbound c

theorem Heard.hears {replies : List WaitReply} {own : ClientId → Bytes} (h : Heard replies own s t)
    (c : ClientId) : Hears c (waitBytes c replies ++ own c) s t := ⟨h.told c, h.fresh c⟩

theorem Says.hears {replies : List WaitReply} {own : ClientId → Bytes} (h : Says replies own s t)
    (c : ClientId) : Hears c (waitBytes c replies ++ own c) s t := h.heard.hears c

theorem Says.trackWrite (args : List Bytes) (s : Server) : Says [] nothing s (s.trackWrite args) :=
  Says.nil_trans (t := { s with
    masterReplOffset := s.masterReplOffset + (Resp.encodeArray args).length
    replInfo := { s.replInfo with
      masterReplOffset := s.masterReplOffset + (Resp.encodeArray args).length }
    backlog := s.backlog.feed (Resp.encodeArray args) s.masterReplOffset })
    (.of_eq rfl rfl rfl rfl) (.propagate _ _)

theorem Says.addReplica (d : ClientId) (data : Bytes) (s : Server) :
    Says [] nothing s (s.addReplica d data) :=
  (Says.mapClient d (fun client ↦ { client with type := .replica }) (fun _ ↦ rfl) s).trans_nil
    (.of_eq rfl rfl rfl rfl)

section Command

variable {env : Env} {client : Client} {args : List Bytes} {n : ℕ}

theorem answer_wait (hn : commandName args = ascii "WAIT") (env : Env) (s : Server) :
    s.answer env args = if Command.executeWait args = [] then s.waitAnswer args
      else some (Command.executeWait args) := by
  have hname : (ascii "WAIT" == ascii "REPLICAOF") = false := by decide
  simp only [answer, execute_wait hn, hn, hname, beq_self_eq_true, Bool.true_and, Bool.false_and,
    List.isEmpty_iff, Bool.false_eq_true, if_false]

theorem says_wait (env : Env) (hc : Receives s d client args n) (ht : client.type = .regular)
    (hn : commandName args = ascii "WAIT") (c : ClientId) :
    Hears c (only d ((s.answer env args).getD []) c) s (step s (.process env)) := by
  have hsends : Says [] nothing s { s with sends := env.sends } := .of_eq rfl rfl rfl rfl
  have hall {replies : List WaitReply} {own : ClientId → Bytes} {t : Server}
      (h : Says replies own { s with sends := env.sends } t) :
      Hears c (waitBytes c replies ++ own c) s (t.eraseRead d n) :=
    ((hsends.nil_trans h).trans_nil (.eraseRead d n t)).hears c
  rw [step_wait env hc ht hn, answer_wait hn]
  by_cases hr : Command.executeWait args = []
  · rw [if_pos hr, if_pos hr]
    have h := handleWait_waited env.clock.steady d args { s with sends := env.sends }
    have hverdict : waitVerdict args { s with sends := env.sends } = s.waitVerdict args := rfl
    rw [waitAnswer, ← hverdict]
    generalize handleWait env.clock.steady d args { s with sends := env.sends } = t at h ⊢
    cases h with
    | replied count hv =>
      have h := hall (.replyWait d count s.masterReplOffset { s with sends := env.sends })
      rw [waitBytes_singleton] at h
      rw [hv]
      simpa only [only, nothing, List.append_nil, Option.getD_some] using h
    | refused response hv =>
      rw [hv]
      exact hall (.reply d response _)
    | ignored hv =>
      rw [hv, Option.getD_some, only_nil]
      exact hall (.refl _)
    | parked numNeeded timeoutMs hv =>
      have hparked : Says [] nothing { s with sends := env.sends } { propagateToReplicas
          (Resp.encodeArray Command.getack) { s with sends := env.sends } with
          pendingWaits := s.pendingWaits ++
            [⟨d, numNeeded, s.masterReplOffset, waitDeadline env.clock.steady timeoutMs⟩] } :=
        (Says.propagate _ _).trans_nil (.of_eq rfl rfl rfl rfl)
      rw [hv, Option.getD_none, only_nil]
      exact hall hparked
  · rw [if_neg hr, if_neg hr]
    exact hall (.appendReply d _ _)

theorem answer_other (hwait : commandName args ≠ ascii "WAIT")
    (hreplicaof : commandName args ≠ ascii "REPLICAOF") (env : Env) (s : Server) :
    s.answer env args =
      some (Command.execute env.clock.steady args s.store s.replInfo false).1 := by
  simp [answer, hwait, hreplicaof]

theorem says_other (env : Env) (hc : Receives s d client args n) (ht : client.type = .regular)
    (hwait : commandName args ≠ ascii "WAIT") (hreplicaof : commandName args ≠ ascii "REPLICAOF") :
    Says [] (only d ((s.answer env args).getD [])) s (step s (.process env)) := by
  rw [hc.step_eq env, runCommand_regular env d args n ht, answer_other hwait hreplicaof,
    Option.getD_some]
  generalize (Command.execute env.clock.steady args s.store s.replInfo false).2 = store
  generalize (Command.execute env.clock.steady args s.store s.replInfo false).1 = response
  have hload : Says [] nothing s { s with sends := env.sends, store := store } :=
    .of_eq rfl rfl rfl rfl
  have happend := hload.nil_trans (Says.appendReply d response _)
  have h := handleRegular_handled env d args response { s with sends := env.sends, store := store }
  generalize handleRegular env d args response { s with sends := env.sends, store := store } = t
    at h ⊢
  cases h with
  | write => exact (happend.trans_nil (.trackWrite args _)).trans_nil (.eraseRead d n _)
  | wait _ hn => exact absurd hn hwait
  | replicaof _ hn => exact absurd hn hreplicaof
  | psync _ _ hr =>
    rw [hr, only_nil]
    unfold handlePsync
    dsimp only
    split <;> exact (hload.nil_trans (.addReplica d _ _)).trans_nil (.eraseRead d n _)
  | plain => exact happend.trans_nil (.eraseRead d n _)

/-- What a command of a regular client lets `c` hear: the waits of `c` that it settles, and its
own answer if it came from `c`. -/
theorem hears_regular (hl : Live s) (hp : Prompt s (.process env))
    (hc : Receives s d client args n) (ht : client.type = .regular) (c : ClientId) :
    Hears c (waitBytes c ((answered s (.process env)).map s.replyAt) ++
      only d ((s.answer env args).getD []) c) s (step s (.process env)) := by
  have hnone (h : commandName args ≠ ascii "REPLICAOF") : answered s (.process env) = [] := by
    rw [answered_regular env hc ht, stepsDown_of_name h]
    rfl
  by_cases hwait : commandName args = ascii "WAIT"
  · rw [hnone (by rw [hwait]; decide)]
    exact says_wait env hc ht hwait c
  · by_cases hreplicaof : commandName args = ascii "REPLICAOF"
    · exact (heard_settled hl hp hc ht hreplicaof).hears c
    · rw [hnone hreplicaof]
      exact (says_other env hc ht hwait hreplicaof).hears c

theorem says_link (env : Env) (hc : Receives s d client args n) (ht : client.type = .masterConn) :
    ∃ response, Says [] (only d response) s (step s (.process env)) := by
  rw [hc.step_eq env, runCommand_link env d args n ht]
  generalize (Command.execute env.clock.steady args s.store s.replInfo true).2 = store
  generalize (Command.execute env.clock.steady args s.store s.replInfo true).1 = response
  have hload : Says [] nothing s { s with
      sends := env.sends
      store := store
      replInfo := { s.replInfo with masterReplOffset := s.replInfo.masterReplOffset + n } } :=
    .of_eq rfl rfl rfl rfl
  have hsilent : Says [] (only d []) s { s with
      sends := env.sends
      store := store
      replInfo := { s.replInfo with masterReplOffset := s.replInfo.masterReplOffset + n } } := by
    rw [only_nil]
    exact hload
  unfold handleMasterRead
  dsimp only
  split
  · split
    · exact ⟨response, (hload.nil_trans (.appendReply d response _)).trans_nil (.eraseRead d n _)⟩
    · exact ⟨[], hsilent.trans_nil (.eraseRead d n _)⟩
  · exact ⟨[], hsilent.trans_nil (.eraseRead d n _)⟩

end Command

/-- A step that serves the regular client `c`: it takes no command from `c` while a `WAIT` of `c`
is parked; no send fails while parked waits are answered; and the writer thread does not send
from the queue of a replica that is gone when `c` has got its descriptor. -/
@[mk_iff] structure Serves (c : ClientId) (s : Server) (e : Event) : Prop where
  regular : ∀ client ∈ s.clients c, client.type = .regular
  patient : ∀ tk ∈ s.taking e, tk.c = c → ∀ wait ∈ s.pendingWaits, wait.client ≠ c
  prompt : Prompt s e
  foreign : e.result ≠ none → ∀ d ∈ s.snapshot.head?, ∀ queue ∈ s.replQueues d,
    queue.removed = true → s.fds queue.fd ≠ some c

instance (c : ClientId) (s : Server) (e : Event) : Decidable (Serves c s e) :=
  decidable_of_iff' _ (serves_iff c s e)

theorem hears_writerStep (hcons : Consistent s) {result : SendResult}
    (hs : Serves c s (.writerStep result)) : Hears c [] s (s.writerStep result) := by
  have hquiet {t : Server} (hc : t.clients = s.clients) (hw : t.wire c = s.wire c) :
      Hears c [] s t :=
    ⟨fun _ ↦ .of_eq (by rw [hc]) hw, fun _ _ ↦ outbound_congr (by rw [hc]) hw⟩
  unfold writerStep
  split
  · exact hquiet rfl rfl
  · next d rest hsnap =>
    split
    · exact hquiet rfl rfl
    · next queue hq =>
      split
      · split <;> exact hquiet rfl rfl
      · split
        · exact hquiet rfl rfl
        · split
          · next target n hfd =>
            refine hquiet rfl (update_of_ne ?_ ..)
            rintro rfl
            cases hr : queue.removed with
            | true =>
              exact hs.foreign nofun d (by rw [hsnap]; rfl) queue hq hr hfd
            | false =>
              -- a registered queue sends to its own replica
              obtain ⟨replica, hreplica, htype⟩ := (hcons.replica_iff d).mp
                ((hcons.queue_iff d).mpr ⟨queue, hq, hr⟩)
              rw [hcons.queue_fd d queue replica hq hreplica hr, hcons.fd d replica hreplica] at hfd
              cases hfd
              rw [hs.regular replica hreplica] at htype
              cases htype
          · exact hquiet rfl rfl
          · exact hquiet rfl rfl

theorem hears_accept (fd : ℕ) : Hears c [] s (s.handleAccept fd) := by
  unfold handleAccept
  split
  · exact (Says.refl s).hears c
  · refine ⟨fun hlt ↦ .of_eq (congrArg (Option.map _) (update_of_ne hlt.ne ..)) rfl,
      fun hle hnone ↦ ?_⟩
    by_cases hnew : c = s.nextId
    · subst hnew
      exact outbound_newClient (by rw [hnone]; rfl) (update_self ..) rfl rfl
    · exact outbound_congr (congrArg (Option.map _) (update_of_ne hnew ..)) rfl

theorem hears_silent
    (hwriter : ∀ result, e = .writerStep result → Hears c [] s (s.writerStep result))
    (ht : s.taking e = none) (he : ∀ now sends, e = .timeouts now sends → s.pc ≠ .idle) :
    Hears c [] s (step s e) := by
  have hsaid {t : Server} (h : Says [] nothing s t) : Hears c [] s t := h.hears c
  have h := step_outcome s e
  generalize step s e = t at h ⊢
  cases h with
  | accept fd => exact hears_accept fd
  | recv d data =>
    unfold handleRecv
    split
    · exact hsaid (.refl s)
    · exact hsaid ((Says.mapClient d (fun client ↦ { client with readBuf := client.readBuf ++ data })
        (fun _ ↦ rfl) s).trans_nil (.of_eq rfl rfl rfl rfl))
  | hangup d => exact hsaid (.removeClient d s)
  | writable d sends =>
    have hsends : Says [] nothing s { s with sends := sends } := .of_eq rfl rfl rfl rfl
    exact hsaid (hsends.nil_trans (.trySend d _))
  | process env d hpc =>
    have h := processCommand_processed env d s
    generalize s.processCommand env d = t at h ⊢
    cases h with
    | gone => exact hsaid (.of_eq rfl rfl rfl rfl)
    | done client =>
      have hidle : Says [] nothing s { s with sends := env.sends, pc := .idle } :=
        .of_eq rfl rfl rfl rfl
      unfold finishRead
      dsimp only
      split
      · exact hsaid hidle
      · exact hsaid (hidle.nil_trans (.trySend d _))
    | command client hc args n hparse hn =>
      have hreceives : Receives s d client args n := ⟨hpc, hc, hparse, hn⟩
      rw [hreceives.taking_eq env] at ht
      cases ht
  | timeouts now sends hpc => exact absurd hpc (he now sends rfl)
  | sweep now =>
    unfold startSweep
    split <;> exact hsaid (.of_eq rfl rfl rfl rfl)
  | sweepNext =>
    unfold continueSweep
    split
    · exact hsaid (.of_eq rfl rfl rfl rfl)
    · next key keys _ =>
      have hkey : Says [] nothing s (s.sweepKey key) :=
        Says.nil_trans (t := { s with
          masterReplOffset := s.masterReplOffset + (Resp.encodeArray [ascii "DEL", key]).length
          backlog := s.backlog.feed (Resp.encodeArray [ascii "DEL", key]) s.masterReplOffset })
          (.of_eq rfl rfl rfl rfl) (.propagate _ _)
      exact hsaid (hkey.trans_nil (.of_eq rfl rfl rfl rfl))
  | rehash items => exact hsaid (.of_eq rfl rfl rfl rfl)
  | writerSwap order => exact hsaid (.of_eq rfl rfl rfl rfl)
  | writerStep result => exact hwriter result rfl
  | skip => exact hsaid (.refl s)

theorem waitBytes_of_ne {waits : List WaitState} (h : ∀ wait ∈ waits, wait.client ≠ c) (s : Server) :
    waitBytes c (waits.map s.replyAt) = [] := by
  have hnone : (waits.map s.replyAt).filter (·.client = c) = [] := by
    refine List.filter_eq_nil_iff.mpr (fun reply hmem ↦ ?_)
    obtain ⟨wait, hwait, rfl⟩ := List.mem_map.mp hmem
    exact fun hc ↦ h wait hwait (of_decide_eq_true hc)
  rw [waitBytes, hnone, List.flatMap_nil]

theorem saying_asked (args : List Bytes) (reply : Option Bytes) :
    saying (.asked args :: (reply.map .told).toList) = reply.getD [] := by
  cases reply with
  | none => rfl
  | some reply => exact List.append_nil reply

theorem only_of_ne (h : d ≠ c) (response : Bytes) : only d response c = [] := if_neg (Ne.symm h)

/-- A step that takes no command from `c`, or takes one that a replica sends, lets it hear the
replies to its parked waits. -/
theorem hears_settled (hl : Live s) (hp : Prompt s e)
    (hwriter : ∀ result, e = .writerStep result → Hears c [] s (s.writerStep result))
    (hother : ∀ tk, s.taking e = some tk → tk.c = c → tk.client.type = .replica) :
    Hears c (saying (settledTurns c s e)) s (step s e) := by
  rw [saying_settledTurns]
  cases ht : s.taking e with
  | some tk =>
    obtain ⟨env, d, client, args, n⟩ := tk
    obtain ⟨rfl, hc⟩ := receives_of_taking ht
    have hne (htype : client.type ≠ .replica) : d ≠ c := fun hd ↦ htype (hother _ ht hd)
    cases htype : client.type with
    | masterConn =>
      have hnone : answered s (.process env) = [] := by
        refine List.filter_eq_nil_iff.mpr (fun wait _ ↦ ?_)
        simp [due, hc.taking_eq, htype]
      obtain ⟨response, h⟩ := says_link env hc htype
      have h := h.hears c
      rw [only_of_ne (hne (by rw [htype]; decide))] at h
      rw [hnone]
      exact h
    | replica =>
      have h := (leaves_replica hl hp hc htype).2.hears c
      rwa [nothing, List.append_nil] at h
    | regular =>
      have hcounted : s.counted (.process env) = s := by
        simp only [counted, hc.taking_eq, htype]
      have h := hears_regular hl hp hc htype c
      rw [only_of_ne (hne (by rw [htype]; decide)), List.append_nil] at h
      rw [hcounted]
      exact h
  | none =>
    by_cases he : ∃ now sends, e = .timeouts now sends ∧ s.pc = .idle
    · obtain ⟨now, sends, rfl, hpc⟩ := he
      have h := (settled_timeouts hl hpc hp).2.hears c
      rw [nothing, List.append_nil] at h
      exact h
    · have he' : ∀ now sends, e = .timeouts now sends → s.pc ≠ .idle :=
        fun now sends h hpc ↦ he ⟨now, sends, h, hpc⟩
      have hnone : answered s e = [] := by
        rw [answered, due_of_idle ht he']
        exact List.filter_eq_nil_iff.mpr (fun _ _ ↦ Bool.false_ne_true)
      rw [hnone]
      exact hears_silent hwriter ht he'

/-- Every step that serves `c` lets it hear the replies of its own turns, in their order, and
nothing else. -/
theorem hears_step (hcons : Consistent s) (hl : Live s) (hs : Serves c s e) :
    Hears c (saying (turns c s e)) s (step s e) := by
  have hsettled (hother : ∀ tk, s.taking e = some tk → tk.c ≠ c) :
      Hears c (saying (settledTurns c s e)) s (step s e) := by
    refine hears_settled hl hs.prompt ?_ (fun tk htk hc ↦ absurd hc (hother tk htk))
    rintro result rfl
    exact hears_writerStep hcons hs
  cases ht : s.taking e with
  | some tk =>
    obtain ⟨env, d, client, args, n⟩ := tk
    obtain ⟨rfl, hc⟩ := receives_of_taking ht
    simp only [turns, ht]
    by_cases hd : d = c
    · subst hd
      have h := hears_regular hl hs.prompt hc (hs.regular client hc.connected) d
      have hforeign : ∀ wait ∈ answered s (.process env), wait.client ≠ d :=
        fun wait hmem ↦ hs.patient _ ht rfl wait (List.mem_of_mem_filter hmem)
      have hnone := waitBytes_of_ne hforeign s
      rw [if_pos rfl, saying_asked]
      rwa [hnone, only, if_pos rfl] at h
    · rw [if_neg hd]
      refine hsettled (fun tk htk hc ↦ hd ?_)
      rw [ht, Option.some.injEq] at htk
      rw [← hc, ← htk]
  | none =>
    simp only [turns, ht]
    refine hsettled (fun tk htk ↦ ?_)
    rw [ht] at htk
    cases htk

end RedisLite.Server
