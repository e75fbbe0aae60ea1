import RedisLite.Handover
import RedisLite.Lib.Progress
import Mathlib.Algebra.Order.BigOperators.Group.List

namespace RedisLite.Server

open Function Lib.Run
open scoped List

variable {s t : Server} {c d : ClientId} {e : Event} {queue : ReplicaWriteQueue}

def post (s : Server) : List ClientId × Bool := (s.snapshot, s.sending)

@[simp] theorem post_appendReply (c : ClientId) (response : Bytes) (s : Server) :
    (s.appendReply c response).post = s.post := rfl

@[simp] theorem post_removeClient (c : ClientId) (s : Server) :
    (s.removeClient c).post = s.post := by
  unfold removeClient
  split <;> rfl

@[simp] theorem post_trySend (c : ClientId) (s : Server) : (s.trySend c).post = s.post := by
  unfold trySend
  split
  · rfl
  · simp only []
    split
    · rw [post_removeClient]
      rfl
    · rfl

@[simp] theorem post_reply (c : ClientId) (response : Bytes) (s : Server) :
    (s.reply c response).post = s.post := by
  rw [reply, post_trySend, post_appendReply]

@[simp] theorem post_replyWait (c : ClientId) (count : ℕ) (target : ℤ) (s : Server) :
    (s.replyWait c count target).post = s.post := by
  rw [replyWait, post_reply]
  rfl

@[simp] theorem post_settleWaits (due : WaitState → ℕ → Bool) (kept waits : List WaitState)
    (s : Server) : (settleWaits due kept waits s).post = s.post := by
  induction waits generalizing kept s with
  | nil => rfl
  | cons wait waits ih =>
    unfold settleWaits
    simp only []
    split
    · split
      · exact post_replyWait ..
      · rw [ih, post_replyWait]
    · exact ih _ _

theorem post_disconnect (cs : List ClientId) (s : Server) :
    (cs.foldl (fun s c ↦ s.removeClient c) s).post = s.post := by
  induction cs generalizing s with
  | nil => rfl
  | cons c cs ih => rw [List.foldl_cons, ih, post_removeClient]

@[simp] theorem post_removeMaster (s : Server) : s.removeMaster.post = s.post := by
  unfold removeMaster
  split
  · rfl
  · exact post_removeClient ..

@[simp] theorem post_propagate (data : Bytes) (s : Server) :
    (s.propagateToReplicas data).post = s.post := by
  unfold propagateToReplicas
  split <;> rfl

@[simp] theorem post_eraseRead (c : ClientId) (n : ℕ) (s : Server) :
    (s.eraseRead c n).post = s.post := by
  unfold eraseRead
  split
  · rfl
  · split <;> rfl

@[simp] theorem post_finishRead (c : ClientId) (client : Client) (s : Server) :
    (s.finishRead c client).post = s.post := by
  unfold finishRead
  simp only []
  split
  · rfl
  · exact post_trySend ..

theorem post_handleWait (now : TimePoint) (c : ClientId) (args : List Bytes) (s : Server) :
    (s.handleWait now c args).post = s.post := by
  unfold handleWait
  split
  · split
    · split
      · exact post_replyWait ..
      · simp only []
        split
        · exact post_replyWait ..
        · exact post_propagate ..
    · exact post_reply ..
  · rfl

theorem post_handleReplicaRead (c : ClientId) (args : List Bytes) (s : Server) :
    (s.handleReplicaRead c args).post = s.post := by
  unfold handleReplicaRead
  split
  · split
    · split
      · rfl
      · exact post_settleWaits ..
    · rfl
  · rfl

theorem post_handleMasterRead (c : ClientId) (args : List Bytes) (response : Bytes) (n : ℕ)
    (s : Server) : (s.handleMasterRead c args response n).post = s.post := by
  unfold handleMasterRead
  simp only []
  split
  · split <;> rfl
  · rfl

theorem post_handlePsync (clk : Clock) (c : ClientId) (args : List Bytes) (s : Server) :
    (s.handlePsync clk c args).post = s.post := by
  unfold handlePsync
  simp only []
  split <;> rfl

theorem post_leaveMasterRole (s : Server) : s.leaveMasterRole.post = s.post := by
  unfold leaveMasterRole
  split
  · exact (post_disconnect _ _).trans (post_settleWaits ..)
  · rfl

theorem post_demote (c : ClientId) (host : Bytes) (port : ℤ) (s : Server) :
    (s.demote c host port).post = s.post := by
  rw [demote, post_reply]
  exact (post_removeMaster _).trans (post_leaveMasterRole s)

theorem post_connectToMaster (clk : Clock) (peer : Handshake.Peer) (host : Bytes) (port : ℤ)
    (s : Server) : (s.connectToMaster clk peer host port).1.post = s.post := by
  unfold connectToMaster
  simp only []
  split <;> rfl

theorem post_handleReplicaofSetMaster (clk : Clock) (peer : Handshake.Peer) (c : ClientId)
    (host : Bytes) (port : ℤ) (s : Server) :
    (s.handleReplicaofSetMaster clk peer c host port).post = s.post := by
  have hconnect := post_connectToMaster clk peer host port (s.demote c host port)
  rw [post_demote] at hconnect
  have hset := handleReplicaofSetMaster_masterSet clk peer c host port s
  generalize s.handleReplicaofSetMaster clk peer c host port = t at hset ⊢
  cases hset with
  | already => exact post_reply ..
  | linked hne t h | reverted hne t what h | terminated hne t h =>
    rw [h] at hconnect
    exact hconnect

theorem post_handleReplicaof (env : Env) (c : ClientId) (args : List Bytes) (s : Server) :
    (s.handleReplicaof env c args).post = s.post := by
  unfold handleReplicaof
  split
  · split
    · unfold handleReplicaofNoOne
      split
      · exact post_reply ..
      · rw [post_reply]
        exact post_removeMaster s
    · split
      · exact post_reply ..
      · exact post_handleReplicaofSetMaster ..
  · rfl

theorem post_handleRegular (env : Env) (c : ClientId) (args : List Bytes) (response : Bytes)
    (s : Server) : (s.handleRegular env c args response).post = s.post := by
  have h := handleRegular_handled env c args response s
  generalize s.handleRegular env c args response = t at h ⊢
  cases h with
  | write => exact post_propagate ..
  | wait => exact post_handleWait ..
  | replicaof => exact post_handleReplicaof ..
  | psync => exact post_handlePsync ..
  | plain => rfl

theorem post_runCommand (env : Env) (c : ClientId) (client : Client) (args : List Bytes) (n : ℕ)
    (s : Server) : (s.runCommand env c client args n).post = s.post := by
  unfold runCommand dispatch
  simp only []
  split
  · exact post_handleMasterRead ..
  · exact post_handleReplicaRead ..
  · exact post_handleRegular ..

/-- A step of the main thread, or an attempt of the writer thread to begin a round too early. -/
def Aside (s : Server) (e : Event) : Prop :=
  e.result = none ∧ ∀ order, e = .writerSwap order → s.snapshot ≠ []

theorem post_step (he : Aside s e) : (step s e).post = s.post := by
  have h := step_outcome s e
  generalize step s e = t at h ⊢
  cases h with
  | accept fd =>
    unfold handleAccept
    split <;> rfl
  | recv c data =>
    unfold handleRecv
    split <;> rfl
  | hangup c => exact post_removeClient c s
  | writable c sends => exact post_trySend ..
  | process env c =>
    have h := processCommand_processed env c s
    generalize s.processCommand env c = t at h ⊢
    cases h with
    | gone => rfl
    | done client => exact post_finishRead ..
    | command client _ args n =>
      rw [post_eraseRead]
      exact post_runCommand env c client args n s
  | timeouts now sends => exact post_settleWaits ..
  | sweep now =>
    unfold startSweep
    split <;> rfl
  | sweepNext =>
    unfold continueSweep
    split
    · rfl
    · exact post_propagate ..
  | rehash items => rfl
  | writerSwap order hsnap => exact absurd hsnap (he.2 order rfl)
  | writerStep result => cases he.1
  | skip => rfl

def draining (s : Server) (d : ClientId) : Bytes := ((s.replQueues d).map (·.draining)).getD []

theorem draining_of_registered (h : Registered s c queue) : s.draining c = queue.draining := by
  rw [draining, h.1, Option.map_some, Option.getD_some]

/-- Between two states nothing has happened to what the writer thread has taken from the queues,
and those that are removed have stayed so. -/
structure KeepsRound (s t : Server) : Prop where
  draining : t.draining = s.draining
  removed : ∀ d queue, s.replQueues d = some queue → queue.removed = true →
    ∃ queue', t.replQueues d = some queue' ∧ queue'.removed = true

namespace KeepsRound

variable {u : Server} {gone : ClientId → Prop}

theorem of_eq (h : t.replQueues = s.replQueues) : KeepsRound s t := by
  refine ⟨?_, fun d queue hq hr ↦ ⟨queue, by rw [h, hq], hr⟩⟩
  funext d
  rw [Server.draining, Server.draining, h]

theorem trans (h : KeepsRound s t) (h' : KeepsRound t u) : KeepsRound s u := by
  refine ⟨h'.draining.trans h.draining, fun d queue hq hr ↦ ?_⟩
  obtain ⟨queue', hq', hr'⟩ := h.removed d queue hq hr
  exact h'.removed d queue' hq' hr'

theorem from_same (h : KeepsRound t u) (hq : t.replQueues = s.replQueues) : KeepsRound s u :=
  (of_eq hq).trans h

theorem thins (h : Thins gone s t) : KeepsRound s t := by
  constructor
  · funext d
    rcases h.queue d with heq | heq
    · rw [Server.draining, Server.draining, heq]
    · rw [Server.draining, Server.draining, heq, Option.map_map]
      rfl
  · intro d queue hq hr
    rcases h.queue d with heq | heq
    · exact ⟨queue, heq.trans hq, hr⟩
    · exact ⟨{ queue with removed := true }, by rw [heq, hq, Option.map_some], rfl⟩

theorem propagate (data : Bytes) (s : Server) : KeepsRound s (s.propagateToReplicas data) := by
  unfold propagateToReplicas
  split
  · exact of_eq rfl
  · constructor
    · funext d
      simp only [Server.draining]
      cases s.replQueues d with
      | none => rfl
      | some queue =>
        simp only [Option.map_some, Option.getD_some]
        split <;> rfl
    · intro d queue hq hr
      refine ⟨queue, ?_, hr⟩
      simp only [hq, Option.map_some, hr, if_true]

theorem addReplica (hc : s.replQueues c = none) (data : Bytes) :
    KeepsRound s (s.addReplica c data) := by
  have hnew : (s.addReplica c data).replQueues c =
      (s.clients c).map (fun client ↦ { pending := data, fd := client.fd }) := update_self ..
  have hold (d : ClientId) (hd : d ≠ c) : (s.addReplica c data).replQueues d = s.replQueues d :=
    update_of_ne hd ..
  constructor
  · funext d
    by_cases hd : d = c
    · subst hd
      rw [Server.draining, Server.draining, hnew, hc]
      cases s.clients d <;> rfl
    · rw [Server.draining, Server.draining, hold d hd]
  · intro d queue hq hr
    by_cases hd : d = c
    · subst hd
      rw [hc] at hq
      cases hq
    · exact ⟨queue, (hold d hd).trans hq, hr⟩

theorem eraseRead (h : KeepsRound s t) (c : ClientId) (n : ℕ) : KeepsRound s (t.eraseRead c n) := by
  refine h.trans (of_eq ?_)
  unfold Server.eraseRead
  split
  · rfl
  · split <;> rfl

theorem acted {env : Env} {client : Client} {args : List Bytes} (henrolled : Enrolled s)
    (hc : s.clients c = some client) (h : Acted gone env c client args s t) : KeepsRound s t := by
  cases h with
  | thinned t h => exact thins h
  | acked _ n t h => exact (thins h).from_same rfl
  | wrote _ _ _ t h => exact (thins h).trans (propagate _ t)
  | parked _ _ _ t h wait =>
    subst h
    exact (propagate _ s).trans (of_eq rfl)
  | joined ht =>
    rw [handlePsync_eq]
    exact addReplica (henrolled.unqueued c client hc (by rw [ht]; decide)) _
  | linked _ _ _ fd leftover t h => exact (thins h).trans (of_eq rfl)

theorem step (henrolled : Enrolled s) (he : Aside s e) : KeepsRound s (step s e) := by
  have h := step_churn (spares_all s e)
  generalize Server.step s e = t at h ⊢
  cases h with
  | accepted fd =>
    unfold handleAccept
    split
    · exact of_eq rfl
    · exact of_eq rfl
  | received => exact of_eq rfl
  | thinned _ sends t h => exact (thins h).from_same rfl
  | paused => exact of_eq rfl
  | finished env c client _ _ _ t h => exact (thins h).from_same rfl
  | command env c client args n hc t h =>
    have hloaded : Enrolled (loaded env client args s) := ⟨henrolled.unqueued, henrolled.fresh⟩
    have hacted : KeepsRound s t := (acted hloaded hc.connected h).from_same rfl
    exact hacted.eraseRead c n
  | swept key keys =>
    have hkey : KeepsRound s (s.sweepKey key) := (propagate _ _).from_same rfl
    exact hkey.trans (of_eq rfl)
  | swapped order hsnap => exact absurd hsnap (he.2 order rfl)
  | sent result => cases he.1

end KeepsRound

inductive Pushed (s : Server) (result : SendResult) : Server → Prop
  | idle (hsnap : s.snapshot = []) : Pushed s result s
  | passed (d : ClientId) (rest : List ClientId) (hsnap : s.snapshot = d :: rest)
    (hdone : ∀ queue, s.replQueues d = some queue →
      queue.draining = [] ∨ queue.removed = true ∧ s.sending = false) :
    Pushed s result s.nextQueue
  | begun (d : ClientId) (rest : List ClientId) (hsnap : s.snapshot = d :: rest)
    (hsending : s.sending = false) : Pushed s result { s with sending := true }
  | sent (d : ClientId) (rest : List ClientId) (hsnap : s.snapshot = d :: rest)
    (hsending : s.sending = true) (queue : ReplicaWriteQueue) (hq : s.replQueues d = some queue)
    (hne : queue.draining ≠ []) (target : ClientId) (hfd : s.fds queue.fd = some target) (n : ℕ)
    (hresult : result = .sent n) : Pushed s result
      { s.setDraining d (queue.draining.drop (n + 1)) with
        wire := update s.wire target (s.wire target ++ queue.draining.take (n + 1)) }
  | blocked (d : ClientId) (rest : List ClientId) (hsnap : s.snapshot = d :: rest)
    (hsending : s.sending = true) (hresult : result = .again) : Pushed s result s.nextQueue
  | failed (d : ClientId) (rest : List ClientId) (hsnap : s.snapshot = d :: rest)
    (hsending : s.sending = true) (queue : ReplicaWriteQueue) (hq : s.replQueues d = some queue)
    (hfail : s.fds queue.fd = none ∨ result = .error) :
    Pushed s result (s.setDraining d []).nextQueue

theorem writerStep_pushed (result : SendResult) (s : Server) :
    Pushed s result (s.writerStep result) := by
  unfold writerStep
  split
  · next hsnap => exact .idle hsnap
  · next d rest hsnap =>
    split
    · next hq =>
      refine .passed d rest hsnap (fun queue hqueue ↦ ?_)
      cases hqueue.symm.trans hq
    · next queue hq =>
      split
      · next hsending =>
        rw [Bool.not_eq_true'] at hsending
        split
        · next hremoved =>
          refine .passed d rest hsnap (fun queue' hqueue ↦ ?_)
          cases Option.some.inj (hqueue.symm.trans hq)
          exact .inr ⟨hremoved, hsending⟩
        · exact .begun d rest hsnap hsending
      · next hsending =>
        rw [Bool.not_eq_true', Bool.not_eq_false] at hsending
        split
        · next hempty =>
          refine .passed d rest hsnap (fun queue' hqueue ↦ ?_)
          cases Option.some.inj (hqueue.symm.trans hq)
          exact .inl (List.isEmpty_iff.mp hempty)
        · next hne =>
          rw [List.isEmpty_iff] at hne
          split
          · next target n hfd => exact .sent d rest hsnap hsending queue hq hne target hfd n rfl
          · exact .blocked d rest hsnap hsending rfl
          · next result _ _ hsent hagain =>
            refine .failed d rest hsnap hsending queue hq ?_
            rcases Option.eq_none_or_eq_some (s.fds queue.fd) with hfd | ⟨target, hfd⟩
            · exact .inl hfd
            · cases result with
              | sent n => exact (hsent target n hfd rfl).elim
              | again => exact (hagain target hfd rfl).elim
              | error => exact .inr rfl

def load (s : Server) (ds : List ClientId) : ℕ :=
  (ds.map (fun d ↦ (s.draining d).length + 2)).sum

theorem load_le (h : ∀ d, (t.draining d).length ≤ (s.draining d).length) (ds : List ClientId) :
    t.load ds ≤ s.load ds :=
  List.sum_le_sum (fun d _ ↦ Nat.add_le_add_right (h d) 2)

/-- What the writer thread has before it in the present round. -/
def work (s : Server) : ℕ := s.load s.snapshot - (if s.sending then 1 else 0)

theorem work_cons {rest : List ClientId} (h : s.snapshot = d :: rest) :
    s.work = (s.draining d).length + 2 + s.load rest - (if s.sending then 1 else 0) := by
  rw [work, h, load, List.map_cons, List.sum_cons, load]

theorem snapshot_of_work (h : s.work = 0) : s.snapshot = [] := by
  cases hsnap : s.snapshot with
  | nil => rfl
  | cons d rest =>
    rw [work_cons hsnap] at h
    split at h <;> omega

theorem work_of_passed {rest : List ClientId} (h : s.snapshot = d :: rest)
    (ht : t.snapshot = rest) (hsending : t.sending = false)
    (hless : ∀ c, (t.draining c).length ≤ (s.draining c).length) : t.work + 1 ≤ s.work := by
  have hload := load_le hless rest
  rw [work_cons h, work, ht, hsending, if_neg Bool.false_ne_true]
  split <;> omega

theorem draining_setDraining (hq : s.replQueues d = some queue) (draining : Bytes) (c : ClientId) :
    (s.setDraining d draining).draining c = if c = d then draining else s.draining c := by
  split
  · next h =>
    subst h
    simp only [Server.draining, setDraining, update_self, hq, Option.map_some, Option.getD_some]
  · next h => simp only [Server.draining, setDraining, update_of_ne h]

theorem work_of_sent {rest : List ClientId} (h : s.snapshot = d :: rest) (hs : s.sending = true)
    (hq : s.replQueues d = some queue) (hne : queue.draining ≠ []) (n : ℕ)
    (ht : t.snapshot = s.snapshot) (hsending : t.sending = true)
    (hdraining : ∀ c, t.draining c =
      if c = d then queue.draining.drop (n + 1) else s.draining c) : t.work + 1 ≤ s.work := by
  have hd : s.draining d = queue.draining := by
    rw [draining, hq, Option.map_some, Option.getD_some]
  have hpos := List.length_pos_iff.mpr hne
  have hless (c : ClientId) : (t.draining c).length ≤ (s.draining c).length := by
    rw [hdraining]
    split
    · next heq =>
      rw [heq, hd, List.length_drop]
      exact Nat.sub_le _ _
    · exact le_rfl
  have hload := load_le hless rest
  rw [work_cons h, work_cons (ht.trans h), hs, hsending, hdraining, if_pos (rfl : d = d), hd,
    List.length_drop, if_pos (rfl : true = true)]
  omega

theorem snapshot_nextQueue {rest : List ClientId} (h : s.snapshot = d :: rest) :
    s.nextQueue.snapshot = rest := by
  simp only [nextQueue, h, List.tail_cons]

/-- Every step of the writer thread brings the end of its round nearer, whatever `send` says. -/
theorem work_writerStep (hsnap : s.snapshot ≠ []) (result : SendResult) :
    (s.writerStep result).work + 1 ≤ s.work := by
  have h := writerStep_pushed result s
  generalize s.writerStep result = t at h ⊢
  cases h with
  | idle h => exact absurd h hsnap
  | passed d rest h => exact work_of_passed h (snapshot_nextQueue h) rfl (fun _ ↦ le_rfl)
  | begun d rest h hsending =>
    have hwork := work_cons h
    have hwork' := work_cons (s := { s with sending := true }) h
    have hload : load { s with sending := true } rest = s.load rest := rfl
    have hdraining : draining { s with sending := true } d = s.draining d := rfl
    rw [hsending, if_neg Bool.false_ne_true] at hwork
    rw [if_pos rfl, hload, hdraining] at hwork'
    omega
  | sent d rest h hsending queue hq hne target hfd n =>
    exact work_of_sent h hsending hq hne n rfl hsending (fun c ↦ draining_setDraining hq _ c)
  | blocked d rest h => exact work_of_passed h (snapshot_nextQueue h) rfl (fun _ ↦ le_rfl)
  | failed d rest h hsending queue hq =>
    refine work_of_passed h (snapshot_nextQueue h) rfl (fun c ↦ ?_)
    change ((s.setDraining d []).draining c).length ≤ _
    rw [draining_setDraining hq]
    split
    · exact Nat.zero_le _
    · exact le_rfl

theorem work_aside (henrolled : Enrolled s) (he : Aside s e) : (step s e).work = s.work := by
  have hpost := post_step he
  have hdraining := (KeepsRound.step henrolled he).draining
  have hsnap : (step s e).snapshot = s.snapshot := congrArg Prod.fst hpost
  have hsending : (step s e).sending = s.sending := congrArg Prod.snd hpost
  rw [work, load, hsnap, hsending, hdraining, work, load]

theorem aside_or_writer (s : Server) (e : Event) :
    Aside s e ∨ (∃ order, e = .writerSwap order ∧ s.snapshot = []) ∨
      ∃ result, e = .writerStep result := by
  cases e with
  | writerStep result => exact .inr (.inr ⟨result, rfl⟩)
  | writerSwap order =>
    by_cases hsnap : s.snapshot = []
    · exact .inr (.inl ⟨order, rfl, hsnap⟩)
    · exact .inl ⟨rfl, fun _ _ ↦ hsnap⟩
  | _ => exact .inl ⟨rfl, nofun⟩

theorem aside_or_writerStep (hsnap : s.snapshot ≠ []) (e : Event) :
    Aside s e ∧ e.result = none ∨ ∃ result, e = .writerStep result := by
  rcases aside_or_writer s e with haside | ⟨_, _, hempty⟩ | hresult
  · exact .inl ⟨haside, haside.1⟩
  · exact absurd hempty hsnap
  · exact .inr hresult

/-- The writer thread comes to the end of its round after as many steps as it has work, whatever
the main thread does in between and whatever `send` says. -/
theorem round_ends (hcons : Consistent s) (henrolled : Enrolled s) {es : List Event}
    (hmany : s.work ≤ es.countP (·.result.isSome)) :
    ∃ es₁ es₂, es₁ ++ es₂ = es ∧ (run step s es₁).snapshot = [] ∧
      Along step (fun s _ ↦ s.snapshot ≠ []) s es₁ := by
  refine reach_of_measure step (P := fun _ _ ↦ True) (I := fun s ↦ Consistent s ∧ Enrolled s)
    (fun s ↦ s.snapshot = []) work (·.result.isSome)
    (fun s e h _ ↦ ⟨h.1.step e, h.2.step h.1 e⟩) (fun _ ↦ snapshot_of_work) (fun s e h _ hgoal ↦ ?_)
    ⟨hcons, henrolled⟩ (along_of_forall step (fun _ _ ↦ trivial) s es) hmany
  rcases aside_or_writerStep hgoal e with ⟨haside, hresult⟩ | ⟨result, rfl⟩
  · rw [hresult, work_aside h.2 haside]
    exact le_rfl
  · exact work_writerStep hgoal result

theorem KeepsRound.registered (h : KeepsRound s t) (hsome : (s.replQueues c).isSome = true)
    (hq : Registered t c queue) :
    ∃ queue', Registered s c queue' ∧ queue'.draining = queue.draining := by
  obtain ⟨queue', hq'⟩ := Option.isSome_iff_exists.mp hsome
  have hremoved : queue'.removed = false := by
    by_contra hr
    obtain ⟨queue'', hq'', hr''⟩ := h.removed c queue' hq' (Bool.eq_true_of_not_eq_false hr)
    cases Option.some.inj (hq''.symm.trans hq.1)
    rw [hq.2] at hr''
    cases hr''
  refine ⟨queue', ⟨hq', hremoved⟩, ?_⟩
  rw [← draining_of_registered ⟨hq', hremoved⟩, ← draining_of_registered hq, h.draining]

theorem registered_setDraining {draining : Bytes} {queue' : ReplicaWriteQueue}
    (hq : s.replQueues d = some queue) (h : Registered (s.setDraining d draining) d queue') :
    Registered s d queue ∧ queue'.draining = draining := by
  obtain ⟨hq', hr⟩ := h
  simp only [setDraining, update_self, hq, Option.map_some, Option.some.injEq] at hq'
  subst hq'
  exact ⟨⟨hq, hr⟩, rfl⟩

theorem removed_setDraining (hq : s.replQueues c = some queue) (hr : queue.removed = true)
    (d : ClientId) (draining : Bytes) :
    ∃ queue', (s.setDraining d draining).replQueues c = some queue' ∧ queue'.removed = true := by
  by_cases hc : c = d
  · subst hc
    refine ⟨{ queue with draining := draining }, ?_, hr⟩
    simp only [Server.setDraining, update_self, hq, Option.map_some]
  · exact ⟨queue, (update_of_ne hc ..).trans hq, hr⟩

theorem removed_step (henrolled : Enrolled s) (hq : s.replQueues c = some queue)
    (hr : queue.removed = true) (e : Event) :
    ∃ queue', (step s e).replQueues c = some queue' ∧ queue'.removed = true := by
  rcases aside_or_writer s e with haside | ⟨order, rfl, hsnap⟩ | ⟨result, rfl⟩
  · exact (KeepsRound.step henrolled haside).removed c queue hq hr
  · have h := step_outcome s (.writerSwap order)
    generalize step s (.writerSwap order) = t at h ⊢
    cases h with
    | writerSwap _ hsnap =>
      refine ⟨swapQueue queue, ?_, ?_⟩
      · simp only [Server.writerSwap, hq, Option.map_some]
      · rw [swapQueue, if_pos hr, hr]
    | skip => exact ⟨queue, hq, hr⟩
  · have h := writerStep_pushed result s
    rw [step]
    generalize s.writerStep result = t at h ⊢
    cases h with
    | idle | passed | begun | blocked => exact ⟨queue, hq, hr⟩
    | sent d | failed d => exact removed_setDraining hq hr d _

theorem registered_of_run (hcons : Consistent s) (henrolled : Enrolled s)
    (hsome : (s.replQueues c).isSome = true) {es : List Event}
    (hq : Registered (run step s es) c queue) : ∃ queue', Registered s c queue' := by
  obtain ⟨queue', hq'⟩ := Option.isSome_iff_exists.mp hsome
  refine ⟨queue', hq', ?_⟩
  by_contra hr
  have hrun := run_stable step (I := fun s ↦ (Consistent s ∧ Enrolled s) ∧
      ∃ queue, s.replQueues c = some queue ∧ queue.removed = true)
    (fun s e h ↦ ⟨⟨h.1.1.step e, h.1.2.step h.1.1 e⟩,
      h.2.elim (fun _ h' ↦ removed_step h.1.2 h'.1 h'.2 e)⟩)
    ⟨⟨hcons, henrolled⟩, queue', hq', Bool.eq_true_of_not_eq_false hr⟩ es
  obtain ⟨-, queue'', hq'', hr''⟩ := hrun
  cases Option.some.inj (hq''.symm.trans hq.1)
  rw [hq.2] at hr''
  cases hr''

theorem handed_of_other {rest : List ClientId} (hsnap : s.snapshot = d :: rest) (hd : d ≠ c)
    {result : SendResult} : handed c s (.writerStep result) = [] := by
  refine handed_eq_nil (fun n queue _ hhead ↦ ?_)
  rw [hsnap] at hhead
  exact absurd (Option.some.inj hhead) hd

/-- The kernel takes something of what the writer thread sends from the queue of `c`. -/
def Accepts (c : ClientId) (s : Server) (e : Event) : Prop :=
  ∀ result, e.result = some result → s.sending = true → s.snapshot.head? = some c →
    ∃ n, result = .sent n

/-- In the present round `sent` of `all` has been handed over for `c`, and the rest is to come. -/
structure Outgoing (c : ClientId) (all sent : Bytes) (s : Server) : Prop where
  queued : (s.replQueues c).isSome = true
  split : ∀ queue, Registered s c queue → sent ++ queue.draining = all
  listed : c ∈ s.snapshot ∨ ∀ queue, Registered s c queue → queue.draining = []

namespace Outgoing

variable {all sent : Bytes}

theorem of_eq (h : Outgoing c all sent s) (hq : t.replQueues c = s.replQueues c)
    (hlisted : c ∈ t.snapshot ∨ ∀ queue, Registered s c queue → queue.draining = []) :
    Outgoing c all sent t where
  queued := by rw [hq, h.queued]
  split queue hreg := h.split queue ⟨hq.symm.trans hreg.1, hreg.2⟩
  listed := hlisted.imp_right (fun hempty queue hreg ↦ hempty queue ⟨hq.symm.trans hreg.1, hreg.2⟩)

theorem aside (h : Outgoing c all sent s) (henrolled : Enrolled s) (he : Aside s e) :
    Outgoing c all sent (step s e) where
  queued := isSome_step h.queued e
  split queue hreg := by
    obtain ⟨queue', hreg', hsame⟩ := (KeepsRound.step henrolled he).registered h.queued hreg
    rw [← hsame]
    exact h.split queue' hreg'
  listed := by
    have hsnap : (step s e).snapshot = s.snapshot := congrArg Prod.fst (post_step he)
    rw [hsnap]
    refine h.listed.imp_right (fun hempty queue hreg ↦ ?_)
    obtain ⟨queue', hreg', hsame⟩ := (KeepsRound.step henrolled he).registered h.queued hreg
    rw [← hsame]
    exact hempty queue' hreg'

theorem of_other (h : Outgoing c all sent s) {rest : List ClientId} (hsnap : s.snapshot = d :: rest)
    (hd : d ≠ c) (hq : t.replQueues c = s.replQueues c)
    (ht : t.snapshot = s.snapshot ∨ t.snapshot = rest) : Outgoing c all sent t := by
  refine h.of_eq hq (h.listed.imp_left (fun hmem ↦ ?_))
  rcases ht with ht | ht
  · rw [ht]
    exact hmem
  · rw [hsnap] at hmem
    rw [ht]
    exact (List.mem_cons.mp hmem).resolve_left (Ne.symm hd)

theorem writerStep (h : Outgoing c all sent s) (hcons : Consistent s) {result : SendResult}
    (ha : Accepts c s (.writerStep result)) :
    Outgoing c all (sent ++ handed c s (.writerStep result)) (s.writerStep result) := by
  have hpushed := writerStep_pushed result s
  -- Unless the queue at the front is that of `c` and the thread sends, nothing is handed over.
  have hnil (hno : ∀ n queue, result = .sent n → s.snapshot.head? = some c →
      s.replQueues c = some queue → s.sending = true → (s.fds queue.fd).isSome = true →
      queue.draining = []) : Outgoing c all (sent ++ handed c s (.writerStep result))
        (s.writerStep result) ↔ Outgoing c all sent (s.writerStep result) := by
    rw [handed_eq_nil hno, List.append_nil]
  generalize s.writerStep result = t at hpushed hnil ⊢
  cases hpushed with
  | idle hsnap =>
    refine (hnil (fun n queue _ hhead ↦ ?_)).mpr h
    rw [hsnap] at hhead
    cases hhead
  | passed d rest hsnap hdone =>
    by_cases hd : d = c
    · subst hd
      refine (hnil (fun n queue _ _ hq hsending _ ↦ (hdone queue hq).resolve_right ?_)).mpr
        (h.of_eq rfl (.inr (fun queue hreg ↦ (hdone queue hreg.1).resolve_right ?_)))
      · rw [hsending]
        exact fun hcontra ↦ Bool.noConfusion hcontra.2
      · rw [hreg.2]
        exact fun hcontra ↦ Bool.noConfusion hcontra.1
    · rw [handed_of_other hsnap hd, List.append_nil]
      exact h.of_other hsnap hd rfl (.inr (snapshot_nextQueue hsnap))
  | begun d rest hsnap hsending =>
    refine (hnil (fun n queue _ _ _ hs ↦ ?_)).mpr (h.of_eq rfl h.listed)
    rw [hsending] at hs
    cases hs
  | sent d rest hsnap hsending queue hq hne target hfd n hresult =>
    by_cases hd : d = c
    · subst hd hresult
      have hhead : s.snapshot.head? = some d := by rw [hsnap, List.head?_cons]
      rw [handed_sent hhead hq hsending (by rw [hfd]; rfl) n]
      refine ⟨?_, fun queue' hreg ↦ ?_, .inl ?_⟩
      · simp only [setDraining, update_self, hq, Option.map_some, Option.isSome_some]
      · obtain ⟨hreg', hsame⟩ := registered_setDraining hq hreg
        rw [hsame, List.append_assoc, List.take_append_drop, h.split queue hreg']
      · exact hsnap.symm ▸ List.mem_cons_self ..
    · rw [handed_of_other hsnap hd, List.append_nil]
      exact h.of_other hsnap hd (update_of_ne (Ne.symm hd) ..) (.inl rfl)
  | blocked d rest hsnap hsending hresult =>
    by_cases hd : d = c
    · subst hd hresult
      obtain ⟨n, hn⟩ := ha .again rfl hsending (by rw [hsnap, List.head?_cons])
      cases hn
    · rw [handed_of_other hsnap hd, List.append_nil]
      exact h.of_other hsnap hd rfl (.inr (snapshot_nextQueue hsnap))
  | failed d rest hsnap hsending queue hq hfail =>
    by_cases hd : d = c
    · subst hd
      have hclosed : s.fds queue.fd = none := by
        refine hfail.resolve_right (fun hresult ↦ ?_)
        obtain ⟨n, hn⟩ := ha result rfl hsending (by rw [hsnap, List.head?_cons])
        rw [hn] at hresult
        cases hresult
      have hno (queue' : ReplicaWriteQueue)
          (hreg : Registered (s.setDraining d []).nextQueue d queue') : False := by
        have hopen := fds_of_registered hcons (registered_setDraining hq hreg).1
        rw [hclosed] at hopen
        cases hopen
      refine (hnil (fun n queue' _ _ hq' _ hopen ↦ ?_)).mpr
        ⟨?_, fun queue' hreg ↦ (hno queue' hreg).elim,
          .inr (fun queue' hreg ↦ (hno queue' hreg).elim)⟩
      · cases Option.some.inj (hq'.symm.trans hq)
        rw [hclosed] at hopen
        cases hopen
      · simp only [nextQueue, setDraining, update_self, hq, Option.map_some, Option.isSome_some]
    · rw [handed_of_other hsnap hd, List.append_nil]
      exact h.of_other hsnap hd (update_of_ne (Ne.symm hd) ..) (.inr (snapshot_nextQueue hsnap))

theorem step (h : Outgoing c all sent s) (hcons : Consistent s) (henrolled : Enrolled s)
    (hsnap : s.snapshot ≠ []) (ha : Accepts c s e) :
    Outgoing c all (sent ++ handed c s e) (step s e) := by
  rcases aside_or_writerStep hsnap e with ⟨haside, hresult⟩ | ⟨result, rfl⟩
  · rw [handed_of_result hresult, List.append_nil]
    exact h.aside henrolled haside
  · exact h.writerStep hcons ha

theorem run {es : List Event} (h : Outgoing c all sent s) (hcons : Consistent s)
    (henrolled : Enrolled s) (hround : Along Server.step (fun s _ ↦ s.snapshot ≠ []) s es)
    (hrun : Along Server.step (Accepts c) s es) :
    Outgoing c all (sent ++ trace Server.step (handed c) s es) (Lib.Run.run Server.step s es) :=
  (trace_invariant Server.step (I := fun sent s ↦
      (Consistent s ∧ Enrolled s) ∧ Outgoing c all sent s)
    (fun _ _ e hi hp ↦ ⟨⟨hi.1.1.step e, hi.1.2.step hi.1.1 e⟩,
      hi.2.step hi.1.1 hi.1.2 hp.1 hp.2⟩)
    ⟨⟨hcons, henrolled⟩, h⟩ (hround.and Server.step hrun)).2

theorem writerSwap (hq : Registered s c queue) {order : List ClientId} (hc : c ∈ order) :
    Outgoing c (queue.draining ++ queue.pending) [] (s.writerSwap order) := by
  have hnew : (s.writerSwap order).replQueues c =
      some { queue with draining := queue.draining ++ queue.pending, pending := [] } := by
    simp only [Server.writerSwap, hq.1, Option.map_some, swapQueue, hq.2, Bool.false_eq_true, if_false]
  have hreg {queue' : ReplicaWriteQueue} (h : Registered (s.writerSwap order) c queue') :
      queue'.draining = queue.draining ++ queue.pending := by
    cases Option.some.inj (h.1.symm.trans hnew)
    rfl
  refine ⟨by rw [hnew]; rfl, fun queue' h ↦ by rw [List.nil_append, hreg h], ?_⟩
  by_cases hempty : queue.draining ++ queue.pending = []
  · exact .inr (fun queue' h ↦ by rw [hreg h, hempty])
  · refine .inl (List.mem_filter.mpr ⟨hc, ?_⟩)
    simp only [hq.1, Option.map_some, swapQueue, hq.2, Bool.false_eq_true, if_false, Option.any_some,
      Bool.not_false, Bool.true_and, Bool.not_eq_true', List.isEmpty_eq_false_iff]
    exact hempty

end Outgoing

def queued (s : Server) (d : ClientId) : Bytes :=
  ((s.replQueues d).map (fun queue ↦ queue.draining ++ queue.pending)).getD []

theorem draining_writerSwap_le (order : List ClientId) (s : Server) (d : ClientId) :
    ((s.writerSwap order).draining d).length ≤ (s.queued d).length := by
  simp only [draining, queued, writerSwap]
  cases s.replQueues d with
  | none => exact le_rfl
  | some queue =>
    simp only [Option.map_some, Option.getD_some, swapQueue]
    split
    · rw [List.length_append]
      exact Nat.le_add_right _ _
    · exact le_rfl

theorem work_writerSwap_le (order : List ClientId) (s : Server) :
    (s.writerSwap order).work ≤ (order.map (fun d ↦ (s.queued d).length + 2)).sum := by
  calc (s.writerSwap order).work
      ≤ (s.writerSwap order).load (s.writerSwap order).snapshot := Nat.sub_le _ _
    _ ≤ (s.writerSwap order).load order :=
        (List.filter_sublist.map _).sum_le_sum (fun _ _ ↦ Nat.zero_le _)
    _ ≤ _ := List.sum_le_sum (fun d _ ↦
        Nat.add_le_add_right (draining_writerSwap_le order s d) 2)

theorem Enrolled.of_reachable (h : Reachable s) : Enrolled s := by
  obtain ⟨s₀, es, h₀, rfl⟩ := h
  have hnone := queues_of_initial h₀
  exact (run_stable Server.step (I := fun s ↦ Consistent s ∧ Enrolled s)
    (fun s e hi ↦ ⟨hi.1.step e, hi.2.step hi.1 e⟩)
    ⟨.of_initial h₀, fun c _ _ _ ↦ hnone c, fun c _ ↦ hnone c⟩ es).2

/-- The writer thread keeps up, whatever the main thread does in the meantime. From every reachable
state it comes to the end of its round after as many steps as it has work, whatever `send` says.
And in the round that it begins there it hands over everything that was waiting for `c`, after as
many steps as bytes were waiting in all queues and two more for each, if the connection stays and
the kernel takes something of what is sent on it each time. -/
theorem writer_keeps_up (h : Reachable s) :
    (∀ es : List Event, s.work ≤ es.countP (·.result.isSome) →
      ∃ es₁ es₂, es₁ ++ es₂ = es ∧ (run step s es₁).snapshot = []) ∧
    ∀ c queue order es, s.snapshot = [] → Registered s c queue → c ∈ order →
      Along step (Accepts c) (step s (.writerSwap order)) es →
      (order.map (fun d ↦ (s.queued d).length + 2)).sum ≤ es.countP (·.result.isSome) →
      (∃ queue', Registered (run step s (.writerSwap order :: es)) c queue') →
      queue.draining ++ queue.pending <+: trace step (handed c) s (.writerSwap order :: es) := by
  have hcons : Consistent s := .of_reachable h
  have henrolled : Enrolled s := .of_reachable h
  refine ⟨fun es hmany ↦ ?_, fun c queue order es hsnap hq hc hrun hmany hlast ↦ ?_⟩
  · obtain ⟨es₁, es₂, hsplit, hend, -⟩ := round_ends hcons henrolled hmany
    exact ⟨es₁, es₂, hsplit, hend⟩
  have hstep : step s (.writerSwap order) = s.writerSwap order := by
    simp only [step, hsnap, List.isEmpty_nil, if_true]
  have hcons' := hcons.step (.writerSwap order)
  have henrolled' := henrolled.step hcons (.writerSwap order)
  have hstart : Outgoing c (queue.draining ++ queue.pending) [] (step s (.writerSwap order)) :=
    hstep ▸ .writerSwap hq hc
  obtain ⟨es₁, es₂, rfl, hend, hround⟩ := round_ends hcons' henrolled'
    ((hstep ▸ work_writerSwap_le order s).trans hmany)
  obtain ⟨hrun₁, -⟩ := (along_append step).mp hrun
  have hout := hstart.run hcons' henrolled' hround hrun₁
  -- At the end of the round the queue is still registered, because it is at the end of the run.
  obtain ⟨queue', hlast⟩ := hlast
  rw [run_cons, run_append] at hlast
  have hkept : ∀ es, Consistent (run step s es) ∧ Enrolled (run step s es) := fun es ↦
    run_stable step (I := fun s ↦ Consistent s ∧ Enrolled s)
      (fun s e hi ↦ ⟨hi.1.step e, hi.2.step hi.1 e⟩) ⟨hcons, henrolled⟩ es
  obtain ⟨queue₁, hreg⟩ := registered_of_run (hkept (.writerSwap order :: es₁)).1
    (hkept (.writerSwap order :: es₁)).2 hout.queued hlast
  have hempty : queue₁.draining = [] := by
    refine hout.listed.resolve_left ?_ queue₁ hreg
    rw [hend]
    exact List.not_mem_nil
  have hall := hout.split queue₁ hreg
  rw [hempty, List.append_nil, List.nil_append] at hall
  rw [trace_cons, handed_of_result rfl, List.nil_append, trace_append, ← hall]
  exact List.prefix_append _ _

def busyRun : List Event :=
  List.replicate 10 (.writerStep (.sent 9)) ++ .accept 6 ::
    request 1 [ascii "SET", ascii "k", ascii "v"] (.quiet 0) ++
    List.replicate 200 (.writerStep (.sent 9))

theorem writer_keeps_up_of_busy :
    ((run step (init sampleId) replicaRun).queued 0).length = 154 ∧
    (run step (init sampleId) replicaRun).queued 0 <+:
      trace step (handed 0) (run step (init sampleId) replicaRun) (.writerSwap [0] :: busyRun) := by
  have heval : ((run step (init sampleId) replicaRun).queued 0).length = 154 ∧
      (run step (init sampleId) replicaRun).snapshot = [] ∧
      ((run step (init sampleId) replicaRun).replQueues 0).map (·.removed) = some false ∧
      Along step (fun _ e ↦ e.result ≠ some .again ∧ e.result ≠ some .error)
        (step (run step (init sampleId) replicaRun) (.writerSwap [0])) busyRun ∧
      ((run step (run step (init sampleId) replicaRun) (.writerSwap [0] :: busyRun)).replQueues 0).map
        (·.removed) = some false ∧
      ([0].map (fun d ↦ ((run step (init sampleId) replicaRun).queued d).length + 2)).sum ≤
        busyRun.countP (·.result.isSome) := by
    decide +kernel
  obtain ⟨hlen, hsnap, hopen, hsends, hlast, hmany⟩ := heval
  obtain ⟨queue, hq, hr⟩ := Option.map_eq_some_iff.mp hopen
  obtain ⟨queue', hq', hr'⟩ := Option.map_eq_some_iff.mp hlast
  have haccepts : Along step (Accepts 0)
      (step (run step (init sampleId) replicaRun) (.writerSwap [0])) busyRun := by
    refine hsends.mono step (fun s e hsend result hresult _ _ ↦ ?_)
    cases result with
    | sent n => exact ⟨n, rfl⟩
    | again => exact absurd hresult hsend.1
    | error => exact absurd hresult hsend.2
  have hqueued : (run step (init sampleId) replicaRun).queued 0 = queue.draining ++ queue.pending := by
    rw [queued, hq, Option.map_some, Option.getD_some]
  refine ⟨hlen, ?_⟩
  rw [hqueued]
  exact (writer_keeps_up ⟨init sampleId, replicaRun, .master sampleId, rfl⟩).2 0 queue [0] busyRun hsnap
    ⟨hq, hr⟩ (List.mem_singleton_self 0) haccepts hmany ⟨queue', hq', hr'⟩

end RedisLite.Server
