import RedisLite.Turnover

namespace RedisLite.Server

open Function Lib.Run
open scoped List

variable {s t : Server} {c : ClientId} {e : Event} {queue : ReplicaWriteQueue} {data : Bytes}
  {gone : ClientId → Prop}

def resyncReply (clk : Clock) (args : List Bytes) (s : Server) : Bytes :=
  if s.acceptsPartial (psyncPosition args).1 (psyncPosition args).2 then
    s.continueReply (psyncPosition args).2
  else s.fullResyncReply clk

theorem handlePsync_eq (clk : Clock) (c : ClientId) (args : List Bytes) (s : Server) :
    s.handlePsync clk c args = s.addReplica c (s.resyncReply clk args) := by
  unfold handlePsync resyncReply
  dsimp only
  split <;> rfl

def greeted (c : ClientId) (s : Server) (e : Event) : Bytes :=
  match s.taking e with
  | some ⟨env, d, client, args, _⟩ =>
    if d = c ∧ client.type = .regular ∧ commandName args = ascii "PSYNC" then
      s.resyncReply env.clock args
    else []
  | none => []

def enqueued (c : ClientId) (s : Server) (e : Event) : Bytes :=
  match s.replQueues c with
  | some queue => if queue.removed then [] else Resp.framing.stream (streamed s e)
  | none => greeted c s e

/-- What a step hands to the socket from the queue of `c`. -/
def handed (c : ClientId) (s : Server) (e : Event) : Bytes :=
  match e, s.snapshot, s.replQueues c with
  | .writerStep (.sent n), d :: _, some queue =>
    if d = c ∧ s.sending = true ∧ (s.fds queue.fd).isSome then queue.draining.take (n + 1) else []
  | _, _, _ => []

def Unfailing (c : ClientId) (s : Server) (e : Event) : Prop :=
  e.result = some .error → s.sending = true → s.snapshot.head? ≠ some c

instance (c : ClientId) (s : Server) (e : Event) : Decidable (Unfailing c s e) :=
  inferInstanceAs (Decidable (_ → _))

/-- Between two states `data` has been appended to the queue of `c`, if it is still registered. -/
structure Feeds (c : ClientId) (data : Bytes) (s t : Server) : Prop where
  registered : ∀ queue, Registered t c queue →
    ∃ queue', Registered s c queue' ∧ queue = { queue' with pending := queue'.pending ++ data }
  isSome : (t.replQueues c).isSome = (s.replQueues c).isSome

namespace Feeds

theorem of_eq (h : t.replQueues c = s.replQueues c) : Feeds c [] s t where
  registered queue hq := by
    refine ⟨queue, ?_, by rw [List.append_nil]⟩
    rw [Registered, ← h]
    exact hq
  isSome := by rw [h]

theorem thins (h : Thins gone s t) (c : ClientId) : Feeds c [] s t := by
  rcases h.queue c with heq | hmark
  · exact of_eq heq
  · refine ⟨fun queue hq ↦ ?_, by rw [hmark, Option.isSome_map]⟩
    have hqueue := hq.1
    rw [hmark] at hqueue
    obtain ⟨queue', -, rfl⟩ := Option.map_eq_some_iff.mp hqueue
    cases hq.2

theorem propagate (hcons : Consistent s) (hq : t.replQueues = s.replQueues)
    (hr : t.replicas = s.replicas) (c : ClientId) (data : Bytes) :
    Feeds c data s (t.propagateToReplicas data) := by
  unfold propagateToReplicas
  split
  · next hempty =>
    rw [List.isEmpty_iff, hr] at hempty
    refine ⟨fun queue hreg ↦ ?_, by rw [hq]⟩
    rw [Registered, hq] at hreg
    have hmem := (hcons.queue_iff c).mpr ⟨queue, hreg⟩
    rw [hempty] at hmem
    cases hmem
  · refine ⟨fun queue hreg ↦ ?_, by rw [hq, Option.isSome_map]⟩
    rw [Registered, hq] at hreg
    obtain ⟨queue', hqueue, rfl⟩ := Option.map_eq_some_iff.mp hreg.1
    have hremoved : queue'.removed = false := by
      have h := hreg.2
      split at h
      · exact h
      · exact h
    exact ⟨queue', ⟨hqueue, hremoved⟩, by rw [if_neg (by rw [hremoved]; decide)]⟩

end Feeds

structure Enrolled (s : Server) : Prop where
  unqueued : ∀ c client, s.clients c = some client → client.type ≠ .replica → s.replQueues c = none
  fresh : ∀ c, s.nextId ≤ c → s.replQueues c = none

namespace Enrolled

theorem of_kept (h : Enrolled s)
    (hc : ∀ c client, t.clients c = some client →
      ∃ client', s.clients c = some client' ∧ client'.type = client.type)
    (hq : ∀ c, (t.replQueues c).isSome = (s.replQueues c).isSome) (hn : t.nextId = s.nextId) :
    Enrolled t := by
  have hnone (c : ClientId) (hs : s.replQueues c = none) : t.replQueues c = none := by
    rw [← Option.isNone_iff_eq_none, ← Option.not_isSome, hq, hs]
    rfl
  refine ⟨fun c client hclient htype ↦ ?_, fun c hle ↦ hnone c (h.fresh c (hn ▸ hle))⟩
  obtain ⟨client', hc', ht⟩ := hc c client hclient
  exact hnone c (h.unqueued c client' hc' (ht ▸ htype))

theorem thins (h : Enrolled s) (ht : Thins gone s t) : Enrolled t := by
  refine h.of_kept (fun c client hc ↦ ?_) (fun c ↦ (Feeds.thins ht c).isSome) ht.ids
  obtain ⟨client', hc', hbare⟩ := ht.exists_client hc
  refine ⟨client', hc', ?_⟩
  change (bare client').type = _
  rw [← hbare]
  rfl

theorem mapClient (h : Enrolled s) (c : ClientId) (f : Client → Client)
    (hf : ∀ client, (f client).type = client.type) (hc : t.clients = (s.mapClient c f).clients)
    (hq : ∀ c, (t.replQueues c).isSome = (s.replQueues c).isSome) (hn : t.nextId = s.nextId) :
    Enrolled t := by
  refine h.of_kept (fun d client hd ↦ ?_) hq hn
  rw [hc] at hd
  by_cases hne : d = c
  · subst hne
    simp only [Server.mapClient, update_self, Option.map_eq_some_iff] at hd
    obtain ⟨client', hc', rfl⟩ := hd
    exact ⟨client', hc', (hf client').symm⟩
  · simp only [Server.mapClient, update_of_ne hne] at hd
    exact ⟨client, hd, rfl⟩

theorem of_clients (h : Enrolled s) (hc : t.clients = s.clients)
    (hq : ∀ c, (t.replQueues c).isSome = (s.replQueues c).isSome) (hn : t.nextId = s.nextId) :
    Enrolled t :=
  h.of_kept (fun _ client hclient ↦ ⟨client, hc ▸ hclient, rfl⟩) hq hn

theorem newClient (h : Enrolled s) {client : Client}
    (hc : t.clients = update s.clients s.nextId (some client)) (hq : t.replQueues = s.replQueues)
    (hn : t.nextId = s.nextId + 1) : Enrolled t := by
  refine ⟨fun c other hother htype ↦ ?_, fun c hle ↦ ?_⟩
  · rw [hq]
    by_cases hne : c = s.nextId
    · exact h.fresh c hne.ge
    · rw [hc, update_of_ne hne] at hother
      exact h.unqueued c other hother htype
  · rw [hn] at hle
    rw [hq]
    exact h.fresh c (Nat.le_of_succ_le hle)

theorem addReplica (h : Enrolled s) (hcons : Consistent s) {client : Client}
    (hc : s.clients c = some client) (data : Bytes) : Enrolled (s.addReplica c data) := by
  have hlt := hcons.lt_nextId hc
  refine ⟨fun d other hother htype ↦ ?_, fun d hle ↦ ?_⟩
  · by_cases hne : d = c
    · subst hne
      simp only [Server.addReplica, Server.mapClient, update_self, Option.map_eq_some_iff] at hother
      obtain ⟨_, -, rfl⟩ := hother
      exact absurd rfl htype
    · simp only [Server.addReplica, Server.mapClient, update_of_ne hne] at hother ⊢
      exact h.unqueued d other hother htype
  · have hne : d ≠ c := (hlt.trans_le hle).ne'
    simp only [Server.addReplica, update_of_ne hne]
    exact h.fresh d hle

end Enrolled

theorem isSome_propagate (data : Bytes) (s : Server) (c : ClientId) :
    ((s.propagateToReplicas data).replQueues c).isSome = (s.replQueues c).isSome := by
  unfold propagateToReplicas
  split
  · rfl
  · exact Option.isSome_map ..

theorem isSome_of_same (h : SameClients s t) (c : ClientId) :
    (t.replQueues c).isSome = (s.replQueues c).isSome := by
  have hmap := congrArg Option.isSome (h.queues c)
  rwa [Option.isSome_map, Option.isSome_map] at hmap

namespace Enrolled

theorem eraseRead (h : Enrolled s) (c : ClientId) (n : ℕ) : Enrolled (s.eraseRead c n) := by
  unfold Server.eraseRead
  split
  · exact h
  · split
    · exact h.of_clients rfl (fun _ ↦ rfl) rfl
    · exact h.mapClient c (fun client ↦ { client with readBuf := client.readBuf.drop n })
        (fun _ ↦ rfl) rfl (fun _ ↦ rfl) rfl

theorem acted {env : Env} {client : Client} {args : List Bytes} (h : Enrolled s)
    (hcons : Consistent s) (hc : s.clients c = some client)
    (hacted : Acted gone env c client args s t) : Enrolled t := by
  cases hacted with
  | thinned t ht => exact h.thins ht
  | acked _ n t ht =>
    refine (h.mapClient (t := s.acknowledge c n) c (fun client ↦ { client with ackOffset := n })
      (fun _ ↦ rfl) rfl (fun _ ↦ rfl) rfl).thins ht
  | wrote _ _ _ t ht =>
    obtain ⟨hclients, hids⟩ := clients_propagate (Resp.encodeArray args) t
    exact (h.thins ht).of_clients hclients (isSome_propagate _ t) hids
  | parked _ _ _ t ht wait =>
    subst ht
    obtain ⟨hclients, hids⟩ := clients_propagate (Resp.encodeArray Command.getack) s
    exact h.of_clients hclients (isSome_propagate _ s) hids
  | joined =>
    rw [handlePsync_eq]
    exact h.addReplica hcons hc _
  | linked _ _ _ fd leftover t ht => exact (h.thins ht).newClient rfl rfl rfl

theorem step (h : Enrolled s) (hcons : Consistent s) (e : Event) : Enrolled (step s e) := by
  have hchurn : Churn (fun _ ↦ True) s e (Server.step s e) := step_churn (spares_all s e)
  generalize Server.step s e = t at hchurn ⊢
  cases hchurn with
  | accepted fd hfd =>
    rw [handleAccept, hfd]
    exact h.newClient rfl rfl rfl
  | received c data =>
    exact h.mapClient c (fun client ↦ { client with readBuf := client.readBuf ++ data })
      (fun _ ↦ rfl) rfl (fun _ ↦ rfl) rfl
  | thinned e sends t ht =>
    exact Enrolled.thins (s := { s with sends := sends })
      (h.of_clients rfl (fun _ ↦ rfl) rfl) ht
  | paused => exact h.of_clients rfl (fun _ ↦ rfl) rfl
  | finished env c client hpc hc hn t ht =>
    exact Enrolled.thins (s := { s with sends := env.sends, pc := .idle })
      (h.of_clients rfl (fun _ ↦ rfl) rfl) ht
  | command env c client args n hc t ht =>
    refine Enrolled.eraseRead ?_ c n
    refine Enrolled.acted (s := loaded env client args s) (h.of_clients rfl (fun _ ↦ rfl) rfl) ?_
      hc.connected ht
    exact hcons.of_same ⟨rfl, fun _ ↦ rfl, rfl, fun _ ↦ rfl, rfl, rfl, .inl⟩
  | swept key keys =>
    have hids : (s.sweepKey key).clients = s.clients ∧ (s.sweepKey key).nextId = s.nextId :=
      clients_propagate _ _
    exact h.of_clients hids.1 (isSome_propagate _ _) hids.2
  | swapped order =>
    exact h.of_clients rfl (fun c ↦ isSome_of_same (writerSwap_same order s) c) rfl
  | sent result =>
    have hsame := writerStep_same result s
    exact h.of_clients (writerStep_frame result s).1 (isSome_of_same hsame) hsame.nextId

end Enrolled

theorem queues_of_initial (h : Initial s) (c : ClientId) : s.replQueues c = none := by
  cases h with
  | master replid => rfl
  | worker replid host port clk peer s h =>
    have hconn := connectToMaster_connected clk peer host port (initWorker replid host port)
    rw [h] at hconn
    cases hconn
    rfl

/-- `sent` is what the socket has got from the queue of `c`, and `all` what the queue has got. -/
structure Carried (c : ClientId) (sent all : Bytes) (s : Server) : Prop where
  registered : ∀ queue, Registered s c queue → sent ++ queue.draining ++ queue.pending = all
  fresh : s.replQueues c = none → sent = [] ∧ all = []

theorem handed_of_result (he : e.result = none) (c : ClientId) (s : Server) : handed c s e = [] := by
  cases e with
  | writerStep result => cases he
  | _ => rfl

theorem greeted_of_taking (h : s.taking e = none) (c : ClientId) : greeted c s e = [] := by
  simp only [greeted, h]

theorem enqueued_registered (hq : Registered s c queue) (e : Event) :
    enqueued c s e = Resp.framing.stream (streamed s e) := by
  rw [enqueued, hq.1]
  exact if_neg (by rw [hq.2]; decide)

theorem enqueued_fresh (hq : s.replQueues c = none) (e : Event) : enqueued c s e = greeted c s e := by
  rw [enqueued, hq]

theorem enqueued_eq_nil (ht : s.taking e = none) (hs : streamed s e = []) (c : ClientId) :
    enqueued c s e = [] := by
  unfold enqueued
  split
  · split
    · rfl
    · rw [hs, Lib.Framing.stream_nil]
  · exact greeted_of_taking ht c

namespace Carried

variable {sent all : Bytes}

theorem feeds (h : Carried c sent all s) (hf : Feeds c data s t)
    (hdata : ∀ queue, Registered s c queue → enqueued c s e = data)
    (hnone : s.replQueues c = none → enqueued c s e = []) :
    Carried c sent (all ++ enqueued c s e) t where
  registered queue hq := by
    obtain ⟨queue', hq', rfl⟩ := hf.registered queue hq
    rw [hdata queue' hq', ← h.registered queue' hq', List.append_assoc _ _ data]
  fresh hq := by
    have hs : s.replQueues c = none := by
      rw [← Option.isNone_iff_eq_none, ← Option.not_isSome, ← hf.isSome, hq]
      rfl
    rw [hnone hs, List.append_nil]
    exact h.fresh hs

theorem uneventful (h : Carried c sent all s) (he : Uneventful s e) (hf : Feeds c [] s t) :
    Carried c (sent ++ handed c s e) (all ++ enqueued c s e) t := by
  have hnil := enqueued_eq_nil he.taking he.streamed c
  rw [handed_of_result he.result, List.append_nil]
  exact h.feeds hf (fun _ _ ↦ hnil) (fun _ ↦ hnil)

section Command

variable {env : Env} {d : ClientId} {client : Client} {args : List Bytes} {n : ℕ}

theorem join (h : Carried c sent all s) (henrolled : Enrolled s) (hc : Receives s d client args n)
    (ht : client.type = .regular) (hn : commandName args = ascii "PSYNC") :
    Carried c sent (all ++ enqueued c s (.process env))
      (addReplica d (s.resyncReply env.clock args) { s with sends := env.sends }) := by
  have hgreeted : greeted c s (.process env) =
      if d = c then s.resyncReply env.clock args else [] := by
    simp only [greeted, hc.taking_eq, ht, hn, and_self, and_true]
  by_cases hne : c = d
  · subst hne
    have hnone := henrolled.unqueued c client hc.connected (by rw [ht]; decide)
    obtain ⟨hsent, hall⟩ := h.fresh hnone
    rw [if_pos rfl] at hgreeted
    have hqueue : (addReplica c (s.resyncReply env.clock args) { s with sends := env.sends }
        ).replQueues c = some { pending := s.resyncReply env.clock args, fd := client.fd } := by
      simp only [addReplica, update_self, hc.connected, Option.map_some]
    rw [enqueued_fresh hnone, hgreeted, hsent, hall]
    refine ⟨fun queue hq ↦ ?_, fun hq ↦ ?_⟩
    · have hq := hq.1
      rw [hqueue, Option.some.injEq] at hq
      subst hq
      rfl
    · rw [hqueue] at hq
      cases hq
  · have hname : Command.isWrite args = false := isWrite_of_psync hn
    have hstreamed : streamed s (.process env) = [] := by
      rw [streamed_process hc, if_pos ht]
      exact broadcast_of_name hname (fun h ↦ absurd (hn.symm.trans h) (by decide)) s
    rw [if_neg (Ne.symm hne)] at hgreeted
    refine h.feeds (Feeds.of_eq (update_of_ne hne ..)) (fun queue hq ↦ ?_) (fun hq ↦ ?_)
    · rw [enqueued_registered hq, hstreamed, Lib.Framing.stream_nil]
    · rw [enqueued_fresh hq, hgreeted]

theorem command (h : Carried c sent all s) (hcons : Consistent s) (henrolled : Enrolled s)
    (hc : Receives s d client args n)
    (hacted : Acted gone env d client args (loaded env client args s) t) :
    Carried c sent (all ++ enqueued c s (.process env)) t := by
  have hcons' : Consistent (loaded env client args s) :=
    hcons.of_same ⟨rfl, fun _ ↦ rfl, rfl, fun _ ↦ rfl, rfl, rfl, .inl⟩
  have hstreamed : streamed s (.process env) =
      if client.type = .regular then s.broadcast args else [] := streamed_process hc
  have hfed (cmds : List (List Bytes)) (hb : streamed s (.process env) = cmds)
      (hn : client.type = .regular → commandName args ≠ ascii "PSYNC")
      (hf : Feeds c (Resp.framing.stream cmds) s t) :
      Carried c sent (all ++ enqueued c s (.process env)) t := by
    refine h.feeds hf (fun queue hq ↦ ?_) (fun hq ↦ ?_)
    · rw [enqueued_registered hq, hb]
    · rw [enqueued_fresh hq]
      simp only [greeted, hc.taking_eq]
      exact if_neg (fun hjoin ↦ hn hjoin.2.1 hjoin.2.2)
  have hstream (args : List Bytes) : Resp.framing.stream [args] = Resp.encodeArray args :=
    List.append_nil _
  cases hacted with
  | thinned t ht hp =>
    have hf := Feeds.thins ht c
    refine hfed [] ?_ (fun htype ↦ (hp htype).name) ⟨hf.registered, hf.isSome⟩
    rw [hstreamed]
    split
    · next htype => exact (hp htype).broadcast
    · rfl
  | acked htype n t ht =>
    have hf := Feeds.thins ht c
    refine hfed [] ?_ ?_ ⟨hf.registered, hf.isSome⟩
    · rw [hstreamed, htype]
      rfl
    · intro h
      rw [htype] at h
      cases h
  | wrote htype hb hn t ht hq hr =>
    have hf := Feeds.propagate hcons' hq hr c (Resp.encodeArray args)
    refine hfed [args] ?_ (fun _ ↦ hn) ?_
    · rw [hstreamed, if_pos htype]
      exact hb
    · rw [hstream]
      exact ⟨hf.registered, hf.isSome⟩
  | parked htype hb hn t ht wait =>
    subst ht
    have hf := Feeds.propagate hcons' rfl rfl c (Resp.encodeArray Command.getack)
    refine hfed [Command.getack] ?_ (fun _ ↦ hn) ?_
    · rw [hstreamed, if_pos htype]
      exact hb
    · rw [hstream]
      exact ⟨hf.registered, hf.isSome⟩
  | joined htype hb hn =>
    have hload : loaded env client args s = { s with sends := env.sends } := by
      rw [loaded, Command.execute_of_not_write _ _ _ _ (isWrite_of_psync hn)]
    rw [handlePsync_eq, hload]
    exact h.join henrolled hc htype hn
  | linked htype hn hp fd leftover t ht =>
    have hf := Feeds.thins ht c
    refine hfed [] ?_ (fun _ ↦ hp.name) ⟨hf.registered, hf.isSome⟩
    rw [hstreamed, if_pos htype]
    exact hp.broadcast

end Command

theorem congr (h : Carried c sent all s) (hq : t.replQueues c = s.replQueues c) :
    Carried c sent all t := by
  refine ⟨fun queue hreg ↦ h.registered queue ?_, fun hnone ↦ h.fresh (hq ▸ hnone)⟩
  rw [Registered, ← hq]
  exact hreg

theorem of_eq (h : Carried c sent all s) (hq : t.replQueues c = s.replQueues c)
    (hh : handed c s e = []) : Carried c (sent ++ handed c s e) all t := by
  rw [hh, List.append_nil]
  exact h.congr hq

theorem setDraining (h : Carried c sent all s) (hq : s.replQueues c = some queue)
    (more draining : Bytes) (hd : queue.removed = false → queue.draining = more ++ draining)
    (ht : t.replQueues c = some { queue with draining := draining }) :
    Carried c (sent ++ more) all t where
  registered queue' hreg := by
    have heq := hreg.1
    rw [ht, Option.some.injEq] at heq
    subst heq
    have hremoved : queue.removed = false := hreg.2
    rw [← h.registered queue ⟨hq, hremoved⟩, hd hremoved]
    simp only [List.append_assoc]
  fresh hnone := by
    rw [ht] at hnone
    cases hnone

theorem writerSend (h : Carried c sent all s) (hcons : Consistent s) {rest : List ClientId}
    (hsnap : s.snapshot = c :: rest) (hq : s.replQueues c = some queue) (hsending : s.sending = true)
    {result : SendResult} (hresult : result ≠ .error) :
    Carried c (sent ++ handed c s (.writerStep result)) all (s.writerStep result) := by
  by_cases hempty : queue.draining = []
  · refine h.of_eq ?_ ?_
    · simp only [Server.writerStep, hsnap, hq, hsending, hempty, List.isEmpty_nil, Bool.not_true,
        Bool.false_eq_true, if_false, if_true]
      exact hq
    · cases result <;> simp [handed, hsnap, hq, hempty]
  · have hdraining : queue.draining.isEmpty = false := List.isEmpty_eq_false_iff.mpr hempty
    have hopen (hr : queue.removed = false) : s.fds queue.fd = some c := by
      obtain ⟨client, hc, -⟩ := (hcons.replica_iff c).mp ((hcons.queue_iff c).mpr ⟨queue, hq, hr⟩)
      rw [hcons.queue_fd c queue client hq hc hr]
      exact hcons.fd c client hc
    cases hfd : s.fds queue.fd with
    | none =>
      have hh : handed c s (.writerStep result) = [] := by
        cases result <;> simp [handed, hsnap, hq, hfd]
      rw [hh]
      refine h.setDraining hq [] [] (fun hr ↦ ?_) ?_
      · rw [hopen hr] at hfd
        cases hfd
      · simp [Server.writerStep, hsnap, hq, hsending, hdraining, hfd, Server.setDraining, nextQueue]
    | some d =>
      cases result with
      | sent n =>
        have hh : handed c s (.writerStep (.sent n)) = queue.draining.take (n + 1) := by
          simp [handed, hsnap, hq, hfd, hsending]
        rw [hh]
        refine h.setDraining hq _ _ (fun _ ↦ (List.take_append_drop (n + 1) _).symm) ?_
        simp [Server.writerStep, hsnap, hq, hsending, hdraining, hfd, Server.setDraining]
      | again =>
        refine h.of_eq ?_ ?_
        · simp [Server.writerStep, hsnap, hq, hsending, hdraining, hfd, nextQueue]
        · simp only [handed]
      | error => exact absurd rfl hresult

theorem writerStep (h : Carried c sent all s) (hcons : Consistent s) {result : SendResult}
    (hsend : Unfailing c s (.writerStep result)) :
    Carried c (sent ++ handed c s (.writerStep result)) all (s.writerStep result) := by
  cases hsnap : s.snapshot with
  | nil =>
    refine h.of_eq ?_ ?_
    · simp only [Server.writerStep, hsnap]
    · cases result <;> simp only [handed, hsnap]
  | cons d rest =>
    by_cases hne : d = c
    · subst hne
      cases hq : s.replQueues d with
      | none =>
        refine h.of_eq ?_ ?_
        · simp only [Server.writerStep, hsnap, hq]
          exact hq
        · cases result <;> simp only [handed, hsnap, hq]
      | some queue =>
        cases hsending : s.sending with
        | false =>
          refine h.of_eq ?_ ?_
          · simp only [Server.writerStep, hsnap, hq, hsending, Bool.not_false, if_true]
            split <;> exact hq
          · cases result <;> simp [handed, hsnap, hq, hsending]
        | true =>
          refine h.writerSend hcons hsnap hq hsending ?_
          rintro rfl
          exact hsend rfl hsending (by rw [hsnap]; rfl)
    · have hother (draining : Bytes) : (s.setDraining d draining).replQueues c = s.replQueues c :=
        update_of_ne (Ne.symm hne) ..
      refine h.of_eq ?_ ?_
      · unfold Server.writerStep
        simp only [hsnap]
        split
        · rfl
        · split
          · split <;> rfl
          · split
            · rfl
            · split
              · exact hother _
              · rfl
              · exact hother _
      · cases result <;> cases hq : s.replQueues c <;> simp [handed, hsnap, hq, hne]

theorem writerSwap (h : Carried c sent all s) (order : List ClientId) :
    Carried c sent all (s.writerSwap order) where
  registered queue hreg := by
    obtain ⟨queue', hq, hswap⟩ := Option.map_eq_some_iff.mp hreg.1
    have hremoved : queue'.removed = false := by
      have hr := hreg.2
      rw [← hswap, swapQueue] at hr
      split at hr
      · exact hr
      · exact hr
    rw [swapQueue, if_neg (by rw [hremoved]; decide)] at hswap
    rw [← hswap, ← h.registered queue' ⟨hq, hremoved⟩]
    simp
  fresh hnone := h.fresh (Option.map_eq_none_iff.mp hnone)

theorem step (h : Carried c sent all s) (hcons : Consistent s) (henrolled : Enrolled s)
    (hsend : Unfailing c s e) :
    Carried c (sent ++ handed c s e) (all ++ enqueued c s e) (step s e) := by
  have hchurn : Churn (fun _ ↦ True) s e (Server.step s e) := step_churn (spares_all s e)
  have hmain (he : e.result = none) (hc : Carried c sent (all ++ enqueued c s e) (Server.step s e)) :
      Carried c (sent ++ handed c s e) (all ++ enqueued c s e) (Server.step s e) := by
    rw [handed_of_result he, List.append_nil]
    exact hc
  generalize Server.step s e = t at hchurn hmain ⊢
  cases hchurn with
  | accepted fd hfd =>
    rw [handleAccept, hfd]
    exact h.uneventful ⟨rfl, rfl, rfl⟩ (.of_eq rfl)
  | received => exact h.uneventful ⟨rfl, rfl, rfl⟩ (.of_eq rfl)
  | thinned e sends t ht he =>
    have hf := Feeds.thins ht c
    exact h.uneventful he ⟨hf.registered, hf.isSome⟩
  | paused e store pc unswept hs hpc he => exact h.uneventful he (.of_eq rfl)
  | finished env d client hpc hc hn t ht =>
    have hf := Feeds.thins ht c
    refine h.uneventful ⟨?_, ?_, rfl⟩ ⟨hf.registered, hf.isSome⟩
    · simp only [taking, hpc, hc, hn, Option.bind_some, Option.map_none]
    · simp [streamed, hpc, hc, hn]
  | command env d client args n hc t ht =>
    exact hmain rfl ((h.command hcons henrolled hc ht).congr (congrFun (eraseRead_queues d n t) c))
  | swept key keys hpc hb =>
    have hf : Feeds c (Resp.encodeArray [ascii "DEL", key]) s (s.sweepKey key) :=
      Feeds.propagate (t := { s with
        masterReplOffset := s.masterReplOffset + (Resp.encodeArray [ascii "DEL", key]).length
        backlog := s.backlog.feed (Resp.encodeArray [ascii "DEL", key]) s.masterReplOffset })
        hcons rfl rfl c _
    refine hmain rfl (h.feeds ⟨hf.registered, hf.isSome⟩ (fun queue hq ↦ ?_) (fun hq ↦ ?_))
    · rw [enqueued_registered hq, hb]
      exact List.append_nil _
    · rw [enqueued_fresh hq]
      rfl
  | swapped order =>
    rw [enqueued_eq_nil rfl rfl, List.append_nil, handed_of_result rfl, List.append_nil]
    exact h.writerSwap order
  | sent result =>
    rw [enqueued_eq_nil rfl rfl, List.append_nil]
    exact h.writerStep hcons hsend

end Carried

/-- Whatever the interleaving, what has been handed to the socket, what is being sent and what is
waiting is everything that was put into the queue. -/
theorem carried_run {sent all : Bytes} {es : List Event} (hcons : Consistent s)
    (henrolled : Enrolled s) (h : Carried c sent all s) (hrun : Along step (Unfailing c) s es) :
    Carried c (sent ++ trace step (handed c) s es) (all ++ trace step (enqueued c) s es)
      (run step s es) := by
  induction es generalizing s sent all with
  | nil =>
    rw [trace_nil, trace_nil, List.append_nil, List.append_nil]
    exact h
  | cons e es ih =>
    rw [trace_cons, trace_cons, ← List.append_assoc, ← List.append_assoc]
    exact ih (hcons.step e) (henrolled.step hcons e) (h.step hcons henrolled hrun.1) hrun.2

/-- In a run in which the writer thread's sends to `c` do not fail for good, the socket has got a
prefix of what was put into the queue, as long as the connection is open. -/
theorem stream_has_no_hole {s₀ : Server} {es : List Event} (h₀ : Initial s₀)
    (hrun : Along step (Unfailing c) s₀ es) (hq : Registered (run step s₀ es) c queue) :
    trace step (handed c) s₀ es <+: trace step (enqueued c) s₀ es := by
  have hnone := queues_of_initial h₀
  have henrolled : Enrolled s₀ := ⟨fun c _ _ _ ↦ hnone c, fun c _ ↦ hnone c⟩
  have hfresh : Carried c [] [] s₀ := by
    refine ⟨fun queue hq ↦ ?_, fun _ ↦ ⟨rfl, rfl⟩⟩
    rw [Registered, hnone] at hq
    cases hq.1
  have h := (carried_run (Consistent.of_initial h₀) henrolled hfresh hrun).registered queue hq
  rw [List.nil_append, List.nil_append, List.append_assoc] at h
  exact ⟨_, h⟩

def pushRun (result : SendResult) : List Event :=
  replicaRun ++ [.writerSwap [0], .writerStep .again, .writerStep result, .writerStep .again] ++
    .accept 6 :: request 1 [ascii "SET", ascii "k", ascii "v"] (.quiet 0) ++
    [.writerSwap [0], .writerStep .again, .writerStep (.sent 1000)]

theorem pushRun_sent :
    trace step (handed 0) (init sampleId) (pushRun (.sent 9)) <+:
        trace step (enqueued 0) (init sampleId) (pushRun (.sent 9)) ∧
      (trace step (handed 0) (init sampleId) (pushRun (.sent 9))).length = 181 := by
  have hqueue : ((run step (init sampleId) (pushRun (.sent 9))).replQueues 0).map (·.removed) =
      some false := by decide +kernel
  obtain ⟨queue, hq, hremoved⟩ := Option.map_eq_some_iff.mp hqueue
  exact ⟨stream_has_no_hole (.master sampleId) (by decide +kernel) ⟨hq, hremoved⟩,
    by decide +kernel⟩

/-- After a failed `send` the writer thread drops what it had taken and goes on with what comes
next, on the same connection. -/
theorem failed_send_leaves_hole :
    ((run step (init sampleId) (pushRun .error)).replQueues 0).map (·.removed) = some false ∧
      trace step (handed 0) (init sampleId) (pushRun .error) =
        Resp.encodeArray [ascii "SET", ascii "k", ascii "v"] ∧
      trace step (enqueued 0) (init sampleId) (pushRun .error) =
        fullResyncReply (Env.quiet 0).clock (init sampleId) ++
          Resp.encodeArray [ascii "SET", ascii "k", ascii "v"] ∧
      ¬trace step (handed 0) (init sampleId) (pushRun .error) <+:
        trace step (enqueued 0) (init sampleId) (pushRun .error) := by
  decide +kernel

end RedisLite.Server
