import RedisLite.Conversation
import RedisLite.Lasting
import RedisLite.Registry

namespace RedisLite.Server

open Function Lib.Run
open scoped List

variable {s : Server} {c : ClientId} {e : Event} {client : Client}

/-- A step that keeps replies and replication apart on the connection `c`. No command is taken from
it while a `WAIT` of its own is parked; its `PSYNC` is taken when all replies have been sent; no
`send` fails while parked waits are answered or when the writer thread sends to `c`; and the writer
thread does not send from the queue of a replica that is gone when `c` has got its descriptor. -/
@[mk_iff] structure Separates (c : ClientId) (s : Server) (e : Event) : Prop where
  patient : ∀ tk ∈ s.taking e, tk.c = c → tk.client.type = .regular →
    ∀ wait ∈ s.pendingWaits, wait.client ≠ c
  drained : ∀ tk ∈ s.taking e, tk.c = c → tk.client.type = .regular →
    commandName tk.args = ascii "PSYNC" → tk.client.writeBuf = []
  prompt : Prompt s e
  unfailing : Unfailing c s e
  foreign : e.result ≠ none → ∀ d ∈ s.snapshot.head?, ∀ queue ∈ s.replQueues d,
    queue.removed = true → s.fds queue.fd ≠ some c

instance (c : ClientId) (s : Server) (e : Event) : Decidable (Separates c s e) :=
  decidable_of_iff _ (separates_iff c s e).symm

theorem Separates.serves (h : Separates c s e)
    (hr : ∀ client, s.clients c = some client → client.type = .regular) : Serves c s e where
  regular := hr
  patient tk htk hc := by
    refine h.patient tk htk hc (hr tk.client ?_)
    rw [← hc]
    exact (receives_of_taking htk).2.connected
  prompt := h.prompt
  foreign := h.foreign

theorem irregular_run (hcons : Consistent s) (hc : s.clients c = some client)
    (ht : client.type ≠ .regular) (es : List Event) :
    ∀ client', (run step s es).clients c = some client' → client'.type ≠ .regular := by
  refine (run_stable step (I := fun s ↦ c < s.nextId ∧
    ∀ client', s.clients c = some client' → client'.type ≠ .regular) ?_ ⟨hcons.lt_nextId hc, ?_⟩ es).2
  · intro s e ⟨hlt, hirregular⟩
    have htyped := Typed.step hlt e
    refine ⟨hlt.trans_le htyped.ids, fun client' hc' ↦ ?_⟩
    obtain ⟨old, hold, hsame⟩ := htyped.client client' hc'
    rw [hsame (hirregular old hold)]
    exact hirregular old hold
  · intro client' hc'
    rw [hc, Option.some.injEq] at hc'
    exact hc' ▸ ht

theorem serves_along {es : List Event} (hcons : Consistent s)
    (hrun : Along step (Separates c) s es) (hc : (run step s es).clients c = some client)
    (ht : client.type = .regular) : Along step (Serves c) s es := by
  induction es generalizing s with
  | nil => trivial
  | cons e es ih =>
    refine ⟨hrun.1.serves (fun client' hc' ↦ ?_), ih (hcons.step e) hrun.2 hc⟩
    by_contra hne
    exact irregular_run hcons hc' hne (e :: es) client hc ht

theorem fds_of_registered (hcons : Consistent s) {queue : ReplicaWriteQueue}
    (h : Registered s c queue) : s.fds queue.fd = some c := by
  obtain ⟨replica, hreplica, -⟩ := (hcons.replica_iff c).mp ((hcons.queue_iff c).mpr ⟨queue, h⟩)
  rw [hcons.queue_fd c queue replica h.1 hreplica h.2]
  exact hcons.fd c replica hreplica

theorem handed_eq_nil {result : SendResult} (h : ∀ n queue, result = .sent n →
      s.snapshot.head? = some c → s.replQueues c = some queue → s.sending = true →
      (s.fds queue.fd).isSome = true → queue.draining = []) :
    handed c s (.writerStep result) = [] := by
  unfold handed
  split
  · next n d rest queue he hsnap hq =>
    split
    · next hcond =>
      obtain ⟨rfl, hsending, hfd⟩ := hcond
      rw [h n queue (Event.writerStep.inj he) (by rw [hsnap]; rfl) hq hsending hfd, List.take_nil]
    · rfl
  · rfl

theorem handed_sent {queue : ReplicaWriteQueue} (hsnap : s.snapshot.head? = some c)
    (hq : s.replQueues c = some queue) (hsending : s.sending = true)
    (hfd : (s.fds queue.fd).isSome = true) (n : ℕ) :
    handed c s (.writerStep (.sent n)) = queue.draining.take (n + 1) := by
  obtain ⟨rest, hsnap⟩ := List.head?_eq_some_iff.mp hsnap
  simp only [handed, hsnap, hq, hsending, hfd, and_self, if_true]

/-- The writer thread adds to what one connection has been sent: the one that has the descriptor
of the queue at the front of its snapshot. -/
theorem wire_writerStep (result : SendResult) (s : Server) :
    ((s.writerStep result).wire = s.wire ∧ ∀ c, handed c s (.writerStep result) = []) ∨
    ∃ d queue target n, s.snapshot.head? = some d ∧ s.replQueues d = some queue ∧
      s.sending = true ∧ s.fds queue.fd = some target ∧ result = .sent n ∧
      (s.writerStep result).wire =
        update s.wire target (s.wire target ++ queue.draining.take (n + 1)) := by
  unfold writerStep
  split
  · next hsnap =>
    refine .inl ⟨rfl, fun c ↦ handed_eq_nil (fun n queue _ h ↦ ?_)⟩
    rw [hsnap] at h
    cases h
  · next d rest hsnap =>
    have hhead (c : ClientId) (h : s.snapshot.head? = some c) : c = d := by
      rw [hsnap] at h
      exact (Option.some.inj h).symm
    split
    · next hnone =>
      refine .inl ⟨rfl, fun c ↦ handed_eq_nil (fun n queue _ h hq ↦ ?_)⟩
      rw [hhead c h, hnone] at hq
      cases hq
    · next queue hq =>
      have hqueue (c : ClientId) (queue' : ReplicaWriteQueue) (h : s.snapshot.head? = some c)
          (hq' : s.replQueues c = some queue') : queue' = queue := by
        rw [hhead c h, hq] at hq'
        exact (Option.some.inj hq').symm
      split
      · next hsending =>
        have hnone (c : ClientId) : handed c s (.writerStep result) = [] :=
          handed_eq_nil (fun n queue' _ _ _ h ↦ by simp [h] at hsending)
        split <;> exact .inl ⟨rfl, hnone⟩
      · next hsending =>
        split
        · next hempty =>
          refine .inl ⟨rfl, fun c ↦ handed_eq_nil (fun n queue' _ h hq' _ _ ↦ ?_)⟩
          rw [hqueue c queue' h hq']
          exact List.isEmpty_iff.mp hempty
        · split
          · next target n hfd =>
            refine .inr ⟨d, queue, target, n, by rw [hsnap]; rfl, hq, ?_, hfd, rfl, rfl⟩
            simpa using hsending
          · exact .inl ⟨rfl, fun c ↦ handed_eq_nil nofun⟩
          · next hunsent _ =>
            refine .inl ⟨rfl, fun c ↦ handed_eq_nil (fun n queue' hn h hq' _ hfd ↦ ?_)⟩
            rw [hqueue c queue' h hq'] at hfd
            obtain ⟨target, hfd⟩ := Option.isSome_iff_exists.mp hfd
            exact (hunsent target n hfd hn).elim

theorem wire_handed (hcons : Consistent s) {result : SendResult}
    (hs : Separates c s (.writerStep result)) : (s.writerStep result).wire c =
      s.wire c ++ if c ∈ s.replicas then handed c s (.writerStep result) else [] := by
  rcases wire_writerStep result s with ⟨hsame, hnone⟩ |
    ⟨d, queue, target, n, hsnap, hq, hsending, hfd, rfl, hwire⟩
  · rw [hsame, hnone, ite_self, List.append_nil]
  · have hown (hr : queue.removed = false) : target = d :=
      Option.some.inj (hfd.symm.trans (fds_of_registered hcons ⟨hq, hr⟩))
    rw [hwire]
    by_cases htarget : target = c
    · subst htarget
      have hr : queue.removed = false := by
        by_contra hr
        exact hs.foreign nofun d hsnap queue hq (by simpa using hr) hfd
      have hd := hown hr
      subst hd
      rw [update_self, if_pos ((hcons.queue_iff target).mpr ⟨queue, hq, hr⟩),
        handed_sent hsnap hq hsending (by rw [hfd]; rfl)]
    · rw [update_of_ne (Ne.symm htarget)]
      have hnone (hmem : c ∈ s.replicas) : handed c s (.writerStep (.sent n)) = [] := by
        refine handed_eq_nil (fun _ queue' _ hsnap' hq' _ _ ↦ absurd ?_ htarget)
        cases hsnap.symm.trans hsnap'
        cases hq.symm.trans hq'
        obtain ⟨queue'', hq'', hr⟩ := (hcons.queue_iff c).mp hmem
        cases hq.symm.trans hq''
        exact hown hr
      split
      · next hmem => rw [hnone hmem, List.append_nil]
      · rw [List.append_nil]

structure Muted (c : ClientId) (s : Server) : Prop where
  known : c < s.nextId
  waits : s.waitsOf c = []
  client : ∀ client, s.clients c = some client → client.type = .replica ∧ client.writeBuf = []

namespace Muted

theorem outbound_eq (h : Muted c s) : s.outbound c = s.wire c := by
  unfold outbound
  cases hc : s.clients c with
  | none => exact List.append_nil _
  | some client =>
    rw [Option.map_some, Option.getD_some, (h.client client hc).2, List.append_nil]

theorem taken (h : Muted c s) {tk : Taking} (htk : s.taking e = some tk) (hc : tk.c = c) :
    tk.client.type = .replica := by
  have hconnected := (receives_of_taking htk).2.connected
  rw [hc] at hconnected
  exact (h.client tk.client hconnected).1

theorem waits_step (h : Muted c s) (hcons : Consistent s) (hl : Live s) (hp : Prompt s e) :
    (step s e).waitsOf c = [] := by
  have hparked : (parked s e).filter (·.client = c) = [] := by
    refine List.filter_eq_nil_iff.mpr (fun wait hmem hw ↦ ?_)
    obtain ⟨tk, htk, hclient, ht⟩ := client_of_parked hmem
    rw [h.taken htk (hclient.trans (of_decide_eq_true hw))] at ht
    cases ht
  rw [waitsOf_step (step_accounted hcons hl hp), h.waits, hparked]
  rfl

theorem quiet (h : Muted c s) (hcons : Consistent s) (hl : Live s) (hp : Prompt s e)
    (he : e.result = none) : (step s e).wire c = s.wire c ∧ Muted c (step s e) := by
  have hsettled : settledTurns c s e = [] := by
    rw [settledTurns_eq, h.waits]
    rfl
  have hears : Hears c (saying (settledTurns c s e)) s (step s e) := by
    refine hears_settled hl hp ?_ (fun tk htk hc ↦ h.taken htk hc)
    rintro result rfl
    cases he
  rw [hsettled] at hears
  have htold : (step s e).outbound c <+: s.wire c := by
    have hsent := (hears.told h.known).sent
    rwa [h.outbound_eq, saying, List.flatMap_nil, List.append_nil] at hsent
  have hmono := (step_churn (spares_all s e)).wire he c
  have hwire : (step s e).wire c = s.wire c := by
    have hbegins : (step s e).wire c <+: (step s e).outbound c := List.prefix_append _ _
    exact (hbegins.trans htold).eq_of_length_le hmono.length_le
  refine ⟨hwire, (h.known.trans_le (Typed.step h.known e).ids), h.waits_step hcons hl hp, ?_⟩
  intro client hc
  obtain ⟨old, hold, htype⟩ := (Typed.step h.known e).client client hc
  have hreplica := (h.client old hold).1
  refine ⟨(htype (by rw [hreplica]; decide)).trans hreplica, ?_⟩
  have hlength := htold.length_le
  rw [outbound, hc, hwire, List.length_append] at hlength
  exact List.eq_nil_of_length_eq_zero (by simpa using hlength)

end Muted

/-- The connection has been sent `total` but for what is still in its queue, and once it is closed
a part of it. -/
structure Joined (c : ClientId) (total : Bytes) (s : Server) : Prop where
  muted : Muted c s
  queued : (s.replQueues c).isSome = true
  carried : Carried c (s.wire c) total s
  wire : s.wire c <+: total

namespace Joined

variable {total : Bytes}

theorem replica_of_replica (h : Joined c total s) (hcons : Consistent s)
    (hmem : c ∈ (step s e).replicas) : c ∈ s.replicas := by
  obtain ⟨client, hc, -⟩ := ((hcons.step e).replica_iff c).mp hmem
  obtain ⟨old, hold, -⟩ := (Typed.step h.muted.known e).client client hc
  exact (hcons.replica_iff c).mpr ⟨old, hold, (h.muted.client old hold).1⟩

theorem wire_step (h : Joined c total s) (hcons : Consistent s) (hl : Live s)
    (hs : Separates c s e) : Muted c (step s e) ∧
      (step s e).wire c = s.wire c ++ if c ∈ s.replicas then handed c s e else [] := by
  cases hresult : e.result with
  | none =>
    obtain ⟨hwire, hmuted⟩ := h.muted.quiet hcons hl hs.prompt hresult
    refine ⟨hmuted, ?_⟩
    rw [handed_of_result hresult, ite_self, List.append_nil, hwire]
  | some result =>
    cases e with
    | writerStep result =>
      have hstep : Server.step s (.writerStep result) = s.writerStep result := by
        simp only [Server.step]
      obtain ⟨hclients, hwaits, -⟩ := writerStep_frame result s
      rw [hstep]
      refine ⟨⟨(writerStep_same result s).nextId ▸ h.muted.known, ?_, hclients ▸ h.muted.client⟩,
        wire_handed hcons hs⟩
      rw [waitsOf, hwaits]
      exact h.muted.waits
    | _ => cases hresult

theorem step (h : Joined c total s) (hcons : Consistent s) (henrolled : Enrolled s) (hl : Live s)
    (hs : Separates c s e) :
    Joined c (total ++ Resp.framing.stream (streamed s e)) (step s e) := by
  obtain ⟨hmuted, hwire⟩ := h.wire_step hcons hl hs
  have hqueued := isSome_step h.queued e
  have hcarried := h.carried.step hcons henrolled hs.unfailing
  have hlaw (queue : ReplicaWriteQueue) (hq : Registered (Server.step s e) c queue) :
      (Server.step s e).wire c ++ queue.draining ++ queue.pending =
        total ++ Resp.framing.stream (streamed s e) := by
    have hmem := h.replica_of_replica hcons (((hcons.step e).queue_iff c).mpr ⟨queue, hq⟩)
    obtain ⟨old, hold⟩ := (hcons.queue_iff c).mp hmem
    rw [hwire, if_pos hmem, hcarried.registered queue hq, enqueued_registered hold]
  refine ⟨hmuted, hqueued, ⟨hlaw, fun hnone ↦ ?_⟩, ?_⟩
  · rw [hnone] at hqueued
    cases hqueued
  · by_cases hmem : c ∈ (Server.step s e).replicas
    · obtain ⟨queue, hq⟩ := ((hcons.step e).queue_iff c).mp hmem
      rw [← hlaw queue hq, List.append_assoc]
      exact List.prefix_append _ _
    · -- a step that closes the connection is not one of the writer thread's
      have hsame : (Server.step s e).wire c = s.wire c := by
        cases e with
        | writerStep result =>
          have hreplicas : (Server.step s (.writerStep result)).replicas = s.replicas := by
            simp only [Server.step]
            exact (writerStep_same result s).replicas
          rw [hwire, if_neg (hreplicas ▸ hmem), List.append_nil]
        | _ => rw [hwire, handed_of_result rfl, ite_self, List.append_nil]
      rw [hsame]
      exact h.wire.trans (List.prefix_append _ _)

theorem run {es : List Event} (h : Joined c total s) (hcons : Consistent s)
    (henrolled : Enrolled s) (hl : Live s) (hrun : Along Server.step (Separates c) s es) :
    (Lib.Run.run Server.step s es).wire c <+:
      total ++ Resp.framing.stream (trace Server.step streamed s es) := by
  induction es generalizing s total with
  | nil =>
    rw [trace_nil, Lib.Framing.stream_nil, List.append_nil]
    exact h.wire
  | cons e es ih =>
    rw [trace_cons, Lib.Framing.stream_append, ← List.append_assoc]
    exact ih (h.step hcons henrolled hl hrun.1) (hcons.step e) (henrolled.step hcons e)
      (live_step hcons hl hrun.1.prompt) hrun.2

end Joined

theorem joined_psync {args : List Bytes} {n : ℕ} (hcons : Consistent s)
    (hc : Receives s c client args n) (ht : client.type = .regular)
    (hn : commandName args = ascii "PSYNC") (hempty : client.writeBuf = [])
    (hwaits : s.waitsOf c = []) (env : Env) :
    Joined c (s.wire c ++ s.resyncReply env.clock args) (step s (.process env)) := by
  have hjoin : step s (.process env) =
      (addReplica c (s.resyncReply env.clock args) { s with sends := env.sends }).mapClient c
        (fun client ↦ { client with readBuf := client.readBuf.drop n }) := by
    rw [step_psync env hc ht hn, handlePsync_eq, eraseRead, if_neg, if_neg]
    · rfl
    · simp [addReplica, mapClient, hc.connected]
    · simp [addReplica, mapClient, hc.pc]
  rw [hjoin]
  have hqueue : (addReplica c (s.resyncReply env.clock args) { s with sends := env.sends }
      ).replQueues c = some { pending := s.resyncReply env.clock args, fd := client.fd } := by
    simp only [addReplica, update_self, hc.connected, Option.map_some]
  refine ⟨⟨hcons.lt_nextId hc.connected, hwaits, fun other hother ↦ ?_⟩, ?_,
    ⟨fun queue hq ↦ ?_, fun hnone ↦ ?_⟩, ?_⟩
  · simp only [mapClient, addReplica, update_self, hc.connected, Option.map_some,
      Option.some.injEq] at hother
    rw [← hother]
    exact ⟨rfl, hempty⟩
  · exact (congrArg Option.isSome hqueue).trans rfl
  · cases hqueue.symm.trans hq.1
    change s.wire c ++ [] ++ _ = _
    rw [List.append_nil]
  · cases hqueue.symm.trans hnone
  · exact List.prefix_append _ _

/-- Over a run whose steps keep replies and replication apart on a connection, what it has been sent
after its `PSYNC` are the replies to the commands before, one for each and in their order, then the
resync reply, then commands that are propagated. -/
theorem link_carries_only_replication {s₀ : Server} {es₁ es₂ : List Event} {env : Env}
    {args : List Bytes} {n : ℕ} (h₀ : Initial s₀)
    (hrun : Along step (Separates c) s₀ (es₁ ++ .process env :: es₂))
    (hc : Receives (run step s₀ es₁) c client args n) (ht : client.type = .regular)
    (hn : commandName args = ascii "PSYNC") :
    ∃ pairs, trace step (turns c) s₀ es₁ = exchange pairs none ∧
      (run step s₀ (es₁ ++ .process env :: es₂)).wire c <+:
        (pairs.map (·.2)).flatten ++ (run step s₀ es₁).resyncReply env.clock args ++
          Resp.framing.stream (trace step streamed (run step s₀ (es₁ ++ [.process env])) es₂) := by
  obtain ⟨hbefore, hjoin, hafter⟩ := (along_append step).mp hrun
  have hserves := serves_along (.of_initial h₀) hbefore hc.connected ht
  obtain ⟨hcons, hl⟩ := live_run h₀ (hserves.mono step (fun _ _ h ↦ h.prompt))
  have henrolled : Enrolled (run step s₀ es₁) := by
    have hnone := queues_of_initial h₀
    exact (run_stable step (I := fun s ↦ Consistent s ∧ Enrolled s)
      (fun s e h ↦ ⟨h.1.step e, h.2.step h.1 e⟩)
      ⟨.of_initial h₀, fun c _ _ _ ↦ hnone c, fun c _ ↦ hnone c⟩ es₁).2
  have hconversing := Conversing.of_along h₀ hserves
  have htaking := hc.taking_eq env
  have hempty := hjoin.drained _ htaking rfl ht hn
  have hwaits : (run step s₀ es₁).waitsOf c = [] :=
    List.filter_eq_nil_iff.mpr (fun wait hmem hw ↦
      hjoin.patient _ htaking rfl ht wait hmem (of_decide_eq_true hw))
  obtain ⟨pairs, pending, hdialogue, hcount⟩ := hconversing.exchange
  have hpending : pending = none := by
    rw [hwaits, hc.connected] at hcount
    cases pending with
    | none => rfl
    | some args => cases hcount
  subst hpending
  have hsaid : (run step s₀ es₁).wire c = (pairs.map (·.2)).flatten := by
    have hout := (hconversing.known (hcons.lt_nextId hc.connected)).2 (by rw [hc.connected]; rfl)
    rwa [hdialogue, saying_exchange, outbound, hc.connected, Option.map_some, Option.getD_some,
      hempty, List.append_nil] at hout
  have hjoined := joined_psync hcons hc ht hn hempty hwaits env
  rw [hsaid] at hjoined
  have hwire := hjoined.run (hcons.step _) (henrolled.step hcons _)
    (live_step hcons hl hjoin.prompt) hafter
  refine ⟨pairs, hdialogue, ?_⟩
  rw [run_append, run_append]
  exact hwire

def attachRun : List Event :=
  .accept 5 :: request 0 [ascii "PING"] { Env.quiet 0 with sends := [.sent 2, .sent 100] } ++
    [.recv 0 (Resp.encodeArray [ascii "PSYNC", ascii "?", ascii "-1"])]

def feedRun : List Event :=
  [.process (.quiet 0), .writerSwap [0], .writerStep .again, .writerStep (.sent 9), .accept 6] ++
    request 1 [ascii "SET", ascii "k", ascii "v"] (.quiet 0) ++
    [.writerStep (.sent 1000), .writerStep .again, .writerSwap [0], .writerStep .again,
      .writerStep (.sent 3)]

theorem attachRun_carries :
    ∃ pairs, trace step (turns 0) (init sampleId) attachRun = exchange pairs none ∧
      (run step (init sampleId) (attachRun ++ .process (.quiet 0) :: feedRun)).wire 0 <+:
        (pairs.map (·.2)).flatten ++
          (run step (init sampleId) attachRun).resyncReply (Env.quiet 0).clock
            [ascii "PSYNC", ascii "?", ascii "-1"] ++
          Resp.framing.stream (trace step streamed
            (run step (init sampleId) (attachRun ++ [.process (.quiet 0)])) feedRun) := by
  have hend : (run step (init sampleId) attachRun).pc = .reading 0 ∧
      (run step (init sampleId) attachRun).clients 0 = some {
        fd := 5
        type := .regular
        readBuf := Resp.encodeArray [ascii "PSYNC", ascii "?", ascii "-1"] } := by
    decide +kernel
  exact link_carries_only_replication (n := 30) (.master sampleId) (by decide +kernel)
    ⟨hend.1, hend.2, by decide +kernel, by decide⟩ rfl rfl

def hastyRun : List Event :=
  [.accept 5, .recv 0 (Resp.encodeArray [ascii "PING"] ++
      Resp.encodeArray [ascii "PSYNC", ascii "?", ascii "-1"]),
    .process (.quiet 0), .process (.quiet 0), .writerSwap [0], .writerStep .again,
    .writerStep (.sent 11), .process { Env.quiet 0 with sends := [.sent 100] }]

def waitingRun : List Event :=
  [.accept 5] ++ request 0 [ascii "PSYNC", ascii "?", ascii "-1"] (.quiet 0) ++ [.accept 6] ++
    request 1 [ascii "SET", ascii "k", ascii "v"] { Env.quiet 0 with sends := [.sent 100] } ++
    request 1 [ascii "WAIT", ascii "1", ascii "0"] (.quiet 0) ++
    request 1 [ascii "PSYNC", ascii "?", ascii "-1"] (.quiet 0) ++
    [.writerSwap [1], .writerStep .again, .writerStep (.sent 11)] ++
    request 0 [ascii "REPLCONF", ascii "ACK", ascii "27"] { Env.quiet 1 with sends := [.sent 100] }

/-- Replies inside the resync reply, where the replies to the commands before `PSYNC` should have
been complete. -/
theorem reply_inside_resync :
    ((run step (init sampleId) hastyRun).wire 0 = ascii "+FULLRESYNC +PONG\r\n" ∧
      ∀ rest, ¬(run step (init sampleId) hastyRun).wire 0 <+: ascii "+PONG\r\n" ++ rest) ∧
    ((run step (init sampleId) waitingRun).wire 1 = ascii "+OK\r\n+FULLRESYNC :1\r\n" ∧
      ∀ rest, ¬(run step (init sampleId) waitingRun).wire 1 <+:
        ascii "+OK\r\n" ++ integerReply 1 ++ rest) := by
  have hrun : (run step (init sampleId) hastyRun).wire 0 = ascii "+FULLRESYNC +PONG\r\n" ∧
      (run step (init sampleId) waitingRun).wire 1 = ascii "+OK\r\n+FULLRESYNC :1\r\n" := by
    decide +kernel
  refine ⟨⟨hrun.1, ?_⟩, hrun.2, ?_⟩
  · rintro rest ⟨more, h⟩
    rw [hrun.1] at h
    -- the second byte is the first letter of the resync reply
    have hbyte : some 70 = some (80 : UInt8) := congrArg (fun bytes : Bytes ↦ bytes[1]?) h
    exact absurd (Option.some.inj hbyte) (by decide)
  · rintro rest ⟨more, h⟩
    rw [hrun.2] at h
    have hbyte : some 43 = some (58 : UInt8) := congrArg (fun bytes : Bytes ↦ bytes[5]?) h
    exact absurd (Option.some.inj hbyte) (by decide)

end RedisLite.Server
