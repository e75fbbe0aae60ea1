import RedisLite.Dialogue

namespace RedisLite.Server

open Lib.Run

variable {s : Server} {c : ClientId} {e : Event}

def waitsOf (c : ClientId) (s : Server) : List WaitState := s.pendingWaits.filter (·.client = c)

theorem waitsOf_step (h : Accounted s e) (c : ClientId) : (step s e).waitsOf c =
    (s.waitsOf c).filter (fun wait ↦ !due s e wait && ((step s e).clients c).isSome) ++
      (parked s e).filter (·.client = c) := by
  unfold waitsOf
  rw [h.leaves.waits, List.filter_append, List.filter_filter, List.filter_filter]
  congr 1
  refine List.filter_congr (fun wait _ ↦ ?_)
  by_cases hc : wait.client = c
  · simp [hc]
  · simp [hc]

theorem settledTurns_eq (c : ClientId) (s : Server) (e : Event) :
    settledTurns c s e = ((s.waitsOf c).filter (due s e)).map (fun wait ↦
      .told (integerReply ((s.counted e).countCaughtUpReplicas wait.targetOffset))) := by
  unfold settledTurns answered waitsOf
  rw [List.filter_filter, List.filter_filter]
  congr 1
  exact List.filter_congr (fun wait _ ↦ Bool.and_comm _ _)

/-- A dialogue in which every command but possibly the last is followed by its reply. -/
def exchange (pairs : List (List Bytes × Bytes)) (pending : Option (List Bytes)) : List Turn :=
  pairs.flatMap (fun p ↦ [.asked p.1, .told p.2]) ++ (pending.map .asked).toList

theorem saying_exchange (pairs : List (List Bytes × Bytes)) (pending : Option (List Bytes)) :
    saying (exchange pairs pending) = (pairs.map (·.2)).flatten := by
  have hpending : saying (pending.map .asked).toList = [] := by
    cases pending <;> rfl
  rw [exchange, saying_append, hpending, List.append_nil]
  induction pairs with
  | nil => rfl
  | cons p pairs ih =>
    rw [List.flatMap_cons, saying_append, ih, List.map_cons, List.flatten_cons]
    congr 1
    exact List.append_nil p.2

theorem exchange_told (pairs : List (List Bytes × Bytes)) (args reply : _) :
    exchange pairs (some args) ++ [.told reply] = exchange (pairs ++ [(args, reply)]) none := by
  simp [exchange]

theorem exchange_asked (pairs : List (List Bytes × Bytes)) (args : List Bytes)
    (reply : Option Bytes) :
    exchange pairs none ++ .asked args :: (reply.map .told).toList =
      match reply with
      | some reply => exchange (pairs ++ [(args, reply)]) none
      | none => exchange pairs (some args) := by
  cases reply <;> simp [exchange]

theorem parked_of_answer (env : Env) {client : Client} {args : List Bytes} {n : ℕ}
    (hc : Receives s c client args n) (ht : client.type = .regular) :
    match s.answer env args with
    | some _ => parked s (.process env) = []
    | none => ∃ wait, parked s (.process env) = [wait] ∧ wait.client = c := by
  simp only [parked, hc.taking_eq, ht, true_and]
  by_cases hn : commandName args = ascii "WAIT"
  · rw [answer_wait hn]
    by_cases hr : Command.executeWait args = []
    · rw [if_pos hr, if_pos ⟨hn, hr⟩]
      rw [waitAnswer, parkedWait]
      cases s.waitVerdict args with
      | replied => rfl
      | refused => rfl
      | ignored => rfl
      | parked => exact ⟨_, rfl, rfl⟩
    · rw [if_neg hr, if_neg (fun h ↦ hr h.2)]
  · rw [if_neg (fun h ↦ hn h.1)]
    by_cases hreplicaof : commandName args = ascii "REPLICAOF"
    · rw [answer_replicaof hreplicaof]
    · rw [answer_other hn hreplicaof]

theorem client_of_parked {wait : WaitState} (h : wait ∈ parked s e) :
    ∃ tk, s.taking e = some tk ∧ tk.c = wait.client ∧ tk.client.type = .regular := by
  unfold parked at h
  split at h
  · next env d client args n ht =>
    split at h
    · next hwait =>
      refine ⟨_, ht, ?_, hwait.1⟩
      rw [Option.mem_toList, parkedWait] at h
      split at h
      · cases h
        rfl
      · cases h
    · cases h
  · cases h

theorem waitsOf_fresh (hl : Live s) (hle : s.nextId ≤ c) : s.waitsOf c = [] := by
  refine List.filter_eq_nil_iff.mpr (fun wait hmem h ↦ ?_)
  have hlt := (hl wait hmem).1
  rw [of_decide_eq_true h] at hlt
  exact absurd hlt (Nat.not_lt.mpr hle)

theorem turns_fresh (hcons : Consistent s) (hl : Live s) (hle : s.nextId ≤ c) :
    turns c s e = [] := by
  have hnone : settledTurns c s e = [] := by
    rw [settledTurns_eq, waitsOf_fresh hl hle]
    rfl
  unfold turns
  split
  · next env d client args n ht =>
    have hd : d ≠ c := by
      rintro rfl
      have hconnected := (receives_of_taking ht).2.connected
      rw [hcons.fresh d hle] at hconnected
      cases hconnected
    rw [if_neg hd, hnone]
  · exact hnone

/-- The dialogue with `c` up to a state: each command has its reply, except that the last one may
be waiting for it, and what `c` has been told are these replies. -/
structure Conversing (c : ClientId) (dialogue : List Turn) (s : Server) : Prop where
  exchange : ∃ pairs pending, dialogue = exchange pairs pending ∧
    (s.waitsOf c).length = if pending.isSome && (s.clients c).isSome then 1 else 0
  known : c < s.nextId → s.outbound c <+: saying dialogue ∧
    ((s.clients c).isSome = true → s.outbound c = saying dialogue)
  unknown : s.nextId ≤ c → dialogue = [] ∧ s.outbound c = []

namespace Conversing

variable {dialogue : List Turn}

theorem known_step (hcons : Consistent s) (hl : Live s) (hs : Serves c s e)
    (h : Conversing c dialogue s) : (step s e).outbound c <+: saying (dialogue ++ turns c s e) ∧
      (((step s e).clients c).isSome = true →
        (step s e).outbound c = saying (dialogue ++ turns c s e)) := by
  have hears := hears_step hcons hl hs
  rw [saying_append]
  rcases Nat.lt_or_ge c s.nextId with hlt | hle
  · have htold := hears.told hlt
    obtain ⟨hsent, hopen⟩ := h.known hlt
    refine ⟨?_, fun ht ↦ ?_⟩
    · cases hc : (s.clients c).isSome with
      | true =>
        rw [← hopen hc]
        exact htold.sent
      | false =>
        have hclosed : ((step s e).clients c).isSome = false := by
          rw [← Bool.not_eq_true]
          intro ht
          rw [htold.open_of_open ht] at hc
          cases hc
        rw [outbound_of_closed hc] at hsent
        rw [outbound_of_closed hclosed, htold.silent hc]
        exact hsent.trans (List.prefix_append _ _)
    · rw [htold.told ht, hopen (htold.open_of_open ht)]
  · obtain ⟨hnil, hout⟩ := h.unknown hle
    rw [turns_fresh hcons hl hle, hears.fresh hle (hcons.fresh c hle), hnil, hout]
    exact ⟨List.prefix_refl _, fun _ ↦ rfl⟩

/-- A command taken from `c`: nothing was pending, and what follows depends on its answer. -/
theorem exchange_own (h : Conversing c dialogue s) {env : Env} {client : Client}
    {args : List Bytes} {n : ℕ} (hacc : Accounted s (.process env))
    (hs : Serves c s (.process env)) (hc : Receives s c client args n) : ∃ pairs pending,
      dialogue ++ turns c s (.process env) = Server.exchange pairs pending ∧
      ((step s (.process env)).waitsOf c).length =
        if pending.isSome && ((step s (.process env)).clients c).isSome then 1 else 0 := by
  obtain ⟨pairs, pending, hdialogue, hcount⟩ := h.exchange
  have hnone : s.waitsOf c = [] :=
    List.filter_eq_nil_iff.mpr (fun wait hmem hw ↦
      hs.patient _ (hc.taking_eq env) rfl wait hmem (of_decide_eq_true hw))
  have hpending : pending = none := by
    rw [hnone, hc.connected] at hcount
    cases pending with
    | none => rfl
    | some args => cases hcount
  subst hpending
  have hturns : turns c s (.process env) =
      .asked args :: ((s.answer env args).map .told).toList := by
    simp only [turns, hc.taking_eq, if_true]
  rw [hdialogue, hturns, exchange_asked, waitsOf_step hacc, hnone, List.filter_nil,
    List.nil_append]
  have hparked := parked_of_answer env hc (hs.regular client hc.connected)
  have hopen := hacc.parked
  cases hanswer : s.answer env args with
  | some reply =>
    simp only [hanswer] at hparked
    rw [hparked]
    exact ⟨_, none, rfl, rfl⟩
  | none =>
    simp only [hanswer] at hparked
    obtain ⟨wait, hparked, hclient⟩ := hparked
    rw [hparked] at hopen
    have hopen := (hopen wait (List.mem_singleton_self _)).2
    rw [hclient] at hopen
    rw [hparked]
    refine ⟨_, some args, rfl, ?_⟩
    simp [hclient, hopen]

theorem exchange_other (h : Conversing c dialogue s) (hacc : Accounted s e)
    (hother : ∀ tk, s.taking e = some tk → tk.c ≠ c) : ∃ pairs pending,
      dialogue ++ turns c s e = Server.exchange pairs pending ∧
      ((step s e).waitsOf c).length =
        if pending.isSome && ((step s e).clients c).isSome then 1 else 0 := by
  obtain ⟨pairs, pending, hdialogue, hcount⟩ := h.exchange
  have hturns : turns c s e = settledTurns c s e := by
    unfold turns
    split
    · next ht => exact if_neg (hother _ ht)
    · rfl
  have hparked : (parked s e).filter (·.client = c) = [] := by
    refine List.filter_eq_nil_iff.mpr (fun wait hmem hw ↦ ?_)
    obtain ⟨tk, ht, hclient, -⟩ := client_of_parked hmem
    exact hother tk ht (hclient.trans (of_decide_eq_true hw))
  rw [waitsOf_step hacc, hparked, List.append_nil, hturns, settledTurns_eq]
  cases hwaits : s.waitsOf c with
  | nil =>
    refine ⟨pairs, pending, by simpa using hdialogue, ?_⟩
    rw [hwaits] at hcount
    cases pending with
    | none => rfl
    | some args =>
      have hlt : c < s.nextId := by
        by_contra hge
        have hnil := (h.unknown (Nat.le_of_not_lt hge)).1
        rw [hdialogue] at hnil
        simp [Server.exchange] at hnil
      have hclosed : ((step s e).clients c).isSome = false := by
        rw [← Bool.not_eq_true]
        intro hopen
        rw [hacc.leaves.open_of_open c hlt hopen] at hcount
        cases hcount
      simp [hclosed]
  | cons wait rest =>
    rw [hwaits] at hcount
    cases pending with
    | none => cases hcount
    | some args =>
      have hrest : rest = [] := by
        rw [← List.length_eq_zero_iff]
        split at hcount <;> simp_all
      subst hrest
      cases hdue : due s e wait with
      | true =>
        refine ⟨pairs ++ [(args, integerReply ((s.counted e).countCaughtUpReplicas
          wait.targetOffset))], none, ?_, by simp [hdue]⟩
        rw [hdialogue, List.filter_cons_of_pos hdue]
        exact exchange_told pairs args _
      | false =>
        refine ⟨pairs, some args, by simpa [hdue] using hdialogue, ?_⟩
        cases hopen : ((step s e).clients c).isSome <;> simp [hdue]

theorem step (hcons : Consistent s) (hl : Live s) (hs : Serves c s e)
    (h : Conversing c dialogue s) : Conversing c (dialogue ++ turns c s e) (Server.step s e) where
  exchange := by
    have hacc := step_accounted hcons hl hs.prompt
    by_cases hown : ∃ tk, s.taking e = some tk ∧ tk.c = c
    · obtain ⟨⟨env, d, client, args, n⟩, ht, rfl⟩ := hown
      obtain ⟨rfl, hc⟩ := receives_of_taking ht
      exact h.exchange_own hacc hs hc
    · exact h.exchange_other hacc (fun tk ht hc ↦ hown ⟨tk, ht, hc⟩)
  known _ := h.known_step hcons hl hs
  unknown hle := by
    have hle' := (step_accounted hcons hl hs.prompt).leaves.ids.trans hle
    obtain ⟨hnil, hout⟩ := h.unknown hle'
    refine ⟨by rw [turns_fresh hcons hl hle', hnil]; rfl, ?_⟩
    rw [(hears_step hcons hl hs).fresh hle' (hcons.fresh c hle'), hout]

theorem of_initial (h : Initial s) (c : ClientId) : Conversing c [] s := by
  have hout : s.outbound c = [] := by
    cases h with
    | master replid => rfl
    | worker replid host port clk peer _ h =>
      have hheard := (Says.refl (initWorker replid host port)).connectToMaster clk peer host port
      rw [h] at hheard
      exact hheard.fresh c (Nat.zero_le _) rfl
  refine ⟨⟨[], none, rfl, ?_⟩, fun _ ↦ ?_, fun _ ↦ ⟨rfl, hout⟩⟩
  · rw [waitsOf, waits_of_initial h]
    rfl
  · rw [hout]
    exact ⟨List.prefix_refl _, fun _ ↦ rfl⟩

theorem of_along {s₀ : Server} {es : List Event} (h₀ : Initial s₀)
    (hrun : Along Server.step (Serves c) s₀ es) :
    Conversing c (trace Server.step (turns c) s₀ es) (run Server.step s₀ es) := by
  have hstep (dialogue : List Turn) (s : Server) (e : Event)
      (hi : Consistent s ∧ Live s ∧ Conversing c dialogue s) (hs : Serves c s e) :
      Consistent (Server.step s e) ∧ Live (Server.step s e) ∧
        Conversing c (dialogue ++ turns c s e) (Server.step s e) :=
    ⟨hi.1.step e, live_step hi.1 hi.2.1 hs.prompt, hi.2.2.step hi.1 hi.2.1 hs⟩
  have h := trace_invariant Server.step hstep
    ⟨.of_initial h₀, live_of_initial h₀, of_initial h₀ c⟩ hrun
  exact h.2.2

end Conversing

/-- In every run whose steps serve the regular client `c`, the commands taken from `c` and their
replies alternate, and the bytes delivered to `c` are a prefix of the replies in the order of
the commands. -/
theorem replies_in_order {s₀ : Server} {es : List Event} {c : ClientId} (h₀ : Initial s₀)
    (hrun : Along step (Serves c) s₀ es) :
    ∃ pairs pending, trace step (turns c) s₀ es = exchange pairs pending ∧
      (run step s₀ es).wire c <+: (pairs.map (·.2)).flatten ∧
      (((run step s₀ es).clients c).isSome = true →
        (run step s₀ es).outbound c = (pairs.map (·.2)).flatten) := by
  have h := Conversing.of_along h₀ hrun
  obtain ⟨pairs, pending, hdialogue, -⟩ := h.exchange
  have hwire : (run step s₀ es).wire c <+: (run step s₀ es).outbound c := List.prefix_append _ _
  refine ⟨pairs, pending, hdialogue, ?_⟩
  rw [← saying_exchange pairs pending, ← hdialogue]
  rcases Nat.lt_or_ge c (run step s₀ es).nextId with hlt | hle
  · exact ⟨hwire.trans (h.known hlt).1, (h.known hlt).2⟩
  · obtain ⟨hnil, hout⟩ := h.unknown hle
    rw [hout] at hwire ⊢
    rw [hnil]
    exact ⟨hwire, fun _ ↦ rfl⟩

def patientRun : List Event :=
  [.accept 5, .accept 6] ++ request 0 [ascii "PSYNC", ascii "?", ascii "-1"] (.quiet 0) ++
    request 1 [ascii "SET", ascii "k", ascii "v"] { Env.quiet 0 with sends := [.sent 100] } ++
    request 1 [ascii "WAIT", ascii "1", ascii "100"] { Env.quiet 0 with sends := [.sent 100] } ++
    [.timeouts 100000000 [.sent 2, .again]] ++
    request 1 [ascii "PING"] { Env.quiet 1 with sends := [.sent 100] }

theorem replies_in_order_of_patient :
    (run step (init sampleId) patientRun).wire 1 = ascii "+OK\r\n:0\r\n+PONG\r\n" ∧
    ∃ pairs pending, trace step (turns 1) (init sampleId) patientRun = exchange pairs pending ∧
      (run step (init sampleId) patientRun).wire 1 <+: (pairs.map (·.2)).flatten := by
  have hrun : (run step (init sampleId) patientRun).wire 1 = ascii "+OK\r\n:0\r\n+PONG\r\n" ∧
      Along step (Serves 1) (init sampleId) patientRun := by
    decide +kernel
  obtain ⟨pairs, pending, htrace, hwire, -⟩ := replies_in_order (.master sampleId) hrun.2
  exact ⟨hrun.1, pairs, pending, htrace, hwire⟩

def pipelinedRun : List Event :=
  [.accept 5, .accept 6] ++ request 0 [ascii "PSYNC", ascii "?", ascii "-1"] (.quiet 0) ++
    [.recv 1 (Resp.encodeArray [ascii "SET", ascii "k", ascii "v"] ++
      Resp.encodeArray [ascii "WAIT", ascii "1", ascii "0"] ++ Resp.encodeArray [ascii "PING"]),
      .process (.quiet 0), .process (.quiet 0), .process (.quiet 0),
      .process { Env.quiet 0 with sends := [.sent 100] }] ++
    request 0 [ascii "REPLCONF", ascii "ACK", ascii "27"] { Env.quiet 1 with sends := [.sent 100] }

/-- A replica hangs up while the writer thread is about to send to it, and the next client gets
its descriptor. -/
def reusedRun : List Event :=
  [.accept 5] ++ request 0 [ascii "PSYNC", ascii "?", ascii "-1"] (.quiet 0) ++
    [.writerSwap [0], .writerStep .again, .hangup 0, .accept 5, .writerStep (.sent 11)]

/-- `PING` is answered before the `WAIT` in front of it, so that no reply to the `WAIT` makes the
bytes delivered a prefix of the replies in order. And a client that has not asked anything is
sent the beginning of a snapshot. -/
theorem wait_overtaken :
    Reachable (run step (init sampleId) pipelinedRun) ∧
    trace step (turns 1) (init sampleId) pipelinedRun =
      [.asked [ascii "SET", ascii "k", ascii "v"], .told (ascii "+OK\r\n"),
        .asked [ascii "WAIT", ascii "1", ascii "0"], .asked [ascii "PING"],
        .told (ascii "+PONG\r\n"), .told (integerReply 1)] ∧
    (∀ count, ¬(run step (init sampleId) pipelinedRun).wire 1 <+:
      ascii "+OK\r\n" ++ integerReply count ++ ascii "+PONG\r\n") ∧
    trace step (turns 1) (init sampleId) reusedRun = [] ∧
    (run step (init sampleId) reusedRun).wire 1 = ascii "+FULLRESYNC " := by
  have hrun : trace step (turns 1) (init sampleId) pipelinedRun =
      [.asked [ascii "SET", ascii "k", ascii "v"], .told (ascii "+OK\r\n"),
        .asked [ascii "WAIT", ascii "1", ascii "0"], .asked [ascii "PING"],
        .told (ascii "+PONG\r\n"), .told (integerReply 1)] ∧
      (run step (init sampleId) pipelinedRun).wire 1 = ascii "+OK\r\n+PONG\r\n:1\r\n" := by
    decide +kernel
  refine ⟨⟨_, _, .master sampleId, rfl⟩, hrun.1, ?_, by decide +kernel, by decide +kernel⟩
  rintro count ⟨rest, h⟩
  rw [hrun.2] at h
  -- the sixth byte is the plus sign of the second reply
  have hbyte : some 43 = some (58 : UInt8) := congrArg (fun bytes : Bytes ↦ bytes[5]?) h
  exact absurd (Option.some.inj hbyte) (by decide)

end RedisLite.Server
