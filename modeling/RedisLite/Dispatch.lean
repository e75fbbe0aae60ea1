import RedisLite.Tended

namespace RedisLite.Server

open Lib.Run

/-- One entry of what `epoll_wait` returns: the listener, or the pointer of a client with the two
bits that the event loop looks at. -/
inductive Ready
  | listener
  | client (c : ClientId) (epollin epollout : Bool)
  deriving DecidableEq

def Ready.clientId : Ready → Option ClientId
  | .listener => none
  | .client c _ _ => some c

/-- What the kernel answers to the calls of a handler: a descriptor from `accept`, the bytes of a
`recv` (none for `EAGAIN`, no bytes when the peer has closed or `recv` fails), and the results of
`send`. -/
structure Kernel where
  accepted : Option ℕ := none
  received : Option Bytes := none
  sends : List SendResult := []

inductive Phase
  | waiting
  | dispatching
  | sweeping
  deriving DecidableEq

/-- The server in its event loop, with the events of the current batch that are still to be
dispatched. -/
structure Loop where
  server : Server
  phase : Phase := .waiting
  batch : List Ready := []

namespace Loop

inductive Input
  | wait (ready : List Ready)
  | dispatch (kernel : Kernel)
  | timeouts (now : TimePoint) (sends : List SendResult)
  | sweep (now : TimePoint)
  | process (env : Env)
  | sweepNext
  | rehash (items : List Item)
  | writerSwap (order : List ClientId)
  | writerStep (result : SendResult)

def clients (l : Loop) : List ClientId := l.batch.filterMap Ready.clientId

/-- `epoll_wait` returns every descriptor at most once, and only those that are registered. -/
def Polled (s : Server) (ready : List Ready) : Prop :=
  (ready.filterMap Ready.clientId).Nodup ∧
    ∀ c ∈ ready.filterMap Ready.clientId, (s.clients c).isSome = true

instance (s : Server) (ready : List Ready) : Decidable (Polled s ready) :=
  inferInstanceAs (Decidable (_ ∧ _))

def handler (kernel : Kernel) : Ready → Option Event
  | .listener => kernel.accepted.map .accept
  | .client c epollin epollout =>
    if epollin then
      kernel.received.map (fun data ↦ if data.isEmpty then .hangup c else .recv c data)
    else if epollout then some (.writable c kernel.sends)
    else none

/-- The body of the loop over the batch. It reads `client->type` first. -/
def dispatch (kernel : Kernel) (r : Ready) (s : Server) : Server :=
  if r.clientId.any (fun c ↦ (s.clients c).isNone) then { s with pc := .useAfterFree }
  else
    match handler kernel r with
    | some e => Server.step s e
    | none => s

/-- An input at which the loop does not stand has no effect. -/
def step (l : Loop) : Input → Loop
  | .wait ready =>
    if l.phase = .waiting ∧ l.server.pc = .idle ∧ Polled l.server ready then
      { l with phase := .dispatching, batch := ready }
    else l
  | .dispatch kernel =>
    match l.batch with
    | r :: batch =>
      if l.server.pc = .idle then { l with server := dispatch kernel r l.server, batch := batch }
      else l
    | [] => l
  | .timeouts now sends =>
    if l.phase = .dispatching ∧ l.server.pc = .idle ∧ l.batch = [] then
      { l with server := Server.step l.server (.timeouts now sends), phase := .sweeping }
    else l
  | .sweep now =>
    if l.phase = .sweeping ∧ l.server.pc = .idle then
      { l with server := Server.step l.server (.sweep now), phase := .waiting }
    else l
  | .process env => { l with server := Server.step l.server (.process env) }
  | .sweepNext => { l with server := Server.step l.server .sweepNext }
  | .rehash items => { l with server := Server.step l.server (.rehash items) }
  | .writerSwap order => { l with server := Server.step l.server (.writerSwap order) }
  | .writerStep result => { l with server := Server.step l.server (.writerStep result) }

theorem dispatch_eq {s : Server} {r : Ready}
    (h : ∀ c ∈ r.clientId, (s.clients c).isSome = true) (kernel : Kernel) :
    dispatch kernel r s = (handler kernel r).elim s (Server.step s) := by
  have hopen : r.clientId.any (fun c ↦ (s.clients c).isNone) = false := by
    cases hid : r.clientId with
    | none => rfl
    | some c => rw [Option.any_some, ← Option.not_isSome, h c hid, Bool.not_true]
  unfold dispatch
  rw [hopen]
  cases handler kernel r <;> rfl

/-- No `send` fails for good while a command is handled or deadlines are checked, and no command
changes the role of the server while the batch has an event of a connection that this closes. -/
def Careful (l : Loop) : Input → Prop
  | .timeouts now sends => Minds l.clients l.server (.timeouts now sends)
  | .process env => Minds l.clients l.server (.process env)
  | _ => True

instance (l : Loop) : ∀ i, Decidable (Careful l i)
  | .timeouts _ sends => inferInstanceAs (Decidable (NoError sends))
  | .process env => inferInstanceAs (Decidable (∀ tk ∈ l.server.taking (.process env), _ ∧ _))
  | .wait _ | .dispatch _ | .sweep _ | .sweepNext | .rehash _ | .writerSwap _ | .writerStep _ =>
    .isTrue trivial

structure Sound (l : Loop) : Prop where
  tended : Tended l.clients l.server
  nodup : l.clients.Nodup

namespace Sound

theorem of_server {l : Loop} (h : Sound l) {e : Event} (hm : Minds l.clients l.server e)
    (phase : Phase) : Sound { l with server := Server.step l.server e, phase := phase } :=
  ⟨h.tended.step hm, h.nodup⟩

/-- The event at the front of the batch is handled for a client that is connected, and the handler
closes at most this one. -/
theorem dispatch {s : Server} {phase : Phase} {r : Ready} {batch : List Ready}
    (h : Sound ⟨s, phase, r :: batch⟩) (kernel : Kernel) :
    Sound ⟨Loop.dispatch kernel r s, phase, batch⟩ := by
  obtain ⟨htended, hnodup⟩ := h
  have hopen (c : ClientId) (hc : c ∈ r.clientId) : (s.clients c).isSome = true :=
    htended.connected c (List.mem_filterMap.mpr ⟨r, List.mem_cons_self .., hc⟩)
  rw [Loop.dispatch_eq hopen]
  cases r with
  | listener =>
    cases hfd : kernel.accepted with
    | none =>
      simp only [handler, hfd, Option.map_none, Option.elim_none]
      exact ⟨htended, hnodup⟩
    | some fd =>
      simp only [handler, hfd, Option.map_some, Option.elim_some]
      exact ⟨htended.step (e := .accept fd) trivial, hnodup⟩
  | client c epollin epollout =>
    obtain ⟨hnot, hrest⟩ := List.nodup_cons.mp hnodup
    have hmono := htended.mono (List.subset_cons_self c (batch.filterMap Ready.clientId))
    unfold handler
    dsimp only
    split
    · cases kernel.received with
      | none => exact ⟨hmono, hrest⟩
      | some data =>
        rw [Option.map_some, Option.elim_some]
        split
        · exact ⟨hmono.step (e := .hangup c) hnot, hrest⟩
        · exact ⟨hmono.step (e := .recv c data) hnot, hrest⟩
    · split
      · exact ⟨hmono.step (e := .writable c kernel.sends) hnot, hrest⟩
      · exact ⟨hmono, hrest⟩

theorem step {l : Loop} (h : Sound l) {i : Input} (hi : Careful l i) : Sound (step l i) := by
  cases i with
  | wait ready =>
    simp only [Loop.step]
    split
    · next hguard =>
      obtain ⟨-, hpc, hnodup, hopen⟩ := hguard
      refine ⟨⟨h.tended.consistent, h.tended.live, h.tended.pc, hopen, ?_⟩, hnodup⟩
      intro c hc
      rw [hpc] at hc
      cases hc
    · exact h
  | dispatch kernel =>
    obtain ⟨server, phase, batch⟩ := l
    cases batch with
    | nil => exact h
    | cons r batch =>
      simp only [Loop.step]
      split
      · exact h.dispatch kernel
      · exact h
  | timeouts now sends =>
    simp only [Loop.step]
    split
    · exact h.of_server (e := .timeouts now sends) hi _
    · exact h
  | sweep now =>
    simp only [Loop.step]
    split
    · exact h.of_server (e := .sweep now) trivial _
    · exact h
  | process env => exact h.of_server (e := .process env) hi _
  | sweepNext => exact h.of_server (e := .sweepNext) trivial _
  | rehash items => exact h.of_server (e := .rehash items) trivial _
  | writerSwap order => exact h.of_server (e := .writerSwap order) trivial _
  | writerStep result => exact h.of_server (e := .writerStep result) trivial _

theorem of_initial {s₀ : Server} (h₀ : Initial s₀) : Sound { server := s₀ } := by
  have hpc : s₀.pc = .idle := by
    cases h₀ with
    | master replid => rfl
    | worker replid host port clk peer _ h =>
      have hconn := connectToMaster_connected clk peer host port (initWorker replid host port)
      rw [h] at hconn
      cases hconn
      rfl
  refine ⟨⟨.of_initial h₀, live_of_initial h₀, ?_, nofun, ?_⟩, List.nodup_nil⟩
  · rw [hpc]
    exact nofun
  · rw [hpc]
    exact nofun

theorem run {s₀ : Server} {is : List Input} (h₀ : Initial s₀)
    (hrun : Along Loop.step Careful { server := s₀ } is) :
    Sound (Lib.Run.run Loop.step { server := s₀ } is) :=
  run_invariant Loop.step (fun _ _ h hi ↦ h.step hi) (of_initial h₀) hrun

theorem server_step {l : Loop} (h : Sound l) (i : Input) :
    ∃ es, (Loop.step l i).server = Lib.Run.run Server.step l.server es := by
  cases i with
  | wait ready =>
    simp only [Loop.step]
    split <;> exact ⟨[], rfl⟩
  | dispatch kernel =>
    obtain ⟨server, phase, batch⟩ := l
    cases batch with
    | nil => exact ⟨[], rfl⟩
    | cons r batch =>
      simp only [Loop.step]
      split
      · rw [Loop.dispatch_eq (fun c hc ↦ h.tended.connected c
          (List.mem_filterMap.mpr ⟨r, List.mem_cons_self .., hc⟩))]
        cases handler kernel r with
        | none => exact ⟨[], rfl⟩
        | some e => exact ⟨[e], rfl⟩
      · exact ⟨[], rfl⟩
  | timeouts now sends =>
    simp only [Loop.step]
    split
    · exact ⟨[.timeouts now sends], rfl⟩
    · exact ⟨[], rfl⟩
  | sweep now =>
    simp only [Loop.step]
    split
    · exact ⟨[.sweep now], rfl⟩
    · exact ⟨[], rfl⟩
  | process env => exact ⟨[.process env], rfl⟩
  | sweepNext => exact ⟨[.sweepNext], rfl⟩
  | rehash items => exact ⟨[.rehash items], rfl⟩
  | writerSwap order => exact ⟨[.writerSwap order], rfl⟩
  | writerStep result => exact ⟨[.writerStep result], rfl⟩

theorem reachable {s₀ : Server} {is : List Input} (h₀ : Initial s₀)
    (hrun : Along Loop.step Careful { server := s₀ } is) :
    Reachable (Lib.Run.run Loop.step { server := s₀ } is).server := by
  refine (run_invariant Loop.step (I := fun l ↦ Sound l ∧ Reachable l.server) ?_
    ⟨of_initial h₀, s₀, [], h₀, rfl⟩ hrun).2
  intro l i ⟨hsound, s₁, es, h₁, hes⟩ hi
  obtain ⟨fs, hfs⟩ := hsound.server_step i
  exact ⟨hsound.step hi, s₁, es ++ fs, h₁, by rw [run_append, hes, hfs]⟩

end Sound

def turn (ready : List Ready) (inputs : List Input) : List Input :=
  .wait ready :: inputs ++ [.timeouts 0 [], .sweep 0, .sweepNext]

def accepts (fd : ℕ) : List Input := turn [.listener] [.dispatch { accepted := some fd }]

def reads (args : List Bytes) (env : Env) : List Input :=
  [.dispatch { received := some (Resp.encodeArray args) }, .process env, .process env]

end Loop

/-- As long as no `send` fails for good in the middle of a handler and no change of role closes a
connection that still has an event in the batch, every event goes to a connected client, and so
does every step of the handler that reads from it. -/
theorem events_reach_connected_clients {s₀ : Server} {is : List Loop.Input} (h₀ : Initial s₀)
    (hrun : Along Loop.step Loop.Careful { server := s₀ } is) :
    (∀ r ∈ (run Loop.step { server := s₀ } is).batch, ∀ c ∈ r.clientId,
      ((run Loop.step { server := s₀ } is).server.clients c).isSome = true) ∧
    (∀ c, (run Loop.step { server := s₀ } is).server.pc = .reading c →
      ((run Loop.step { server := s₀ } is).server.clients c).isSome = true) ∧
    (run Loop.step { server := s₀ } is).server.pc ≠ .useAfterFree := by
  have hsound := Loop.Sound.run h₀ hrun
  refine ⟨?_, fun c hpc ↦ (hsound.tended.reading c hpc).1, hsound.tended.pc⟩
  intro r hr c hc
  exact hsound.tended.connected c (List.mem_filterMap.mpr ⟨r, hr, hc⟩)

def batchRun : List Loop.Input :=
  Loop.accepts 5 ++ Loop.accepts 6 ++
    .wait [.client 1 true false, .client 0 true false] :: Loop.reads [ascii "PING"] (.quiet 0)

theorem batchRun_connected :
    (run Loop.step { server := init sampleId } batchRun).batch = [.client 0 true false] ∧
      ((run Loop.step { server := init sampleId } batchRun).server.clients 0).isSome = true := by
  have hbatch : (run Loop.step { server := init sampleId } batchRun).batch =
      [.client 0 true false] := by decide +kernel
  refine ⟨hbatch, (events_reach_connected_clients (.master sampleId) (by decide +kernel)).1
    (.client 0 true false) ?_ 0 rfl⟩
  rw [hbatch]
  exact List.mem_singleton_self _

def roleRun : List Loop.Input :=
  Loop.accepts 5 ++ Loop.turn [.client 0 true false]
      (Loop.reads [ascii "PSYNC", ascii "?", ascii "-1"] (.quiet 0)) ++ Loop.accepts 6 ++
    .wait [.client 1 true false, .client 0 true false] ::
      Loop.reads [ascii "REPLICAOF", ascii "localhost", ascii "1"] (.quiet 0)

/-- The demotion frees the replica whose event comes next; and a failed `send` in the middle of
`handle_read` frees the client whose buffer is erased next. -/
theorem freed_client_is_used :
    ((run Loop.step { server := init sampleId } roleRun).batch = [.client 0 true false] ∧
      (run Loop.step { server := init sampleId } roleRun).server.clients 0 = none ∧
      (run Loop.step { server := init sampleId } (roleRun ++
        [.dispatch { received := some (ascii "x") }])).server.pc = .useAfterFree) ∧
    (run Loop.step { server := init sampleId } (Loop.accepts 5 ++ .wait [.client 0 true false] ::
      Loop.reads [ascii "WAIT", ascii "0", ascii "0"]
        { Env.quiet 0 with sends := [.error] })).server.pc = .useAfterFree := by
  decide +kernel

end RedisLite.Server
