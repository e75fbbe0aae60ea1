import RedisLite.Controller.Health

namespace RedisLite.Controller

open Lib.Run

/-- The monitor, and for every node the calls since it was last found alive again, or since the
start for a node that has been alive all along. Those marked are made for a node that answers its
ping. -/
structure Watch where
  monitor : Monitor
  heard : Addr → List (Bool × Call)

/-- The role is one that the response reports, or that a successful `Reconfigure` sets. Only the
one that redirects a node after its ping sets a role; those of a failover do not. A promotion sets
the role that `ROLE` has reported. -/
def Reports (pinged : Bool) (x : Call) (value : Bytes) : Prop :=
  (x.request = .role ∧ role x.response = some value) ∨
    pinged = true ∧ (∃ host port, x.request = .replicaOf host port) ∧
      replicaOf x.response = true ∧ value = ascii "slave"

def Monitor.Heard (m : Monitor) (calls : List (Bool × Call)) (a : Addr) : Prop :=
  ∃ x ∈ calls, x.2.peer = a ∧ Reports x.1 x.2 (m.nodes a).role

/-- The role of the node is known since it was last found alive again. -/
def Watch.Known (s : Watch) (a : Addr) : Prop := s.monitor.Heard (s.heard a) a

section

variable {cfg : Config} (w : World cfg)

def watch (s : Watch) (r : PingResult) : Watch where
  monitor := handleResult w s.monitor r
  heard a :=
    (if (s.monitor.nodes a).alive = false ∧ ((handleResult w s.monitor r).nodes a).alive = true then
      []
    else s.heard a) ++
      ((handleResult w s.monitor r).log.drop s.monitor.log.length).map (r.alive, ·)

def watchFrom (order : Order cfg) : Watch :=
  ⟨start w order, fun _ ↦ (start w order).log.map (false, ·)⟩

def Answers (s : Watch) (r : PingResult) : Prop :=
  r.alive = true → (s.monitor.nodes r.addr).alive = false →
    (role (call w.script s.monitor.log r.addr .role).response).isSome = true

/-- The next answered ping of the node makes the monitor ask for its role. -/
def AsksRole (s : Watch) (a : Addr) : Prop :=
  ∃ x ∈ (handleResult w s.monitor ⟨a, true⟩).log.drop s.monitor.log.length,
    x.peer = a ∧ x.request = .role

end

/-- The roles of `m'` are those of `m`, or one of the calls made in between accounts for them. -/
def Learns (pinged : Bool) (m m' : Monitor) : Prop :=
  ∃ calls, m'.log = m.log ++ calls ∧
    ∀ a, (m'.nodes a).role = (m.nodes a).role ∨
      ∃ x ∈ calls, x.peer = a ∧ Reports pinged x (m'.nodes a).role

variable {cfg : Config} {w : World cfg} {m m' m'' : Monitor} {addr a : Addr} {pinged : Bool}

theorem Reports.of_role {value : Bytes} {log : List Call}
    (h : role (call w.script log addr .role).response = some value) :
    Reports pinged (call w.script log addr .role) value := .inl ⟨rfl, h⟩

namespace Learns

theorem of_same (hlog : m'.log = m.log) (hrole : ∀ a, (m'.nodes a).role = (m.nodes a).role) :
    Learns pinged m m' := ⟨[], by rw [hlog, List.append_nil], fun a ↦ .inl (hrole a)⟩

theorem refl (m : Monitor) : Learns pinged m m := of_same rfl (fun _ ↦ rfl)

theorem record (m : Monitor) (calls : List Call) : Learns pinged m (m.record calls) :=
  ⟨calls, rfl, fun _ ↦ .inl rfl⟩

theorem trans (h : Learns pinged m m') (h' : Learns pinged m' m'') : Learns pinged m m'' := by
  obtain ⟨calls, hlog, hrole⟩ := h
  obtain ⟨calls', hlog', hrole'⟩ := h'
  refine ⟨calls ++ calls', by rw [hlog', hlog, List.append_assoc], fun a ↦ ?_⟩
  rcases hrole' a with hsame | ⟨x, hx, hreports⟩
  · rw [hsame]
    rcases hrole a with hsame | ⟨x, hx, hreports⟩
    · exact .inl hsame
    · exact .inr ⟨x, List.mem_append_left _ hx, hreports⟩
  · exact .inr ⟨x, List.mem_append_right _ hx, hreports⟩

theorem setRole {x : Call} {value : Bytes} (hpeer : x.peer = addr) (hx : Reports pinged x value) :
    Learns pinged m ((m.record [x]).setRole addr value) := by
  refine ⟨[x], rfl, fun a ↦ ?_⟩
  by_cases hne : a = addr
  · subst hne
    rw [Monitor.setRole_nodes_self]
    exact .inr ⟨x, List.mem_singleton_self x, hpeer, hx⟩
  · rw [Monitor.setRole_nodes_of_ne _ _ _ hne]
    exact .inl rfl

theorem redirect (w : World cfg) (m : Monitor) (addr : Addr) :
    Learns true m (redirect w m addr) := by
  have h := redirect_outcome w m addr
  generalize Controller.redirect w m addr = m' at h ⊢
  cases h with
  | accepted _ hok => exact setRole rfl (.inr ⟨rfl, ⟨_, _, rfl⟩, hok, rfl⟩)
  | refused => exact record m _

theorem retryStale (w : World cfg) (m : Monitor) (addr : Addr) :
    Learns true m (retryStale w m addr) := by
  rw [Controller.retryStale]
  split
  · exact redirect w m addr
  · exact refl m

theorem recovered (w : World cfg) (m : Monitor) (addr : Addr) (value : Bytes) :
    Learns true (m.setRole addr value) (recovered w m addr value) := by
  rw [Controller.recovered]
  split
  · split
    · exact of_same rfl (fun _ ↦ rfl)
    · exact redirect w _ addr
  · exact refl _

theorem heard (h : Learns pinged m m') {calls : List (Bool × Call)} (hheard : m.Heard calls a) :
    m'.Heard (calls ++ (m'.log.drop m.log.length).map (pinged, ·)) a := by
  obtain ⟨new, hlog, hrole⟩ := h
  rw [hlog, List.drop_left]
  rcases hrole a with hsame | ⟨x, hx, hreports⟩
  · obtain ⟨x, hx, hpeer, hreports⟩ := hheard
    exact ⟨x, List.mem_append_left _ hx, hpeer, hsame ▸ hreports⟩
  · exact ⟨(pinged, x), List.mem_append_right _ (List.mem_map_of_mem hx), hreports⟩

end Learns

theorem pollRole_reports {script : Script} {n : ℕ} {log : List Call}
    (h : (pollRole script addr n log).1 = true) :
    ∃ x ∈ (pollRole script addr n log).2, x.peer = addr ∧ Reports pinged x (ascii "master") := by
  induction n generalizing log with
  | zero => cases h
  | succ n ih =>
    rw [pollRole] at h ⊢
    by_cases hmaster : role (call script log addr .role).response = some (ascii "master")
    · rw [if_pos hmaster]
      exact ⟨_, List.mem_singleton_self _, rfl, .inl ⟨rfl, hmaster⟩⟩
    · rw [if_neg hmaster] at h ⊢
      obtain ⟨x, hx, hreports⟩ := ih h
      exact ⟨x, List.mem_cons_of_mem _ hx, hreports⟩

theorem tryCandidate_reports {script : Script} {log : List Call}
    (h : (tryCandidate script log addr).1 = true) :
    ∃ x ∈ (tryCandidate script log addr).2, x.peer = addr ∧
      Reports pinged x (ascii "master") := by
  rw [tryCandidate] at h ⊢
  split at h
  · next hok =>
    rw [if_pos hok]
    obtain ⟨x, hx, hreports⟩ := pollRole_reports h
    exact ⟨x, List.mem_cons_of_mem _ hx, hreports⟩
  · cases h

theorem Learns.triggerFailover (w : World cfg) (m : Monitor) :
    Learns pinged m (triggerFailover w m) := by
  have h := triggerFailover_outcome w m
  generalize Controller.triggerFailover w m = m' at h ⊢
  cases h with
  | skipped => exact .refl m
  | failed => exact ⟨_, rfl, fun _ ↦ .inl rfl⟩
  | @promoted before after n _ hranked _ hn =>
    refine ⟨_, rfl, fun a ↦ ?_⟩
    by_cases hne : a = n
    · subst hne
      have hmem : a ∈ ranked w m := by
        rw [hranked]
        exact List.mem_append_right _ (List.mem_cons_self ..)
      have hconfirms := tryCandidate_fst.mpr ((confirms_iff_promotes hmem).mpr hn)
      obtain ⟨x, hx, hpeer, hreports⟩ := tryCandidate_reports hconfirms
      have htried : x ∈ promotionCalls w m (before ++ [a]) := by
        refine List.mem_append_right _ (List.mem_flatMap.mpr ⟨a, ?_, hx⟩)
        exact List.mem_append_right _ (List.mem_singleton_self a)
      refine .inr ⟨x, List.mem_append_left _ htried, hpeer, ?_⟩
      dsimp only
      rw [Function.update_self]
      exact hreports
    · dsimp only
      rw [Function.update_of_ne hne]
      exact .inl rfl

theorem Learns.recovering (w : World cfg) (m : Monitor) (addr : Addr) (value : Bytes) :
    Learns true ((m.awake addr).record [call w.script m.log addr .role] |>.setRole addr value)
      (Controller.retryStale w (Controller.recovered w
        ((m.awake addr).record [call w.script m.log addr .role]) addr value) addr) :=
  (Learns.recovered w _ addr value).trans (.retryStale w _ addr)

theorem Learns.awake (m : Monitor) (addr : Addr) : Learns pinged m (m.awake addr) :=
  .of_same rfl ((m.setFails addr 0).setAlive_role addr true)

theorem Learns.downed (m : Monitor) (addr : Addr) : Learns pinged m (m.downed addr) :=
  .of_same rfl ((m.missed addr).setAlive_role addr false)

/-- One round of the loop changes no role without a call that accounts for it. -/
theorem Learns.step (w : World cfg) (m : Monitor) (r : PingResult) :
    Learns r.alive m (handleResult w m r) := by
  have h := handleResult_outcome w m r
  generalize handleResult w m r = m' at h ⊢
  cases h with
  | suspect => exact .of_same rfl (fun _ ↦ rfl)
  | dead => exact .downed m _
  | failover => exact (Learns.downed m _).trans (.triggerFailover w _)
  | mute => exact (Learns.awake m _).trans (.record _ _)
  | @recovered addr value _ hrole =>
    have hset : Learns true (m.awake addr)
        ((m.awake addr).record [call w.script m.log addr .role] |>.setRole addr value) :=
      .setRole rfl (.of_role hrole)
    exact ((Learns.awake m addr).trans hset).trans (.recovering w m addr value)
  | healthy => exact (Learns.awake m _).trans (.retryStale w _ _)

theorem addr_of_revived {r : PingResult} (hdead : (m.nodes a).alive = false)
    (halive : ((handleResult w m r).nodes a).alive = true) : r = ⟨a, true⟩ := by
  have hother {addr : Addr} {alive : Bool} (hne : a ≠ addr) {k : ℕ} :
      (((m.setFails addr k).setAlive addr alive).nodes a).alive = false := by
    rw [Monitor.setAlive_nodes_of_ne _ _ _ hne]
    exact hdead
  have hdown (addr : Addr) : ((m.downed addr).nodes a).alive = false := by
    by_cases hne : a = addr
    · subst hne
      exact congrArg Node.alive ((m.missed a).setAlive_nodes_self a false)
    · exact hother hne
  have hawake {addr : Addr} (h : ((m.awake addr).nodes a).alive = true) :
      (⟨addr, true⟩ : PingResult) = ⟨a, true⟩ := by
    by_contra hne
    have hne : a ≠ addr := fun heq ↦ hne (by rw [heq])
    rw [Monitor.awake, hother hne] at h
    cases h
  have h := handleResult_outcome w m r
  generalize handleResult w m r = m' at h halive
  cases h with
  | suspect =>
    rw [show ((m.missed _).nodes a).alive = (m.nodes a).alive from rfl, hdead] at halive
    cases halive
  | dead =>
    rw [hdown] at halive
    cases halive
  | failover =>
    rw [(SameHealth.triggerFailover w _).alive, hdown] at halive
    cases halive
  | mute => exact hawake halive
  | recovered =>
    rw [(((SameHealth.record _ _).trans (.recovered w _ _ _)).trans
      (.retryStale w _ _)).alive] at halive
    exact hawake halive
  | healthy =>
    rw [(SameHealth.retryStale w _ _).alive] at halive
    exact hawake halive

def Informed (s : Watch) : Prop := ∀ a, (s.monitor.nodes a).alive = true → s.Known a

theorem Informed.step {s : Watch} (h : Informed s) {r : PingResult} (hr : Answers w s r) :
    Informed (watch w s r) := by
  intro a halive
  have hlearns := Learns.step w s.monitor r
  rw [Watch.Known, watch]
  cases hbefore : (s.monitor.nodes a).alive with
  | true =>
    dsimp only
    rw [if_neg (by simp [hbefore])]
    exact hlearns.heard (h a hbefore)
  | false =>
    dsimp only
    rw [if_pos ⟨hbefore, halive⟩, List.nil_append]
    obtain rfl := addr_of_revived hbefore halive
    obtain ⟨value, hvalue⟩ := Option.isSome_iff_exists.mp (hr rfl hbefore)
    have hout := handleResult_outcome w s.monitor ⟨a, true⟩
    generalize handleResult w s.monitor ⟨a, true⟩ = m' at hout ⊢
    cases hout with
    | mute _ hrole =>
      rw [hrole] at hvalue
      cases hvalue
    | healthy halive =>
      rw [hbefore] at halive
      cases halive
    | @recovered _ value _ hrole =>
      have hset : Monitor.Heard (((s.monitor.awake a).record
          [call w.script s.monitor.log a .role]).setRole a value)
          [(true, call w.script s.monitor.log a .role)] a := by
        refine ⟨_, List.mem_singleton_self _, rfl, ?_⟩
        rw [Monitor.setRole_nodes_self]
        exact .of_role hrole
      have hrest := Learns.recovering w s.monitor a value
      have hheard := hrest.heard hset
      obtain ⟨more, hlog, -⟩ := hrest
      have hall : _ = s.monitor.log ++ [call w.script s.monitor.log a .role] ++ more := hlog
      rw [hlog, List.drop_left] at hheard
      rwa [hall, List.append_assoc, List.drop_left, List.map_append]

theorem answers_of_known {s : Watch} {r : PingResult}
    (h : ∀ a, ((watch w s r).monitor.nodes a).alive = true → (watch w s r).Known a) :
    Answers w s r := by
  obtain ⟨addr, alive⟩ := r
  intro halive hdead
  have halive : alive = true := halive
  subst halive
  have hdead : (s.monitor.nodes addr).alive = false := hdead
  by_contra hnone
  have hrole : role (call w.script s.monitor.log addr .role).response = none :=
    Option.not_isSome_iff_eq_none.mp hnone
  have hmute : handleResult w s.monitor ⟨addr, true⟩ =
      (s.monitor.awake addr).record [call w.script s.monitor.log addr .role] := by
    have hout := handleResult_outcome w s.monitor ⟨addr, true⟩
    generalize handleResult w s.monitor ⟨addr, true⟩ = m' at hout ⊢
    cases hout with
    | mute => rfl
    | recovered _ hsome =>
      rw [hrole] at hsome
      cases hsome
    | healthy halive =>
      rw [hdead] at halive
      cases halive
  have hawake : ((watch w s ⟨addr, true⟩).monitor.nodes addr).alive = true := by
    change ((handleResult w s.monitor ⟨addr, true⟩).nodes addr).alive = true
    rw [hmute]
    exact congrArg Node.alive ((s.monitor.setFails addr 0).setAlive_nodes_self addr true)
  obtain ⟨x, hx, -, hreports⟩ := h addr hawake
  have hheard : (watch w s ⟨addr, true⟩).heard addr =
      [(true, call w.script s.monitor.log addr .role)] := by
    have hlog : (handleResult w s.monitor ⟨addr, true⟩).log =
        s.monitor.log ++ [call w.script s.monitor.log addr .role] := congrArg Monitor.log hmute
    rw [watch]
    dsimp only
    rw [if_pos ⟨hdead, hawake⟩, hlog, List.drop_left]
    rfl
  rw [hheard, List.mem_singleton] at hx
  subst hx
  rcases hreports with ⟨-, hsome⟩ | ⟨-, ⟨host, port, hrequest⟩, -⟩
  · rw [hrole] at hsome
    cases hsome
  · cases hrequest

/-- The log of `discoverTopology` accounts for the roles of the nodes it finds alive. -/
theorem discoverNode_heard {script : Script}
    (h : ∀ a, (m.nodes a).alive = true → m.Heard (m.log.map (false, ·)) a) (addr a : Addr)
    (halive : ((discoverNode script m addr).nodes a).alive = true) :
    (discoverNode script m addr).Heard ((discoverNode script m addr).log.map (false, ·)) a := by
  have hlog : (discoverNode script m addr).log = m.log ++ [call script m.log addr .role] := by
    rw [discoverNode]
    split
    · rfl
    · split <;> rfl
  by_cases hne : a = addr
  · subst hne
    cases hrole : role (call script m.log a .role).response with
    | none =>
      have hdead : ((discoverNode script m a).nodes a).alive = false := by
        rw [discoverNode]
        simp only [hrole, Monitor.setRole_alive, Monitor.setAlive_nodes_self]
      rw [hdead] at halive
      cases halive
    | some value =>
      have hvalue : ((discoverNode script m a).nodes a).role = value := by
        rw [discoverNode]
        simp only [hrole]
        split <;> exact congrArg Node.role (Monitor.setRole_nodes_self _ _ _)
      refine ⟨(false, call script m.log a .role), ?_, rfl, ?_⟩
      · rw [hlog]
        exact List.mem_map_of_mem (List.mem_append_right _ (List.mem_singleton_self _))
      · rw [hvalue]
        exact .inl ⟨rfl, hrole⟩
  · have hnode : (discoverNode script m addr).nodes a = m.nodes a := by
      have hset (alive : Bool) (value : Bytes) :
          (((m.record [call script m.log addr .role]).setAlive addr alive).setRole addr
            value).nodes a = m.nodes a := by
        rw [Monitor.setRole_nodes_of_ne _ _ _ hne, Monitor.setAlive_nodes_of_ne _ _ _ hne]
        rfl
      rw [discoverNode]
      split
      · exact hset false _
      · split <;> exact hset true _
    rw [hnode] at halive
    obtain ⟨x, hx, hreports⟩ := h a halive
    rw [Monitor.Heard, hnode, hlog, List.map_append]
    exact ⟨x, List.mem_append_left _ hx, hreports⟩

theorem discover_heard {script : Script} {keys : List Addr}
    (h : ∀ a, (m.nodes a).alive = true → m.Heard (m.log.map (false, ·)) a) :
    ∀ a, ((keys.foldl (discoverNode script) m).nodes a).alive = true →
      (keys.foldl (discoverNode script) m).Heard
        ((keys.foldl (discoverNode script) m).log.map (false, ·)) a := by
  induction keys generalizing m with
  | nil => exact h
  | cons addr keys ih => exact ih (discoverNode_heard h addr)

theorem Informed.start (w : World cfg) (order : Order cfg) : Informed (watchFrom w order) :=
  discover_heard (fun _ halive ↦ by cases halive)

theorem run_watch (s : Watch) (rs : List PingResult) :
    (run (watch w) s rs).monitor = run (handleResult w) s.monitor rs := by
  induction rs generalizing s with
  | nil => rfl
  | cons r rs ih => exact ih (watch w s r)

theorem watch_ticks (order : Order cfg) (ticks : List (Tick cfg)) :
    (run (watch w) (watchFrom w order) (ticks.flatMap Tick.results)).monitor =
      run (healthCheck w) (start w order) ticks := by
  rw [run_watch, ← run_flatMap]
  rfl

theorem answers_of_all_known {s : Watch} {rs : List PingResult}
    (h : ∀ k, ∀ a, ((run (watch w) s (rs.take k)).monitor.nodes a).alive = true →
      (run (watch w) s (rs.take k)).Known a) : Along (watch w) (Answers w) s rs := by
  induction rs generalizing s with
  | nil => trivial
  | cons r rs ih => exact ⟨answers_of_known (h 1), ih (fun k ↦ h (k + 1))⟩

theorem redirect_requests {x : Call} (hx : x ∈ (redirect w m addr).log.drop m.log.length) :
    ∃ host port, x.request = .replicaOf host port := by
  have hlog : (redirect w m addr).log =
      m.log ++ (reconfigure w.script [addr] m.master m.log).2 := by
    rw [redirect]
    split <;> rfl
  rw [hlog, List.drop_left, reconfigure_calls (List.nodup_singleton addr)] at hx
  cases hsplit : splitHostPort m.master with
  | none =>
    rw [hsplit] at hx
    cases hx
  | some hp =>
    rw [hsplit] at hx
    obtain ⟨a, -, rfl⟩ := List.mem_map.mp hx
    exact ⟨hp.1, hp.2, rfl⟩

theorem not_asksRole {s : Watch} (halive : (s.monitor.nodes a).alive = true) :
    ¬ AsksRole w s a := by
  rintro ⟨x, hx, -, hrequest⟩
  have hout := handleResult_outcome w s.monitor ⟨a, true⟩
  generalize handleResult w s.monitor ⟨a, true⟩ = m' at hout hx
  cases hout with
  | mute hdead =>
    rw [halive] at hdead
    cases hdead
  | recovered hdead =>
    rw [halive] at hdead
    cases hdead
  | healthy =>
    rw [retryStale] at hx
    split at hx
    · obtain ⟨host, port, hother⟩ := redirect_requests (m := s.monitor.awake a) hx
      rw [hrequest] at hother
      cases hother
    · change x ∈ s.monitor.log.drop s.monitor.log.length at hx
      rw [List.drop_length] at hx
      cases hx

/-- After each result of each tick the roles of all nodes alive are known, if and only if all
queries that are made because a dead node answers its ping are answered. While a node is alive, its
pings never make the monitor ask for its role. -/
theorem roles_known_iff (w : World cfg) (order : Order cfg) (ticks : List (Tick cfg)) :
    ((∀ k a,
      ((run (watch w) (watchFrom w order) ((ticks.flatMap Tick.results).take k)).monitor.nodes
        a).alive = true →
      (run (watch w) (watchFrom w order) ((ticks.flatMap Tick.results).take k)).Known a) ↔
    Along (watch w) (Answers w) (watchFrom w order) (ticks.flatMap Tick.results)) ∧
    ∀ k a,
      ((run (watch w) (watchFrom w order) ((ticks.flatMap Tick.results).take k)).monitor.nodes
        a).alive = true →
      ¬ AsksRole w (run (watch w) (watchFrom w order) ((ticks.flatMap Tick.results).take k)) a := by
  refine ⟨⟨answers_of_all_known, fun h k ↦ ?_⟩, fun k a ↦ not_asksRole⟩
  exact run_invariant (watch w) (fun _ _ hs hr ↦ hs.step hr) (Informed.start w order) (h.take _ k)

def lateRole : World ⟨sampleNodes, 2⟩ :=
  configured sampleNodes 2 sampleNodes_nodup (fun addr commands ↦
    if addr = ascii "b:2" then
      if commands.length < 3 then none else slaveRole
    else if addr = ascii "a:1" then masterRole else slaveRole)

def quietTicks : List (Tick ⟨sampleNodes, 2⟩) := List.replicate 3 (tickWithout 2 [])

/-- The node is unreachable at the start, and its first answer to `ROLE` gets lost. It is alive
with an unknown role from the first tick on and not asked again, although it would answer. -/
theorem role_stays_unknown :
    let s := run (watch lateRole) (watchFrom lateRole (sampleOrder 2))
      (quietTicks.flatMap Tick.results)
    s.monitor = run (healthCheck lateRole) (start lateRole (sampleOrder 2)) quietTicks ∧
    s.monitor.nodes (ascii "b:2") = ⟨ascii "unknown", true⟩ ∧ ¬ s.Known (ascii "b:2") ∧
    Lib.Transcript.asked s.monitor.log (ascii "b:2") = [.role, .role] ∧
    role (call lateRole.script s.monitor.log (ascii "b:2") .role).response =
      some (ascii "slave") := by
  intro s
  have hcalls : ∀ x ∈ s.heard (ascii "b:2"), x.2.peer = ascii "b:2" →
      x.2.request = .role ∧ role x.2.response = none := by decide +kernel
  refine ⟨watch_ticks (sampleOrder 2) quietTicks, by decide +kernel, ?_, by decide +kernel,
    by decide +kernel⟩
  rintro ⟨x, hx, hpeer, hreports⟩
  obtain ⟨hrequest, hnone⟩ := hcalls x hx hpeer
  rcases hreports with ⟨-, hsome⟩ | ⟨-, ⟨host, port, hother⟩, -⟩
  · rw [hnone] at hsome
    cases hsome
  · rw [hrequest] at hother
    cases hother

end RedisLite.Controller
