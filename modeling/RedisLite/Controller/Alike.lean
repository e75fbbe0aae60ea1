import RedisLite.Controller.Health

namespace RedisLite.Controller

open Lib.Transcript

variable {cfg : Config} {w : World cfg} {script : Script} {log log' : List Call}

section

variable (h : ∀ a, asked log a = asked log' a)

include h

theorem pickBestReplica_congr (candidates : List Addr) :
    pickBestReplica script candidates log = pickBestReplica script candidates log' := by
  rw [pickBestReplica, pickBestReplica, survey_congr _ h]

theorem reconfigure_congr (siblings : List Addr) (newMaster : Addr) :
    reconfigure script siblings newMaster log = reconfigure script siblings newMaster log' := by
  rw [reconfigure, reconfigure]
  cases splitHostPort newMaster with
  | none => rfl
  | some hp =>
    dsimp only
    rw [survey_congr _ h]

theorem promoteFirst_congr (ranked : List Addr) :
    promoteFirst script ranked log = promoteFirst script ranked log' := by
  induction ranked generalizing log log' with
  | nil => rfl
  | cons addr ranked ih =>
    have hnext (a : Addr) : asked (log ++ (tryCandidate script log' addr).2) a =
        asked (log' ++ (tryCandidate script log' addr).2) a := by
      rw [asked_append, asked_append, h a]
    rw [promoteFirst, promoteFirst, tryCandidate_congr (h addr), ih hnext]

theorem promote_congr (ranked : List Addr) :
    promote script ranked log = promote script ranked log' := by
  rw [promote, promote, promoteFirst_congr h]

end

/-- The monitors agree but for the failure counters and for how the calls to different nodes are
interleaved. -/
structure Alike (m m' : Monitor) : Prop where
  nodes : m.nodes = m'.nodes
  master : m.master = m'.master
  failoverCount : m.failoverCount = m'.failoverCount
  failoverInProgress : m.failoverInProgress = m'.failoverInProgress
  log : ∀ a, m.log.filter (·.peer = a) = m'.log.filter (·.peer = a)

namespace Alike

variable {m m' m'' : Monitor}

theorem refl (m : Monitor) : Alike m m := ⟨rfl, rfl, rfl, rfl, fun _ ↦ rfl⟩

theorem symm (h : Alike m m') : Alike m' m :=
  ⟨h.nodes.symm, h.master.symm, h.failoverCount.symm, h.failoverInProgress.symm,
    fun a ↦ (h.log a).symm⟩

theorem trans (h : Alike m m') (h' : Alike m' m'') : Alike m m'' :=
  ⟨h.nodes.trans h'.nodes, h.master.trans h'.master, h.failoverCount.trans h'.failoverCount,
    h.failoverInProgress.trans h'.failoverInProgress, fun a ↦ (h.log a).trans (h'.log a)⟩

theorem asked (h : Alike m m') (a : Addr) : asked m.log a = asked m'.log a := by
  rw [Lib.Transcript.asked, h.log a]
  rfl

theorem call (h : Alike m m') (addr : Addr) (request : Request) :
    call script m.log addr request = call script m'.log addr request :=
  ask_congr (h.asked addr) request

theorem record (h : Alike m m') (calls : List Call) : Alike (m.record calls) (m'.record calls) := by
  refine ⟨h.nodes, h.master, h.failoverCount, h.failoverInProgress, fun a ↦ ?_⟩
  change (m.log ++ calls).filter _ = (m'.log ++ calls).filter _
  rw [List.filter_append, List.filter_append, h.log a]

theorem setRole (h : Alike m m') (addr : Addr) (role : Bytes) :
    Alike (m.setRole addr role) (m'.setRole addr role) := by
  refine ⟨?_, h.master, h.failoverCount, h.failoverInProgress, h.log⟩
  rw [Monitor.setRole, Monitor.setRole, h.nodes]

theorem setAlive (h : Alike m m') (addr : Addr) (alive : Bool) :
    Alike (m.setAlive addr alive) (m'.setAlive addr alive) := by
  refine ⟨?_, h.master, h.failoverCount, h.failoverInProgress, h.log⟩
  rw [Monitor.setAlive, Monitor.setAlive, h.nodes]

theorem withMaster (h : Alike m m') (addr : Addr) :
    Alike { m with master := addr } { m' with master := addr } :=
  ⟨h.nodes, rfl, h.failoverCount, h.failoverInProgress, h.log⟩

theorem redirect (h : Alike m m') (addr : Addr) :
    Alike (redirect w m addr) (redirect w m' addr) := by
  have hresult : reconfigure w.script [addr] m.master m.log =
      reconfigure w.script [addr] m'.master m'.log := by
    rw [h.master]
    exact reconfigure_congr h.asked [addr] m'.master
  rw [Controller.redirect, Controller.redirect, hresult]
  split
  · exact (h.record _).setRole addr _
  · exact h.record _

theorem recovered (h : Alike m m') (addr : Addr) (value : Bytes) :
    Alike (recovered w m addr value) (recovered w m' addr value) := by
  have hset := h.setRole addr value
  have hmaster : (m.setRole addr value).master = (m'.setRole addr value).master := h.master
  rw [Controller.recovered, Controller.recovered, hmaster]
  split
  · split
    · exact hset.withMaster addr
    · exact hset.redirect addr
  · exact hset

theorem retryStale (h : Alike m m') (addr : Addr) :
    Alike (retryStale w m addr) (retryStale w m' addr) := by
  rw [Controller.retryStale, Controller.retryStale, h.nodes, h.master]
  split
  · exact h.redirect addr
  · exact h

theorem destruct (h : Alike m m') : ∃ nodes fails fails' master count busy log log',
    m = ⟨nodes, fails, master, count, busy, log⟩ ∧
    m' = ⟨nodes, fails', master, count, busy, log'⟩ := by
  obtain ⟨nodes, fails, master, count, busy, log⟩ := m
  obtain ⟨nodes', fails', master', count', busy', log'⟩ := m'
  obtain ⟨rfl, rfl, rfl, rfl, -⟩ := h
  exact ⟨_, _, _, _, _, _, _, _, rfl, rfl⟩

theorem completeFailover (h : Alike m m') (newMaster : Addr) :
    Alike (completeFailover w m newMaster) (completeFailover w m' newMaster) := by
  obtain ⟨nodes, fails, fails', master, count, busy, log, log', rfl, rfl⟩ := h.destruct
  have hset := (h.withMaster newMaster).setRole newMaster (ascii "master")
  have hcalls (siblings : List Addr) : reconfigure w.script siblings newMaster log =
      reconfigure w.script siblings newMaster log' := reconfigure_congr h.asked siblings newMaster
  unfold Controller.completeFailover
  dsimp only [Monitor.setRole] at hset ⊢
  generalize List.filter _ _ = siblings
  rw [hcalls siblings]
  split
  · exact hset
  · exact hset.record _

theorem failover (h : Alike m m') : Alike (failover w m) (failover w m') := by
  obtain ⟨nodes, fails, fails', master, count, busy, log, log', rfl, rfl⟩ := h.destruct
  have hcount : Alike ⟨nodes, fails, master, count + 1, busy, log⟩
      ⟨nodes, fails', master, count + 1, busy, log'⟩ := ⟨rfl, rfl, rfl, rfl, h.log⟩
  have hpick (candidates : List Addr) : pickBestReplica w.script candidates log =
      pickBestReplica w.script candidates log' := pickBestReplica_congr h.asked candidates
  have heligible : Monitor.eligible ⟨nodes, fails, master, count + 1, busy, log⟩ =
      Monitor.eligible ⟨nodes, fails', master, count + 1, busy, log'⟩ := rfl
  unfold Controller.failover
  dsimp only
  rw [heligible]
  generalize List.filter _ _ = candidates
  rw [hpick candidates]
  split
  · exact hcount
  · generalize pickBestReplica w.script candidates log' = pick
    obtain ⟨result, calls⟩ := pick
    have hrecord := hcount.record calls
    cases result with
    | error e => exact hrecord
    | ok ranked =>
      dsimp only
      rw [promote_congr hrecord.asked]
      generalize promote w.script ranked _ = outcome
      obtain ⟨result, calls⟩ := outcome
      cases result with
      | error e => exact hrecord.record calls
      | ok newMaster => exact (hrecord.record calls).completeFailover newMaster

theorem triggerFailover (h : Alike m m') : Alike (triggerFailover w m) (triggerFailover w m') := by
  rw [Controller.triggerFailover, Controller.triggerFailover, h.failoverInProgress]
  split
  · exact h
  · have hbusy : Alike { m with failoverInProgress := true }
        { m' with failoverInProgress := true } :=
      ⟨h.nodes, h.master, h.failoverCount, rfl, h.log⟩
    have hdone := hbusy.failover (w := w)
    exact ⟨hdone.nodes, hdone.master, hdone.failoverCount, rfl, hdone.log⟩

end Alike

theorem pingAnswered_eq (w : World cfg) (m : Monitor) (addr : Addr) :
    pingAnswered w m addr =
      if (m.nodes addr).alive = false then
        match role (call w.script m.log addr .role).response with
        | none => (m.awake addr).record [call w.script m.log addr .role]
        | some value => retryStale w (recovered w
          ((m.awake addr).record [call w.script m.log addr .role]) addr value) addr
      else retryStale w (m.awake addr) addr := by
  unfold pingAnswered
  cases (m.nodes addr).alive <;> rfl

structure Same (m m' : Monitor) : Prop extends Alike m m' where
  fails : m.fails = m'.fails

namespace Same

variable {m m' m'' : Monitor}

theorem refl (m : Monitor) : Same m m := ⟨.refl m, rfl⟩

theorem symm (h : Same m m') : Same m' m := ⟨h.toAlike.symm, h.fails.symm⟩

theorem trans (h : Same m m') (h' : Same m' m'') : Same m m'' :=
  ⟨h.toAlike.trans h'.toAlike, h.fails.trans h'.fails⟩

theorem setFails (h : Same m m') (addr : Addr) (n : ℕ) :
    Same (m.setFails addr n) (m'.setFails addr n) := by
  refine ⟨⟨h.nodes, h.master, h.failoverCount, h.failoverInProgress, h.log⟩, ?_⟩
  rw [Monitor.setFails, Monitor.setFails, h.fails]

theorem awake (h : Same m m') (addr : Addr) : Same (m.awake addr) (m'.awake addr) :=
  ⟨(h.setFails addr 0).setAlive addr true, (h.setFails addr 0).fails⟩

theorem missed (h : Same m m') (addr : Addr) : Same (m.missed addr) (m'.missed addr) := by
  rw [Monitor.missed, Monitor.missed, h.fails]
  exact h.setFails addr _

theorem downed (h : Same m m') (addr : Addr) : Same (m.downed addr) (m'.downed addr) :=
  ⟨(h.missed addr).setAlive addr false, (h.missed addr).fails⟩

theorem of_alike {n n' : Monitor} (h : Same m m') (hn : SameHealth m n) (hn' : SameHealth m' n')
    (halike : Alike n n') : Same n n' := ⟨halike, by rw [hn.fails, hn'.fails, h.fails]⟩

theorem pingFailed (h : Same m m') (addr : Addr) :
    Same (pingFailed w m addr) (pingFailed w m' addr) := by
  rw [pingFailed_eq, pingFailed_eq, h.fails, h.master]
  split
  · split
    · exact (h.downed addr).of_alike (.triggerFailover w _) (.triggerFailover w _)
        (h.downed addr).triggerFailover
    · exact h.downed addr
  · exact h.missed addr

theorem retryStale (h : Same m m') (addr : Addr) :
    Same (retryStale w m addr) (retryStale w m' addr) :=
  h.of_alike (.retryStale w m addr) (.retryStale w m' addr) (h.toAlike.retryStale addr)

theorem pingAnswered (h : Same m m') (addr : Addr) :
    Same (pingAnswered w m addr) (pingAnswered w m' addr) := by
  rw [pingAnswered_eq, pingAnswered_eq, h.nodes, h.call addr .role]
  generalize Controller.call w.script m'.log addr .role = x
  have hrecord : Same ((m.awake addr).record [x]) ((m'.awake addr).record [x]) :=
    ⟨(h.awake addr).record [x], (h.awake addr).fails⟩
  split
  · cases role x.response with
    | none => exact hrecord
    | some value =>
      exact (hrecord.of_alike (.recovered w _ addr value) (.recovered w _ addr value)
        (hrecord.toAlike.recovered addr value)).retryStale addr
  · exact (h.awake addr).retryStale addr

/-- A round of the loop does not see how the calls to different nodes are interleaved. -/
theorem handleResult (h : Same m m') (r : PingResult) :
    Same (handleResult w m r) (handleResult w m' r) := by
  rw [Controller.handleResult, Controller.handleResult]
  split
  · exact h.pingAnswered r.addr
  · exact h.pingFailed r.addr

end Same

end RedisLite.Controller
