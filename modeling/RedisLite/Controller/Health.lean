import RedisLite.Controller.Failover

namespace RedisLite.Controller

namespace Monitor

variable (m : Monitor) (addr : Addr)

def awake : Monitor := (m.setFails addr 0).setAlive addr true

def missed : Monitor := m.setFails addr (m.fails addr + 1)

def downed : Monitor := (m.missed addr).setAlive addr false

theorem setRole_nodes_self (role : Bytes) :
    (m.setRole addr role).nodes addr = ⟨role, (m.nodes addr).alive⟩ := Function.update_self _ _ _

theorem setRole_nodes_of_ne (role : Bytes) {a : Addr} (h : a ≠ addr) :
    (m.setRole addr role).nodes a = m.nodes a := Function.update_of_ne h _ _

theorem setAlive_nodes_self (alive : Bool) :
    (m.setAlive addr alive).nodes addr = ⟨(m.nodes addr).role, alive⟩ := Function.update_self _ _ _

theorem setAlive_nodes_of_ne (alive : Bool) {a : Addr} (h : a ≠ addr) :
    (m.setAlive addr alive).nodes a = m.nodes a := Function.update_of_ne h _ _

@[simp] theorem setRole_alive (role : Bytes) (a : Addr) :
    ((m.setRole addr role).nodes a).alive = (m.nodes a).alive := by
  by_cases h : a = addr
  · rw [h, setRole_nodes_self]
  · rw [setRole_nodes_of_ne m addr role h]

@[simp] theorem setAlive_role (alive : Bool) (a : Addr) :
    ((m.setAlive addr alive).nodes a).role = (m.nodes a).role := by
  by_cases h : a = addr
  · rw [h, setAlive_nodes_self]
  · rw [setAlive_nodes_of_ne m addr alive h]

theorem setAlive_eq_self {alive : Bool} (h : (m.nodes addr).alive = alive) :
    m.setAlive addr alive = m := by
  subst h
  exact congrArg (fun nodes ↦ { m with nodes := nodes }) (Function.update_eq_self addr m.nodes)

end Monitor

variable {cfg : Config}

theorem mem_results {t : Tick cfg} {r : PingResult} (h : r ∈ t.results) :
    r.addr ∈ cfg.nodes ∧ r.alive = ping (t.pings r.addr) := by
  obtain ⟨b, hb, rfl⟩ := List.mem_map.mp h
  exact ⟨t.arrivals.mem_iff.mp hb, rfl⟩

inductive ResultOutcome (w : World cfg) (m : Monitor) : PingResult → Monitor → Prop
  | suspect {addr : Addr} (hfails : ¬cfg.failureThresh ≤ m.fails addr + 1) :
      ResultOutcome w m ⟨addr, false⟩ (m.missed addr)
  | dead {addr : Addr} (hfails : cfg.failureThresh ≤ m.fails addr + 1) (hne : addr ≠ m.master) :
      ResultOutcome w m ⟨addr, false⟩ (m.downed addr)
  | failover (hfails : cfg.failureThresh ≤ m.fails m.master + 1) :
      ResultOutcome w m ⟨m.master, false⟩ (triggerFailover w (m.downed m.master))
  | mute {addr : Addr} (hdead : (m.nodes addr).alive = false)
      (hrole : role (call w.script m.log addr .role).response = none) :
      ResultOutcome w m ⟨addr, true⟩ ((m.awake addr).record [call w.script m.log addr .role])
  | recovered {addr : Addr} {value : Bytes} (hdead : (m.nodes addr).alive = false)
      (hrole : role (call w.script m.log addr .role).response = some value) :
      ResultOutcome w m ⟨addr, true⟩ (retryStale w (recovered w
        ((m.awake addr).record [call w.script m.log addr .role]) addr value) addr)
  | healthy {addr : Addr} (halive : (m.nodes addr).alive = true) :
      ResultOutcome w m ⟨addr, true⟩ (retryStale w (m.awake addr) addr)

theorem pingFailed_eq (w : World cfg) (m : Monitor) (addr : Addr) :
    pingFailed w m addr =
      if cfg.failureThresh ≤ m.fails addr + 1 then
        if addr = m.master then triggerFailover w (m.downed addr) else m.downed addr
      else m.missed addr := by
  have hfails : ((m.missed addr).fails addr : ℤ) = m.fails addr + 1 := by
    simp [Monitor.missed, Monitor.setFails]
  have hdown : (if ((m.missed addr).nodes addr).alive = true
      then (m.missed addr).setAlive addr false else m.missed addr) = m.downed addr := by
    cases halive : ((m.missed addr).nodes addr).alive with
    | true => rfl
    | false => exact ((m.missed addr).setAlive_eq_self addr halive).symm
  have hbody : pingFailed w m addr =
      if cfg.failureThresh ≤ (m.missed addr).fails addr then
        if addr = (if ((m.missed addr).nodes addr).alive = true
            then (m.missed addr).setAlive addr false else m.missed addr).master then
          triggerFailover w (if ((m.missed addr).nodes addr).alive = true
            then (m.missed addr).setAlive addr false else m.missed addr)
        else if ((m.missed addr).nodes addr).alive = true
          then (m.missed addr).setAlive addr false else m.missed addr
      else m.missed addr := rfl
  rw [hbody, hdown, hfails]
  rfl

theorem handleResult_outcome (w : World cfg) (m : Monitor) (r : PingResult) :
    ResultOutcome w m r (handleResult w m r) := by
  obtain ⟨addr, alive⟩ := r
  cases alive with
  | false =>
    rw [handleResult, if_neg Bool.false_ne_true, pingFailed_eq]
    by_cases hfails : cfg.failureThresh ≤ m.fails addr + 1
    · rw [if_pos hfails]
      by_cases hmaster : addr = m.master
      · subst hmaster
        rw [if_pos rfl]
        exact .failover hfails
      · rw [if_neg hmaster]
        exact .dead hfails hmaster
    · rw [if_neg hfails]
      exact .suspect hfails
  | true =>
    rw [handleResult, if_pos rfl]
    cases halive : (m.nodes addr).alive with
    | true =>
      have hbody : pingAnswered w m addr = retryStale w (m.awake addr) addr :=
        if_neg (by simp [halive])
      rw [hbody]
      exact .healthy halive
    | false =>
      rw [pingAnswered]
      dsimp only
      have hlog : ((m.setFails addr 0).setAlive addr true).log = m.log := rfl
      rw [halive, if_pos Bool.not_false, hlog]
      cases hrole : role (call w.script m.log addr .role).response with
      | none => exact .mute halive hrole
      | some value => exact .recovered halive hrole

inductive RedirectOutcome (w : World cfg) (m : Monitor) (addr : Addr) : Monitor → Prop
  | accepted {host port : Bytes} (hsplit : splitHostPort m.master = some (host, port))
      (hok : replicaOf (call w.script m.log addr (.replicaOf host port)).response = true) :
      RedirectOutcome w m addr ((m.record
        [call w.script m.log addr (.replicaOf host port)]).setRole addr (ascii "slave"))
  | refused {calls : List Call} (hcalls : ∀ x ∈ calls, replicaOf x.response = false) :
      RedirectOutcome w m addr (m.record calls)

theorem redirect_outcome (w : World cfg) (m : Monitor) (addr : Addr) :
    RedirectOutcome w m addr (redirect w m addr) := by
  cases hsplit : splitHostPort m.master with
  | none =>
    have h : redirect w m addr = m.record [] := by simp [redirect, reconfigure, hsplit]
    rw [h]
    exact .refused (by simp)
  | some hp =>
    have hresult : reconfigure w.script [addr] m.master m.log =
        ([replicaOf (call w.script m.log addr (.replicaOf hp.1 hp.2)).response],
          [call w.script m.log addr (.replicaOf hp.1 hp.2)]) := by
      rw [reconfigure, hsplit]
      rfl
    simp only [redirect, hresult, List.head?_cons, Option.some.injEq]
    cases hok : replicaOf (call w.script m.log addr (.replicaOf hp.1 hp.2)).response with
    | true =>
      rw [if_pos rfl]
      exact .accepted hsplit hok
    | false =>
      rw [if_neg Bool.false_ne_true]
      exact .refused (by simpa using hok)

structure SameHealth (m m' : Monitor) : Prop where
  fails : m'.fails = m.fails
  alive : ∀ a, (m'.nodes a).alive = (m.nodes a).alive

namespace SameHealth

variable {w : World cfg} {m m' m'' : Monitor}

theorem refl (m : Monitor) : SameHealth m m := ⟨rfl, fun _ ↦ rfl⟩

theorem trans (h : SameHealth m m') (h' : SameHealth m' m'') : SameHealth m m'' :=
  ⟨h'.fails.trans h.fails, fun a ↦ (h'.alive a).trans (h.alive a)⟩

theorem setRole (m : Monitor) (addr : Addr) (role : Bytes) : SameHealth m (m.setRole addr role) :=
  ⟨rfl, m.setRole_alive addr role⟩

theorem record (m : Monitor) (calls : List Call) : SameHealth m (m.record calls) :=
  ⟨rfl, fun _ ↦ rfl⟩

theorem redirect (w : World cfg) (m : Monitor) (addr : Addr) :
    SameHealth m (redirect w m addr) := by
  have h := redirect_outcome w m addr
  generalize Controller.redirect w m addr = m' at h ⊢
  cases h with
  | accepted => exact (record m _).trans (setRole _ _ _)
  | refused => exact record m _

theorem recovered (w : World cfg) (m : Monitor) (addr : Addr) (value : Bytes) :
    SameHealth m (recovered w m addr value) := by
  have h := setRole m addr value
  rw [Controller.recovered]
  split
  · split
    · exact ⟨h.fails, h.alive⟩
    · exact h.trans (redirect w _ addr)
  · exact h

theorem retryStale (w : World cfg) (m : Monitor) (addr : Addr) :
    SameHealth m (retryStale w m addr) := by
  rw [Controller.retryStale]
  split
  · exact redirect w m addr
  · exact refl m

theorem triggerFailover (w : World cfg) (m : Monitor) : SameHealth m (triggerFailover w m) := by
  have h := triggerFailover_outcome w m
  generalize Controller.triggerFailover w m = m' at h ⊢
  cases h with
  | skipped => exact refl m
  | failed => exact ⟨rfl, fun _ ↦ rfl⟩
  | @promoted _ _ n => exact ⟨rfl, m.setRole_alive n (ascii "master")⟩

end SameHealth

end RedisLite.Controller
