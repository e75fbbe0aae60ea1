import RedisLite.Controller.Alike
import RedisLite.Controller.Attendance
import RedisLite.Lib.Reorder

namespace RedisLite.Controller

open Lib.Run Lib.Transcript

structure Effect where
  node : Node
  fails : ℕ
  calls : List Call

def Monitor.put (m : Monitor) (a : Addr) (e : Effect) : Monitor :=
  { m with
    nodes := Function.update m.nodes a e.node
    fails := Function.update m.fails a e.fails
    log := m.log ++ e.calls }

structure Twin (a : Addr) (m m' : Monitor) : Prop where
  node : m'.nodes a = m.nodes a
  fails : m'.fails a = m.fails a
  asked : asked m'.log a = asked m.log a

/-- At every twin of `m` whose master is one of `M`, the operation does the same to the node, and
nothing else. -/
def Local (M : Addr → Prop) (a : Addr) (m : Monitor) (op : Monitor → Monitor) : Prop :=
  ∃ e : Effect, (∀ x ∈ e.calls, x.peer = a) ∧
    ∀ m', Twin a m m' → M m'.master → op m' = m'.put a e

variable {cfg : Config} {w : World cfg} {m m' : Monitor} {a b : Addr} {M : Addr → Prop}

theorem put_put (e e' : Effect) :
    (m.put a e).put a e' = m.put a ⟨e'.node, e'.fails, e.calls ++ e'.calls⟩ := by
  simp only [Monitor.put, Function.update_idem, List.append_assoc]

namespace Twin

theorem refl (a : Addr) (m : Monitor) : Twin a m m := ⟨rfl, rfl, rfl⟩

theorem put (h : Twin a m m') (e : Effect) : Twin a (m.put a e) (m'.put a e) := by
  refine ⟨?_, ?_, ?_⟩
  · simp only [Monitor.put, Function.update_self]
  · simp only [Monitor.put, Function.update_self]
  · simp only [Monitor.put, asked_append, h.asked]

theorem put_other (h : Twin a m m') (hne : a ≠ b) {e : Effect} (he : ∀ x ∈ e.calls, x.peer = b) :
    Twin a m (m'.put b e) := by
  refine ⟨?_, ?_, ?_⟩
  · exact (Function.update_of_ne hne _ _).trans h.node
  · exact (Function.update_of_ne hne _ _).trans h.fails
  · refine (asked_append_other (fun x hx hpeer ↦ ?_)).trans h.asked
    exact hne (hpeer.symm.trans (he x hx))

theorem withMaster (h : Twin a m m') (x : Addr) : Twin a m { m' with master := x } :=
  ⟨h.node, h.fails, h.asked⟩

theorem call (h : Twin a m m') (request : Request) :
    call w.script m'.log a request = call w.script m.log a request := ask_congr h.asked request

end Twin

namespace Local

variable {op op' : Monitor → Monitor}

theorem congr (h : Local M a m op')
    (heq : ∀ m', Twin a m m' → M m'.master → op m' = op' m') : Local M a m op := by
  obtain ⟨e, he, hop⟩ := h
  exact ⟨e, he, fun m' ht hM ↦ (heq m' ht hM).trans (hop m' ht hM)⟩

theorem comp (h : Local M a m op) (hm : M m.master) (h' : Local M a (op m) op') :
    Local M a m (fun m ↦ op' (op m)) := by
  obtain ⟨e, he, hop⟩ := h
  obtain ⟨e', he', hop'⟩ := h'
  refine ⟨⟨e'.node, e'.fails, e.calls ++ e'.calls⟩, fun x hx ↦ ?_, fun m' ht hM ↦ ?_⟩
  · rcases List.mem_append.mp hx with hx | hx
    · exact he x hx
    · exact he' x hx
  · have htwin : Twin a (op m) (op m') := by
      rw [hop m (.refl a m) hm, hop m' ht hM]
      exact ht.put e
    have hmaster : (op m').master = m'.master := by
      rw [hop m' ht hM]
      rfl
    dsimp only
    rw [hop' (op m') htwin (hmaster ▸ hM), hop m' ht hM, put_put]

theorem master (h : Local M a m op) (hm : M m.master) : (op m).master = m.master := by
  obtain ⟨e, -, hop⟩ := h
  rw [hop m (.refl a m) hm]
  rfl

theorem id (M : Addr → Prop) (a : Addr) (m : Monitor) : Local M a m (fun m ↦ m) := by
  refine ⟨⟨m.nodes a, m.fails a, []⟩, by simp, fun m' ht _ ↦ ?_⟩
  rw [← ht.node, ← ht.fails]
  simp only [Monitor.put, Function.update_eq_self, List.append_nil]

theorem setRole (M : Addr → Prop) (a : Addr) (m : Monitor) (role : Bytes) :
    Local M a m (fun m ↦ m.setRole a role) := by
  refine ⟨⟨⟨role, (m.nodes a).alive⟩, m.fails a, []⟩, by simp, fun m' ht _ ↦ ?_⟩
  rw [← ht.node, ← ht.fails]
  simp only [Monitor.put, Monitor.setRole, Function.update_eq_self, List.append_nil]

theorem setAlive (M : Addr → Prop) (a : Addr) (m : Monitor) (alive : Bool) :
    Local M a m (fun m ↦ m.setAlive a alive) := by
  refine ⟨⟨⟨(m.nodes a).role, alive⟩, m.fails a, []⟩, by simp, fun m' ht _ ↦ ?_⟩
  rw [← ht.node, ← ht.fails]
  simp only [Monitor.put, Monitor.setAlive, Function.update_eq_self, List.append_nil]

theorem setFails (M : Addr → Prop) (a : Addr) (m : Monitor) (n : ℕ) :
    Local M a m (fun m ↦ m.setFails a n) := by
  refine ⟨⟨m.nodes a, n, []⟩, by simp, fun m' ht _ ↦ ?_⟩
  rw [← ht.node]
  simp only [Monitor.put, Monitor.setFails, Function.update_eq_self, List.append_nil]

theorem record (w : World cfg) (M : Addr → Prop) (a : Addr) (m : Monitor) (request : Request) :
    Local M a m (fun m ↦ m.record [call w.script m.log a request]) := by
  refine ⟨⟨m.nodes a, m.fails a, [call w.script m.log a request]⟩, fun x hx ↦ ?_,
    fun m' ht _ ↦ ?_⟩
  · rw [List.mem_singleton.mp hx]
    rfl
  · dsimp only
    rw [ht.call, ← ht.node, ← ht.fails]
    simp only [Monitor.put, Monitor.record, Function.update_eq_self]

theorem missed (M : Addr → Prop) (a : Addr) (m : Monitor) :
    Local M a m (fun m ↦ m.missed a) :=
  (setFails M a m (m.fails a + 1)).congr (fun m' ht _ ↦ by rw [Monitor.missed, ht.fails])

theorem downed (hm : M m.master) : Local M a m (fun m ↦ m.downed a) :=
  (missed M a m).comp hm (setAlive M a _ false)

theorem awake (hm : M m.master) : Local M a m (fun m ↦ m.awake a) :=
  (setFails M a m 0).comp hm (setAlive M a _ true)

end Local

theorem redirect_eq (w : World cfg) (m : Monitor) (a : Addr) :
    redirect w m a =
      match splitHostPort m.master with
      | none => m
      | some (host, port) =>
        if replicaOf (call w.script m.log a (.replicaOf host port)).response = true then
          (m.record [call w.script m.log a (.replicaOf host port)]).setRole a (ascii "slave")
        else m.record [call w.script m.log a (.replicaOf host port)] := by
  cases hsplit : splitHostPort m.master with
  | none => simp [redirect, reconfigure, hsplit, Monitor.record]
  | some hp =>
    have hresult : reconfigure w.script [a] m.master m.log =
        ([replicaOf (call w.script m.log a (.replicaOf hp.1 hp.2)).response],
          [call w.script m.log a (.replicaOf hp.1 hp.2)]) := by
      rw [reconfigure, hsplit]
      rfl
    simp only [redirect, hresult, List.head?_cons, Option.some.injEq]

theorem redirect_of_none (h : splitHostPort m.master = none) : redirect w m a = m := by
  rw [redirect_eq, h]

/-- A node that calls itself a master is told the same thing under all masters of `M`: there is
only one, or they are the node itself and addresses that cannot be split. -/
def Settled (M : Addr → Prop) (a : Addr) : Prop :=
  (∃ μ, ∀ x, M x → x = μ) ∨ ∀ x, M x → x = a ∨ splitHostPort x = none

namespace Local

theorem redirect {μ : Addr} (hM : ∀ x, M x → x = μ) (hm : M m.master) :
    Local M a m (fun m ↦ redirect w m a) := by
  cases hsplit : splitHostPort μ with
  | none =>
    refine (Local.id M a m).congr (fun m' _ hM' ↦ redirect_of_none ?_)
    rw [hM _ hM', hsplit]
  | some hp =>
    have hrecord := record w M a m (.replicaOf hp.1 hp.2)
    cases hok : replicaOf (call w.script m.log a (.replicaOf hp.1 hp.2)).response with
    | true =>
      refine (hrecord.comp hm (setRole M a _ (ascii "slave"))).congr (fun m' ht hM' ↦ ?_)
      rw [redirect_eq, hM _ hM', hsplit]
      dsimp only
      rw [ht.call, if_pos hok]
    | false =>
      refine hrecord.congr (fun m' ht hM' ↦ ?_)
      rw [redirect_eq, hM _ hM', hsplit]
      dsimp only
      rw [ht.call, if_neg (by rw [hok]; exact Bool.false_ne_true)]

theorem retryStale (hm : M m.master)
    (hsettled : (m.nodes a).role = ascii "master" → Settled M a) :
    Local M a m (fun m ↦ retryStale w m a) := by
  by_cases hrole : (m.nodes a).role = ascii "master"
  · rcases hsettled hrole with ⟨μ, hμ⟩ | hfree
    · by_cases hstale : a ≠ μ ∧ μ ≠ []
      · refine (redirect (w := w) hμ hm).congr (fun m' ht hM ↦ ?_)
        rw [Controller.retryStale, if_pos]
        rw [ht.node, hμ _ hM]
        exact ⟨hrole, hstale⟩
      · refine (Local.id M a m).congr (fun m' ht hM ↦ ?_)
        rw [Controller.retryStale, if_neg]
        rw [hμ _ hM]
        exact fun h ↦ hstale h.2
    · refine (Local.id M a m).congr (fun m' ht hM ↦ ?_)
      rw [Controller.retryStale]
      split
      · next h => exact redirect_of_none ((hfree _ hM).resolve_left (fun heq ↦ h.2.1 heq.symm))
      · rfl
  · refine (Local.id M a m).congr (fun m' ht _ ↦ ?_)
    rw [Controller.retryStale, if_neg]
    rw [ht.node]
    exact fun h ↦ hrole h.1

theorem recovered (hm : M m.master) {value : Bytes}
    (hsettled : value = ascii "master" → Settled M a ∧ ∀ x, M x → x = [] → a = []) :
    Local M a m (fun m ↦ recovered w m a value) := by
  by_cases hvalue : value = ascii "master"
  · obtain ⟨hsettled, hempty⟩ := hsettled hvalue
    -- the node keeps the master it is told to keep
    have hself {m' : Monitor} (hM : M m'.master) (h : m'.master = [] ∨ m'.master = a) :
        Controller.recovered w m' a value = m'.setRole a value := by
      have hmaster : m'.master = a := by
        rcases h with h | h
        · rw [h, hempty _ hM h]
        · exact h
      have hcond : (m'.setRole a value).master = [] ∨ (m'.setRole a value).master = a := h
      rw [Controller.recovered, if_pos hvalue, if_pos hcond, ← hmaster]
      rfl
    have hother {m' : Monitor} (h : ¬(m'.master = [] ∨ m'.master = a)) :
        Controller.recovered w m' a value = Controller.redirect w (m'.setRole a value) a := by
      have hcond : ¬((m'.setRole a value).master = [] ∨ (m'.setRole a value).master = a) := h
      rw [Controller.recovered, if_pos hvalue, if_neg hcond]
    rcases hsettled with ⟨μ, hμ⟩ | hfree
    · by_cases hcase : μ = [] ∨ μ = a
      · refine (setRole M a m value).congr (fun m' _ hM ↦ hself hM ?_)
        rw [hμ _ hM]
        exact hcase
      · refine ((setRole M a m value).comp hm (redirect (w := w) hμ hm)).congr
          (fun m' _ hM ↦ hother ?_)
        rw [hμ _ hM]
        exact hcase
    · refine (setRole M a m value).congr (fun m' _ hM ↦ ?_)
      by_cases hcase : m'.master = [] ∨ m'.master = a
      · exact hself hM hcase
      · rw [hother hcase]
        exact redirect_of_none ((hfree _ hM).resolve_left (fun h ↦ hcase (.inr h)))
  · refine (setRole M a m value).congr (fun m' _ _ ↦ ?_)
    rw [Controller.recovered, if_neg hvalue]

end Local

section

variable (w) (m)

def claimed (a : Addr) : Option Bytes :=
  if (m.nodes a).alive = false then role (call w.script m.log a .role).response
  else some (m.nodes a).role

def Asserts (r : PingResult) : Prop :=
  r.alive = true ∧ claimed w m r.addr = some (ascii "master")

def Adopts (r : PingResult) : Prop :=
  m.master = [] ∧ r.addr ≠ [] ∧ (m.nodes r.addr).alive = false ∧ Asserts w m r

end

def Still (cfg : Config) (m : Monitor) (r : PingResult) : Prop :=
  if r.alive = true then
    (m.nodes r.addr).alive = true ∧
      ((m.nodes r.addr).role ≠ ascii "master" ∨ r.addr = m.master)
  else ¬cfg.failureThresh ≤ m.fails r.addr + 1 ∨
    ((m.nodes r.addr).alive = false ∧ r.addr ≠ m.master)

theorem still_answered : Still cfg m ⟨a, true⟩ ↔ (m.nodes a).alive = true ∧
    ((m.nodes a).role ≠ ascii "master" ∨ a = m.master) := Iff.rfl

theorem still_missed : Still cfg m ⟨a, false⟩ ↔ ¬cfg.failureThresh ≤ m.fails a + 1 ∨
    ((m.nodes a).alive = false ∧ a ≠ m.master) := Iff.rfl

theorem claimed_twin (h : Twin a m m') : claimed w m' a = claimed w m a := by
  rw [claimed, claimed, h.node, h.call]

theorem asserts_twin {r : PingResult} (h : Twin r.addr m m') : Asserts w m' r ↔ Asserts w m r := by
  rw [Asserts, Asserts, claimed_twin h]

/-- A result that neither triggers a failover nor makes its node the master concerns its own node
only, under all masters that it cannot tell apart. -/
theorem local_handleResult {r : PingResult} (hm : M m.master)
    (hquiet : r.alive = false → cfg.failureThresh ≤ m.fails r.addr + 1 → ∀ x, M x → r.addr ≠ x)
    (hsettled : Asserts w m r → Settled M r.addr)
    (hempty : Asserts w m r → (m.nodes r.addr).alive = false → ∀ x, M x → x = [] → r.addr = []) :
    Local M r.addr m (fun m ↦ handleResult w m r) := by
  obtain ⟨addr, alive⟩ := r
  cases alive with
  | false =>
    have hbody (m' : Monitor) : handleResult w m' ⟨addr, false⟩ = pingFailed w m' addr :=
      if_neg Bool.false_ne_true
    by_cases hfails : cfg.failureThresh ≤ m.fails addr + 1
    · refine (Local.downed hm).congr (fun m' ht hM ↦ ?_)
      rw [hbody, pingFailed_eq, ht.fails, if_pos hfails, if_neg (hquiet rfl hfails _ hM)]
    · refine (Local.missed M addr m).congr (fun m' ht _ ↦ ?_)
      rw [hbody, pingFailed_eq, ht.fails, if_neg hfails]
  | true =>
    have hbody (m' : Monitor) : handleResult w m' ⟨addr, true⟩ = pingAnswered w m' addr := if_pos rfl
    have hawake : Local M addr m (fun m ↦ m.awake addr) := Local.awake hm
    by_cases hdead : (m.nodes addr).alive = false
    · have hask := hawake.comp hm (Local.record w M addr (m.awake addr) .role)
      cases hrole : role (call w.script m.log addr .role).response with
      | none =>
        refine hask.congr (fun m' ht _ ↦ ?_)
        rw [hbody, pingAnswered_eq, ht.node, if_pos hdead, ht.call, hrole, ← ht.call]
        rfl
      | some value =>
        have hasserts : value = ascii "master" → Asserts w m ⟨addr, true⟩ := fun h ↦
          ⟨rfl, by rw [claimed, if_pos hdead, hrole, h]⟩
        have hnext : Local M addr ((m.awake addr).record [call w.script m.log addr .role])
            (fun m ↦ recovered w m addr value) :=
          Local.recovered (m := (m.awake addr).record _) hm
            (fun h ↦ ⟨hsettled (hasserts h), hempty (hasserts h) hdead⟩)
        have hmaster : M (recovered w ((m.awake addr).record
            [call w.script m.log addr .role]) addr value).master := by
          rw [hnext.master hm]
          exact hm
        have hstale : ((recovered w ((m.awake addr).record
            [call w.script m.log addr .role]) addr value).nodes addr).role = ascii "master" →
            Settled M addr := by
          intro h
          by_cases hvalue : value = ascii "master"
          · exact hsettled (hasserts hvalue)
          · rw [recovered, if_neg hvalue, Monitor.setRole_nodes_self] at h
            exact absurd h hvalue
        refine ((hask.comp hm hnext).comp hm (Local.retryStale (w := w) hmaster hstale)).congr
          (fun m' ht _ ↦ ?_)
        rw [hbody, pingAnswered_eq, ht.node, if_pos hdead, ht.call, hrole, ← ht.call]
        rfl
    · refine (hawake.comp hm (Local.retryStale (w := w) hm (fun h ↦ hsettled ⟨rfl, ?_⟩))).congr
        (fun m' ht _ ↦ ?_)
      · have hsame : ((m.awake addr).nodes addr).role = (m.nodes addr).role :=
          (m.setFails addr 0).setAlive_role addr true addr
        rw [claimed, if_neg hdead, ← h, hsame]
      · rw [hbody, pingAnswered_eq, ht.node, if_neg hdead]

theorem local_of_quiet {r : PingResult} (htriggers : ¬Triggers cfg m r) (hadopts : ¬Adopts w m r) :
    Local (· = m.master) r.addr m (fun m ↦ handleResult w m r) := by
  refine local_handleResult rfl ?_ (fun _ ↦ .inl ⟨m.master, fun _ h ↦ h⟩) ?_
  · rintro hfailed hfails _ rfl heq
    obtain ⟨addr, alive⟩ := r
    have hfailed : alive = false := hfailed
    have heq : addr = m.master := heq
    subst hfailed heq
    exact htriggers ⟨rfl, hfails⟩
  · rintro hasserts hdead _ rfl hempty
    by_contra hne
    exact hadopts ⟨hempty, hne, hdead, hasserts⟩

/-- A node that comes back as a master while none is known is made the master. -/
theorem handleResult_adopts {r : PingResult} (h : Adopts w m r) :
    ∃ e : Effect, (∀ x ∈ e.calls, x.peer = r.addr) ∧ ∀ m', Twin r.addr m m' → m'.master = [] →
      handleResult w m' r = { m'.put r.addr e with master := r.addr } := by
  obtain ⟨addr, alive⟩ := r
  obtain ⟨hempty, -, hdead, halive, hclaimed⟩ := h
  have halive : alive = true := halive
  have hdead : (m.nodes addr).alive = false := hdead
  subst halive
  rw [claimed, if_pos hdead] at hclaimed
  have hawake : Local (fun _ ↦ True) addr m (fun m ↦ m.awake addr) := Local.awake trivial
  obtain ⟨e, he, hop⟩ := (hawake.comp trivial
    (Local.record w _ addr (m.awake addr) .role)).comp trivial
      (Local.setRole _ addr _ (ascii "master"))
  refine ⟨e, he, fun m' ht hmaster ↦ ?_⟩
  have hput := hop m' ht trivial
  dsimp only at hput ⊢
  have hbody : handleResult w m' ⟨addr, true⟩ = pingAnswered w m' addr := if_pos rfl
  have hrecovered : recovered w ((m'.awake addr).record [call w.script m'.log addr .role]) addr
      (ascii "master") = { m'.put addr e with master := addr } := by
    rw [← hput, recovered, if_pos rfl, if_pos (.inl hmaster)]
    rfl
  rw [hbody, pingAnswered_eq, ht.node, if_pos hdead, ht.call, hclaimed, ← ht.call]
  dsimp only
  rw [hrecovered, retryStale, if_neg]
  exact fun h ↦ h.2.1 rfl

theorem handleResult_still {r : PingResult} (h : Still cfg m r) :
    handleResult w m r =
      m.setFails r.addr (if r.alive = true then 0 else m.fails r.addr + 1) := by
  obtain ⟨addr, alive⟩ := r
  cases alive with
  | true =>
    obtain ⟨halive, hrole⟩ := still_answered.mp h
    have hawake : m.awake addr = m.setFails addr 0 :=
      (m.setFails addr 0).setAlive_eq_self addr halive
    rw [handleResult, if_pos rfl, pingAnswered_eq, if_neg (by rw [halive]; decide), hawake,
      retryStale, if_neg, if_pos rfl]
    rintro ⟨hmaster, hne, -⟩
    rcases hrole with hrole | hrole
    · exact hrole hmaster
    · exact hne hrole
  | false =>
    rw [handleResult, if_neg Bool.false_ne_true, pingFailed_eq, if_neg Bool.false_ne_true]
    by_cases hfails : cfg.failureThresh ≤ m.fails addr + 1
    · obtain ⟨hdead, hne⟩ := (still_missed.mp h).resolve_left (fun h ↦ h hfails)
      rw [if_pos hfails, if_neg hne]
      exact (m.missed addr).setAlive_eq_self addr hdead
    · rw [if_neg hfails]
      rfl

theorem same_put_put (hne : a ≠ b) {e e' : Effect} (he : ∀ x ∈ e.calls, x.peer = a)
    (he' : ∀ x ∈ e'.calls, x.peer = b) :
    Same ((m.put a e).put b e') ((m.put b e').put a e) := by
  have hnone {k j : Addr} (hkj : k ≠ j) {calls : List Call} (h : ∀ x ∈ calls, x.peer = j) :
      calls.filter (·.peer = k) = [] := by
    refine List.filter_eq_nil_iff.mpr (fun x hx ↦ ?_)
    rw [h x hx, decide_eq_true_eq]
    exact hkj.symm
  refine ⟨⟨?_, rfl, rfl, rfl, fun k ↦ ?_⟩, ?_⟩
  · exact Function.update_comm hne _ _ _
  · simp only [Monitor.put, List.filter_append, List.append_assoc]
    by_cases hk : k = a
    · subst hk
      rw [hnone hne he', List.nil_append, List.append_nil]
    · rw [hnone hk he, List.nil_append, List.append_nil]
  · exact Function.update_comm hne _ _ _

end RedisLite.Controller
