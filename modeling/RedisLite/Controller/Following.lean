import RedisLite.Controller.Pings
import RedisLite.Controller.Strays

namespace RedisLite.Controller

def obeyed (a : Addr) (target : Option (Bytes × Bytes)) (x : Call) : Option (Bytes × Bytes) :=
  if x.peer = a ∧ replicaOf x.response = true then
    match x.request with
    | .noOne => none
    | .replicaOf host port => some (host, port)
    | .info => target
    | .role => target
  else target

/-- What the last `REPLICAOF` accepted by `a` names; nothing after a `REPLICAOF NO ONE`. -/
def following (log : List Call) (a : Addr) : Option (Bytes × Bytes) := log.foldl (obeyed a) none

def Idle (a : Addr) (x : Call) : Prop :=
  x.peer = a → replicaOf x.response = true → x.request = .info ∨ x.request = .role

section

variable {a : Addr} {log more : List Call} {x : Call}

theorem Idle.of_ne (h : x.peer ≠ a) : Idle a x := fun hpeer ↦ absurd hpeer h

theorem obeyed_of_idle (h : Idle a x) (target : Option (Bytes × Bytes)) :
    obeyed a target x = target := by
  rw [obeyed]
  split
  · next hx =>
    rcases h hx.1 hx.2 with hreq | hreq
    · rw [hreq]
    · rw [hreq]
  · rfl

theorem following_append_idle (h : ∀ x ∈ more, Idle a x) :
    following (log ++ more) a = following log a := by
  rw [following, List.foldl_append, ← following]
  generalize following log a = target
  induction more with
  | nil => rfl
  | cons x more ih =>
    rw [List.foldl_cons, obeyed_of_idle (h x List.mem_cons_self),
      ih (fun y hy ↦ h y (List.mem_cons_of_mem _ hy))]

theorem following_append_other (h : ∀ x ∈ more, x.peer ≠ a) :
    following (log ++ more) a = following log a :=
  following_append_idle (fun x hx ↦ .of_ne (h x hx))

theorem following_append_accepted {host port : Bytes} (hpeer : x.peer = a)
    (hreq : x.request = .replicaOf host port) (hok : replicaOf x.response = true) :
    following (log ++ [x]) a = some (host, port) := by
  rw [following, List.foldl_append, List.foldl_cons, List.foldl_nil, obeyed,
    if_pos ⟨hpeer, hok⟩, hreq]

end

def Follows (m : Monitor) (a : Addr) : Prop :=
  (splitHostPort m.master).isSome = true ∧ following m.log a = splitHostPort m.master

instance (m : Monitor) (a : Addr) : Decidable (Follows m a) :=
  inferInstanceAs (Decidable (_ ∧ _))

def Minded (m : Monitor) (a : Addr) : Prop :=
  a = m.master ∨ Follows m a ∨ (m.nodes a).role = ascii "master"

variable {cfg : Config} {w : World cfg} {m m' : Monitor} {a addr : Addr}

theorem Minded.congr (h : Minded m a) (hmaster : m'.master = m.master)
    (hlog : following m'.log a = following m.log a)
    (hrole : (m'.nodes a).role = (m.nodes a).role) : Minded m' a := by
  rw [Minded, Follows, hmaster, hlog, hrole]
  exact h

theorem Idle.of_refused {x : Call} (h : replicaOf x.response = false) : Idle a x := by
  intro _ hok
  rw [h] at hok
  cases hok

/-- A node that claims to be a master follows the master after its redirect, or still claims to
be one. The other nodes do not see the redirect. -/
theorem Minded.redirect (h : a ≠ addr → Minded m a)
    (hself : a = addr → (m.nodes a).role = ascii "master") : Minded (redirect w m addr) a := by
  have hout := redirect_outcome w m addr
  generalize Controller.redirect w m addr = m' at hout ⊢
  cases hout with
  | @accepted host port hsplit hok =>
    by_cases hne : a = addr
    · subst hne
      have hfollows : following (m.log ++ [call w.script m.log a (.replicaOf host port)]) a =
          some (host, port) := following_append_accepted rfl rfl hok
      refine .inr (.inl ⟨?_, hfollows.trans hsplit.symm⟩)
      exact (congrArg Option.isSome hsplit).trans rfl
    · refine (h hne).congr rfl (following_append_other ?_) ?_
      · intro x hx
        rw [List.mem_singleton.mp hx]
        exact Ne.symm hne
      · exact congrArg Node.role (Monitor.setRole_nodes_of_ne _ addr _ hne)
  | refused hcalls =>
    by_cases hne : a = addr
    · exact .inr (.inr (hself hne))
    · exact (h hne).congr rfl (following_append_idle (fun x hx ↦ .of_refused (hcalls x hx))) rfl

theorem Minded.retryStale (h : Minded m a) : Minded (retryStale w m addr) a := by
  rw [Controller.retryStale]
  split
  · next hstale => exact .redirect (fun _ ↦ h) (fun heq ↦ heq ▸ hstale.1)
  · exact h

theorem Minded.recovered (hknown : m.master ≠ []) {value : Bytes} (h : a ≠ addr → Minded m a)
    (hself : a = addr → a = m.master ∨ Follows m a ∨ value = ascii "master") :
    Minded (recovered w m addr value) a := by
  have hothers (hne : a ≠ addr) : Minded (m.setRole addr value) a :=
    (h hne).congr rfl rfl (congrArg Node.role (m.setRole_nodes_of_ne addr value hne))
  rw [Controller.recovered]
  split
  · next hvalue =>
    split
    · next hadopted =>
      have hmaster : addr = m.master := (hadopted.resolve_left hknown).symm
      by_cases hne : a = addr
      · exact .inl hne
      · exact (hothers hne).congr hmaster rfl rfl
    · refine .redirect hothers (fun heq ↦ ?_)
      rw [heq, m.setRole_nodes_self addr value]
      exact hvalue
  · next hvalue =>
    by_cases hne : a = addr
    · rcases hself hne with hmaster | hfollows | hclaims
      · exact .inl hmaster
      · exact .inr (.inl hfollows)
      · exact absurd hclaims hvalue
    · exact hothers hne

end RedisLite.Controller
