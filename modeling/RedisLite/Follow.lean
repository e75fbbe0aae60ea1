import RedisLite.Propagation

namespace RedisLite

/-- Everything in the store, and every key whose `DEL` is due, fits a bulk string. -/
structure Data.Bounded (d : Data) : Prop where
  stored : ∀ k entry, d.store.find k = some entry →
    k.length < 2 ^ 31 ∧ entry.value.length < 2 ^ 31
  unswept : ∀ k ∈ d.unswept, k.length < 2 ^ 31

namespace Server

open Lib.Run

variable {s : Server}

def Silent (s : Server) (e : Event) : Prop :=
  ∀ env c client args n, e = .process env → Receives s c client args n →
    client.type = .replica → Command.isWrite args = false

instance (s : Server) (e : Event) : Decidable (Silent s e) :=
  decidable_of_iff (∀ tk ∈ s.taking e, tk.client.type = .replica → Command.isWrite tk.args = false)
    (forall_taking_iff (P := fun _ _ client args ↦
      client.type = .replica → Command.isWrite args = false))

inductive MasterStep (s : Server) : Event → List (List Bytes) → Data → Prop
  | same (e : Event) : MasterStep s e [] s.data
  | rehash (items : List Item) :
    MasterStep s (.rehash items) [] { s.data with store := s.store.rehash items }
  | write (env : Env) (c : ClientId) (client : Client) (args : List Bytes) (n : ℕ)
    (hc : Receives s c client args n) (hw : Command.isWrite args = true) :
    MasterStep s (.process env) [args] ((s.data.execute env.clock.steady args false).track args)
  | sweep (now : TimePoint) (hpc : s.pc = .idle) : MasterStep s (.sweep now) [] { s.data with
      store := (s.store.evictExpired now).2, unswept := (s.store.evictExpired now).1 }
  | sweepNext (key : Bytes) (keys : List Bytes) (hpc : s.pc = .sweeping)
    (hkeys : s.unswept = key :: keys) :
    MasterStep s .sweepNext [[ascii "DEL", key]] (s.data.sweepKey key keys)

theorem masterStep_or {e : Event} (hs : Consistent s) (hr : s.replInfo.role = .master)
    (hsilent : Silent s e) : MasterStep s e (written s e) (step s e).data ∨
      written s e = [] ∧ ∃ env c host port, e = .process env ∧ Demotes s c host port ∧
        ((step s e).data.replInfo.role = .worker ∨ ∃ t what,
          s.handshakeFrom env c host port = (t, some (.runtimeError what)) ∧
          (step s e).data = t.data.revert) := by
  have hd := step_dataStep s e
  generalize (step s e).data = d, written s e = cmds at hd ⊢
  cases hd with
  | same => exact .inl (.same e)
  | rehash items => exact .inl (.rehash items)
  | sweep now hpc => exact .inl (.sweep now hpc)
  | sweepNext key keys hpc hkeys => exact .inl (.sweepNext key keys hpc hkeys)
  | link env c client args n hc ht =>
    have hrole := role_of_link hs hc.connected ht
    rw [hr] at hrole
    cases hrole
  | replica env c client args n hc ht =>
    unfold Data.execute
    rw [Command.execute_of_not_write _ _ _ _ (hsilent env c client args n rfl hc ht)]
    exact .inl (.same _)
  | write env c client args n hc ht hw => exact .inl (.write env c client args n hc hw)
  | promote env c client args n hc ht hn hne => exact absurd hr hne
  | linked env c host port hd t h =>
    exact .inr ⟨rfl, env, c, host, port, rfl, hd, .inl (handshakeFrom_role h)⟩
  | reverted env c host port hd t what h =>
    exact .inr ⟨rfl, env, c, host, port, rfl, hd, .inr ⟨t, what, h, rfl⟩⟩
  | terminated env c host port hd t h =>
    exact .inr ⟨rfl, env, c, host, port, rfl, hd, .inl (handshakeFrom_role h)⟩

theorem setEffect_mem {args : List Bytes} {key value : Bytes} {px : Option Int64}
    (he : Command.setEffect args = .set key value px) : key ∈ args ∧ value ∈ args := by
  unfold Command.setEffect at he
  split at he
  · split at he
    · cases he
    · cases he
      simp
    · split at he
      · cases he
      · cases he
        simp
  · cases he

theorem effect_mem {args : List Bytes} {key value : Bytes} {px : Option Int64}
    (he : Command.effect args = .set key value px) : key ∈ args ∧ value ∈ args := by
  unfold Command.effect at he
  split at he
  · cases he
  · split at he
    · exact setEffect_mem he
    · split at he <;> cases he

theorem effect_del (key : Bytes) : Command.effect [ascii "DEL", key] = .del [key] := by
  have h₁ : toUpper (ascii "DEL") ≠ ascii "SET" := by decide
  have h₂ : toUpper (ascii "DEL") = ascii "DEL" := by decide
  simp only [Command.effect]
  rw [if_neg h₁, if_pos h₂]

theorem execute_master {info : ReplicationInfo} (h : info.role = .master) (now : TimePoint)
    (args : List Bytes) (store : Store) :
    (Command.execute now args store info false).2 = (Command.effect args).apply now store := by
  rw [Command.execute_store, if_neg (by rw [h]; decide)]

theorem execute_fromMaster (now : TimePoint) (args : List Bytes) (store : Store)
    (info : ReplicationInfo) :
    (Command.execute now args store info true).2 = (Command.effect args).apply now store := by
  rw [Command.execute_store]
  rfl

theorem MasterStep.bounded {e : Event} {cmds : List (List Bytes)} {d : Data}
    (h : MasterStep s e cmds d) (hr : s.replInfo.role = .master) (hb : s.data.Bounded) :
    d.Bounded ∧ ∀ args ∈ cmds, Resp.Sized args := by
  cases h with
  | same => exact ⟨hb, nofun⟩
  | rehash items =>
    refine ⟨⟨fun k entry h ↦ hb.stored k entry ?_, hb.unswept⟩, nofun⟩
    rw [← Store.find_rehash items s.data.store k]
    exact h
  | write env c client args n hc hw =>
    have hsized := Resp.next_sized hc.next
    refine ⟨⟨fun k entry h ↦ ?_, hb.unswept⟩, fun args' h ↦ ?_⟩
    · change (Command.execute _ args s.store s.replInfo false).2.find k = _ at h
      rw [execute_master hr, Command.find_apply] at h
      cases heff : Command.effect args with
      | keep =>
        rw [heff] at h
        exact hb.stored k entry h
      | set key value px =>
        rw [heff] at h
        dsimp only at h
        split at h
        · next hk =>
          cases h
          rw [hk]
          obtain ⟨hkey, hvalue⟩ := effect_mem heff
          exact ⟨hsized.2 _ hkey, hsized.2 _ hvalue⟩
        · exact hb.stored k entry h
      | del keys =>
        rw [heff] at h
        dsimp only at h
        split at h
        · cases h
        · exact hb.stored k entry h
    · rw [List.mem_singleton.mp h]
      exact hsized
  | sweep now =>
    refine ⟨⟨fun k entry h ↦ ?_, fun k hk ↦ ?_⟩, nofun⟩
    · change (s.store.evictExpired now).2.find k = _ at h
      rw [Store.find_evictExpired] at h
      split at h
      · cases h
      · exact hb.stored k entry h
    · obtain ⟨entry, hentry, -⟩ := Store.evictExpired_mem hk
      exact (hb.stored k entry hentry).1
  | sweepNext key keys hpc hkeys =>
    have hunswept := hb.unswept
    change ∀ k ∈ s.unswept, _ at hunswept
    rw [hkeys] at hunswept
    have hkey := hunswept key (List.mem_cons_self ..)
    refine ⟨⟨hb.stored, fun k hk ↦ hunswept k (List.mem_cons_of_mem _ hk)⟩, fun args h ↦ ?_⟩
    · rw [List.mem_singleton.mp h]
      refine ⟨by simp, fun a ha ↦ ?_⟩
      rcases List.mem_cons.mp ha with rfl | ha
      · decide
      · rw [List.mem_singleton.mp ha]
        exact hkey

/-- One command of the link, with what the replica's clock and its replication info say
when it is executed. -/
structure Execution where
  now : TimePoint
  info : ReplicationInfo
  args : List Bytes

def replay (xs : List Execution) (store : Store) : Store :=
  xs.foldl (fun store x ↦ (Command.execute x.now x.args store x.info true).2) store

theorem replay_singleton (x : Execution) (store : Store) :
    replay [x] store = (Command.effect x.args).apply x.now store := by
  unfold replay
  rw [List.foldl_cons, List.foldl_nil, execute_fromMaster]

theorem replay_append (xs ys : List Execution) (store : Store) :
    replay (xs ++ ys) store = replay ys (replay xs store) := List.foldl_append

/-- A relation between what a master and its replica hold under a key that survives
deletions and the same `SET` at two different times. -/
structure Similar (P : Option Entry → Option Entry → Prop) : Prop where
  deleted : P none none
  set : ∀ value (px : Option Int64) (f g : Int64 → TimePoint),
    P (some ⟨value, px.map f⟩) (some ⟨value, px.map g⟩)

/-- `replica` follows `master`, but for the keys that wait for their `DEL`. -/
structure Follows (P : Option Entry → Option Entry → Prop) (master : Store) (unswept : List Bytes)
    (replica : Store) : Prop where
  gone : ∀ k ∈ unswept, master.find k = none
  slot : ∀ k, k ∉ unswept → P (master.find k) (replica.find k)

namespace Follows

variable {P : Option Entry → Option Entry → Prop} {master replica : Store} {unswept : List Bytes}

theorem congr {master' : Store} (h : Follows P master unswept replica)
    (hm : ∀ k, master'.find k = master.find k) : Follows P master' unswept replica where
  gone := fun k hk ↦ (hm k).trans (h.gone k hk)
  slot := fun k hk ↦ by
    rw [hm]
    exact h.slot k hk

theorem apply (hP : Similar P) (h : Follows P master [] replica) (eff : Command.Effect)
    (now now' : TimePoint) : Follows P (eff.apply now master) [] (eff.apply now' replica) := by
  refine ⟨nofun, fun k _ ↦ ?_⟩
  have hk := h.slot k List.not_mem_nil
  rw [Command.find_apply, Command.find_apply]
  cases eff with
  | keep => exact hk
  | set key value px =>
    by_cases hkey : k = key
    · simp only [hkey, if_true]
      exact hP.set value px _ _
    · simp only [hkey, if_false]
      exact hk
  | del keys =>
    by_cases hkey : k ∈ keys
    · simp only [hkey, if_true]
      exact hP.deleted
    · simp only [hkey, if_false]
      exact hk

theorem sweep (h : Follows P master [] replica) (now : TimePoint) :
    Follows P (master.evictExpired now).2 (master.evictExpired now).1 replica where
  gone := fun k hk ↦ by rw [Store.find_evictExpired, if_pos hk]
  slot := fun k hk ↦ by
    rw [Store.find_evictExpired, if_neg hk]
    exact h.slot k List.not_mem_nil

theorem delete (hP : Similar P) {key : Bytes} {keys : List Bytes}
    (h : Follows P master (key :: keys) replica) (now : TimePoint) :
    Follows P master keys ((Command.Effect.del [key]).apply now replica) where
  gone := fun k hk ↦ h.gone k (List.mem_cons_of_mem _ hk)
  slot := fun k hk ↦ by
    rw [Command.find_apply]
    by_cases hkey : k = key
    · rw [hkey, h.gone key (List.mem_cons_self ..)]
      simp only [List.mem_singleton, if_true]
      exact hP.deleted
    · simp only [List.mem_singleton, hkey, if_false]
      exact h.slot k (fun hmem ↦ (List.mem_cons.mp hmem).elim hkey hk)

theorem masterStep {e : Event} {cmds : List (List Bytes)} {d : Data} {xs : List Execution}
    (hP : Similar P) (h : Follows P s.store s.unswept replica) (hstep : MasterStep s e cmds d)
    (hr : s.replInfo.role = .master) (hdone : SweepDone s) (hx : xs.map (·.args) = cmds) :
    Follows P d.store d.unswept (replay xs replica) := by
  have hone {args : List Bytes} (hx : xs.map (·.args) = [args]) : ∃ now, replay xs replica =
      (Command.effect args).apply now replica := by
    obtain ⟨x, rfl, rfl⟩ := List.map_eq_singleton_iff.mp hx
    exact ⟨x.now, replay_singleton x replica⟩
  cases hstep with
  | same =>
    rw [List.map_eq_nil_iff.mp hx]
    exact h
  | rehash items =>
    rw [List.map_eq_nil_iff.mp hx]
    exact h.congr (Store.find_rehash items s.store)
  | write env c client args n hc hw =>
    have hnil : s.unswept = [] := hdone (by rw [hc.pc]; exact nofun)
    obtain ⟨now, hreplay⟩ := hone hx
    rw [hnil] at h
    have hm := execute_master hr env.clock.steady args s.store
    change Follows P (Command.execute env.clock.steady args s.store s.replInfo false).2 s.unswept _
    rw [hreplay, hm, hnil]
    exact h.apply hP _ _ _
  | sweep now hpc =>
    rw [List.map_eq_nil_iff.mp hx]
    have hnil : s.unswept = [] := hdone (by rw [hpc]; decide)
    rw [hnil] at h
    exact h.sweep now
  | sweepNext key keys hpc hkeys =>
    obtain ⟨now, hreplay⟩ := hone hx
    rw [hreplay, effect_del]
    rw [hkeys] at h
    exact h.delete hP now

theorem run {I : Server → Prop} {Q : Server → Event → Prop}
    (hstep : ∀ s e, I s → Q s e → I (step s e) ∧ ∀ replica xs, Follows P s.store s.unswept replica →
      xs.map Execution.args = written s e →
      Follows P (step s e).store (step s e).unswept (replay xs replica))
    {es : List Event} (hs : I s) (hq : Along step Q s es)
    (h : Follows P s.store s.unswept replica) (xs : List Execution)
    (hx : xs.map Execution.args = trace step written s es) :
    Follows P (run step s es).store (run step s es).unswept (replay xs replica) := by
  induction es generalizing s replica xs with
  | nil =>
    rw [List.map_eq_nil_iff.mp hx]
    exact h
  | cons e es ih =>
    obtain ⟨xs₁, xs₂, rfl, h₁, h₂⟩ := List.map_eq_append_iff.mp hx
    obtain ⟨hs', hfollow⟩ := hstep s e hs hq.1
    rw [replay_append]
    exact ih hs' hq.2 (hfollow replica xs₁ h h₁) xs₂ h₂

end Follows

end Server

end RedisLite
