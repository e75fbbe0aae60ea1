import RedisLite.Follow
import RedisLite.Lib.Ledger

namespace RedisLite

def ReplicationInfo.identity (info : ReplicationInfo) : Bytes × Bytes × ℤ :=
  (info.masterReplid, info.masterReplid2, info.secondReplOffset)

namespace Server

open Handshake Lib.Run Lib.Ledger
open ReplicationBacklog (Refines)

structure Feed where
  id : Bytes
  offset : ℤ
  args : List Bytes
  deriving DecidableEq

/-- What a step feeds to the backlog, under which replication ID and at which offset. -/
def feeds (s : Server) (e : Event) : List Feed :=
  (written s e).map (Feed.mk s.replInfo.masterReplid s.masterReplOffset)

variable {s s₀ : Server} {e : Event} {es es₁ es₂ : List Event}

/-- The backlog is fed with nothing else, and only a promotion restarts it. -/
theorem step_backlog (s : Server) (e : Event) :
    (step s e).backlog = (feeds s e).foldl
      (fun backlog f ↦ backlog.feed (Resp.encodeArray f.args) f.offset) s.backlog ∨
    s.replInfo.role = .worker ∧
      (step s e).data = s.data.promote (step s e).replInfo.masterReplid := by
  have hd := step_dataStep s e
  change (step s e).data.backlog = _ ∨ _ ∧ _ = s.data.promote (step s e).data.replInfo.masterReplid
  unfold feeds
  generalize (step s e).data = d, written s e = cmds at hd ⊢
  cases hd with
  | promote env c client args n hc ht hn hr => exact .inr ⟨Role.eq_worker hr, rfl⟩
  | linked env c host port hd t h | terminated env c host port hd t h =>
    obtain ⟨id, n, store, h⟩ := handshakeFrom_data h
    exact .inl (congrArg Data.backlog h)
  | reverted env c host port hd t what h =>
    obtain ⟨id, n, store, h⟩ := handshakeFrom_data h
    exact .inl (congrArg Data.backlog h)
  | same | rehash | sweep | sweepNext | link | replica | write => exact .inl rfl

/-- The steps under which a replication ID stands for one history. -/
structure Orderly (s : Server) (e : Event) : Prop where
  /-- Regular clients send write commands to masters only. -/
  masters : ∀ env c client args n, e = .process env → Receives s c client args n →
    client.type = .regular → Command.isWrite args = true → s.replInfo.role = .master
  /-- The replicas of a master send it no write commands. -/
  silent : s.replInfo.role = .master → Silent s e
  /-- A worker has nothing left in its backlog that it would answer a `PSYNC` from. -/
  psync : ∀ env c client args n, e = .process env → Receives s c client args n →
    client.type = .regular → commandName args = ascii "PSYNC" → s.replInfo.role = .worker →
    s.acceptsPartial (psyncPosition args).1 (psyncPosition args).2 = false
  /-- A peer refuses only a master that has written nothing, and announces no other ID. -/
  reverts : ∀ env c host port, e = .process env → Demotes s c host port →
    Survives (s.demotionPeer env c host port) → ¬Admits (s.demotionPeer env c host port) →
    s.replInfo.role = .master ∧ s.masterReplOffset = 0 ∧
      ∀ id n, Announces (s.demotionPeer env c host port) id n → id = s.replInfo.masterReplid

@[mk_iff] structure Loyal (s : Server) (e : Event) : Prop where
  stays : ∀ tk ∈ s.taking e, commandName tk.args = ascii "REPLICAOF" →
    replicaofTarget tk.args = none
  masters : ∀ tk ∈ s.taking e, tk.client.type = .regular → Command.isWrite tk.args = true →
    s.replInfo.role = .master
  silent : s.replInfo.role = .master → Silent s e
  psync : ∀ tk ∈ s.taking e, tk.client.type = .regular → commandName tk.args = ascii "PSYNC" →
    s.replInfo.role = .worker →
    s.acceptsPartial (psyncPosition tk.args).1 (psyncPosition tk.args).2 = false

instance (s : Server) (e : Event) : Decidable (Loyal s e) :=
  decidable_of_iff' _ (loyal_iff s e)

theorem Loyal.orderly {s : Server} {e : Event} (h : Loyal s e) : Orderly s e where
  masters := by
    rintro env c client args n rfl hc
    exact h.masters _ (hc.taking_eq env)
  silent := h.silent
  psync := by
    rintro env c client args n rfl hc
    exact h.psync _ (hc.taking_eq env)
  reverts := by
    rintro env c host port rfl hd
    obtain ⟨client, args, n, hc, -, hn, htarget⟩ := hd.receives
    rw [h.stays _ (hc.taking_eq env) hn] at htarget
    cases htarget

def FreshIds (s₀ : Server) (es : List Event) : Prop :=
  ∀ k < es.length, (run step s₀ (es.take k)).replInfo.role = .worker →
    (run step s₀ (es.take (k + 1))).replInfo.role = .master →
    ∀ j ≤ k, (run step s₀ (es.take j)).replInfo.masterReplid ≠
      (run step s₀ (es.take (k + 1))).replInfo.masterReplid

instance (s₀ : Server) (es : List Event) : Decidable (FreshIds s₀ es) :=
  inferInstanceAs (Decidable (∀ k < es.length, _ → _ → ∀ j ≤ k, _ ≠ _))

theorem FreshIds.init (h : FreshIds s₀ (es ++ [e])) : FreshIds s₀ es := by
  intro k hk hw hm j hj
  have htake {i : ℕ} (hi : i ≤ es.length) : (es ++ [e]).take i = es.take i :=
    List.take_append_of_le_length hi
  have h := h k (by simp only [List.length_append]; omega)
  rw [htake (by omega), htake (by omega)] at h
  have h := h hw hm j hj
  rwa [htake (by omega)] at h

theorem FreshIds.last (h : FreshIds s₀ (es ++ [e]))
    (hw : (run step s₀ es).replInfo.role = .worker)
    (hm : (run step s₀ (es ++ [e])).replInfo.role = .master) :
    ∀ j < (es ++ [e]).length, (run step s₀ ((es ++ [e]).take j)).replInfo.masterReplid ≠
      (run step s₀ (es ++ [e])).replInfo.masterReplid := by
  intro j hj
  rw [List.length_append, List.length_singleton] at hj
  have h := h es.length (by simp)
  rw [List.take_left, List.take_of_length_le (by simp)] at h
  exact h hw hm j (by omega)

def Reigns (s : Server) (e : Event) : Prop :=
  s.replInfo.role = .master ∧ (step s e).replInfo.role = .master

/-- A server has been a master all along `es₂`, under an ID that it had not had before
`es₁` was over, as it started or as it was promoted. -/
structure Term (s₀ : Server) (es₁ es₂ : List Event) : Prop where
  role : (run step s₀ es₁).replInfo.role = .master
  reigns : Along step Reigns (run step s₀ es₁) es₂
  first : ∀ j < es₁.length, (run step s₀ (es₁.take j)).replInfo.masterReplid ≠
    (run step s₀ es₁).replInfo.masterReplid
  begins : (es₁ = [] ∧ ∃ replid, s₀ = init replid) ∨ ∃ es e, es₁ = es ++ [e] ∧
    (run step s₀ es).replInfo.role = .worker ∧ (run step s₀ es₁).data =
      (run step s₀ es).data.promote (run step s₀ es₁).replInfo.masterReplid

inductive TermStep (s : Server) (e : Event) : List (List Bytes) → Data → Prop
  | step {cmds : List (List Bytes)} {d : Data} (h : MasterStep s e cmds d) : TermStep s e cmds d
  | reverted (info : ReplicationInfo) (replicaof : Option (Bytes × ℤ))
    (h : info.identity = s.replInfo.identity) :
    TermStep s e [] { s.data with replInfo := info, replicaof := replicaof }

theorem termStep (hs : Consistent s) (ho : Orderly s e) (hr : Reigns s e) :
    TermStep s e (written s e) (step s e).data := by
  rcases masterStep_or hs hr.1 (ho.silent hr.1) with h |
    ⟨hnone, env, c, host, port, rfl, hd, hw | ⟨t, what, ht, hrevert⟩⟩
  · exact .step h
  · have hm : (step s (.process env)).data.replInfo.role = .master := hr.2
    rw [hw] at hm
    cases hm
  · obtain ⟨hsurvives, hnot⟩ := handshakeFrom_reverted ht
    obtain ⟨-, hzero, hann⟩ := ho.reverts env c host port rfl hd hsurvives hnot
    have hid : t.replInfo.masterReplid = s.replInfo.masterReplid := by
      rcases handshakeFrom_announced ht hsurvives with h | ⟨-, h, -⟩
      · exact hann _ _ h
      · exact h
    obtain ⟨id, n, hdata⟩ := handshakeFrom_failed ht
    have hid : id = s.replInfo.masterReplid :=
      (congrArg (fun d : Data ↦ d.replInfo.masterReplid) hdata).symm.trans hid
    have hrest : t.data.revert =
        { s.data with replInfo := t.data.revert.replInfo, replicaof := none } := by
      rw [hdata]
      simp only [Data.revert, Data.handshake, Data.demote, data, hr.1, hzero, if_true]
    rw [hnone, hrevert, hrest]
    refine .reverted _ _ ?_
    rw [hdata, hid]
    rfl

/-- The history of a term: it begins at `base` and holds `cmds`, and the backlog is its
tail. -/
structure Kept (base : ℤ) (cmds : List (List Bytes)) (d : Data) : Prop where
  offset : d.masterReplOffset = base + (Resp.framing.stream cmds).length
  backlog : (cmds = [] ∧ Refines d.backlog none) ∨
    Refines d.backlog (some ⟨base, Resp.framing.stream cmds⟩)

namespace Kept

variable {base : ℤ} {cmds : List (List Bytes)} {d d' : Data}

theorem feed {args : List Bytes} (h : Kept base cmds d)
    (ho : d'.masterReplOffset = d.masterReplOffset + (Resp.encodeArray args).length)
    (hb : d'.backlog = d.backlog.feed (Resp.encodeArray args) d.masterReplOffset) :
    Kept base (cmds ++ [args]) d' := by
  have hstream : Resp.framing.stream (cmds ++ [args]) =
      Resp.framing.stream cmds ++ Resp.encodeArray args := by
    rw [Lib.Framing.stream_append, Lib.Framing.stream_cons, Lib.Framing.stream_nil,
      List.append_nil]
    rfl
  refine ⟨?_, .inr ?_⟩
  · rw [ho, h.offset, hstream, List.length_append]
    omega
  · rw [hb, hstream]
    rcases h.backlog with ⟨rfl, hnone⟩ | hsome
    · have hfed := ReplicationBacklog.refines_feed hnone (Resp.encodeArray args)
        d.masterReplOffset (fun hd ↦ by rw [hnone.1] at hd; cases hd)
      have hpos : (Resp.encodeArray args).isEmpty = false := by
        rw [List.isEmpty_eq_false_iff]
        exact List.length_pos_iff.mp (Resp.encodeArray_length_pos args)
      have hbase : d.masterReplOffset = base := by simpa using h.offset
      simp only [ReplicationBacklog.Log.step, hpos, Bool.false_eq_true, if_false] at hfed
      rw [hbase] at hfed ⊢
      exact hfed
    · exact ReplicationBacklog.refines_feed hsome _ _
        (fun _ ↦ h.offset.trans hsome.2.2.1.symm)

theorem termStep {cmds' : List (List Bytes)} (h : Kept base cmds s.data)
    (hstep : TermStep s e cmds' d) : Kept base (cmds ++ cmds') d := by
  cases hstep with
  | reverted =>
    rw [List.append_nil]
    exact ⟨h.offset, h.backlog⟩
  | step hstep =>
    cases hstep with
    | same | rehash | sweep =>
      rw [List.append_nil]
      exact ⟨h.offset, h.backlog⟩
    | write | sweepNext => exact h.feed rfl rfl

end Kept

theorem TermStep.identity {cmds : List (List Bytes)} {d : Data} (h : TermStep s e cmds d) :
    d.replInfo.identity = s.replInfo.identity := by
  cases h with
  | reverted info replicaof h => exact h
  | step h => cases h <;> rfl

theorem Term.kept (h : Term s₀ es₁ es₂) :
    Kept (run step s₀ es₁).masterReplOffset [] (run step s₀ es₁).data := by
  refine ⟨(Int.add_zero _).symm, ?_⟩
  rcases h.begins with ⟨rfl, replid, rfl⟩ | ⟨es, e, rfl, hw, hd⟩
  · exact .inl ⟨rfl, ReplicationBacklog.refines_new _ _⟩
  · rw [hd]
    have ho : (run step s₀ (es ++ [e])).masterReplOffset =
        (run step s₀ es).replInfo.masterReplOffset := congrArg Data.masterReplOffset hd
    rw [ho]
    exact .inr (ReplicationBacklog.refines_setStart _ _)

/-- The run lemma of a term: history, identity and every feed in its place. -/
theorem kept_run {base : ℤ} {cmds : List (List Bytes)} (hs : Consistent s)
    (ho : Along step Orderly s es) (hr : Along step Reigns s es) (hk : Kept base cmds s.data) :
    Kept base (cmds ++ trace step written s es) (run step s es).data ∧
      (run step s es).replInfo.identity = s.replInfo.identity := by
  induction es generalizing s cmds with
  | nil => exact ⟨by simpa using hk, rfl⟩
  | cons e es ih =>
    have hstep := termStep hs ho.1 hr.1
    obtain ⟨h, hid⟩ := ih (hs.step e) ho.2 hr.2 (hk.termStep hstep)
    rw [List.append_assoc] at h
    exact ⟨h, hid.trans hstep.identity⟩

theorem written_at_most_one (s : Server) (e : Event) :
    written s e = [] ∨ ∃ args, written s e = [args] := by
  have h := step_dataStep s e
  generalize (step s e).data = d, written s e = cmds at h ⊢
  cases h with
  | sweepNext | write => exact .inr ⟨_, rfl⟩
  | same | rehash | sweep | link | replica | promote | linked | reverted | terminated =>
    exact .inl rfl

theorem feeds_id {f : Feed} (hf : f ∈ feeds s e) : f.id = s.replInfo.masterReplid := by
  obtain ⟨args, -, rfl⟩ := List.mem_map.mp hf
  rfl

/-- One step of a term: what it feeds stands in the history where its offset says. -/
theorem feeds_placed {base : ℤ} {cmds : List (List Bytes)} (hk : Kept base cmds s.data) {f : Feed}
    (hf : f ∈ feeds s e) (more : List (List Bytes)) :
    Placed base (Resp.framing.stream (cmds ++ (written s e ++ more))) f.offset
      (Resp.encodeArray f.args) := by
  obtain ⟨args, hmem, rfl⟩ := List.mem_map.mp hf
  have hone : written s e = [args] := by
    rcases written_at_most_one s e with h | ⟨args', h⟩
    · rw [h] at hmem
      cases hmem
    · rw [h] at hmem ⊢
      rw [List.mem_singleton.mp hmem]
  rw [hone, Lib.Framing.stream_append, List.singleton_append, Lib.Framing.stream_cons,
    ← List.append_assoc]
  change Placed _ _ s.data.masterReplOffset _
  rw [hk.offset]
  exact (placed_last base _ _).append _

theorem feeds_placed_run {base : ℤ} {cmds : List (List Bytes)} (hs : Consistent s)
    (ho : Along step Orderly s es) (hr : Along step Reigns s es) (hk : Kept base cmds s.data)
    {f : Feed} (hf : f ∈ trace step feeds s es) :
    Placed base (Resp.framing.stream (cmds ++ trace step written s es)) f.offset
      (Resp.encodeArray f.args) := by
  induction es generalizing s cmds with
  | nil => cases hf
  | cons e es ih =>
    rcases List.mem_append.mp hf with hf | hf
    · exact feeds_placed hk hf _
    · have h := ih (hs.step e) ho.2 hr.2 (hk.termStep (termStep hs ho.1 hr.1)) hf
      rwa [List.append_assoc] at h

def SweepsAsMaster (s : Server) : Prop :=
  SweepDone s ∧ (s.unswept ≠ [] → s.replInfo.role = .master)

theorem SweepsAsMaster.step (hs : SweepsAsMaster s) (e : Event) :
    SweepsAsMaster (Server.step s e) := by
  refine ⟨(swept_step hs.1 e).2, ?_⟩
  have hd := step_dataStep s e
  change (Server.step s e).data.unswept ≠ [] → (Server.step s e).data.replInfo.role = .master
  generalize (Server.step s e).data = d, written s e = cmds at hd ⊢
  have hfrom {c : ClientId} {host : Bytes} {port : ℤ} (hd : Demotes s c host port) {env : Env}
      {t : Server} {failure : Option Handshake.Failure}
      (ht : s.handshakeFrom env c host port = (t, failure)) : t.data.unswept = [] := by
    obtain ⟨client, args, n, hc, -⟩ := hd.receives
    obtain ⟨id, n, store, hdata⟩ := handshakeFrom_data ht
    exact (congrArg Data.unswept hdata).trans (hs.1 (by rw [hc.pc]; exact nofun))
  cases hd with
  | sweep now hpc hr => exact fun _ ↦ hr
  | sweepNext key keys hpc hkeys => exact fun _ ↦ hs.2 (by rw [hkeys]; exact List.cons_ne_nil _ _)
  | promote => exact fun _ ↦ rfl
  | linked env c host port hd t h => exact fun hne ↦ absurd (hfrom hd h) hne
  | reverted env c host port hd t what h => exact fun hne ↦ absurd (hfrom hd h) hne
  | terminated env c host port hd t h => exact fun hne ↦ absurd (hfrom hd h) hne
  | same | rehash | link | replica | write => exact hs.2

theorem SweepsAsMaster.of_initial (h : Initial s) : SweepsAsMaster s :=
  ⟨fun _ ↦ unswept_of_initial h, fun hne ↦ absurd (unswept_of_initial h) hne⟩

theorem role_of_feeds (hs : SweepsAsMaster s) (ho : Orderly s e) {f : Feed} (hf : f ∈ feeds s e) :
    s.replInfo.role = .master := by
  obtain ⟨args, hmem, -⟩ := List.mem_map.mp hf
  have hd := step_dataStep s e
  generalize (step s e).data = d, written s e = cmds at hd hmem
  cases hd with
  | sweepNext key keys hpc hkeys => exact hs.2 (by rw [hkeys]; exact List.cons_ne_nil _ _)
  | write env c client args n hc ht hw => exact ho.masters env c client args n rfl hc ht hw
  | same | rehash | sweep | link | replica | promote | linked | reverted | terminated => cases hmem

/-- An orderly step makes a worker a master by promotion only. -/
theorem promoted_of_role (ho : Orderly s e) (hw : s.replInfo.role = .worker)
    (hm : (step s e).replInfo.role = .master) :
    (step s e).data = s.data.promote (step s e).replInfo.masterReplid := by
  have hd := step_dataStep s e
  change _ = s.data.promote (step s e).data.replInfo.masterReplid
  change (step s e).data.replInfo.role = .master at hm
  generalize (step s e).data = d, written s e = cmds at hd hm ⊢
  have hne {P : Prop} (h : Role.worker = Role.master) : P := by cases h
  cases hd with
  | promote => rfl
  | linked env c host port hd t h => exact hne ((handshakeFrom_role h).symm.trans hm)
  | terminated env c host port hd t h => exact hne ((handshakeFrom_role h).symm.trans hm)
  | reverted env c host port hd t what h =>
    obtain ⟨hsurvives, hnot⟩ := handshakeFrom_reverted h
    exact hne (hw.symm.trans (ho.reverts env c host port rfl hd hsurvives hnot).1)
  | same | rehash | sweep | sweepNext | link | replica | write => exact hne (hw.symm.trans hm)

theorem role_of_initial (h : Initial s) (hm : s.replInfo.role = .master) :
    ∃ replid, s = init replid := by
  cases h with
  | master replid => exact ⟨replid, rfl⟩
  | worker replid host port clk peer s h =>
    obtain ⟨id, n, store, hd⟩ := data_connectToMaster h
    have hw : s.replInfo.role = .worker := congrArg (fun d : Data ↦ d.replInfo.role) hd
    rw [hw] at hm
    cases hm

theorem exists_term (h₀ : Initial s₀) (hfresh : FreshIds s₀ es) (ho : Along step Orderly s₀ es)
    (hm : (run step s₀ es).replInfo.role = .master) :
    ∃ es₁ es₂, es = es₁ ++ es₂ ∧ Term s₀ es₁ es₂ := by
  induction es using List.reverseRecOn with
  | nil => exact ⟨[], [], rfl, hm, trivial, nofun, .inl ⟨rfl, role_of_initial h₀ hm⟩⟩
  | append_singleton es e ih =>
    obtain ⟨hes, he, -⟩ := (along_append step).mp ho
    have hrun : run step s₀ (es ++ [e]) = step (run step s₀ es) e := by
      rw [run_append, run_cons, run_nil]
    by_cases hr : (run step s₀ es).replInfo.role = .master
    · obtain ⟨es₁, es₂, rfl, ht⟩ := ih hfresh.init hes hr
      refine ⟨es₁, es₂ ++ [e], List.append_assoc .., ht.role, ?_, ht.first, ht.begins⟩
      rw [along_append, ← run_append]
      exact ⟨ht.reigns, ⟨hr, hrun ▸ hm⟩, trivial⟩
    · have hw := Role.eq_worker hr
      refine ⟨es ++ [e], [], (List.append_nil _).symm, hm, trivial, hfresh.last hw hm,
        .inr ⟨es, e, rfl, hw, ?_⟩⟩
      rw [hrun] at hm ⊢
      exact promoted_of_role he hw hm

/-- Histories are unique: one ledger for each ID holds everything that is ever fed under it. -/
theorem exists_ledger (h₀ : Initial s₀) (hfresh : FreshIds s₀ es) (ho : Along step Orderly s₀ es)
    (id : Bytes) : ∃ base ledger, ∀ f ∈ trace step feeds s₀ es, f.id = id →
      Placed base ledger f.offset (Resp.encodeArray f.args) := by
  induction es using List.reverseRecOn with
  | nil => exact ⟨0, [], nofun⟩
  | append_singleton es e ih =>
    obtain ⟨hes, he, -⟩ := (along_append step).mp ho
    have hswept : SweepsAsMaster (run step s₀ es) :=
      run_stable step (fun s e h ↦ h.step e) (.of_initial h₀) es
    by_cases hnew : ∃ f ∈ feeds (run step s₀ es) e, f.id = id
    · -- the ID is the server's own, so everything fed under it was fed in this term
      obtain ⟨f, hf, hid⟩ := hnew
      obtain ⟨es₁, es₂, rfl, ht⟩ := exists_term h₀ hfresh.init hes (role_of_feeds hswept he hf)
      have hcons := Consistent.of_reachable ⟨s₀, es₁, h₀, rfl⟩
      have ho₂ := ((along_append step).mp hes).2
      obtain ⟨hk, hsame⟩ := kept_run hcons ho₂ ht.reigns ht.kept
      rw [← run_append, List.nil_append] at hk
      rw [← run_append] at hsame
      have hid₁ : (run step s₀ es₁).replInfo.masterReplid = id := by
        rw [← hid, feeds_id hf]
        exact (congrArg Prod.fst hsame).symm
      refine ⟨(run step s₀ es₁).masterReplOffset, Resp.framing.stream
        (trace step written (run step s₀ es₁) es₂ ++
          (written (run step s₀ (es₁ ++ es₂)) e ++ [])), fun g hg hgid ↦ ?_⟩
      rw [trace_append, trace_append, List.append_assoc, List.mem_append, List.mem_append,
        trace_cons, trace_nil, List.append_nil] at hg
      rcases hg with hg | hg | hg
      · obtain ⟨k, hlt, e', hg⟩ := mem_trace step hg
        exact absurd ((feeds_id hg).symm.trans (hgid.trans hid₁.symm)) (ht.first k hlt)
      · rw [Lib.Framing.stream_append]
        exact (feeds_placed_run hcons ho₂ ht.reigns ht.kept hg).append _
      · exact feeds_placed hk hg []
    · obtain ⟨base, ledger, h⟩ := ih hfresh.init hes
      refine ⟨base, ledger, fun f hf hid ↦ ?_⟩
      rw [trace_append, List.mem_append] at hf
      rcases hf with hf | hf
      · exact h f hf hid
      · rw [trace_cons, trace_nil, List.append_nil] at hf
        exact absurd ⟨f, hf, hid⟩ hnew

end Server

end RedisLite
