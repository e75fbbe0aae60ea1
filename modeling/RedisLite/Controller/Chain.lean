import RedisLite.Controller.Arrival
import RedisLite.Lib.Linking

namespace RedisLite.Controller

open Lib.Run Lib.Linking Relation

/-- A node that may or may not obey what it does not acknowledge. -/
def retarget (a : Addr) (targets : List (Bytes × Bytes)) (x : Call) : List (Bytes × Bytes) :=
  if x.peer = a then
    match x.request with
    | .replicaOf host port => targets ++ [(host, port)]
    | .noOne => if replicaOf x.response = true then [] else targets
    | _ => targets
  else targets

/-- All that a node may be following: what it has been told to follow since it last accepted
`REPLICAOF NO ONE`. -/
def targets (log : List Call) (a : Addr) : List (Bytes × Bytes) := log.foldl (retarget a) []

def MayFollow (cfg : Config) (log : List Call) (a b : Addr) : Prop :=
  b ∈ cfg.nodes ∧ ∃ hp ∈ targets log a, splitHostPort b = some hp

instance (cfg : Config) (log : List Call) (a b : Addr) : Decidable (MayFollow cfg log a b) :=
  inferInstanceAs (Decidable (_ ∧ _))

def Config.Distinct (cfg : Config) : Prop :=
  ∀ a ∈ cfg.nodes, ∀ b ∈ cfg.nodes, ∀ hp, splitHostPort a = some hp → splitHostPort b = some hp →
    a = b

variable {cfg : Config} {w : World cfg} {m : Monitor} {log more : List Call} {x : Call}
  {a addr master : Addr}

theorem targets_append (log more : List Call) (a : Addr) :
    targets (log ++ more) a = more.foldl (retarget a) (targets log a) := List.foldl_append

theorem targets_concat (log : List Call) (x : Call) (a : Addr) :
    targets (log ++ [x]) a = retarget a (targets log a) x := targets_append ..

theorem targets_of_accepted (hpeer : x.peer = a) (hreq : x.request = .noOne)
    (hok : replicaOf x.response = true) : targets (log ++ [x]) a = [] := by
  rw [targets_concat, retarget, if_pos hpeer, hreq]
  exact if_pos hok

theorem retarget_subset (hreq : ∀ host port, x.request ≠ .replicaOf host port) (a : Addr)
    (ts : List (Bytes × Bytes)) : retarget a ts x ⊆ ts := by
  unfold retarget
  split
  · split
    · next h => exact absurd h (hreq _ _)
    · split
      · exact List.nil_subset _
      · exact List.Subset.refl _
    · exact List.Subset.refl _
  · exact List.Subset.refl _

theorem retarget_subset_of_link {host port : Bytes} (hreq : x.request = .replicaOf host port)
    (a : Addr) (ts : List (Bytes × Bytes)) : retarget a ts x ⊆ ts ++ [(host, port)] := by
  rw [retarget, hreq]
  split
  · exact List.Subset.refl _
  · exact List.subset_append_left _ _

/-- What the commands sent so far make of the nodes: at no time a cycle, and the master has not been
told to follow anyone. -/
structure Rooted (cfg : Config) (master : Addr) (log : List Call) : Prop where
  acyclic : ∀ part, part <+: log → Acyclic (MayFollow cfg part)
  root : targets log master = []
  configured : master = [] ∨ master ∈ cfg.nodes
  fresh : master = [] → ∀ a, targets log a = []

namespace Rooted

theorem concat_acyclic (h : Rooted cfg master log) (hx : Acyclic (MayFollow cfg (log ++ [x]))) :
    ∀ part, part <+: log ++ [x] → Acyclic (MayFollow cfg part) := by
  intro part hpart
  rcases List.prefix_concat_iff.mp hpart with rfl | hpart
  · exact hx
  · exact h.acyclic part hpart

theorem idle_call (h : Rooted cfg master log)
    (hreq : ∀ host port, x.request ≠ .replicaOf host port) : Rooted cfg master (log ++ [x]) := by
  have hsub (a : Addr) : targets (log ++ [x]) a ⊆ targets log a := by
    rw [targets_concat]
    exact retarget_subset hreq a _
  refine ⟨h.concat_acyclic ((h.acyclic log (List.prefix_refl log)).mono ?_), ?_, h.configured,
    fun hnone a ↦ ?_⟩
  · rintro a b ⟨hb, hp, hmem, hsplit⟩
    exact ⟨hb, hp, hsub a hmem, hsplit⟩
  · exact List.subset_nil.mp (h.root ▸ hsub master)
  · exact List.subset_nil.mp (h.fresh hnone a ▸ hsub a)

theorem idle (h : Rooted cfg master log)
    (hmore : ∀ x ∈ more, ∀ host port, x.request ≠ .replicaOf host port) :
    Rooted cfg master (log ++ more) := by
  induction more generalizing log with
  | nil => rwa [List.append_nil]
  | cons x more ih =>
    rw [List.append_cons]
    exact ih (h.idle_call (hmore x (List.mem_cons_self ..)))
      (fun y hy ↦ hmore y (List.mem_cons_of_mem x hy))

theorem link (h : Rooted cfg master log) (hdistinct : cfg.Distinct) (hknown : master ≠ [])
    {host port : Bytes} (hreq : x.request = .replicaOf host port) (hpeer : x.peer ≠ master)
    (hsplit : splitHostPort master = some (host, port)) : Rooted cfg master (log ++ [x]) := by
  have hroot : targets (log ++ [x]) master = [] := by
    rw [targets_concat, retarget, if_neg hpeer, h.root]
  refine ⟨h.concat_acyclic ?_, hroot, h.configured, fun hnone ↦ absurd hnone hknown⟩
  refine (h.acyclic log (List.prefix_refl log)).link (b := master) ?_ ?_
  · rintro a b ⟨hb, hp, hmem, hb'⟩
    rw [targets_concat] at hmem
    rcases List.mem_append.mp (retarget_subset_of_link hreq a _ hmem) with hmem | hmem
    · exact .inl ⟨hb, hp, hmem, hb'⟩
    · rw [List.mem_singleton.mp hmem] at hb'
      exact .inr (hdistinct b hb master (h.configured.resolve_left hknown) _ hb' hsplit)
  · rintro b ⟨-, hp, hmem, -⟩
    rw [hroot] at hmem
    cases hmem

theorem links (h : Rooted cfg master log) (hdistinct : cfg.Distinct) (hknown : master ≠ [])
    (hmore : ∀ x ∈ more, x.peer ≠ master ∧ ∃ host port, x.request = .replicaOf host port ∧
      splitHostPort master = some (host, port)) : Rooted cfg master (log ++ more) := by
  induction more generalizing log with
  | nil => rwa [List.append_nil]
  | cons x more ih =>
    obtain ⟨hpeer, host, port, hreq, hsplit⟩ := hmore x (List.mem_cons_self ..)
    rw [List.append_cons]
    exact ih (h.link hdistinct hknown hreq hpeer hsplit)
      (fun y hy ↦ hmore y (List.mem_cons_of_mem x hy))

theorem adopt (h : Rooted cfg master log) (hnone : master = []) (hmem : addr ∈ cfg.nodes) :
    Rooted cfg addr log :=
  ⟨h.acyclic, h.fresh hnone addr, .inr hmem, fun _ ↦ h.fresh hnone⟩

theorem promote (h : Rooted cfg master log) (hroot : targets log addr = []) (hmem : addr ∈ cfg.nodes)
    (hne : addr ≠ []) : Rooted cfg addr log :=
  ⟨h.acyclic, hroot, .inr hmem, fun hnone ↦ absurd hnone hne⟩

section Monitor

variable (hdistinct : cfg.Distinct)

include hdistinct

theorem redirect (hknown : m.master ≠ []) (hne : addr ≠ m.master) (h : Rooted cfg m.master m.log) :
    Rooted cfg (redirect w m addr).master (redirect w m addr).log := by
  rw [redirect_eq]
  cases hsplit : splitHostPort m.master with
  | none => exact h
  | some hp =>
    dsimp only
    split
    · exact h.link hdistinct hknown rfl hne hsplit
    · exact h.link hdistinct hknown rfl hne hsplit

theorem retryStale (h : Rooted cfg m.master m.log) :
    Rooted cfg (retryStale w m addr).master (retryStale w m addr).log := by
  rw [Controller.retryStale]
  split
  · next hstale => exact redirect hdistinct hstale.2.2 hstale.2.1 h
  · exact h

theorem recovered (hmem : addr ∈ cfg.nodes) (value : Bytes) (h : Rooted cfg m.master m.log) :
    Rooted cfg (recovered w m addr value).master (recovered w m addr value).log := by
  rw [Controller.recovered]
  split
  · split
    · next hadopts =>
      rcases hadopts with hnone | hsame
      · exact h.adopt hnone hmem
      · exact hsame ▸ h
    · next hother =>
      rw [not_or] at hother
      exact redirect (m := m.setRole addr value) hdistinct hother.1 (Ne.symm hother.2) h
  · exact h

end Monitor

/-- A candidate that is confirmed has accepted `REPLICAOF NO ONE`, and has only been polled
since. -/
theorem targets_of_promoted {before after : List Addr} {n : Addr}
    (hranked : ranked w m = before ++ n :: after) (hn : Promotes w.script m.log n) :
    targets (m.log ++ promotionCalls w m (before ++ [n])) n = [] := by
  obtain ⟨polls, hcalls, hpolls⟩ := tryCandidate_calls w.script (m.log ++ infoCalls w m) n
  have hmem : n ∈ ranked w m := mem_ranked_of_tried hranked (by simp)
  have hok : replicaOf (call w.script (m.log ++ infoCalls w m) n .noOne).response = true := by
    rw [call_response, replies_after_info (mem_candidates_of_ranked hmem)]
    exact hn.1
  have hsplit : m.log ++ promotionCalls w m (before ++ [n]) =
      m.log ++ infoCalls w m ++ attempts w.script (m.log ++ infoCalls w m) before ++
        [call w.script (m.log ++ infoCalls w m) n .noOne] ++ polls := by
    simp only [promotionCalls, attempts, List.flatMap_append, List.flatMap_singleton, hcalls,
      List.append_assoc, List.singleton_append]
  have hquiet : ∀ x ∈ polls, ∀ host port, x.request ≠ .replicaOf host port := by
    intro x hx host port
    rw [(hpolls x hx).2]
    exact Request.noConfusion
  rw [hsplit, targets_append]
  refine run_stable_of_mem (retarget n) (I := (· = [])) (fun ts x hx hts ↦ ?_)
    (targets_of_accepted rfl rfl hok)
  exact List.subset_nil.mp (hts ▸ retarget_subset (hquiet x hx) n ts)

theorem triggerFailover (hdistinct : cfg.Distinct) (hnodes : [] ∉ cfg.nodes)
    (h : Rooted cfg m.master m.log) :
    Rooted cfg (triggerFailover w m).master (triggerFailover w m).log := by
  have hquiet (tried : List Addr) : ∀ x ∈ promotionCalls w m tried, ∀ host port,
      x.request ≠ .replicaOf host port := fun x hx ↦ request_of_mem_promotionCalls hx
  have hout := triggerFailover_outcome w m
  generalize Controller.triggerFailover w m = m' at hout ⊢
  cases hout with
  | skipped => exact h
  | failed => exact h.idle (hquiet _)
  | @promoted before after n _ hranked _ hn =>
    have hmem : n ∈ cfg.nodes := (mem_ranked.mp (mem_ranked_of_tried hranked (by simp))).1
    have hne : n ≠ [] := fun hnil ↦ hnodes (hnil ▸ hmem)
    have hpromoted := (h.idle (hquiet (before ++ [n]))).promote
      (targets_of_promoted hranked hn) hmem hne
    change Rooted cfg n (m.log ++ (_ ++ _))
    rw [← List.append_assoc]
    refine hpromoted.links hdistinct hne (fun x hx ↦ ?_)
    obtain ⟨host, port, hsplit, hpeer, hx⟩ := mem_redirectCalls hx
    refine ⟨fun hsame ↦ ?_, host, port, congrArg (·.request) hx, hsplit⟩
    have hsibling := (List.mem_filter.mp hpeer).2
    simp [hsame] at hsibling

theorem step {r : PingResult} (hdistinct : cfg.Distinct) (hnodes : [] ∉ cfg.nodes)
    (hr : r.addr ∈ cfg.nodes) (h : Rooted cfg m.master m.log) :
    Rooted cfg (handleResult w m r).master (handleResult w m r).log := by
  have hasked {addr : Addr} : Rooted cfg m.master (m.log ++ [call w.script m.log addr .role]) :=
    h.idle_call (fun _ _ ↦ Request.noConfusion)
  have hout := handleResult_outcome w m r
  generalize handleResult w m r = m' at hout ⊢
  cases hout with
  | suspect => exact h
  | dead => exact h
  | failover => exact triggerFailover hdistinct hnodes h
  | mute => exact hasked
  | recovered => exact retryStale hdistinct (recovered hdistinct hr _ hasked)
  | healthy => exact retryStale hdistinct h

theorem discover {keys : List Addr} (hkeys : ∀ b ∈ keys, b ∈ cfg.nodes) (script : Script)
    (hfresh : ∀ a, targets m.log a = []) (h : Rooted cfg m.master m.log) :
    Rooted cfg (keys.foldl (discoverNode script) m).master
      (keys.foldl (discoverNode script) m).log := by
  refine (run_stable_of_mem (discoverNode script)
    (I := fun m ↦ Rooted cfg m.master m.log ∧ ∀ a, targets m.log a = [])
    (fun m b hb ⟨h, hfresh⟩ ↦ ?_) ⟨h, hfresh⟩).1
  have hasked : Rooted cfg m.master (m.log ++ [call script m.log b .role]) :=
    h.idle_call (fun _ _ ↦ Request.noConfusion)
  have hstill (a : Addr) : targets (m.log ++ [call script m.log b .role]) a = [] := by
    refine List.subset_nil.mp ?_
    rw [targets_concat, ← hfresh a]
    exact retarget_subset (fun _ _ ↦ Request.noConfusion) a _
  rw [discoverNode]
  dsimp only
  split
  · exact ⟨hasked, hstill⟩
  · split
    · exact ⟨⟨hasked.acyclic, hstill b, .inr (hkeys b hb), fun _ ↦ hstill⟩, hstill⟩
    · exact ⟨hasked, hstill⟩

end Rooted

/-- The commands that the controller has sent, obeyed or not, never make the nodes follow each
other in a circle, at no time between two of them. The chain of masters that starts at a node ends,
and the node that the controller takes to be the master follows nobody. -/
theorem replication_never_cycles (hdistinct : cfg.Distinct) (hnodes : [] ∉ cfg.nodes) (w : World cfg)
    (order : Order cfg) (ticks : List (Tick cfg)) (t : Tick cfg) (k : ℕ) :
    let m := run (handleResult w) (run (healthCheck w) (start w order) ticks) (t.results.take k)
    (∀ sent, sent <+: m.log → Acyclic (MayFollow cfg sent) ∧
      ∀ a, ∃ b, ReflTransGen (MayFollow cfg sent) a b ∧ ∀ c, ¬MayFollow cfg sent b c) ∧
    ∀ b, ¬MayFollow cfg m.log m.master b := by
  have hstart : Rooted cfg (start w order).master (start w order).log := by
    refine Rooted.discover (fun b hb ↦ order.mem_iff.mp hb) w.script (fun _ ↦ rfl)
      ⟨fun part hpart ↦ ?_, rfl, .inl rfl, fun _ _ ↦ rfl⟩
    rw [List.prefix_nil.mp hpart]
    exact acyclic_of_isEmpty (fun a b h ↦ by obtain ⟨-, hp, hmem, -⟩ := h; cases hmem)
  have hticks := run_stable (healthCheck w) (I := fun m ↦ Rooted cfg m.master m.log)
    (fun m t h ↦ run_stable_of_mem (handleResult w) (I := fun m ↦ Rooted cfg m.master m.log)
      (fun m r hr h ↦ h.step hdistinct hnodes (mem_results hr).1) h) hstart ticks
  intro m
  have hm : Rooted cfg m.master m.log :=
    run_stable_of_mem (handleResult w) (I := fun m ↦ Rooted cfg m.master m.log)
      (fun m r hr h ↦ h.step hdistinct hnodes (mem_results (List.mem_of_mem_take hr)).1) hticks
  refine ⟨fun sent hsent ↦ ⟨hm.acyclic sent hsent, fun a ↦ ?_⟩, fun b hb ↦ ?_⟩
  · exact (hm.acyclic sent hsent).exists_sink (fun x y hxy ↦ hxy.1) a
  · obtain ⟨-, hp, hmem, -⟩ := hb
    rw [hm.root] at hmem
    cases hmem

/-- The master is replaced, and the other replica is told to follow the new one. -/
theorem replication_never_cycles_electing :
    let m := run (healthCheck electingWorld) (start electingWorld (sampleOrder 2))
      [tickWithout 2 [ascii "a:1"], tickWithout 2 [ascii "a:1"]]
    MayFollow ⟨sampleNodes, 2⟩ m.log (ascii "b:2") (ascii "c:3") ∧ m.master = ascii "c:3" ∧
      (∀ b, ¬MayFollow ⟨sampleNodes, 2⟩ m.log m.master b) ∧
      Acyclic (MayFollow ⟨sampleNodes, 2⟩ m.log) := by
  have hdistinct : Config.Distinct ⟨sampleNodes, 2⟩ := by
    have hsplit : ∀ a ∈ sampleNodes, ∀ b ∈ sampleNodes, splitHostPort a = splitHostPort b → a = b := by
      decide
    exact fun a ha b hb _ h h' ↦ hsplit a ha b hb (h.trans h'.symm)
  have h := replication_never_cycles hdistinct (by decide) electingWorld (sampleOrder 2)
    [tickWithout 2 [ascii "a:1"], tickWithout 2 [ascii "a:1"]] (tickWithout 2 []) 0
  rw [List.take_zero, run_nil] at h
  exact ⟨by decide +kernel, by decide +kernel, h.2, (h.1 _ (List.prefix_refl _)).1⟩

end RedisLite.Controller
