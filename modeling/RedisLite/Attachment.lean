import RedisLite.Turnover
import RedisLite.Demotion

namespace RedisLite.Server

open Lib.Run

variable {s t : Server} {e : Event} {c : ClientId} {client : Client} {args : List Bytes} {n : ℕ}
  {env : Env} {links links' : List (ClientId × Bytes × ℤ)}

def dials (s : Server) (e : Event) : List (ClientId × Bytes × ℤ) :=
  match s.taking e with
  | some tk =>
    if (step s e).masterClient = some s.nextId then
      (replicaofTarget tk.args).toList.map (fun target ↦ (s.nextId, target))
    else []
  | none => []

inductive Started : List (ClientId × Bytes × ℤ) → Server → Prop
  | master (replid : Bytes) : Started [] (init replid)
  | worker (replid host : Bytes) (port : ℤ) (clk : Clock) (peer : Handshake.Peer) (s : Server)
    (h : (initWorker replid host port).connectToMaster clk peer host port = (s, none)) :
    Started [(0, host, port)] s

theorem Started.initial (h : Started links s) : Initial s := by
  cases h with
  | master replid => exact .master replid
  | worker replid host port clk peer _ h => exact .worker replid host port clk peer s h

/-- A step that does not lose the connection to the master: neither does the peer close it nor
does a `send` to it fail for good. -/
def KeepsLink (s : Server) : Event → Prop
  | .hangup c => s.masterClient ≠ some c
  | .writable c sends => s.masterClient = some c → NoError sends
  | .process env => ∀ m ∈ s.masterClient, s.pc = .reading m → NoError env.sends
  | _ => True

instance (s : Server) : ∀ e, Decidable (KeepsLink s e)
  | .hangup c => inferInstanceAs (Decidable (s.masterClient ≠ some c))
  | .writable c sends => inferInstanceAs (Decidable (s.masterClient = some c → NoError sends))
  | .process env =>
    inferInstanceAs (Decidable (∀ m ∈ s.masterClient, s.pc = .reading m → NoError env.sends))
  | .accept _ | .recv .. | .timeouts .. | .sweep _ | .sweepNext | .rehash _ | .writerSwap _
  | .writerStep _ => .isTrue trivial

/-- One of `links` is a connected `MASTER_CONN` client at the given address, and it is
`master_client_`. -/
def HasLink (links : List (ClientId × Bytes × ℤ)) (host : Bytes) (port : ℤ) (s : Server) : Prop :=
  ∃ m link, s.masterClient = some m ∧ s.clients m = some link ∧ link.type = .masterConn ∧
    (m, host, port) ∈ links

structure Attached (links : List (ClientId × Bytes × ℤ)) (s : Server) : Prop where
  role : s.replicaof.isSome = true ↔ s.replInfo.role = .worker
  link : ∀ host port, s.replicaof = some (host, port) →
    ∃ m, s.masterClient = some m ∧ (m, host, port) ∈ links

namespace Attached

theorem hasLink (h : Attached links s) (hcons : Consistent s) {host : Bytes} {port : ℤ}
    (hset : s.replicaof = some (host, port)) : HasLink links host port s := by
  obtain ⟨m, hm, hmem⟩ := h.link host port hset
  obtain ⟨link, hlink, htype⟩ := (hcons.master_iff m).mp hm
  exact ⟨m, link, hm, hlink, htype, hmem⟩

theorem congr (h : Attached links s) (hrole : t.replInfo.role = s.replInfo.role)
    (hset : t.replicaof = s.replicaof) (hlink : t.masterClient = s.masterClient)
    (hsub : links ⊆ links') : Attached links' t where
  role := by
    rw [hset, hrole]
    exact h.role
  link host port ht := by
    obtain ⟨m, hm, hmem⟩ := h.link host port (hset ▸ ht)
    exact ⟨m, hlink ▸ hm, hsub hmem⟩

theorem of_master (hrole : s.replInfo.role = .master) (hset : s.replicaof = none) :
    Attached links s where
  role := by
    rw [hset, hrole]
    exact iff_of_false nofun nofun
  link host port h := by
    rw [hset] at h
    cases h

end Attached

structure Apart (s : Server) : Prop where
  link : ∀ wait ∈ s.pendingWaits, s.masterClient ≠ some wait.client
  ids : ∀ wait ∈ s.pendingWaits, wait.client < s.nextId

namespace Apart

theorem of_subset (h : Apart s) (hw : t.pendingWaits ⊆ s.pendingWaits) (hn : s.nextId ≤ t.nextId)
    (hm : t.masterClient = s.masterClient ∨ t.masterClient = none) : Apart t where
  link wait hwait := by
    rcases hm with hm | hm
    · rw [hm]
      exact h.link wait (hw hwait)
    · rw [hm]
      exact nofun
  ids wait hwait := (h.ids wait (hw hwait)).trans_le hn

theorem thins {gone : ClientId → Prop} (h : Apart s) (ht : Thins gone s t) : Apart t :=
  h.of_subset ht.waits ht.ids.ge (ht.link.imp_right And.left)

theorem of_same (h : Apart s) (ht : SameClients s t) (hw : t.pendingWaits = s.pendingWaits) :
    Apart t :=
  h.of_subset (hw ▸ List.Subset.refl _) ht.nextId.ge (.inl ht.masterClient)

theorem acted {gone : ClientId → Prop} (h : Apart s) (hcons : Consistent s)
    (hc : s.clients c = some client) (hacted : Acted gone env c client args s t) : Apart t := by
  have hid := hcons.lt_nextId hc
  cases hacted with
  | thinned t ht => exact h.thins ht
  | acked _ n t ht => exact Apart.thins (s := s.acknowledge c n) ⟨h.link, h.ids⟩ ht
  | wrote _ _ _ t ht =>
    exact (h.thins ht).of_same (propagate_same _ t) (propagate_frame _ t).1
  | parked htype _ _ t ht wait hw =>
    subst ht
    have hprop := h.of_same (propagate_same (Resp.encodeArray Command.getack) s)
      (propagate_frame _ s).1
    have hne := hcons.not_link hc htype
    constructor
    · intro wait' hmem
      rcases List.mem_append.mp hmem with hmem | hmem
      · exact hprop.link wait' hmem
      · rw [List.mem_singleton.mp hmem, hw]
        exact (propagate_same _ s).masterClient ▸ hne
    · intro wait' hmem
      rcases List.mem_append.mp hmem with hmem | hmem
      · exact hprop.ids wait' hmem
      · rw [List.mem_singleton.mp hmem, hw]
        exact (propagate_same _ s).nextId ▸ hid
  | joined =>
    unfold handlePsync
    dsimp only
    split <;> exact ⟨h.link, h.ids⟩
  | linked _ _ _ fd leftover t ht hm =>
    have hthin := h.thins ht
    constructor
    · intro wait hmem hlink
      exact absurd (hthin.ids wait hmem) (Option.some.inj hlink ▸ lt_irrefl _)
    · intro wait hmem
      exact (hthin.ids wait hmem).trans (Nat.lt_succ_self _)

theorem step (h : Apart s) (hcons : Consistent s) (e : Event) : Apart (step s e) := by
  have hchurn : Churn (fun _ ↦ True) s e (Server.step s e) := step_churn (spares_all s e)
  generalize Server.step s e = t at hchurn ⊢
  cases hchurn with
  | accepted fd hfd =>
    rw [handleAccept, hfd]
    exact ⟨h.link, fun wait hmem ↦ (h.ids wait hmem).trans (Nat.lt_succ_self _)⟩
  | received => exact ⟨h.link, h.ids⟩
  | thinned e sends t ht => exact thins (s := { s with sends := sends }) ⟨h.link, h.ids⟩ ht
  | paused => exact ⟨h.link, h.ids⟩
  | finished env c client hpc hc hn t ht =>
    exact thins (s := { s with sends := env.sends, pc := .idle }) ⟨h.link, h.ids⟩ ht
  | command env c client args n hc t ht =>
    have hloaded : Consistent (loaded env client args s) :=
      hcons.of_same ⟨rfl, fun _ ↦ rfl, rfl, fun _ ↦ rfl, rfl, rfl, .inl⟩
    exact (acted (s := loaded env client args s) ⟨h.link, h.ids⟩ hloaded hc.connected ht).of_same
      (eraseRead_same c n t) (eraseRead_waits c n t)
  | swept key keys =>
    unfold sweepKey propagateToReplicas
    dsimp only
    split <;> exact ⟨h.link, h.ids⟩
  | swapped order => exact h.of_same (writerSwap_same order s) rfl
  | sent result => exact h.of_same (writerStep_same result s) (writerStep_frame result s).2.1

end Apart

/-- No command of a regular client changes the master. -/
def Undisturbed (s : Server) (e : Event) : Prop :=
  ∀ tk ∈ s.taking e, tk.client.type = .regular → commandName tk.args ≠ ascii "REPLICAOF"

theorem Undisturbed.not_demotes {host : Bytes} {port : ℤ} (h : Undisturbed s (.process env)) :
    ¬Demotes s c host port := by
  intro hd
  obtain ⟨client, args, n, hc, ht, hn, -⟩ := hd.receives
  exact h _ (hc.taking_eq env) ht hn

theorem spares_link (hapart : Apart s) (hkeeps : KeepsLink s e) (hcalm : Undisturbed s e) :
    Spares (fun c ↦ s.masterClient ≠ some c) s e := by
  cases e with
  | hangup c => exact hkeeps
  | writable c sends =>
    by_cases h : s.masterClient = some c
    · exact .inl (hkeeps h)
    · exact .inr h
  | timeouts now sends => exact .inr hapart.link
  | process env =>
    refine ⟨?_, fun tk htk ↦ ⟨.inr hapart.link, fun ht h ↦ absurd h.1 (hcalm tk htk ht)⟩⟩
    by_cases h : ∃ m, s.masterClient = some m ∧ s.pc = .reading m
    · obtain ⟨m, hm, hpc⟩ := h
      exact .inl (hkeeps m hm hpc)
    · exact .inr (fun c hpc hm ↦ h ⟨c, hm, hpc⟩)
  | _ => trivial

theorem Thins.masterClient (h : Thins (fun c ↦ s.masterClient ≠ some c) s t) :
    t.masterClient = s.masterClient := by
  rcases h.link with heq | ⟨hnone, hgone⟩
  · exact heq
  · cases hm : s.masterClient with
    | none => exact hnone
    | some m => exact absurd hm (hgone m hm)

theorem acted_masterClient
    (h : Acted (fun c ↦ s.masterClient ≠ some c) env c client args s t)
    (hcalm : client.type = .regular → commandName args ≠ ascii "REPLICAOF") :
    t.masterClient = s.masterClient := by
  cases h with
  | thinned t ht => exact ht.masterClient
  | acked _ n t ht => exact Thins.masterClient (s := s.acknowledge c n) ht
  | wrote _ _ _ t ht => exact (propagate_same _ t).masterClient.trans ht.masterClient
  | parked _ _ _ t ht =>
    subst ht
    exact (propagate_same _ s).masterClient
  | joined =>
    unfold handlePsync
    dsimp only
    split <;> rfl
  | linked htype hn => exact absurd hn (hcalm htype)

theorem masterClient_step (hapart : Apart s) (hkeeps : KeepsLink s e) (hcalm : Undisturbed s e) :
    (step s e).masterClient = s.masterClient := by
  have hchurn := step_churn (spares_link hapart hkeeps hcalm)
  generalize step s e = t at hchurn ⊢
  cases hchurn with
  | accepted fd hfd =>
    rw [handleAccept, hfd]
    rfl
  | received => rfl
  | thinned e sends t ht => exact Thins.masterClient (s := { s with sends := sends }) ht
  | paused => rfl
  | finished env c client hpc hc hn t ht =>
    exact Thins.masterClient (s := { s with sends := env.sends, pc := .idle }) ht
  | command env c client args n hc t ht =>
    rw [(eraseRead_same c n t).masterClient]
    exact acted_masterClient (s := loaded env client args s) ht (hcalm _ (hc.taking_eq env))
  | swept key keys => exact (propagate_same _ _).masterClient
  | swapped order => exact (writerSwap_same order s).masterClient
  | sent result => exact (writerStep_same result s).masterClient

theorem role_step (hcalm : Undisturbed s e) :
    (step s e).replInfo.role = s.replInfo.role ∧ (step s e).replicaof = s.replicaof := by
  change (step s e).data.replInfo.role = _ ∧ (step s e).data.replicaof = _
  have hdata := step_dataStep s e
  generalize (step s e).data = d, written s e = cmds at hdata ⊢
  cases hdata with
  | same => exact ⟨rfl, rfl⟩
  | rehash => exact ⟨rfl, rfl⟩
  | sweep => exact ⟨rfl, rfl⟩
  | sweepNext => exact ⟨rfl, rfl⟩
  | link => exact ⟨rfl, rfl⟩
  | replica => exact ⟨rfl, rfl⟩
  | write => exact ⟨rfl, rfl⟩
  | promote env c client args n hc ht hn => exact absurd hn (hcalm _ (hc.taking_eq env) ht)
  | linked env c host port hd => exact (hcalm.not_demotes hd).elim
  | reverted env c host port hd => exact (hcalm.not_demotes hd).elim
  | terminated env c host port hd => exact (hcalm.not_demotes hd).elim

theorem Attached.reply (h : Attached links s) (hcons : Consistent s)
    (hc : s.clients c = some client) (ht : client.type = .regular) (response : Bytes) :
    Attached links (s.reply c response) := by
  have hne := hcons.not_link hc ht
  have hdata := data_reply c response s
  exact h.congr (congrArg (fun d : Data ↦ d.replInfo.role) hdata) (congrArg Data.replicaof hdata)
    (Thins.reply (.inr hne) response).masterClient (List.Subset.refl _)

theorem attached_setMaster (h : Attached links s) (hcons : Consistent s)
    (hc : s.clients c = some client) (ht : client.type = .regular) (env : Env) (host : Bytes)
    (port : ℤ) (hsent : t = s.handleReplicaofSetMaster env.clock env.peer c host port) :
    t.pc = .terminated ∨ Attached links t ∨
      t.masterClient = some s.nextId ∧ Attached [(s.nextId, host, port)] t := by
  have hset := handleReplicaofSetMaster_masterSet env.clock env.peer c host port s
  rw [← hsent] at hset
  clear hsent
  have hconn := connectToMaster_connected env.clock env.peer host port (s.demote c host port)
  cases hset with
  | already => exact .inr (.inl (h.reply hcons hc ht _))
  | linked hne t hout =>
    rw [hout] at hconn
    cases hconn with
    | linked fd id n store leftover hfd =>
      have hdemote : Thins (fun _ ↦ True) s (s.demote c host port) :=
        .demote (.inr ⟨trivial, fun _ _ ↦ trivial⟩) ⟨fun _ _ _ ↦ trivial, fun _ _ ↦ trivial⟩ host
          port
      have hid := hdemote.ids
      have hdata := data_demote c host port s
      have hrole : (s.demote c host port).replInfo.role = .worker :=
        congrArg (fun d : Data ↦ d.replInfo.role) hdata
      have hreplicaof : (s.demote c host port).replicaof = some (host, port) :=
        congrArg Data.replicaof hdata
      refine .inr (.inr ⟨congrArg some hid, iff_of_true ?_ hrole, ?_⟩)
      · exact (congrArg Option.isSome hreplicaof).trans rfl
      · intro host' port' hset
        cases hreplicaof.symm.trans hset
        exact ⟨_, congrArg some hid, List.mem_singleton_self _⟩
  | reverted => exact .inr (.inl (.of_master rfl rfl))
  | terminated => exact .inl rfl

theorem attached_replicaof (h : Attached links s) (hcons : Consistent s)
    (hc : s.clients c = some client) (ht : client.type = .regular) (env : Env) (args : List Bytes)
    (hsent : t = s.handleReplicaof env c args) :
    t.pc = .terminated ∨ Attached links t ∨
      t.masterClient = some s.nextId ∧ ∃ host port, replicaofTarget args = some (host, port) ∧
        Attached [(s.nextId, host, port)] t := by
  have hdem := handleReplicaof_demoted env c args s
  rw [← hsent] at hdem
  clear hsent
  cases hdem with
  | noOne =>
    refine .inr (.inl ?_)
    unfold handleReplicaofNoOne
    split
    · exact h.reply hcons hc ht _
    · have hdata := data_reply c (ascii "+OK\r\n") (s.removeMaster.promote env.replid)
      exact .of_master (congrArg (fun d : Data ↦ d.replInfo.role) hdata)
        (congrArg Data.replicaof hdata)
  | refused response => exact .inr (.inl (h.reply hcons hc ht response))
  | ignored => exact .inr (.inl h)
  | setMaster host port htarget =>
    rcases attached_setMaster h hcons hc ht env host port rfl with hend | hsame | ⟨hlink, hnew⟩
    · exact .inl hend
    · exact .inr (.inl hsame)
    · exact .inr (.inr ⟨hlink, host, port, htarget, hnew⟩)

theorem Attached.mono (h : Attached links s) (hsub : links ⊆ links') : Attached links' s :=
  h.congr rfl rfl rfl hsub

theorem Attached.eraseRead (h : Attached links s) (c : ClientId) (n : ℕ) :
    Attached links (s.eraseRead c n) := by
  have hdata := data_eraseRead c n s
  exact h.congr (congrArg (fun d : Data ↦ d.replInfo.role) hdata) (congrArg Data.replicaof hdata)
    (eraseRead_same c n s).masterClient (List.Subset.refl _)

theorem attached_redirected (h : Attached links s) (hcons : Consistent s)
    (hc : Receives s c client args n) (ht : client.type = .regular)
    (hn : commandName args = ascii "REPLICAOF") (hpc : ¬Halted (step s (.process env)).pc) :
    Attached (links ++ dials s (.process env)) (step s (.process env)) := by
  have hdials : dials s (.process env) =
      if (step s (.process env)).masterClient = some s.nextId then
        (replicaofTarget args).toList.map (fun target ↦ (s.nextId, target)) else [] := by
    simp only [dials, hc.taking_eq]
  rw [hdials]
  rw [step_replicaof env hc ht hn] at hpc ⊢
  by_cases hr : Command.executeReplicaof args = []
  · rw [if_pos hr] at hpc ⊢
    have hloaded : Consistent { s with sends := env.sends } :=
      hcons.of_same ⟨rfl, fun _ ↦ rfl, rfl, fun _ ↦ rfl, rfl, rfl, .inl⟩
    have hout := attached_replicaof (s := { s with sends := env.sends }) ⟨h.role, h.link⟩ hloaded
      hc.connected ht env args rfl
    rcases hout with hend | hsame | ⟨hlink, host, port, htarget, hnew⟩
    · rw [eraseRead, if_pos (.inr hend), hend] at hpc
      exact (hpc trivial).elim
    · exact (hsame.mono (List.subset_append_left _ _)).eraseRead c n
    · rw [(eraseRead_same c n _).masterClient, if_pos hlink, htarget]
      exact (hnew.mono (List.subset_append_right _ _)).eraseRead c n
  · rw [if_neg hr]
    have hsame : Attached links (appendReply c (Command.executeReplicaof args)
        { s with sends := env.sends }) := ⟨h.role, h.link⟩
    exact (hsame.mono (List.subset_append_left _ _)).eraseRead c n

theorem halted_step (h : Halted s.pc) (e : Event) : Halted (step s e).pc := by
  have hout := step_outcome s e
  generalize step s e = t at hout ⊢
  cases hout with
  | rehash items => exact h
  | writerSwap order => exact h
  | writerStep result =>
    rw [(writerStep_frame result s).2.2]
    exact h
  | skip => exact h
  | accept fd hpc => exact (hpc ▸ h : Halted .idle).elim
  | recv c data hpc => exact (hpc ▸ h : Halted .idle).elim
  | hangup c hpc => exact (hpc ▸ h : Halted .idle).elim
  | writable c sends hpc => exact (hpc ▸ h : Halted .idle).elim
  | process env c hpc => exact (hpc ▸ h : Halted (.reading c)).elim
  | timeouts now sends hpc => exact (hpc ▸ h : Halted .idle).elim
  | sweep now hpc => exact (hpc ▸ h : Halted .idle).elim
  | sweepNext hpc => exact (hpc ▸ h : Halted .sweeping).elim

theorem attached_step (h : ¬Halted s.pc → Attached links s) (hcons : Consistent s)
    (hapart : Apart s) (hkeeps : KeepsLink s e) (hpc : ¬Halted (step s e).pc) :
    Attached (links ++ dials s e) (step s e) := by
  have hnow := h (fun hs ↦ hpc (halted_step hs e))
  by_cases hcalm : Undisturbed s e
  · obtain ⟨hrole, hset⟩ := role_step hcalm
    exact hnow.congr hrole hset (masterClient_step hapart hkeeps hcalm)
      (List.subset_append_left _ _)
  · simp only [Undisturbed, not_forall, not_not] at hcalm
    obtain ⟨tk, htk, ht, hn⟩ := hcalm
    obtain ⟨rfl, hrec⟩ := receives_of_taking htk
    exact attached_redirected hnow hcons hrec ht hn hpc

theorem attached_of_started (h : Started links s) : Attached links s := by
  cases h with
  | master replid => exact .of_master rfl rfl
  | worker replid host port clk peer _ h =>
    have hconn := connectToMaster_connected clk peer host port (initWorker replid host port)
    rw [h] at hconn
    cases hconn with
    | linked fd id n store leftover hfd =>
      refine ⟨iff_of_true rfl rfl, ?_⟩
      intro host' port' hset
      cases hset
      exact ⟨0, rfl, List.mem_singleton_self _⟩

theorem attached_run {s₀ : Server} {es : List Event} (h₀ : Started links s₀)
    (hrun : Along step KeepsLink s₀ es) :
    Consistent (run step s₀ es) ∧ Apart (run step s₀ es) ∧
      (¬Halted (run step s₀ es).pc →
        Attached (links ++ trace step dials s₀ es) (run step s₀ es)) := by
  refine trace_invariant step (P := KeepsLink)
    (I := fun links s ↦ Consistent s ∧ Apart s ∧ (¬Halted s.pc → Attached links s)) ?_ ?_ hrun
  · intro links s e ⟨hcons, hapart, hatt⟩ hkeeps
    exact ⟨hcons.step e, hapart.step hcons e, attached_step hatt hcons hapart hkeeps⟩
  · have hwaits := waits_of_initial h₀.initial
    refine ⟨.of_initial h₀.initial, ⟨?_, ?_⟩, fun _ ↦ attached_of_started h₀⟩
    · simp only [hwaits, List.not_mem_nil, false_implies, implies_true]
    · simp only [hwaits, List.not_mem_nil, false_implies, implies_true]

/-- The answer by which a client learns that the server follows the master it names already. -/
theorem already_connected (hn : commandName args = ascii "REPLICAOF")
    (h : s.answer env args = some (ascii "+OK Already connected to specified master\r\n")) :
    ∃ host port, replicaofTarget args = some (host, port) ∧ s.replicaof = some (host, port) := by
  rw [answer_replicaof hn, Option.some.injEq] at h
  split at h
  · unfold replicaofAnswer at h
    split at h
    · next host port _ _ =>
      split at h
      · exact absurd h (by decide)
      · next hno =>
        split at h
        · exact absurd h (by decide)
        · next n hport =>
          split at h
          · next hset => exact ⟨host, n, by simp [replicaofTarget, hno, hport], hset⟩
          · exact absurd h (by decide)
    · exact absurd h (by decide)
  · -- the command layer has other words for what it refuses
    unfold Command.executeReplicaof at h
    split at h
    · split at h
      · exact absurd h (by decide)
      · split at h
        · exact absurd h (by decide)
        · split at h <;> exact absurd h (by decide)
    · exact absurd h (by decide)

/-- While no connection to a master is lost, a server that has not stopped has `replicaof_` set
exactly as a worker, and then `master_client_` is connected to that address. So it is when a
client hears that it is already connected. -/
theorem worker_has_link {s₀ : Server} {es : List Event} (h₀ : Started links s₀)
    (hrun : Along step KeepsLink s₀ es) (hpc : ¬Halted (run step s₀ es).pc) :
    ((run step s₀ es).replicaof.isSome = true ↔ (run step s₀ es).replInfo.role = .worker) ∧
    (∀ host port, (run step s₀ es).replicaof = some (host, port) →
      HasLink (links ++ trace step dials s₀ es) host port (run step s₀ es)) ∧
    ∀ env c client args n, Receives (run step s₀ es) c client args n → client.type = .regular →
      commandName args = ascii "REPLICAOF" →
      (run step s₀ es).answer env args =
        some (ascii "+OK Already connected to specified master\r\n") →
      ∃ host port, replicaofTarget args = some (host, port) ∧
        HasLink (links ++ trace step dials s₀ es) host port (run step s₀ es) := by
  obtain ⟨hcons, -, hatt⟩ := attached_run h₀ hrun
  have hlinked := hatt hpc
  refine ⟨hlinked.role, fun host port hset ↦ hlinked.hasLink hcons hset, ?_⟩
  intro env c client args n hc ht hn hanswer
  obtain ⟨host, port, htarget, hset⟩ := already_connected hn hanswer
  exact ⟨host, port, htarget, hlinked.hasLink hcons hset⟩

def redirectRun : List Event :=
  followRun "6379" ++ [.process { Env.quiet 0 with peer := samplePeer }, .process (.quiet 0),
    .recv 0 (Resp.encodeArray [ascii "REPLICAOF", ascii "localhost", ascii "6379"])]

theorem redirectRun_has_link :
    (run step (init sampleId) redirectRun).answer (.quiet 0)
        [ascii "REPLICAOF", ascii "localhost", ascii "6379"] =
      some (ascii "+OK Already connected to specified master\r\n") ∧
    HasLink [(1, ascii "localhost", 6379)] (ascii "localhost") 6379
      (run step (init sampleId) redirectRun) := by
  have hend : (run step (init sampleId) redirectRun).pc = .reading 0 ∧
      (run step (init sampleId) redirectRun).clients 0 = some {
        fd := 5
        type := .regular
        readBuf := Resp.encodeArray [ascii "REPLICAOF", ascii "localhost", ascii "6379"]
        writeBuf := ascii "+OK\r\n" } ∧
      (run step (init sampleId) redirectRun).answer (.quiet 0)
          [ascii "REPLICAOF", ascii "localhost", ascii "6379"] =
        some (ascii "+OK Already connected to specified master\r\n") ∧
      trace step dials (init sampleId) redirectRun = [(1, ascii "localhost", 6379)] := by
    decide +kernel
  obtain ⟨hpc, hclient, hanswer, htrace⟩ := hend
  have hrun : Along step KeepsLink (init sampleId) redirectRun := by decide +kernel
  obtain ⟨-, -, halready⟩ := worker_has_link (.master sampleId) hrun (by rw [hpc]; exact id)
  obtain ⟨host, port, htarget, hlink⟩ := halready (.quiet 0) 0 _
    [ascii "REPLICAOF", ascii "localhost", ascii "6379"] 44
    ⟨hpc, hclient, by decide +kernel, by decide⟩ rfl rfl hanswer
  have hparsed : replicaofTarget [ascii "REPLICAOF", ascii "localhost", ascii "6379"] =
      some (ascii "localhost", 6379) := by decide +kernel
  cases hparsed.symm.trans htarget
  rw [htrace] at hlink
  exact ⟨hanswer, hlink⟩

/-- The master hangs up. The worker keeps its role and its `replicaof_`, has no link, and refuses
to get one. -/
theorem lost_link_is_kept_set :
    Started [(0, ascii "localhost", 6379)] sampleWorker ∧
    (run step sampleWorker [.hangup 0]).pc = .idle ∧
    (run step sampleWorker [.hangup 0]).replInfo.role = .worker ∧
    (run step sampleWorker [.hangup 0]).replicaof = some (ascii "localhost", 6379) ∧
    (run step sampleWorker [.hangup 0]).masterClient = none ∧
    (run step sampleWorker ([.hangup 0, .accept 5] ++
      request 1 [ascii "REPLICAOF", ascii "localhost", ascii "6379"] (.quiet 0))).outbound 1 =
        ascii "+OK Already connected to specified master\r\n" ∧
    (run step sampleWorker ([.hangup 0, .accept 5] ++
      request 1 [ascii "REPLICAOF", ascii "localhost", ascii "6379"] (.quiet 0))).masterClient =
        none := by
  refine ⟨?_, by decide +kernel⟩
  refine .worker (ascii "0") (ascii "localhost") 6379 (Env.quiet 0).clock samplePeer _
    (Prod.ext ?_ ?_)
  · rw [sampleWorker]
  · decide +kernel

end RedisLite.Server
