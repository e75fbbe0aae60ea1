import RedisLite.Settlement
import RedisLite.Stream

namespace RedisLite.Server

open Function

variable {s t u : Server} {gone : ClientId → Prop} {c d : ClientId}

def Halted : Pc → Prop
  | .useAfterFree => True
  | .terminated => True
  | _ => False

/-- Between two states replies have been written and sent, connections in `gone` may have been
removed, and nothing else has happened to any connection. -/
structure Thins (gone : ClientId → Prop) (s t : Server) : Prop where
  client : ∀ c, (t.clients c).map bare = (s.clients c).map bare ∨ t.clients c = none ∧ gone c
  queue : ∀ c, t.replQueues c = s.replQueues c ∨
    t.replQueues c = (s.replQueues c).map (fun queue ↦ { queue with removed := true })
  link : t.masterClient = s.masterClient ∨
    t.masterClient = none ∧ ∀ m, s.masterClient = some m → gone m
  replicas : t.replicas ⊆ s.replicas
  waits : t.pendingWaits ⊆ s.pendingWaits
  ids : t.nextId = s.nextId
  sends : NoError s.sends → NoError t.sends
  pc : t.pc = s.pc ∨ Halted t.pc
  wire : ∀ c, s.wire c <+: t.wire c

namespace Thins

theorem of_eq (hc : t.clients = s.clients) (hq : t.replQueues = s.replQueues)
    (hm : t.masterClient = s.masterClient) (hr : t.replicas = s.replicas)
    (hw : t.pendingWaits = s.pendingWaits) (hn : t.nextId = s.nextId) (hwire : t.wire = s.wire)
    (hs : NoError s.sends → NoError t.sends) (hpc : t.pc = s.pc ∨ Halted t.pc) :
    Thins gone s t where
  client c := .inl (by rw [hc])
  queue c := .inl (by rw [hq])
  link := .inl hm
  replicas := hr ▸ List.Subset.refl _
  waits := hw ▸ List.Subset.refl _
  ids := hn
  sends := hs
  pc := hpc
  wire c := hwire ▸ List.prefix_refl _

theorem refl (gone : ClientId → Prop) (s : Server) : Thins gone s s :=
  of_eq rfl rfl rfl rfl rfl rfl rfl (fun h ↦ h) (.inl rfl)

theorem trans (h : Thins gone s t) (h' : Thins gone t u) : Thins gone s u where
  client c := by
    rcases h'.client c with hu | hu
    · rcases h.client c with ht | ht
      · exact .inl (hu.trans ht)
      · rw [ht.1, Option.map_none, Option.map_eq_none_iff] at hu
        exact .inr ⟨hu, ht.2⟩
    · exact .inr hu
  queue c := by
    rcases h'.queue c with hu | hu
    · rw [hu]
      exact h.queue c
    · rcases h.queue c with ht | ht
      · exact .inr (hu.trans (by rw [ht]))
      · refine .inr (hu.trans ?_)
        rw [ht, Option.map_map]
        rfl
  link := by
    rcases h'.link with hu | hu
    · rw [hu]
      exact h.link
    · rcases h.link with ht | ht
      · exact .inr ⟨hu.1, ht ▸ hu.2⟩
      · exact .inr ⟨hu.1, ht.2⟩
  replicas := List.Subset.trans h'.replicas h.replicas
  waits := List.Subset.trans h'.waits h.waits
  ids := h'.ids.trans h.ids
  sends hs := h'.sends (h.sends hs)
  pc := by
    rcases h'.pc with hu | hu
    · rw [hu]
      exact h.pc
    · exact .inr hu
  wire c := (h.wire c).trans (h'.wire c)

theorem exists_client (h : Thins gone s t) {client : Client} (hc : t.clients c = some client) :
    ∃ client', s.clients c = some client' ∧ bare client = bare client' := by
  rcases h.client c with heq | hnone
  · rw [hc, Option.map_some] at heq
    obtain ⟨client', hc', hbare⟩ := Option.map_eq_some_iff.mp heq.symm
    exact ⟨client', hc', hbare.symm⟩
  · rw [hnone.1] at hc
    cases hc

theorem isSome_eq (h : Thins gone s t) (hc : ¬gone c) :
    (t.clients c).isSome = (s.clients c).isSome := by
  rcases h.client c with heq | hnone
  · have hsome := congrArg Option.isSome heq
    rwa [Option.isSome_map, Option.isSome_map] at hsome
  · exact absurd hnone.2 hc

theorem mapClient (c : ClientId) (f : Client → Client) (hf : ∀ client, bare (f client) = bare client)
    (s : Server) : Thins gone s (s.mapClient c f) where
  client d := by
    left
    by_cases h : d = c
    · subst h
      simp only [Server.mapClient, update_self, Option.map_map]
      congr 1
      exact funext hf
    · simp only [Server.mapClient, update_of_ne h]
  queue _ := .inl rfl
  link := .inl rfl
  replicas := List.Subset.refl _
  waits := List.Subset.refl _
  ids := rfl
  sends h := h
  pc := .inl rfl
  wire _ := List.prefix_refl _

theorem appendReply (c : ClientId) (response : Bytes) (s : Server) :
    Thins gone s (s.appendReply c response) :=
  mapClient c (fun client ↦ { client with writeBuf := client.writeBuf ++ response })
    (fun _ ↦ rfl) s

theorem deliver (c : ClientId) (sent kept : Bytes) {sends : List SendResult}
    (hs : NoError s.sends → NoError sends) : Thins gone s (s.deliver c sent kept sends) := by
  have hmap : Thins gone s (s.mapClient c (fun client ↦ { client with writeBuf := kept })) :=
    mapClient c (fun client ↦ { client with writeBuf := kept }) (fun _ ↦ rfl) s
  refine ⟨hmap.client, hmap.queue, hmap.link, hmap.replicas, hmap.waits, hmap.ids, hs, .inl rfl, ?_⟩
  intro d
  change s.wire d <+: update s.wire c (s.wire c ++ sent) d
  by_cases h : d = c
  · subst h
    rw [update_self]
    exact List.prefix_append _ _
  · rw [update_of_ne h]

theorem removeClient (hc : gone c) (s : Server) : Thins gone s (s.removeClient c) := by
  unfold Server.removeClient
  split
  · exact refl gone s
  · refine ⟨fun d ↦ ?_, fun d ↦ ?_, ?_, ?_, ?_, rfl, fun h ↦ h, .inl rfl, fun _ ↦ List.prefix_refl _⟩
    · by_cases h : d = c
      · subst h
        exact .inr ⟨update_self .., hc⟩
      · exact .inl (congrArg _ (update_of_ne h ..))
    · by_cases h : d = c
      · subst h
        exact .inr (update_self ..)
      · exact .inl (update_of_ne h ..)
    · by_cases h : s.masterClient = some c
      · right
        refine ⟨if_pos h, fun m hm ↦ ?_⟩
        rw [h, Option.some.injEq] at hm
        exact hm ▸ hc
      · exact .inl (if_neg h)
    · exact fun _ hmem ↦ (List.mem_filter.mp hmem).1
    · exact fun _ hmem ↦ (List.mem_filter.mp hmem).1

theorem trySend (hc : NoError s.sends ∨ gone c) : Thins gone s (s.trySend c) := by
  unfold Server.trySend
  split
  · exact of_eq rfl rfl rfl rfl rfl rfl rfl (fun h ↦ h) (.inr trivial)
  · next client _ =>
    have hloop := (sendLoop_spec s.sends client.writeBuf).2
    have hsend : Thins gone s (s.deliver c (sendLoop s.sends client.writeBuf).1
        (sendLoop s.sends client.writeBuf).2.1 (sendLoop s.sends client.writeBuf).2.2.1) :=
      deliver c _ _ (fun h ↦ (hloop h).2)
    dsimp only
    split
    · next herror =>
      rcases hc with hc | hc
      · rw [(hloop hc).1] at herror
        cases herror
      · exact hsend.trans (removeClient hc _)
    · exact hsend

theorem reply (hc : NoError s.sends ∨ gone c) (response : Bytes) :
    Thins gone s (s.reply c response) :=
  (appendReply c response s).trans (trySend (s := s.appendReply c response) hc)

theorem replyWait (hc : NoError s.sends ∨ gone c) (count : ℕ) (target : ℤ) :
    Thins gone s (s.replyWait c count target) := by
  have hrecord : Thins gone s { s with waitReplies := s.waitReplies ++ [⟨c, count, target⟩] } :=
    of_eq rfl rfl rfl rfl rfl rfl rfl (fun h ↦ h) (.inl rfl)
  exact hrecord.trans (reply (s := { s with
    waitReplies := s.waitReplies ++ [⟨c, count, target⟩] }) hc _)

/-- The loop over the parked waits, begun in `s` and come as far as `t`. -/
theorem settleWaits (due : WaitState → ℕ → Bool) (kept waits : List WaitState)
    (hs : NoError s.sends ∨ ∀ wait ∈ waits, gone wait.client) (h : Thins gone s t)
    (hkept : kept ⊆ s.pendingWaits) (hwaits : waits ⊆ s.pendingWaits) :
    Thins gone s (settleWaits due kept waits t) := by
  induction waits generalizing kept t with
  | nil => exact ⟨h.client, h.queue, h.link, h.replicas, hkept, h.ids, h.sends, h.pc, h.wire⟩
  | cons wait waits ih =>
    have hs' : NoError s.sends ∨ ∀ wait ∈ waits, gone wait.client :=
      hs.imp_right (fun h w hw ↦ h w (List.mem_cons_of_mem _ hw))
    have hwaits' := (List.cons_subset.mp hwaits).2
    unfold Server.settleWaits
    dsimp only
    split
    · have hreply := h.trans (replyWait (hs.imp h.sends (fun h ↦ h wait (List.mem_cons_self ..)))
        (t.countCaughtUpReplicas wait.targetOffset) wait.targetOffset)
      split
      · exact hreply.trans (of_eq rfl rfl rfl rfl rfl rfl rfl (fun h ↦ h) (.inr trivial))
      · exact ih kept hs' hreply hkept hwaits'
    · refine ih _ hs' h ?_ hwaits'
      exact List.append_subset.mpr ⟨hkept, List.cons_subset.mpr
        ⟨(List.cons_subset.mp hwaits).1, List.nil_subset _⟩⟩

theorem settleAll (due : WaitState → ℕ → Bool)
    (hs : NoError s.sends ∨ ∀ wait ∈ s.pendingWaits, gone wait.client) :
    Thins gone s (Server.settleWaits due [] s.pendingWaits s) :=
  settleWaits due [] s.pendingWaits hs (refl gone s) (List.nil_subset _) (List.Subset.refl _)

theorem disconnect {ds : List ClientId} (hds : ∀ d ∈ ds, gone d) (s : Server) :
    Thins gone s (ds.foldl (fun s d ↦ s.removeClient d) s) := by
  induction ds generalizing s with
  | nil => exact refl gone s
  | cons d ds ih =>
    exact (removeClient (hds d (List.mem_cons_self ..)) s).trans
      (ih (fun d' h ↦ hds d' (List.mem_cons_of_mem _ h)) _)

theorem removeMaster (hm : ∀ m, s.masterClient = some m → gone m) : Thins gone s s.removeMaster := by
  unfold Server.removeMaster
  split
  · exact refl gone s
  · next m hlink =>
    have h := removeClient (hm m hlink) s
    exact ⟨h.client, h.queue, .inr ⟨rfl, hm⟩, h.replicas, h.waits, h.ids, h.sends, h.pc, h.wire⟩

structure Torn (gone : ClientId → Prop) (s : Server) : Prop where
  replicas : s.replInfo.role = .master → ∀ r ∈ s.replicas, gone r
  link : ∀ m, s.masterClient = some m → gone m

theorem leaveMasterRole (hs : NoError s.sends ∨ ∀ wait ∈ s.pendingWaits, gone wait.client)
    (htorn : Torn gone s) : Thins gone s s.leaveMasterRole := by
  unfold Server.leaveMasterRole
  split
  · next hr =>
    have hsettle := settleAll (fun _ _ ↦ true) hs
    dsimp only
    generalize Server.settleWaits (fun _ _ ↦ true) [] s.pendingWaits s = t at hsettle ⊢
    refine hsettle.trans ((disconnect (fun r hmem ↦ ?_) t).trans
      (of_eq rfl rfl rfl rfl rfl rfl rfl (fun h ↦ h) (.inl rfl)))
    exact htorn.replicas hr r (hsettle.replicas hmem)
  · exact refl gone s

theorem becomeWorker (hs : NoError s.sends ∨ ∀ wait ∈ s.pendingWaits, gone wait.client)
    (htorn : Torn gone s) (host : Bytes) (port : ℤ) :
    Thins gone s (s.leaveMasterRole.removeMaster.becomeWorker host port) := by
  have hleave := leaveMasterRole hs htorn
  have hlink (m : ClientId) (h : s.leaveMasterRole.masterClient = some m) : gone m := by
    rcases hleave.link with heq | hnone
    · exact htorn.link m (heq ▸ h)
    · rw [hnone.1] at h
      cases h
  exact (hleave.trans (removeMaster hlink)).trans
    (of_eq rfl rfl rfl rfl rfl rfl rfl (fun h ↦ h) (.inl rfl))

theorem demote (hs : NoError s.sends ∨ gone c ∧ ∀ wait ∈ s.pendingWaits, gone wait.client)
    (htorn : Torn gone s) (host : Bytes) (port : ℤ) : Thins gone s (s.demote c host port) := by
  have hworker := becomeWorker (hs.imp_right And.right) htorn host port
  exact hworker.trans (reply (hs.imp hworker.sends And.left) _)

theorem noOne (hs : NoError s.sends ∨ gone c)
    (hlink : s.replInfo.role = .worker → ∀ m, s.masterClient = some m → gone m) (replid : Bytes) :
    Thins gone s (s.handleReplicaofNoOne replid c) := by
  unfold handleReplicaofNoOne
  split
  · exact reply hs _
  · next hr =>
    have hpromote : Thins gone s (s.removeMaster.promote replid) :=
      (removeMaster (hlink (Role.eq_worker hr))).trans
        (of_eq rfl rfl rfl rfl rfl rfl rfl (fun h ↦ h) (.inl rfl))
    exact hpromote.trans (reply (hs.imp_left hpromote.sends) _)

theorem handleMasterRead (c : ClientId) (args : List Bytes) (response : Bytes) (n : ℕ) (s : Server) :
    Thins gone s (s.handleMasterRead c args response n) := by
  have hadvance : Thins gone s { s with
      replInfo := { s.replInfo with masterReplOffset := s.replInfo.masterReplOffset + n } } :=
    of_eq rfl rfl rfl rfl rfl rfl rfl (fun h ↦ h) (.inl rfl)
  unfold Server.handleMasterRead
  dsimp only
  split
  · split
    · exact hadvance.trans (appendReply c response _)
    · exact hadvance
  · exact hadvance

end Thins

end RedisLite.Server
