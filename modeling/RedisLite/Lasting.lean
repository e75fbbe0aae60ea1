import RedisLite.Turnover

namespace RedisLite.Server

open Function

variable {s t u : Server} {gone : ClientId → Prop} {c d : ClientId}

theorem isSome_newClient {client : Client} (h : (s.clients d).isSome = true)
    (ht : t.clients = update s.clients s.nextId (some client)) : (t.clients d).isSome = true := by
  rw [ht]
  by_cases hne : d = s.nextId
  · rw [hne, update_self]
    rfl
  · rw [update_of_ne hne]
    exact h

theorem Acted.isSome {env : Env} {client : Client} {args : List Bytes}
    (h : Acted gone env c client args s t) (hd : ¬gone d) (hsome : (s.clients d).isSome = true) :
    (t.clients d).isSome = true := by
  have hmap (f : Client → Client) : ((s.mapClient c f).clients d).isSome = true := by
    by_cases hne : d = c
    · subst hne
      simp only [mapClient, update_self, Option.isSome_map, hsome]
    · simp only [mapClient, update_of_ne hne, hsome]
  cases h with
  | thinned t ht => rw [ht.isSome_eq hd, hsome]
  | acked _ n t ht =>
    rw [ht.isSome_eq hd]
    exact hmap _
  | wrote _ _ _ t ht => rw [(clients_propagate _ t).1, ht.isSome_eq hd, hsome]
  | parked _ _ _ t ht =>
    subst ht
    change ((s.propagateToReplicas (Resp.encodeArray Command.getack)).clients d).isSome = true
    rw [(clients_propagate _ s).1, hsome]
  | joined =>
    unfold handlePsync
    dsimp only
    split <;> exact hmap _
  | linked _ _ _ fd leftover t ht =>
    exact isSome_newClient (s := t) (by rw [ht.isSome_eq hd, hsome]) rfl

theorem Churn.isSome {e : Event} (h : Churn gone s e t) (hd : ¬gone d)
    (hsome : (s.clients d).isSome = true) : (t.clients d).isSome = true := by
  cases h with
  | accepted fd hfd =>
    rw [handleAccept, hfd]
    exact isSome_newClient hsome rfl
  | received c data =>
    by_cases hne : d = c
    · subst hne
      simp only [mapClient, update_self, Option.isSome_map, hsome]
    · simp only [mapClient, update_of_ne hne, hsome]
  | thinned e sends t ht =>
    rw [ht.isSome_eq hd]
    exact hsome
  | paused => exact hsome
  | finished env c client hpc hc hn t ht =>
    rw [ht.isSome_eq hd]
    exact hsome
  | command env c client args n hc t ht =>
    rw [(eraseRead_same c n t).isSome_eq]
    exact ht.isSome hd hsome
  | swept key keys =>
    change ((s.sweepKey key).clients d).isSome = true
    rw [sweepKey, (clients_propagate _ _).1]
    exact hsome
  | swapped order => exact hsome
  | sent result =>
    rw [(writerStep_frame result s).1]
    exact hsome

theorem wire_propagate (data : Bytes) (s : Server) :
    (s.propagateToReplicas data).wire = s.wire := by
  unfold propagateToReplicas
  split <;> rfl

theorem Acted.wire {env : Env} {client : Client} {args : List Bytes}
    (h : Acted gone env c client args s t) (d : ClientId) : s.wire d <+: t.wire d := by
  cases h with
  | thinned t ht => exact ht.wire d
  | acked _ n t ht => exact ht.wire d
  | wrote _ _ _ t ht =>
    rw [wire_propagate]
    exact ht.wire d
  | parked _ _ _ t ht =>
    subst ht
    exact (wire_propagate _ s).symm ▸ List.prefix_refl _
  | joined =>
    unfold handlePsync
    dsimp only
    split <;> exact List.prefix_refl _
  | linked _ _ _ fd leftover t ht => exact ht.wire d

theorem Churn.wire {e : Event} (h : Churn gone s e t) (he : e.result = none) (d : ClientId) :
    s.wire d <+: t.wire d := by
  cases h with
  | accepted fd hfd =>
    rw [handleAccept, hfd]
    exact List.prefix_refl _
  | received => exact List.prefix_refl _
  | thinned e sends t ht => exact ht.wire d
  | paused => exact List.prefix_refl _
  | finished env c client hpc hc hn t ht => exact ht.wire d
  | command env c client args n hc t ht =>
    have herase : (t.eraseRead c n).wire = t.wire := by
      unfold eraseRead
      split
      · rfl
      · split <;> rfl
    rw [herase]
    exact ht.wire d
  | swept key keys =>
    change s.wire d <+: (s.sweepKey key).wire d
    rw [sweepKey, wire_propagate]
  | swapped order => exact List.prefix_refl _
  | sent result => cases he

structure Typed (c : ClientId) (s t : Server) : Prop where
  ids : s.nextId ≤ t.nextId
  client : ∀ client, t.clients c = some client → ∃ client', s.clients c = some client' ∧
    (client'.type ≠ .regular → client.type = client'.type)

namespace Typed

theorem of_eq (h : t.clients c = s.clients c) (hn : s.nextId ≤ t.nextId) : Typed c s t :=
  ⟨hn, fun client hc ↦ ⟨client, h ▸ hc, fun _ ↦ rfl⟩⟩

theorem trans (h : Typed c s t) (h' : Typed c t u) : Typed c s u := by
  refine ⟨h.ids.trans h'.ids, fun client hc ↦ ?_⟩
  obtain ⟨client', hc', ht'⟩ := h'.client client hc
  obtain ⟨client'', hc'', ht''⟩ := h.client client' hc'
  refine ⟨client'', hc'', fun hne ↦ ?_⟩
  have htype := ht'' hne
  rw [ht' (htype ▸ hne), htype]

theorem thins (h : Thins gone s t) (c : ClientId) : Typed c s t := by
  refine ⟨h.ids.ge, fun client hc ↦ ?_⟩
  obtain ⟨client', hc', hbare⟩ := h.exists_client hc
  refine ⟨client', hc', fun _ ↦ ?_⟩
  change (bare client).type = _
  rw [hbare]
  rfl

theorem mapClient (c d : ClientId) {f : Client → Client}
    (hf : ∀ client, client.type ≠ .regular → (f client).type = client.type) (s : Server) :
    Typed c s (s.mapClient d f) := by
  refine ⟨le_rfl, fun client hc ↦ ?_⟩
  by_cases hne : c = d
  · subst hne
    simp only [Server.mapClient, update_self, Option.map_eq_some_iff] at hc
    obtain ⟨client', hc', rfl⟩ := hc
    exact ⟨client', hc', hf client'⟩
  · simp only [Server.mapClient, update_of_ne hne] at hc
    exact ⟨client, hc, fun _ ↦ rfl⟩

theorem eraseRead (c d : ClientId) (n : ℕ) (s : Server) : Typed c s (s.eraseRead d n) := by
  unfold Server.eraseRead
  split
  · exact of_eq rfl le_rfl
  · split
    · exact of_eq rfl le_rfl
    · exact mapClient c d (f := fun client ↦ { client with readBuf := client.readBuf.drop n })
        (fun _ _ ↦ rfl) s

theorem propagate (c : ClientId) (data : Bytes) (s : Server) :
    Typed c s (s.propagateToReplicas data) :=
  of_eq (congrFun (clients_propagate data s).1 c) (clients_propagate data s).2.ge

theorem acted {env : Env} {client : Client} {args : List Bytes}
    (h : Acted gone env d client args s t) (hlt : c < s.nextId)
    (hd : s.clients d = some client) : Typed c s t := by
  cases h with
  | thinned t ht => exact thins ht c
  | acked _ n t ht =>
    exact (mapClient c d (f := fun client ↦ { client with ackOffset := n }) (fun _ _ ↦ rfl) s).trans
      (thins ht c)
  | wrote _ _ _ t ht => exact (thins ht c).trans (propagate c _ t)
  | parked _ _ _ t ht =>
    subst ht
    exact (propagate c _ s).trans (of_eq rfl le_rfl)
  | joined htype =>
    have hjoin (data : Bytes) : Typed c s (s.addReplica d data) := by
      refine ⟨le_rfl, fun other hc ↦ ?_⟩
      by_cases hne : c = d
      · subst hne
        exact ⟨client, hd, fun h ↦ absurd htype h⟩
      · exact ⟨other, hc ▸ (update_of_ne hne ..).symm, fun _ ↦ rfl⟩
    unfold handlePsync
    dsimp only
    split <;> exact hjoin _
  | linked _ _ _ fd leftover t ht =>
    refine (thins ht c).trans (of_eq (update_of_ne ?_ ..) (Nat.le_succ _))
    rw [ht.ids]
    exact hlt.ne

theorem step (hlt : c < s.nextId) (e : Event) : Typed c s (step s e) := by
  have hchurn : Churn (fun _ ↦ True) s e (Server.step s e) := step_churn (spares_all s e)
  generalize Server.step s e = t at hchurn ⊢
  have hload (t : Server) (hc : t.clients = s.clients) (hn : t.nextId = s.nextId) : Typed c s t :=
    of_eq (congrFun hc c) hn.ge
  cases hchurn with
  | accepted fd hfd =>
    rw [handleAccept, hfd]
    exact of_eq (update_of_ne hlt.ne ..) (Nat.le_succ _)
  | received d data =>
    exact (mapClient c d (f := fun client ↦ { client with readBuf := client.readBuf ++ data })
      (fun _ _ ↦ rfl) s).trans (of_eq rfl le_rfl)
  | thinned e sends t ht => exact (hload { s with sends := sends } rfl rfl).trans (thins ht c)
  | paused => exact of_eq rfl le_rfl
  | finished env d client hpc hc hn t ht =>
    exact (hload { s with sends := env.sends, pc := .idle } rfl rfl).trans (thins ht c)
  | command env d client args n hc t ht =>
    exact ((hload (loaded env client args s) rfl rfl).trans (acted ht hlt hc.connected)).trans
      (eraseRead c d n t)
  | swept key keys =>
    obtain ⟨hc, hn⟩ : (s.sweepKey key).clients = s.clients ∧ (s.sweepKey key).nextId = s.nextId :=
      clients_propagate _ _
    exact hload { s.sweepKey key with unswept := keys } hc hn
  | swapped order => exact of_eq rfl le_rfl
  | sent result => exact hload _ (writerStep_frame result s).1 (writerStep_same result s).nextId

end Typed

end RedisLite.Server
