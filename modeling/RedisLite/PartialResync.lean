import RedisLite.History

namespace RedisLite.Server

open Lib.Run

variable {s s₀ : Server} {es es₁ es₂ : List Event}

/-- The same value under a key, and on both sides with an expiry or on both without. -/
def Alike (master replica : Option Entry) : Prop :=
  master.map (fun entry ↦ (entry.value, entry.expiry.isSome)) =
    replica.map (fun entry ↦ (entry.value, entry.expiry.isSome))

theorem alike_similar : Similar Alike where
  deleted := rfl
  set := fun value px f g ↦ by
    cases px with
    | none => simp only [Alike, Option.map_none]
    | some p => rfl

/-- A replica that executes what a term has written follows it. -/
theorem follows_term {replica : Store} (hs : Consistent s) (hdone : SweepDone s)
    (ho : Along step Orderly s es) (hr : Along step Reigns s es)
    (h : Follows Alike s.store s.unswept replica) (xs : List Execution)
    (hx : xs.map Execution.args = trace step written s es) :
    Follows Alike (run step s es).store (run step s es).unswept (replay xs replica) := by
  have hboth : Along step (fun s e ↦ Orderly s e ∧ Reigns s e) s es := ho.and step hr
  refine h.run (I := fun s ↦ Consistent s ∧ SweepDone s) (fun s e hs hq ↦
    ⟨⟨hs.1.step e, (swept_step hs.2 e).2⟩, fun replica xs h hx ↦ ?_⟩) ⟨hs, hdone⟩ hboth xs hx
  have hstep := termStep hs.1 hq.1 hq.2
  change Follows Alike (step s e).data.store (step s e).data.unswept _
  generalize (step s e).data = d, written s e = cmds at hstep hx ⊢
  cases hstep with
  | step hstep => exact h.masterStep alike_similar hstep hq.2.1 hs.2 hx
  | reverted =>
    rw [List.map_eq_nil_iff.mp hx]
    exact h

theorem queue_of_accepted (env : Env) {c : ClientId} {client : Client} {args : List Bytes} {n : ℕ}
    (hc : Receives s c client args n) (ht : client.type = .regular)
    (hn : commandName args = ascii "PSYNC")
    (ha : s.acceptsPartial (psyncPosition args).1 (psyncPosition args).2 = true) :
    (step s (.process env)).replQueues c =
      some { pending := s.continueReply (psyncPosition args).2, fd := client.fd } := by
  have hadd : (handlePsync env.clock c args { s with sends := env.sends }) =
      addReplica c (s.continueReply (psyncPosition args).2) { s with sends := env.sends } := by
    unfold handlePsync
    exact if_pos ha
  rw [step_psync env hc ht hn, hadd, eraseRead_queues]
  simp [addReplica, hc.connected]

/-- The backlog holds the history from every offset that it accepts. -/
theorem Kept.read {base o : ℤ} {cmds : List (List Bytes)} {d : Data} (h : Kept base cmds d)
    (hc : d.backlog.contains o = true) :
    base ≤ o ∧ o ≤ d.masterReplOffset ∧
      d.backlog.read o = (Resp.framing.stream cmds).drop (o - base).toNat := by
  have hin : d.backlog.hasData = true ∧ d.backlog.startOffset ≤ o ∧ o ≤ d.backlog.endOffset := by
    simpa [ReplicationBacklog.contains, and_assoc] using hc
  rcases h.backlog with ⟨-, hnone⟩ | hsome
  · rw [hnone.1] at hin
    cases hin.1
  · have hstart := hsome.2.2.2
    have hstop := hsome.2.2.1
    have hoffset := h.offset
    simp only [ReplicationBacklog.Log.stop] at hstart hstop
    exact ⟨by omega, by omega, hsome.read_eq hc⟩

/-- The second ID is the one before the promotion, and only its last offset is accepted. -/
theorem Term.second {id : Bytes} {o : ℤ} (h : Term s₀ es₁ es₂)
    (hid : id = (run step s₀ es₁).replInfo.masterReplid2)
    (hle : o ≤ (run step s₀ es₁).replInfo.secondReplOffset) (hnonneg : 0 ≤ o)
    (hbase : (run step s₀ es₁).masterReplOffset ≤ o) :
    o = (run step s₀ es₁).masterReplOffset ∧ ∃ es e, es₁ = es ++ [e] ∧
      (run step s₀ es).replInfo.role = .worker ∧ (run step s₀ es).replInfo.masterReplid = id ∧
      (run step s₀ es).replInfo.masterReplOffset = o ∧
      (run step s₀ es₁).store = (run step s₀ es).store := by
  rcases h.begins with ⟨rfl, replid, rfl⟩ | ⟨es, e, rfl, hw, hd⟩
  · have hneg : (0 : ℤ) ≤ -1 := hnonneg.trans hle
    omega
  · have hsecond : (run step s₀ (es ++ [e])).replInfo.secondReplOffset =
        (run step s₀ es).replInfo.masterReplOffset :=
      congrArg (fun d : Data ↦ d.replInfo.secondReplOffset) hd
    have hoffset : (run step s₀ (es ++ [e])).masterReplOffset =
        (run step s₀ es).replInfo.masterReplOffset := congrArg Data.masterReplOffset hd
    have hid₂ : (run step s₀ (es ++ [e])).replInfo.masterReplid2 =
        (run step s₀ es).replInfo.masterReplid :=
      congrArg (fun d : Data ↦ d.replInfo.masterReplid2) hd
    exact ⟨by omega, es, e, rfl, hw, (hid.trans hid₂).symm, by omega, congrArg Data.store hd⟩

/-- What `bytes` is to a replica that asks for the history of `id` from `o` on, in the term
`es₂` of a server. -/
structure Continues (s₀ : Server) (es₁ es₂ : List Event) (id : Bytes) (o : ℤ) (bytes : Bytes) :
    Prop where
  term : Term s₀ es₁ es₂
  base_le : (run step s₀ es₁).masterReplOffset ≤ o
  le_end : o ≤ (run step s₀ (es₁ ++ es₂)).masterReplOffset
  end_eq : (run step s₀ (es₁ ++ es₂)).masterReplOffset = (run step s₀ es₁).masterReplOffset +
    (Resp.framing.stream (trace step written (run step s₀ es₁) es₂)).length
  /-- The term's write stream from `o` to its end. -/
  bytes_eq : bytes = (Resp.framing.stream (trace step written (run step s₀ es₁) es₂)).drop
    (o - (run step s₀ es₁).masterReplOffset).toNat
  /-- Another ID than the server's own is the one it was promoted from, at the offset it
  had reached as a worker. -/
  second : id ≠ (run step s₀ (es₁ ++ es₂)).replInfo.masterReplid →
    o = (run step s₀ es₁).masterReplOffset ∧ ∃ es e, es₁ = es ++ [e] ∧
      (run step s₀ es).replInfo.role = .worker ∧ (run step s₀ es).replInfo.masterReplid = id ∧
      (run step s₀ es).replInfo.masterReplOffset = o ∧
      (run step s₀ es₁).store = (run step s₀ es).store
  /-- A replica that has followed the server up to `o` finds whole commands in `bytes`, and
  ends with the server's store. -/
  follows : ∀ es₃ es₄, es₂ = es₃ ++ es₄ → (run step s₀ (es₁ ++ es₃)).masterReplOffset = o →
    ∃ cmds, bytes = Resp.framing.stream cmds ∧
      ((∀ args ∈ cmds, Resp.Sized args) →
        Resp.framing.decodeAll bytes.length bytes = (cmds, [])) ∧
      ∀ replica, Follows Alike (run step s₀ (es₁ ++ es₃)).store
          (run step s₀ (es₁ ++ es₃)).unswept replica →
        ∀ xs : List Execution, xs.map Execution.args = cmds → ∀ k,
          Alike ((run step s₀ (es₁ ++ es₂)).store.find k) ((replay xs replica).find k)

theorem continues_of_accepted {id : Bytes} {o : ℤ} (h₀ : Initial s₀)
    (hrun : Along step Orderly s₀ (es₁ ++ es₂)) (ht : Term s₀ es₁ es₂)
    (hunswept : (run step s₀ (es₁ ++ es₂)).unswept = [])
    (ha : (run step s₀ (es₁ ++ es₂)).acceptsPartial id o = true) :
    Continues s₀ es₁ es₂ id o ((run step s₀ (es₁ ++ es₂)).backlog.read o) := by
  have ho₂ := ((along_append step).mp hrun).2
  have hcons := Consistent.of_reachable ⟨s₀, es₁, h₀, rfl⟩
  obtain ⟨hk, hsame⟩ := kept_run hcons ho₂ ht.reigns ht.kept
  rw [← run_append, List.nil_append] at hk
  rw [← run_append] at hsame
  simp only [ReplicationInfo.identity, Prod.mk.injEq] at hsame
  obtain ⟨-, hid₂, hsecond⟩ := hsame
  simp only [acceptsPartial, Bool.and_eq_true, Bool.or_eq_true, decide_eq_true_eq, beq_iff_eq] at ha
  obtain ⟨hbase, hend, hread⟩ := hk.read ha.2
  refine ⟨ht, hbase, hend, hk.offset, hread, fun hne ↦ ?_, fun es₃ es₄ hsplit ho₃ ↦ ?_⟩
  · obtain ⟨hid, hle⟩ := ha.1.2.resolve_left hne
    exact ht.second (hid.trans hid₂) (hle.trans_eq hsecond) ha.1.1.2 hbase
  · subst hsplit
    obtain ⟨hord₃, hord₄⟩ := (along_append step).mp ho₂
    obtain ⟨hr₃, hr₄⟩ := (along_append step).mp ht.reigns
    have hk₃ := (kept_run hcons hord₃ hr₃ ht.kept).1.offset
    have hcmds : (run step s₀ (es₁ ++ (es₃ ++ es₄))).backlog.read o =
        Resp.framing.stream (trace step written (run step s₀ (es₁ ++ es₃)) es₄) := by
      rw [← run_append] at hk₃
      have hlen : (o - (run step s₀ es₁).masterReplOffset).toNat =
          (Resp.framing.stream (trace step written (run step s₀ es₁) es₃)).length := by
        change (run step s₀ (es₁ ++ es₃)).masterReplOffset = _ at hk₃
        rw [List.nil_append] at hk₃
        omega
      change (run step s₀ (es₁ ++ (es₃ ++ es₄))).data.backlog.read o = _
      rw [hread, trace_append, Lib.Framing.stream_append, ← run_append, hlen, List.drop_left]
    rw [← run_append] at hord₄ hr₄
    refine ⟨_, hcmds, fun hsized ↦ ?_, fun replica hf xs hx k ↦ ?_⟩
    · rw [hcmds]
      exact Resp.framing.decodeAll_stream _ hsized _ (Resp.framing.length_le_stream _
        (fun args ↦ List.length_pos_iff.mp (Resp.encodeArray_length_pos args)))
    · have hdone : SweepDone (run step s₀ (es₁ ++ es₃)) :=
        (run_stable step (I := SweepsAsMaster) (fun s e h ↦ h.step e) (.of_initial h₀) _).1
      have h := follows_term (.of_reachable ⟨s₀, _, h₀, rfl⟩) hdone hord₄ hr₄ hf xs hx
      rw [← run_append, List.append_assoc, hunswept] at h
      exact h.slot k List.not_mem_nil

/-- In every run whose steps are orderly and whose promotions draw fresh IDs, an ID stands
for one history: whatever is fed under it agrees, byte by byte, wherever it overlaps. A
`PSYNC` that is accepted is answered from the history of the term that the server is in,
from the requested offset to its end, and a replica that had followed the server up to
that offset follows it after this reply. -/
theorem partial_resync_exact (h₀ : Initial s₀) (hfresh : FreshIds s₀ es)
    (hrun : Along step Orderly s₀ es) :
    (∀ f ∈ trace step feeds s₀ es, ∀ g ∈ trace step feeds s₀ es, f.id = g.id →
      ∀ (i j : ℕ) (a b : UInt8), f.offset + i = g.offset + j →
        (Resp.encodeArray f.args)[i]? = some a → (Resp.encodeArray g.args)[j]? = some b → a = b) ∧
    ∀ env c client args n id o, Receives (run step s₀ es) c client args n →
      client.type = .regular → commandName args = ascii "PSYNC" → psyncPosition args = (id, o) →
      Orderly (run step s₀ es) (.process env) → (run step s₀ es).acceptsPartial id o = true →
      ∃ es₁ es₂ bytes, es = es₁ ++ es₂ ∧ Continues s₀ es₁ es₂ id o bytes ∧
        (step (run step s₀ es) (.process env)).replQueues c = some {
          pending := ascii "+CONTINUE " ++ (run step s₀ es).replInfo.masterReplid ++ crlf ++ bytes
          fd := client.fd } := by
  refine ⟨fun f hf g hg hid i j a b hij ha hb ↦ ?_,
    fun env c client args n id o hc htype hname hpos ho haccept ↦ ?_⟩
  · obtain ⟨base, ledger, h⟩ := exists_ledger h₀ hfresh hrun g.id
    exact (h f hf hid).agree (h g hg rfl) hij ha hb
  · have haccepted : (run step s₀ es).acceptsPartial (psyncPosition args).1
        (psyncPosition args).2 = true := by
      rw [hpos]
      exact haccept
    have hm : (run step s₀ es).replInfo.role = .master := by
      by_contra hne
      have hrefused := ho.psync env c client args n rfl hc htype hname (Role.eq_worker hne)
      rw [haccepted] at hrefused
      cases hrefused
    have hqueue := queue_of_accepted env hc htype hname haccepted
    rw [hpos] at hqueue
    have hunswept : (run step s₀ es).unswept = [] :=
      (run_stable step (I := SweepsAsMaster) (fun s e h ↦ h.step e) (.of_initial h₀) es).1
        (by rw [hc.pc]; exact nofun)
    obtain ⟨es₁, es₂, rfl, ht⟩ := exists_term h₀ hfresh hrun hm
    exact ⟨es₁, es₂, _, rfl, continues_of_accepted h₀ hrun ht hunswept haccept, hqueue⟩

def promotionRun : List Event :=
  [.accept 5] ++
    request 1 [ascii "REPLICAOF", ascii "NO", ascii "ONE"] { Env.quiet 0 with replid := ascii "1" } ++
    request 1 [ascii "SET", ascii "k", ascii "v"] (.quiet 1) ++
    [.recv 1 (Resp.encodeArray [ascii "PSYNC", sampleId, ascii "0"])]

theorem partial_resync_after_promotion :
    ∃ es₁ es₂ bytes, promotionRun = es₁ ++ es₂ ∧
      Continues sampleWorker es₁ es₂ sampleId 0 bytes ∧
      (step (run step sampleWorker promotionRun) (.process (.quiet 2))).replQueues 1 = some {
        pending := ascii "+CONTINUE " ++ ascii "1" ++ crlf ++ bytes, fd := 5 } := by
  have hend : (run step sampleWorker promotionRun).pc = .reading 1 ∧
      (run step sampleWorker promotionRun).clients 1 = some {
        fd := 5
        type := .regular
        readBuf := Resp.encodeArray [ascii "PSYNC", sampleId, ascii "0"]
        writeBuf := ascii "+OK\r\n+OK\r\n" } ∧
      (run step sampleWorker promotionRun).replInfo.masterReplid = ascii "1" ∧
      (run step sampleWorker promotionRun).acceptsPartial sampleId 0 = true ∧
      Loyal (run step sampleWorker promotionRun) (.process (.quiet 2)) ∧
      Along step Loyal sampleWorker promotionRun ∧
      FreshIds sampleWorker promotionRun := by
    decide +kernel
  obtain ⟨hpc, hclient, hid, haccept, hlast, hrun, hfresh⟩ := hend
  have h := (partial_resync_exact sampleWorker_initial hfresh
    (hrun.mono step (fun _ _ ↦ Loyal.orderly))).2 (.quiet 2) 1 _
    [ascii "PSYNC", sampleId, ascii "0"] 69 sampleId 0
    ⟨hpc, hclient, by decide +kernel, by decide⟩ rfl rfl (by decide +kernel)
    hlast.orderly haccept
  rwa [hid] at h

def revertRun : List Event :=
  [.accept 5] ++ request 0 [ascii "SET", ascii "k", ascii "v"] (.quiet 0) ++
    request 0 [ascii "REPLICAOF", ascii "localhost", ascii "1"] (.quiet 1) ++
    request 0 [ascii "SET", ascii "j", ascii "w"] (.quiet 2)

/-- The offset starts again at zero under the same ID, so that two commands are fed at one
position, and a replica that has seen nothing is sent the second of them only. -/
theorem failed_demotion_rewrites_history :
    FreshIds (init sampleId) revertRun ∧
    (∃ f ∈ trace step feeds (init sampleId) revertRun,
      ∃ g ∈ trace step feeds (init sampleId) revertRun, f.id = g.id ∧ f.offset = g.offset ∧
        ∃ (i : ℕ) (a b : UInt8), (Resp.encodeArray f.args)[i]? = some a ∧
          (Resp.encodeArray g.args)[i]? = some b ∧ a ≠ b) ∧
    trace step written (init sampleId) revertRun =
      [[ascii "SET", ascii "k", ascii "v"], [ascii "SET", ascii "j", ascii "w"]] ∧
    (run step (init sampleId) revertRun).store.find (ascii "k") = some ⟨ascii "v", none⟩ ∧
    ((run step (init sampleId) (revertRun ++ [.accept 6] ++
      request 1 [ascii "PSYNC", sampleId, ascii "0"] (.quiet 3))).replQueues 1).map (·.pending) =
      some (ascii "+CONTINUE " ++ sampleId ++ crlf ++
        Resp.encodeArray [ascii "SET", ascii "j", ascii "w"]) := by
  refine ⟨by decide +kernel, ⟨⟨sampleId, 0, [ascii "SET", ascii "k", ascii "v"]⟩, ?_,
    ⟨sampleId, 0, [ascii "SET", ascii "j", ascii "w"]⟩, ?_, rfl, rfl, 17, 107, 106, ?_⟩, ?_, ?_,
    ?_⟩ <;> decide +kernel

end RedisLite.Server
