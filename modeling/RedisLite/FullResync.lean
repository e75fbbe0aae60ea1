import RedisLite.Follow
import RedisLite.Snapshot
import RedisLite.Stream
import RedisLite.Transfer

namespace RedisLite.Server

open Lib.Run

variable {s : Server} {c : ClientId} {client : Client} {replid : Bytes}

/-- A calm step in which no replica sends a write command. -/
@[mk_iff] structure Tame (s : Server) (e : Event) : Prop where
  calm : Calm s e
  silent : Silent s e

instance (s : Server) (e : Event) : Decidable (Tame s e) :=
  decidable_of_iff' _ (tame_iff s e)

theorem broadcast_of_write {args : List Bytes} (hw : Command.isWrite args = true) (s : Server) :
    s.broadcast args = [args] := by
  unfold broadcast
  rw [if_pos hw]

theorem broadcast_of_not_write {args : List Bytes} (hw : Command.isWrite args = false)
    (s : Server) : s.broadcast args = [] ∨ s.broadcast args = [Command.getack] := by
  unfold broadcast
  rw [if_neg (by rw [hw]; decide)]
  split
  · exact .inr rfl
  · exact .inl rfl

theorem isWrite_del (key : Bytes) : Command.isWrite [ascii "DEL", key] = true := by
  change Command.isWriteCommand (ascii "DEL") = true
  decide

theorem filter_broadcast (args : List Bytes) (s : Server) :
    (s.broadcast args).filter Command.isWrite = [args].filter Command.isWrite := by
  by_cases hw : Command.isWrite args = true
  · rw [broadcast_of_write hw]
  · rw [Bool.not_eq_true] at hw
    rcases broadcast_of_not_write hw s with h | h <;> rw [h] <;> simp [hw]
    decide

theorem filter_streamed (s : Server) (e : Event) :
    (streamed s e).filter Command.isWrite = written s e := by
  cases e with
  | process env =>
    simp only [streamed, written]
    cases s.pc with
    | idle | sweeping | useAfterFree | terminated => rfl
    | reading c =>
      dsimp only
      cases s.clients c with
      | none => rfl
      | some client =>
        dsimp only
        split
        · cases Resp.next client.readBuf with
          | none => rfl
          | some p => exact filter_broadcast p.1 s
        · rfl
  | sweepNext =>
    simp only [streamed, written]
    cases s.pc with
    | idle | reading | useAfterFree | terminated => rfl
    | sweeping =>
      dsimp only
      rw [List.filter_eq_self]
      intro args hmem
      obtain ⟨key, -, rfl⟩ := List.mem_map.mp hmem
      exact isWrite_del key
  | accept | recv | hangup | writable | timeouts | sweep | rehash | writerSwap | writerStep => rfl

theorem mem_streamed {args : List Bytes} {e : Event} (h : args ∈ streamed s e) :
    args ∈ written s e ∨ args = Command.getack := by
  by_cases hw : Command.isWrite args = true
  · rw [← filter_streamed]
    exact .inl (List.mem_filter.mpr ⟨h, hw⟩)
  · rw [Bool.not_eq_true] at hw
    unfold streamed at h
    split at h
    · split at h
      · next client _ =>
        split at h
        · cases hn : Resp.next client.readBuf with
          | none => simp [hn] at h
          | some p =>
            simp only [hn, Option.map_some, Option.getD_some, broadcast] at h
            split at h
            · next hp =>
              rw [List.mem_singleton.mp h, hp] at hw
              cases hw
            · split at h
              · exact .inr (List.mem_singleton.mp h)
              · cases h
        · cases h
      · cases h
    · obtain ⟨key, -, rfl⟩ := List.mem_map.mp h
      rw [isWrite_del] at hw
      cases hw
    · cases h

theorem masterStep {e : Event} (hs : Serving s) (ht : Tame s e) :
    MasterStep s e (written s e) (step s e).data := by
  rcases masterStep_or hs.consistent hs.role ht.silent with h | ⟨-, env, c, host, port, rfl, hd, -⟩
  · exact h
  · exact absurd hd (ht.calm.2 c host port)

structure Steady (replid : Bytes) (s : Server) : Prop where
  serving : Serving s
  bounded : s.data.Bounded
  swept : SweepDone s
  id : s.replInfo.masterReplid = replid
  offset : 0 ≤ s.masterReplOffset

theorem Steady.init (replid : Bytes) : Steady replid (init replid) where
  serving := .init replid
  bounded := ⟨nofun, nofun⟩
  swept := fun _ ↦ rfl
  id := rfl
  offset := le_refl 0

theorem Steady.step {e : Event} (hs : Steady replid s) (ht : Tame s e) :
    Steady replid (Server.step s e) := by
  have hstep := masterStep hs.serving ht
  have hbounded := (hstep.bounded hs.serving.role hs.bounded).1
  have hdata : (Server.step s e).data.replInfo.masterReplid = replid ∧
      0 ≤ (Server.step s e).data.masterReplOffset := by
    have hid := hs.id
    have hoff := hs.offset
    generalize (Server.step s e).data = d, written s e = cmds at hstep ⊢
    cases hstep with
    | same => exact ⟨hid, hoff⟩
    | rehash => exact ⟨hid, hoff⟩
    | write => exact ⟨hid, Int.add_nonneg hoff (Int.natCast_nonneg _)⟩
    | sweep => exact ⟨hid, hoff⟩
    | sweepNext => exact ⟨hid, Int.add_nonneg hoff (Int.natCast_nonneg _)⟩
  exact ⟨hs.serving.step ht.calm, hbounded, (swept_step hs.swept e).2, hdata.1, hdata.2⟩

theorem filter_trace (s : Server) (es : List Event) :
    (trace step streamed s es).filter Command.isWrite = trace step written s es := by
  induction es generalizing s with
  | nil => rfl
  | cons e es ih => rw [trace_cons, trace_cons, List.filter_append, filter_streamed, ih]

theorem link_run {bytes : Bytes} {es : List Event} (hl : Link s c client bytes)
    (hs : Steady replid s) (ht : Along step Tame s es) :
    (∃ client', Link (run step s es) c client'
      (bytes ++ Resp.framing.stream (trace step streamed s es))) ∧
      ∀ args ∈ trace step streamed s es, Resp.Sized args := by
  have hstep (h : List (List Bytes)) (s : Server) (e : Event)
      (hi : Steady replid s ∧ (∃ client, Link s c client (bytes ++ Resp.framing.stream h)) ∧
        ∀ args ∈ h, Resp.Sized args) (ht : Tame s e) :
      Steady replid (step s e) ∧ (∃ client, Link (step s e) c client
          (bytes ++ Resp.framing.stream (h ++ streamed s e))) ∧
        ∀ args ∈ h ++ streamed s e, Resp.Sized args := by
    obtain ⟨hs, ⟨client, hl⟩, hsized⟩ := hi
    obtain ⟨client', hl', -⟩ := hl.step hs.serving ht.calm
    refine ⟨hs.step ht, ⟨client', ?_⟩, fun args hmem ↦ ?_⟩
    · rw [Lib.Framing.stream_append, ← List.append_assoc]
      exact hl'
    · rcases List.mem_append.mp hmem with hmem | hmem
      · exact hsized args hmem
      · rcases mem_streamed hmem with hmem | rfl
        · exact ((masterStep hs.serving ht).bounded hs.serving.role hs.bounded).2 args hmem
        · decide
  have hinit : Steady replid s ∧ (∃ client, Link s c client (bytes ++ Resp.framing.stream [])) ∧
      ∀ args ∈ [], Resp.Sized args := ⟨hs, ⟨client, by simpa using hl⟩, nofun⟩
  simpa using (trace_invariant step hstep hinit ht).2

theorem replay_filter (xs : List Execution) (store : Store) :
    replay (xs.filter (Command.isWrite ·.args)) store = replay xs store := by
  induction xs generalizing store with
  | nil => rfl
  | cons x xs ih =>
    have hcons (ys : List Execution) : replay (x :: ys) store = replay ys (replay [x] store) :=
      replay_append [x] ys store
    by_cases hw : Command.isWrite x.args = true
    · simp only [List.filter_cons, hw, if_true]
      rw [hcons, hcons xs, ih]
    · rw [Bool.not_eq_true] at hw
      simp only [List.filter_cons, hw, Bool.false_eq_true, if_false]
      rw [hcons, ih, replay_singleton, Command.effect_of_not_write hw]
      rfl

/-- Up to expiry: the replica holds nothing that the master does not hold, and everything
that does not expire. -/
def Covers (master replica : Option Entry) : Prop :=
  (∀ entry, replica = some entry → ∃ entry', master = some entry' ∧ entry'.value = entry.value) ∧
    ∀ entry, master = some entry → entry.expiry = none → replica = some entry

theorem covers_similar : Similar Covers where
  deleted := ⟨nofun, nofun⟩
  set := fun value px f g ↦ by
    refine ⟨fun entry h ↦ ?_, fun entry h hx ↦ ?_⟩
    · cases h
      exact ⟨_, rfl, rfl⟩
    · cases h
      cases px with
      | none => simp only [Option.map_none]
      | some p => cases hx

theorem step_fullResync (env : Env) {args : List Bytes} {n : ℕ} (hc : Receives s c client args n)
    (ht : client.type = .regular) (hn : commandName args = ascii "PSYNC")
    (hpos : psyncPosition args = (ascii "?", -1)) :
    step s (.process env) = ((addReplica c (s.fullResyncReply env.clock)
      { s with sends := env.sends }).eraseRead c n) := by
  rw [step_psync env hc ht hn]
  simp only [handlePsync, hpos]
  rfl

theorem link_psync (env : Env) {args : List Bytes} {n : ℕ} (hc : Receives s c client args n)
    (ht : client.type = .regular) (hn : commandName args = ascii "PSYNC")
    (hpos : psyncPosition args = (ascii "?", -1)) (hbuf : client.writeBuf = [])
    (hwaits : ∀ wait ∈ s.pendingWaits, wait.client ≠ c) :
    ∃ client', Link (step s (.process env)) c client'
      (s.wire c ++ s.fullResyncReply env.clock) := by
  rw [step_fullResync env hc ht hn hpos]
  have hl : Link (addReplica c (s.fullResyncReply env.clock) { s with sends := env.sends }) c
      { client with type := .replica } (s.wire c ++ s.fullResyncReply env.clock) := by
    refine ⟨?_, rfl, hbuf, ⟨⟨s.fullResyncReply env.clock, [], client.fd, false⟩, ⟨?_, rfl⟩, ?_⟩, hwaits⟩
    · simp [addReplica, mapClient, hc.connected]
    · simp [addReplica, hc.connected]
    · simp [addReplica, mapClient]
  obtain ⟨client', hl', -⟩ := hl.eraseRead c n
  exact ⟨client', hl'⟩

theorem data_psync (env : Env) {args : List Bytes} {n : ℕ} (hc : Receives s c client args n)
    (ht : client.type = .regular) (hn : commandName args = ascii "PSYNC")
    (hpos : psyncPosition args = (ascii "?", -1)) : (step s (.process env)).data = s.data := by
  rw [step_fullResync env hc ht hn hpos, data_eraseRead]
  rfl

/-- A snapshot covers the store it was taken of, whatever the clocks. -/
theorem follows_restored {saved clk : Clock} {store loaded : Store}
    (h : ∀ k, loaded.find k = (store.find k).bind (Rdb.restored saved clk)) :
    Follows Covers store [] loaded := by
  refine ⟨nofun, fun k _ ↦ ⟨fun entry hk ↦ ?_, fun entry hk hx ↦ ?_⟩⟩
  · rw [h, Option.bind_eq_some_iff] at hk
    obtain ⟨entry', hk', hr⟩ := hk
    refine ⟨entry', hk', ?_⟩
    unfold Rdb.restored at hr
    split at hr
    · cases hr
    · split at hr
      · cases hr
        rfl
      · split at hr
        · cases hr
          rfl
        · cases hr
  · obtain ⟨value, expiry⟩ := entry
    cases hx
    rw [h, hk]
    rfl

/-- A full resync converges. Everything queued for the connection since its `PSYNC ? -1`
is the header, the snapshot and the stream of commands, whatever the writer thread has
sent of it, and the stream holds the writes that the master has executed since then.
However a replica receives these bytes, it finds this header, this snapshot and these
commands, and whenever it executes them, its store follows the master's up to expiry. -/
theorem full_resync_converges {es₁ es₂ : List Event} {env : Env} {args : List Bytes} {n : ℕ}
    (hid : IsReplid replid)
    (hrun : Along step Tame (init replid) (es₁ ++ .process env :: es₂))
    (hc : Receives (run step (init replid) es₁) c client args n) (htype : client.type = .regular)
    (hname : commandName args = ascii "PSYNC") (hpos : psyncPosition args = (ascii "?", -1))
    (hbuf : client.writeBuf = [])
    (hwaits : ∀ wait ∈ (run step (init replid) es₁).pendingWaits, wait.client ≠ c)
    (hoffset : (run step (init replid) es₁).masterReplOffset < 2 ^ 63)
    (hrdb : (Rdb.serialize env.clock (run step (init replid) es₁).store).length < 2 ^ 31)
    (hidle : (run step (init replid) (es₁ ++ .process env :: es₂)).pc ≠ .sweeping) :
    ∃ queue bytes cmds,
      Registered (run step (init replid) (es₁ ++ .process env :: es₂)) c queue ∧
      (run step (init replid) (es₁ ++ .process env :: es₂)).wire c ++ queue.draining ++
        queue.pending = (run step (init replid) es₁).wire c ++ bytes ∧
      cmds.filter Command.isWrite =
        trace step written (step (run step (init replid) es₁) (.process env)) es₂ ∧
      (∀ reply recvs, reply ++ recvs.flatten = bytes → (∀ chunk ∈ recvs, chunk ≠ []) →
        (fullResyncHeader replid (run step (init replid) es₁).masterReplOffset <+: reply →
          Handshake.fullResyncLine reply =
            some (replid, toStr (run step (init replid) es₁).masterReplOffset)) ∧
        ∃ rdb leftover rest, Handshake.readRdb recvs reply = .ok (rdb, leftover, rest) ∧
          Resp.framing.decodeAll (leftover ++ rest.flatten).length (leftover ++ rest.flatten) =
            (cmds, []) ∧
          ∀ clk dst, ∃ loaded, Rdb.load clk rdb dst = .ok loaded ∧
            ∀ xs : List Execution, xs.map (·.args) = cmds →
              (∀ k entry, (replay xs loaded).find k = some entry → ∃ entry',
                (run step (init replid) (es₁ ++ .process env :: es₂)).store.find k = some entry' ∧
                entry'.value = entry.value) ∧
              (∀ k entry,
                (run step (init replid) (es₁ ++ .process env :: es₂)).store.find k = some entry →
                entry.expiry = none → (replay xs loaded).find k = some entry)) := by
  obtain ⟨hrun₁, htame, hrun₂⟩ := (along_append step).mp hrun
  have hs₁ : Steady replid (run step (init replid) es₁) :=
    run_invariant step (fun _ _ h ht ↦ h.step ht) (.init replid) hrun₁
  rw [run_append, run_cons] at hidle ⊢
  generalize run step (init replid) es₁ = s₁ at *
  have hs₂ := hs₁.step htame
  obtain ⟨client₂, hl₂⟩ := link_psync env hc htype hname hpos hbuf hwaits
  have hdata := data_psync env hc htype hname hpos
  have hstore : (step s₁ (.process env)).store = s₁.store := congrArg Data.store hdata
  have hunswept : (step s₁ (.process env)).unswept = [] :=
    (congrArg Data.unswept hdata).trans (hs₁.swept (by rw [hc.pc]; exact nofun))
  generalize step s₁ (.process env) = s₂ at *
  obtain ⟨⟨client₃, hl₃⟩, hsized⟩ := link_run hl₂ hs₂ hrun₂
  have hs₃ : Steady replid (run step s₂ es₂) :=
    run_invariant step (fun _ _ h ht ↦ h.step ht) hs₂ hrun₂
  obtain ⟨queue, hq, hbytes⟩ := hl₃.queue
  refine ⟨queue, _, trace step streamed s₂ es₂, hq, hbytes.trans (List.append_assoc ..),
    filter_trace s₂ es₂, fun reply recvs hreply hne ↦ ⟨?_, ?_⟩⟩
  · rintro ⟨more, rfl⟩
    exact Handshake.fullResyncLine_header hid.plain s₁.masterReplOffset more
  · have hheader : 36 ∉ fullResyncHeader replid s₁.masterReplOffset :=
      Handshake.dollar_not_mem_header hid.plain _
    have hparts : reply ++ recvs.flatten =
        fullResyncHeader replid s₁.masterReplOffset ++
          bulkPayload (Rdb.serialize env.clock s₁.store) ++
          Resp.framing.stream (trace step streamed s₂ es₂) := by
      rw [hreply, fullResyncReply, hs₁.id]
    obtain ⟨leftover, rest, hread, hrest⟩ := Handshake.readRdb_pieces hheader
      (Handshake.length_header_lt hid hs₁.offset hoffset) hrdb recvs reply hne hparts
    refine ⟨_, leftover, rest, hread, ?_, fun clk dst ↦ ?_⟩
    · rw [hrest]
      exact Resp.framing.decodeAll_stream _ hsized _ (Resp.framing.length_le_stream _
        (fun args ↦ List.length_pos_iff.mp (Resp.encodeArray_length_pos args)))
    · obtain ⟨loaded, hload, hfind⟩ := Rdb.exists_load_serialize env.clock clk s₁.store dst
        (fun k entry hk ↦ by
          have h := hs₁.bounded.stored k entry hk
          omega)
      have hfollows : Follows Covers s₂.store s₂.unswept loaded := by
        rw [hstore, hunswept]
        exact follows_restored hfind
      refine ⟨loaded, hload, fun xs hx ↦ ?_⟩
      have hwrites : (xs.filter (Command.isWrite ·.args)).map (·.args) =
          trace step written s₂ es₂ := by
        rw [← filter_trace, ← hx, List.filter_map]
        rfl
      have h := hfollows.run (I := Steady replid) (fun s e hs ht ↦ ⟨hs.step ht, fun replica xs h hx ↦
        h.masterStep covers_similar (masterStep hs.serving ht) hs.serving.role hs.swept hx⟩) hs₂
        hrun₂ _ hwrites
      rw [replay_filter] at h
      rw [hs₃.swept hidle] at h
      exact ⟨fun k ↦ (h.slot k List.not_mem_nil).1, fun k ↦ (h.slot k List.not_mem_nil).2⟩

def psyncRun : List Event :=
  [.accept 5, .recv 0 (Resp.encodeArray [ascii "PSYNC", ascii "?", ascii "-1"])]

def resyncRun : List Event :=
  [.process (.quiet 0), .writerSwap [0], .writerStep .again, .accept 6,
    .recv 1 (Resp.encodeArray [ascii "SET", ascii "k", ascii "v"]), .writerStep (.sent 9),
    .process (.quiet 0), .writerStep .again, .process (.quiet 0)]

theorem full_resync_of_set :
    ∃ queue bytes, Registered (run step (init sampleId)
        (psyncRun ++ .process (.quiet 0) :: resyncRun)) 0 queue ∧
      (run step (init sampleId) (psyncRun ++ .process (.quiet 0) :: resyncRun)).wire 0 ++
        queue.draining ++ queue.pending = bytes ∧
      ∃ rdb leftover rest loaded xs, Handshake.readRdb [] bytes = .ok (rdb, leftover, rest) ∧
        Rdb.load (Env.quiet 5).clock rdb Store.empty = .ok loaded ∧
        (xs.map Execution.args).filter Command.isWrite = [[ascii "SET", ascii "k", ascii "v"]] ∧
        (replay xs loaded).find (ascii "k") = some ⟨ascii "v", none⟩ := by
  have hc : Receives (run step (init sampleId) psyncRun) 0
      { fd := 5, type := .regular,
        readBuf := Resp.encodeArray [ascii "PSYNC", ascii "?", ascii "-1"] }
      [ascii "PSYNC", ascii "?", ascii "-1"] 30 := ⟨rfl, rfl, rfl, by decide⟩
  have hrun : Along step Tame (init sampleId)
      (psyncRun ++ .process (.quiet 0) :: resyncRun) := by decide +kernel
  have hid : IsReplid sampleId := by decide +kernel
  obtain ⟨queue, bytes, cmds, hq, hb, hw, h⟩ := full_resync_converges hid
    hrun hc rfl rfl rfl rfl nofun (by decide) (by decide +kernel) (by decide +kernel)
  obtain ⟨-, rdb, leftover, rest, hread, -, hload⟩ := h bytes [] (List.append_nil bytes) nofun
  obtain ⟨loaded, hload, hxs⟩ := hload (Env.quiet 5).clock Store.empty
  have hargs : (cmds.map (Execution.mk 0 { role := .worker, masterReplid := sampleId })).map
      (·.args) = cmds := by
    rw [List.map_map]
    exact List.map_id cmds
  refine ⟨queue, bytes, hq, hb, rdb, leftover, rest, loaded, _, hread, hload, ?_,
    (hxs _ hargs).2 _ ⟨ascii "v", none⟩ (by decide +kernel) rfl⟩
  rw [hargs, hw]
  decide +kernel

end RedisLite.Server
