import RedisLite.Lib.Progress
import RedisLite.Position
import RedisLite.ReadOnly

namespace RedisLite

open Function Lib Lib.Run
open scoped List

namespace Handshake

variable {reply leftover header rdb rdb' acc more tail : Bytes} {recvs rest : List Bytes}

theorem rdbTake_snapshot (hh : 36 ∉ header) (hheader : header.length < 2 ^ 63 + 100)
    (hacc : acc ++ more = header ++ Server.bulkPayload rdb ++ tail)
    (h : rdbTake acc = some (.ok (rdb', leftover))) : rdb' = rdb := by
  have hrdb : rdb.length < 2 ^ 31 := by
    unfold rdbTake at h
    cases hr : rdbHeader acc with
    | none =>
      rw [hr] at h
      cases h
    | some p =>
      have happend := rdbHeader_append hr more
      rw [hacc, rdbHeader_reply hh] at happend
      cases happend
      rw [hr] at h
      dsimp only at h
      split at h
      · cases h
      · next hlen => exact (convert_decimal_eq hlen).2
  rcases rdbTake_part hh hheader hrdb hacc with ⟨hnone, -⟩ | ⟨leftover', hsome, -⟩
  · rw [hnone] at h
    cases h
  · rw [hsome] at h
    cases h
    rfl

theorem readRdb_snapshot (hh : 36 ∉ header) (hheader : header.length < 2 ^ 63 + 100)
    (hacc : acc ++ recvs.flatten ++ more = header ++ Server.bulkPayload rdb ++ tail)
    (h : readRdb recvs acc = .ok (rdb', leftover, rest)) : rdb' = rdb := by
  induction recvs generalizing acc with
  | nil =>
    rw [List.flatten_nil, List.append_nil] at hacc
    unfold readRdb at h
    split at h
    · next htake =>
      cases h
      exact rdbTake_snapshot hh hheader hacc htake
    · cases h
    · cases h
  | cons chunk recvs ih =>
    unfold readRdb at h
    split at h
    · next htake =>
      cases h
      rw [List.append_assoc] at hacc
      exact rdbTake_snapshot hh hheader hacc htake
    · cases h
    · split at h
      · cases h
      · refine ih ?_ h
        rw [← hacc, List.flatten_cons, List.append_assoc acc]

theorem fullResync_store {clk : Clock} {info info' : ReplicationInfo} {store store' : Store}
    (h : fullResync clk reply recvs info store = ⟨info', store', .ok leftover⟩) :
    ∃ rdb rest, readRdb recvs reply = .ok (rdb, leftover, rest) ∧
      store' = loadRdb clk rdb store := by
  unfold fullResync at h
  dsimp only at h
  cases hread : readRdb recvs reply with
  | error failure =>
    simp only [hread] at h
    split at h
    · cases h
    · split at h <;> cases h
  | ok read =>
    obtain ⟨rdb, left, rest⟩ := read
    simp only [hread] at h
    split at h
    · cases h
      exact ⟨rdb, rest, rfl, rfl⟩
    · split at h
      · cases h
      · cases h
        exact ⟨rdb, rest, rfl, rfl⟩

end Handshake

namespace Server

/-- A server that comes out of a full resync has loaded the snapshot that was sent. -/
theorem Resyncs.store {greeting recvs : List Bytes} {reply id rdb tail : Bytes} {offset : ℤ}
    {t : Server} (h : Resyncs greeting reply recvs t) (hid : IsReplid id) (h₀ : 0 ≤ offset)
    (hlt : offset < 2 ^ 63)
    (hbytes : reply ++ recvs.flatten <+: fullResyncHeader id offset ++ bulkPayload rdb ++ tail) :
    ∃ clk dst, t.store = Handshake.loadRdb clk rdb dst := by
  obtain ⟨fd, s, clk, host, port, linked, hs, hconn, hlinked⟩ := h.connects
  obtain ⟨fd', info, store, leftover, hfd, -, hout, rfl⟩ := connectToMaster_ok hconn
  cases hfd
  obtain ⟨rdb', rest, hread, rfl⟩ :=
    Handshake.fullResync_store (Handshake.connect_ok h.greeted rfl h.full hout)
  obtain ⟨more, hmore⟩ := hbytes
  have hrdb := Handshake.readRdb_snapshot (Handshake.dollar_not_mem_header hid.plain offset)
    (Handshake.length_header_lt hid h₀ hlt) hmore hread
  subst hrdb
  refine ⟨clk, s.store, ?_⟩
  rcases hlinked with rfl | ⟨d, n, hd, rfl⟩
  · rfl
  · exact congrArg Data.store (data_eraseRead d n _)

theorem replay_congr (xs : List Execution) {store store' : Store}
    (h : ∀ k, store.find k = store'.find k) (k : Bytes) :
    (replay xs store).find k = (replay xs store').find k := by
  induction xs generalizing store store' with
  | nil => exact h k
  | cons x xs ih =>
    have hcons (store : Store) : replay (x :: xs) store = replay xs (replay [x] store) :=
      replay_append [x] xs store
    rw [hcons, hcons]
    refine ih (fun k ↦ ?_)
    rw [replay_singleton, replay_singleton, Command.find_apply, Command.find_apply, h]

theorem Uplink.worker {s : Server} {up : ClientId} {link : Client} {said : Bytes}
    (h : Uplink s up link said) (hcons : Consistent s) : s.replInfo.role = .worker := by
  have hmaster := (hcons.master_iff up).mpr ⟨link, h.connected, h.type⟩
  cases hrole : s.replInfo.role with
  | worker => rfl
  | master =>
    rw [hcons.role hrole] at hmaster
    cases hmaster

theorem Uplink.store_other {s : Server} {up : ClientId} {link : Client} {said : Bytes} {e : Event}
    (h : Uplink s up link said) (hcons : Consistent s) (hstay : Stays up s e)
    (hnone : executed up s e = []) (k : Bytes) : (Server.step s e).store.find k = s.store.find k := by
  have hworker := h.worker hcons
  have hrefused (now : TimePoint) (args : List Bytes) :
      (s.data.execute now args false).store = s.store := by
    rw [Data.execute, Command.execute_store]
    change (if !false && s.replInfo.role == .worker then s.store else _) = s.store
    rw [hworker]
    rfl
  have hplain {env : Env} {c : ClientId} {client : Client} {args : List Bytes} {n : ℕ}
      (he : e = .process env) (hc : Receives s c client args n) (ht : client.type = .regular) :
      Command.isWrite args = false ∧ commandName args ≠ ascii "REPLICAOF" := by
    subst he
    exact hstay.plain ⟨env, c, client, args, n⟩ (hc.taking_eq env) ht
  change (Server.step s e).data.store.find k = s.store.find k
  have hd := step_dataStep s e
  generalize (Server.step s e).data = d, written s e = cmds at hd ⊢
  cases hd with
  | same => rfl
  | rehash items => exact Store.find_rehash items s.store k
  | sweep now hpc hr =>
    rw [hworker] at hr
    cases hr
  | sweepNext => rfl
  | link env c client args n hc ht =>
    have hup := (hcons.master_iff up).mpr ⟨link, h.connected, h.type⟩
    have hlink := (hcons.master_iff c).mpr ⟨client, hc.connected, ht⟩
    have hsame : c = up := Option.some.inj (hlink.symm.trans hup)
    rw [executed, hc.taking_eq env] at hnone
    dsimp only at hnone
    rw [if_pos hsame] at hnone
    cases hnone
  | replica env c client args =>
    rw [hrefused]
  | write env c client args n hc ht hw =>
    rw [(hplain rfl hc ht).1] at hw
    cases hw
  | promote env c client args n hc ht hn => exact absurd hn (hplain rfl hc ht).2
  | linked env c host port hd =>
    obtain ⟨client, args, n, hc, ht, hn, -⟩ := hd.receives
    exact absurd hn (hplain rfl hc ht).2
  | reverted env c host port hd =>
    obtain ⟨client, args, n, hc, ht, hn, -⟩ := hd.receives
    exact absurd hn (hplain rfl hc ht).2
  | terminated env c host port hd =>
    obtain ⟨client, args, n, hc, ht, hn, -⟩ := hd.receives
    exact absurd hn (hplain rfl hc ht).2

end Server

namespace Net

open Server

variable {net : Net} {replid : Bytes} {c : ClientId} {j : Joined} {node : Node}

/-- A replica holds the snapshot that it was sent, changed by the commands of the link that it has
executed. -/
def Copies (replid : Bytes) (j : Joined) (node : Node) : Prop :=
  ∀ rdb, j.reply = fullResyncHeader replid j.offset ++ bulkPayload rdb →
    ∃ clk dst xs, xs.map (·.args) = node.done ∧
      ∀ k, node.server.store.find k = (replay xs (Handshake.loadRdb clk rdb dst)).find k

namespace Copies

theorem congr {node' : Node} (h : Copies replid j node) (hdone : node'.done = node.done)
    (hstore : ∀ k, node'.server.store.find k = node.server.store.find k) :
    Copies replid j node' := by
  intro rdb hreply
  obtain ⟨clk, dst, xs, hxs, hfind⟩ := h rdb hreply
  exact ⟨clk, dst, xs, hxs.trans hdone.symm, fun k ↦ (hstore k).trans (hfind k)⟩

theorem advance {cmds : List (List Bytes)} {client : Client} {e : Event} (h : Copies replid j node)
    (ht : Tracks cmds j client node) (hstay : Stays node.up node.server e)
    (hreads : e.reads node.up = false) : Copies replid j (node.advance e) := by
  obtain ⟨link, before, hup, -⟩ := ht.link
  obtain ⟨link', n, acks', hheeds, -⟩ := hup.step ht.consistent hstay hreads
  generalize link'.readBuf = rest at hheeds
  cases hheeds with
  | other _ hnone =>
    refine h.congr ?_ (hup.store_other ht.consistent hstay hnone)
    rw [Node.advance, hnone, List.append_nil]
  | command env args _ hc =>
    have hexec : executed node.up node.server (.process env) = [args] := by
      rw [executed, hc.taking_eq env]
      exact if_pos rfl
    intro rdb hreply
    obtain ⟨clk, dst, xs, hxs, hfind⟩ := h rdb hreply
    refine ⟨clk, dst, xs ++ [⟨env.clock.steady, node.server.replInfo, args⟩], ?_, fun k ↦ ?_⟩
    · rw [Node.advance, hexec, List.map_append, hxs]
      rfl
    · have hstore : (Server.step node.server (.process env)).store =
          replay [⟨env.clock.steady, node.server.replInfo, args⟩] node.server.store :=
        step_link_store hc hup.type
      rw [replay_append, ← replay_congr _ hfind, ← hstore]
      rfl

end Copies

theorem joined_of_serve {e : Event} (hs : Sound replid net) (hg : Greets net.master e)
    (hnode : net.nodes c = some node) (hj : (net.serve e).joined c = some j) :
    net.joined c = some j := by
  change net.join e c = some j at hj
  cases hjoining : joining net.master e with
  | none => rwa [join_of_none hjoining] at hj
  | some tk =>
    have hne : c ≠ tk.c := by
      rintro rfl
      rw [hs.nodes_joining hg hjoining] at hnode
      cases hnode
    rwa [join_of_some hjoining, update_of_ne hne] at hj

def Copied (replid : Bytes) (net : Net) : Prop :=
  ∀ c j node, net.joined c = some j → net.nodes c = some node → Copies replid j node

namespace Copied

theorem setNode (h : Copied replid net) (hnode : ∀ j, net.joined c = some j → Copies replid j node) :
    Copied replid (net.setNode c node) := by
  intro d j node' hj hnode'
  by_cases heq : d = c
  · subst heq
    simp only [Net.setNode, update_self, Option.some.injEq] at hnode'
    rw [← hnode']
    exact hnode j hj
  · simp only [Net.setNode, update_of_ne heq] at hnode'
    exact h d j node' hj hnode'

theorem serve {e : Event} (hs : Sound replid net) (h : Copied replid net)
    (hg : Greets net.master e) : Copied replid (net.serve e) :=
  fun c j node hj hnode ↦ h c j node (joined_of_serve hs hg hnode hj) hnode

theorem step {e : NetEvent} (hs : Sound replid net) (hid : IsReplid replid)
    (h : Copied replid net) (ho : Orderly net e) : Copied replid (Net.step net e) := by
  have hout := step_outcome net e
  generalize Net.step net e = net' at hout ⊢
  cases hout with
  | skip => exact h
  | master e => exact h.serve hs ho.2
  | attach c server greeting reply recvs j hj hnone =>
    refine h.setNode (fun j' hj' rdb hreply ↦ ?_)
    have ha := ho j' hj' hnone
    obtain ⟨client, hfed⟩ := hs.fed c j' hj'
    have h₀ : 0 ≤ j'.offset := by
      rw [hfed.offset]
      exact Int.natCast_nonneg _
    obtain ⟨_, _, _, -, hbytes, -⟩ := hs.entered hid hj' ha
    obtain ⟨clk, dst, hstore⟩ := ha.resyncs.store hid h₀ ha.bounded (hreply ▸ hbytes)
    exact ⟨clk, dst, [], rfl, fun k ↦ by rw [← hstore]; rfl⟩
  | node c e node hnode hreads =>
    refine h.setNode (fun j hj ↦ ?_)
    obtain ⟨client, hfed⟩ := hs.fed c j hj
    exact (h c j node hj hnode).advance (hs.tracks hj hnode hfed.link.connected)
      (ho node hnode).1 hreads
  | down c k node hnode =>
    refine h.setNode (fun j hj ↦ (h c j node hj hnode).congr rfl (fun key ↦ ?_))
    exact congrArg (fun d : Data ↦ d.store.find key) (data_recv node.server node.up _)
  | up c k node hnode =>
    have hserve (data : Bytes) : Copied replid (net.serve (.recv c data)) := h.serve hs nofun
    exact (hserve _).setNode (fun j hj ↦ (h c j node hj hnode).congr rfl (fun _ ↦ rfl))

end Copied

structure Followed (loaded : Store) (k : ℕ) (net : Net) : Prop where
  start : k ≤ net.log.length
  follows : ∀ xs : List Execution, xs.map (·.args) = net.since k →
    Follows Covers net.master.store net.master.unswept (replay xs loaded)

namespace Followed

variable {loaded : Store} {k : ℕ}

theorem serve {e : Event} (hs : Sound replid net) (hcalm : Calm net.master e)
    (h : Followed loaded k net) : Followed loaded k (net.serve e) := by
  refine ⟨?_, fun xs hxs ↦ ?_⟩
  · rw [Net.serve, List.length_append]
    exact h.start.trans (Nat.le_add_right ..)
  · rw [since_serve h.start] at hxs
    obtain ⟨before, now, rfl, hbefore, hnow⟩ := List.map_eq_append_iff.mp hxs
    have hwrites : (now.filter (Command.isWrite ·.args)).map (·.args) = written net.master e := by
      rw [← filter_streamed, ← hnow, List.filter_map]
      rfl
    rw [replay_append, ← replay_filter]
    exact (h.follows before hbefore).masterStep covers_similar
      (Server.masterStep hs.steady.serving (hs.tame hcalm)) hs.steady.serving.role hs.steady.swept
      hwrites

theorem step {e : NetEvent} (hs : Sound replid net) (h : Followed loaded k net)
    (ho : Orderly net e) : Followed loaded k (Net.step net e) := by
  have hout := step_outcome net e
  generalize Net.step net e = net' at hout ⊢
  cases hout with
  | skip => exact h
  | master e => exact h.serve hs ho.1
  | attach => exact ⟨h.start, h.follows⟩
  | node => exact ⟨h.start, h.follows⟩
  | down => exact ⟨h.start, h.follows⟩
  | up c k node hnode =>
    have hserve (data : Bytes) : Followed loaded _ (net.serve (.recv c data)) := h.serve hs trivial
    exact ⟨(hserve _).start, (hserve _).follows⟩

theorem snapshot (hs : Sound replid net) (hunswept : net.master.unswept = []) (saved clk : Clock)
    (dst : Store) : Followed (Handshake.loadRdb clk (Rdb.serialize saved net.master.store) dst)
      net.log.length net := by
  obtain ⟨loaded, hload, hfind⟩ := Rdb.exists_load_serialize saved clk net.master.store dst
    (fun k entry hk ↦ by
      have h := hs.steady.bounded.stored k entry hk
      omega)
  refine ⟨le_rfl, fun xs hxs ↦ ?_⟩
  rw [since, List.drop_length, List.map_nil, List.map_eq_nil_iff] at hxs
  rw [Handshake.loadRdb, hload, hunswept, hxs]
  exact follows_restored hfind

end Followed

theorem length_log_step (net : Net) (e : NetEvent) :
    (Net.step net e).log.length ≤ net.log.length + 1 := by
  have hserve (e : Event) : (net.serve e).log.length ≤ net.log.length + 1 := by
    rw [Net.serve, List.length_append, List.length_map]
    rcases streamed_cases net.master e with hs | ⟨args, hs, -⟩
    · rw [hs]
      exact Nat.le_succ _
    · rw [hs]
      exact le_rfl
  have hout := step_outcome net e
  generalize Net.step net e = net' at hout ⊢
  cases hout with
  | master e => exact hserve e
  | up => exact hserve _
  | _ => exact Nat.le_succ _

theorem enrolled_at {net₀ : Net} {es : List NetEvent} (h₀ : net₀.joined c = none)
    (hj : (run Net.step net₀ es).joined c = some j) :
    ∃ es₁ es₂ e tk, es = es₁ ++ es₂ ∧ joining (run Net.step net₀ es₁).master e = some tk ∧
      j = (run Net.step net₀ es₁).enrol tk := by
  induction es using List.reverseRecOn with
  | nil =>
    rw [run_nil, h₀] at hj
    cases hj
  | append_singleton es e ih =>
    have hearlier (hj : (run Net.step net₀ es).joined c = some j) :
        ∃ es₁ es₂ e' tk, es ++ [e] = es₁ ++ es₂ ∧
          joining (run Net.step net₀ es₁).master e' = some tk ∧
          j = (run Net.step net₀ es₁).enrol tk := by
      obtain ⟨es₁, es₂, e', tk, rfl, hjoining, henrol⟩ := ih hj
      exact ⟨es₁, es₂ ++ [e], e', tk, List.append_assoc .., hjoining, henrol⟩
    rw [run_append, run_cons, run_nil] at hj
    generalize hnet : run Net.step net₀ es = net at hj hearlier
    have hserve (e' : Event) (hj : (net.serve e').joined c = some j) :
        ∃ es₁ es₂ e' tk, es ++ [e] = es₁ ++ es₂ ∧
          joining (run Net.step net₀ es₁).master e' = some tk ∧
          j = (run Net.step net₀ es₁).enrol tk := by
      change net.join e' c = some j at hj
      cases hjoining : joining net.master e' with
      | none =>
        rw [join_of_none hjoining] at hj
        exact hearlier hj
      | some tk =>
        rw [join_of_some hjoining] at hj
        by_cases heq : c = tk.c
        · rw [heq, update_self, Option.some.injEq] at hj
          exact ⟨es, [e], e', tk, rfl, hnet ▸ hjoining, hnet ▸ hj.symm⟩
        · rw [update_of_ne heq] at hj
          exact hearlier hj
    have hout := step_outcome net e
    generalize Net.step net e = net' at hout hj
    cases hout with
    | master e' => exact hserve e' hj
    | up d k node =>
      exact hserve (.recv d (pending (node.server.wire node.up) node.delivered (k + 1))) hj
    | _ => exact hearlier hj

theorem drained_done {client : Client} (hf : Fed replid net c j client)
    (ht : Tracks (net.since j.start) j client node) (hd : net.Drained c node) :
    node.done = net.since j.start := by
  obtain ⟨link, before, hup, ⟨arrived, hreceived, hdown⟩, -⟩ := ht.link
  rw [hd.read link hup.connected] at hdown
  obtain ⟨queue, hq, hbytes⟩ := hf.link.queue
  obtain ⟨hdraining, hpending⟩ := hd.queue queue hq.1
  rw [hdraining, hpending, List.append_nil, List.append_nil, ← hd.received, hreceived,
    List.append_cancel_left_eq] at hbytes
  exact hdown.done_eq hbytes (fun args ↦ List.length_pos_iff.mp (Resp.encodeArray_length_pos args))

/-- A replica holds what its master has held earlier in the run, up to expiry: nothing that the
master did not hold at that moment under the same key, except for keys that its sweep has just
removed, and everything that does not expire. The moment is the one at which the master had executed
the same write commands as the replica; once the link is drained no command has followed it. -/
theorem replica_holds_past {es : List NetEvent} (hid : IsReplid replid)
    (hrun : Along Net.step Orderly (Net.init replid) es)
    (hj : (run Net.step (Net.init replid) es).joined c = some j)
    (hnode : (run Net.step (Net.init replid) es).nodes c = some node) :
    ∃ es₁ es₂, es = es₁ ++ es₂ ∧
      Follows Covers (run Net.step (Net.init replid) es₁).master.store
        (run Net.step (Net.init replid) es₁).master.unswept node.server.store ∧
      ((run Net.step (Net.init replid) es₁).log.map (·.1)).filter Command.isWrite =
        (run Net.step (Net.init replid) es).history j node ∧
      ((run Net.step (Net.init replid) es).Drained c node →
        (run Net.step (Net.init replid) es₁).log = (run Net.step (Net.init replid) es).log) := by
  have hsound {fs : List NetEvent} (hfs : Along Net.step Orderly (Net.init replid) fs) :
      Sound replid (run Net.step (Net.init replid) fs) :=
    run_invariant Net.step (fun _ _ h ho ↦ h.step hid ho) (.init replid) hfs
  have hcopied : Copied replid (run Net.step (Net.init replid) es) :=
    (run_invariant Net.step (I := fun net ↦ Sound replid net ∧ Copied replid net)
      (fun _ _ h ho ↦ ⟨h.1.step hid ho, h.2.step h.1 hid ho⟩)
      ⟨.init replid, fun _ _ _ h ↦ by cases h⟩ hrun).2
  have hs := hsound hrun
  obtain ⟨client, hf⟩ := hs.fed c j hj
  have ht := hs.tracks hj hnode hf.link.connected
  -- The snapshot was taken when the connection sent its `PSYNC`.
  obtain ⟨es₁, es₂, e, tk, rfl, hjoining, hstart⟩ := enrolled_at rfl hj
  obtain ⟨hrun₁, hrun₂⟩ := (along_append Net.step).mp hrun
  have hs₁ := hsound hrun₁
  have hunswept : (run Net.step (Net.init replid) es₁).master.unswept = [] := by
    obtain ⟨-, hc⟩ := receives_of_taking (Option.filter_eq_some_iff.mp hjoining).1
    exact hs₁.steady.swept (by rw [hc.pc]; exact nofun)
  have hreply : j.reply = fullResyncHeader replid j.offset ++
      bulkPayload (Rdb.serialize tk.env.clock (run Net.step (Net.init replid) es₁).master.store) := by
    rw [hstart, enrol, fullResyncReply, hs₁.steady.id]
  obtain ⟨clk, dst, xs, hxs, hfind⟩ := hcopied c j node hj hnode _ hreply
  have hsnapshot := Followed.snapshot hs₁ hunswept tk.env.clock clk dst
  have hk : (run Net.step (Net.init replid) es₁).log.length = j.start := by rw [hstart]; rfl
  have hdone := done_eq ht
  have hhistory := history_eq ht
  have hdrained := drained_done hf ht
  have hreached : node.done.length ≤
      (run Net.step (Net.init replid) (es₁ ++ es₂)).log.length - j.start := by
    obtain ⟨_, _, -, ⟨_, -, hdown⟩, -⟩ := ht.link
    simpa [since] using hdown.words.length_le
  have hbegin := hf.start
  -- Between that and now the log of the master had the length that the replica has reached.
  rw [hk] at hsnapshot
  rw [run_append] at hdone hhistory hdrained hreached hbegin ⊢
  have hhigh : j.start + node.done.length ≤
      (run Net.step (run Net.step (Net.init replid) es₁) es₂).log.length := by omega
  obtain ⟨fs, gs, rfl, hlength⟩ := exists_run_of_le_succ Net.step (·.log.length) length_log_step
    (by rw [hk]; exact Nat.le_add_right ..) hhigh
  obtain ⟨hrunf, -⟩ := (along_append Net.step).mp hrun₂
  have hfollowed := (run_invariant Net.step (I := fun net ↦ Sound replid net ∧
    Followed (Handshake.loadRdb clk _ dst) j.start net)
    (fun _ _ h ho ↦ ⟨h.1.step hid ho, h.2.step h.1 ho⟩) ⟨hs₁, hsnapshot⟩ hrunf).2
  refine ⟨es₁ ++ fs, gs, (List.append_assoc ..).symm, ?_⟩
  rw [run_append]
  rw [run_append] at hdone hhistory hdrained hreached hbegin ⊢
  generalize run Net.step (run Net.step (Net.init replid) es₁) fs = past at *
  have hpast : past.log = (run Net.step past gs).log.take (j.start + node.done.length) := by
    rw [← hlength]
    exact List.prefix_iff_eq_take.mp (log_run past gs)
  have hsince : node.done = past.since j.start := by
    rw [hdone, reached, since, hpast, List.drop_take, Nat.add_sub_cancel_left]
  refine ⟨⟨?_, fun k hk ↦ ?_⟩, ?_, fun hd ↦ ?_⟩
  · exact (hfollowed.follows xs (hxs.trans hsince)).gone
  · rw [hfind k]
    exact (hfollowed.follows xs (hxs.trans hsince)).slot k hk
  · rw [hhistory, ← hpast]
  · have hall := congrArg List.length (hdrained hd)
    rw [since, List.length_map, List.length_drop] at hall
    rw [hpast, List.take_of_length_le (by omega)]

/-- The replica has executed the one write of the run. -/
theorem replica_holds_past_of_write : ∃ es₁ es₂ node,
    joinRun ++ attachment :: writeRun = es₁ ++ es₂ ∧
    (run Net.step (Net.init sampleId) (joinRun ++ attachment :: writeRun)).nodes 0 = some node ∧
    node.server.store.find (ascii "k") = some ⟨ascii "v", none⟩ ∧
    Follows Covers (run Net.step (Net.init sampleId) es₁).master.store
      (run Net.step (Net.init sampleId) es₁).master.unswept node.server.store := by
  have heval : ((run Net.step (Net.init sampleId) (joinRun ++ attachment :: writeRun)).nodes 0).map
        (fun node ↦ node.server.store.find (ascii "k")) = some (some ⟨ascii "v", none⟩) ∧
      ((run Net.step (Net.init sampleId) (joinRun ++ attachment :: writeRun)).joined 0).isSome ∧
      Along Net.step Smooth
        (run Net.step (Net.init sampleId) (joinRun ++ [attachment])) writeRun := by
    decide +kernel
  obtain ⟨hnode, hj, hsmooth⟩ := heval
  obtain ⟨node, hnode, hfind⟩ := Option.map_eq_some_iff.mp hnode
  obtain ⟨j, hj⟩ := Option.isSome_iff_exists.mp hj
  have hid : IsReplid sampleId := by decide +kernel
  obtain ⟨es₁, es₂, hes, hfollows, -⟩ := replica_holds_past hid (orderly_sample hsmooth) hj hnode
  exact ⟨es₁, es₂, node, hes, hnode, hfind, hfollows⟩

end Net

end RedisLite
