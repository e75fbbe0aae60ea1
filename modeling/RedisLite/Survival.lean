import RedisLite.WaitSound

namespace RedisLite.Net

open Function Lib Lib.Run Lib.Tally Server
open scoped List

variable {net : Net} {replid : Bytes} {c : ClientId} {j : Joined} {client : Client}
  {node node' : Node} {e : NetEvent} {es : List NetEvent}

structure Advances (node node' : Node) : Prop where
  base : node'.base = node.base
  done : node.done <+: node'.done

theorem Advances.refl (node : Node) : Advances node node := ⟨rfl, List.prefix_rfl⟩

theorem nodes_setNode (net : Net) (hnode : net.nodes c = some node) {d : ClientId} {new : Node}
    (h : ∀ old, net.nodes d = some old → Advances old new) :
    ∃ node', (net.setNode d new).nodes c = some node' ∧ Advances node node' := by
  by_cases heq : c = d
  · subst heq
    exact ⟨new, update_self .., h node hnode⟩
  · exact ⟨node, (update_of_ne heq ..).trans hnode, .refl node⟩

theorem node_forward (hnode : net.nodes c = some node) (e : NetEvent) :
    ∃ node', (Net.step net e).nodes c = some node' ∧ Advances node node' := by
  have hsame {d : ClientId} {new : Node} {old : Node} (hold : net.nodes d = some old)
      (h : Advances old new) : ∀ old', net.nodes d = some old' → Advances old' new := by
    intro old' hold'
    rw [hold, Option.some.injEq] at hold'
    exact hold' ▸ h
  have hout := step_outcome net e
  generalize Net.step net e = net' at hout ⊢
  cases hout with
  | skip => exact ⟨node, hnode, .refl node⟩
  | master e => exact ⟨node, hnode, .refl node⟩
  | attach d server greeting reply recvs j hj hnone =>
    refine nodes_setNode net hnode (fun old hold ↦ ?_)
    rw [hnone] at hold
    cases hold
  | node d e old hold => exact nodes_setNode net hnode (hsame hold ⟨rfl, List.prefix_append ..⟩)
  | down d k old hold => exact nodes_setNode net hnode (hsame hold ⟨rfl, List.prefix_rfl⟩)
  | up d k old hold =>
    exact nodes_setNode (net.serve _) hnode (hsame hold ⟨rfl, List.prefix_rfl⟩)

theorem node_backward (hnone : net.nodes c = none)
    (hnode : (Net.step net e).nodes c = some node) : ∃ server greeting reply recvs,
      e = .attach c server greeting reply recvs ∧ (net.joined c).isSome = true ∧
      node = .enter server (greeting ++ reply :: recvs) := by
  have hother (net' : Net) {d : ClientId} {new old : Node} (hnodes : net'.nodes = net.nodes)
      (hold : net.nodes d = some old) (h : (net'.setNode d new).nodes c = some node) : False := by
    by_cases heq : c = d
    · rw [heq, hold] at hnone
      cases hnone
    · change update net'.nodes d _ c = _ at h
      rw [update_of_ne heq, hnodes, hnone] at h
      cases h
  have hout := step_outcome net e
  generalize Net.step net e = net' at hout hnode
  cases hout with
  | skip | master e =>
    change net.nodes c = some node at hnode
    rw [hnone] at hnode
    cases hnode
  | attach d server greeting reply recvs j hj hnone' =>
    by_cases heq : c = d
    · subst heq
      change update net.nodes c _ c = _ at hnode
      rw [update_self, Option.some.injEq] at hnode
      exact ⟨server, greeting, reply, recvs, rfl, by rw [hj]; rfl, hnode.symm⟩
    · change update net.nodes d _ c = _ at hnode
      rw [update_of_ne heq, hnone] at hnode
      cases hnode
  | node d e old hold => exact (hother net rfl hold hnode).elim
  | down d k old hold => exact (hother net rfl hold hnode).elim
  | up d k old hold => exact (hother (net.serve _) rfl hold hnode).elim

theorem joined_backward (hj : (Net.step net e).joined c = some j) : net.joined c = some j ∨
    ∃ e' tk, e = .master e' ∧ joining net.master e' = some tk ∧ tk.c = c ∧ j = net.enrol tk := by
  have hout := step_outcome net e
  generalize Net.step net e = net' at hout hj
  cases hout with
  | skip | attach | node | down | up => exact .inl hj
  | master e =>
    change net.join e c = some j at hj
    cases hjoining : joining net.master e with
    | none =>
      rw [join_of_none hjoining] at hj
      exact .inl hj
    | some tk =>
      rw [join_of_some hjoining] at hj
      by_cases heq : c = tk.c
      · rw [heq, update_self, Option.some.injEq] at hj
        exact .inr ⟨e, tk, rfl, hjoining, heq.symm, hj.symm⟩
      · rw [update_of_ne heq] at hj
        exact .inl hj

theorem joined_forward (hs : Sound replid net) (ho : Orderly net e) (hnode : net.nodes c = some node)
    (hj : net.joined c = some j) : (Net.step net e).joined c = some j := by
  have hout := step_outcome net e
  generalize Net.step net e = net' at hout ⊢
  cases hout with
  | skip | attach | node | down | up => exact hj
  | master e =>
    change net.join e c = some j
    cases hjoining : joining net.master e with
    | none => rwa [join_of_none hjoining]
    | some tk =>
      have hne : c ≠ tk.c := by
        rintro rfl
        rw [hs.nodes_joining ho.2 hjoining] at hnode
        cases hnode
      rwa [join_of_some hjoining, update_of_ne hne]

/-- No replica joins once a `REPLCONF GETACK` has gone out, and the first piece of the answer to a
`PSYNC` has the whole line with the offset. -/
def Gathered (net : Net) : NetEvent → Prop
  | .master e => (joining net.master e).isSome = true → Command.getack ∉ net.log.map (·.1)
  | .attach c _ _ reply _ => ∀ j, net.joined c = some j →
    fullResyncHeader net.master.replInfo.masterReplid j.offset <+: reply
  | _ => True

instance (net : Net) : ∀ e, Decidable (Gathered net e)
  | .master e => inferInstanceAs
    (Decidable ((joining net.master e).isSome = true → Command.getack ∉ net.log.map (·.1)))
  | .attach c _ _ reply _ => inferInstanceAs (Decidable (∀ j ∈ net.joined c,
    fullResyncHeader net.master.replInfo.masterReplid j.offset <+: reply))
  | .node .. | .down .. | .up .. => .isTrue trivial

structure Even (net : Net) : Prop where
  starts : ∀ c j, net.joined c = some j → Command.getack ∉ (net.log.take j.start).map (·.1)
  bases : ∀ c j node, net.joined c = some j → net.nodes c = some node → node.base = j.offset

theorem take_of_initial {α : Type} {as bs : List α} (h : as <+: bs) {k : ℕ} (hk : k ≤ as.length) :
    bs.take k = as.take k := by
  obtain ⟨more, rfl⟩ := h
  exact List.take_append_of_le_length hk

namespace Even

theorem init (replid : Bytes) : Even (Net.init replid) where
  starts := fun _ _ h ↦ by cases h
  bases := fun _ _ _ h ↦ by cases h

theorem step (h : Even net) (hs : Sound replid net) (hid : IsReplid replid) (ho : Orderly net e)
    (hg : Gathered net e) : Even (Net.step net e) := by
  constructor
  · intro c j hj
    rcases joined_backward hj with hold | ⟨e, tk, rfl, hjoining, -, rfl⟩
    · obtain ⟨client, hfed⟩ := hs.fed c j hold
      rw [take_of_initial (log_initial net e) hfed.start]
      exact h.starts c j hold
    · change Command.getack ∉ ((Net.step net _).log.take net.log.length).map (·.1)
      rw [take_of_initial (log_initial net _) (le_refl _), List.take_length]
      exact hg (by rw [hjoining]; rfl)
  · intro c j node' hj hnode'
    cases hnode : net.nodes c with
    | some node =>
      obtain ⟨node'', hnode'', hadvances⟩ := node_forward hnode e
      rw [hnode', Option.some.injEq] at hnode''
      obtain ⟨j', hj'⟩ := Option.isSome_iff_exists.mp (hs.nodes c (by rw [hnode]; rfl))
      have hjj := joined_forward hs ho hnode hj'
      rw [hj, Option.some.injEq] at hjj
      rw [hnode'', hadvances.base, hjj]
      exact h.bases c j' node hj' hnode
    | none =>
      obtain ⟨server, greeting, reply, recvs, rfl, hjoined, rfl⟩ := node_backward hnode hnode'
      have hj' : net.joined c = some j := by
        rcases joined_backward hj with hold | ⟨_, _, h, -⟩
        · exact hold
        · cases h
      obtain ⟨_, _, _, -, -, hentered⟩ := hs.entered hid hj' (ho j hj' hnode)
      refine hentered.eq ?_
      rw [← hs.steady.id]
      exact hg j hj'

theorem run (hid : IsReplid replid)
    (hrun : Along Net.step (fun net e ↦ Orderly net e ∧ Gathered net e) (Net.init replid) es) :
    Sound replid (Lib.Run.run Net.step (Net.init replid) es) ∧
      Even (Lib.Run.run Net.step (Net.init replid) es) :=
  Sound.run_with hid (fun _ _ hs h ho hg ↦ h.step hs hid ho hg) (.init replid) hrun

end Even

theorem total_length (cmds : List (List Bytes)) :
    total (fun args ↦ (Resp.encodeArray args).length) cmds = (Resp.framing.stream cmds).length := by
  induction cmds with
  | nil => rfl
  | cons args cmds ih =>
    rw [Framing.stream_cons, List.length_append, ← ih]
    rfl

/-- The commands that a replica has executed, by the snapshot or on its link, are as many of the
log as the bytes that its offset counts. -/
theorem Even.standing (h : Even net) (hs : Sound replid net) (hj : net.joined c = some j)
    (hnode : net.nodes c = some node) : ∃ k ≤ net.log.length,
      node.server.replInfo.masterReplOffset =
        total (fun args ↦ (Resp.encodeArray args).length) ((net.log.map (·.1)).take k) ∧
      net.history j node = ((net.log.map (·.1)).take k).filter Command.isWrite := by
  obtain ⟨client, hf⟩ := hs.fed c j hj
  have ht := hs.tracks hj hnode hf.link.connected
  have hlen : node.done.length ≤ net.log.length - j.start := by
    obtain ⟨_, _, -, ⟨_, -, hdown⟩, -⟩ := ht.link
    simpa [since] using hdown.words.length_le
  have hstart := hf.start
  have hsplit : net.log.take (j.start + node.done.length) =
      net.log.take j.start ++ net.reached j node := List.take_add
  have hbefore : ∀ args ∈ (net.log.take j.start).map (·.1), Command.isWrite args = true := by
    intro args hmem
    obtain ⟨entry, hentry, rfl⟩ := List.mem_map.mp hmem
    refine (hs.words entry (List.mem_of_mem_take hentry)).resolve_right (fun hgetack ↦ ?_)
    exact h.starts c j hj (hgetack ▸ hmem)
  refine ⟨j.start + node.done.length, by omega, ?_, ?_⟩
  · rw [ht.offset, h.bases c j node hj hnode, hf.offset, total_weight hbefore, ← List.map_take,
      hsplit, List.map_append, total_append, ← done_eq ht, total_length, total_length, Nat.cast_add]
  · rw [history_eq ht, List.map_take]

theorem log_map_take (net : Net) (es : List NetEvent) {k : ℕ} (hk : k ≤ net.log.length) :
    ((run Net.step net es).log.map (·.1)).take k = (net.log.map (·.1)).take k := by
  rw [← List.map_take, take_of_initial (log_run net es) hk, List.map_take]

/-- Two states of one run, in whichever order: the replica with the larger offset has executed
every write command of the other one. -/
theorem history_of_offset_le {es₁ es₂ : List NetEvent} (hid : IsReplid replid)
    (hrun : Along Net.step (fun net e ↦ Orderly net e ∧ Gathered net e) (Net.init replid) es)
    (h₁ : es₁ <+: es) (h₂ : es₂ <+: es) {c₁ c₂ : ClientId} {j₁ j₂ : Joined} {node₁ node₂ : Node}
    (hj₁ : (run Net.step (Net.init replid) es₁).joined c₁ = some j₁)
    (hnode₁ : (run Net.step (Net.init replid) es₁).nodes c₁ = some node₁)
    (hj₂ : (run Net.step (Net.init replid) es₂).joined c₂ = some j₂)
    (hnode₂ : (run Net.step (Net.init replid) es₂).nodes c₂ = some node₂)
    (hle : node₁.server.replInfo.masterReplOffset ≤ node₂.server.replInfo.masterReplOffset) :
    (run Net.step (Net.init replid) es₁).history j₁ node₁ <+:
      (run Net.step (Net.init replid) es₂).history j₂ node₂ := by
  obtain ⟨hs₁, he₁⟩ := Even.run hid (hrun.of_initial _ h₁)
  obtain ⟨hs₂, he₂⟩ := Even.run hid (hrun.of_initial _ h₂)
  obtain ⟨more₁, rfl⟩ := h₁
  obtain ⟨more₂, hmore⟩ := h₂
  obtain ⟨k₁, hk₁, hoffset₁, hhistory₁⟩ := he₁.standing hs₁ hj₁ hnode₁
  obtain ⟨k₂, hk₂, hoffset₂, hhistory₂⟩ := he₂.standing hs₂ hj₂ hnode₂
  -- both have executed beginnings of the log at the end of the run
  have hlog₁ := log_map_take (run Net.step (Net.init replid) es₁) more₁ hk₁
  have hlog₂ := log_map_take (run Net.step (Net.init replid) es₂) more₂ hk₂
  have hlen := (log_run (run Net.step (Net.init replid) es₁) more₁).length_le
  rw [← run_append] at hlog₁ hlog₂ hlen
  rw [hmore] at hlog₂
  rw [hhistory₁, hhistory₂, ← hlog₁, ← hlog₂]
  rw [hoffset₁, hoffset₂, ← hlog₁, ← hlog₂] at hle
  refine List.IsPrefix.filter _ (prefix_of_total_le _ ?_ ?_ (Int.ofNat_le.mp hle))
  · exact fun args _ ↦ Resp.encodeArray_length_pos args
  · rw [List.length_map]
    omega

theorem history_forward (hs : Sound replid net) (ho : Orderly net e) (hj : net.joined c = some j)
    (hnode : net.nodes c = some node) : ∃ node', (Net.step net e).joined c = some j ∧
      (Net.step net e).nodes c = some node' ∧
      net.history j node <+: (Net.step net e).history j node' := by
  obtain ⟨node', hnode', hadvances⟩ := node_forward hnode e
  obtain ⟨client, hfed⟩ := hs.fed c j hj
  refine ⟨node', joined_forward hs ho hnode hj, hnode', ?_⟩
  rw [history, history, take_of_initial (log_initial net e) hfed.start]
  exact ((List.prefix_append_right_inj _).mpr hadvances.done).filter _

theorem history_run (hid : IsReplid replid) (hs : Sound replid net)
    (hrun : Along Net.step Orderly net es) (hj : net.joined c = some j)
    (hnode : net.nodes c = some node) : ∃ node', (run Net.step net es).joined c = some j ∧
      (run Net.step net es).nodes c = some node' ∧
      net.history j node <+: (run Net.step net es).history j node' := by
  induction es generalizing net node with
  | nil => exact ⟨node, hj, hnode, List.prefix_rfl⟩
  | cons e es ih =>
    obtain ⟨node', hj', hnode', hinitial⟩ := history_forward hs hrun.1 hj hnode
    obtain ⟨node'', hj'', hnode'', hinitial'⟩ := ih (hs.step hid hrun.1) hrun.2 hj' hnode'
    exact ⟨node'', hj'', hnode'', hinitial.trans hinitial'⟩

theorem exists_of_countP {α : Type} {as : List α} {p q : α → Bool}
    (h : as.countP (fun a ↦ !q a) < as.countP p) : ∃ a ∈ as, p a = true ∧ q a = true := by
  by_contra hnone
  push Not at hnone
  refine absurd h (Nat.not_lt.mpr (List.countP_mono_left (fun a ha hp ↦ ?_)))
  simpa using hnone a ha hp

/-- An integer that a client gets for a `WAIT` is a number of replicas. If fewer than that many are
lost, one is left that has executed every write command before the target of the `WAIT` and keeps
them from then on. -/
theorem acknowledged_kept {es₁ es₂ : List NetEvent} (hid : IsReplid replid)
    (hrun : Along Net.step (fun net e ↦ Orderly net e ∧ AskedOnce net e) (Net.init replid)
      (es₁ ++ e :: es₂)) {reply : WaitReply}
    (hreply : reply ∈ (run Net.step (Net.init replid) (es₁ ++ [e])).master.waitReplies.drop
      (run Net.step (Net.init replid) es₁).master.waitReplies.length) (hpos : 0 < reply.target)
    {here : ClientId → Bool}
    (hlost : (run Net.step (Net.init replid) (es₁ ++ [e])).master.replicas.countP
      (fun r ↦ !here r) < reply.count) :
    ∃ r j, here r = true ∧ ∀ k, ∃ node,
      (run Net.step (Net.init replid) (es₁ ++ e :: es₂.take k)).joined r = some j ∧
      (run Net.step (Net.init replid) (es₁ ++ e :: es₂.take k)).nodes r = some node ∧
      (run Net.step (Net.init replid) (es₁ ++ [e])).writesBefore reply.target <+:
        (run Net.step (Net.init replid) (es₁ ++ e :: es₂.take k)).history j node := by
  rw [List.append_cons, along_append] at hrun
  obtain ⟨hbefore, hafter⟩ := hrun
  obtain ⟨hs', hq'⟩ := Questioned.run hid hbefore
  obtain ⟨hfirst, hlast, -⟩ := (along_append _).mp hbefore
  have hs := (Questioned.run hid hfirst).1
  have hsplit (k : ℕ) : run Net.step (Net.init replid) (es₁ ++ e :: es₂.take k) =
      run Net.step (run Net.step (Net.init replid) (es₁ ++ [e])) (es₂.take k) := by
    rw [List.append_cons, run_append]
  have hcount : reply.count ≤
      (run Net.step (Net.init replid) (es₁ ++ [e])).master.countCaughtUpReplicas reply.target := by
    rw [run_append, run_cons, run_nil] at hreply ⊢
    exact count_le_caughtUp hs hlast.1 hreply hpos
  generalize run Net.step (Net.init replid) (es₁ ++ [e]) = net at *
  obtain ⟨r, hr, hup, hhere⟩ := exists_of_countP (hlost.trans_le hcount)
  obtain ⟨client, hclient, hack⟩ := Option.any_eq_true .. |>.mp hup
  have hexecuted := hs'.executed hq' hr hclient hpos (of_decide_eq_true hack)
  unfold hasExecuted at hexecuted
  split at hexecuted
  · next j node hj hnode =>
    rw [List.isPrefixOf_iff_prefix] at hexecuted
    refine ⟨r, j, hhere, fun k ↦ ?_⟩
    have horderly : Along Net.step Orderly net (es₂.take k) :=
      (hafter.take _ k).mono _ (fun _ _ h ↦ h.1)
    obtain ⟨node', hj', hnode', hinitial⟩ := history_run hid hs' horderly hj hnode
    rw [hsplit]
    exact ⟨node', hj', hnode', hexecuted.trans hinitial⟩
  · cases hexecuted

end RedisLite.Net
