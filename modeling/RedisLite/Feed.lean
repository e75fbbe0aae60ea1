import RedisLite.Counting

namespace RedisLite.Server

open Lib.Tally Net
open scoped List

variable {s : Server} {c : ClientId} {e : Event}

theorem streamed_cases (s : Server) (e : Event) : streamed s e = [] ∨
    ∃ args, streamed s e = [args] ∧ (Command.isWrite args = true ∨ args = Command.getack) := by
  have hone : (streamed s e).length ≤ 1 := by
    unfold streamed
    split
    · split
      · split
        · cases Resp.next _ with
          | none => exact Nat.zero_le _
          | some p =>
            simp only [Option.map_some, Option.getD_some, broadcast]
            split
            · exact le_refl _
            · split
              · exact le_refl _
              · exact Nat.zero_le _
        · exact Nat.zero_le _
      · exact Nat.zero_le _
    · simp
    · exact Nat.zero_le _
  rcases hs : streamed s e with _ | ⟨args, _ | ⟨args', rest⟩⟩
  · exact .inl rfl
  · refine .inr ⟨args, rfl, ?_⟩
    have hmem : args ∈ streamed s e := by rw [hs]; exact List.mem_singleton_self args
    rcases mem_streamed hmem with hw | hg
    · rw [← filter_streamed] at hw
      exact .inl (List.mem_filter.mp hw).2
    · exact .inr hg
  · rw [hs] at hone
    simp at hone

theorem offset_streamed (hs : Serving s) (ht : Tame s e) :
    (step s e).masterReplOffset = s.masterReplOffset + total weight (streamed s e) := by
  have hweight : total weight (streamed s e) = total weight (written s e) := by
    rw [← filter_streamed]
    rcases streamed_cases s e with h | ⟨args, h, -⟩
    · rw [h]
      rfl
    · rw [h, List.filter_singleton]
      by_cases hw : Command.isWrite args = true
      · rw [hw, Bool.cond_true]
      · rw [Bool.not_eq_true] at hw
        rw [hw, Bool.cond_false, total_singleton, weight, if_neg (by rw [hw]; decide), total_nil]
  have hstep := masterStep hs ht
  rw [hweight]
  change (step s e).data.masterReplOffset = s.data.masterReplOffset + _
  generalize (step s e).data = d, written s e = cmds at hstep ⊢
  have hwrite {args : List Bytes} (hw : Command.isWrite args = true) :
      total weight [args] = (Resp.encodeArray args).length := by
    rw [total_singleton, weight, if_pos hw]
  cases hstep with
  | same => exact (add_zero _).symm
  | rehash => exact (add_zero _).symm
  | write env c client args n hc hw =>
    rw [hwrite hw]
    rfl
  | sweep => exact (add_zero _).symm
  | sweepNext key keys =>
    rw [hwrite (isWrite_del key)]
    rfl

theorem Link.wire_initial {client : Client} {bytes : Bytes} (hl : Link s c client bytes) :
    s.wire c <+: bytes := by
  obtain ⟨queue, -, rfl⟩ := hl.queue
  rw [List.append_assoc]
  exact List.prefix_append ..

theorem Link.eraseOwn {client : Client} {bytes : Bytes} (hl : Link s c client bytes)
    (hpc : s.pc = .reading c) (n : ℕ) :
    Link (s.eraseRead c n) c { client with readBuf := client.readBuf.drop n } bytes := by
  have herase : s.eraseRead c n =
      s.mapClient c (fun client ↦ { client with readBuf := client.readBuf.drop n }) := by
    simp [Server.eraseRead, hpc, hl.connected]
  have hmap := hl.mapClient c (fun client ↦ { client with readBuf := client.readBuf.drop n })
    (fun _ ↦ ⟨rfl, rfl⟩)
  rw [if_pos rfl] at hmap
  rw [herase]
  exact hmap

/-- A replica's `PSYNC` makes its connection a link with the full resync on it. -/
theorem link_joining {tk : Taking} (hj : joining s e = some tk) (hg : Greets s e) :
    s.clients tk.c = some tk.client ∧ tk.client.type = .regular ∧
      Link (step s e) tk.c { fd := tk.client.fd, type := .replica }
        (s.wire tk.c ++ s.fullResyncReply tk.env.clock) := by
  obtain ⟨htaking, hname⟩ := Option.filter_eq_some_iff.mp hj
  obtain ⟨hclient, hwaits⟩ := hg tk hj
  obtain ⟨rfl, hc⟩ := receives_of_taking htaking
  obtain ⟨env, c, client, args, n⟩ := tk
  dsimp only at hclient hwaits hc ⊢
  generalize client.fd = fd at hclient ⊢
  subst hclient
  have hsized : Resp.Sized [ascii "PSYNC", ascii "?", ascii "-1"] := by decide
  have hnext := Resp.next_encode hsized []
  rw [List.append_nil] at hnext
  have hparsed := hc.next
  rw [show Client.readBuf _ = _ from rfl, hnext] at hparsed
  cases hparsed
  refine ⟨hc.connected, rfl, ?_⟩
  rw [step_fullResync env hc rfl rfl rfl]
  have hpc := hc.pc
  have hconnected := hc.connected
  generalize Resp.encodeArray [ascii "PSYNC", ascii "?", ascii "-1"] = request at hconnected ⊢
  have hl : Link (addReplica c (s.fullResyncReply env.clock) { s with sends := env.sends }) c
      { fd := fd, type := .replica, readBuf := request }
      (s.wire c ++ s.fullResyncReply env.clock) := by
    refine ⟨?_, rfl, rfl, ⟨⟨s.fullResyncReply env.clock, [], fd, false⟩, ⟨?_, rfl⟩, ?_⟩, hwaits⟩
    · simp [addReplica, mapClient, hconnected]
    · simp [addReplica, hconnected]
    · simp [addReplica, mapClient]
  have hmap := hl.eraseOwn hpc request.length
  simpa only [List.drop_length] using hmap

end RedisLite.Server
