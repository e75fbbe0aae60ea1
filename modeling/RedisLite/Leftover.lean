import RedisLite.Attachment
import RedisLite.Dialling
import RedisLite.Pipeline

namespace RedisLite.Server

open Function Handshake Lib.Run

variable {s t : Server} {c d : ClientId} {e : Event} {heard : Bytes} {done : List (List Bytes)}

theorem Thins.readBuf {gone : ClientId → Prop} {link : Client} (h : Thins gone s t)
    (hlink : t.clients c = some link) :
    ∃ old, s.clients c = some old ∧ link.readBuf = old.readBuf := by
  obtain ⟨old, hold, hbare⟩ := h.exists_client hlink
  refine ⟨old, hold, ?_⟩
  change (bare link).readBuf = _
  rw [hbare]
  rfl

theorem readBuf_mapClient {link : Client} {f : Client → Client}
    (hf : ∀ client, (f client).readBuf = client.readBuf)
    (hlink : (s.mapClient d f).clients c = some link) :
    ∃ old, s.clients c = some old ∧ link.readBuf = old.readBuf := by
  by_cases hne : c = d
  · subst hne
    simp only [mapClient, update_self, Option.map_eq_some_iff] at hlink
    obtain ⟨old, hold, rfl⟩ := hlink
    exact ⟨old, hold, hf old⟩
  · simp only [mapClient, update_of_ne hne] at hlink
    exact ⟨link, hlink, rfl⟩

theorem clients_handleAccept {fd : ℕ} (hfd : s.fds fd = none) :
    (s.handleAccept fd).clients =
      update s.clients s.nextId (some { fd := fd, type := .regular }) := by
  simp [handleAccept, hfd]

theorem readBuf_eraseRead {n : ℕ} {link : Client} (hpc : ¬Halted (s.eraseRead c n).pc)
    (hlink : (s.eraseRead c n).clients c = some link) :
    ∃ old, s.clients c = some old ∧ link.readBuf = old.readBuf.drop n := by
  unfold eraseRead at hpc hlink
  split at hpc
  · next hhalt =>
    rcases hhalt with hhalt | hhalt
    · exact absurd (hhalt ▸ trivial) hpc
    · exact absurd (hhalt ▸ trivial) hpc
  · next hrun =>
    split at hpc
    · exact absurd trivial hpc
    · next hsome =>
      rw [if_neg hrun, if_neg hsome] at hlink
      simp only [mapClient, update_self, Option.map_eq_some_iff] at hlink
      obtain ⟨old, hold, rfl⟩ := hlink
      exact ⟨old, hold, rfl⟩

/-- A command leaves the read buffers alone, apart from its removal from one of them; it may open
a link. -/
theorem Acted.buffer {gone : ClientId → Prop} {env : Env} {client link : Client}
    {args : List Bytes} (h : Acted gone env d client args s t) (hlink : t.clients c = some link) :
    (∃ old, s.clients c = some old ∧ link.readBuf = old.readBuf) ∨
    c = s.nextId ∧ (client.type = .regular ∧ commandName args = ascii "REPLICAOF" ∧
      Command.executeReplicaof args = []) ∧ ∃ host port,
      replicaofTarget args = some (host, port) ∧ s.replicaof ≠ some (host, port) ∧
      ∃ info info' store store', connect env.clock ((s.demote d host port).granting env.peer) host
        port info store = ⟨info', store', .ok link.readBuf⟩ := by
  cases h with
  | thinned t h => exact .inl (h.readBuf hlink)
  | acked _ n t h =>
    obtain ⟨middle, hmiddle, hread⟩ := h.readBuf hlink
    obtain ⟨old, hold, hread'⟩ := readBuf_mapClient
      (f := fun client ↦ { client with ackOffset := n }) (fun _ ↦ rfl) hmiddle
    exact .inl ⟨old, hold, hread.trans hread'⟩
  | wrote _ _ _ t h =>
    rw [(clients_propagate _ t).1] at hlink
    exact .inl (h.readBuf hlink)
  | parked _ _ _ t h =>
    subst h
    change (s.propagateToReplicas _).clients c = some link at hlink
    rw [(clients_propagate _ s).1] at hlink
    exact .inl ⟨link, hlink, rfl⟩
  | joined =>
    have hjoined {data : Bytes} (hlink : (s.addReplica d data).clients c = some link) :
        ∃ old, s.clients c = some old ∧ link.readBuf = old.readBuf :=
      readBuf_mapClient (f := fun client ↦ { client with type := .replica }) (fun _ ↦ rfl) hlink
    unfold handlePsync at hlink
    dsimp only at hlink
    split at hlink
    · exact .inl (hjoined hlink)
    · exact .inl (hjoined hlink)
  | linked ht hn _ fd leftover t h _ hr host port htarget hne hout =>
    by_cases hid : c = s.nextId
    · subst hid
      rw [← h.ids] at hlink
      simp only [addMasterLink, update_self, Option.some.injEq] at hlink
      subst hlink
      exact .inr ⟨rfl, ⟨ht, hn, hr⟩, host, port, htarget, hne, hout⟩
    · rw [← h.ids] at hid
      simp only [addMasterLink, update_of_ne hid] at hlink
      exact .inl (h.readBuf hlink)

theorem Acted.pc {gone : ClientId → Prop} {env : Env} {client : Client} {args : List Bytes}
    (h : Acted gone env d client args s t) : t.pc = s.pc ∨ Halted t.pc := by
  cases h with
  | thinned t h | acked _ n t h | linked _ _ _ fd leftover t h => exact h.pc
  | wrote _ _ _ t h =>
    rw [pc_propagate]
    exact h.pc
  | parked _ _ _ t h =>
    subst h
    exact .inl (pc_propagate _ s)
  | joined =>
    refine .inl ?_
    unfold handlePsync
    dsimp only
    split <;> rfl

/-- Every connection that is not being read has been read to its last complete command. -/
def Consumed (s : Server) : Prop :=
  ∀ c client, s.clients c = some client →
    Halted s.pc ∨ s.pc = .reading c ∨ Resp.next client.readBuf = none

namespace Consumed

theorem next_eq_none {client : Client} (h : Consumed s) (hc : s.clients c = some client)
    (hhalt : ¬Halted s.pc) (hread : s.pc ≠ .reading c) : Resp.next client.readBuf = none :=
  ((h c client hc).resolve_left hhalt).resolve_left hread

theorem of_eq (h : Consumed s) (hc : t.clients = s.clients) (hpc : t.pc = s.pc) : Consumed t := by
  intro c client hclient
  rw [hc] at hclient
  rw [hpc]
  exact h c client hclient

theorem of_buffers (h : Consumed s) (hpc : t.pc = s.pc ∨ Halted t.pc)
    (hread : ∀ c link, t.clients c = some link →
      (∃ old, s.clients c = some old ∧ link.readBuf = old.readBuf) ∨
        Resp.next link.readBuf = none) : Consumed t := by
  intro c link hlink
  rcases hpc with hpc | hhalt
  · rcases hread c link hlink with ⟨old, hold, hbuf⟩ | hnone
    · rw [hpc, hbuf]
      exact h c old hold
    · exact .inr (.inr hnone)
  · exact .inl hhalt

theorem thins {gone : ClientId → Prop} (h : Consumed s) (hthins : Thins gone s t) : Consumed t :=
  h.of_buffers hthins.pc (fun _ _ hlink ↦ .inl (hthins.readBuf hlink))

theorem propagate (h : Consumed s) (data : Bytes) : Consumed (s.propagateToReplicas data) :=
  h.of_eq (clients_propagate data s).1 (pc_propagate data s)

theorem eraseRead (h : Consumed s) (hpc : s.pc = .reading c ∨ Halted s.pc) (n : ℕ) :
    Consumed (s.eraseRead c n) := by
  unfold Server.eraseRead
  split
  · exact h
  · next hrun =>
    split
    · exact fun _ _ _ ↦ .inl trivial
    · rcases hpc with hpc | hpc
      · intro d client hd
        by_cases hne : d = c
        · exact .inr (.inl (hne ▸ hpc))
        · simp only [Server.mapClient, update_of_ne hne] at hd
          exact h d client hd
      · exact fun _ _ _ ↦ .inl hpc

theorem step (hcons : Consistent s) (h : Consumed s)
    (hnew : ∀ link, (step s e).clients s.nextId = some link → Resp.next link.readBuf = none) :
    Consumed (step s e) := by
  have hchurn : Churn (fun _ ↦ True) s e (Server.step s e) := step_churn (spares_all s e)
  generalize Server.step s e = t at hchurn hnew ⊢
  cases hchurn with
  | accepted fd hfd =>
    refine h.of_buffers (.inl (by rw [handleAccept, hfd]; rfl)) (fun c link hlink ↦ ?_)
    by_cases hid : c = s.nextId
    · subst hid
      exact .inr (hnew link hlink)
    · rw [clients_handleAccept hfd, update_of_ne hid] at hlink
      exact .inl ⟨link, hlink, rfl⟩
  | received c data client hc hpc =>
    intro d other hd
    by_cases hne : d = c
    · exact .inr (.inl (congrArg Pc.reading hne.symm))
    · simp only [Server.mapClient, update_of_ne hne] at hd
      refine .inr (.inr (h.next_eq_none hd ?_ ?_))
      · rw [hpc]
        exact id
      · rw [hpc]
        exact Pc.noConfusion
  | thinned e sends t ht =>
    exact Consumed.thins (s := { s with sends := sends }) (h.of_eq rfl rfl) ht
  | paused e store pc unswept hs hpc =>
    intro c client hc
    refine .inr (.inr (h.next_eq_none hc ?_ ?_))
    · rcases hs with hs | hs
      all_goals
        rw [hs]
        exact id
    · rcases hs with hs | hs
      all_goals
        rw [hs]
        exact Pc.noConfusion
  | finished env c client hpc hc hn t ht =>
    refine Consumed.thins (s := { s with sends := env.sends, pc := .idle }) ?_ ht
    intro d other hd
    by_cases hne : d = c
    · subst hne
      rw [hc, Option.some.injEq] at hd
      exact .inr (.inr (hd ▸ hn))
    · refine .inr (.inr (h.next_eq_none hd (by rw [hpc]; exact id) (fun hread ↦ hne ?_)))
      rw [hpc] at hread
      exact (Pc.reading.inj hread).symm
  | command env c client args n hc t ht =>
    have hlt : c ≠ s.nextId := (hcons.lt_nextId hc.connected).ne
    have hload : Consumed (loaded env client args s) := h.of_eq rfl rfl
    have hconsumed : Consumed t := by
      refine hload.of_buffers ht.pc (fun d link hlink ↦ ?_)
      rcases ht.buffer hlink with hold | ⟨rfl, -⟩
      · exact .inl hold
      · refine .inr (hnew link ?_)
        rw [eraseRead_other hlt.symm]
        exact hlink
    exact hconsumed.eraseRead (ht.pc.imp_left (fun heq ↦ heq.trans hc.pc)) n
  | swept key keys =>
    have hkey : Consumed (s.sweepKey key) := by
      refine Consumed.propagate ?_ _
      exact h.of_eq rfl rfl
    exact hkey.of_eq rfl rfl
  | swapped order => exact h.of_eq rfl rfl
  | sent result => exact h.of_eq (writerStep_frame result s).1 (writerStep_frame result s).2.2

end Consumed

def redirection (s : Server) (e : Event) : Option Peer :=
  (s.taking e).bind (fun tk ↦
    if tk.client.type = .regular ∧ commandName tk.args = ascii "REPLICAOF" ∧
        Command.executeReplicaof tk.args = [] then
      (replicaofTarget tk.args).bind (fun target ↦
        if s.replicaof = some target then none
        else some (s.demotionPeer tk.env tk.c target.1 target.2))
    else none)

/-- The bytes that a step brings to a connection: those that `recv` gives for it, and for a link
that it opens those behind the answer to `PSYNC`. -/
def arrivals (c : ClientId) (s : Server) (e : Event) : Bytes :=
  match e with
  | .recv d data => if d = c ∧ s.pc = .idle ∧ (s.clients c).isSome = true then data else []
  | _ =>
    if c = s.nextId ∧ ((step s e).clients c).isSome = true then
      ((s.redirection e).map behind).getD []
    else []

def TurnsToTidy (s : Server) (e : Event) : Prop := ∀ peer ∈ s.redirection e, Tidy peer

instance (s : Server) (e : Event) : Decidable (TurnsToTidy s e) :=
  inferInstanceAs (Decidable (∀ peer ∈ s.redirection e, _))

theorem redirection_of_not_taking (h : s.taking e = none) : s.redirection e = none := by
  rw [redirection, h, Option.bind_none]

theorem arrivals_of_connected {old : Client} (hcons : Consistent s) (hold : s.clients c = some old)
    (hne : ∀ data, e ≠ .recv c data) : arrivals c s e = [] := by
  have hid : c ≠ s.nextId := (hcons.lt_nextId hold).ne
  cases e with
  | recv d data => exact if_neg (fun h ↦ hne data (by rw [h.1]))
  | _ => exact if_neg (fun h ↦ hid h.1)

theorem arrivals_of_opened {link : Client} (hlink : (step s e).clients s.nextId = some link)
    (hnone : s.clients s.nextId = none) :
    arrivals s.nextId s e = ((s.redirection e).map behind).getD [] := by
  cases e with
  | recv d data =>
    have hrecv : s.redirection (.recv d data) = none := redirection_of_not_taking rfl
    rw [hrecv]
    refine if_neg (fun h ↦ ?_)
    rw [hnone] at h
    cases h.2.2
  | _ => exact if_pos ⟨rfl, by rw [hlink]; rfl⟩

theorem executed_of_not_taking (h : s.taking e = none) (c : ClientId) : executed c s e = [] := by
  rw [executed, h]

inductive Buffered (c : ClientId) (s : Server) (e : Event) (link : Client) : Prop
  | opened (hnone : s.clients c = none) (hid : c = s.nextId)
    (hread : link.readBuf = arrivals c s e) (hexec : executed c s e = [])
    (hnext : Resp.next link.readBuf = none)
  | filled (old : Client) (hold : s.clients c = some old)
    (hread : link.readBuf = old.readBuf ++ arrivals c s e) (hexec : executed c s e = [])
  | taken (old : Client) (args : List Bytes) (n : ℕ) (hold : s.clients c = some old)
    (hnext : Resp.next old.readBuf = some (args, n)) (hread : link.readBuf = old.readBuf.drop n)
    (harrivals : arrivals c s e = []) (hexec : executed c s e = [args])

theorem loaded_replicaof {args : List Bytes} (hn : commandName args = ascii "REPLICAOF") (env : Env)
    (client : Client) (s : Server) : loaded env client args s = { s with sends := env.sends } := by
  rw [loaded, Command.execute_of_not_write _ _ _ _ (isWrite_of_replicaof hn)]

theorem Receives.redirection_eq {env : Env} {client : Client} {args : List Bytes} {n : ℕ}
    {host : Bytes} {port : ℤ} (hc : Receives s d client args n)
    (hpass : client.type = .regular ∧ commandName args = ascii "REPLICAOF" ∧
      Command.executeReplicaof args = [])
    (htarget : replicaofTarget args = some (host, port)) (hne : s.replicaof ≠ some (host, port)) :
    s.redirection (.process env) = some (s.demotionPeer env d host port) := by
  rw [redirection, hc.taking_eq, Option.bind_some, if_pos hpass, htarget, Option.bind_some,
    if_neg hne]

def Opened (s : Server) (e : Event) (link : Client) : Prop :=
  link.readBuf = [] ∧ s.redirection e = none ∨ ∃ peer ∈ s.redirection e,
    ∃ clk host port info info' store store',
      connect clk peer host port info store = ⟨info', store', .ok link.readBuf⟩

section

variable {link : Client}

theorem command_buffer {gone : ClientId → Prop} {env : Env} {client : Client} {args : List Bytes}
    {n : ℕ} (hcons : Consistent s) (hc : Receives s d client args n)
    (hacted : Acted gone env d client args (loaded env client args s) t)
    (hpc : ¬Halted (t.eraseRead d n).pc) (hlink : (t.eraseRead d n).clients c = some link) :
    (∃ old, s.clients c = some old ∧ c ≠ d ∧ link.readBuf = old.readBuf) ∨
    (c = d ∧ link.readBuf = client.readBuf.drop n) ∨
    c = s.nextId ∧ Opened s (.process env) link := by
  by_cases hne : c = d
  · subst hne
    refine .inr (.inl ⟨rfl, ?_⟩)
    obtain ⟨middle, hmiddle, hdrop⟩ := readBuf_eraseRead hpc hlink
    rcases hacted.buffer hmiddle with ⟨old, hold, hread⟩ | ⟨hid, -⟩
    · change s.clients c = some old at hold
      rw [hc.connected] at hold
      cases hold
      rw [hdrop, hread]
    · exact absurd hid (hcons.lt_nextId hc.connected).ne
  · rw [eraseRead_other hne] at hlink
    rcases hacted.buffer hlink with ⟨old, hold, hread⟩ |
      ⟨hid, hpass, host, port, htarget, hother, info, info', store, store', hout⟩
    · exact .inl ⟨old, hold, hne, hread⟩
    · rw [loaded_replicaof hpass.2.1] at hout
      refine .inr (.inr ⟨hid, .inr ⟨_, hc.redirection_eq hpass htarget hother, ?_⟩⟩)
      exact ⟨_, host, port, info, info', store, store', hout⟩

theorem churned_buffer (hcons : Consistent s) (hne : ∀ data, e ≠ .recv c data)
    (hpc : ¬Halted (step s e).pc) (hlink : (step s e).clients c = some link) :
    (∃ old, s.clients c = some old ∧ link.readBuf = old.readBuf ∧ executed c s e = []) ∨
    (∃ old args n, s.clients c = some old ∧ Resp.next old.readBuf = some (args, n) ∧
      link.readBuf = old.readBuf.drop n ∧ executed c s e = [args]) ∨
    c = s.nextId ∧ executed c s e = [] ∧ Opened s e link := by
  have hchurn : Churn (fun _ ↦ True) s e (step s e) := step_churn (spares_all s e)
  generalize step s e = t at hchurn hlink hpc
  cases hchurn with
  | accepted fd hfd =>
    rw [clients_handleAccept hfd] at hlink
    by_cases hid : c = s.nextId
    · subst hid
      rw [update_self] at hlink
      cases hlink
      exact .inr (.inr ⟨rfl, rfl, .inl ⟨rfl, rfl⟩⟩)
    · rw [update_of_ne hid] at hlink
      exact .inl ⟨link, hlink, rfl, rfl⟩
  | received d data client hc hidle =>
    have hother : c ≠ d := fun heq ↦ hne data (by rw [heq])
    simp only [mapClient, update_of_ne hother] at hlink
    exact .inl ⟨link, hlink, rfl, rfl⟩
  | thinned e sends t h he =>
    obtain ⟨old, hold, hread⟩ := h.readBuf hlink
    exact .inl ⟨old, hold, hread, executed_of_not_taking he.taking c⟩
  | paused e store pc unswept hs hpc he =>
    exact .inl ⟨link, hlink, rfl, executed_of_not_taking he.taking c⟩
  | finished env d client hread hc hn t h =>
    obtain ⟨old, hold, hbuf⟩ := h.readBuf hlink
    refine .inl ⟨old, hold, hbuf, executed_of_not_taking ?_ c⟩
    simp only [taking, hread, hc, hn, Option.bind_some, Option.map_none]
  | command env d client args n hc t h =>
    have hexec : executed c s (.process env) = if d = c then [args] else [] := by
      rw [executed, hc.taking_eq]
    rcases command_buffer hcons hc h hpc hlink with ⟨old, hold, hother, hread⟩ | ⟨rfl, hread⟩ |
      ⟨hid, hopened⟩
    · exact .inl ⟨old, hold, hread, hexec.trans (if_neg (Ne.symm hother))⟩
    · exact .inr (.inl ⟨client, args, n, hc.connected, hc.next, hread, hexec.trans (if_pos rfl)⟩)
    · refine .inr (.inr ⟨hid, hexec.trans (if_neg ?_), hopened⟩)
      rw [hid]
      exact (hcons.lt_nextId hc.connected).ne
  | swept key keys =>
    change (s.sweepKey key).clients c = some link at hlink
    rw [sweepKey, (clients_propagate _ _).1] at hlink
    exact .inl ⟨link, hlink, rfl, rfl⟩
  | swapped order => exact .inl ⟨link, hlink, rfl, rfl⟩
  | sent result =>
    rw [(writerStep_frame result s).1] at hlink
    exact .inl ⟨link, hlink, rfl, rfl⟩

theorem received_buffer {data : Bytes} (hlink : (step s (.recv c data)).clients c = some link) :
    ∃ old, s.clients c = some old ∧ link.readBuf = old.readBuf ++ arrivals c s (.recv c data) := by
  by_cases hidle : s.pc = .idle
  · have hstep : step s (.recv c data) = s.handleRecv c data := by simp only [step, hidle]
    rw [hstep, handleRecv] at hlink
    cases hold : s.clients c with
    | none =>
      rw [hold, if_pos (by simp), hold] at hlink
      cases hlink
    | some old =>
      have harrivals : arrivals c s (.recv c data) = data := if_pos ⟨rfl, hidle, by rw [hold]; rfl⟩
      rw [harrivals]
      split at hlink
      · next hempty =>
        rw [hold] at hlink hempty
        cases hlink
        have hnil : data = [] := by simpa using hempty
        rw [hnil]
        exact ⟨link, rfl, (List.append_nil _).symm⟩
      · simp only [mapClient, update_self, hold, Option.map_some, Option.some.injEq] at hlink
        exact ⟨old, rfl, by rw [← hlink]⟩
  · have hstep : step s (.recv c data) = s := by
      unfold step
      split <;> first | rfl | contradiction
    rw [hstep] at hlink
    have harrivals : arrivals c s (.recv c data) = [] := if_neg (fun h ↦ hidle h.2.1)
    rw [harrivals]
    exact ⟨link, hlink, (List.append_nil _).symm⟩

theorem buffered_step (hcons : Consistent s) (htidy : TurnsToTidy s e)
    (hpc : ¬Halted (step s e).pc) (hlink : (step s e).clients c = some link) :
    Buffered c s e link := by
  by_cases hrecv : ∃ data, e = .recv c data
  · obtain ⟨data, rfl⟩ := hrecv
    obtain ⟨old, hold, hread⟩ := received_buffer hlink
    exact .filled old hold hread rfl
  · have hne (data : Bytes) : e ≠ .recv c data := fun h ↦ hrecv ⟨data, h⟩
    rcases churned_buffer hcons hne hpc hlink with ⟨old, hold, hread, hexec⟩ |
      ⟨old, args, n, hold, hnext, hread, hexec⟩ | ⟨rfl, hexec, hopened⟩
    · refine .filled old hold ?_ hexec
      rw [arrivals_of_connected hcons hold hne, List.append_nil, hread]
    · exact .taken old args n hold hnext hread (arrivals_of_connected hcons hold hne) hexec
    · have hnone := hcons.fresh s.nextId le_rfl
      have harrivals := arrivals_of_opened hlink hnone
      rcases hopened with ⟨hread, hself⟩ | ⟨peer, hpeer, clk, host, port, _, _, _, _, hout⟩
      · rw [hself] at harrivals
        exact .opened hnone rfl (hread.trans harrivals.symm) hexec (by rw [hread]; rfl)
      · obtain ⟨hread, hnext⟩ := connect_leftover hout (htidy peer hpeer)
        rw [Option.mem_def.mp hpeer] at harrivals
        exact .opened hnone rfl (hread.trans harrivals.symm) hexec hnext

end

theorem Acted.nextId_le {gone : ClientId → Prop} {env : Env} {client : Client} {args : List Bytes}
    (h : Acted gone env d client args s t) : s.nextId ≤ t.nextId := by
  cases h with
  | thinned t h | acked _ n t h => exact h.ids.ge
  | wrote _ _ _ t h => exact h.ids.ge.trans (propagate_same _ t).nextId.ge
  | parked _ _ _ t h =>
    subst h
    exact (propagate_same _ s).nextId.ge
  | joined =>
    unfold handlePsync
    dsimp only
    split <;> exact le_rfl
  | linked _ _ _ fd leftover t h => exact h.ids.ge.trans (Nat.le_succ _)

theorem nextId_le_step (s : Server) (e : Event) : s.nextId ≤ (step s e).nextId := by
  have hchurn : Churn (fun _ ↦ True) s e (step s e) := step_churn (spares_all s e)
  generalize step s e = t at hchurn ⊢
  cases hchurn with
  | accepted fd hfd => simp [handleAccept, hfd]
  | received | paused | swapped => exact le_rfl
  | thinned e sends t h | finished env c client hpc hc hn t h => exact h.ids.ge
  | command env c client args n hc t h =>
    exact (Acted.nextId_le h).trans (eraseRead_same c n t).nextId.ge
  | swept key keys =>
    change s.nextId ≤ (propagateToReplicas _ _).nextId
    rw [(propagate_same _ _).nextId]
  | sent result => exact (writerStep_same result s).nextId.ge

/-- The commands executed for a connection are those in the bytes that it has brought, but for
those that are left in its buffer. -/
structure Heeded (c : ClientId) (heard : Bytes) (done : List (List Bytes)) (s : Server) :
    Prop where
  read : ¬Halted s.pc → ∀ link, s.clients c = some link →
    Resp.framing.Reads heard done link.readBuf
  fresh : s.nextId ≤ c → heard = [] ∧ done = []

theorem arrivals_fresh (hcons : Consistent s) (h : (step s e).nextId ≤ c) :
    arrivals c s e = [] ∧ executed c s e = [] := by
  have hle := (nextId_le_step s e).trans h
  have hunknown {t : Server} (ht : Consistent t) (hid : t.nextId ≤ c) : t.clients c = none := by
    cases hc : t.clients c with
    | none => rfl
    | some client => exact absurd (ht.lt_nextId hc) (not_lt.mpr hid)
  constructor
  · cases e with
    | recv d data =>
      refine if_neg (fun hrecv ↦ ?_)
      rw [hunknown hcons hle] at hrecv
      cases hrecv.2.2
    | _ =>
      refine if_neg (fun hopened ↦ ?_)
      rw [hunknown (hcons.step _) h] at hopened
      cases hopened.2
  · cases htk : s.taking e with
    | none => exact executed_of_not_taking htk c
    | some tk =>
      obtain ⟨-, hrec⟩ := receives_of_taking htk
      have hne : tk.c ≠ c := fun heq ↦ by
        rw [← heq] at hle
        exact absurd (hcons.lt_nextId hrec.connected) (not_lt.mpr hle)
      rw [executed, htk]
      exact if_neg hne

theorem Heeded.step (hcons : Consistent s) (htidy : TurnsToTidy s e) (h : Heeded c heard done s) :
    Heeded c (heard ++ arrivals c s e) (done ++ executed c s e) (step s e) := by
  refine ⟨fun hpc link hlink ↦ ?_, fun hid ↦ ?_⟩
  · have hrun : ¬Halted s.pc := fun hhalt ↦ hpc (halted_step hhalt e)
    cases buffered_step hcons htidy hpc hlink with
    | opened hnone hid hread hexec =>
      obtain ⟨rfl, rfl⟩ := h.fresh hid.ge
      rw [hexec, hread]
      exact .refl ..
    | filled old hold hread hexec =>
      rw [hexec, List.append_nil, hread]
      exact (h.read hrun old hold).append _ Resp.decode_pos _
    | taken old args n hold hnext hread harrivals hexec =>
      rw [hexec, harrivals, List.append_nil, hread]
      exact (h.read hrun old hold).next _ Resp.decode_pos hnext
  · obtain ⟨rfl, rfl⟩ := h.fresh ((nextId_le_step s e).trans hid)
    obtain ⟨harrivals, hexec⟩ := arrivals_fresh hcons hid
    exact ⟨harrivals, hexec⟩

/-- A server at the start of its event loop, with the bytes of the stream that each connection has
brought during its handshake. -/
inductive Begun : Server → (ClientId → Bytes) → Prop
  | master (replid : Bytes) : Begun (init replid) (fun _ ↦ [])
  | worker (replid host : Bytes) (port : ℤ) (clk : Clock) (peer : Peer) (s : Server)
    (htidy : Tidy peer)
    (h : (initWorker replid host port).connectToMaster clk peer host port = (s, none)) :
    Begun s (update (fun _ ↦ []) 0 (behind peer))

theorem granting_initWorker (replid host : Bytes) (port : ℤ) (peer : Peer) :
    (initWorker replid host port).granting peer = peer := by
  obtain ⟨socket, _, _, _, _⟩ := peer
  cases socket <;> rfl

theorem heeded_of_begun {early : ClientId → Bytes} (h : Begun s early) :
    Consistent s ∧ Consumed s ∧ Heeded c (early c) [] s := by
  cases h with
  | master replid =>
    exact ⟨.of_initial (.master replid), nofun, nofun, fun _ ↦ ⟨rfl, rfl⟩⟩
  | worker replid host port clk peer _ htidy h =>
    refine ⟨.of_initial (.worker replid host port clk peer s h), ?_⟩
    have hconn := connectToMaster_connected clk peer host port (initWorker replid host port)
    rw [h] at hconn
    cases hconn with
    | linked fd id n store leftover hfd hout =>
      rw [granting_initWorker] at hout
      obtain ⟨hread, hnext⟩ := connect_leftover hout htidy
      -- the link is the only connection
      have hlink (d : ClientId) (link : Client) (hd : update (fun _ ↦ none) 0
          (some { fd := fd, type := .masterConn, readBuf := leftover }) d = some link) :
          d = 0 ∧ link.readBuf = leftover := by
        by_cases hid : d = 0
        · rw [hid, update_self] at hd
          cases hd
          exact ⟨hid, rfl⟩
        · rw [update_of_ne hid] at hd
          cases hd
      refine ⟨fun d link hd ↦ .inr (.inr ?_), fun _ link hd ↦ ?_, fun hid ↦ ⟨?_, rfl⟩⟩
      · rw [(hlink d link hd).2]
        exact hnext
      · obtain ⟨rfl, hbuf⟩ := hlink c link hd
        rw [update_self, hbuf, hread]
        exact .refl ..
      · have hpos : c ≠ 0 := Nat.pos_iff_ne_zero.mp hid
        exact update_of_ne hpos ..

/-- As long as every peer is tidy, no complete command waits in any buffer when the event loop is
idle: the commands executed for a connection are all those in the bytes that it has brought. -/
theorem no_command_waits {s₀ : Server} {early : ClientId → Bytes} {es : List Event}
    (h₀ : Begun s₀ early) (hrun : Along step TurnsToTidy s₀ es)
    (hpc : (run step s₀ es).pc = .idle) (c : ClientId) (client : Client)
    (hc : (run step s₀ es).clients c = some client) :
    (Resp.parse client.readBuf).bytesConsumed = 0 ∧
      Resp.readCommands (early c ++ trace step (arrivals c) s₀ es) =
        (trace step (executed c) s₀ es, client.readBuf) := by
  have hstep (heard : Bytes) (done : List (List Bytes)) (s : Server) (e : Event)
      (hs : Consistent s ∧ Consumed s ∧ Heeded c heard done s) (he : TurnsToTidy s e) :
      Consistent (step s e) ∧ Consumed (step s e) ∧
        Heeded c (heard ++ arrivals c s e) (done ++ executed c s e) (step s e) := by
    obtain ⟨hcons, hconsumed, hheeded⟩ := hs
    refine ⟨hcons.step e, ?_, hheeded.step hcons he⟩
    by_cases hhalt : Halted (step s e).pc
    · exact fun _ _ _ ↦ .inl hhalt
    · refine hconsumed.step hcons (fun link hlink ↦ ?_)
      cases buffered_step hcons he hhalt hlink with
      | opened hnone hid hread hexec hnext => exact hnext
      | filled old hold | taken old args n hold => exact absurd (hcons.lt_nextId hold) (lt_irrefl _)
  obtain ⟨-, hconsumed, hheeded⟩ :=
    trace_invariant₂ step hstep (heeded_of_begun (c := c) h₀) hrun
  have hnext : Resp.next client.readBuf = none :=
    hconsumed.next_eq_none hc (by rw [hpc]; exact id) (by rw [hpc]; exact Pc.noConfusion)
  refine ⟨by rw [Resp.parse_eq_next, hnext], ?_⟩
  rw [Resp.readCommands_eq_drain]
  exact (hheeded.read (by rw [hpc]; exact id) client hc).drain_eq _ Resp.decode_pos hnext

def linkRun : List Event :=
  .accept 5 :: request 0 [ascii "REPLICAOF", ascii "localhost", ascii "6379"]
      { Env.quiet 0 with peer := samplePeer } ++
    [.recv 1 (Resp.encodeArray [ascii "SET", ascii "k", ascii "v"] ++ ascii "*1\r\n$4\r\nPI"),
      .process (.quiet 0), .process (.quiet 0)]

theorem linkRun_waits :
    ∃ client, (run step (init sampleId) linkRun).clients 1 = some client ∧
      (Resp.parse client.readBuf).bytesConsumed = 0 ∧
      Resp.readCommands (trace step (arrivals 1) (init sampleId) linkRun) =
        ([[ascii "SET", ascii "k", ascii "v"]], client.readBuf) := by
  have hend : (run step (init sampleId) linkRun).pc = .idle ∧
      ((run step (init sampleId) linkRun).clients 1).isSome = true ∧
      trace step (executed 1) (init sampleId) linkRun = [[ascii "SET", ascii "k", ascii "v"]] := by
    decide +kernel
  obtain ⟨hpc, hconnected, hexec⟩ := hend
  obtain ⟨client, hc⟩ := Option.isSome_iff_exists.mp hconnected
  obtain ⟨hparse, hread⟩ := no_command_waits (.master sampleId)
    (by decide +kernel : Along step TurnsToTidy (init sampleId) linkRun) hpc 1 client hc
  rw [hexec, List.nil_append] at hread
  exact ⟨client, hc, hparse, hread⟩

def seededWorker (reply : Reply) : Server :=
  (dialled [reply.bytes ++ Resp.encodeArray [ascii "SET", ascii "k", ascii "v"]]).1

theorem seededWorker_initial {reply : Reply}
    (h : (dialled [reply.bytes ++ Resp.encodeArray [ascii "SET", ascii "k", ascii "v"]]).2 = none) :
    Initial (seededWorker reply) :=
  .worker [] (ascii "localhost") 6380 (Env.quiet 0).clock
    { socket := some 6, recvs := greeting ++ [reply.bytes ++
      Resp.encodeArray [ascii "SET", ascii "k", ascii "v"]] } _ (Prod.ext rfl h)

/-- While the event loop waits for events, a command that came with a snapshot waits in the buffer
of the link, and one that came with the line of a partial resync is lost. -/
theorem seeded_command_waits :
    (Initial (seededWorker sampleReply) ∧ (seededWorker sampleReply).pc = .idle ∧
      ((seededWorker sampleReply).clients 0).map (fun client ↦ Resp.parse client.readBuf) =
        some ⟨[ascii "SET", ascii "k", ascii "v"], 27⟩ ∧
      (seededWorker sampleReply).store.find (ascii "k") = none) ∧
    Initial (seededWorker (.resumed sampleId)) ∧ (seededWorker (.resumed sampleId)).pc = .idle ∧
      ((seededWorker (.resumed sampleId)).clients 0).map (·.readBuf) = some [] ∧
      (seededWorker (.resumed sampleId)).store.find (ascii "k") = none :=
  ⟨⟨seededWorker_initial (by decide +kernel), by decide +kernel⟩,
    seededWorker_initial (by decide +kernel), by decide +kernel⟩

end RedisLite.Server
