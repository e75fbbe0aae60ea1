import RedisLite.Frame
import RedisLite.Replies

namespace RedisLite.Server

open Function

variable {s t u : Server} {c d : ClientId} {more more' : Bytes}

/-- Everything a connection has been told: what has been handed to its socket, and while it is
open what waits in its buffer. -/
def outbound (s : Server) (c : ClientId) : Bytes :=
  s.wire c ++ ((s.clients c).map (·.writeBuf)).getD []

/-- Between two states `c` has been told `more`. A connection that is closed on the way has
been sent some of it, and nothing afterwards. -/
structure Told (c : ClientId) (more : Bytes) (s t : Server) : Prop where
  open_of_open : (t.clients c).isSome = true → (s.clients c).isSome = true
  told : (t.clients c).isSome = true → t.outbound c = s.outbound c ++ more
  sent : t.outbound c <+: s.outbound c ++ more
  silent : (s.clients c).isSome = false → t.wire c = s.wire c

theorem outbound_of_closed (h : (s.clients c).isSome = false) : s.outbound c = s.wire c := by
  rw [Option.isSome_eq_false_iff, Option.isNone_iff_eq_none] at h
  rw [outbound, h]
  exact List.append_nil _

theorem outbound_congr (hc : (t.clients c).map (·.writeBuf) = (s.clients c).map (·.writeBuf))
    (hw : t.wire c = s.wire c) : t.outbound c = s.outbound c := by
  rw [outbound, outbound, hc, hw]

theorem outbound_newClient {client : Client} (hs : (s.clients c).isSome = false)
    (hc : t.clients c = some client) (hb : client.writeBuf = []) (hw : t.wire c = s.wire c) :
    t.outbound c = s.outbound c := by
  rw [outbound_of_closed hs, outbound, hc, hw, Option.map_some, hb]
  exact List.append_nil _

theorem mapClient_writeBuf (d : ClientId) (f : Client → Client)
    (hf : ∀ client, (f client).writeBuf = client.writeBuf) (s : Server) (c : ClientId) :
    ((s.mapClient d f).clients c).map (·.writeBuf) = (s.clients c).map (·.writeBuf) := by
  by_cases h : c = d
  · subst h
    simp only [mapClient, update_self, Option.map_map]
    congr 1
    exact funext hf
  · simp only [mapClient, update_of_ne h]

theorem eraseRead_writeBuf (d : ClientId) (n : ℕ) (s : Server) (c : ClientId) :
    ((s.eraseRead d n).clients c).map (·.writeBuf) = (s.clients c).map (·.writeBuf) ∧
      (s.eraseRead d n).wire c = s.wire c := by
  unfold eraseRead
  split
  · exact ⟨rfl, rfl⟩
  · split
    · exact ⟨rfl, rfl⟩
    · exact ⟨mapClient_writeBuf d (fun client ↦ { client with readBuf := client.readBuf.drop n })
        (fun _ ↦ rfl) s c, rfl⟩

namespace Told

theorem of_eq (hc : (t.clients c).map (·.writeBuf) = (s.clients c).map (·.writeBuf))
    (hw : t.wire c = s.wire c) : Told c [] s t where
  open_of_open h := by
    have hsome := congrArg Option.isSome hc
    rw [Option.isSome_map, Option.isSome_map] at hsome
    rw [← hsome]
    exact h
  told _ := by rw [outbound_congr hc hw, List.append_nil]
  sent := by rw [outbound_congr hc hw, List.append_nil]
  silent _ := hw

theorem refl (c : ClientId) (s : Server) : Told c [] s s := of_eq rfl rfl

theorem trans (h : Told c more s t) (h' : Told c more' t u) : Told c (more ++ more') s u where
  open_of_open hu := h.open_of_open (h'.open_of_open hu)
  told hu := by rw [h'.told hu, h.told (h'.open_of_open hu), List.append_assoc]
  sent := by
    by_cases ht : (t.clients c).isSome = true
    · have hsent := h'.sent
      rw [h.told ht, List.append_assoc] at hsent
      exact hsent
    · rw [Bool.not_eq_true] at ht
      have hclosed : (u.clients c).isSome = false := by
        rw [← Bool.not_eq_true]
        intro hu
        rw [h'.open_of_open hu] at ht
        cases ht
      have hsent := h.sent
      rw [outbound_of_closed ht] at hsent
      rw [outbound_of_closed hclosed, h'.silent ht, ← List.append_assoc]
      exact hsent.trans (List.prefix_append _ _)
  silent hs := by
    have ht : (t.clients c).isSome = false := by
      rw [← Bool.not_eq_true]
      intro ht
      rw [h.open_of_open ht] at hs
      cases hs
    rw [h'.silent ht, h.silent hs]

theorem trans_nil (h : Told c more s t) (h' : Told c [] t u) : Told c more s u := by
  have := h.trans h'
  rwa [List.append_nil] at this

theorem nil_trans (h : Told c [] s t) (h' : Told c more t u) : Told c more s u := h.trans h'

theorem appendReply (c d : ClientId) (response : Bytes) (s : Server) :
    Told c (if c = d then response else []) s (s.appendReply d response) := by
  by_cases h : c = d
  · subst h
    rw [if_pos rfl]
    cases hc : s.clients c with
    | none =>
      have hnone : (s.appendReply c response).clients c = none := by
        simp [Server.appendReply, mapClient, hc]
      refine ⟨fun h ↦ ?_, fun h ↦ ?_, ?_, fun _ ↦ rfl⟩
      · rw [hnone] at h
        cases h
      · rw [hnone] at h
        cases h
      · have hsame : (s.appendReply c response).outbound c = s.outbound c :=
          outbound_congr (by rw [hnone, hc]) rfl
        rw [hsame]
        exact List.prefix_append _ _
    | some client =>
      have hsome : (s.appendReply c response).clients c =
          some { client with writeBuf := client.writeBuf ++ response } := by
        simp [Server.appendReply, mapClient, hc]
      have hout : (s.appendReply c response).outbound c = s.outbound c ++ response := by
        rw [outbound, outbound, hsome, hc, List.append_assoc]
        rfl
      exact ⟨fun _ ↦ by rw [hc]; rfl, fun _ ↦ hout, by rw [hout], fun _ ↦ rfl⟩
  · rw [if_neg h]
    exact of_eq (by simp only [Server.appendReply, mapClient, update_of_ne h]) rfl

theorem removeClient (c d : ClientId) (s : Server) : Told c [] s (s.removeClient d) := by
  unfold Server.removeClient
  split
  · exact refl c s
  · next client hd =>
    by_cases h : c = d
    · subst h
      have hnone : (update s.clients c none) c = none := update_self ..
      refine ⟨fun h ↦ ?_, fun h ↦ ?_, ?_, fun _ ↦ rfl⟩
      · change ((update s.clients c none) c).isSome = true at h
        rw [hnone] at h
        cases h
      · change ((update s.clients c none) c).isSome = true at h
        rw [hnone] at h
        cases h
      · rw [outbound_of_closed (by change ((update s.clients c none) c).isSome = _; rw [hnone]; rfl),
          List.append_nil]
        exact List.prefix_append _ _
    · exact of_eq (congrArg (Option.map _) (update_of_ne h ..)) rfl

theorem deliver {client : Client} {sent kept : Bytes} (hc : s.clients d = some client)
    (hsplit : sent ++ kept = client.writeBuf) (c : ClientId) (sends : List SendResult) :
    Told c [] s (s.deliver d sent kept sends) := by
  by_cases h : c = d
  · subst h
    have hsome : (s.deliver c sent kept sends).clients c = some { client with writeBuf := kept } := by
      simp [Server.deliver, mapClient, hc]
    have hout : (s.deliver c sent kept sends).outbound c = s.outbound c := by
      rw [outbound, outbound, hsome, hc]
      simp only [Server.deliver, update_self, Option.map_some, Option.getD_some, List.append_assoc,
        hsplit]
    refine ⟨fun _ ↦ by rw [hc]; rfl, fun _ ↦ by rw [hout, List.append_nil],
      by rw [hout, List.append_nil], fun hnone ↦ ?_⟩
    rw [hc] at hnone
    cases hnone
  · exact of_eq (by simp only [Server.deliver, mapClient, update_of_ne h])
      (update_of_ne h ..)

theorem trySend (c d : ClientId) (s : Server) : Told c [] s (s.trySend d) := by
  unfold Server.trySend
  split
  · exact of_eq rfl rfl
  · next client hd =>
    have hsend := deliver hd (sendLoop_spec s.sends client.writeBuf).1 c
      (sendLoop s.sends client.writeBuf).2.2.1
    dsimp only
    split
    · exact hsend.nil_trans (removeClient c d _)
    · exact hsend

theorem reply (c d : ClientId) (response : Bytes) (s : Server) :
    Told c (if c = d then response else []) s (s.reply d response) :=
  (appendReply c d response s).trans_nil (trySend c d _)

theorem replyWait (c d : ClientId) (count : ℕ) (target : ℤ) (s : Server) :
    Told c (if c = d then integerReply count else []) s (s.replyWait d count target) :=
  (of_eq rfl rfl : Told c [] s { s with waitReplies := s.waitReplies ++ [⟨d, count, target⟩] }
    ).nil_trans (reply c d _ _)

theorem mapClient (c d : ClientId) (f : Client → Client) (hf : ∀ client, (f client).writeBuf =
    client.writeBuf) (s : Server) : Told c [] s (s.mapClient d f) :=
  of_eq (mapClient_writeBuf d f hf s c) rfl

theorem eraseRead (c d : ClientId) (n : ℕ) (s : Server) : Told c [] s (s.eraseRead d n) :=
  of_eq (eraseRead_writeBuf d n s c).1 (eraseRead_writeBuf d n s c).2

end Told

def waitBytes (c : ClientId) (replies : List WaitReply) : Bytes :=
  (replies.filter (·.client = c)).flatMap (fun reply ↦ integerReply reply.count)

theorem waitBytes_append (c : ClientId) (replies replies' : List WaitReply) :
    waitBytes c (replies ++ replies') = waitBytes c replies ++ waitBytes c replies' := by
  rw [waitBytes, List.filter_append, List.flatMap_append]
  rfl

theorem waitBytes_singleton (c d : ClientId) (count : ℕ) (target : ℤ) :
    waitBytes c [⟨d, count, target⟩] = if c = d then integerReply count else [] := by
  by_cases h : c = d
  · simp [waitBytes, h]
  · simp [waitBytes, h, Ne.symm h]

/-- Everything that is said between two states with the same connections, apart from those that
are closed: the integers in reply to `WAIT`s, as they are recorded, and behind them what each
connection is told of its own. -/
structure Says (replies : List WaitReply) (own : ClientId → Bytes) (s t : Server) : Prop where
  recorded : t.waitReplies = s.waitReplies ++ replies
  told : ∀ c, Told c (waitBytes c replies ++ own c) s t
  ids : t.nextId = s.nextId

/-- The same between two states where a link to a master may have been added. A connection that
is new has been told nothing. -/
structure Heard (replies : List WaitReply) (own : ClientId → Bytes) (s t : Server) : Prop where
  recorded : t.waitReplies = s.waitReplies ++ replies
  told : ∀ c, c < s.nextId → Told c (waitBytes c replies ++ own c) s t
  fresh : ∀ c, s.nextId ≤ c → s.clients c = none → t.outbound c = s.outbound c

def nothing : ClientId → Bytes := fun _ ↦ []

def only (d : ClientId) (response : Bytes) : ClientId → Bytes :=
  fun c ↦ if c = d then response else []

theorem only_nil (d : ClientId) : only d [] = nothing := funext (fun _ ↦ ite_self _)

namespace Says

variable {replies replies' : List WaitReply} {own : ClientId → Bytes}

theorem of_told (h : ∀ c, Told c (own c) s t) (hr : t.waitReplies = s.waitReplies)
    (hn : t.nextId = s.nextId) : Says [] own s t where
  recorded := by rw [hr, List.append_nil]
  told := h
  ids := hn

theorem of_eq (hc : t.clients = s.clients) (hw : t.wire = s.wire)
    (hr : t.waitReplies = s.waitReplies) (hn : t.nextId = s.nextId) : Says [] nothing s t :=
  of_told (fun c ↦ .of_eq (by rw [hc]) (by rw [hw])) hr hn

theorem refl (s : Server) : Says [] nothing s s := of_eq rfl rfl rfl rfl

theorem trans (h : Says replies nothing s t) (h' : Says replies' own t u) :
    Says (replies ++ replies') own s u where
  recorded := by rw [h'.recorded, h.recorded, List.append_assoc]
  told c := by
    have hboth := (h.told c).trans (h'.told c)
    simpa only [nothing, List.append_nil, waitBytes_append, List.append_assoc] using hboth
  ids := h'.ids.trans h.ids

theorem nil_trans (h : Says [] nothing s t) (h' : Says replies own t u) : Says replies own s u :=
  h.trans h'

theorem trans_nil (h : Says replies own s t) (h' : Says [] nothing t u) : Says replies own s u where
  recorded := by rw [h'.recorded, h.recorded, List.append_nil]
  told c := (h.told c).trans_nil (h'.told c)
  ids := h'.ids.trans h.ids

theorem appendReply (d : ClientId) (response : Bytes) (s : Server) :
    Says [] (only d response) s (s.appendReply d response) :=
  of_told (fun c ↦ .appendReply c d response s) rfl rfl

theorem mapClient (d : ClientId) (f : Client → Client)
    (hf : ∀ client, (f client).writeBuf = client.writeBuf) (s : Server) :
    Says [] nothing s (s.mapClient d f) := of_told (fun c ↦ .mapClient c d f hf s) rfl rfl

theorem removeClient (d : ClientId) (s : Server) : Says [] nothing s (s.removeClient d) := by
  refine of_told (fun c ↦ .removeClient c d s) ?_ ?_
  · unfold Server.removeClient
    split <;> rfl
  · unfold Server.removeClient
    split <;> rfl

theorem trySend (d : ClientId) (s : Server) : Says [] nothing s (s.trySend d) := by
  have hrest : (s.trySend d).waitReplies = s.waitReplies ∧ (s.trySend d).nextId = s.nextId := by
    unfold Server.trySend
    split
    · exact ⟨rfl, rfl⟩
    · dsimp only
      split
      · unfold Server.removeClient
        split <;> exact ⟨rfl, rfl⟩
      · exact ⟨rfl, rfl⟩
  exact of_told (fun c ↦ .trySend c d s) hrest.1 hrest.2

theorem reply (d : ClientId) (response : Bytes) (s : Server) :
    Says [] (only d response) s (s.reply d response) :=
  (appendReply d response s).trans_nil (trySend d _)

theorem replyWait (d : ClientId) (count : ℕ) (target : ℤ) (s : Server) :
    Says [⟨d, count, target⟩] nothing s (s.replyWait d count target) := by
  have hreply := reply d (integerReply count)
    { s with waitReplies := s.waitReplies ++ [⟨d, count, target⟩] }
  refine ⟨?_, fun c ↦ ?_, hreply.ids⟩
  · have hrecorded := hreply.recorded
    rw [List.append_nil] at hrecorded
    exact hrecorded
  · rw [waitBytes_singleton, nothing, List.append_nil]
    exact Told.replyWait c d count target s

theorem eraseRead (d : ClientId) (n : ℕ) (s : Server) : Says [] nothing s (s.eraseRead d n) := by
  refine of_told (fun c ↦ .eraseRead c d n s) ?_ ?_
  · unfold Server.eraseRead
    split
    · rfl
    · split <;> rfl
  · unfold Server.eraseRead
    split
    · rfl
    · split <;> rfl

theorem propagate (data : Bytes) (s : Server) : Says [] nothing s (s.propagateToReplicas data) := by
  unfold propagateToReplicas
  split
  · exact refl s
  · exact of_eq rfl rfl rfl rfl

theorem removeMaster (s : Server) : Says [] nothing s s.removeMaster := by
  unfold Server.removeMaster
  split
  · exact refl s
  · next m _ => exact (removeClient m s).trans_nil (of_eq rfl rfl rfl rfl)

theorem disconnect (ds : List ClientId) (s : Server) :
    Says [] nothing s (ds.foldl (fun s d ↦ s.removeClient d) s) := by
  induction ds generalizing s with
  | nil => exact refl s
  | cons d ds ih => exact (removeClient d s).nil_trans (ih _)

/-- The loop over the parked waits says one integer for each reply it records, whatever
becomes of the sends. -/
theorem settleWaits (due : WaitState → ℕ → Bool) (kept waits : List WaitState) (s : Server) :
    ∃ replies, Says replies nothing s (settleWaits due kept waits s) := by
  induction waits generalizing kept s with
  | nil => exact ⟨[], of_eq rfl rfl rfl rfl⟩
  | cons wait waits ih =>
    unfold Server.settleWaits
    dsimp only
    split
    · have hreply := replyWait wait.client (s.countCaughtUpReplicas wait.targetOffset)
        wait.targetOffset s
      split
      · exact ⟨_, hreply.trans_nil (of_eq rfl rfl rfl rfl)⟩
      · obtain ⟨replies, hrest⟩ := ih kept (s.replyWait wait.client
          (s.countCaughtUpReplicas wait.targetOffset) wait.targetOffset)
        exact ⟨_, hreply.trans hrest⟩
    · exact ih (kept ++ [wait]) s

theorem leaveMasterRole (s : Server) : ∃ replies, Says replies nothing s s.leaveMasterRole := by
  unfold Server.leaveMasterRole
  split
  · obtain ⟨replies, hsettle⟩ := settleWaits (fun _ _ ↦ true) [] s.pendingWaits s
    exact ⟨replies, hsettle.trans_nil ((disconnect _ _).trans_nil (of_eq rfl rfl rfl rfl))⟩
  · exact ⟨[], refl s⟩

/-- A demotion answers the parked waits first, and then the client that asked for it. -/
theorem demote (hleave : Says replies nothing s s.leaveMasterRole) (d : ClientId) (host : Bytes)
    (port : ℤ) : Says replies (only d (ascii "+OK\r\n")) s (s.demote d host port) := by
  have hworker : Says [] nothing s.leaveMasterRole.removeMaster
      (s.leaveMasterRole.removeMaster.becomeWorker host port) := of_eq rfl rfl rfl rfl
  have hrest := (removeMaster s.leaveMasterRole).nil_trans
    (hworker.nil_trans (reply d (ascii "+OK\r\n") _))
  have hboth := hleave.trans hrest
  rwa [List.append_nil] at hboth

theorem noOne (replid : Bytes) (d : ClientId) (s : Server) :
    Says [] (only d (ascii "+OK\r\n")) s (s.handleReplicaofNoOne replid d) := by
  unfold handleReplicaofNoOne
  split
  · exact reply d _ s
  · have hpromote : Says [] nothing s.removeMaster (s.removeMaster.promote replid) :=
      of_eq rfl rfl rfl rfl
    exact (removeMaster s).nil_trans (hpromote.nil_trans (reply d _ _))

theorem closed_of_closed (h : Says replies own s t) (hs : (s.clients c).isSome = false) :
    (t.clients c).isSome = false := by
  rw [← Bool.not_eq_true]
  intro hopen
  rw [(h.told c).open_of_open hopen] at hs
  cases hs

theorem heard (h : Says replies own s t) : Heard replies own s t where
  recorded := h.recorded
  told c _ := h.told c
  fresh c _ hnone := by
    have hs : (s.clients c).isSome = false := by rw [hnone]; rfl
    rw [outbound_of_closed (h.closed_of_closed hs), outbound_of_closed hs, (h.told c).silent hs]

theorem nil_heard (h : Says [] nothing s t) (h' : Heard replies own t u) : Heard replies own s u where
  recorded := by rw [h'.recorded, h.recorded, List.append_nil]
  told c hc := (h.told c).nil_trans (h'.told c (h.ids.symm ▸ hc))
  fresh c hle hnone := by
    have hclosed := h.closed_of_closed (c := c) (by rw [hnone]; rfl)
    rw [Option.isSome_eq_false_iff, Option.isNone_iff_eq_none] at hclosed
    rw [h'.fresh c (h.ids.symm ▸ hle) hclosed, h.heard.fresh c hle hnone]

theorem connectToMaster (h : Says replies own s t) (clk : Clock) (peer : Handshake.Peer)
    (host : Bytes) (port : ℤ) : Heard replies own s (t.connectToMaster clk peer host port).1 := by
  have hcon := connectToMaster_connected clk peer host port t
  generalize t.connectToMaster clk peer host port = out at hcon ⊢
  cases hcon with
  | failed id n store failure =>
    have hsame : Says [] nothing t { t with
        replInfo := (t.data.handshake id n store).replInfo, store := store } := of_eq rfl rfl rfl rfl
    exact (h.trans_nil hsame).heard
  | linked fd id n store leftover hfd =>
    refine ⟨h.recorded, fun c hc ↦ (h.told c).trans_nil (.of_eq ?_ rfl), fun c hc hnone ↦ ?_⟩
    · rw [← h.ids] at hc
      exact congrArg (Option.map _) (update_of_ne hc.ne ..)
    · rw [← h.heard.fresh c hc hnone]
      by_cases hnew : c = t.nextId
      · subst hnew
        have hclosed := h.closed_of_closed (c := t.nextId) (by rw [hnone]; rfl)
        exact outbound_newClient hclosed (update_self ..) rfl rfl
      · exact outbound_congr (congrArg (Option.map _) (update_of_ne hnew ..)) rfl

end Says

namespace Heard

variable {replies : List WaitReply} {own : ClientId → Bytes} {host : Bytes} {port : ℤ}

theorem congr (h : Heard replies own s t) (hc : u.clients = t.clients) (hw : u.wire = t.wire)
    (hr : u.waitReplies = t.waitReplies) : Heard replies own s u where
  recorded := by rw [hr, h.recorded]
  told c hlt := (h.told c hlt).trans_nil (.of_eq (by rw [hc]) (by rw [hw]))
  fresh c hle hnone := by
    rw [← h.fresh c hle hnone]
    exact outbound_congr (by rw [hc]) (by rw [hw])

theorem eraseRead (h : Heard replies own s t) (d : ClientId) (n : ℕ) :
    Heard replies own s (t.eraseRead d n) where
  recorded := by rw [(Says.eraseRead d n t).recorded, List.append_nil, h.recorded]
  told c hlt := (h.told c hlt).trans_nil (.eraseRead c d n t)
  fresh c hle hnone := by
    rw [← h.fresh c hle hnone]
    exact outbound_congr (eraseRead_writeBuf d n t c).1 (eraseRead_writeBuf d n t c).2

theorem setMaster (hne : s.replicaof ≠ some (host, port))
    (hleave : Says replies nothing s s.leaveMasterRole) (clk : Clock) (peer : Handshake.Peer)
    (d : ClientId) : Heard replies (only d (ascii "+OK\r\n")) s
      (s.handleReplicaofSetMaster clk peer d host port) := by
  have hconnect := (hleave.demote d host port).connectToMaster clk peer host port
  have h := handleReplicaofSetMaster_masterSet clk peer d host port s
  generalize s.handleReplicaofSetMaster clk peer d host port = t at h ⊢
  cases h with
  | already h => exact absurd h hne
  | linked hne t h =>
    rw [h] at hconnect
    exact hconnect
  | reverted hne t what h =>
    rw [h] at hconnect
    exact hconnect.congr rfl rfl rfl
  | terminated hne t h =>
    rw [h] at hconnect
    exact hconnect.congr rfl rfl rfl

end Heard

def replicaofAnswer (args : List Bytes) (s : Server) : Bytes :=
  match args with
  | _ :: host :: port :: _ =>
    if toUpper host == ascii "NO" && toUpper port == ascii "ONE" then ascii "+OK\r\n"
    else
      match stoi port with
      | .error _ => ascii "-ERR Invalid master port\r\n"
      | .ok n =>
        if s.replicaof = some (host, n) then
          ascii "+OK Already connected to specified master\r\n"
        else ascii "+OK\r\n"
  | _ => []

/-- The reply to `WAIT`, once the command layer has let it pass; none while it is parked. -/
def waitAnswer (args : List Bytes) (s : Server) : Option Bytes :=
  match s.waitVerdict args with
  | .replied count => some (integerReply count)
  | .refused response => some response
  | .ignored => some []
  | .parked .. => none

/-- The one reply to a regular client's command, unless it is a `WAIT` that is parked. -/
def answer (env : Env) (args : List Bytes) (s : Server) : Option Bytes :=
  let response := (Command.execute env.clock.steady args s.store s.replInfo false).1
  if commandName args == ascii "WAIT" && response.isEmpty then s.waitAnswer args
  else if commandName args == ascii "REPLICAOF" && response.isEmpty then
    some (s.replicaofAnswer args)
  else some response

def redirects (args : List Bytes) (s : Server) : Bool :=
  (replicaofTarget args).any (fun target ↦ s.replicaof != some target)

/-- What is said in answer to `REPLICAOF`, where `replies` are those of a master that steps
down. -/
theorem Heard.handleReplicaof {replies : List WaitReply}
    (hleave : Says replies nothing s s.leaveMasterRole) (env : Env) (d : ClientId)
    (args : List Bytes) : Heard (if s.redirects args then replies else [])
      (only d (s.replicaofAnswer args)) s (s.handleReplicaof env d args) := by
  have hsilent : Heard [] (only d []) s s := by
    rw [only_nil]
    exact (Says.refl s).heard
  rcases args with _ | ⟨name, _ | ⟨host, _ | ⟨port, rest⟩⟩⟩
  case cons.cons.cons =>
    simp only [Server.handleReplicaof, replicaofAnswer, redirects, replicaofTarget]
    by_cases hno : (toUpper host == ascii "NO" && toUpper port == ascii "ONE") = true
    · simp only [if_pos hno]
      exact (Says.noOne env.replid d s).heard
    · simp only [if_neg hno]
      cases stoi port with
      | error _ => exact (Says.reply d _ s).heard
      | ok n =>
        by_cases halready : s.replicaof = some (host, n)
        · simp only [Option.any_some, halready, bne_self_eq_false, Bool.false_eq_true, if_false,
            if_true, handleReplicaofSetMaster]
          exact (Says.reply d _ s).heard
        · simp only [Option.any_some, bne_iff_ne, ne_eq, halready, not_false_eq_true, if_true,
            if_false]
          exact setMaster halready hleave env.clock env.peer d
  all_goals exact hsilent

end RedisLite.Server
