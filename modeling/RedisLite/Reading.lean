import RedisLite.Attachment
import RedisLite.Outbound
import RedisLite.Expiry

namespace RedisLite

open Lib.Run

def Command.Effect.calls (now : TimePoint) : Command.Effect → List Store.Call
  | .keep => []
  | .set key value px => [.set now key value px]
  | .del keys => keys.map .del

theorem Command.Effect.run_calls (now : TimePoint) (store : Store) (eff : Command.Effect) :
    run Store.apply store (eff.calls now) = eff.apply now store := by
  cases eff with
  | keep => rfl
  | set => rfl
  | del keys =>
    change run Store.apply store (keys.map .del) = (Command.delLoop keys store).2
    induction keys generalizing store with
    | nil => rfl
    | cons key keys ih => exact ih (store.del key).2

theorem Command.execute_get {name : Bytes} (hname : toUpper name = ascii "GET") (now : TimePoint)
    (key : Bytes) (rest : List Bytes) (store : Store) (info : ReplicationInfo)
    (fromMaster : Bool) :
    (Command.execute now (name :: key :: rest) store info fromMaster).1 =
      (store.get now key).elim Resp.encodeNullBulkString Resp.encodeBulkString := by
  have hwrite : Command.isWriteCommand (ascii "GET") = false := by decide
  rw [Command.execute, hname, hwrite, Bool.and_false, if_neg (by decide), if_neg (by decide),
    if_neg (by decide), if_neg (by decide), if_neg (by decide), if_neg (by decide),
    if_pos (by decide), Command.executeGet]
  cases store.get now key with
  | none => rfl
  | some value => rfl

namespace Server

variable {s : Server} {e : Event} {env : Env} {c : ClientId} {client : Client} {args : List Bytes}
  {n : ℕ}

/-- The calls of the store that a step makes. A worker does not execute the write commands of its
clients, and only a master sweeps. -/
def storeCalls (s : Server) (e : Event) : List Store.Call :=
  match e with
  | .process env =>
    match s.taking (.process env) with
    | some tk =>
      if !(tk.client.type == .masterConn) && s.replInfo.role == .worker then []
      else (Command.effect tk.args).calls env.clock.steady
    | none => []
  | .sweep now => if s.pc = .idle ∧ s.replInfo.role = .master then [.evictExpired now] else []
  | .rehash items => [.rehash items]
  | _ => []

theorem store_process (hc : Receives s c client args n)
    (hn : client.type = .regular → commandName args ≠ ascii "REPLICAOF") :
    (step s (.process env)).store = (Command.execute env.clock.steady args s.store s.replInfo
      (client.type == .masterConn)).2 := by
  have hdata : (step s (.process env)).data.store = (Command.execute env.clock.steady args s.store
      s.replInfo (client.type == .masterConn)).2 := by
    rw [hc.step_eq env, data_eraseRead]
    unfold runCommand dispatch
    dsimp only
    split
    · rw [data_handleMasterRead]
      rfl
    · rw [data_handleReplicaRead]
      rfl
    · next ht =>
      have h := handleRegular_handled env c args (Command.execute env.clock.steady args s.store
        s.replInfo (client.type == .masterConn)).1 { s with
          sends := env.sends
          store := (Command.execute env.clock.steady args s.store s.replInfo
            (client.type == .masterConn)).2 }
      generalize handleRegular env c args _ _ = t at h ⊢
      cases h with
      | write hw =>
        rw [data_trackWrite, data_appendReply]
        rfl
      | wait hw =>
        rw [data_handleWait]
        rfl
      | psync hw =>
        rw [data_handlePsync]
        rfl
      | plain hw =>
        rw [data_appendReply]
        rfl
      | replicaof hw hname => exact absurd hname (hn ht)
  exact hdata

theorem store_taking {tk : Taking} (htk : s.taking e = some tk) (h : Undisturbed s e) :
    (step s e).store = run Store.apply s.store (storeCalls s e) := by
  obtain ⟨rfl, hc⟩ := receives_of_taking htk
  rw [store_process hc (h tk htk), Command.execute_store, storeCalls, htk]
  dsimp only
  split
  · rfl
  · exact (Command.Effect.run_calls _ _ _).symm

theorem store_kept (htk : s.taking e = none) (hsweep : ∀ now, e ≠ .sweep now)
    (hrehash : ∀ items, e ≠ .rehash items) : (step s e).store = s.store := by
  have hdata := step_dataStep s e
  change (step s e).data.store = s.store
  generalize (step s e).data = d, written s e = cmds at hdata ⊢
  have htaken {env : Env} {c : ClientId} {client : Client} {args : List Bytes} {n : ℕ}
      (hc : Receives s c client args n) : s.taking (.process env) ≠ none := by
    rw [hc.taking_eq env]
    exact Option.some_ne_none _
  have hdemoted {env : Env} {c : ClientId} {host : Bytes} {port : ℤ}
      (hd : Demotes s c host port) : s.taking (.process env) ≠ none := by
    obtain ⟨client, args, n, hc, -⟩ := hd.receives
    exact htaken hc
  cases hdata with
  | same => rfl
  | sweepNext => rfl
  | rehash items => exact absurd rfl (hrehash items)
  | sweep now => exact absurd rfl (hsweep now)
  | link env c client args n hc => exact absurd htk (htaken hc)
  | replica env c client args n hc => exact absurd htk (htaken hc)
  | write env c client args n hc => exact absurd htk (htaken hc)
  | promote env c client args n hc => exact absurd htk (htaken hc)
  | linked env c host port hd => exact absurd htk (hdemoted hd)
  | reverted env c host port hd => exact absurd htk (hdemoted hd)
  | terminated env c host port hd => exact absurd htk (hdemoted hd)

theorem store_sweep (now : TimePoint) (s : Server) :
    (step s (.sweep now)).store = run Store.apply s.store (storeCalls s (.sweep now)) := by
  unfold step storeCalls
  cases hpc : s.pc with
  | idle =>
    by_cases hrole : s.replInfo.role = .master
    · simp only [startSweep, hrole, and_self, if_true]
      rfl
    · simp only [startSweep, hrole, and_false, if_false]
      rfl
  | _ => rfl

theorem store_step (h : Undisturbed s e) :
    (step s e).store = run Store.apply s.store (storeCalls s e) := by
  cases htk : s.taking e with
  | some tk => exact store_taking htk h
  | none =>
    cases e with
    | sweep now => exact store_sweep now s
    | rehash items => rfl
    | process env =>
      rw [storeCalls, htk]
      exact store_kept htk (fun _ h ↦ by cases h) (fun _ h ↦ by cases h)
    | _ => exact store_kept htk (fun _ h ↦ by cases h) (fun _ h ↦ by cases h)

theorem handleRegular_get (hget : commandName args = ascii "GET") (env : Env) (c : ClientId)
    (response : Bytes) (s : Server) :
    handleRegular env c args response s = s.appendReply c response := by
  have h := handleRegular_handled env c args response s
  generalize handleRegular env c args response s = t at h ⊢
  have hne {word : Bytes} (hword : ascii "GET" ≠ word) : commandName args ≠ word := by
    rwa [hget]
  cases h with
  | write hw =>
    rcases commandName_of_write hw with hn | hn
    · exact absurd hn (hne (by decide))
    · exact absurd hn (hne (by decide))
  | wait _ hn => exact absurd hn (hne (by decide))
  | replicaof _ hn => exact absurd hn (hne (by decide))
  | psync _ hn => exact absurd hn (hne (by decide))
  | plain => rfl

theorem outbound_get {name key : Bytes} {rest : List Bytes} (hname : toUpper name = ascii "GET")
    (hc : Receives s c client (name :: key :: rest) n) (ht : client.type = .regular) (env : Env) :
    ((step s (.process env)).clients c).isSome = true ∧
    (step s (.process env)).outbound c = s.outbound c ++
      (s.store.get env.clock.steady key).elim Resp.encodeNullBulkString Resp.encodeBulkString := by
  have hget : commandName (name :: key :: rest) = ascii "GET" := hname
  rw [hc.step_eq env, runCommand_regular env c _ n ht, handleRegular_get hget,
    Command.execute_get hname]
  generalize (Command.execute env.clock.steady (name :: key :: rest) s.store s.replInfo false).2 =
    store
  generalize (s.store.get env.clock.steady key).elim Resp.encodeNullBulkString
    Resp.encodeBulkString = reply
  obtain ⟨hbuf, hwire⟩ := eraseRead_writeBuf c n
    (appendReply c reply { s with sends := env.sends, store := store }) c
  have happend : (appendReply c reply { s with sends := env.sends, store := store }).clients c =
      some { client with writeBuf := client.writeBuf ++ reply } := by
    simp [appendReply, mapClient, hc.connected]
  constructor
  · rw [← Option.isSome_map, hbuf, happend]
    rfl
  · rw [outbound_congr hbuf hwire, outbound, outbound, happend, hc.connected, List.append_assoc]
    rfl

/-- A read returns the last write: in every run of a server that is not told to follow another
master, whatever its clients, its sweeps, its replicas and its writer thread do in between, a `GET`
of a regular client puts what the last command that wrote the key has left there, unless that is
past, behind everything the client has been told. -/
theorem get_returns_last_write {replid name key : Bytes} {rest : List Bytes} {es : List Event}
    (hrun : Along step Undisturbed (init replid) es)
    (hordered : Store.Ordered (trace step storeCalls (init replid) es))
    (hfits : ∀ call ∈ trace step storeCalls (init replid) es, call.Fits)
    (hlatest : ∀ t ∈ (trace step storeCalls (init replid) es).filterMap Store.Call.time,
      t ≤ env.clock.steady)
    (hname : toUpper name = ascii "GET")
    (hc : Receives (run step (init replid) es) c client (name :: key :: rest) n)
    (ht : client.type = .regular) :
    ((step (run step (init replid) es) (.process env)).clients c).isSome = true ∧
    (step (run step (init replid) es) (.process env)).outbound c =
      (run step (init replid) es).outbound c ++ (Store.expected
        (trace step storeCalls (init replid) es) env.clock.steady key).elim
          Resp.encodeNullBulkString Resp.encodeBulkString := by
  have hstore : (run step (init replid) es).store =
      run Store.apply Store.empty (trace step storeCalls (init replid) es) :=
    run_trace step (fun _ _ h ↦ store_step h) hrun
  rw [← Store.get_expected hordered hfits hlatest, ← hstore]
  exact outbound_get hname hc ht env

def rewriteRun : List Event :=
  [.accept 5] ++ request 0 [ascii "SET", ascii "k", ascii "old"] (.quiet 0) ++
    [.sweep 100, .sweepNext] ++
    request 0 [ascii "SET", ascii "k", ascii "new", ascii "PX", ascii "1"] (.quiet 200) ++
    [.recv 0 (Resp.encodeArray [ascii "get", ascii "k"])]

theorem get_returns_last_write_of_rewrite :
    (step (run step (init sampleId) rewriteRun) (.process (.quiet 300))).outbound 0 =
      (run step (init sampleId) rewriteRun).outbound 0 ++ ascii "$3\r\nnew\r\n" := by
  have heval : Along step (fun s e ↦ ∀ tk ∈ s.taking e, tk.client.type = .regular →
        commandName tk.args ≠ ascii "REPLICAOF") (init sampleId) rewriteRun ∧
      Store.Ordered (trace step storeCalls (init sampleId) rewriteRun) ∧
      (∀ call ∈ trace step storeCalls (init sampleId) rewriteRun, call.Fits) ∧
      ((trace step storeCalls (init sampleId) rewriteRun).filterMap Store.Call.time).all
        (fun t ↦ decide (t ≤ (Env.quiet 300).clock.steady)) = true ∧
      ((run step (init sampleId) rewriteRun).taking (.process (.quiet 300))).map
        (fun tk ↦ (tk.c, tk.args, tk.client.type)) =
          some (0, [ascii "get", ascii "k"], .regular) ∧
      Store.expected (trace step storeCalls (init sampleId) rewriteRun)
        (Env.quiet 300).clock.steady (ascii "k") = some (ascii "new") := by
    decide +kernel
  obtain ⟨hrun, hordered, hfits, hlatest, htk, hexpected⟩ := heval
  have hlatest := fun t ht ↦ of_decide_eq_true (List.all_eq_true.mp hlatest t ht)
  obtain ⟨tk, htk, hargs⟩ := Option.map_eq_some_iff.mp htk
  obtain ⟨-, hc⟩ := receives_of_taking htk
  obtain ⟨hclient, hargs, ht⟩ := by simpa only [Prod.mk.injEq] using hargs
  rw [hclient, hargs] at hc
  rw [(get_returns_last_write hrun hordered hfits hlatest (by decide) hc ht).2, hexpected]
  rfl

end Server

end RedisLite
