import RedisLite.Demotion

namespace RedisLite

open Lib.Run
open scoped List

structure Config where
  port : ℤ := 6379
  replicaof : Option (Bytes × ℤ) := none

/-- A port as both options read it, with the words that begin their two messages. -/
def readPort (invalid outOfRange : String) (word : Bytes) : Except Bytes ℤ :=
  match stoi word with
  | .error _ => .error (ascii invalid ++ word)
  | .ok port =>
    if port < 1 || port > 65535 then .error (ascii outOfRange ++ toStr port) else .ok port

def listenPort : Bytes → Except Bytes ℤ :=
  readPort "invalid port value: " "port out of range (1-65535): "

def masterPort : Bytes → Except Bytes ℤ :=
  readPort "invalid master port: " "master port out of range (1-65535): "

/-- The loop of `parse_config` over the words that are left. A word that is no option is passed
over. -/
def parseLoop (config : Config) : List Bytes → Except Bytes Config
  | [] => .ok config
  | arg :: rest =>
    if arg = ascii "--port" then
      match rest with
      | [] => .error (ascii "--port requires a value")
      | word :: rest =>
        match listenPort word with
        | .error what => .error what
        | .ok port => parseLoop { config with port := port } rest
    else if arg = ascii "--replicaof" then
      match rest with
      | host :: word :: rest =>
        match masterPort word with
        | .error what => .error what
        | .ok port => parseLoop { config with replicaof := some (host, port) } rest
      | _ => .error (ascii "--replicaof requires format: \"<host> <port>\"")
    else if ascii "--" <+: arg then .error (ascii "unknown option: " ++ arg)
    else parseLoop config rest

def parseConfig (args : List Bytes) : Except Bytes Config := parseLoop {} args

inductive Flag
  | port (word : Bytes) (value : ℤ)
  | replicaof (host word : Bytes) (value : ℤ)
  | other (word : Bytes)

namespace Flag

def words : Flag → List Bytes
  | .port word _ => [ascii "--port", word]
  | .replicaof host word _ => [ascii "--replicaof", host, word]
  | .other word => [word]

def Valid : Flag → Prop
  | .port word value => stoi word = .ok value ∧ 1 ≤ value ∧ value ≤ 65535
  | .replicaof _ word value => stoi word = .ok value ∧ 1 ≤ value ∧ value ≤ 65535
  | .other word => ¬ascii "--" <+: word

def apply (config : Config) : Flag → Config
  | .port _ value => { config with port := value }
  | .replicaof host _ value => { config with replicaof := some (host, value) }
  | .other _ => config

def listens : Flag → Option ℤ
  | .port _ value => some value
  | _ => none

def follows : Flag → Option (Bytes × ℤ)
  | .replicaof host _ value => some (host, value)
  | _ => none

end Flag

structure Spells (flags : List Flag) (args : List Bytes) : Prop where
  words : args = flags.flatMap Flag.words
  valid : ∀ flag ∈ flags, flag.Valid

def chosen (flags : List Flag) : Config where
  port := (flags.filterMap Flag.listens).getLast?.getD 6379
  replicaof := (flags.filterMap Flag.follows).getLast?

/-- Words at which `parse_config` gives up, and what it says. -/
inductive Faulty : List Bytes → Bytes → Prop
  | noPort : Faulty [ascii "--port"] (ascii "--port requires a value")
  | port (word : Bytes) (rest : List Bytes) (what : Bytes) (h : listenPort word = .error what) :
    Faulty (ascii "--port" :: word :: rest) what
  | noAddress (rest : List Bytes) (h : rest.length < 2) : Faulty (ascii "--replicaof" :: rest)
    (ascii "--replicaof requires format: \"<host> <port>\"")
  | masterPort (host word : Bytes) (rest : List Bytes) (what : Bytes)
    (h : masterPort word = .error what) : Faulty (ascii "--replicaof" :: host :: word :: rest) what
  | unknown (arg : Bytes) (rest : List Bytes) (hport : arg ≠ ascii "--port")
    (hreplicaof : arg ≠ ascii "--replicaof") (h : ascii "--" <+: arg) :
    Faulty (arg :: rest) (ascii "unknown option: " ++ arg)

variable {args rest : List Bytes} {config : Config} {flag : Flag} {flags : List Flag} {what : Bytes}

theorem readPort_ok {invalid outOfRange : String} {word : Bytes} {value : ℤ} :
    readPort invalid outOfRange word = .ok value ↔
      stoi word = .ok value ∧ 1 ≤ value ∧ value ≤ 65535 := by
  unfold readPort
  cases stoi word with
  | error => simp
  | ok port =>
    dsimp only
    by_cases h : port < 1 ∨ port > 65535
    · rw [if_pos (by simpa using h)]
      constructor
      · intro heq
        cases heq
      · rintro ⟨heq, hlow, hhigh⟩
        cases heq
        omega
    · rw [if_neg (by simpa using h)]
      constructor
      · intro heq
        cases heq
        exact ⟨rfl, by omega, by omega⟩
      · rintro ⟨heq, -, -⟩
        cases heq
        rfl

theorem parseLoop_port {word : Bytes} {value : ℤ} (h : listenPort word = .ok value) :
    parseLoop config (ascii "--port" :: word :: rest) =
      parseLoop { config with port := value } rest := by
  rw [parseLoop, if_pos rfl, h]

theorem parseLoop_replicaof {host word : Bytes} {value : ℤ} (h : masterPort word = .ok value) :
    parseLoop config (ascii "--replicaof" :: host :: word :: rest) =
      parseLoop { config with replicaof := some (host, value) } rest := by
  rw [parseLoop, if_neg (by decide), if_pos rfl]
  dsimp only
  rw [h]

theorem parseLoop_other {arg : Bytes} (hport : arg ≠ ascii "--port")
    (hreplicaof : arg ≠ ascii "--replicaof") : parseLoop config (arg :: rest) =
      if ascii "--" <+: arg then .error (ascii "unknown option: " ++ arg)
      else parseLoop config rest := by
  rw [parseLoop.eq_def]
  dsimp only
  rw [if_neg hport, if_neg hreplicaof]

theorem parseLoop_flag (hvalid : flag.Valid) :
    parseLoop config (flag.words ++ rest) = parseLoop (flag.apply config) rest := by
  cases flag with
  | port word value =>
    have hport : listenPort word = .ok value := readPort_ok.mpr hvalid
    exact parseLoop_port hport
  | replicaof host word value =>
    have hport : masterPort word = .ok value := readPort_ok.mpr hvalid
    exact parseLoop_replicaof hport
  | other word =>
    have hword : ¬ascii "--" <+: word := hvalid
    have hport : word ≠ ascii "--port" := by
      rintro rfl
      exact hword (by decide)
    have hreplicaof : word ≠ ascii "--replicaof" := by
      rintro rfl
      exact hword (by decide)
    rw [Flag.words, List.singleton_append, parseLoop_other hport hreplicaof, if_neg hword]
    rfl

theorem parseLoop_flags (hvalid : ∀ flag ∈ flags, flag.Valid) :
    parseLoop config (flags.flatMap Flag.words ++ rest) =
      parseLoop (run Flag.apply config flags) rest := by
  induction flags generalizing config with
  | nil => rfl
  | cons flag flags ih =>
    rw [List.flatMap_cons, List.append_assoc, parseLoop_flag (hvalid flag (List.mem_cons_self ..)),
      run_cons]
    exact ih (fun f hf ↦ hvalid f (List.mem_cons_of_mem _ hf))

theorem parseLoop_faulty (h : Faulty args what) : parseLoop config args = .error what := by
  cases h with
  | noPort => rfl
  | port word rest what h => rw [parseLoop, if_pos rfl, h]
  | noAddress rest h =>
    match rest, h with
    | [], _ => rfl
    | [_], _ => rfl
  | masterPort host word rest what h =>
    rw [parseLoop, if_neg (by decide), if_pos rfl]
    dsimp only
    rw [h]
  | unknown arg rest hport hreplicaof h => rw [parseLoop_other hport hreplicaof, if_pos h]

theorem flag_or_faulty (arg : Bytes) (rest : List Bytes) :
    (∃ flag rest', flag.Valid ∧ arg :: rest = Flag.words flag ++ rest') ∨
      ∃ what, Faulty (arg :: rest) what := by
  by_cases hport : arg = ascii "--port"
  · subst hport
    cases rest with
    | nil => exact .inr ⟨_, .noPort⟩
    | cons word rest =>
      cases h : listenPort word with
      | error what => exact .inr ⟨what, .port word rest what h⟩
      | ok value => exact .inl ⟨.port word value, rest, readPort_ok.mp h, rfl⟩
  by_cases hreplicaof : arg = ascii "--replicaof"
  · subst hreplicaof
    match rest with
    | [] => exact .inr ⟨_, .noAddress [] (by decide)⟩
    | [host] => exact .inr ⟨_, .noAddress [host] (by simp)⟩
    | host :: word :: rest =>
      cases h : masterPort word with
      | error what => exact .inr ⟨what, .masterPort host word rest what h⟩
      | ok value => exact .inl ⟨.replicaof host word value, rest, readPort_ok.mp h, rfl⟩
  by_cases hdash : ascii "--" <+: arg
  · exact .inr ⟨_, .unknown arg rest hport hreplicaof hdash⟩
  · exact .inl ⟨.other arg, rest, hdash, rfl⟩

theorem exists_flags (args : List Bytes) : ∃ (flags : List Flag) (rest : List Bytes),
    (∀ flag ∈ flags, flag.Valid) ∧ args = flags.flatMap Flag.words ++ rest ∧
      (rest = [] ∨ ∃ what, Faulty rest what) := by
  -- A flag takes at least one word, so the induction is on the number of words.
  induction hn : args.length using Nat.strong_induction_on generalizing args with
  | _ n ih =>
    cases args with
    | nil => exact ⟨[], [], List.forall_mem_nil _, rfl, .inl rfl⟩
    | cons arg rest =>
      rcases flag_or_faulty arg rest with ⟨flag, rest', hflag, heq⟩ | hfaulty
      · have hlt : rest'.length < n := by
          rw [← hn, heq, List.length_append]
          cases flag <;> simp [Flag.words]
        obtain ⟨flags, tail, hvalid, htail, hend⟩ := ih _ hlt rest' rfl
        refine ⟨flag :: flags, tail, List.forall_mem_cons.mpr ⟨hflag, hvalid⟩, ?_, hend⟩
        rw [heq, htail, List.flatMap_cons, List.append_assoc]
      · exact ⟨[], arg :: rest, List.forall_mem_nil _, rfl, .inr hfaulty⟩

theorem run_apply (flags : List Flag) : run Flag.apply {} flags = chosen flags := by
  induction flags using List.reverseRecOn with
  | nil => rfl
  | append_singleton flags flag ih =>
    rw [run_append, ih, run_cons, run_nil]
    cases flag <;> simp [chosen, Flag.apply, Flag.listens, Flag.follows]

theorem parseConfig_of_spells (h : Spells flags args) : parseConfig args = .ok (chosen flags) := by
  have hargs : args = flags.flatMap Flag.words ++ [] := by rw [h.words, List.append_nil]
  rw [parseConfig, hargs, parseLoop_flags h.valid, run_apply]
  rfl

theorem parseConfig_of_faulty (hvalid : ∀ flag ∈ flags, flag.Valid)
    (hargs : args = flags.flatMap Flag.words ++ rest) (h : Faulty rest what) :
    parseConfig args = .error what := by
  rw [parseConfig, hargs, parseLoop_flags hvalid, parseLoop_faulty h]

theorem spells_of_parseConfig (h : parseConfig args = .ok config) :
    ∃ flags, Spells flags args ∧ config = chosen flags := by
  obtain ⟨flags, rest, hvalid, hargs, rfl | ⟨what, hfaulty⟩⟩ := exists_flags args
  · have hspells : Spells flags args := ⟨by rw [hargs, List.append_nil], hvalid⟩
    rw [parseConfig_of_spells hspells, Except.ok.injEq] at h
    exact ⟨flags, hspells, h.symm⟩
  · rw [parseConfig_of_faulty hvalid hargs hfaulty] at h
    cases h

theorem faulty_of_parseConfig (h : parseConfig args = .error what) :
    ∃ (flags : List Flag) (rest : List Bytes), (∀ flag ∈ flags, flag.Valid) ∧
      args = flags.flatMap Flag.words ++ rest ∧ Faulty rest what := by
  obtain ⟨flags, rest, hvalid, hargs, rfl | ⟨what', hfaulty⟩⟩ := exists_flags args
  · rw [parseConfig_of_spells ⟨by rw [hargs, List.append_nil], hvalid⟩] at h
    cases h
  · rw [parseConfig_of_faulty hvalid hargs hfaulty, Except.error.injEq] at h
    exact ⟨flags, rest, hvalid, hargs, h ▸ hfaulty⟩

/-- `parse_config` accepts the command lines that valid flags spell, and no others. Of several
options of one kind it takes the last; on any other command line it says what is wrong with the
first words that are no flag. -/
theorem parseConfig_spec (args : List Bytes) :
    (∀ config, parseConfig args = .ok config ↔ ∃ flags, Spells flags args ∧ config = chosen flags) ∧
    ∀ what, parseConfig args = .error what ↔ ∃ (flags : List Flag) (rest : List Bytes),
      (∀ flag ∈ flags, flag.Valid) ∧ args = flags.flatMap Flag.words ++ rest ∧
        Faulty rest what := by
  refine ⟨fun config ↦ ⟨spells_of_parseConfig, ?_⟩, fun what ↦ ⟨faulty_of_parseConfig, ?_⟩⟩
  · rintro ⟨flags, hspells, rfl⟩
    exact parseConfig_of_spells hspells
  · rintro ⟨flags, rest, hvalid, hargs, hfaulty⟩
    exact parseConfig_of_faulty hvalid hargs hfaulty

theorem chosen_port (hvalid : ∀ flag ∈ flags, flag.Valid) :
    1 ≤ (chosen flags).port ∧ (chosen flags).port ≤ 65535 := by
  cases h : (flags.filterMap Flag.listens).getLast? with
  | none =>
    simp only [chosen, h]
    decide
  | some value =>
    simp only [chosen, h, Option.getD_some]
    obtain ⟨flag, hmem, hlistens⟩ := List.mem_filterMap.mp (List.mem_of_getLast? h)
    have hflag := hvalid flag hmem
    cases flag with
    | port word value' =>
      cases hlistens
      exact hflag.2
    | replicaof => cases hlistens
    | other => cases hlistens

theorem chosen_replicaof (hvalid : ∀ flag ∈ flags, flag.Valid) {host : Bytes} {port : ℤ}
    (h : (chosen flags).replicaof = some (host, port)) : 1 ≤ port ∧ port ≤ 65535 := by
  obtain ⟨flag, hmem, hfollows⟩ := List.mem_filterMap.mp (List.mem_of_getLast? h)
  have hflag := hvalid flag hmem
  cases flag with
  | replicaof host' word value =>
    cases hfollows
    exact hflag.2
  | port => cases hfollows
  | other => cases hfollows

/-- How the program ends its start: in the event loop, listening on a port, with exit code 1 and a
message, or by an exception that nothing catches or a signal. -/
inductive Launch
  | running (port : ℤ) (s : Server)
  | exits (what : Bytes)
  | terminated

/-- The start of the program, up to the event loop, on a host that grants it its port. -/
def main (replid : Bytes) (clk : Clock) (peer : Handshake.Peer) (args : List Bytes) : Launch :=
  match parseConfig args with
  | .error what => .exits what
  | .ok config =>
    match config.replicaof with
    | none => .running config.port (Server.init replid)
    | some (host, port) =>
      match (Server.initWorker replid host port).connectToMaster clk peer host port with
      | (s, none) => .running config.port s
      | (_, some (.runtimeError what)) => .exits what
      | (_, some .uncaught) | (_, some .sigpipe) => .terminated

/-- The role and the address of the master agree with `replicaof_`, and a port is a port. -/
structure Data.Addressed (d : Data) : Prop where
  role : d.replicaof.isSome = true ↔ d.replInfo.role = .worker
  host : d.replInfo.masterHost = (d.replicaof.map (·.1)).getD []
  port : d.replInfo.masterPort = (d.replicaof.map (·.2)).getD 0
  range : ∀ host port, d.replicaof = some (host, port) → 1 ≤ port ∧ port ≤ 65535

theorem Data.Addressed.of_master {d : Data} (hset : d.replicaof = none)
    (hrole : d.replInfo.role = .master) (hhost : d.replInfo.masterHost = [])
    (hport : d.replInfo.masterPort = 0) : d.Addressed where
  role := by rw [hset, hrole]; decide
  host := by rw [hset, hhost]; rfl
  port := by rw [hset, hport]; rfl
  range := fun _ _ h ↦ by rw [hset] at h; cases h

theorem Data.Addressed.of_worker {d : Data} {host : Bytes} {port : ℤ}
    (hset : d.replicaof = some (host, port)) (hrole : d.replInfo.role = .worker)
    (hhost : d.replInfo.masterHost = host) (hport : d.replInfo.masterPort = port)
    (hrange : 1 ≤ port ∧ port ≤ 65535) : d.Addressed where
  role := by rw [hset, hrole]; exact iff_of_true rfl rfl
  host := by rw [hset, hhost]; rfl
  port := by rw [hset, hport]; rfl
  range := fun _ _ h ↦ by rw [hset] at h; cases h; exact hrange

theorem Data.Addressed.congr {d d' : Data} (h : d.Addressed) (hset : d'.replicaof = d.replicaof)
    (hrole : d'.replInfo.role = d.replInfo.role)
    (hhost : d'.replInfo.masterHost = d.replInfo.masterHost)
    (hport : d'.replInfo.masterPort = d.replInfo.masterPort) : d'.Addressed where
  role := by rw [hset, hrole]; exact h.role
  host := by rw [hset, hhost]; exact h.host
  port := by rw [hset, hport]; exact h.port
  range := by rw [hset]; exact h.range

namespace Server

variable {s : Server} {e : Event} {env : Env} {c : ClientId} {client : Client} {n : ℕ}
  {host : Bytes} {port : ℤ}

theorem port_of_passed (hpass : Command.executeReplicaof args = [])
    (htarget : replicaofTarget args = some (host, port)) : 1 ≤ port ∧ port ≤ 65535 := by
  unfold Command.executeReplicaof at hpass
  split at hpass
  · next name host' word =>
    unfold replicaofTarget at htarget
    dsimp only at htarget
    split at htarget
    · cases htarget
    · next hno =>
      rw [if_neg hno] at hpass
      cases hword : stoi word with
      | error => rw [hword] at htarget; cases htarget
      | ok value =>
        rw [hword] at htarget hpass
        cases htarget
        dsimp only at hpass
        split at hpass
        · exact absurd hpass (by decide)
        · next h =>
          simp only [Bool.or_eq_true, decide_eq_true_eq] at h
          omega
  · exact absurd hpass (by decide)

theorem data_refused (hc : Receives s c client args n) (ht : client.type = .regular)
    (hn : commandName args = ascii "REPLICAOF") (hr : Command.executeReplicaof args ≠ []) :
    (step s (.process env)).data = s.data := by
  rw [step_replicaof env hc ht hn, if_neg hr, data_eraseRead, data_appendReply]
  rfl

theorem addressed_handshakeFrom {t : Server} {failure : Option Handshake.Failure}
    (hport : 1 ≤ port ∧ port ≤ 65535) (h : s.handshakeFrom env c host port = (t, failure)) :
    t.data.Addressed := by
  obtain ⟨id, m, store, hdata⟩ := data_connectToMaster h
  rw [hdata, data_demote]
  exact .of_worker rfl rfl rfl rfl hport

theorem addressed_step (h : s.data.Addressed) : (step s e).data.Addressed := by
  have hport {env : Env} {c : ClientId} {host : Bytes} {port : ℤ} (he : e = .process env)
      (hd : Demotes s c host port) (hchanged : (step s e).data ≠ s.data) :
      1 ≤ port ∧ port ≤ 65535 := by
    obtain ⟨client, args, n, hc, ht, hn, htarget⟩ := hd.receives
    refine port_of_passed (by_contra fun hr ↦ hchanged ?_) htarget
    rw [he]
    exact data_refused hc ht hn hr
  by_cases hchanged : (step s e).data = s.data
  · rw [hchanged]
    exact h
  have hdata := step_dataStep s e
  generalize hd : (step s e).data = d, written s e = cmds at hdata hchanged ⊢
  cases hdata with
  | same => exact h
  | rehash => exact h.congr rfl rfl rfl rfl
  | sweep => exact h.congr rfl rfl rfl rfl
  | sweepNext => exact h.congr rfl rfl rfl rfl
  | link => exact h.congr rfl rfl rfl rfl
  | replica => exact h.congr rfl rfl rfl rfl
  | write => exact h.congr rfl rfl rfl rfl
  | promote => exact .of_master rfl rfl rfl rfl
  | linked env c host port hdem t ht =>
    exact addressed_handshakeFrom (hport rfl hdem (by rw [hd]; exact hchanged)) ht
  | reverted => exact .of_master rfl rfl rfl rfl
  | terminated env c host port hdem t ht =>
    exact addressed_handshakeFrom (hport rfl hdem (by rw [hd]; exact hchanged)) ht

theorem addressed_run (h : s.data.Addressed) (es : List Event) : (run step s es).data.Addressed :=
  run_stable step (I := fun s ↦ s.data.Addressed) (fun _ _ h ↦ addressed_step h) h es

theorem addressed_init (replid : Bytes) : (init replid).data.Addressed :=
  .of_master rfl rfl rfl rfl

theorem addressed_linked {replid : Bytes} {clk : Clock} {peer : Handshake.Peer}
    (hport : 1 ≤ port ∧ port ≤ 65535)
    (h : (initWorker replid host port).connectToMaster clk peer host port = (s, none)) :
    s.replicaof = some (host, port) ∧ s.data.Addressed := by
  obtain ⟨id, m, store, hdata⟩ := data_connectToMaster h
  refine ⟨congrArg Data.replicaof hdata, ?_⟩
  rw [hdata]
  exact .of_worker rfl rfl rfl rfl hport

/-- A server that has got to its event loop was started by a valid command line, and follows the
master of its last `--replicaof`. Whatever happens to it then, it is a worker exactly while
`replicaof_` is set, reports that address as the one of its master, and never follows an address
without a valid port. -/
theorem launched_follows_address {replid : Bytes} {clk : Clock} {peer : Handshake.Peer}
    (h : main replid clk peer args = .running port s) (es : List Event) :
    Initial s ∧ (∃ flags, Spells flags args ∧ port = (chosen flags).port ∧
      s.replicaof = (chosen flags).replicaof) ∧ (1 ≤ port ∧ port ≤ 65535) ∧
      (run step s es).data.Addressed := by
  unfold main at h
  cases hparse : parseConfig args with
  | error what =>
    rw [hparse] at h
    cases h
  | ok config =>
    obtain ⟨flags, hspells, rfl⟩ := spells_of_parseConfig hparse
    have hlisten := chosen_port hspells.valid
    rw [hparse] at h
    dsimp only at h
    cases htarget : (chosen flags).replicaof with
    | none =>
      rw [htarget] at h
      cases h
      exact ⟨.master replid, ⟨flags, hspells, rfl, htarget.symm⟩, hlisten,
        addressed_run (addressed_init replid) es⟩
    | some target =>
      obtain ⟨host, master⟩ := target
      rw [htarget] at h
      dsimp only at h
      split at h
      · next hconnect =>
        cases h
        obtain ⟨hfollows, hdata⟩ := addressed_linked (chosen_replicaof hspells.valid htarget)
          hconnect
        exact ⟨.worker replid host master clk peer s hconnect,
          ⟨flags, hspells, rfl, hfollows.trans htarget.symm⟩, hlisten, addressed_run hdata es⟩
      all_goals cases h

def retireRun : List Event :=
  [.accept 7] ++ request 1 [ascii "REPLICAOF", ascii "NO", ascii "ONE"] (.quiet 1)

theorem launched_follows_address_of_worker :
    (∃ flags, Spells flags [ascii "--replicaof", ascii "localhost", ascii "6379", ascii "--port",
        ascii "6380"] ∧ sampleWorker.replicaof = (chosen flags).replicaof) ∧
    (run step sampleWorker retireRun).replicaof = none ∧
    (run step sampleWorker retireRun).data.Addressed := by
  have hparse : parseConfig [ascii "--replicaof", ascii "localhost", ascii "6379",
      ascii "--port", ascii "6380"] = .ok ⟨6380, some (ascii "localhost", 6379)⟩ := by rfl
  have hconnect : (initWorker (ascii "0") (ascii "localhost") 6379).connectToMaster
      (Env.quiet 0).clock samplePeer (ascii "localhost") 6379 = (sampleWorker, none) := by
    refine Prod.ext ?_ ?_
    · rw [sampleWorker]
    · decide +kernel
  have hlaunch : main (ascii "0") (Env.quiet 0).clock samplePeer [ascii "--replicaof",
      ascii "localhost", ascii "6379", ascii "--port", ascii "6380"] =
        .running 6380 sampleWorker := by
    rw [main, hparse]
    dsimp only
    rw [hconnect]
  obtain ⟨-, ⟨flags, hspells, -, hfollows⟩, -, haddressed⟩ :=
    launched_follows_address hlaunch retireRun
  have hretired : (run step sampleWorker retireRun).replicaof = none := by decide +kernel
  exact ⟨⟨flags, hspells, hfollows⟩, hretired, haddressed⟩

end Server

end RedisLite
