import RedisLite.Attach
import RedisLite.Demotion

namespace RedisLite.Handshake

open Lib.Search
open scoped List

variable {peer : Peer} {host first tail : Bytes} {port : ℤ} {recvs : List Bytes}

def greeting : List Bytes := [ascii "+PONG\r\n", ascii "+OK\r\n", ascii "+OK\r\n"]

inductive Reply
  | full (id : Bytes) (offset : ℤ) (rdb : Bytes)
  | resumed (id : Bytes)

namespace Reply

def line : Reply → Bytes
  | full id offset _ => Server.fullResyncHeader id offset
  | resumed id => ascii "+CONTINUE " ++ id ++ crlf

def bytes : Reply → Bytes
  | full id offset rdb => Server.fullResyncHeader id offset ++ Server.bulkPayload rdb
  | resumed id => (resumed id).line

/-- The offset counts bytes in a `long long`, and the length of the snapshot is an `int`. -/
def WellFormed : Reply → Prop
  | full id offset rdb => Plain id ∧ 0 ≤ offset ∧ offset < 2 ^ 63 ∧ rdb.length < 2 ^ 31 ∧
      (Server.fullResyncHeader id offset).length < 2 ^ 63
  | resumed _ => True

def info : Reply → ReplicationInfo → ReplicationInfo
  | full id offset _, info => { info with masterReplid := id, masterReplOffset := offset }
  | resumed _, info => info

def store (clk : Clock) : Reply → Store → Store
  | full _ _ rdb, store => loadRdb clk rdb store
  | resumed _, store => store

/-- The first piece has the whole line of a full resync and no line of a partial one, or the line
of a partial resync and nothing else. -/
def Uncut : Reply → Bytes → Prop
  | full id offset _, first =>
    Server.fullResyncHeader id offset <+: first ∧ find? (ascii "+CONTINUE") first = none
  | resumed id, first => first = (resumed id).line

end Reply

def unread (first : Bytes) (recvs : List Bytes) : List Bytes :=
  if (find? (ascii "+CONTINUE") first).isSome then recvs
  else
    match readRdb recvs first with
    | .ok (_, _, rest) => rest
    | .error _ => []

theorem dial_greeted {fd : ℕ} (hfd : peer.socket = some fd) (hresolves : peer.resolves = true)
    (hconnects : peer.connects = true)
    (hgreet : greet peer.sends peer.recvs = .ok (first :: recvs)) (hsent : peer.sends 3 = .sent)
    (hne : first ≠ []) (host : Bytes) (port : ℤ) : dial peer host port = .ok (first, recvs) := by
  have hlink : openLink peer host port = .ok fd := by
    simp [openLink, hfd, hresolves, hconnects]
  simp [dial, hlink, hgreet, hsent, sendAndRecv, hne, bind, Except.bind]

theorem find?_continue (id more : Bytes) :
    (find? (ascii "+CONTINUE") ((Reply.resumed id).line ++ more)).isSome = true := by
  have hline : ascii "+CONTINUE" <+: (Reply.resumed id).line ++ more :=
    ⟨ascii " " ++ id ++ crlf ++ more, by simp [Reply.line, ascii]⟩
  rw [find?_eq_zero hline]
  rfl

theorem find?_fullResync (id : Bytes) (offset : ℤ) (more : Bytes) :
    (find? (ascii "+FULLRESYNC") (Server.fullResyncHeader id offset ++ more)).isSome = true := by
  have hline : ascii "+FULLRESYNC" <+: Server.fullResyncHeader id offset ++ more :=
    ⟨ascii " " ++ id ++ ascii " " ++ toStr offset ++ crlf ++ more,
      by simp [Server.fullResyncHeader, ascii]⟩
  rw [find?_eq_zero hline]
  rfl

/-- Over any cut of a well-formed answer that leaves its line in one piece. -/
theorem connect_uncut (clk : Clock) {reply : Reply} (hreply : reply.WellFormed)
    (hdial : dial peer host port = .ok (first, recvs)) (hne : ∀ chunk ∈ recvs, chunk ≠ [])
    (hbytes : first ++ recvs.flatten = reply.bytes ++ tail) (huncut : reply.Uncut first)
    (info : ReplicationInfo) (store : Store) :
    ∃ leftover, connect clk peer host port info store =
      ⟨reply.info info, reply.store clk store, .ok leftover⟩ ∧
      leftover ++ (unread first recvs).flatten = tail := by
  rw [connect_eq, hdial]
  dsimp only
  cases reply with
  | resumed id =>
    cases huncut
    have hfound := find?_continue id []
    rw [List.append_nil] at hfound
    refine ⟨[], if_pos hfound, ?_⟩
    rw [unread, if_pos hfound, List.nil_append]
    exact List.append_cancel_left hbytes
  | full id offset rdb =>
    obtain ⟨hid, h₀, hlt, hrdb, hheader⟩ := hreply
    obtain ⟨⟨more, rfl⟩, hnone⟩ := huncut
    have hstoll : stoll (toStr offset) = .ok offset := by
      have hdigits := convert_decimal (n := offset.natAbs) (show offset.natAbs < 2 ^ 63 by omega)
      rw [toStr, if_neg (by omega)]
      exact hdigits.trans (congrArg Except.ok (Int.natAbs_of_nonneg h₀))
    obtain ⟨leftover, rest, hread, htail⟩ := readRdb_pieces (dollar_not_mem_header hid offset)
      (hheader.trans_le (by omega)) hrdb recvs _ hne hbytes
    have hnone' : ¬(find? (ascii "+CONTINUE")
        (Server.fullResyncHeader id offset ++ more)).isSome = true := by
      rw [hnone]
      simp
    refine ⟨leftover, ?_, ?_⟩
    · rw [if_neg hnone', if_pos (find?_fullResync id offset more)]
      simp only [fullResync, fullResyncLine_header hid, hstoll, hread, Reply.info, Reply.store]
    · rw [unread, if_neg hnone', hread]
      exact htail

theorem find?_fullResync_none {id : Bytes} (hpiece : first <+: (Reply.resumed id).line ++ tail)
    (hnone : find? (ascii "+CONTINUE") first = none) :
    find? (ascii "+FULLRESYNC") first = none := by
  have hword : ascii "+CONTINUE" <+: (Reply.resumed id).line ++ tail :=
    ⟨ascii " " ++ id ++ crlf ++ tail, by simp [Reply.line, ascii]⟩
  cases hfound : find? (ascii "+FULLRESYNC") first with
  | none => rfl
  | some i =>
    have hlong : (ascii "+CONTINUE").length ≤ first.length :=
      calc
        (ascii "+CONTINUE").length ≤ (ascii "+FULLRESYNC").length := by decide
        _ ≤ i + (ascii "+FULLRESYNC").length := Nat.le_add_left ..
        _ ≤ first.length := find?_le hfound
    rw [find?_eq_zero (List.prefix_of_prefix_length_le hword hpiece hlong)] at hnone
    cases hnone

/-- The line of a full resync that is not taken over in one piece is not taken over. -/
theorem header_of_taken {id : Bytes} {offset : ℤ} (hid : Plain id) {clk : Clock} {more : Bytes}
    {info info' : ReplicationInfo} {store store' : Store} {leftover : Bytes}
    (hpiece : first <+: Server.fullResyncHeader id offset ++ more)
    (h : fullResync clk first recvs info store = ⟨info', store', .ok leftover⟩)
    (hchanged : info' ≠ info) : Server.fullResyncHeader id offset <+: first := by
  rcases Nat.lt_or_ge first.length (Server.fullResyncHeader id offset).length with hlt | hge
  · obtain ⟨rest, hrest⟩ := List.prefix_of_prefix_length_le hpiece
      (List.prefix_append (Server.fullResyncHeader id offset) more) hlt.le
    have hne : rest ≠ [] := by
      rintro rfl
      rw [← hrest, List.append_nil] at hlt
      exact lt_irrefl _ hlt
    have hnone := fullResyncLine_part hid hrest hne
    rcases (fullResync_ok h).2 with ⟨-, hsame⟩ | ⟨id', offset', hline, -⟩
    · exact absurd hsame hchanged
    · rw [hnone] at hline
      cases hline
  · exact List.prefix_of_prefix_length_le (List.prefix_append ..) hpiece hge

/-- Only cuts that leave the line in one piece give what the answer says, from every state. -/
theorem uncut_of_connect {clk : Clock} {reply : Reply} (hreply : reply.WellFormed)
    (hdial : dial peer host port = .ok (first, recvs))
    (hbytes : first ++ recvs.flatten = reply.bytes ++ tail)
    (h : ∀ info store, ∃ leftover, connect clk peer host port info store =
      ⟨reply.info info, reply.store clk store, .ok leftover⟩ ∧
      leftover ++ (unread first recvs).flatten = tail) : reply.Uncut first := by
  cases reply with
  | resumed id =>
    obtain ⟨leftover, hconnect, htail⟩ := h { role := .worker, masterReplid := [] } Store.empty
    rw [connect_eq, hdial] at hconnect
    dsimp only at hconnect
    cases hfound : find? (ascii "+CONTINUE") first with
    | some i =>
      rw [hfound, if_pos Option.isSome_some] at hconnect
      cases hconnect
      rw [unread, hfound, if_pos Option.isSome_some, List.nil_append] at htail
      rw [htail] at hbytes
      exact List.append_cancel_right hbytes
    | none =>
      have hpiece : first <+: (Reply.resumed id).line ++ tail := ⟨_, hbytes⟩
      have hfull := find?_fullResync_none hpiece hfound
      rw [hfound, if_neg (by simp), hfull, if_neg (by simp)] at hconnect
      cases hconnect
  | full id offset rdb =>
    -- a state whose ID is another one shows whether the line has been read
    obtain ⟨leftover, hconnect, -⟩ := h { role := .worker, masterReplid := 0 :: id } Store.empty
    have hchanged : (Reply.full id offset rdb).info { role := .worker, masterReplid := 0 :: id } ≠
        { role := .worker, masterReplid := 0 :: id } := by
      intro heq
      exact List.cons_ne_self 0 id (congrArg ReplicationInfo.masterReplid heq).symm
    rw [connect_eq, hdial] at hconnect
    dsimp only at hconnect
    cases hfound : find? (ascii "+CONTINUE") first with
    | some i =>
      rw [hfound, if_pos Option.isSome_some] at hconnect
      injection hconnect with hinfo
      exact absurd hinfo.symm hchanged
    | none =>
      rw [hfound, if_neg (by simp)] at hconnect
      refine ⟨?_, hfound⟩
      split at hconnect
      · have hpiece : first <+:
            Server.fullResyncHeader id offset ++ (Server.bulkPayload rdb ++ tail) :=
          ⟨recvs.flatten, by rw [hbytes, Reply.bytes, List.append_assoc]⟩
        exact header_of_taken hreply.1 hpiece hconnect hchanged
      · cases hconnect

theorem connectToMaster_eq (clk : Clock) {s : Server} {fd : ℕ} (hfd : peer.socket = some fd)
    (hfree : s.fds fd = none) (host : Bytes) (port : ℤ) :
    s.connectToMaster clk peer host port =
      match connect clk peer host port s.replInfo s.store with
      | ⟨info, store, .ok leftover⟩ =>
        (Server.addMasterLink fd leftover { s with replInfo := info, store := store }, none)
      | ⟨info, store, .error failure⟩ =>
        ({ s with replInfo := info, store := store }, some failure) := by
  have hsocket : (some fd).filter (fun fd ↦ (s.fds fd).isNone) = some fd :=
    Option.filter_some_pos (by rw [hfree]; rfl)
  cases peer with
  | mk socket resolves connects sends pieces =>
    cases hfd
    simp only [Server.connectToMaster, Server.granting, hsocket]
    generalize connect clk _ host port s.replInfo s.store = out
    obtain ⟨info, store, result⟩ := out
    cases result with
    | ok leftover => rfl
    | error failure => rfl

/-- From every state `connect_to_master` takes ID, offset and snapshot from the answer, and hands
on all bytes behind it, in the read buffer of the link or unread, if and only if the line of the
answer is not cut and a partial resync brings nothing behind it in the same piece. -/
theorem handshake_ignores_cuts_iff (clk : Clock) {fd : ℕ} (hfd : peer.socket = some fd)
    (hresolves : peer.resolves = true) (hconnects : peer.connects = true)
    (hgreet : greet peer.sends peer.recvs = .ok (first :: recvs)) (hsent : peer.sends 3 = .sent)
    (hne : ∀ chunk ∈ first :: recvs, chunk ≠ []) {reply : Reply} (hreply : reply.WellFormed)
    (hbytes : (first :: recvs).flatten = reply.bytes ++ tail) (host : Bytes) (port : ℤ) :
    (∀ s : Server, s.fds fd = none → ∃ leftover, s.connectToMaster clk peer host port =
      (Server.addMasterLink fd leftover
        { s with replInfo := reply.info s.replInfo, store := reply.store clk s.store }, none) ∧
      leftover ++ (unread first recvs).flatten = tail) ↔ reply.Uncut first := by
  have hdial := dial_greeted hfd hresolves hconnects hgreet hsent
    (hne first (List.mem_cons_self ..)) host port
  constructor
  · intro h
    have hall : ∀ info store, ∃ leftover, connect clk peer host port info store =
        ⟨reply.info info, reply.store clk store, .ok leftover⟩ ∧
        leftover ++ (unread first recvs).flatten = tail := by
      intro info store
      obtain ⟨leftover, hconnect, htail⟩ := h
        { Server.init [] with replInfo := info, store := store } rfl
      refine ⟨leftover, ?_, htail⟩
      rw [connectToMaster_eq clk hfd rfl] at hconnect
      split at hconnect
      · next info' store' leftover' hout =>
        have hserver := congrArg Prod.fst hconnect
        have hinfo : info' = reply.info info := congrArg Server.replInfo hserver
        have hstore : store' = reply.store clk store := congrArg Server.store hserver
        have hread : leftover' = leftover := by
          have hlink := congrFun (congrArg Server.clients hserver) 0
          simpa [Server.addMasterLink, Server.init] using hlink
        rw [hout, hinfo, hstore, hread]
      · cases hconnect
    exact uncut_of_connect hreply hdial hbytes hall
  · intro huncut s hfree
    obtain ⟨leftover, hconnect, htail⟩ := connect_uncut clk hreply hdial
      (fun chunk h ↦ hne chunk (List.mem_cons_of_mem _ h)) hbytes huncut s.replInfo s.store
    refine ⟨leftover, ?_, htail⟩
    rw [connectToMaster_eq clk hfd hfree, hconnect]

def dialled (pieces : List Bytes) : Server × Option Failure :=
  (Server.initWorker [] (ascii "localhost") 6380).connectToMaster (Server.Env.quiet 0).clock
    { socket := some 6, recvs := greeting ++ pieces } (ascii "localhost") 6380

def sampleReply : Reply := .full Server.sampleId 5 (ascii "REDIS0011")

theorem dialled_sample : ∃ leftover,
    dialled [sampleReply.line ++ ascii "$", ascii "9\r\nREDIS", ascii "0011*1\r\n",
      ascii "$4\r\nPING\r\n"] =
      (Server.addMasterLink 6 leftover
        { Server.initWorker [] (ascii "localhost") 6380 with
          replInfo := sampleReply.info
            (Server.initWorker [] (ascii "localhost") 6380).replInfo
          store := sampleReply.store (Server.Env.quiet 0).clock Store.empty }, none) ∧
    leftover ++ (unread (sampleReply.line ++ ascii "$") [ascii "9\r\nREDIS", ascii "0011*1\r\n",
      ascii "$4\r\nPING\r\n"]).flatten = Resp.encodeArray [ascii "PING"] := by
  have hid : IsReplid Server.sampleId := by decide +kernel
  have hreply : sampleReply.WellFormed := ⟨hid.plain, by decide +kernel⟩
  refine (handshake_ignores_cuts_iff _ rfl rfl rfl rfl rfl ?_ hreply ?_ _ _).mpr
    ⟨List.prefix_append .., ?_⟩ (Server.initWorker [] (ascii "localhost") 6380) rfl <;>
    decide +kernel

/-- The same answers in other pieces: what comes behind the line of a partial resync is lost, the
offset is not taken from a line in two pieces, and half a word ends the handshake. -/
theorem cuts_change_handshake :
    (((dialled [(Reply.resumed Server.sampleId).line ++ Resp.encodeArray [ascii "PING"]]).1.clients
      0).map (·.readBuf) = some [] ∧
      unread ((Reply.resumed Server.sampleId).line ++ Resp.encodeArray [ascii "PING"]) [] = []) ∧
    ((dialled [sampleReply.bytes]).1.replInfo.masterReplOffset = 5 ∧
      (dialled [sampleReply.bytes.take 20, sampleReply.bytes.drop 20]).2 = none ∧
      (dialled [sampleReply.bytes.take 20, sampleReply.bytes.drop 20]).1.replInfo.masterReplOffset =
        0) ∧
    (dialled [sampleReply.bytes.take 5, sampleReply.bytes.drop 5]).2 =
      some (.runtimeError (ascii "Unexpected PSYNC response from master")) := by
  decide +kernel

end RedisLite.Handshake
