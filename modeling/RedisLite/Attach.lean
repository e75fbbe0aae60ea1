import RedisLite.Answers
import RedisLite.Uplink

namespace RedisLite

open Function Lib.Numerals Lib.Search
open scoped List

theorem convert_decimal_eq {bits n : ℕ} {m : ℤ} (h : convert bits (decimal n) = .ok m) :
    m = n ∧ n < 2 ^ bits := by
  have hlt := (convert_bounds h).2
  unfold convert at h
  rw [strtol_decimal] at h
  dsimp only at h
  split at h
  · cases h
    exact ⟨rfl, by exact_mod_cast hlt⟩
  · cases h

/-- An offset that is read back at all is read back right. -/
theorem stoll_toStr {n m : ℤ} (hn : 0 ≤ n) (h : stoll (toStr n) = .ok m) : m = n := by
  rw [toStr, if_neg (by omega)] at h
  have hm := (convert_decimal_eq h).1
  omega

namespace Handshake

variable {clk : Clock} {reply leftover : Bytes} {recvs rest : List Bytes} {store store' : Store}
  {info info' : ReplicationInfo}

/-- A part of a resync reply never yields anything but its own snapshot. -/
theorem rdbTake_ok {header rdb acc more tail rdb' : Bytes} (hh : 36 ∉ header)
    (hheader : header.length < 2 ^ 63 + 100)
    (hacc : acc ++ more = header ++ Server.bulkPayload rdb ++ tail)
    (h : rdbTake acc = some (.ok (rdb', leftover))) : leftover ++ more = tail := by
  have hrdb : rdb.length < 2 ^ 31 := by
    unfold rdbTake at h
    cases hr : rdbHeader acc with
    | none =>
      rw [hr] at h
      cases h
    | some p =>
      have happend := rdbHeader_append hr more
      rw [hacc, rdbHeader_reply hh] at happend
      cases happend
      rw [hr] at h
      dsimp only at h
      split at h
      · cases h
      · next hlen => exact (convert_decimal_eq hlen).2
  rcases rdbTake_part hh hheader hrdb hacc with ⟨hnone, -⟩ | ⟨leftover', hsome, htail⟩
  · rw [hnone] at h
    cases h
  · rw [hsome] at h
    cases h
    exact htail

/-- Whatever a completed transfer leaves lies behind the snapshot. -/
theorem readRdb_ok {header rdb acc more tail rdb' : Bytes} (hh : 36 ∉ header)
    (hheader : header.length < 2 ^ 63 + 100)
    (hacc : acc ++ recvs.flatten ++ more = header ++ Server.bulkPayload rdb ++ tail)
    (h : readRdb recvs acc = .ok (rdb', leftover, rest)) :
    leftover ++ rest.flatten ++ more = tail := by
  induction recvs generalizing acc with
  | nil =>
    rw [List.flatten_nil, List.append_nil] at hacc
    unfold readRdb at h
    split at h
    · next htake =>
      cases h
      rw [List.flatten_nil, List.append_nil]
      exact rdbTake_ok hh hheader hacc htake
    · cases h
    · cases h
  | cons chunk recvs ih =>
    unfold readRdb at h
    split at h
    · next htake =>
      cases h
      rw [List.append_assoc] at hacc ⊢
      exact rdbTake_ok hh hheader hacc htake
    · cases h
    · split at h
      · cases h
      · refine ih ?_ h
        rw [← hacc, List.flatten_cons, List.append_assoc acc]

theorem fullResyncLine_part {id : Bytes} (hid : Plain id) {offset : ℤ} {more : Bytes}
    (hpart : reply ++ more = Server.fullResyncHeader id offset) (hne : more ≠ []) :
    fullResyncLine reply = none := by
  have hstop : find? crlf reply = none := by
    cases hfound : find? crlf reply with
    | none => rfl
    | some i =>
      have hle := find?_le hfound
      have happend := find?_append more (by decide) hfound
      have hnot : 13 ∉ ascii "+FULLRESYNC " ++ id ++ ascii " " ++ toStr offset := by
        simp only [List.mem_append, not_or]
        exact ⟨⟨⟨by decide, fun h ↦ (hid 13 h).2.1 rfl⟩, by decide⟩,
          fun h ↦ (plain_toStr offset 13 h).2.1 rfl⟩
      have hfirst := find?_first 13 [10] hnot []
      have hlen := congrArg List.length hpart
      rw [hpart, Server.fullResyncHeader] at happend
      rw [List.append_nil] at hfirst
      change find? crlf (_ ++ crlf) = _ at hfirst
      rw [hfirst] at happend
      have hpos := List.length_pos_iff.mpr hne
      cases happend
      simp only [Server.fullResyncHeader, List.length_append, show crlf.length = 2 from rfl]
        at hlen hle
      omega
  simp only [fullResyncLine, hstop, Option.bind_eq_bind, Option.bind_none, Option.bind_fun_none]

/-- A full resync that goes through has read the snapshot, and the offset of its line if that
was there in time. -/
theorem fullResync_ok (h : fullResync clk reply recvs info store = ⟨info', store', .ok leftover⟩) :
    (∃ rdb rest, readRdb recvs reply = .ok (rdb, leftover, rest)) ∧
      (fullResyncLine reply = none ∧ info' = info ∨
        ∃ id offset, fullResyncLine reply = some (id, offset) ∧
          stoll offset = .ok info'.masterReplOffset) := by
  unfold fullResync at h
  dsimp only at h
  cases hread : readRdb recvs reply with
  | error failure =>
    simp only [hread] at h
    split at h
    · cases h
    · split at h <;> cases h
  | ok read =>
    obtain ⟨rdb, left, rest⟩ := read
    simp only [hread] at h
    split at h
    · next hline =>
      cases h
      exact ⟨⟨rdb, rest, rfl⟩, .inl ⟨hline, rfl⟩⟩
    · next id offset hline =>
      split at h
      · cases h
      · next n hoffset =>
        cases h
        exact ⟨⟨rdb, rest, rfl⟩, .inr ⟨id, offset, hline, hoffset⟩⟩

/-- The fourth reply of a handshake that goes through without a partial resync is that of a
full one. -/
theorem connect_ok {peer : Peer} {host : Bytes} {port : ℤ} {greeting : List Bytes}
    (hlen : greeting.length = 3) (hrecvs : peer.recvs = greeting ++ reply :: recvs)
    (hplain : find? (ascii "+CONTINUE") reply = none)
    (h : connect clk peer host port info store = ⟨info', store', .ok leftover⟩) :
    fullResync clk reply recvs info store = ⟨info', store', .ok leftover⟩ := by
  have hanswered {first : Bytes} {others : List Bytes} (hans : Answered peer first others) :
      first = reply ∧ others = recvs := by
    have heq := hans.received
    rw [hrecvs, ← hlen, List.drop_left] at heq
    injection heq with hfirst hothers
    exact ⟨hfirst.symm, hothers.symm⟩
  have hmet := connect_met clk peer host port info store
  rw [h] at hmet
  generalize hout : (⟨info', store', .ok leftover⟩ : Outcome) = out at hmet
  cases hmet with
  | unanswered | strange => cases hout
  | resumed first others hans hcontinue =>
    obtain ⟨rfl, -⟩ := hanswered hans
    exact absurd hcontinue (find?_eq_none_iff.mp hplain)
  | full first others hans =>
    obtain ⟨rfl, rfl⟩ := hanswered hans.toAnswered
    rfl

end Handshake

namespace Server

variable {s t : Server} {fd : ℕ} {clk : Clock} {peer : Handshake.Peer} {host : Bytes} {port : ℤ}

theorem connectToMaster_ok (h : s.connectToMaster clk peer host port = (t, none)) :
    ∃ fd info store leftover, peer.socket = some fd ∧ s.fds fd = none ∧
      Handshake.connect clk { peer with socket := some fd } host port s.replInfo s.store =
        ⟨info, store, .ok leftover⟩ ∧
      t = addMasterLink fd leftover { s with replInfo := info, store := store } := by
  unfold connectToMaster at h
  dsimp only at h
  generalize hout : Handshake.connect clk (s.granting peer) host port s.replInfo s.store = out at h
  obtain ⟨info, store, result⟩ := out
  split at h
  · next leftover fd hok hfd =>
    cases hok
    cases h
    have hsocket := Option.filter_eq_some_iff.mp hfd
    have hpeer : s.granting peer = { peer with socket := some fd } := by
      rw [← hfd]
      rfl
    rw [hpeer] at hout
    exact ⟨fd, info, store, leftover, hsocket.1, by simpa using hsocket.2, hout, rfl⟩
  · cases h
  · next hok hnone =>
    cases hok
    exact absurd hnone (Handshake.connect_socket (congrArg Handshake.Outcome.result hout))

/-- A server that is about to connect to its master through the descriptor `fd`: it starts up,
or a `REPLICAOF` has come as far as `demote`. -/
structure Unlinked (fd : ℕ) (s : Server) : Prop where
  consistent : Consistent s
  role : s.replInfo.role = .worker
  link : s.masterClient = none
  offset : s.replInfo.masterReplOffset = 0
  owners : ∀ fd' c, s.fds fd' = some c → c < s.nextId
  waits : ∀ wait ∈ s.pendingWaits, wait.client < s.nextId
  queues : ∀ c queue, s.replQueues c = some queue → queue.fd ≠ fd

theorem unlinked_initWorker (fd : ℕ) (replid host : Bytes) (port : ℤ) :
    Unlinked fd (initWorker replid host port) := by
  refine ⟨?_, rfl, rfl, rfl, nofun, nofun, nofun⟩
  refine ⟨?_, ?_, List.nodup_nil, ?_, ?_, ?_, fun _ _ ↦ rfl, fun _ ↦ rfl⟩ <;> simp [initWorker]

theorem Unlinked.uplink (hs : Unlinked fd s) (leftover : Bytes) (info : ReplicationInfo)
    (store : Store) :
    Uplink (addMasterLink fd leftover { s with replInfo := info, store := store }) s.nextId
      { fd := fd, type := .masterConn, readBuf := leftover } (s.wire s.nextId) where
  connected := update_self ..
  type := rfl
  said := List.append_nil _
  queues := hs.queues
  owner := fun fd' h ↦ by
    by_contra hne
    have hold : s.fds fd' = some s.nextId := by
      simpa only [addMasterLink, update_of_ne hne] using h
    exact absurd (hs.owners fd' _ hold) (lt_irrefl _)
  waits := fun wait hw ↦ (hs.waits wait hw).ne

/-- The handshake of a server that becomes a replica by a full resync: the three replies of the
greeting, the first piece of the answer to `PSYNC`, and the pieces that complete the snapshot. A
`REPLICAOF` still takes itself off the buffer of its own client. -/
structure Resyncs (greeting : List Bytes) (reply : Bytes) (recvs : List Bytes) (t : Server) :
    Prop where
  greeted : greeting.length = 3
  full : find? (ascii "+CONTINUE") reply = none
  whole : ∀ rdb leftover rest, Handshake.readRdb recvs reply = .ok (rdb, leftover, rest) → rest = []
  connects : ∃ fd s clk host port linked, Unlinked fd s ∧ s.connectToMaster clk
    { socket := some fd, recvs := greeting ++ reply :: recvs } host port = (linked, none) ∧
    (t = linked ∨ ∃ d n, d < s.nextId ∧ t = linked.eraseRead d n)

variable {greeting recvs : List Bytes} {reply id rdb tail : Bytes} {offset : ℤ}

structure Entered (reply : Bytes) (recvs : List Bytes) (id : Bytes) (offset : ℤ) (rdb : Bytes)
    (t : Server) (up : ClientId) (client : Client) : Prop where
  consistent : Consistent t
  link : t.masterClient = some up
  uplink : Uplink t up client (t.wire up)
  unread : reply ++ recvs.flatten = fullResyncHeader id offset ++ bulkPayload rdb ++ client.readBuf
  nonneg : 0 ≤ t.replInfo.masterReplOffset
  le : t.replInfo.masterReplOffset ≤ offset
  eq : fullResyncHeader id offset <+: reply → t.replInfo.masterReplOffset = offset

theorem Entered.eraseRead {up : ClientId} {client : Client}
    (h : Entered reply recvs id offset rdb t up client) {d : ClientId} (hne : d ≠ up) (n : ℕ) :
    Entered reply recvs id offset rdb (t.eraseRead d n) up client := by
  have hinfo : (t.eraseRead d n).replInfo = t.replInfo :=
    congrArg Data.replInfo (data_eraseRead d n t)
  have hsame := eraseRead_same d n t
  have hlink := h.uplink.eraseRead hne n
  have hwire : (t.eraseRead d n).wire = t.wire := by
    unfold Server.eraseRead
    split
    · rfl
    · split <;> rfl
  refine ⟨h.consistent.of_same hsame, hsame.masterClient.trans h.link, ?_, h.unread, ?_, ?_, ?_⟩
  · rw [hwire]
    exact hlink
  · exact hinfo ▸ h.nonneg
  · exact hinfo ▸ h.le
  · exact hinfo ▸ h.eq

theorem entered_of_connect {fd : ℕ} (hs : Unlinked fd s) (hlen : greeting.length = 3)
    (hfull : find? (ascii "+CONTINUE") reply = none)
    (hwhole : ∀ rdb leftover rest, Handshake.readRdb recvs reply = .ok (rdb, leftover, rest) →
      rest = [])
    (hconn : s.connectToMaster clk { socket := some fd, recvs := greeting ++ reply :: recvs } host
      port = (t, none)) (hid : IsReplid id) (h₀ : 0 ≤ offset) (hlt : offset < 2 ^ 63)
    (hbytes : reply ++ recvs.flatten <+: fullResyncHeader id offset ++ bulkPayload rdb ++ tail) :
    ∃ client, Entered reply recvs id offset rdb t s.nextId client := by
  have hcons := hs.consistent.connectToMaster hs.link hs.role clk
    { socket := some fd, recvs := greeting ++ reply :: recvs } host port
  rw [hconn] at hcons
  obtain ⟨fd', info, store, leftover, hfd, -, hout, rfl⟩ := connectToMaster_ok hconn
  cases hfd
  obtain ⟨⟨rdb', rest, hread⟩, hoffset⟩ :=
    Handshake.fullResync_ok (Handshake.connect_ok hlen rfl hfull hout)
  obtain ⟨more, hmore⟩ := hbytes
  have htail := Handshake.readRdb_ok (Handshake.dollar_not_mem_header hid.plain offset)
    (Handshake.length_header_lt hid h₀ hlt) hmore hread
  rw [hwhole _ _ _ hread, List.flatten_nil, List.append_nil] at htail
  have hline : fullResyncHeader id offset <+: reply →
      Handshake.fullResyncLine reply = some (id, toStr offset) := by
    rintro ⟨behind, rfl⟩
    exact Handshake.fullResyncLine_header hid.plain offset behind
  have hunread : reply ++ recvs.flatten =
      fullResyncHeader id offset ++ bulkPayload rdb ++ leftover := by
    rw [← htail, ← List.append_assoc, List.append_cancel_right_eq] at hmore
    exact hmore
  have hinfo : 0 ≤ info.masterReplOffset ∧ info.masterReplOffset ≤ offset ∧
      (fullResyncHeader id offset <+: reply → info.masterReplOffset = offset) := by
    rcases hoffset with ⟨hnone, rfl⟩ | ⟨id', digits, hsome, hdigits⟩
    · rw [hs.offset]
      refine ⟨le_refl 0, h₀, fun hp ↦ ?_⟩
      rw [hline hp] at hnone
      cases hnone
    · have hp : fullResyncHeader id offset <+: reply := by
        have hreply : reply <+: fullResyncHeader id offset ++ (bulkPayload rdb ++ leftover) := by
          rw [← List.append_assoc, ← hunread]
          exact List.prefix_append ..
        rcases List.prefix_or_prefix_of_prefix hreply (List.prefix_append ..) with
          ⟨part, hpart⟩ | hp
        · cases part with
          | nil => exact ⟨[], by simpa using hpart.symm⟩
          | cons b part =>
            rw [Handshake.fullResyncLine_part hid.plain hpart nofun] at hsome
            cases hsome
        · exact hp
      rw [hline hp] at hsome
      cases hsome
      have heq := stoll_toStr h₀ hdigits
      exact ⟨heq ▸ h₀, heq.le, fun _ ↦ heq⟩
  exact ⟨_, hcons, rfl, hs.uplink leftover info store, hunread, hinfo.1, hinfo.2.1, hinfo.2.2⟩

theorem Resyncs.entered (h : Resyncs greeting reply recvs t) (hid : IsReplid id) (h₀ : 0 ≤ offset)
    (hlt : offset < 2 ^ 63)
    (hbytes : reply ++ recvs.flatten <+: fullResyncHeader id offset ++ bulkPayload rdb ++ tail) :
    ∃ up client, Entered reply recvs id offset rdb t up client := by
  obtain ⟨fd, s, clk, host, port, linked, hs, hconn, hlinked⟩ := h.connects
  obtain ⟨client, hentered⟩ :=
    entered_of_connect hs h.greeted h.full h.whole hconn hid h₀ hlt hbytes
  rcases hlinked with rfl | ⟨d, n, hd, rfl⟩
  · exact ⟨s.nextId, client, hentered⟩
  · exact ⟨s.nextId, client, hentered.eraseRead hd.ne n⟩

end Server

end RedisLite
