import RedisLite.Frame
import RedisLite.Transfer

namespace RedisLite

namespace Handshake

open Lib.Search
open scoped List

variable {peer : Peer} {host first acc : Bytes} {port : ℤ} {recvs rest : List Bytes}
  {failure : Failure} {i j : ℕ}

def dial (peer : Peer) (host : Bytes) (port : ℤ) : Except Failure (Bytes × List Bytes) := do
  let _ ← openLink peer host port
  sendAndRecv (peer.sends 3) (← greet peer.sends peer.recvs)

theorem connect_eq (clk : Clock) (peer : Peer) (host : Bytes) (port : ℤ) (info : ReplicationInfo)
    (store : Store) : connect clk peer host port info store =
      match dial peer host port with
      | .error f => ⟨info, store, .error f⟩
      | .ok (first, recvs) =>
        if (find? (ascii "+CONTINUE") first).isSome then ⟨info, store, .ok []⟩
        else if (find? (ascii "+FULLRESYNC") first).isSome then
          fullResync clk first recvs info store
        else
          ⟨info, store, .error (.runtimeError (ascii "Unexpected PSYNC response from master"))⟩ :=
  rfl

def wanted : ℕ → Bytes
  | 0 => ascii "+PONG"
  | _ => ascii "+OK"

/-- The connection is made, and the requests before number `i` are sent and answered as they
should be: number `i` is the next one. -/
structure Asked (peer : Peer) (i : ℕ) : Prop where
  socket : peer.socket ≠ none
  resolves : peer.resolves = true
  connects : peer.connects = true
  sent : ∀ j < i, peer.sends j = .sent
  answered : ∀ j < i, ∃ reply, peer.recvs[j]? = some reply ∧ wanted j <:+: reply

structure Answered (peer : Peer) (first : Bytes) (recvs : List Bytes) : Prop where
  asked : Asked peer 3
  sent : peer.sends 3 = .sent
  received : peer.recvs.drop 3 = first :: recvs
  nonempty : first ≠ []

/-- No request of the handshake meets a broken pipe. -/
def Unbroken (peer : Peer) : Prop := ∀ i < 4, Asked peer i → peer.sends i ≠ .pipe

theorem asked_succ : Asked peer (i + 1) ↔ Asked peer i ∧ peer.sends i = .sent ∧
    ∃ reply, peer.recvs[i]? = some reply ∧ wanted i <:+: reply := by
  constructor
  · intro h
    refine ⟨⟨h.socket, h.resolves, h.connects, ?_, ?_⟩, h.sent i (Nat.lt_succ_self i),
      h.answered i (Nat.lt_succ_self i)⟩
    · exact fun j hj ↦ h.sent j (Nat.lt_succ_of_lt hj)
    · exact fun j hj ↦ h.answered j (Nat.lt_succ_of_lt hj)
  · rintro ⟨h, hsent, hreply⟩
    refine ⟨h.socket, h.resolves, h.connects, fun j hj ↦ ?_, fun j hj ↦ ?_⟩
    · rcases Nat.lt_succ_iff_lt_or_eq.mp hj with hj | rfl
      · exact h.sent j hj
      · exact hsent
    · rcases Nat.lt_succ_iff_lt_or_eq.mp hj with hj | rfl
      · exact h.answered j hj
      · exact hreply

theorem Asked.of_le (h : Asked peer i) (hj : j ≤ i) : Asked peer j := by
  induction hj with
  | refl => exact h
  | step _ ih => exact ih (asked_succ.mp h).1

theorem Answered.unique {first' : Bytes} {recvs' : List Bytes} (h : Answered peer first recvs)
    (h' : Answered peer first' recvs') : first' = first ∧ recvs' = recvs := by
  have heq := h.received.symm.trans h'.received
  injection heq with hfirst hrecvs
  exact ⟨hfirst.symm, hrecvs.symm⟩

theorem unbroken_iff (hi : i < 4) (h : Asked peer i) (hnot : ¬Asked peer (i + 1)) :
    Unbroken peer ↔ peer.sends i ≠ .pipe := by
  refine ⟨fun hall ↦ hall i hi h, fun hne j _ hj ↦ ?_⟩
  rcases Nat.lt_trichotomy j i with hlt | rfl | hlt
  · rw [h.sent j hlt]
    exact Sending.noConfusion
  · exact hne
  · exact absurd (hj.of_le hlt) hnot

theorem Answered.unbroken (h : Answered peer first recvs) : Unbroken peer := by
  intro i hi _
  have hsent : peer.sends i = .sent := by
    rcases Nat.lt_succ_iff_lt_or_eq.mp hi with hlt | rfl
    · exact h.asked.sent i hlt
    · exact h.sent
  rw [hsent]
  exact Sending.noConfusion

theorem sendAndRecv_ok_iff {sending : Sending} :
    sendAndRecv sending recvs = .ok (first, rest) ↔
      sending = .sent ∧ recvs = first :: rest ∧ first ≠ [] := by
  cases sending with
  | pipe => simp [sendAndRecv]
  | failed => simp [sendAndRecv]
  | sent =>
    cases recvs with
    | nil => simp [sendAndRecv]
    | cons chunk recvs =>
      cases chunk with
      | nil =>
        simp only [sendAndRecv, List.isEmpty_nil, if_true, true_and]
        refine iff_of_false nofun ?_
        rintro ⟨heq, hne⟩
        injection heq with heq
        exact hne heq.symm
      | cons b chunk =>
        simp only [sendAndRecv, List.isEmpty_cons, Bool.false_eq_true, if_false, true_and]
        constructor
        · intro h
          cases h
          exact ⟨rfl, List.cons_ne_nil b chunk⟩
        · rintro ⟨heq, -⟩
          injection heq with hfirst hrest
          rw [hfirst, hrest]

theorem sendAndRecv_error {sending : Sending} (h : sendAndRecv sending recvs = .error failure) :
    failure.Caught ↔ sending ≠ .pipe := by
  unfold sendAndRecv at h
  split at h
  · cases h
    exact iff_of_false id (fun hne ↦ hne rfl)
  · cases h
    exact iff_of_true trivial Sending.noConfusion
  · split at h
    · cases h
      exact iff_of_true trivial Sending.noConfusion
    · split at h
      · cases h
        exact iff_of_true trivial Sending.noConfusion
      · cases h

theorem expect_ok_iff {w what : String} {sending : Sending} (hw : ascii w ≠ []) :
    expect w what sending recvs = .ok rest ↔
      sending = .sent ∧ ∃ reply, recvs = reply :: rest ∧ ascii w <:+: reply := by
  cases hrecv : sendAndRecv sending recvs with
  | error f =>
    simp only [expect, hrecv]
    refine iff_of_false nofun ?_
    rintro ⟨hsent, reply, hrecvs, hreply⟩
    have hok := sendAndRecv_ok_iff.mpr
      ⟨hsent, hrecvs, fun hnil ↦ hw (List.infix_nil.mp (hnil ▸ hreply))⟩
    rw [hrecv] at hok
    cases hok
  | ok answer =>
    obtain ⟨reply, rest'⟩ := answer
    obtain ⟨hsent, hrecvs, -⟩ := sendAndRecv_ok_iff.mp hrecv
    simp only [expect, hrecv, Option.isNone_iff_eq_none, find?_eq_none_iff]
    constructor
    · intro h
      split at h
      · cases h
      · next hreply =>
        cases h
        exact ⟨hsent, reply, hrecvs, not_not.mp hreply⟩
    · rintro ⟨-, reply', hrecvs', hreply⟩
      rw [hrecvs] at hrecvs'
      injection hrecvs' with heq hrest
      rw [heq, hrest, if_neg (not_not_intro hreply)]

theorem expect_error {w what : String} {sending : Sending}
    (h : expect w what sending recvs = .error failure) : failure.Caught ↔ sending ≠ .pipe := by
  unfold expect at h
  split at h
  · next hrecv =>
    cases h
    exact sendAndRecv_error hrecv
  · next hrecv =>
    split at h
    · cases h
      rw [(sendAndRecv_ok_iff.mp hrecv).1]
      exact iff_of_true trivial Sending.noConfusion
    · cases h

theorem drop_eq_cons_iff {α : Type} {l rest : List α} {a : α} :
    l.drop i = a :: rest ↔ l[i]? = some a ∧ rest = l.drop (i + 1) := by
  rw [← List.head?_drop, ← List.tail_drop]
  cases l.drop i with
  | nil => simp
  | cons b l => simp [eq_comm]

theorem expect_spec {w : String} (what : String) (hw : wanted i = ascii w) (hne : ascii w ≠ [])
    (hi : i < 4) (h : Asked peer i) :
    Asked peer (i + 1) ∧
      expect w what (peer.sends i) (peer.recvs.drop i) = .ok (peer.recvs.drop (i + 1)) ∨
    ¬Asked peer (i + 1) ∧ ∃ f, expect w what (peer.sends i) (peer.recvs.drop i) = .error f ∧
      (f.Caught ↔ Unbroken peer) := by
  have hok (rest : List Bytes) : expect w what (peer.sends i) (peer.recvs.drop i) = .ok rest ↔
      Asked peer (i + 1) ∧ rest = peer.recvs.drop (i + 1) := by
    rw [expect_ok_iff hne, asked_succ, hw]
    simp only [drop_eq_cons_iff]
    constructor
    · rintro ⟨hsent, reply, ⟨hreply, hrest⟩, hin⟩
      exact ⟨⟨h, hsent, reply, hreply, hin⟩, hrest⟩
    · rintro ⟨⟨-, hsent, reply, hreply, hin⟩, hrest⟩
      exact ⟨hsent, reply, ⟨hreply, hrest⟩, hin⟩
  by_cases hnext : Asked peer (i + 1)
  · exact .inl ⟨hnext, (hok _).mpr ⟨hnext, rfl⟩⟩
  · refine .inr ⟨hnext, ?_⟩
    cases hexpect : expect w what (peer.sends i) (peer.recvs.drop i) with
    | ok rest => exact absurd ((hok rest).mp hexpect).1 hnext
    | error f => exact ⟨f, rfl, (expect_error hexpect).trans (unbroken_iff hi h hnext).symm⟩

theorem greet_spec (h : Asked peer 0) :
    Asked peer 3 ∧ greet peer.sends peer.recvs = .ok (peer.recvs.drop 3) ∨
    ¬Asked peer 3 ∧ ∃ f, greet peer.sends peer.recvs = .error f ∧
      (f.Caught ↔ Unbroken peer) := by
  have hpong := expect_spec (i := 0) (w := "+PONG") "Expected +PONG from master" rfl
    (by decide) (by decide) h
  rw [List.drop_zero] at hpong
  rcases hpong with ⟨h, hpong⟩ | ⟨hnot, f, hpong, hf⟩
  · rcases expect_spec (i := 1) (w := "+OK")
      "Expected +OK for REPLCONF listening-port" rfl (by decide) (by decide) h with
      ⟨h, hport⟩ | ⟨hnot, f, hport, hf⟩
    · simp only [greet, hpong, hport, bind, Except.bind]
      exact expect_spec _ rfl (by decide) (by decide) h
    · simp only [greet, hpong, hport, bind, Except.bind]
      exact .inr ⟨fun h ↦ hnot (h.of_le (by decide)), f, rfl, hf⟩
  · simp only [greet, hpong, bind, Except.bind]
    exact .inr ⟨fun h ↦ hnot (h.of_le (by decide)), f, rfl, hf⟩

theorem openLink_spec (peer : Peer) (host : Bytes) (port : ℤ) :
    Asked peer 0 ∧ (∃ fd, openLink peer host port = .ok fd) ∨
    ¬Asked peer 0 ∧ ∃ f, openLink peer host port = .error f ∧ f.Caught := by
  unfold openLink
  split
  · next hsocket => exact .inr ⟨fun h ↦ h.socket hsocket, _, rfl, trivial⟩
  · next fd hsocket =>
    split
    · next hresolves =>
      refine .inr ⟨fun h ↦ ?_, _, rfl, trivial⟩
      simp [h.resolves] at hresolves
    · next hresolves =>
      split
      · next hconnects =>
        refine .inr ⟨fun h ↦ ?_, _, rfl, trivial⟩
        simp [h.connects] at hconnects
      · next hconnects =>
        have hne : peer.socket ≠ none := by
          rw [hsocket]
          exact Option.some_ne_none fd
        refine .inl ⟨⟨hne, ?_, ?_, nofun, nofun⟩, fd, rfl⟩
        · simpa using hresolves
        · simpa using hconnects

theorem dial_spec (peer : Peer) (host : Bytes) (port : ℤ) :
    (∃ first recvs, Answered peer first recvs ∧ dial peer host port = .ok (first, recvs)) ∨
    (∀ first recvs, ¬Answered peer first recvs) ∧ ∃ f, dial peer host port = .error f ∧
      (f.Caught ↔ Unbroken peer) := by
  rcases openLink_spec peer host port with ⟨h, fd, hlink⟩ | ⟨hnot, f, hlink, hf⟩
  · rcases greet_spec h with ⟨h, hgreet⟩ | ⟨hnot, f, hgreet, hf⟩
    · simp only [dial, hlink, hgreet, bind, Except.bind]
      cases hrecv : sendAndRecv (peer.sends 3) (peer.recvs.drop 3) with
      | ok answer =>
        obtain ⟨hsent, hrecvs, hne⟩ := sendAndRecv_ok_iff.mp hrecv
        exact .inl ⟨_, _, ⟨h, hsent, hrecvs, hne⟩, rfl⟩
      | error f =>
        have hnot (first : Bytes) (recvs : List Bytes) : ¬Answered peer first recvs := by
          intro hans
          rw [sendAndRecv_ok_iff.mpr ⟨hans.sent, hans.received, hans.nonempty⟩] at hrecv
          cases hrecv
        refine .inr ⟨hnot, f, rfl, (sendAndRecv_error hrecv).trans ?_⟩
        refine ⟨fun hne i hi hasked ↦ ?_, fun hall ↦ hall 3 (by decide) h⟩
        rcases Nat.lt_succ_iff_lt_or_eq.mp hi with hlt | rfl
        · rw [h.sent i hlt]
          exact Sending.noConfusion
        · exact hne
    · simp only [dial, hlink, hgreet, bind, Except.bind]
      exact .inr ⟨fun _ _ hans ↦ hnot hans.asked, f, rfl, hf⟩
  · simp only [dial, hlink, bind, Except.bind]
    refine .inr ⟨fun _ _ hans ↦ hnot (hans.asked.of_le (by decide)), f, rfl, ?_⟩
    exact iff_of_true hf (fun i _ hasked ↦ absurd (hasked.of_le (Nat.zero_le i)) hnot)

theorem dial_ok_iff : dial peer host port = .ok (first, recvs) ↔ Answered peer first recvs := by
  rcases dial_spec peer host port with ⟨first', recvs', hans, hdial⟩ | ⟨hnot, f, hdial, -⟩
  · rw [hdial]
    constructor
    · intro h
      cases h
      exact hans
    · intro h
      obtain ⟨rfl, rfl⟩ := h.unique hans
      rfl
  · rw [hdial]
    exact iff_of_false nofun (hnot first recvs)

structure Resynced (peer : Peer) (first : Bytes) (recvs : List Bytes) : Prop extends
    Answered peer first recvs where
  full : ascii "+FULLRESYNC" <:+: first
  notPartial : ¬ascii "+CONTINUE" <:+: first

/-- The offset of the line converts, if the line is there. -/
def OffsetReads (first : Bytes) : Prop :=
  ∀ id digits, fullResyncLine first = some (id, digits) → ∃ n, stoll digits = .ok n

def Whole (acc : Bytes) : Prop :=
  ∃ start digits len, rdbHeader acc = some (start, digits) ∧ stoi digits = .ok len ∧
    toSize (start + len) ≤ acc.length

def Arrives (acc : Bytes) (recvs : List Bytes) : Prop :=
  ∃ n, (∀ chunk ∈ recvs.take n, chunk ≠ []) ∧ Whole (acc ++ (recvs.take n).flatten)

/-- The peer resumes the stream, or sends all of a snapshot. -/
def Admits (peer : Peer) : Prop :=
  ∃ first recvs, Answered peer first recvs ∧ (ascii "+CONTINUE" <:+: first ∨
    ascii "+FULLRESYNC" <:+: first ∧ OffsetReads first ∧ Arrives first recvs)

/-- The peer neither breaks the connection before the last request, nor sends an offset that does
not convert. -/
def Survives (peer : Peer) : Prop :=
  Unbroken peer ∧ ∀ first recvs, Resynced peer first recvs → OffsetReads first

/-- The peer answers with a full resync from replication ID `id` and offset `n`. -/
def Announces (peer : Peer) (id : Bytes) (n : ℤ) : Prop :=
  ∃ first recvs digits, Resynced peer first recvs ∧ fullResyncLine first = some (id, digits) ∧
    stoll digits = .ok n

theorem Announces.unique {id id' : Bytes} {n n' : ℤ} (h : Announces peer id n)
    (h' : Announces peer id' n') : id' = id ∧ n' = n := by
  obtain ⟨first, recvs, digits, hans, hline, hn⟩ := h
  obtain ⟨first', recvs', digits', hans', hline', hn'⟩ := h'
  obtain ⟨rfl, rfl⟩ := hans.toAnswered.unique hans'.toAnswered
  rw [hline] at hline'
  cases hline'
  rw [hn] at hn'
  cases hn'
  exact ⟨rfl, rfl⟩

theorem rdbTake_error {f : Failure} (h : rdbTake acc = some (.error f)) :
    f.Caught ∧ ∀ more, ¬Whole (acc ++ more) := by
  unfold rdbTake at h
  split at h
  · cases h
  · next start digits hheader =>
    split at h
    · next hlen =>
      cases h
      refine ⟨trivial, ?_⟩
      rintro more ⟨start', digits', len, hheader', hlen', -⟩
      rw [rdbHeader_append hheader more] at hheader'
      cases hheader'
      rw [hlen] at hlen'
      cases hlen'
    · split at h <;> cases h

theorem rdbTake_none (h : rdbTake acc = none) : ¬Whole acc := by
  rintro ⟨start, digits, len, hheader, hlen, hle⟩
  simp only [rdbTake, hheader, hlen] at h
  split at h
  · omega
  · cases h

theorem rdbTake_whole {rdb leftover : Bytes} (h : rdbTake acc = some (.ok (rdb, leftover))) :
    Whole acc := by
  unfold rdbTake at h
  split at h
  · cases h
  · next start digits hheader =>
    split at h
    · cases h
    · next len hlen =>
      split at h
      · cases h
      · next hlt => exact ⟨start, digits, len, hheader, hlen, Nat.le_of_not_lt hlt⟩

theorem arrives_cons {chunk : Bytes} (hnot : ¬Whole acc) :
    Arrives acc (chunk :: recvs) ↔ chunk ≠ [] ∧ Arrives (acc ++ chunk) recvs := by
  constructor
  · rintro ⟨n, hne, hwhole⟩
    cases n with
    | zero => exact absurd (by simpa using hwhole) hnot
    | succ n =>
      rw [List.take_succ_cons] at hne hwhole
      obtain ⟨hchunk, hne⟩ := List.forall_mem_cons.mp hne
      refine ⟨hchunk, n, hne, ?_⟩
      rwa [List.flatten_cons, ← List.append_assoc] at hwhole
  · rintro ⟨hchunk, n, hne, hwhole⟩
    refine ⟨n + 1, ?_, ?_⟩
    · rw [List.take_succ_cons]
      exact List.forall_mem_cons.mpr ⟨hchunk, hne⟩
    · rwa [List.take_succ_cons, List.flatten_cons, ← List.append_assoc]

theorem readRdb_spec (recvs : List Bytes) (acc : Bytes) :
    Arrives acc recvs ∧ (∃ read, readRdb recvs acc = .ok read) ∨
    ¬Arrives acc recvs ∧ ∃ f, readRdb recvs acc = .error f ∧ f.Caught := by
  induction recvs generalizing acc with
  | nil =>
    have hnil : Arrives acc [] ↔ Whole acc := by simp [Arrives]
    rw [hnil]
    unfold readRdb
    split
    · next htake => exact .inl ⟨rdbTake_whole htake, _, rfl⟩
    · next htake =>
      obtain ⟨hcaught, hnot⟩ := rdbTake_error htake
      exact .inr ⟨by simpa using hnot [], _, rfl, hcaught⟩
    · next htake => exact .inr ⟨rdbTake_none htake, _, rfl, trivial⟩
  | cons chunk recvs ih =>
    unfold readRdb
    split
    · next htake => exact .inl ⟨⟨0, by simp, by simpa using rdbTake_whole htake⟩, _, rfl⟩
    · next htake =>
      obtain ⟨hcaught, hnot⟩ := rdbTake_error htake
      exact .inr ⟨fun ⟨_, _, hwhole⟩ ↦ hnot _ hwhole, _, rfl, hcaught⟩
    · next htake =>
      rw [arrives_cons (rdbTake_none htake)]
      split
      · next hempty => exact .inr ⟨fun h ↦ h.1 (List.isEmpty_iff.mp hempty), _, rfl, trivial⟩
      · next hempty =>
        have hchunk : chunk ≠ [] := fun h ↦ hempty (List.isEmpty_iff.mpr h)
        simpa only [hchunk, ne_eq, not_false_eq_true, true_and] using ih (acc ++ chunk)

section Connect

variable {clk : Clock} {info : ReplicationInfo} {store : Store} {id : Bytes} {n : ℤ}

def receive (clk : Clock) (first : Bytes) (recvs : List Bytes) (store : Store)
    (info : ReplicationInfo) : Outcome :=
  match readRdb recvs first with
  | .error f => ⟨info, store, .error f⟩
  | .ok (rdb, leftover, _) => ⟨info, loadRdb clk rdb store, .ok leftover⟩

theorem receive_info : (receive clk first recvs store info).info = info := by
  unfold receive
  split <;> rfl

theorem fullResync_eq (clk : Clock) (first : Bytes) (recvs : List Bytes) (info : ReplicationInfo)
    (store : Store) : fullResync clk first recvs info store =
      match fullResyncLine first with
      | none => receive clk first recvs store info
      | some (id, offset) =>
        match stoll offset with
        | .error _ => ⟨{ info with masterReplid := id }, store, .error .uncaught⟩
        | .ok n => receive clk first recvs store
          { info with masterReplid := id, masterReplOffset := n } := rfl

inductive Noted (first : Bytes) (info : ReplicationInfo) : ReplicationInfo → Prop
  | unread (hline : fullResyncLine first = none) : Noted first info info
  | read (id digits : Bytes) (n : ℤ) (hline : fullResyncLine first = some (id, digits))
    (hn : stoll digits = .ok n) :
    Noted first info { info with masterReplid := id, masterReplOffset := n }

theorem fullResync_spec (clk : Clock) (first : Bytes) (recvs : List Bytes)
    (info : ReplicationInfo) (store : Store) :
    (OffsetReads first ∧ ∃ info', Noted first info info' ∧
      fullResync clk first recvs info store = receive clk first recvs store info') ∨
    ¬OffsetReads first ∧ (fullResync clk first recvs info store).result = .error .uncaught := by
  rw [fullResync_eq]
  cases hline : fullResyncLine first with
  | none =>
    refine .inl ⟨fun _ _ h ↦ ?_, info, .unread hline, rfl⟩
    rw [hline] at h
    cases h
  | some line =>
    obtain ⟨id, digits⟩ := line
    cases hn : stoll digits with
    | ok n =>
      refine .inl ⟨fun _ _ h ↦ ?_, _, .read id digits n hline hn, by simp only [hn]⟩
      rw [hline] at h
      cases h
      exact ⟨n, hn⟩
    | error e =>
      refine .inr ⟨fun h ↦ ?_, by simp only [hn]⟩
      obtain ⟨n, hok⟩ := h id digits hline
      rw [hn] at hok
      cases hok

inductive Met (clk : Clock) (peer : Peer) (info : ReplicationInfo) (store : Store) :
    Outcome → Prop
  | unanswered (hnot : ∀ first recvs, ¬Answered peer first recvs) (failure : Failure)
    (hcaught : failure.Caught ↔ Unbroken peer) :
    Met clk peer info store ⟨info, store, .error failure⟩
  | resumed (first : Bytes) (recvs : List Bytes) (hans : Answered peer first recvs)
    (hcontinue : ascii "+CONTINUE" <:+: first) : Met clk peer info store ⟨info, store, .ok []⟩
  | strange (first : Bytes) (recvs : List Bytes) (hans : Answered peer first recvs)
    (hcontinue : ¬ascii "+CONTINUE" <:+: first) (hfull : ¬ascii "+FULLRESYNC" <:+: first)
    (what : Bytes) : Met clk peer info store ⟨info, store, .error (.runtimeError what)⟩
  | full (first : Bytes) (recvs : List Bytes) (hans : Resynced peer first recvs) :
    Met clk peer info store (fullResync clk first recvs info store)

theorem connect_met (clk : Clock) (peer : Peer) (host : Bytes) (port : ℤ) (info : ReplicationInfo)
    (store : Store) : Met clk peer info store (connect clk peer host port info store) := by
  rw [connect_eq]
  rcases dial_spec peer host port with ⟨first, recvs, hans, hdial⟩ | ⟨hnot, f, hdial, hf⟩
  · simp only [hdial, find?_isSome_iff]
    split
    · next hcontinue => exact .resumed first recvs hans hcontinue
    · next hcontinue =>
      split
      · next hfull => exact .full first recvs ⟨hans, hfull, hcontinue⟩
      · next hfull => exact .strange first recvs hans hcontinue hfull _
  · simp only [hdial]
    exact .unanswered hnot f hf

theorem Resynced.admits_iff (h : Resynced peer first recvs) :
    Admits peer ↔ OffsetReads first ∧ Arrives first recvs := by
  constructor
  · rintro ⟨first', recvs', hans, hadmits⟩
    obtain ⟨rfl, rfl⟩ := h.toAnswered.unique hans
    exact (hadmits.resolve_left h.notPartial).2
  · intro hboth
    exact ⟨first, recvs, h.toAnswered, .inr ⟨h.full, hboth⟩⟩

theorem Resynced.survives_iff (h : Resynced peer first recvs) :
    Survives peer ↔ OffsetReads first := by
  refine ⟨fun hs ↦ hs.2 first recvs h, fun hreads ↦ ⟨h.toAnswered.unbroken, ?_⟩⟩
  intro first' recvs' h'
  obtain ⟨rfl, rfl⟩ := h.toAnswered.unique h'.toAnswered
  exact hreads

theorem Resynced.announces_iff (h : Resynced peer first recvs) :
    Announces peer id n ↔ ∃ digits, fullResyncLine first = some (id, digits) ∧
      stoll digits = .ok n := by
  constructor
  · rintro ⟨first', recvs', digits, h', hboth⟩
    obtain ⟨rfl, rfl⟩ := h.toAnswered.unique h'.toAnswered
    exact ⟨digits, hboth⟩
  · rintro ⟨digits, hboth⟩
    exact ⟨first, recvs, digits, h, hboth⟩

theorem survives_of_not_resynced (h : ∀ first recvs, ¬Resynced peer first recvs) :
    Survives peer ↔ Unbroken peer :=
  ⟨And.left, fun hu ↦ ⟨hu, fun first recvs hfull ↦ absurd hfull (h first recvs)⟩⟩

theorem Answered.not_resynced (h : Answered peer first recvs)
    (hplain : ascii "+CONTINUE" <:+: first ∨ ¬ascii "+FULLRESYNC" <:+: first) (first' : Bytes)
    (recvs' : List Bytes) : ¬Resynced peer first' recvs' := by
  intro h'
  obtain ⟨rfl, rfl⟩ := h.unique h'.toAnswered
  exact hplain.elim h'.notPartial (fun hnot ↦ hnot h'.full)

/-- Whether there is a link, and whether a failure is caught, lies in the peer's answers alone. -/
theorem connect_result (clk : Clock) (peer : Peer) (host : Bytes) (port : ℤ)
    (info : ReplicationInfo) (store : Store) :
    (Admits peer ∧ ∃ leftover, (connect clk peer host port info store).result = .ok leftover) ∨
    ¬Admits peer ∧ ∃ failure, (connect clk peer host port info store).result = .error failure ∧
      (failure.Caught ↔ Survives peer) := by
  have hmet := connect_met clk peer host port info store
  generalize connect clk peer host port info store = out at hmet ⊢
  cases hmet with
  | unanswered hnot failure hcaught =>
    refine .inr ⟨fun ⟨first, recvs, hans, _⟩ ↦ hnot first recvs hans, failure, rfl, ?_⟩
    rw [survives_of_not_resynced (fun first recvs h ↦ hnot first recvs h.toAnswered)]
    exact hcaught
  | resumed first recvs hans hcontinue =>
    exact .inl ⟨⟨first, recvs, hans, .inl hcontinue⟩, [], rfl⟩
  | strange first recvs hans hcontinue hfull what =>
    refine .inr ⟨?_, _, rfl, iff_of_true trivial ?_⟩
    · rintro ⟨first', recvs', hans', hadmits⟩
      obtain ⟨rfl, rfl⟩ := hans.unique hans'
      exact hadmits.elim hcontinue (fun h ↦ hfull h.1)
    · exact (survives_of_not_resynced (hans.not_resynced (.inr hfull))).mpr hans.unbroken
  | full first recvs hans =>
    rw [hans.admits_iff, hans.survives_iff]
    rcases fullResync_spec clk first recvs info store with ⟨hreads, info', -, heq⟩ | ⟨hnot, herr⟩
    · rw [heq, receive]
      rcases readRdb_spec recvs first with ⟨harrives, read, hread⟩ | ⟨hnot, f, hread, hf⟩
      · rw [hread]
        exact .inl ⟨⟨hreads, harrives⟩, _, rfl⟩
      · rw [hread]
        exact .inr ⟨fun h ↦ hnot h.2, f, rfl, iff_of_true hf hreads⟩
    · exact .inr ⟨fun h ↦ hnot h.1, _, herr, iff_of_false id hnot⟩

/-- ID and offset are those that the peer announces, if any. -/
theorem connect_info_spec (clk : Clock) (host : Bytes) (port : ℤ) (info : ReplicationInfo)
    (store : Store) (hs : Survives peer) :
    (∃ id n, Announces peer id n ∧ (connect clk peer host port info store).info =
      { info with masterReplid := id, masterReplOffset := n }) ∨
    (∀ id n, ¬Announces peer id n) ∧ (connect clk peer host port info store).info = info := by
  have hmet := connect_met clk peer host port info store
  generalize connect clk peer host port info store = out at hmet ⊢
  have hsilent (hnot : ∀ first recvs, ¬Resynced peer first recvs) (id : Bytes) (n : ℤ) :
      ¬Announces peer id n := fun ⟨first, recvs, _, h, _⟩ ↦ hnot first recvs h
  cases hmet with
  | unanswered hnot =>
    exact .inr ⟨hsilent (fun first recvs h ↦ hnot first recvs h.toAnswered), rfl⟩
  | resumed first recvs hans hcontinue =>
    exact .inr ⟨hsilent (hans.not_resynced (.inl hcontinue)), rfl⟩
  | strange first recvs hans hcontinue hfull =>
    exact .inr ⟨hsilent (hans.not_resynced (.inr hfull)), rfl⟩
  | full first recvs hans =>
    rcases fullResync_spec clk first recvs info store with ⟨-, info', hnoted, heq⟩ | ⟨hnot, -⟩
    · rw [heq, receive_info]
      cases hnoted with
      | unread hline =>
        refine .inr ⟨fun id n h ↦ ?_, rfl⟩
        obtain ⟨digits, hline', -⟩ := hans.announces_iff.mp h
        rw [hline] at hline'
        cases hline'
      | read id digits n hline hn =>
        exact .inl ⟨id, n, hans.announces_iff.mpr ⟨digits, hline, hn⟩, rfl⟩
    · exact absurd (hans.survives_iff.mp hs) hnot

end Connect

section Behind

def rdbEnd (acc : Bytes) : Option ℕ :=
  match rdbHeader acc with
  | none => none
  | some (start, digits) =>
    match stoi digits with
    | .error _ => none
    | .ok len => if toSize (start + len) ≤ acc.length then some (toSize (start + len)) else none

def behindRdb : List Bytes → Bytes → Bytes
  | [], acc => ((rdbEnd acc).map acc.drop).getD []
  | chunk :: recvs, acc =>
    match rdbEnd acc with
    | some stop => acc.drop stop
    | none => if chunk.isEmpty then [] else behindRdb recvs (acc ++ chunk)

/-- The bytes behind the answer to `PSYNC`, in the last piece that the handshake receives of it. -/
def behind (peer : Peer) : Bytes :=
  match peer.recvs.drop 3 with
  | [] => []
  | first :: recvs =>
    if (find? (ascii "+CONTINUE") first).isSome then
      ((find? crlf first).map (fun stop ↦ first.drop (stop + 2))).getD []
    else behindRdb recvs first

/-- No command of the stream is received along with the answer to `PSYNC`: the line of a partial
resync comes alone, and no complete command comes with the end of a snapshot. -/
structure Tidy (peer : Peer) : Prop where
  line : ∀ first recvs, Answered peer first recvs → ascii "+CONTINUE" <:+: first →
    find? crlf first = some (first.length - 2)
  snapshot : ∀ first recvs, Resynced peer first recvs → Resp.next (behind peer) = none

theorem tidy_of_error (h : dial peer host port = .error failure) : Tidy peer := by
  have hnot {first : Bytes} {recvs : List Bytes} : ¬Answered peer first recvs := by
    intro hans
    rw [dial_ok_iff.mpr hans] at h
    cases h
  exact ⟨fun _ _ hans ↦ absurd hans hnot, fun _ _ hans ↦ absurd hans.toAnswered hnot⟩

theorem tidy_of_ok (h : dial peer host port = .ok (first, recvs)) :
    (ascii "+CONTINUE" <:+: first → find? crlf first = some (first.length - 2)) ∧
      (ascii "+FULLRESYNC" <:+: first ∧ ¬ascii "+CONTINUE" <:+: first →
        Resp.next (behind peer) = none) ↔ Tidy peer := by
  have hans := dial_ok_iff.mp h
  constructor
  · rintro ⟨hline, hsnapshot⟩
    refine ⟨fun first' recvs' hans' ↦ ?_, fun first' recvs' hans' ↦ ?_⟩
    · obtain ⟨rfl, rfl⟩ := hans.unique hans'
      exact hline
    · obtain ⟨rfl, rfl⟩ := hans.unique hans'.toAnswered
      exact hsnapshot ⟨hans'.full, hans'.notPartial⟩
  · intro htidy
    refine ⟨htidy.line first recvs hans, fun hfull ↦ ?_⟩
    exact htidy.snapshot first recvs ⟨hans, hfull.1, hfull.2⟩

instance (peer : Peer) : Decidable (Tidy peer) :=
  match hdial : dial peer [] 0 with
  | .error _ => .isTrue (tidy_of_error hdial)
  | .ok (_, _) => decidable_of_iff _ (tidy_of_ok hdial)

theorem rdbTake_eq_ok {rdb leftover : Bytes} (h : rdbTake acc = some (.ok (rdb, leftover))) :
    (rdbEnd acc).map acc.drop = some leftover := by
  cases hheader : rdbHeader acc with
  | none =>
    simp only [rdbTake, hheader] at h
    cases h
  | some header =>
    obtain ⟨start, digits⟩ := header
    cases hlen : stoi digits with
    | error e =>
      simp only [rdbTake, hheader, hlen] at h
      cases h
    | ok len =>
      simp only [rdbTake, hheader, hlen] at h
      simp only [rdbEnd, hheader, hlen]
      split at h
      · cases h
      · next hlt =>
        cases h
        rw [if_pos (Nat.le_of_not_lt hlt), Option.map_some]

theorem rdbEnd_of_none (h : rdbTake acc = none) : rdbEnd acc = none := by
  cases hheader : rdbHeader acc with
  | none => simp only [rdbEnd, hheader]
  | some header =>
    obtain ⟨start, digits⟩ := header
    cases hlen : stoi digits with
    | error e =>
      simp only [rdbTake, hheader, hlen] at h
      cases h
    | ok len =>
      simp only [rdbTake, hheader, hlen] at h
      simp only [rdbEnd, hheader, hlen]
      split at h
      · next hlt => rw [if_neg (Nat.not_le_of_lt hlt)]
      · cases h

theorem readRdb_leftover {rdb leftover : Bytes}
    (h : readRdb recvs acc = .ok (rdb, leftover, rest)) : leftover = behindRdb recvs acc := by
  induction recvs generalizing acc with
  | nil =>
    unfold readRdb at h
    split at h
    · next htake =>
      cases h
      rw [behindRdb, rdbTake_eq_ok htake, Option.getD_some]
    · cases h
    · cases h
  | cons chunk recvs ih =>
    unfold readRdb at h
    split at h
    · next htake =>
      cases h
      obtain ⟨stop, hstop, rfl⟩ := Option.map_eq_some_iff.mp (rdbTake_eq_ok htake)
      simp only [behindRdb, hstop]
    · cases h
    · next htake =>
      split at h
      · cases h
      · next hchunk =>
        simp only [behindRdb, rdbEnd_of_none htake]
        rw [if_neg hchunk]
        exact ih h

theorem behind_of_continue (hans : Answered peer first recvs)
    (hcontinue : ascii "+CONTINUE" <:+: first)
    (hline : find? crlf first = some (first.length - 2)) : behind peer = [] := by
  have hlen := find?_le hline
  have hcrlf : crlf.length = 2 := rfl
  simp only [behind, hans.received, find?_isSome_iff.mpr hcontinue, if_true, hline,
    Option.map_some, Option.getD_some]
  exact List.drop_of_length_le (by omega)

theorem behind_of_fullResync (hans : Resynced peer first recvs) :
    behind peer = behindRdb recvs first := by
  have hnone : ¬(find? (ascii "+CONTINUE") first).isSome = true := fun hsome ↦
    hans.notPartial (find?_isSome_iff.mp hsome)
  simp only [behind, hans.received, hnone, Bool.false_eq_true, if_false]

/-- With a tidy peer the read buffer of a new link has all that was received behind the answer, and
no complete command. -/
theorem connect_leftover {clk : Clock} {info info' : ReplicationInfo} {store store' : Store}
    {leftover : Bytes} (h : connect clk peer host port info store = ⟨info', store', .ok leftover⟩)
    (htidy : Tidy peer) : leftover = behind peer ∧ Resp.next leftover = none := by
  have hmet := connect_met clk peer host port info store
  rw [h] at hmet
  generalize hout : (⟨info', store', .ok leftover⟩ : Outcome) = out at hmet
  cases hmet with
  | unanswered | strange => cases hout
  | resumed first recvs hans hcontinue =>
    cases hout
    rw [behind_of_continue hans hcontinue (htidy.line first recvs hans hcontinue)]
    exact ⟨rfl, rfl⟩
  | full first recvs hans =>
    have hleft : leftover = behindRdb recvs first := by
      rcases fullResync_spec clk first recvs info store with ⟨-, info'', -, heq⟩ | ⟨-, herr⟩
      · rw [heq, receive] at hout
        split at hout
        · cases hout
        · next hread =>
          cases hout
          exact readRdb_leftover hread
      · rw [← hout] at herr
        cases herr
    have hnext := htidy.snapshot first recvs hans
    rw [behind_of_fullResync hans] at hnext ⊢
    rw [hleft]
    exact ⟨rfl, hnext⟩

end Behind

end Handshake

namespace Server

open Handshake

variable {s t : Server} {env : Env} {c : ClientId} {host : Bytes} {port : ℤ}

theorem connectToMaster_result (clk : Clock) (peer : Peer) (host : Bytes) (port : ℤ)
    (s : Server) :
    (Admits (s.granting peer) ∧ ∃ t, s.connectToMaster clk peer host port = (t, none)) ∨
    ¬Admits (s.granting peer) ∧ ∃ t failure,
      s.connectToMaster clk peer host port = (t, some failure) ∧
        (failure.Caught ↔ Survives (s.granting peer)) := by
  have hcon := connectToMaster_connected clk peer host port s
  generalize s.connectToMaster clk peer host port = out at hcon ⊢
  rcases connect_result clk (s.granting peer) host port s.replInfo s.store with
    ⟨hadmits, leftover, hresult⟩ | ⟨hnot, failure, hresult, hcaught⟩
  · cases hcon with
    | linked => exact .inl ⟨hadmits, _, rfl⟩
    | failed id n store failure hout =>
      rw [hout] at hresult
      cases hresult
  · cases hcon with
    | linked fd id n store leftover hfd hout =>
      rw [hout] at hresult
      cases hresult
    | failed id n store failure hout =>
      rw [hout] at hresult
      cases hresult
      exact .inr ⟨hnot, _, _, rfl, hcaught⟩

/-- The peer of a demotion, as the server meets it after it has closed its old connections. -/
def demotionPeer (env : Env) (c : ClientId) (host : Bytes) (port : ℤ) (s : Server) : Peer :=
  (demote c host port { s with sends := env.sends }).granting env.peer

theorem handshakeFrom_admits :
    (s.handshakeFrom env c host port).2 = none ↔ Admits (s.demotionPeer env c host port) := by
  rcases connectToMaster_result env.clock env.peer host port
    (demote c host port { s with sends := env.sends }) with
    ⟨hadmits, t, ht⟩ | ⟨hnot, t, failure, ht, -⟩
  · rw [handshakeFrom, ht]
    exact iff_of_true rfl hadmits
  · rw [handshakeFrom, ht]
    exact iff_of_false nofun hnot

theorem handshakeFrom_failure {failure : Failure}
    (h : s.handshakeFrom env c host port = (t, some failure)) :
    failure.Caught ↔ Survives (s.demotionPeer env c host port) := by
  rcases connectToMaster_result env.clock env.peer host port
    (demote c host port { s with sends := env.sends }) with
    ⟨-, t', ht⟩ | ⟨-, t', failure', ht, hcaught⟩
  · rw [handshakeFrom, ht] at h
    cases h
  · rw [handshakeFrom, ht] at h
    cases h
    exact hcaught

theorem handshakeFrom_reverted {what : Bytes}
    (h : s.handshakeFrom env c host port = (t, some (.runtimeError what))) :
    Survives (s.demotionPeer env c host port) ∧ ¬Admits (s.demotionPeer env c host port) := by
  refine ⟨(handshakeFrom_failure h).mp trivial, fun hadmits ↦ ?_⟩
  rw [← handshakeFrom_admits, h] at hadmits
  cases hadmits

/-- A handshake leaves the ID and the offset that the peer has announced, or else the server's ID
and the offset zero. -/
theorem handshakeFrom_announced {failure : Option Failure}
    (h : s.handshakeFrom env c host port = (t, failure))
    (hs : Survives (s.demotionPeer env c host port)) :
    Announces (s.demotionPeer env c host port) t.replInfo.masterReplid t.replInfo.masterReplOffset ∨
    (∀ id n, ¬Announces (s.demotionPeer env c host port) id n) ∧
      t.replInfo.masterReplid = s.replInfo.masterReplid ∧ t.replInfo.masterReplOffset = 0 := by
  have hdemoted : (demote c host port { s with sends := env.sends }).replInfo =
      (s.data.demote host port).replInfo :=
    congrArg Data.replInfo (data_demote c host port { s with sends := env.sends })
  have hinfo : t.replInfo = (connect env.clock (s.demotionPeer env c host port) host port
      (demote c host port { s with sends := env.sends }).replInfo
      (demote c host port { s with sends := env.sends }).store).info := by
    have hcon := handshakeFrom_connected env c host port s
    rw [h] at hcon
    cases hcon with
    | linked fd id n store leftover hfd hout => exact (congrArg Outcome.info hout).symm
    | failed id n store failure hout => exact (congrArg Outcome.info hout).symm
  rcases connect_info_spec env.clock host port
    (demote c host port { s with sends := env.sends }).replInfo
    (demote c host port { s with sends := env.sends }).store hs with
    ⟨id, n, hannounces, heq⟩ | ⟨hnot, heq⟩
  · rw [hinfo, heq]
    exact .inl hannounces
  · rw [hinfo, heq, hdemoted]
    exact .inr ⟨hnot, rfl, rfl⟩

end Server

end RedisLite
