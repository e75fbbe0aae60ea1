import RedisLite.Command
import RedisLite.Controller.Promoter

namespace RedisLite.Controller

open Lib.Numerals Lib.Search

theorem splitLines_cons {b : UInt8} (hb : b ≠ 13) (rest : Bytes) :
    splitLines (b :: rest) =
      match splitLines rest with
      | [] => [[b]]
      | line :: lines => (b :: line) :: lines :=
  splitLines.eq_3 b rest (fun _ h _ ↦ hb h)

theorem splitLines_line {line : Bytes} (h : 13 ∉ line) (rest : Bytes) :
    splitLines (line ++ crlf ++ rest) = line :: splitLines rest := by
  induction line with
  | nil => rfl
  | cons b line ih =>
    rw [List.mem_cons, not_or] at h
    rw [List.cons_append, List.cons_append, splitLines_cons (Ne.symm h.1), ih h.2]

theorem splitLines_lines {lines : List Bytes} (h : ∀ line ∈ lines, 13 ∉ line) :
    splitLines (lines.flatMap (· ++ crlf)) = lines ++ [[]] := by
  induction lines with
  | nil => rfl
  | cons line lines ih =>
    rw [List.flatMap_cons, splitLines_line (h line (List.mem_cons_self ..)),
      ih (fun l hl ↦ h l (List.mem_cons_of_mem _ hl)), List.cons_append]

theorem toStr_no_return (n : ℤ) : 13 ∉ toStr n := by
  have hdecimal : 13 ∉ decimal n.natAbs := fun h ↦
    absurd (decimal_isDigit n.natAbs 13 h) (by decide)
  unfold toStr
  split
  · rw [List.mem_cons, not_or]
    exact ⟨by decide, hdecimal⟩
  · exact hdecimal

theorem parseInt_toStr {n : ℤ} (hlow : -2 ^ 63 ≤ n) (hhigh : n < 2 ^ 63) :
    parseInt (toStr n) = some n := by
  have hall : (decimal n.natAbs).all isDigit = true :=
    List.all_eq_true.mpr (decimal_isDigit n.natAbs)
  have hnonempty : (decimal n.natAbs).isEmpty = false := by
    rw [List.isEmpty_eq_false_iff]
    exact decimal_ne_nil n.natAbs
  unfold toStr
  split
  · next hneg =>
    have hle : n.natAbs ≤ 2 ^ 63 := by omega
    simp only [parseInt, List.head?_cons, beq_self_eq_true, Bool.true_or, if_true, List.tail_cons,
      hnonempty, hall, Bool.not_true, Bool.or_self, Bool.false_eq_true, if_false,
      digitsValue_decimal, if_pos hle, Option.some.injEq]
    omega
  · next hpos =>
    have hlt : n.natAbs < 2 ^ 63 := by omega
    have hhead : ((decimal n.natAbs).head? == some 45) = false ∧
        ((decimal n.natAbs).head? == some 43) = false := by
      cases hd : decimal n.natAbs with
      | nil => exact absurd hd (decimal_ne_nil n.natAbs)
      | cons d ds =>
        have hdigit := decimal_isDigit n.natAbs d (by rw [hd]; exact List.mem_cons_self ..)
        obtain ⟨hminus, hplus⟩ := digit_not_sign hdigit
        simp [hminus, hplus]
    simp only [parseInt, hhead, Bool.or_self, Bool.false_eq_true, if_false, hnonempty, hall,
      Bool.not_true, digitsValue_decimal, if_pos hlt, Option.some.injEq]
    omega

def addField (fields : Bytes → Option Bytes) (line : Bytes) : Bytes → Option Bytes :=
  match find? (ascii ":") line with
  | some (idx + 1) => Function.update fields (line.take (idx + 1)) (some (line.drop (idx + 2)))
  | _ => fields

theorem info_eq (resp : Bytes) :
    info (some resp) = some ((splitLines resp).foldl addField (fun _ ↦ none)) := rfl

theorem addField_line {key : Bytes} (hne : key ≠ []) (hkey : 58 ∉ key) (value : Bytes)
    (fields : Bytes → Option Bytes) :
    addField fields (key ++ 58 :: value) = Function.update fields key (some value) := by
  have hfind : find? (ascii ":") (key ++ 58 :: value) = some key.length :=
    find?_first 58 [] hkey value
  obtain ⟨n, hn⟩ : ∃ n, key.length = n + 1 :=
    ⟨key.length - 1, by have := List.length_pos_iff.mpr hne; omega⟩
  have hdrop : (key ++ 58 :: value).drop (n + 2) = value := by
    rw [← Nat.add_assoc n 1 1, ← hn, ← List.drop_drop, List.drop_left]
    rfl
  rw [addField, hfind, hn]
  dsimp only
  rw [hdrop, ← hn, List.take_left]

theorem find?_colon_none {line : Bytes} (h : 58 ∉ line) : find? (ascii ":") line = none := by
  induction line with
  | nil => rfl
  | cons b line ih =>
    rw [List.mem_cons, not_or] at h
    rw [find?, if_neg, ih h.2, Option.map_none]
    intro hpre
    exact h.1 (List.cons_prefix_cons.mp (List.isPrefixOf_iff_prefix.mp hpre)).1

theorem addField_other {line : Bytes} (h : 58 ∉ line) (fields : Bytes → Option Bytes) :
    addField fields line = fields := by
  rw [addField, find?_colon_none h]

def infoFields (info : ReplicationInfo) : List (Bytes × Bytes) :=
  [(ascii "role", info.role.text), (ascii "master_replid", info.masterReplid),
    (ascii "master_repl_offset", toStr info.masterReplOffset),
    (ascii "master_replid2", info.masterReplid2),
    (ascii "second_repl_offset", toStr info.secondReplOffset)]

theorem executeInfo_lines (info : ReplicationInfo) : ∃ n : ℕ,
    Command.executeInfo [ascii "INFO", ascii "replication"] info =
      ((36 :: decimal n) :: (infoFields info).map (fun f ↦ f.1 ++ 58 :: f.2)).flatMap (· ++ crlf) := by
  rw [Command.executeInfo, if_pos (by decide), Resp.encodeBulkString]
  generalize List.length _ = n
  refine ⟨n, ?_⟩
  simp only [infoFields, List.map_cons, List.map_nil, List.flatMap_cons, List.flatMap_nil,
    List.append_nil, List.append_assoc]
  rfl

/-- Whatever else they hold, the fields of an `INFO` reply are those the server has written. -/
theorem info_reads {info : ReplicationInfo} (hid : 13 ∉ info.masterReplid)
    (hid₂ : 13 ∉ info.masterReplid2) :
    Controller.info (some (Command.executeInfo [ascii "INFO", ascii "replication"] info)) =
      some ((infoFields info).foldl
        (fun (fields : Bytes → Option Bytes) f ↦ Function.update fields f.1 (some f.2))
        (fun _ ↦ none)) := by
  obtain ⟨n, hlines⟩ := executeInfo_lines info
  have hheader : 13 ∉ (36 :: decimal n) ∧ 58 ∉ (36 :: decimal n) := by
    constructor <;> rw [List.mem_cons, not_or] <;>
      exact ⟨by decide, fun h ↦ absurd (decimal_isDigit n _ h) (by decide)⟩
  have hrole : 13 ∉ info.role.text := by cases info.role <;> decide
  have hreturn : ∀ line ∈ (36 :: decimal n) :: (infoFields info).map (fun f ↦ f.1 ++ 58 :: f.2),
      13 ∉ line := by
    refine List.forall_mem_cons.mpr ⟨hheader.1, List.forall_mem_map.mpr ?_⟩
    have hfield {key value : Bytes} (hk : 13 ∉ key) (hv : 13 ∉ value) : 13 ∉ key ++ 58 :: value := by
      rw [List.mem_append, List.mem_cons, not_or, not_or]
      exact ⟨hk, by decide, hv⟩
    simp only [infoFields, List.forall_mem_cons, List.not_mem_nil, false_implies, implies_true,
      and_true]
    exact ⟨hfield (by decide) hrole, hfield (by decide) hid, hfield (by decide) (toStr_no_return _),
      hfield (by decide) hid₂, hfield (by decide) (toStr_no_return _)⟩
  rw [info_eq, hlines, splitLines_lines hreturn, List.cons_append, List.foldl_cons,
    addField_other hheader.2, List.foldl_append, List.foldl_cons, List.foldl_nil,
    addField_other (List.not_mem_nil), List.foldl_map]
  have hkeys : ∀ f ∈ infoFields info, f.1 ≠ [] ∧ 58 ∉ f.1 := by
    simp only [infoFields, List.forall_mem_cons, List.not_mem_nil, false_implies, implies_true,
      and_true]
    decide
  exact congrArg some (List.foldl_ext _ _ _
    (fun fields f hf ↦ addField_line (hkeys f hf).1 (hkeys f hf).2 _ _))

theorem foldl_update_of_not_mem {fs : List (Bytes × Bytes)} {key : Bytes}
    (h : key ∉ fs.map Prod.fst) {fields : Bytes → Option Bytes} :
    fs.foldl (fun (fields : Bytes → Option Bytes) f ↦ Function.update fields f.1 (some f.2))
      fields key = fields key := by
  induction fs generalizing fields with
  | nil => rfl
  | cons f fs ih =>
    rw [List.map_cons, List.mem_cons, not_or] at h
    rw [List.foldl_cons, ih h.2, Function.update_of_ne h.1]

def lineValue : Bytes → Option Bytes
  | [] => none
  | 42 :: _ => none
  | 36 :: _ => none
  | 58 :: rest => some rest
  | line => some line

theorem roleValues_eq (resp : Bytes) :
    roleValues resp = (splitLines resp).filterMap lineValue := rfl

def wireRole : Role → Bytes
  | .master => ascii "master"
  | .worker => ascii "slave"

theorem role_reads {info : ReplicationInfo} (hhost : 13 ∉ info.masterHost) :
    Controller.role (some (Command.executeRole info)) = some (wireRole info.role) := by
  have hnum (n : ℤ) : 13 ∉ 58 :: toStr n := by
    rw [List.mem_cons, not_or]
    exact ⟨by decide, toStr_no_return n⟩
  cases hrole : info.role with
  | master =>
    have hlines : Command.executeRole info = [ascii "*3", ascii "$6", ascii "master",
        58 :: toStr info.masterReplOffset, ascii "*0"].flatMap (· ++ crlf) := by
      rw [Command.executeRole, hrole]
      simp only [List.flatMap_cons, List.flatMap_nil, List.append_nil, List.append_assoc]
      rfl
    have hsplit : splitLines (Command.executeRole info) = [ascii "*3", ascii "$6", ascii "master",
        58 :: toStr info.masterReplOffset, ascii "*0", []] := by
      rw [hlines]
      refine splitLines_lines ?_
      simp only [List.forall_mem_cons, List.not_mem_nil, false_implies, implies_true, and_true]
      exact ⟨by decide, by decide, by decide, hnum _, by decide⟩
    rw [role, Option.bind_some, roleValues, hsplit]
    rfl
  | worker =>
    have hlen : 13 ∉ 36 :: decimal info.masterHost.length := by
      rw [List.mem_cons, not_or]
      exact ⟨by decide, fun h ↦ absurd (decimal_isDigit _ _ h) (by decide)⟩
    have hlines : Command.executeRole info = [ascii "*5", ascii "$5", ascii "slave",
        36 :: decimal info.masterHost.length, info.masterHost, 58 :: toStr info.masterPort,
        ascii "$9", ascii "connected", 58 :: toStr info.masterReplOffset].flatMap (· ++ crlf) := by
      rw [Command.executeRole, hrole]
      simp only [Resp.encodeBulkString, List.flatMap_cons, List.flatMap_nil, List.append_nil,
        List.append_assoc]
      rfl
    have hsplit : splitLines (Command.executeRole info) = [ascii "*5", ascii "$5", ascii "slave",
        36 :: decimal info.masterHost.length, info.masterHost, 58 :: toStr info.masterPort,
        ascii "$9", ascii "connected", 58 :: toStr info.masterReplOffset, []] := by
      rw [hlines]
      refine splitLines_lines ?_
      simp only [List.forall_mem_cons, List.not_mem_nil, false_implies, implies_true, and_true]
      exact ⟨by decide, by decide, by decide, hlen, hhost, hnum _, by decide, by decide, hnum _⟩
    have hslave : lineValue (ascii "slave") = some (ascii "slave") := rfl
    rw [role, Option.bind_some, roleValues_eq, hsplit, List.filterMap_cons_none rfl,
      List.filterMap_cons_none rfl, List.filterMap_cons_some hslave, List.filterMap_cons_none rfl,
      List.filterMap_cons]
    -- the host may be skipped or lose a colon; the port behind it is a second value in any case
    cases lineValue info.masterHost <;> rfl

/-- The controller reads from `INFO` and `ROLE` what the server has reported. -/
theorem controller_reads_report (info : ReplicationInfo) (hid : 13 ∉ info.masterReplid)
    (hid₂ : 13 ∉ info.masterReplid2) (hhost : 13 ∉ info.masterHost)
    (hlow : -2 ^ 63 ≤ info.masterReplOffset) (hhigh : info.masterReplOffset < 2 ^ 63)
    (now : TimePoint) (store : Store) (fromMaster : Bool) :
    (∃ fields, Controller.info
        (some (Command.execute now Request.info.args store info fromMaster).1) = some fields ∧
      (∀ f ∈ infoFields info, fields f.1 = some f.2) ∧
      (∀ key, key ∉ (infoFields info).map Prod.fst → fields key = none) ∧
      replOffset fields = info.masterReplOffset) ∧
    Controller.role (some (Command.execute now Request.role.args store info fromMaster).1) =
      some (wireRole info.role) := by
  have hinfo : (Command.execute now Request.info.args store info fromMaster).1 =
      Command.executeInfo [ascii "INFO", ascii "replication"] info := by
    have hread : Command.isWriteCommand (toUpper (ascii "INFO")) = false := by decide
    change (Command.execute now [ascii "INFO", ascii "replication"] store info fromMaster).1 = _
    unfold Command.execute
    dsimp only
    rw [hread, Bool.and_false]
    rfl
  have hrole : (Command.execute now Request.role.args store info fromMaster).1 =
      Command.executeRole info := by
    have hread : Command.isWriteCommand (toUpper (ascii "ROLE")) = false := by decide
    change (Command.execute now [ascii "ROLE"] store info fromMaster).1 = _
    unfold Command.execute
    dsimp only
    rw [hread, Bool.and_false]
    rfl
  rw [hinfo, hrole]
  refine ⟨⟨_, info_reads hid hid₂, ?_, ?_, ?_⟩, role_reads hhost⟩
  · simp only [infoFields, List.forall_mem_cons, List.not_mem_nil, false_implies, implies_true,
      and_true]
    refine ⟨rfl, rfl, rfl, rfl, rfl⟩
  · intro key hkey
    exact foldl_update_of_not_mem hkey
  · change ((some (toStr info.masterReplOffset)).bind parseInt).getD 0 = _
    rw [Option.bind_some, parseInt_toStr hlow hhigh, Option.getD_some]

/-- A worker whose master's host looks like a header, with a negative offset. -/
theorem controller_reads_sample :
    Controller.role (some (Command.execute 0 Request.role.args Store.empty
      { role := .worker, masterReplid := List.replicate 40 97, masterHost := ascii "$4",
        masterReplOffset := -7 } false).1) = some (ascii "slave") :=
  (controller_reads_report
    { role := .worker, masterReplid := List.replicate 40 97, masterHost := ascii "$4",
      masterReplOffset := -7 } (by decide) (by decide) (by decide) (by decide) (by decide) 0
    Store.empty false).2

end RedisLite.Controller
