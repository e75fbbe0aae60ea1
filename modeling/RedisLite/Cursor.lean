import RedisLite.Lib.Scan
import RedisLite.Opcode

namespace RedisLite.Rdb

open Lib.Decode Lib.Scan Lib.Numerals

section

variable (data : Bytes)

/-- `read_length` on the buffer itself: the pointer is the cursor, `end` the end of the data. -/
def readLengthAt : Scanner String ℕ := do
  let first ← nextOr data "RDB: unexpected end in length"
  if lengthType first = 0 then pure (first &&& 0x3F).toNat
  else if lengthType first = 1 then do
    let second ← nextOr data "RDB: unexpected end in length"
    pure (((first &&& 0x3F).toNat <<< 8) ||| second.toNat)
  else if lengthType first = 2 then do
    let bytes ← takeOr data 4 "RDB: unexpected end in length"
    pure (leValue bytes)
  else pure first.toNat

def intStringAt (n : ℕ) (what : String) : Scanner String Bytes := do
  let bytes ← takeOr data n ("RDB: unexpected end in " ++ what ++ " string")
  pure (toStr (Int.bmod (leValue bytes) (256 ^ n)))

def specialAt (first : UInt8) : Scanner String Bytes :=
  if first &&& 0x3F = 0 then intStringAt data 1 "int8"
  else if first &&& 0x3F = 1 then intStringAt data 2 "int16"
  else if first &&& 0x3F = 2 then intStringAt data 4 "int32"
  else throw ("RDB: unsupported special encoding " ++ toString (first &&& 0x3F).toNat)

/-- `read_string`. The first byte is looked at, and read once more by `read_length`. -/
def readStringAt : Scanner String Bytes := do
  need data 1 "RDB: unexpected end in string"
  let first ← look data
  if lengthType first = 3 then do
    skip 1
    specialAt data first
  else do
    let len ← readLengthAt data
    takeOr data len "RDB: unexpected end in string data"

def readLe64At : Scanner String UInt64 := do
  let bytes ← takeOr data 8 "RDB: unexpected end in le64"
  pure (UInt64.ofNat (leValue bytes))

def readLe32At : Scanner String ℕ := do
  let bytes ← takeOr data 4 "RDB: unexpected end in le32"
  pure (leValue bytes)

def operandAt (clk : Clock) (pending : Option Int64) (store : Store) (opcode : UInt8) :
    Scanner String Round :=
  if opcode = opcodeAux then do
    let _ ← readStringAt data
    let _ ← readStringAt data
    pure (.next pending store)
  else if opcode = opcodeSelectdb then do
    let _ ← readLengthAt data
    pure (.next pending store)
  else if opcode = opcodeResizedb then do
    let _ ← readLengthAt data
    let _ ← readLengthAt data
    pure (.next pending store)
  else if opcode = opcodeExpiretimeMs then do
    let v ← readLe64At data
    pure (.next (some v.toInt64) store)
  else if opcode = opcodeExpiretime then do
    let v ← readLe32At data
    pure (.next (some (Int64.ofNat v * 1000)) store)
  else if opcode = opcodeEof then pure (.done store)
  else if opcode = typeString then do
    let key ← readStringAt data
    let val ← readStringAt data
    pure (.next none (insertKey clk pending key val store))
  else throw ("RDB: unsupported type " ++ toString opcode.toNat)

def roundAt (clk : Clock) (pending : Option Int64) (store : Store) : Scanner String Round := do
  let opcode ← next data
  operandAt data clk pending store opcode

/-- What a run of the loader leaves: its result, the cursor, and where the cursor was before the
first round and after each round. -/
structure Walk where
  result : Except String Store
  cursor : Cursor
  heads : List ℕ

/-- The loop `while (p < end)`. It gives nothing if it is not over after `fuel` rounds. -/
def loopAt (clk : Clock) : ℕ → Option Int64 → Store → Cursor → Option Walk
  | 0, _, _, _ => none
  | fuel + 1, pending, store, c =>
    if c.pos < data.length then
      match roundAt data clk pending store c with
      | (.error e, c') => some ⟨.error e, c', [c.pos, c'.pos]⟩
      | (.ok (.done store), c') => some ⟨.ok store, c', [c.pos, c'.pos]⟩
      | (.ok (.next pending store), c') =>
        (loopAt clk fuel pending store c').map fun walk ↦
          { walk with heads := c.pos :: walk.heads }
    else some ⟨.ok store, c, [c.pos]⟩

def magicAt : Scanner String Unit := do
  let magic ← copy data 9
  if magic.take 5 ≠ ascii "REDIS" then throw "RDB: invalid magic"
  else skip 9

def loadAt (clk : Clock) (fuel : ℕ) (store : Store) : Option Walk :=
  if data.length < 9 then some ⟨.error "RDB: too short", {}, []⟩
  else
    match magicAt data {} with
    | (.error e, c) => some ⟨.error e, c, []⟩
    | (.ok _, c) => loopAt data clk fuel none store.clear c

end

section

variable {data : Bytes} {P : Bytes → Prop}

theorem follows_readLengthAt : Follows data P (readLengthAt data) readLength := by
  rw [readLength_eq]
  refine (follows_nextOr _).bind (fun first ↦ follows_ite (follows_pure _) (follows_ite ?_
    (follows_ite ?_ (follows_pure _))))
  · exact (follows_nextOr _).bind (fun _ ↦ follows_pure _)
  · exact (follows_takeOr _ _).bind (fun _ ↦ follows_pure _)

theorem follows_specialAt (first : UInt8) : Follows data P (specialAt data first) (special first) := by
  have hint (n : ℕ) (what : String) : Follows data P (intStringAt data n what) (intString n what) := by
    rw [intString_eq]
    exact (follows_takeOr _ _).bind (fun _ ↦ follows_pure _)
  exact follows_ite (hint 1 _) (follows_ite (hint 2 _) (follows_ite (hint 4 _) (follows_throw _)))

theorem follows_readStringAt : Follows data P (readStringAt data) readString := by
  rw [readString_eq]
  refine follows_peek _ (fun first ↦ follows_ite ?_ ?_)
  · exact follows_skip _ (follows_specialAt first)
  · exact follows_readLengthAt.bind (fun _ ↦ follows_takeOr _ _)

theorem follows_readLe64At : Follows data P (readLe64At data) readLe64 := by
  rw [readLe64_eq]
  exact (follows_takeOr _ _).bind (fun _ ↦ follows_pure _)

theorem follows_readLe32At : Follows data P (readLe32At data) readLe32 := by
  rw [readLe32_eq]
  exact (follows_takeOr _ _).bind (fun _ ↦ follows_pure _)

theorem follows_operandAt (clk : Clock) (pending : Option Int64) (store : Store) (opcode : UInt8) :
    Follows data P (operandAt data clk pending store opcode)
      (operand clk pending store opcode) := by
  refine follows_ite ?_ (follows_ite ?_ (follows_ite ?_ (follows_ite ?_ (follows_ite ?_
    (follows_ite (follows_pure _) (follows_ite ?_ (follows_throw _)))))))
  · exact follows_readStringAt.bind (fun _ ↦ follows_readStringAt.bind (fun _ ↦ follows_pure _))
  · exact follows_readLengthAt.bind (fun _ ↦ follows_pure _)
  · exact follows_readLengthAt.bind (fun _ ↦ follows_readLengthAt.bind (fun _ ↦ follows_pure _))
  · exact follows_readLe64At.bind (fun _ ↦ follows_pure _)
  · exact follows_readLe32At.bind (fun _ ↦ follows_pure _)
  · exact follows_readStringAt.bind (fun _ ↦ follows_readStringAt.bind (fun _ ↦ follows_pure _))

/-- One round is sound, moves the cursor by at least one byte and does what the opcode asks. -/
theorem roundAt_spec (clk : Clock) (pending : Option Int64) (store : Store) {c : Cursor}
    (hc : Sound data.length c) (hlt : c.pos < data.length) :
    ∃ opcode p, data.drop c.pos = opcode :: p ∧
      Sound data.length (roundAt data clk pending store c).2 ∧
      c.pos < (roundAt data clk pending store c).2.pos ∧
      operand clk pending store opcode p = decoded data (roundAt data clk pending store c) := by
  have hstep : c.pos + 1 ≤ data.length := hlt
  have hsound := (hc.look hlt).skip hstep
  obtain ⟨hsound', hle, hop⟩ := follows_operandAt (P := fun _ ↦ True) clk pending store
    (data.getD c.pos default) _ hsound trivial
  refine ⟨data.getD c.pos default, data.drop (c.pos + 1), ?_, hsound', hle, hop⟩
  rw [List.drop_eq_getElem_cons hlt, ← List.getElem_eq_getD (h := hlt)]

theorem loopAt_spec (clk : Clock) {fuel n : ℕ} {c : Cursor} (hc : Sound data.length c)
    (hfuel : data.length < c.pos + fuel) (hn : data.length ≤ c.pos + n)
    (pending : Option Int64) (store : Store) : ∃ walk,
      loopAt data clk fuel pending store c = some walk ∧
      walk.result = loadLoop clk n (data.drop c.pos) pending store ∧
      Sound data.length walk.cursor ∧ walk.heads.Pairwise (· < ·) ∧
      ∀ p ∈ walk.heads, c.pos ≤ p := by
  induction fuel generalizing n c pending store with
  | zero => exact absurd hc.bound (by omega)
  | succ fuel ih =>
    rw [loopAt]
    by_cases hlt : c.pos < data.length
    · rw [if_pos hlt]
      obtain ⟨n, rfl⟩ : ∃ k, n = k + 1 := ⟨n - 1, by omega⟩
      obtain ⟨opcode, p, hdrop, hsound, hmore, hop⟩ := roundAt_spec clk pending store hc hlt
      rw [hdrop, loadLoop_cons, hop]
      generalize roundAt data clk pending store c = out at hsound hmore hop ⊢
      obtain ⟨result, c'⟩ := out
      have hends : [c.pos, c'.pos].Pairwise (· < ·) ∧ ∀ p ∈ [c.pos, c'.pos], c.pos ≤ p := by
        refine ⟨List.pairwise_pair.mpr hmore, fun p hp ↦ ?_⟩
        rcases List.mem_pair.mp hp with rfl | rfl
        · exact le_rfl
        · exact hmore.le
      cases result with
      | error e => exact ⟨_, rfl, rfl, hsound, hends⟩
      | ok round =>
        cases round with
        | done store' => exact ⟨_, rfl, rfl, hsound, hends⟩
        | next pending' store' =>
          have hmore : c.pos < c'.pos := hmore
          have hfuel' : data.length < c'.pos + fuel := by omega
          have hn' : data.length ≤ c'.pos + n := by omega
          obtain ⟨walk, hrun, hresult, hcursor, hheads, hfrom⟩ :=
            ih hsound hfuel' hn' pending' store'
          refine ⟨{ walk with heads := c.pos :: walk.heads }, ?_, hresult, hcursor,
            List.pairwise_cons.mpr ⟨fun p hp ↦ hmore.trans_le (hfrom p hp), hheads⟩, ?_⟩
          · change (loopAt data clk fuel pending' store' c').map _ = _
            rw [hrun]
            rfl
          intro p hp
          rcases List.mem_cons.mp hp with rfl | hp
          · exact le_rfl
          · exact hmore.le.trans (hfrom p hp)
    · rw [if_neg hlt, List.drop_of_length_le (Nat.not_lt.mp hlt)]
      refine ⟨_, rfl, ?_, hc, List.pairwise_singleton .., fun p hp ↦ (List.mem_singleton.mp hp).ge⟩
      cases n <;> rfl

/-- For every byte string the loader ends within as many rounds as there are bytes, with the
result of the model or an exception of it. All accesses are within the data, the cursor never
goes back, and each round moves it on. -/
theorem load_ends_in_bounds (clk : Clock) (data : Bytes) (store : Store) : ∃ walk,
    loadAt data clk (data.length + 1) store = some walk ∧
    walk.result = load clk data store ∧
    (∀ i ∈ walk.cursor.reads, i < data.length) ∧ walk.cursor.trail.Pairwise (· ≤ ·) ∧
    walk.heads.Pairwise (· < ·) := by
  rw [loadAt, load]
  by_cases hshort : data.length < 9
  · rw [if_pos hshort, if_pos hshort]
    exact ⟨_, rfl, rfl, by simp, List.Pairwise.nil, List.Pairwise.nil⟩
  · rw [if_neg hshort, if_neg hshort]
    have hread : ∀ i ∈ List.range' 0 9, i < data.length := by
      intro i hi
      have hmem := List.mem_range'_1.mp hi
      omega
    have hmagic : Sound data.length { reads := List.range' 0 9 } :=
      ⟨hread, List.Pairwise.nil, by simp, Nat.zero_le _⟩
    have hrun : magicAt data {} =
        if (data.take 9).take 5 ≠ ascii "REDIS" then
          (.error "RDB: invalid magic", { reads := List.range' 0 9 })
        else (.ok (), { pos := 9, reads := List.range' 0 9, trail := [9] }) := by
      rw [magicAt, bind_run]
      change (if (data.take 9).take 5 ≠ ascii "REDIS" then _ else _ : Scanner String Unit) _ = _
      split <;> rfl
    rw [hrun]
    by_cases hredis : (data.take 9).take 5 ≠ ascii "REDIS"
    · rw [if_pos hredis, if_pos hredis]
      exact ⟨_, rfl, rfl, hmagic.reads, hmagic.trail, List.Pairwise.nil⟩
    · rw [if_neg hredis, if_neg hredis]
      have hnine : 0 + 9 ≤ data.length := by omega
      have hsound : Sound data.length { pos := 9, reads := List.range' 0 9, trail := [9] } :=
        hmagic.skip hnine
      have hfuel : data.length < 9 + (data.length + 1) := by omega
      obtain ⟨walk, hwalk, hresult, hcursor, hheads, -⟩ := loopAt_spec clk hsound hfuel
        (Nat.le_add_left data.length 9) none store.clear
      exact ⟨walk, hwalk, hresult, hcursor.reads, hcursor.trail, hheads⟩

end

end RedisLite.Rdb
