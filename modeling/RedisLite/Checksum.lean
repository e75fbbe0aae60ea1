import RedisLite.Lib.Crc
import RedisLite.Rdb

namespace RedisLite.Crc64

def jones : BitVec 64 := 0xad93d23594c935a9

/-- The CRC that the comment on the table names, bit by bit and reflected. -/
def reference (data : Bytes) : UInt64 :=
  ⟨Lib.Crc.crc jones.reverse (data.map UInt8.toBitVec)⟩

def rightEntry (i : UInt8) : UInt64 := ⟨Lib.Crc.entry jones.reverse i.toBitVec⟩

def picked (p : Bytes) (b : UInt8) : UInt8 := (reference p).toUInt8 ^^^ b

def PicksRight (data : Bytes) : Prop :=
  ∀ p b, p ++ [b] <+: data → table.getD (picked p b).toNat 0 = rightEntry (picked p b)

theorem update_toBitVec (crc : UInt64) (b : UInt8) : (update crc b).toBitVec =
    Lib.Crc.tableStep (fun i ↦ (table.getD i.toNat 0).toBitVec) crc.toBitVec b.toBitVec := by
  rw [update, UInt64.toBitVec_xor]
  rfl

theorem crc64_toBitVec (data : Bytes) : (crc64 data).toBitVec =
    (data.map UInt8.toBitVec).foldl
      (Lib.Crc.tableStep (fun i ↦ (table.getD i.toNat 0).toBitVec)) 0 := by
  have hfold (crc : UInt64) : (data.foldl update crc).toBitVec =
      (data.map UInt8.toBitVec).foldl
        (Lib.Crc.tableStep (fun i ↦ (table.getD i.toNat 0).toBitVec)) crc.toBitVec := by
    induction data generalizing crc with
    | nil => rfl
    | cons b data ih => rw [List.foldl_cons, ih, update_toBitVec, List.map_cons, List.foldl_cons]
  exact hfold 0

theorem crc64_eq_iff (data : Bytes) : crc64 data = reference data ↔
    (data.map UInt8.toBitVec).foldl
      (Lib.Crc.tableStep (fun i ↦ (table.getD i.toNat 0).toBitVec)) 0 =
    Lib.Crc.crc jones.reverse (data.map UInt8.toBitVec) := by
  rw [← UInt64.toBitVec_inj, crc64_toBitVec]
  rfl

theorem right_iff (p : Bytes) (b : UInt8) :
    table.getD (picked p b).toNat 0 = rightEntry (picked p b) ↔
    (table.getD ((Lib.Crc.crc jones.reverse (p.map UInt8.toBitVec)).setWidth 8 ^^^
      b.toBitVec).toNat 0).toBitVec =
    Lib.Crc.entry jones.reverse
      ((Lib.Crc.crc jones.reverse (p.map UInt8.toBitVec)).setWidth 8 ^^^ b.toBitVec) := by
  rw [← UInt64.toBitVec_inj]
  rfl

/-- The table gives the CRC of the data and of all its prefixes exactly when no byte picks a wrong
entry. -/
theorem crc64_reference_iff (data : Bytes) :
    (∀ p, p <+: data → crc64 p = reference p) ↔ PicksRight data := by
  have hlib := @Lib.Crc.foldl_tableStep_iff 64 jones.reverse
    (fun i ↦ (table.getD i.toNat 0).toBitVec) (data.map UInt8.toBitVec)
  constructor
  · intro h p b hpre
    rw [right_iff]
    refine hlib.mp (fun q hq ↦ ?_) (p.map UInt8.toBitVec) b.toBitVec ?_
    · obtain ⟨p, hp, rfl⟩ := List.prefix_map_iff.mp hq
      exact (crc64_eq_iff p).mp (h p hp)
    · have hmap := hpre.map UInt8.toBitVec
      rwa [List.map_append] at hmap
  · intro h p hpre
    rw [crc64_eq_iff]
    refine hlib.mpr (fun q b hq ↦ ?_) _ (hpre.map UInt8.toBitVec)
    obtain ⟨r, hr, hmap⟩ := List.prefix_map_iff.mp hq
    obtain ⟨p, rest, rfl, rfl, hrest⟩ := List.append_eq_map_iff.mp hmap
    obtain ⟨b, rfl, rfl⟩ := List.map_eq_singleton_iff.mp hrest
    exact (right_iff p b).mp (h p b hr)

/-- No snapshot is one of these: the third byte of the magic word picks the entry 246. -/
theorem not_picksRight_payload (clk : Clock) (store : Store) :
    ¬PicksRight (Rdb.payload clk store) := by
  intro h
  have hmagic : ascii "RE" ++ [68] <+: Rdb.payload clk store := ⟨_, rfl⟩
  exact absurd (h (ascii "RE") 68 hmagic) (by decide +kernel)

def emptyPayload : Bytes := Rdb.payload ⟨0, 0, by decide, by decide⟩ Store.empty

theorem crc64_emptyPayload : crc64 emptyPayload = 0xb91a6c46db0421da := by
  have hstart : (emptyPayload.take 40).foldl update 0 = 0x633ba2586f3741fd := by decide +kernel
  rw [← List.take_append_drop 40 emptyPayload, crc64, List.foldl_append, hstart]
  decide +kernel

theorem reference_emptyPayload : reference emptyPayload = 0x27adf3f2fdff059c := by
  have hstart : ((emptyPayload.take 40).map UInt8.toBitVec).foldl
      (Lib.Crc.byteStep jones.reverse) 0 = 0xef2385680f9e6851 := by decide +kernel
  rw [← List.take_append_drop 40 emptyPayload, reference, Lib.Crc.crc, List.map_append,
    List.foldl_append, hstart]
  decide +kernel

/-- The trailer of an empty store is not the CRC of what comes before it. -/
theorem empty_trailer_differs :
    crc64 emptyPayload ≠ reference emptyPayload ∧
    (Rdb.serialize ⟨0, 0, by decide, by decide⟩ Store.empty).drop emptyPayload.length ≠
      Rdb.writeLe64 (reference emptyPayload) := by
  have hdrop : (Rdb.serialize ⟨0, 0, by decide, by decide⟩ Store.empty).drop emptyPayload.length =
      Rdb.writeLe64 (crc64 emptyPayload) := List.drop_left ..
  rw [hdrop, crc64_emptyPayload, reference_emptyPayload]
  decide

end RedisLite.Crc64
