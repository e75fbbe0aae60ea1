import RedisLite.Opcode
import RedisLite.Snapshot

namespace RedisLite.Rdb

open Lib.Decode

/-- The bytes are one opcode of the file that is not its last one, with all that belongs to it. -/
def IsRecord (r : Bytes) : Prop :=
  ∃ opcode p, r = opcode :: p ∧ ∀ clk pending store, ∃ pending' store',
    operand clk pending store opcode p = .ok (.next pending' store', [])

def auxRecord (key val : Bytes) : Bytes := opcodeAux :: (writeString key ++ val)

def headRecords (clk : Clock) : List Bytes :=
  [auxRecord (ascii "redis-ver") (writeString (ascii "7.2.0")),
    auxRecord (ascii "redis-bits") [0xC0, 0x40],
    auxRecord (ascii "ctime") (0xC2 :: writeLe32 (clk.system / 1000000000).toUInt64.toNat),
    auxRecord (ascii "used-mem") (0xC2 :: writeLe32 0),
    auxRecord (ascii "aof-base") [0xC0, 0x00],
    opcodeSelectdb :: writeLength 0]

def entryRecords (clk : Clock) (item : Item) : List Bytes :=
  if item.2.isExpired clk.steady then []
  else (item.2.expiry.map (fun t ↦ writeExpiry clk (some t))).toList ++
    [typeString :: (writeString item.1 ++ writeString item.2.value)]

def records (clk : Clock) (store : Store) : List Bytes :=
  headRecords clk ++ [resizeHint clk store.data.entries] ++
    store.data.entries.flatMap (entryRecords clk)

theorem flatten_entryRecords (clk : Clock) (item : Item) :
    (entryRecords clk item).flatten = writeEntry clk item := by
  unfold entryRecords writeEntry
  split
  · rfl
  · cases item.2.expiry with
    | none => exact List.append_nil _
    | some t =>
      rw [Option.map_some, Option.toList_some, List.singleton_append, List.flatten_cons,
        List.flatten_singleton]

theorem payload_eq (clk : Clock) (store : Store) :
    payload clk store = ascii "REDIS0011" ++ (records clk store).flatten ++ [opcodeEof] := by
  have hhead : preamble clk = ascii "REDIS0011" ++ (headRecords clk).flatten := by
    simp only [preamble, headRecords, auxRecord, List.flatten_cons, List.flatten_nil,
      List.append_nil, List.append_assoc, List.cons_append]
  have hentries : (store.data.entries.flatMap (entryRecords clk)).flatten =
      store.data.entries.flatMap (writeEntry clk) := by
    rw [List.flatMap, List.flatten_flatten, List.flatMap, List.map_map]
    congr 2
    funext item
    exact flatten_entryRecords clk item
  rw [payload, hhead, records, List.flatten_append, List.flatten_append, hentries,
    List.flatten_singleton]
  simp only [List.append_assoc]

theorem isRecord_aux {key val : Bytes} (hk : key.length < 2 ^ 32) (hv : IsString val) :
    IsRecord (auxRecord key val) := by
  refine ⟨opcodeAux, _, rfl, fun clk pending store ↦ ⟨pending, store, ?_⟩⟩
  obtain ⟨a, ha⟩ := hv []
  rw [List.append_nil] at ha
  rw [operand, if_pos rfl, andThen, readString_writeString hk]
  simp only [andThen, ha]

theorem isRecord_selectdb (n : ℕ) : IsRecord (opcodeSelectdb :: writeLength n) := by
  refine ⟨opcodeSelectdb, _, rfl, fun clk pending store ↦ ⟨pending, store, ?_⟩⟩
  have hn := readLength_writeLength n []
  rw [List.append_nil] at hn
  rw [operand, if_neg (by decide), if_pos rfl, andThen, hn]

theorem isRecord_resizeHint (clk : Clock) (items : List Item) :
    IsRecord (resizeHint clk items) := by
  refine ⟨opcodeResizedb, _, rfl, fun clk pending store ↦ ⟨pending, store, ?_⟩⟩
  have hn (n : ℕ) := readLength_writeLength n []
  simp only [List.append_nil] at hn
  rw [operand, if_neg (by decide), if_neg (by decide), if_pos rfl, andThen, readLength_writeLength]
  simp only [andThen, hn]

theorem isRecord_expiry (clk : Clock) (t : TimePoint) :
    IsRecord (writeExpiry clk (some t)) := by
  refine ⟨opcodeExpiretimeMs, _, rfl, fun clk' pending store ↦
    ⟨some (absMs clk t).toUInt64.toInt64, store, ?_⟩⟩
  have hv := readLe64_writeLe64 (absMs clk t).toUInt64 []
  rw [List.append_nil] at hv
  rw [operand, if_neg (by decide), if_neg (by decide), if_neg (by decide), if_pos rfl, andThen, hv]

theorem isRecord_string {key val : Bytes} (hk : key.length < 2 ^ 32) (hv : val.length < 2 ^ 32) :
    IsRecord (typeString :: (writeString key ++ writeString val)) := by
  refine ⟨typeString, _, rfl, fun clk pending store ↦
    ⟨none, insertKey clk pending key val store, ?_⟩⟩
  have hval := readString_writeString hv []
  rw [List.append_nil] at hval
  rw [operand, if_neg (by decide), if_neg (by decide), if_neg (by decide), if_neg (by decide),
    if_neg (by decide), if_neg (by decide), if_pos rfl, andThen, readString_writeString hk]
  simp only [andThen, hval]

theorem isRecord_head (clk : Clock) : ∀ r ∈ headRecords clk, IsRecord r := by
  have haux (key : String) (hk : (ascii key).length < 2 ^ 32) {val : Bytes} (hv : IsString val) :=
    isRecord_aux hk hv
  intro r hr
  simp only [headRecords, List.mem_cons, List.not_mem_nil, or_false] at hr
  rcases hr with rfl | rfl | rfl | rfl | rfl | rfl
  · exact haux _ (by decide) (isString_writeString (by decide))
  · exact haux _ (by decide) (isString_int8 0x40)
  · exact haux _ (by decide) (isString_int32 _)
  · exact haux _ (by decide) (isString_int32 0)
  · exact haux _ (by decide) (isString_int8 0x00)
  · exact isRecord_selectdb 0

theorem isRecord_records (saved : Clock) {store : Store}
    (hsize : ∀ item ∈ store.data.entries, item.1.length < 2 ^ 32 ∧ item.2.value.length < 2 ^ 32) :
    ∀ r ∈ records saved store, IsRecord r := by
  intro r hr
  rw [records, List.mem_append, List.mem_append, List.mem_singleton, List.mem_flatMap] at hr
  rcases hr with (hr | rfl) | ⟨item, hitem, hr⟩
  · exact isRecord_head saved r hr
  · exact isRecord_resizeHint saved _
  · obtain ⟨hk, hv⟩ := hsize item hitem
    rw [entryRecords] at hr
    split at hr
    · cases hr
    · rcases List.mem_append.mp hr with hr | hr
      · obtain ⟨t, -, rfl⟩ := Option.map_eq_some_iff.mp (Option.mem_toList.mp hr)
        exact isRecord_expiry saved t
      · rw [List.mem_singleton.mp hr]
        exact isRecord_string hk hv

theorem loadLoop_record {r : Bytes} (hr : IsRecord r) (clk : Clock) (fuel : ℕ) (tail : Bytes)
    (pending : Option Int64) (store : Store) : ∃ pending' store',
      loadLoop clk (fuel + 1) (r ++ tail) pending store =
        loadLoop clk fuel tail pending' store' := by
  obtain ⟨opcode, p, rfl, hnext⟩ := hr
  obtain ⟨pending', store', hok⟩ := hnext clk pending store
  have hmore := stable_operand clk pending store opcode p _ [] tail hok
  rw [List.nil_append] at hmore
  refine ⟨pending', store', ?_⟩
  rw [List.cons_append, loadLoop_cons, hmore]

theorem loadLoop_flatten {rs : List Bytes} (hrs : ∀ r ∈ rs, IsRecord r) (clk : Clock) {fuel : ℕ}
    {tail : Bytes} (hfuel : (rs.flatten ++ tail).length ≤ fuel) (pending : Option Int64)
    (store : Store) : ∃ fuel' pending' store', tail.length ≤ fuel' ∧
      loadLoop clk fuel (rs.flatten ++ tail) pending store =
        loadLoop clk fuel' tail pending' store' := by
  induction rs generalizing fuel pending store with
  | nil => exact ⟨fuel, pending, store, hfuel, rfl⟩
  | cons r rs ih =>
    have hr := hrs r (List.mem_cons_self ..)
    have hpos : 0 < r.length := by
      obtain ⟨opcode, p, rfl, -⟩ := hr
      exact Nat.succ_pos _
    rw [List.flatten_cons, List.append_assoc] at hfuel ⊢
    rw [List.length_append] at hfuel
    obtain ⟨fuel, rfl⟩ : ∃ n, fuel = n + 1 := ⟨fuel - 1, by omega⟩
    obtain ⟨pending', store', hstep⟩ := loadLoop_record hr clk fuel (rs.flatten ++ tail) pending store
    rw [hstep]
    exact ih (fun r hr ↦ hrs r (List.mem_cons_of_mem _ hr)) (by omega) pending' store'

theorem loadLoop_part {part more : Bytes} (hr : IsRecord (part ++ more)) (hpart : part ≠ [])
    (hmore : more ≠ []) (clk : Clock) {fuel : ℕ} (hfuel : part.length ≤ fuel)
    (pending : Option Int64) (store : Store) :
    ∃ e, loadLoop clk fuel part pending store = .error e := by
  obtain ⟨opcode, p, hr, hnext⟩ := hr
  cases part with
  | nil => exact absurd rfl hpart
  | cons b part =>
    obtain ⟨rfl, rfl⟩ := List.cons.inj hr
    obtain ⟨pending', store', hok⟩ := hnext clk pending store
    obtain ⟨e, he⟩ := (stable_operand clk pending store b).error_of_part hok hmore
    obtain ⟨fuel, rfl⟩ : ∃ n, fuel = n + 1 := ⟨fuel - 1, by rw [List.length_cons] at hfuel; omega⟩
    exact ⟨e, by rw [loadLoop_cons, he]⟩

theorem load_magic (clk : Clock) (p : Bytes) (dst : Store) : load clk (ascii "REDIS0011" ++ p) dst =
    loadLoop clk (9 + p.length) p none Store.empty := by
  have hlen : (ascii "REDIS0011" ++ p).length = 9 + p.length := List.length_append
  have htake : (ascii "REDIS0011" ++ p).take 9 = ascii "REDIS0011" := rfl
  rw [load, hlen, if_neg (by omega), htake, if_neg (by decide)]
  rfl

/-- The bytes are the magic word and whole records, and nothing else before an end opcode. -/
def Whole (data : Bytes) : Prop :=
  ∃ rs : List Bytes, (∀ r ∈ rs, IsRecord r) ∧
    (data = ascii "REDIS0011" ++ rs.flatten ∨
      ∃ more, data = ascii "REDIS0011" ++ (rs.flatten ++ opcodeEof :: more))

theorem isRecord_of_operand {clk : Clock} {pending pending' : Option Int64} {store store' : Store}
    {opcode : UInt8} {p rest : Bytes}
    (h : operand clk pending store opcode p = .ok (.next pending' store', rest)) :
    ∃ r, IsRecord r ∧ opcode :: p = r ++ rest := by
  obtain ⟨used, rfl, hused⟩ := local_operand clk pending store opcode p _ rest h
  exact ⟨opcode :: used, ⟨opcode, used, rfl, operand_uniform hused⟩, rfl⟩

/-- The loop ends without an exception only after whole records. -/
theorem records_of_loadLoop_ok {clk : Clock} {fuel : ℕ} {p : Bytes} (hfuel : p.length ≤ fuel)
    {pending : Option Int64} {store store' : Store}
    (h : loadLoop clk fuel p pending store = .ok store') :
    ∃ rs : List Bytes, (∀ r ∈ rs, IsRecord r) ∧
      (p = rs.flatten ∨ ∃ more, p = rs.flatten ++ opcodeEof :: more) := by
  induction fuel generalizing p pending store with
  | zero =>
    rw [List.length_eq_zero_iff.mp (Nat.le_zero.mp hfuel)]
    exact ⟨[], by simp, .inl rfl⟩
  | succ fuel ih =>
    cases p with
    | nil => exact ⟨[], by simp, .inl rfl⟩
    | cons opcode p =>
      rw [loadLoop_cons] at h
      split at h
      · cases h
      · next pending' store₁ rest hop =>
        obtain ⟨r, hr, hsplit⟩ := isRecord_of_operand hop
        have hpos : 0 < r.length := by
          obtain ⟨_, _, rfl, -⟩ := hr
          exact Nat.succ_pos _
        have hlen := congrArg List.length hsplit
        rw [List.length_append] at hlen
        obtain ⟨rs, hrs, hrest⟩ := ih (by omega) h
        refine ⟨r :: rs, List.forall_mem_cons.mpr ⟨hr, hrs⟩, ?_⟩
        rw [hsplit, List.flatten_cons]
        rcases hrest with rfl | ⟨more, rfl⟩
        · exact .inl rfl
        · exact .inr ⟨more, (List.append_assoc ..).symm⟩
      · next store₁ rest hop =>
        rw [opcode_of_done hop]
        exact ⟨[], by simp, .inr ⟨p, rfl⟩⟩

theorem load_ok_of_whole {data : Bytes} (h : Whole data) (clk : Clock) (dst : Store) :
    ∃ store, load clk data dst = .ok store := by
  obtain ⟨rs, hrs, rfl | ⟨more, rfl⟩⟩ := h
  · have hfuel : (rs.flatten ++ []).length ≤ 9 + rs.flatten.length := by
      rw [List.append_nil]
      exact Nat.le_add_left ..
    obtain ⟨fuel, pending, store, -, hrun⟩ := loadLoop_flatten hrs clk hfuel none Store.empty
    rw [List.append_nil] at hrun
    rw [load_magic, hrun]
    cases fuel <;> exact ⟨store, rfl⟩
  · obtain ⟨fuel, pending, store, hfuel, hrun⟩ := loadLoop_flatten hrs clk
      (Nat.le_add_left (rs.flatten ++ opcodeEof :: more).length 9) none Store.empty
    obtain ⟨fuel, rfl⟩ : ∃ n, fuel = n + 1 := ⟨fuel - 1, by rw [List.length_cons] at hfuel; omega⟩
    rw [load_magic, hrun, loadLoop_cons]
    exact ⟨store, rfl⟩

theorem load_throws_iff_not_whole (clk : Clock) (dst : Store) {part : Bytes} {saved : Clock}
    {store : Store} (hpart : part <+: serialize saved store) :
    (∃ e, load clk part dst = .error e) ↔ ¬ Whole part := by
  constructor
  · rintro ⟨e, he⟩ hwhole
    obtain ⟨store', hok⟩ := load_ok_of_whole hwhole clk dst
    rw [he] at hok
    cases hok
  · intro hnot
    rcases Nat.lt_or_ge part.length 9 with hlt | hge
    · exact ⟨_, by rw [load, if_pos hlt]⟩
    · have hmagic : ascii "REDIS0011" <+: serialize saved store := by
        rw [serialize, payload_eq, List.append_assoc, List.append_assoc]
        exact List.prefix_append ..
      obtain ⟨p, rfl⟩ := List.prefix_of_prefix_length_le hmagic hpart hge
      cases hload : load clk (ascii "REDIS0011" ++ p) dst with
      | error e => exact ⟨e, rfl⟩
      | ok store' =>
        rw [load_magic] at hload
        obtain ⟨rs, hrs, hp⟩ := records_of_loadLoop_ok (Nat.le_add_left ..) hload
        refine absurd ⟨rs, hrs, ?_⟩ hnot
        rcases hp with rfl | ⟨more, rfl⟩
        · exact .inl rfl
        · exact .inr ⟨more, rfl⟩

/-- The whole parts of a snapshot whose strings fit a length end where a record ends. -/
theorem whole_iff_records {saved : Clock} {store : Store}
    (hsize : ∀ item ∈ store.data.entries, item.1.length < 2 ^ 32 ∧ item.2.value.length < 2 ^ 32)
    {part : Bytes} (hpart : part <+: serialize saved store)
    (hend : part.length < (payload saved store).length) :
    Whole part ↔ ∃ k, part = ascii "REDIS0011" ++ ((records saved store).take k).flatten := by
  have hrecords := isRecord_records saved hsize
  constructor
  · intro hwhole
    have hbody : part <+: ascii "REDIS0011" ++ (records saved store).flatten := by
      have hpayload : part <+: payload saved store := List.prefix_of_prefix_length_le hpart
        (List.prefix_append ..) hend.le
      rw [payload_eq] at hpayload hend
      refine List.prefix_of_prefix_length_le hpayload (List.prefix_append ..) ?_
      rw [List.length_append, List.length_singleton] at hend
      omega
    have hmagic : ascii "REDIS0011" <+: part := by
      obtain ⟨rs, -, rfl | ⟨more, rfl⟩⟩ := hwhole
      · exact List.prefix_append ..
      · exact List.prefix_append ..
    obtain ⟨rest, rfl⟩ := hmagic
    obtain ⟨k, tail, rfl, htail⟩ := prefix_flatten ((List.prefix_append_right_inj _).mp hbody)
    rcases htail with rfl | ⟨more, hne, hmore, hmem⟩
    · exact ⟨k, by rw [List.append_nil]⟩
    · -- a part of a record makes the loader throw, whatever the clock and the store are
      obtain ⟨fuel, pending, store', hfuel, hrun⟩ := loadLoop_flatten
        (fun r hr ↦ hrecords r (List.mem_of_mem_take hr)) saved
        (Nat.le_add_left (((records saved store).take k).flatten ++ tail).length 9) none Store.empty
      obtain ⟨e, he⟩ := loadLoop_part (hrecords _ hmem) hne hmore saved hfuel pending store'
      obtain ⟨store₁, hok⟩ := load_ok_of_whole hwhole saved Store.empty
      rw [load_magic, hrun, he] at hok
      cases hok
  · rintro ⟨k, rfl⟩
    exact ⟨_, fun r hr ↦ hrecords r (List.mem_of_mem_take hr), .inl rfl⟩

/-- Loading what a snapshot has before some point ahead of its end throws exactly when it is not
the magic word and whole records. If the strings fit a length, those are the cuts at the end of
the magic word or of a record. -/
theorem load_prefix_throws_iff (saved clk : Clock) (store dst : Store) {part : Bytes}
    (hpart : part <+: serialize saved store) (hend : part.length < (payload saved store).length) :
    ((∃ e, load clk part dst = .error e) ↔ ¬ Whole part) ∧
    ((∀ item ∈ store.data.entries, item.1.length < 2 ^ 32 ∧ item.2.value.length < 2 ^ 32) →
      (Whole part ↔ ∃ k, part = ascii "REDIS0011" ++ ((records saved store).take k).flatten)) :=
  ⟨load_throws_iff_not_whole clk dst hpart, fun hsize ↦ whole_iff_records hsize hpart hend⟩

theorem epoch_nonneg : (0 : Int64) ≤ 0 := by decide

def cutClock : Clock := ⟨0, 0, epoch_nonneg, epoch_nonneg⟩

def cutStore : Store := Store.empty.set 0 (ascii "k") (ascii "v") none

def cutPayload (n : ℕ) : Bytes := (payload cutClock cutStore).take (90 - n)

theorem cutPayload_part (n : ℕ) : cutPayload n <+: serialize cutClock cutStore :=
  (List.take_prefix ..).trans (List.prefix_append ..)

theorem cutPayload_length {n : ℕ} (hn : 0 < n) (hle : n ≤ 90) :
    (cutPayload n).length < (payload cutClock cutStore).length := by
  have hlen : (payload cutClock cutStore).length = 90 := by decide +kernel
  rw [cutPayload, List.length_take, hlen]
  omega

/-- A cut in the middle of the key. -/
theorem cut_in_record_throws : ∃ e, load cutClock (cutPayload 3) Store.empty = .error e := by
  obtain ⟨hthrows, hwhole⟩ := load_prefix_throws_iff cutClock cutClock cutStore Store.empty
    (cutPayload_part 3) (cutPayload_length (by decide) (by decide))
  rw [hthrows, hwhole (by decide +kernel)]
  rintro ⟨k, h⟩
  have hparts : ∀ k < 9, cutPayload 3 ≠
      ascii "REDIS0011" ++ ((records cutClock cutStore).take k).flatten := by decide +kernel
  have hall : (records cutClock cutStore).length = 8 := by decide +kernel
  rcases Nat.lt_or_ge k 9 with hlt | hge
  · exact hparts k hlt h
  · rw [List.take_of_length_le (by omega), ← List.take_of_length_le hall.le] at h
    exact hparts 8 (by decide) h

/-- A cut between two records: the whole snapshot has the key, the part loads without it. -/
theorem cut_between_records_loads :
    cutPayload 6 <+: serialize cutClock cutStore ∧
    (cutPayload 6).length < (payload cutClock cutStore).length ∧
    (load cutClock (cutPayload 6) Store.empty).toOption.map (·.find (ascii "k")) = some none ∧
    (load cutClock (payload cutClock cutStore) Store.empty).toOption.map (·.find (ascii "k")) =
      some (some ⟨ascii "v", none⟩) := by
  refine ⟨cutPayload_part 6, cutPayload_length (by decide) (by decide), ?_, ?_⟩ <;> decide +kernel

end RedisLite.Rdb
