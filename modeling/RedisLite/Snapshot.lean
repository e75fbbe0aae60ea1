import RedisLite.Rdb

namespace RedisLite.Rdb

open Lib.Numerals

theorem lengthType_cases (h : Fin 64) :
    lengthType (UInt8.ofNat h) = 0 ∧ (UInt8.ofNat h &&& 0x3F).toNat = h ∧
    lengthType (UInt8.ofNat (0x40 ||| h.val)) = 1 ∧
    (UInt8.ofNat (0x40 ||| h.val) &&& 0x3F).toNat = h := by
  revert h
  decide

theorem readLength_writeLength (len : ℕ) (rest : Bytes) :
    readLength (writeLength len ++ rest) = .ok (len % 2 ^ 32, rest) := by
  unfold writeLength
  split
  · next h =>
    obtain ⟨h0, hv, -, -⟩ := lengthType_cases ⟨len, h⟩
    simp only [List.cons_append, List.nil_append, readLength, h0, if_true, hv]
    rw [Nat.mod_eq_of_lt (by omega)]
  · split
    · next h =>
      have hhigh : len >>> 8 < 64 := by rw [Nat.shiftRight_eq_div_pow]; omega
      obtain ⟨-, -, h1, hv⟩ := lengthType_cases ⟨len >>> 8, hhigh⟩
      have hlow : (UInt8.ofNat (len &&& 0xFF)).toNat = len % 256 := by
        rw [UInt8.toNat_ofNat', show (0xFF : ℕ) = 2 ^ 8 - 1 from rfl, Nat.and_two_pow_sub_one_eq_mod]
        omega
      dsimp only at h1 hv
      simp only [List.cons_append, List.nil_append, readLength, h1, hv, hlow]
      rw [if_neg (by decide), if_pos trivial, ← Nat.shiftLeft_add_eq_or_of_lt (by omega),
        Nat.shiftRight_eq_div_pow, Nat.shiftLeft_eq, Nat.mod_eq_of_lt (by omega : len < 2 ^ 32)]
      congr 2
      omega
    · have h2 : lengthType 0x80 = 2 := by decide
      have htake : (leBytes 4 len ++ rest).take 4 = leBytes 4 len := by
        rw [List.take_append_of_le_length (by simp), List.take_of_length_le (by simp)]
      have hdrop : (leBytes 4 len ++ rest).drop 4 = rest := by
        rw [List.drop_append_of_le_length (by simp), List.drop_of_length_le (by simp),
          List.nil_append]
      simp only [List.cons_append, readLength, h2]
      rw [if_neg (by decide), if_neg (by decide), if_pos trivial,
        if_neg (by rw [List.length_append, leBytes_length]; omega), htake, hdrop, leValue_leBytes]
      norm_num

theorem writeLength_cons (len : ℕ) :
    ∃ first tail, writeLength len = first :: tail ∧ lengthType first ≠ 3 := by
  unfold writeLength
  split
  · next h =>
    obtain ⟨h0, -, -, -⟩ := lengthType_cases ⟨len, h⟩
    exact ⟨_, _, rfl, by rw [h0]; decide⟩
  · split
    · next h =>
      have hhigh : len >>> 8 < 64 := by rw [Nat.shiftRight_eq_div_pow]; omega
      obtain ⟨-, -, h1, -⟩ := lengthType_cases ⟨len >>> 8, hhigh⟩
      exact ⟨_, _, rfl, by rw [h1]; decide⟩
    · exact ⟨_, _, rfl, by decide⟩

theorem readString_writeString {s : Bytes} (hs : s.length < 2 ^ 32) (rest : Bytes) :
    readString (writeString s ++ rest) = .ok (s, rest) := by
  obtain ⟨first, tail, hw, ht⟩ := writeLength_cons s.length
  have hr := readLength_writeLength s.length (s ++ rest)
  rw [writeString, List.append_assoc, hw, List.cons_append] at *
  simp only [readString, if_neg ht]
  rw [hr, Nat.mod_eq_of_lt hs]
  simp

theorem readLe64_writeLe64 (v : UInt64) (rest : Bytes) :
    readLe64 (writeLe64 v ++ rest) = .ok (v, rest) := by
  have htake : (leBytes 8 v.toNat ++ rest).take 8 = leBytes 8 v.toNat := by
    rw [List.take_append_of_le_length (by simp), List.take_of_length_le (by simp)]
  have hdrop : (leBytes 8 v.toNat ++ rest).drop 8 = rest := by
    rw [List.drop_append_of_le_length (by simp), List.drop_of_length_le (by simp),
      List.nil_append]
  unfold readLe64 writeLe64
  rw [if_neg (by rw [List.length_append, leBytes_length]; omega), htake, hdrop, leValue_leBytes,
    Nat.mod_eq_of_lt (by have := v.toNat_lt; omega), UInt64.ofNat_toNat]

def IsString (s : Bytes) : Prop := ∀ rest, ∃ a, readString (s ++ rest) = .ok (a, rest)

theorem isString_writeString {s : Bytes} (hs : s.length < 2 ^ 32) : IsString (writeString s) :=
  fun rest ↦ ⟨s, readString_writeString hs rest⟩

theorem isString_int8 (b : UInt8) : IsString [0xC0, b] := by
  intro rest
  refine ⟨toStr (Int.bmod (leValue [b]) (256 ^ 1)), ?_⟩
  simp only [List.cons_append, List.nil_append, readString, intString, List.length_cons]
  rw [if_pos (by decide), if_pos (by decide), if_neg (by omega)]
  rfl

theorem isString_int32 (n : ℕ) : IsString (0xC2 :: writeLe32 n) := by
  intro rest
  have hdrop : (leBytes 4 n ++ rest).drop 4 = rest := by
    rw [List.drop_append_of_le_length (by simp), List.drop_of_length_le (by simp),
      List.nil_append]
  refine ⟨toStr (Int.bmod (leValue ((leBytes 4 n ++ rest).take 4)) (256 ^ 4)), ?_⟩
  simp only [List.cons_append, readString, intString, writeLe32]
  rw [if_pos (by decide), if_neg (by decide), if_neg (by decide), if_pos (by decide),
    if_neg (by rw [List.length_append, leBytes_length]; omega), hdrop]

section Loop

variable (clk : Clock) (fuel : ℕ) (pending : Option Int64) (store : Store)

theorem loadLoop_aux {key val : Bytes} (hk : IsString key) (hv : IsString val) (p : Bytes) :
    loadLoop clk (fuel + 1) (opcodeAux :: (key ++ (val ++ p))) pending store =
      loadLoop clk fuel p pending store := by
  obtain ⟨a, ha⟩ := hk (val ++ p)
  obtain ⟨b, hb⟩ := hv p
  rw [loadLoop, if_pos rfl, ha]
  simp only [hb]

theorem loadLoop_selectdb (n : ℕ) (p : Bytes) :
    loadLoop clk (fuel + 1) (opcodeSelectdb :: (writeLength n ++ p)) pending store =
      loadLoop clk fuel p pending store := by
  rw [loadLoop, if_neg (by decide), if_pos rfl, readLength_writeLength]

theorem loadLoop_resizedb (n m : ℕ) (p : Bytes) :
    loadLoop clk (fuel + 1) (opcodeResizedb :: (writeLength n ++ (writeLength m ++ p)))
      pending store = loadLoop clk fuel p pending store := by
  rw [loadLoop, if_neg (by decide), if_neg (by decide), if_pos rfl, readLength_writeLength]
  simp only [readLength_writeLength]

theorem loadLoop_expiry (v : UInt64) (p : Bytes) :
    loadLoop clk (fuel + 1) (opcodeExpiretimeMs :: (writeLe64 v ++ p)) pending store =
      loadLoop clk fuel p (some v.toInt64) store := by
  rw [loadLoop, if_neg (by decide), if_neg (by decide), if_neg (by decide), if_pos rfl,
    readLe64_writeLe64]

theorem loadLoop_string {key val : Bytes} (hk : key.length < 2 ^ 32) (hv : val.length < 2 ^ 32)
    (p : Bytes) :
    loadLoop clk (fuel + 1) (typeString :: (writeString key ++ (writeString val ++ p)))
      pending store = loadLoop clk fuel p none (insertKey clk pending key val store) := by
  rw [loadLoop, if_neg (by decide), if_neg (by decide), if_neg (by decide), if_neg (by decide),
    if_neg (by decide), if_neg (by decide), if_pos rfl, readString_writeString hk]
  simp only [readString_writeString hv]

theorem loadLoop_eof (p : Bytes) :
    loadLoop clk (fuel + 1) (opcodeEof :: p) pending store = .ok store := by
  rw [loadLoop, if_neg (by decide), if_neg (by decide), if_neg (by decide), if_neg (by decide),
    if_neg (by decide), if_pos rfl]

end Loop

def restore (saved clk : Clock) (store : Store) (item : Item) : Store :=
  if item.2.isExpired saved.steady then store
  else insertKey clk (item.2.expiry.map (absMs saved)) item.1 item.2.value store

theorem loadLoop_entry (saved clk : Clock) (fuel : ℕ) (store : Store) {item : Item}
    (hk : item.1.length < 2 ^ 32) (hv : item.2.value.length < 2 ^ 32) (p : Bytes)
    (hf : (writeEntry saved item ++ p).length ≤ fuel) :
    ∃ fuel', p.length ≤ fuel' ∧ loadLoop clk fuel (writeEntry saved item ++ p) none store =
      loadLoop clk fuel' p none (restore saved clk store item) := by
  unfold writeEntry restore at *
  by_cases hx : item.2.isExpired saved.steady = true
  · rw [if_pos hx, if_pos hx] at *
    exact ⟨fuel, hf, rfl⟩
  · rw [if_neg hx, if_neg hx] at *
    cases he : item.2.expiry with
    | none =>
      simp only [he, writeExpiry, List.nil_append, List.cons_append, List.append_assoc,
        List.length_cons, List.length_append] at hf ⊢
      obtain ⟨fuel, rfl⟩ : ∃ n, fuel = n + 1 := ⟨fuel - 1, by omega⟩
      exact ⟨fuel, by omega, loadLoop_string clk fuel none store hk hv p⟩
    | some t =>
      simp only [he, writeExpiry, List.cons_append, List.append_assoc, List.length_cons,
        List.length_append] at hf ⊢
      obtain ⟨fuel, rfl⟩ : ∃ n, fuel = n + 1 + 1 := ⟨fuel - 2, by omega⟩
      refine ⟨fuel, by omega, ?_⟩
      rw [loadLoop_expiry, loadLoop_string clk fuel _ store hk hv p]
      rfl

theorem loadLoop_entries (saved clk : Clock) (items : List Item)
    (hsize : ∀ item ∈ items, item.1.length < 2 ^ 32 ∧ item.2.value.length < 2 ^ 32)
    (fuel : ℕ) (store : Store) (tail : Bytes)
    (hf : (items.flatMap (writeEntry saved) ++ opcodeEof :: tail).length ≤ fuel) :
    loadLoop clk fuel (items.flatMap (writeEntry saved) ++ opcodeEof :: tail) none store =
      .ok (items.foldl (restore saved clk) store) := by
  induction items generalizing fuel store with
  | nil =>
    simp only [List.flatMap_nil, List.nil_append, List.length_cons] at hf
    obtain ⟨fuel, rfl⟩ : ∃ n, fuel = n + 1 := ⟨fuel - 1, by omega⟩
    exact loadLoop_eof clk fuel none store tail
  | cons item items ih =>
    obtain ⟨hk, hv⟩ := hsize item (List.mem_cons_self ..)
    rw [List.flatMap_cons, List.append_assoc] at hf ⊢
    obtain ⟨fuel', hf', he⟩ := loadLoop_entry saved clk fuel store hk hv _ hf
    rw [he, List.foldl_cons]
    exact ih (fun i hi ↦ hsize i (List.mem_cons_of_mem item hi)) fuel' _ hf'

theorem loadLoop_preamble (saved clk : Clock) (items : List Item) (fuel : ℕ) (store : Store)
    (p : Bytes) :
    loadLoop clk (fuel + 7) ((preamble saved).drop 9 ++ (resizeHint saved items ++ p)) none store =
      loadLoop clk fuel p none store := by
  have hdrop : (preamble saved).drop 9 = opcodeAux :: (writeString (ascii "redis-ver")
      ++ writeString (ascii "7.2.0"))
    ++ opcodeAux :: (writeString (ascii "redis-bits") ++ [0xC0, 0x40])
    ++ opcodeAux :: (writeString (ascii "ctime")
      ++ 0xC2 :: writeLe32 (saved.system / 1000000000).toUInt64.toNat)
    ++ opcodeAux :: (writeString (ascii "used-mem") ++ 0xC2 :: writeLe32 0)
    ++ opcodeAux :: (writeString (ascii "aof-base") ++ [0xC0, 0x00])
    ++ opcodeSelectdb :: writeLength 0 := rfl
  have haux (k : String) (hk : (ascii k).length < 2 ^ 32) := isString_writeString hk
  simp only [hdrop, resizeHint, List.cons_append, List.append_assoc]
  refine (loadLoop_aux clk (fuel + 6) none store (haux _ (by decide)) (haux _ (by decide)) _).trans ?_
  refine (loadLoop_aux clk (fuel + 5) none store (haux _ (by decide)) (isString_int8 0x40) _).trans ?_
  refine (loadLoop_aux clk (fuel + 4) none store (haux _ (by decide)) (isString_int32 _) _).trans ?_
  refine (loadLoop_aux clk (fuel + 3) none store (haux _ (by decide)) (isString_int32 _) _).trans ?_
  refine (loadLoop_aux clk (fuel + 2) none store (haux _ (by decide)) (isString_int8 0x00) _).trans ?_
  exact (loadLoop_selectdb clk (fuel + 1) none store 0 _).trans
    (loadLoop_resizedb clk fuel none store _ _ p)

theorem load_serialize (saved clk : Clock) (store dst : Store)
    (hsize : ∀ item ∈ store.data.entries, item.1.length < 2 ^ 32 ∧ item.2.value.length < 2 ^ 32) :
    load clk (serialize saved store) dst =
      .ok (store.data.entries.foldl (restore saved clk) Store.empty) := by
  have hmagic : preamble saved = ascii "REDIS0011" ++ (preamble saved).drop 9 := rfl
  have hlen : 16 ≤ (preamble saved).length := by
    simp only [preamble, writeLe32, List.length_append, List.length_cons, leBytes_length]
    omega
  have htake : (serialize saved store).take 9 = ascii "REDIS0011" := by
    unfold serialize payload
    rw [hmagic]
    rfl
  have hsplit : serialize saved store = preamble saved ++ (resizeHint saved store.data.entries ++
      (store.data.entries.flatMap (writeEntry saved) ++
        opcodeEof :: writeLe64 (Crc64.crc64 (payload saved store)))) := by
    unfold serialize
    generalize Crc64.crc64 (payload saved store) = crc
    simp only [payload, List.append_assoc, List.cons_append, List.nil_append]
  have hdrop : (serialize saved store).drop 9 = (preamble saved).drop 9 ++
      (resizeHint saved store.data.entries ++ (store.data.entries.flatMap (writeEntry saved) ++
        opcodeEof :: writeLe64 (Crc64.crc64 (payload saved store)))) := by
    rw [hsplit, List.drop_append_of_le_length (by omega)]
  have htotal := congrArg List.length hsplit
  rw [List.length_append, List.length_append] at htotal
  obtain ⟨fuel, hfuel⟩ : ∃ n, (serialize saved store).length = n + 7 :=
    ⟨(serialize saved store).length - 7, by omega⟩
  unfold load
  simp only
  rw [if_neg (by omega), htake, if_neg (by decide), hdrop, hfuel, loadLoop_preamble,
    loadLoop_entries saved clk _ hsize fuel _ _ (by omega)]
  rfl

def restored (saved clk : Clock) (e : Entry) : Option Entry :=
  if e.isExpired saved.steady then none
  else
    match e.expiry with
    | none => some ⟨e.value, none⟩
    | some t =>
      if 0 < absMs saved t - sysNowMs clk then
        some ⟨e.value, some (clk.steady + Store.millis (absMs saved t - sysNowMs clk))⟩
      else none

theorem find_restore (saved clk : Clock) (store : Store) (item : Item) (k : Bytes) :
    (restore saved clk store item).find k =
      if k = item.1 then (restored saved clk item.2).or (store.find k) else store.find k := by
  unfold restore restored
  by_cases hx : item.2.isExpired saved.steady = true
  · simp [hx]
  · cases he : item.2.expiry with
    | none => simp [hx, insertKey, Store.find_set]
    | some t =>
      by_cases hr : 0 < absMs saved t - sysNowMs clk
      · simp [hx, insertKey, hr, Store.find_set]
      · simp [hx, insertKey, hr]

theorem find_foldl_restore (saved clk : Clock) (items : List Item) (hn : items.NodupKeys)
    (store : Store) (k : Bytes) :
    (items.foldl (restore saved clk) store).find k =
      ((items.dlookup k).bind (restored saved clk)).or (store.find k) := by
  induction items generalizing store with
  | nil => simp
  | cons item items ih =>
    obtain ⟨hnot, hn'⟩ := List.nodupKeys_cons.mp hn
    rw [List.foldl_cons, ih hn', find_restore]
    by_cases hk : k = item.1
    · subst hk
      rw [List.dlookup_eq_none.mpr hnot, List.dlookup_cons_eq]
      simp
    · rw [if_neg hk, List.dlookup_cons_ne items item hk]

/-- What a load makes of a snapshot, key by key, whatever the two clocks say. -/
theorem exists_load_serialize (saved clk : Clock) (store dst : Store)
    (hsize : ∀ k e, store.find k = some e → k.length < 2 ^ 32 ∧ e.value.length < 2 ^ 32) :
    ∃ loaded, load clk (serialize saved store) dst = .ok loaded ∧
      ∀ k, loaded.find k = (store.find k).bind (restored saved clk) := by
  refine ⟨_, load_serialize saved clk store dst (fun item hi ↦ ?_), fun k ↦ ?_⟩
  · exact hsize item.1 item.2 (Store.find_eq_some.mpr hi)
  · rw [find_foldl_restore saved clk _ store.data.nodupKeys]
    simp only [Store.find_empty, Option.or_none]
    rfl

def WholeMs (t : Int64) : Prop := t.toInt % 1000000 = 0

theorem toInt_add {a b : Int64} (hl : -2 ^ 63 ≤ a.toInt + b.toInt) (hu : a.toInt + b.toInt < 2 ^ 63) :
    (a + b).toInt = a.toInt + b.toInt := by
  rw [Int64.toInt_add, Int.bmod_eq_of_le (by simpa using hl) (by simpa using hu)]

theorem toInt_sub {a b : Int64} (hl : -2 ^ 63 ≤ a.toInt - b.toInt) (hu : a.toInt - b.toInt < 2 ^ 63) :
    (a - b).toInt = a.toInt - b.toInt := by
  rw [Int64.toInt_sub, Int.bmod_eq_of_le (by simpa using hl) (by simpa using hu)]

theorem toInt_mul {a b : Int64} (hl : -2 ^ 63 ≤ a.toInt * b.toInt) (hu : a.toInt * b.toInt < 2 ^ 63) :
    (a * b).toInt = a.toInt * b.toInt := by
  rw [Int64.toInt_mul, Int.bmod_eq_of_le (by simpa using hl) (by simpa using hu)]

theorem toInt_million : (1000000 : Int64).toInt = 1000000 := by decide

theorem toInt_millis {n : Int64} (hl : -2 ^ 63 ≤ n.toInt * 1000000)
    (hu : n.toInt * 1000000 < 2 ^ 63) : (Store.millis n).toInt = n.toInt * 1000000 := by
  unfold Store.millis
  rw [toInt_mul, toInt_million]
  · rw [toInt_million]; exact hl
  · rw [toInt_million]; exact hu

theorem add_millis_eq {a t n : Int64} (ha : 0 ≤ a.toInt) (hat : a.toInt ≤ t.toInt)
    (hw : WholeMs a) (hw' : WholeMs t) (hn : n.toInt = (t.toInt - a.toInt) / 1000000) :
    a + Store.millis n = t := by
  have hbt := Int64.toInt_lt t
  unfold WholeMs at hw hw'
  have hmul : (Store.millis n).toInt = t.toInt - a.toInt := by
    rw [toInt_millis (by omega) (by omega)]
    omega
  apply Int64.toInt_inj.mp
  rw [toInt_add (by omega) (by omega), hmul]
  omega

theorem toInt_div_million {a : Int64} (ha : 0 ≤ a.toInt) :
    (a / 1000000).toInt = a.toInt / 1000000 := by
  rw [Int64.toInt_div_of_ne_right _ _ (by decide), Int.tdiv_eq_ediv_of_nonneg ha]
  rfl

/-- The wall clock carries the remaining life of an entry from one steady clock
reading to a later one without loss. -/
theorem remaining_eq {saved clk : Clock} {t : TimePoint}
    (ht : WholeMs t) (hs : WholeMs saved.steady) (hw : WholeMs saved.system)
    (hs' : WholeMs clk.steady) (hw' : WholeMs clk.system)
    (htogether : clk.steady.toInt - saved.steady.toInt = clk.system.toInt - saved.system.toInt)
    (hlive : saved.steady.toInt < t.toInt) :
    (absMs saved t - sysNowMs clk).toInt = (t.toInt - clk.steady.toInt) / 1000000 := by
  have h₁ := Int64.le_iff_toInt_le.mp saved.steady_nonneg
  have h₂ := Int64.le_iff_toInt_le.mp saved.system_nonneg
  have h₃ := Int64.le_iff_toInt_le.mp clk.steady_nonneg
  have h₄ := Int64.le_iff_toInt_le.mp clk.system_nonneg
  have h₀ : (0 : Int64).toInt = 0 := rfl
  have hbt := Int64.toInt_lt t
  have hbw := Int64.toInt_lt saved.system
  have hbw' := Int64.toInt_lt clk.system
  unfold WholeMs at *
  have hd : (t - saved.steady).toInt = t.toInt - saved.steady.toInt :=
    toInt_sub (by omega) (by omega)
  have hq : ((t - saved.steady) / 1000000).toInt = (t.toInt - saved.steady.toInt) / 1000000 := by
    rw [toInt_div_million (by omega), hd]
  have hn : (sysNowMs saved).toInt = saved.system.toInt / 1000000 := toInt_div_million (by omega)
  have hn' : (sysNowMs clk).toInt = clk.system.toInt / 1000000 := toInt_div_million (by omega)
  have ha : (absMs saved t).toInt =
      saved.system.toInt / 1000000 + (t.toInt - saved.steady.toInt) / 1000000 := by
    unfold absMs
    rw [toInt_add (by omega) (by omega), hn, hq]
  rw [toInt_sub (by omega) (by omega), ha, hn']
  omega

theorem restored_eq {saved clk : Clock} {e : Entry}
    (he : ∀ t, e.expiry = some t → WholeMs t)
    (hs : WholeMs saved.steady) (hw : WholeMs saved.system)
    (hs' : WholeMs clk.steady) (hw' : WholeMs clk.system)
    (hlater : saved.steady ≤ clk.steady)
    (htogether : clk.steady.toInt - saved.steady.toInt = clk.system.toInt - saved.system.toInt) :
    restored saved clk e = if e.isExpired clk.steady then none else some e := by
  obtain ⟨value, expiry⟩ := e
  cases expiry with
  | none => rfl
  | some t =>
    have ht := he t rfl
    rw [Int64.le_iff_toInt_le] at hlater
    have h₃ := Int64.le_iff_toInt_le.mp clk.steady_nonneg
    have h₀ : (0 : Int64).toInt = 0 := rfl
    have hbt := Int64.toInt_lt t
    simp only [restored, Entry.isExpired, decide_eq_true_eq, Int64.le_iff_toInt_le,
      Int64.lt_iff_toInt_lt, h₀]
    by_cases hx : t.toInt ≤ saved.steady.toInt
    · rw [if_pos hx, if_pos (by omega)]
    · have hr := remaining_eq ht hs hw hs' hw' htogether (by omega)
      unfold WholeMs at *
      rw [if_neg hx, hr]
      by_cases hx' : t.toInt ≤ clk.steady.toInt
      · rw [if_neg (by omega), if_pos hx']
      · rw [if_pos (by omega), if_neg hx']
        rw [add_millis_eq h₃ (by omega) hs' ht hr]

/-- Loading a snapshot no earlier than it was taken restores the entries that are
still alive, with their values and expiry instants, and nothing else. -/
theorem load_undoes_serialize (saved clk : Clock) (store dst : Store)
    (hsize : ∀ k e, store.find k = some e → k.length < 2 ^ 32 ∧ e.value.length < 2 ^ 32)
    (hs : WholeMs saved.steady) (hw : WholeMs saved.system)
    (hs' : WholeMs clk.steady) (hw' : WholeMs clk.system)
    (he : ∀ k e t, store.find k = some e → e.expiry = some t → WholeMs t)
    (hlater : saved.steady ≤ clk.steady)
    (htogether : clk.steady.toInt - saved.steady.toInt = clk.system.toInt - saved.system.toInt) :
    ∃ loaded, load clk (serialize saved store) dst = .ok loaded ∧
      ∀ k, loaded.find k = (store.find k).filter (fun e ↦ !e.isExpired clk.steady) := by
  obtain ⟨loaded, hload, hfind⟩ := exists_load_serialize saved clk store dst hsize
  refine ⟨loaded, hload, fun k ↦ ?_⟩
  rw [hfind]
  cases hk : store.find k with
  | none => rfl
  | some e =>
    have hr := restored_eq (fun t ht ↦ he k e t hk ht) hs hw hs' hw' hlater htogether
    rw [Option.bind_some, hr]
    by_cases hx : e.isExpired clk.steady = true
    · simp [hx, Option.filter]
    · simp [hx, Option.filter]

/-- Two keys, one of them with ten milliseconds to live, loaded four milliseconds
after the snapshot. -/
theorem load_undoes_serialize_two :
    ∃ loaded, load ⟨7000000, 9000000, by decide, by decide⟩
      (serialize ⟨3000000, 5000000, by decide, by decide⟩
        ((Store.empty.set 3000000 (ascii "a") (ascii "1") none).set 3000000 (ascii "b")
          (ascii "2") (some 10))) Store.empty = .ok loaded ∧
      ∀ k, loaded.find k = ((((Store.empty.set 3000000 (ascii "a") (ascii "1") none).set 3000000
        (ascii "b") (ascii "2") (some 10))).find k).filter (fun e ↦ !e.isExpired 7000000) := by
  refine load_undoes_serialize _ _ _ _ ?_ rfl rfl rfl rfl ?_ (by decide) rfl
  · intro k e h
    rw [Store.find_set, Store.find_set] at h
    split at h
    · next hk => cases h; subst hk; decide
    · split at h
      · next hk => cases h; subst hk; decide
      · cases h
  · intro k e t h ht
    rw [Store.find_set, Store.find_set] at h
    split at h
    · cases h; cases ht; rfl
    · split at h
      · cases h; cases ht
      · cases h

end RedisLite.Rdb
