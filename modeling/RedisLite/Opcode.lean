import RedisLite.Lib.Decode
import RedisLite.Rdb

namespace RedisLite.Rdb

open Lib.Decode Lib.Numerals

def lengthRest (first : UInt8) : Decoder UInt8 String ℕ :=
  if lengthType first = 0 then fun p ↦ .ok ((first &&& 0x3F).toNat, p)
  else if lengthType first = 1 then
    andThen (one "RDB: unexpected end in length") fun second p ↦
      .ok (((first &&& 0x3F).toNat <<< 8) ||| second.toNat, p)
  else if lengthType first = 2 then
    andThen (block 4 "RDB: unexpected end in length") fun bytes p ↦ .ok (leValue bytes, p)
  else fun p ↦ .ok (first.toNat, p)

theorem readLength_eq :
    readLength = andThen (one "RDB: unexpected end in length") lengthRest := by
  funext s
  cases s with
  | nil => rfl
  | cons first p =>
    change _ = lengthRest first p
    unfold readLength lengthRest
    dsimp only
    split
    · rfl
    split
    · cases p <;> rfl
    split
    · unfold andThen block
      split <;> rfl
    · rfl

theorem intString_eq (n : ℕ) (what : String) :
    intString n what = andThen (block n ("RDB: unexpected end in " ++ what ++ " string"))
      fun bytes p ↦ .ok (toStr (Int.bmod (leValue bytes) (256 ^ n)), p) := by
  funext p
  unfold intString andThen block
  split <;> rfl

def special (first : UInt8) : Decoder UInt8 String Bytes :=
  if first &&& 0x3F = 0 then intString 1 "int8"
  else if first &&& 0x3F = 1 then intString 2 "int16"
  else if first &&& 0x3F = 2 then intString 4 "int32"
  else fun _ ↦ .error ("RDB: unsupported special encoding " ++ toString (first &&& 0x3F).toNat)

theorem readString_eq : readString = peek "RDB: unexpected end in string" fun first ↦
    if lengthType first = 3 then
      andThen (one "RDB: unexpected end in string") fun _ ↦ special first
    else andThen readLength fun len ↦ block len "RDB: unexpected end in string data" := by
  funext s
  cases s with
  | nil => rfl
  | cons first p =>
    rw [readString, peek]
    split
    · change _ = special first p
      unfold special
      dsimp only
      split
      · rfl
      split
      · rfl
      split <;> rfl
    · rw [andThen]
      cases readLength (first :: p) <;> rfl

theorem readLe64_eq : readLe64 = andThen (block 8 "RDB: unexpected end in le64")
    fun bytes p ↦ .ok (UInt64.ofNat (leValue bytes), p) := by
  funext p
  unfold readLe64 andThen block
  split <;> rfl

theorem readLe32_eq : readLe32 = andThen (block 4 "RDB: unexpected end in le32")
    fun bytes p ↦ .ok (leValue bytes, p) := by
  funext p
  unfold readLe32 andThen block
  split <;> rfl

theorem stable_readLength : Stable readLength := by
  rw [readLength_eq]
  refine (stable_one _).andThen (fun first ↦ stable_ite (stable_ok _) (stable_ite ?_
    (stable_ite ?_ (stable_ok _))))
  · exact (stable_one _).andThen (fun _ ↦ stable_ok _)
  · exact (stable_block _ _).andThen (fun _ ↦ stable_ok _)

theorem stable_special (first : UInt8) : Stable (special first) := by
  have hint (n : ℕ) (what : String) : Stable (intString n what) := by
    rw [intString_eq]
    exact (stable_block _ _).andThen (fun _ ↦ stable_ok _)
  exact stable_ite (hint 1 _) (stable_ite (hint 2 _) (stable_ite (hint 4 _) (stable_error _)))

theorem stable_readString : Stable readString := by
  rw [readString_eq]
  refine stable_peek _ (fun first ↦ stable_ite ?_ ?_)
  · exact (stable_one _).andThen (fun _ ↦ stable_special first)
  · exact stable_readLength.andThen (fun _ ↦ stable_block _ _)

theorem stable_readLe64 : Stable readLe64 := by
  rw [readLe64_eq]
  exact (stable_block _ _).andThen (fun _ ↦ stable_ok _)

theorem stable_readLe32 : Stable readLe32 := by
  rw [readLe32_eq]
  exact (stable_block _ _).andThen (fun _ ↦ stable_ok _)

theorem local_readLength : Local readLength := by
  rw [readLength_eq]
  refine (local_one _).andThen (stable_one _) (fun first ↦ local_ite (local_ok _) (local_ite ?_
    (local_ite ?_ (local_ok _))))
  · exact (local_one _).andThen (stable_one _) (fun _ ↦ local_ok _)
  · exact (local_block _ _).andThen (stable_block _ _) (fun _ ↦ local_ok _)

theorem local_special (first : UInt8) : Local (special first) := by
  have hint (n : ℕ) (what : String) : Local (intString n what) := by
    rw [intString_eq]
    exact (local_block _ _).andThen (stable_block _ _) (fun _ ↦ local_ok _)
  exact local_ite (hint 1 _) (local_ite (hint 2 _) (local_ite (hint 4 _) (local_error _)))

theorem local_readString : Local readString := by
  rw [readString_eq]
  refine local_peek _ (fun first ↦ local_ite ?_ ?_) (fun first ↦ ?_)
  · exact (local_one _).andThen (stable_one _) (fun _ ↦ local_special first)
  · exact local_readLength.andThen stable_readLength (fun _ ↦ local_block _ _)
  · split <;> exact ⟨_, rfl⟩

theorem local_readLe64 : Local readLe64 := by
  rw [readLe64_eq]
  exact (local_block _ _).andThen (stable_block _ _) (fun _ ↦ local_ok _)

theorem local_readLe32 : Local readLe32 := by
  rw [readLe32_eq]
  exact (local_block _ _).andThen (stable_block _ _) (fun _ ↦ local_ok _)

inductive Round
  | next (pending : Option Int64) (store : Store)
  | done (store : Store)

def operand (clk : Clock) (pending : Option Int64) (store : Store) (opcode : UInt8) :
    Decoder UInt8 String Round :=
  if opcode = opcodeAux then
    andThen readString fun _ ↦ andThen readString fun _ p ↦ .ok (.next pending store, p)
  else if opcode = opcodeSelectdb then
    andThen readLength fun _ p ↦ .ok (.next pending store, p)
  else if opcode = opcodeResizedb then
    andThen readLength fun _ ↦ andThen readLength fun _ p ↦ .ok (.next pending store, p)
  else if opcode = opcodeExpiretimeMs then
    andThen readLe64 fun v p ↦ .ok (.next (some v.toInt64) store, p)
  else if opcode = opcodeExpiretime then
    andThen readLe32 fun v p ↦ .ok (.next (some (Int64.ofNat v * 1000)) store, p)
  else if opcode = opcodeEof then fun p ↦ .ok (.done store, p)
  else if opcode = typeString then
    andThen readString fun key ↦ andThen readString fun val p ↦
      .ok (.next none (insertKey clk pending key val store), p)
  else fun _ ↦ .error ("RDB: unsupported type " ++ toString opcode.toNat)

theorem loadLoop_cons (clk : Clock) (fuel : ℕ) (opcode : UInt8) (p : Bytes)
    (pending : Option Int64) (store : Store) :
    loadLoop clk (fuel + 1) (opcode :: p) pending store =
      match operand clk pending store opcode p with
      | .error e => .error e
      | .ok (.next pending store, p) => loadLoop clk fuel p pending store
      | .ok (.done store, _) => .ok store := by
  rw [loadLoop, operand]
  split
  · unfold andThen
    cases readString p with
    | error e => rfl
    | ok key =>
      dsimp only
      cases readString key.2 <;> rfl
  split
  · unfold andThen
    cases readLength p <;> rfl
  split
  · unfold andThen
    cases readLength p with
    | error e => rfl
    | ok n =>
      dsimp only
      cases readLength n.2 <;> rfl
  split
  · unfold andThen
    cases readLe64 p <;> rfl
  split
  · unfold andThen
    cases readLe32 p <;> rfl
  split
  · rfl
  split
  · unfold andThen
    cases readString p with
    | error e => rfl
    | ok key =>
      dsimp only
      cases readString key.2 <;> rfl
  · rfl

theorem stable_operand (clk : Clock) (pending : Option Int64) (store : Store) (opcode : UInt8) :
    Stable (operand clk pending store opcode) := by
  refine stable_ite ?_ (stable_ite ?_ (stable_ite ?_ (stable_ite ?_ (stable_ite ?_
    (stable_ite (stable_ok _) (stable_ite ?_ (stable_error _)))))))
  · exact stable_readString.andThen (fun _ ↦ stable_readString.andThen (fun _ ↦ stable_ok _))
  · exact stable_readLength.andThen (fun _ ↦ stable_ok _)
  · exact stable_readLength.andThen (fun _ ↦ stable_readLength.andThen (fun _ ↦ stable_ok _))
  · exact stable_readLe64.andThen (fun _ ↦ stable_ok _)
  · exact stable_readLe32.andThen (fun _ ↦ stable_ok _)
  · exact stable_readString.andThen (fun _ ↦ stable_readString.andThen (fun _ ↦ stable_ok _))

theorem local_operand (clk : Clock) (pending : Option Int64) (store : Store) (opcode : UInt8) :
    Local (operand clk pending store opcode) := by
  have hstring {g : Bytes → Decoder UInt8 String Round} (hg : ∀ a, Local (g a)) :=
    local_readString.andThen stable_readString hg
  have hlength {g : ℕ → Decoder UInt8 String Round} (hg : ∀ a, Local (g a)) :=
    local_readLength.andThen stable_readLength hg
  refine local_ite ?_ (local_ite ?_ (local_ite ?_ (local_ite ?_ (local_ite ?_
    (local_ite (local_ok _) (local_ite ?_ (local_error _)))))))
  · exact hstring (fun _ ↦ hstring (fun _ ↦ local_ok _))
  · exact hlength (fun _ ↦ local_ok _)
  · exact hlength (fun _ ↦ hlength (fun _ ↦ local_ok _))
  · exact local_readLe64.andThen stable_readLe64 (fun _ ↦ local_ok _)
  · exact local_readLe32.andThen stable_readLe32 (fun _ ↦ local_ok _)
  · exact hstring (fun _ ↦ hstring (fun _ ↦ local_ok _))

/-- Every opcode but the last one reads something that does not depend on what has been loaded
before, and goes on. -/
theorem operand_reads {opcode : UInt8} (hne : opcode ≠ opcodeEof) :
    ∃ (α : Type) (read : Decoder UInt8 String α) (pend : Option Int64 → α → Option Int64)
      (put : Clock → Option Int64 → Store → α → Store), ∀ clk pending store,
        operand clk pending store opcode = andThen read
          (fun a p ↦ .ok (.next (pend pending a) (put clk pending store a), p)) := by
  unfold operand
  by_cases haux : opcode = opcodeAux
  · refine ⟨_, andThen readString fun _ ↦ readString, fun pending _ ↦ pending,
      fun _ _ store _ ↦ store, fun clk pending store ↦ ?_⟩
    rw [if_pos haux, andThen_assoc]
  simp only [if_neg haux]
  by_cases hselectdb : opcode = opcodeSelectdb
  · refine ⟨_, readLength, fun pending _ ↦ pending, fun _ _ store _ ↦ store,
      fun clk pending store ↦ ?_⟩
    rw [if_pos hselectdb]
  simp only [if_neg hselectdb]
  by_cases hresizedb : opcode = opcodeResizedb
  · refine ⟨_, andThen readLength fun _ ↦ readLength, fun pending _ ↦ pending,
      fun _ _ store _ ↦ store, fun clk pending store ↦ ?_⟩
    rw [if_pos hresizedb, andThen_assoc]
  simp only [if_neg hresizedb]
  by_cases hms : opcode = opcodeExpiretimeMs
  · refine ⟨_, readLe64, fun _ v ↦ some v.toInt64, fun _ _ store _ ↦ store,
      fun clk pending store ↦ ?_⟩
    rw [if_pos hms]
  simp only [if_neg hms]
  by_cases hsec : opcode = opcodeExpiretime
  · refine ⟨_, readLe32, fun _ v ↦ some (Int64.ofNat v * 1000), fun _ _ store _ ↦ store,
      fun clk pending store ↦ ?_⟩
    rw [if_pos hsec]
  simp only [if_neg hsec, if_neg hne]
  by_cases hstring : opcode = typeString
  · refine ⟨_, andThen readString fun key ↦ andThen readString fun val p ↦ .ok ((key, val), p),
      fun _ _ ↦ none, fun clk pending store kv ↦ insertKey clk pending kv.1 kv.2 store,
      fun clk pending store ↦ ?_⟩
    rw [if_pos hstring, andThen_assoc]
    simp only [andThen_assoc]
    rfl
  simp only [if_neg hstring]
  exact ⟨Unit, fun _ ↦ .error ("RDB: unsupported type " ++ toString opcode.toNat),
    fun pending _ ↦ pending, fun _ _ store _ ↦ store, fun _ _ _ ↦ rfl⟩

theorem operand_eof (clk : Clock) (pending : Option Int64) (store : Store) (p : Bytes) :
    operand clk pending store opcodeEof p = .ok (.done store, p) := rfl

theorem opcode_of_done {clk : Clock} {pending : Option Int64} {store store' : Store}
    {opcode : UInt8} {p rest : Bytes}
    (h : operand clk pending store opcode p = .ok (.done store', rest)) : opcode = opcodeEof := by
  by_contra hne
  obtain ⟨α, read, pend, put, hreads⟩ := operand_reads hne
  rw [hreads] at h
  obtain ⟨a, mid, -, h⟩ := andThen_eq_ok h
  cases h

/-- Whether an opcode has all that belongs to it, and whether it ends the file, does not depend on
what has been loaded before. -/
theorem operand_uniform {clk : Clock} {pending pending' : Option Int64} {store store' : Store}
    {opcode : UInt8} {p rest : Bytes}
    (h : operand clk pending store opcode p = .ok (.next pending' store', rest)) (clk₁ : Clock)
    (pending₁ : Option Int64) (store₁ : Store) : ∃ pending₂ store₂,
      operand clk₁ pending₁ store₁ opcode p = .ok (.next pending₂ store₂, rest) := by
  have hne : opcode ≠ opcodeEof := by
    rintro rfl
    rw [operand_eof] at h
    cases h
  obtain ⟨α, read, pend, put, hreads⟩ := operand_reads hne
  rw [hreads] at h
  obtain ⟨a, mid, ha, h⟩ := andThen_eq_ok h
  cases h
  exact ⟨_, _, by rw [hreads, andThen_of_ok ha]⟩

end RedisLite.Rdb
