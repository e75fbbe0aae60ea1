import RedisLite.Lib.Decode
import RedisLite.Lib.Framing
import RedisLite.Lib.Numerals
import RedisLite.Lib.Search

namespace RedisLite.Lib

open Decode Numerals Search

/-- The values of a protocol whose words say by their first byte what they are. -/
inductive Value
  | simple (text : List UInt8)
  | error (text : List UInt8)
  | integer (n : ℤ)
  | bulk (data : List UInt8)
  | null
  | array (items : List Value)

namespace Value

def lineEnd : List UInt8 := [13, 10]

theorem lineEnd_ne_nil : lineEnd ≠ [] := List.cons_ne_nil _ _

mutual

def encode : Value → List UInt8
  | simple text => 43 :: (text ++ lineEnd)
  | error text => 45 :: (text ++ lineEnd)
  | integer n => 58 :: (signed n ++ lineEnd)
  | bulk data => 36 :: (signed data.length ++ lineEnd ++ (data ++ lineEnd))
  | null => 36 :: (signed (-1) ++ lineEnd)
  | array items => 42 :: (signed items.length ++ lineEnd ++ encodeItems items)

def encodeItems : List Value → List UInt8
  | [] => []
  | v :: vs => encode v ++ encodeItems vs

end

theorem encodeItems_eq (items : List Value) : encodeItems items = items.flatMap encode := by
  induction items with
  | nil => rfl
  | cons v vs ih => rw [encodeItems, ih, List.flatMap_cons]

theorem encode_ne_nil (v : Value) : encode v ≠ [] := by
  cases v <;> exact List.cons_ne_nil _ _

def line : Decoder UInt8 Unit (List UInt8) := fun s ↦
  match find? lineEnd s with
  | none => .error ()
  | some i => .ok (s.take i, s.drop (i + 2))

def number : Decoder UInt8 Unit ℤ := andThen line (fun text ↦
  match readSigned text with
  | none => fun _ ↦ .error ()
  | some n => fun s ↦ .ok (n, s))

def body (n : ℕ) : Decoder UInt8 Unit (List UInt8) :=
  andThen (block n ()) (fun data ↦ andThen (block 2 ()) (fun tail ↦
    if tail = lineEnd then fun s ↦ .ok (data, s) else fun _ ↦ .error ()))

def reader (nested : Decoder UInt8 Unit Value) : Decoder UInt8 Unit Value :=
  andThen (one ()) (fun kind ↦
    if kind = 43 then andThen line (fun text s ↦ .ok (simple text, s))
    else if kind = 45 then andThen line (fun text s ↦ .ok (error text, s))
    else if kind = 58 then andThen number (fun n s ↦ .ok (integer n, s))
    else if kind = 36 then andThen number (fun n ↦
      if n = -1 then fun s ↦ .ok (null, s)
      else if n < 0 then fun _ ↦ .error ()
      else andThen (body n.toNat) (fun data s ↦ .ok (bulk data, s)))
    else if kind = 42 then andThen number (fun n ↦
      if n < 0 then fun _ ↦ .error ()
      else andThen (many nested n.toNat) (fun items s ↦ .ok (array items, s)))
    else fun _ ↦ .error ())

/-- One value with at most `depth` arrays around each other, or one more that is empty. -/
def read : ℕ → Decoder UInt8 Unit Value
  | 0 => reader (fun _ ↦ .error ())
  | depth + 1 => reader (read depth)

def WellFormed (nested : Value → Prop) : Value → Prop
  | simple text => find? lineEnd text = none
  | error text => find? lineEnd text = none
  | array items => ∀ v ∈ items, nested v
  | _ => True

def Valid : ℕ → Value → Prop
  | 0 => WellFormed (fun _ ↦ False)
  | depth + 1 => WellFormed (Valid depth)

theorem line_encode {text : List UInt8} (h : find? lineEnd text = none) (rest : List UInt8) :
    line (text ++ lineEnd ++ rest) = .ok (text, rest) := by
  have hfind : find? lineEnd (text ++ lineEnd ++ rest) = some text.length :=
    find?_append rest lineEnd_ne_nil (find?_of_none (by decide) h)
  have htake : (text ++ lineEnd ++ rest).take text.length = text := by
    rw [List.append_assoc, List.take_left]
  have hdrop : (text ++ lineEnd ++ rest).drop (text.length + 2) = rest :=
    List.drop_left' (by rw [List.length_append]; rfl)
  rw [line, hfind]
  simp only [htake, hdrop]

theorem number_encode (n : ℤ) (rest : List UInt8) :
    number (signed n ++ lineEnd ++ rest) = .ok (n, rest) := by
  have htext : find? lineEnd (signed n) = none :=
    find?_eq_none_of_not_mem (signed_no_return n)
  rw [number, andThen_of_ok (line_encode htext rest), readSigned_signed]

theorem body_encode (data rest : List UInt8) :
    body data.length (data ++ lineEnd ++ rest) = .ok (data, rest) := by
  have hdata : block data.length () (data ++ lineEnd ++ rest) = .ok (data, lineEnd ++ rest) := by
    rw [List.append_assoc]
    exact block_append data _
  have htail : block 2 () (lineEnd ++ rest) = .ok (lineEnd, rest) := block_append lineEnd rest
  rw [body, andThen_of_ok hdata, andThen_of_ok htail, if_pos rfl]

theorem reader_encode {nested : Decoder UInt8 Unit Value} {P : Value → Prop}
    (hnested : ∀ v rest, P v → nested (encode v ++ rest) = .ok (v, rest)) {v : Value}
    (h : WellFormed P v) (rest : List UInt8) : reader nested (encode v ++ rest) = .ok (v, rest) := by
  unfold reader
  cases v with
  | simple text =>
    rw [encode, List.cons_append, andThen_of_ok rfl, if_pos rfl, andThen_of_ok (line_encode h rest)]
  | error text =>
    rw [encode, List.cons_append, andThen_of_ok rfl, if_neg (by decide), if_pos rfl,
      andThen_of_ok (line_encode h rest)]
  | integer n =>
    rw [encode, List.cons_append, andThen_of_ok rfl, if_neg (by decide), if_neg (by decide),
      if_pos rfl, andThen_of_ok (number_encode n rest)]
  | bulk data =>
    have hneg : ¬(data.length : ℤ) = -1 := by omega
    have hnonneg : ¬(data.length : ℤ) < 0 := by omega
    rw [encode, List.cons_append, andThen_of_ok rfl, if_neg (by decide), if_neg (by decide),
      if_neg (by decide), if_pos rfl, List.append_assoc, andThen_of_ok (number_encode _ _),
      if_neg hneg, if_neg hnonneg, Int.toNat_natCast, andThen_of_ok (body_encode data rest)]
  | null =>
    rw [encode, List.cons_append, andThen_of_ok rfl, if_neg (by decide), if_neg (by decide),
      if_neg (by decide), if_pos rfl, andThen_of_ok (number_encode _ _), if_pos rfl]
  | array items =>
    have hnonneg : ¬(items.length : ℤ) < 0 := by omega
    have hitems := many_encode encode nested items rest (fun v hv rest ↦ hnested v rest (h v hv))
    rw [encode, List.cons_append, andThen_of_ok rfl, if_neg (by decide), if_neg (by decide),
      if_neg (by decide), if_neg (by decide), if_pos rfl, List.append_assoc,
      andThen_of_ok (number_encode _ _), if_neg hnonneg, Int.toNat_natCast, encodeItems_eq,
      andThen_of_ok hitems]

theorem read_encode (depth : ℕ) {v : Value} (h : Valid depth v) (rest : List UInt8) :
    read depth (encode v ++ rest) = .ok (v, rest) := by
  induction depth generalizing v rest with
  | zero => exact reader_encode (fun _ _ hv ↦ hv.elim) h rest
  | succ depth ih => exact reader_encode (fun v rest hv ↦ ih hv rest) h rest

theorem stable_line : Stable line := by
  intro s a rest more h
  rw [line] at h
  split at h
  · cases h
  · next i hi =>
    cases h
    have hle : i + 2 ≤ s.length := find?_le hi
    rw [line, find?_append more lineEnd_ne_nil hi]
    simp only [List.take_append_of_le_length (Nat.le_of_add_right_le hle),
      List.drop_append_of_le_length hle]

theorem local_line : Local line := by
  intro s a rest h
  rw [line] at h
  split at h
  · cases h
  · next i hi =>
    cases h
    have hfind : find? lineEnd (s.take (i + 2)) = some i := find?_take hi
    refine ⟨s.take (i + 2), (List.take_append_drop _ s).symm, ?_⟩
    rw [line, hfind]
    simp only [List.take_take, Nat.min_eq_left (Nat.le_add_right i 2), List.drop_take,
      Nat.sub_self, List.take_zero]

theorem stable_number : Stable number := by
  refine stable_line.andThen (fun text ↦ ?_)
  split
  · exact stable_error _
  · exact stable_ok _

theorem local_number : Local number := by
  refine local_line.andThen stable_line (fun text ↦ ?_)
  split
  · exact local_error _
  · exact local_ok _

theorem stable_body (n : ℕ) : Stable (body n) :=
  (stable_block n ()).andThen (fun data ↦ (stable_block 2 ()).andThen (fun _ ↦
    stable_ite (stable_ok data) (stable_error ())))

theorem local_body (n : ℕ) : Local (body n) :=
  (local_block n ()).andThen (stable_block n ()) (fun data ↦
    (local_block 2 ()).andThen (stable_block 2 ()) (fun _ ↦
      local_ite (local_ok data) (local_error ())))

variable {nested : Decoder UInt8 Unit Value}

theorem stable_reader (h : Stable nested) : Stable (reader nested) :=
  (stable_one ()).andThen (fun _ ↦
    stable_ite (stable_line.andThen (fun _ ↦ stable_ok _)) <|
    stable_ite (stable_line.andThen (fun _ ↦ stable_ok _)) <|
    stable_ite (stable_number.andThen (fun _ ↦ stable_ok _)) <|
    stable_ite (stable_number.andThen (fun n ↦ stable_ite (stable_ok _) <|
      stable_ite (stable_error _) ((stable_body n.toNat).andThen (fun _ ↦ stable_ok _)))) <|
    stable_ite (stable_number.andThen (fun n ↦ stable_ite (stable_error _)
      ((stable_many h n.toNat).andThen (fun _ ↦ stable_ok _)))) (stable_error _))

theorem local_reader (h : Local nested) (hs : Stable nested) : Local (reader nested) :=
  (local_one ()).andThen (stable_one ()) (fun _ ↦
    local_ite (local_line.andThen stable_line (fun _ ↦ local_ok _)) <|
    local_ite (local_line.andThen stable_line (fun _ ↦ local_ok _)) <|
    local_ite (local_number.andThen stable_number (fun _ ↦ local_ok _)) <|
    local_ite (local_number.andThen stable_number (fun n ↦ local_ite (local_ok _) <|
      local_ite (local_error _)
        ((local_body n.toNat).andThen (stable_body _) (fun _ ↦ local_ok _)))) <|
    local_ite (local_number.andThen stable_number (fun n ↦ local_ite (local_error _)
      ((local_many h hs n.toNat).andThen (stable_many hs _) (fun _ ↦ local_ok _))))
      (local_error _))

theorem stable_read (depth : ℕ) : Stable (read depth) := by
  induction depth with
  | zero => exact stable_reader (stable_error _)
  | succ depth ih => exact stable_reader ih

theorem local_read (depth : ℕ) : Local (read depth) := by
  induction depth with
  | zero => exact local_reader (local_error _) (stable_error _)
  | succ depth ih => exact local_reader ih (stable_read depth)

theorem read_nil (depth : ℕ) : read depth [] = .error () := by
  cases depth <;> rfl

theorem read_lt {depth : ℕ} {s rest : List UInt8} {v : Value} (h : read depth s = .ok (v, rest)) :
    rest.length < s.length := by
  obtain ⟨used, rfl, hused⟩ := local_read depth s v rest h
  cases used with
  | nil =>
    rw [read_nil] at hused
    cases hused
  | cons b used =>
    rw [List.length_append, List.length_cons]
    omega

def next (depth : ℕ) (s : List UInt8) : Option (Value × ℕ) :=
  match read depth s with
  | .error _ => none
  | .ok (v, rest) => some (v, s.length - rest.length)

theorem next_eq_some {depth : ℕ} {s : List UInt8} {v : Value} {n : ℕ} :
    next depth s = some (v, n) ↔
      ∃ rest, read depth s = .ok (v, rest) ∧ n = s.length - rest.length := by
  rw [next]
  split
  · next e he => simp [he]
  · next w rest hok =>
    rw [hok]
    constructor
    · intro h
      cases h
      exact ⟨rest, rfl, rfl⟩
    · rintro ⟨rest', h, rfl⟩
      cases h
      rfl

def framing (depth : ℕ) : Framing Value UInt8 where
  Valid := Valid depth
  encode := encode
  decode := next depth
  decode_encode v rest hv := by
    refine next_eq_some.mpr ⟨rest, read_encode depth hv rest, ?_⟩
    rw [List.length_append, Nat.add_sub_cancel]
  decode_append s more v n h := by
    obtain ⟨rest, hread, rfl⟩ := next_eq_some.mp h
    refine next_eq_some.mpr ⟨rest ++ more, stable_read depth s v rest more hread, ?_⟩
    rw [List.length_append, List.length_append, Nat.add_sub_add_right]
  decode_le s v n h := by
    obtain ⟨rest, -, rfl⟩ := next_eq_some.mp h
    exact Nat.sub_le _ _
  decode_nil := by rw [next, read_nil]

theorem next_pos {depth : ℕ} (s : List UInt8) (v : Value) (n : ℕ)
    (h : (framing depth).decode s = some (v, n)) : 0 < n := by
  obtain ⟨rest, hread, rfl⟩ := next_eq_some.mp h
  exact Nat.sub_pos_of_lt (read_lt hread)

end Value

end RedisLite.Lib
