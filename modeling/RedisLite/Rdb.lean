import RedisLite.Crc64
import RedisLite.Store

namespace RedisLite

open Lib.Numerals

/-- One reading of both clocks, in nanoseconds since their epochs. -/
structure Clock where
  steady : TimePoint
  system : Int64
  steady_nonneg : 0 ≤ steady
  system_nonneg : 0 ≤ system
  deriving DecidableEq

namespace Rdb

def opcodeAux : UInt8 := 0xFA
def opcodeSelectdb : UInt8 := 0xFE
def opcodeResizedb : UInt8 := 0xFB
def opcodeExpiretimeMs : UInt8 := 0xFC
def opcodeExpiretime : UInt8 := 0xFD
def opcodeEof : UInt8 := 0xFF
def typeString : UInt8 := 0x00

def sysNowMs (clk : Clock) : Int64 := clk.system / 1000000

def writeLength (len : ℕ) : Bytes :=
  if len < 64 then [UInt8.ofNat len]
  else if len < 16384 then [UInt8.ofNat (0x40 ||| (len >>> 8)), UInt8.ofNat (len &&& 0xFF)]
  else 0x80 :: leBytes 4 len

def writeString (s : Bytes) : Bytes := writeLength s.length ++ s

def writeLe64 (val : UInt64) : Bytes := leBytes 8 val.toNat

def writeLe32 (val : ℕ) : Bytes := leBytes 4 val

def lengthType (first : UInt8) : UInt8 := (first >>> 6) &&& 3

def readLength : Bytes → Except String (ℕ × Bytes)
  | [] => .error "RDB: unexpected end in length"
  | first :: p =>
    if lengthType first = 0 then .ok ((first &&& 0x3F).toNat, p)
    else if lengthType first = 1 then
      match p with
      | [] => .error "RDB: unexpected end in length"
      | second :: p => .ok (((first &&& 0x3F).toNat <<< 8) ||| second.toNat, p)
    else if lengthType first = 2 then
      if p.length < 4 then .error "RDB: unexpected end in length"
      else .ok (leValue (p.take 4), p.drop 4)
    else .ok (first.toNat, p)

def intString (n : ℕ) (what : String) (p : Bytes) : Except String (Bytes × Bytes) :=
  if p.length < n then .error ("RDB: unexpected end in " ++ what ++ " string")
  else .ok (toStr (Int.bmod (leValue (p.take n)) (256 ^ n)), p.drop n)

def readString : Bytes → Except String (Bytes × Bytes)
  | [] => .error "RDB: unexpected end in string"
  | first :: p =>
    if lengthType first = 3 then
      let enc := first &&& 0x3F
      if enc = 0 then intString 1 "int8" p
      else if enc = 1 then intString 2 "int16" p
      else if enc = 2 then intString 4 "int32" p
      else .error ("RDB: unsupported special encoding " ++ toString enc.toNat)
    else
      match readLength (first :: p) with
      | .error e => .error e
      | .ok (len, q) =>
        if q.length < len then .error "RDB: unexpected end in string data"
        else .ok (q.take len, q.drop len)

def readLe64 (p : Bytes) : Except String (UInt64 × Bytes) :=
  if p.length < 8 then .error "RDB: unexpected end in le64"
  else .ok (UInt64.ofNat (leValue (p.take 8)), p.drop 8)

def readLe32 (p : Bytes) : Except String (ℕ × Bytes) :=
  if p.length < 4 then .error "RDB: unexpected end in le32"
  else .ok (leValue (p.take 4), p.drop 4)

def preamble (clk : Clock) : Bytes :=
  ascii "REDIS0011"
    ++ opcodeAux :: (writeString (ascii "redis-ver") ++ writeString (ascii "7.2.0"))
    ++ opcodeAux :: (writeString (ascii "redis-bits") ++ [0xC0, 0x40])
    ++ opcodeAux :: (writeString (ascii "ctime")
      ++ 0xC2 :: writeLe32 (clk.system / 1000000000).toUInt64.toNat)
    ++ opcodeAux :: (writeString (ascii "used-mem") ++ 0xC2 :: writeLe32 0)
    ++ opcodeAux :: (writeString (ascii "aof-base") ++ [0xC0, 0x00])
    ++ opcodeSelectdb :: writeLength 0

def resizeHint (clk : Clock) (items : List Item) : Bytes :=
  let live := items.filter (fun item ↦ !item.2.isExpired clk.steady)
  opcodeResizedb :: (writeLength live.length
    ++ writeLength (live.filter (fun item ↦ item.2.expiry.isSome)).length)

def absMs (clk : Clock) (t : TimePoint) : Int64 := sysNowMs clk + (t - clk.steady) / 1000000

def writeExpiry (clk : Clock) : Option TimePoint → Bytes
  | none => []
  | some t => opcodeExpiretimeMs :: writeLe64 (absMs clk t).toUInt64

def writeEntry (clk : Clock) (item : Item) : Bytes :=
  if item.2.isExpired clk.steady then []
  else writeExpiry clk item.2.expiry
    ++ typeString :: (writeString item.1 ++ writeString item.2.value)

def payload (clk : Clock) (store : Store) : Bytes :=
  preamble clk ++ resizeHint clk store.data.entries
    ++ store.data.entries.flatMap (writeEntry clk) ++ [opcodeEof]

def serialize (clk : Clock) (store : Store) : Bytes :=
  payload clk store ++ writeLe64 (Crc64.crc64 (payload clk store))

/-- A key of the file. A pending expiry that has passed drops the key. -/
def insertKey (clk : Clock) (pending : Option Int64) (key val : Bytes) (store : Store) : Store :=
  match pending with
  | none => store.set clk.steady key val none
  | some abs =>
    let remaining := abs - sysNowMs clk
    if 0 < remaining then store.set clk.steady key val (some remaining) else store

/-- The opcode loop of `rdb::load`. Every round takes at least one byte, so the
length of the input is fuel enough. -/
def loadLoop (clk : Clock) : ℕ → Bytes → Option Int64 → Store → Except String Store
  | 0, _, _, store => .ok store
  | _ + 1, [], _, store => .ok store
  | fuel + 1, opcode :: p, pending, store =>
    if opcode = opcodeAux then
      match readString p with
      | .error e => .error e
      | .ok (_, p) =>
        match readString p with
        | .error e => .error e
        | .ok (_, p) => loadLoop clk fuel p pending store
    else if opcode = opcodeSelectdb then
      match readLength p with
      | .error e => .error e
      | .ok (_, p) => loadLoop clk fuel p pending store
    else if opcode = opcodeResizedb then
      match readLength p with
      | .error e => .error e
      | .ok (_, p) =>
        match readLength p with
        | .error e => .error e
        | .ok (_, p) => loadLoop clk fuel p pending store
    else if opcode = opcodeExpiretimeMs then
      match readLe64 p with
      | .error e => .error e
      | .ok (v, p) => loadLoop clk fuel p (some v.toInt64) store
    else if opcode = opcodeExpiretime then
      match readLe32 p with
      | .error e => .error e
      | .ok (v, p) => loadLoop clk fuel p (some (Int64.ofNat v * 1000)) store
    else if opcode = opcodeEof then .ok store
    else if opcode = typeString then
      match readString p with
      | .error e => .error e
      | .ok (key, p) =>
        match readString p with
        | .error e => .error e
        | .ok (val, p) => loadLoop clk fuel p none (insertKey clk pending key val store)
    else .error ("RDB: unsupported type " ++ toString opcode.toNat)

def load (clk : Clock) (data : Bytes) (store : Store) : Except String Store :=
  let store := store.clear
  if data.length < 9 then .error "RDB: too short"
  else if (data.take 9).take 5 ≠ ascii "REDIS" then .error "RDB: invalid magic"
  else loadLoop clk data.length (data.drop 9) none store

end Rdb

end RedisLite
