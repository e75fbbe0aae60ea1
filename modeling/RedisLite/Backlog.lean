import RedisLite.Lib.Ring
import RedisLite.Lib.Run
import RedisLite.Text

namespace RedisLite

open Lib Lib.Run

/-- `ReplicationBacklog`. A capacity of zero, on which the code would never leave its
copy loops, cannot be built. -/
structure ReplicationBacklog where
  capacity : ℕ
  buffer : Bytes
  writePos : ℕ := 0
  startOffset : ℤ := 0
  endOffset : ℤ := 0
  hasData : Bool := false
  buffer_length : buffer.length = capacity
  writePos_lt : writePos < capacity

namespace ReplicationBacklog

def new (capacity : ℕ) (h : 0 < capacity) : ReplicationBacklog where
  capacity := capacity
  buffer := List.replicate capacity 0
  buffer_length := List.length_replicate
  writePos_lt := h

def feed (data : Bytes) (globalOffset : ℤ) (b : ReplicationBacklog) : ReplicationBacklog :=
  if data.isEmpty then b
  else
    let start := if b.hasData then b.startOffset else globalOffset
    let stop := globalOffset + data.length
    { capacity := b.capacity
      buffer := (Ring.put b.capacity data.length b.buffer b.writePos data).1
      writePos := (Ring.put b.capacity data.length b.buffer b.writePos data).2
      startOffset := if stop - start > b.capacity then stop - b.capacity else start
      endOffset := stop
      hasData := true
      buffer_length := Ring.put_length _ _ _ _ _ b.buffer_length b.writePos_lt
      writePos_lt := Ring.put_pos_lt _ _ _ _ _ b.writePos_lt }

def contains (offset : ℤ) (b : ReplicationBacklog) : Bool :=
  b.hasData && decide (b.startOffset ≤ offset) && decide (offset ≤ b.endOffset)

def read (fromOffset : ℤ) (b : ReplicationBacklog) : Bytes :=
  if fromOffset ≥ b.endOffset then []
  else
    let bytesToRead := (b.endOffset - fromOffset).toNat
    let skip := (fromOffset - b.startOffset).toNat
    let dataLen := (b.endOffset - b.startOffset).toNat
    let dataStart := (b.writePos + b.capacity - dataLen % b.capacity) % b.capacity
    let readStart := (dataStart + skip) % b.capacity
    Ring.get b.capacity bytesToRead b.buffer readStart bytesToRead

def setStart (offset : ℤ) (b : ReplicationBacklog) : ReplicationBacklog :=
  { b with
    startOffset := offset
    endOffset := offset
    writePos := 0
    hasData := true
    writePos_lt := Nat.zero_lt_of_lt b.writePos_lt }

def isEmpty (b : ReplicationBacklog) : Bool := !b.hasData

/-- The unbounded log: everything fed since the offset counter was set to `base`. -/
structure Log where
  base : ℤ
  bytes : Bytes

def Log.stop (log : Log) : ℤ := log.base + log.bytes.length

inductive Op
  | feed (data : Bytes) (globalOffset : ℤ)
  | setStart (offset : ℤ)

def step (b : ReplicationBacklog) : Op → ReplicationBacklog
  | .feed data globalOffset => b.feed data globalOffset
  | .setStart offset => b.setStart offset

def Log.step : Option Log → Op → Option Log
  | none, .feed data globalOffset => if data.isEmpty then none else some ⟨globalOffset, data⟩
  | some log, .feed data _ => some ⟨log.base, log.bytes ++ data⟩
  | _, .setStart offset => some ⟨offset, []⟩

def Continues (b : ReplicationBacklog) : Op → Prop
  | .feed _ globalOffset => b.hasData = true → globalOffset = b.endOffset
  | .setStart _ => True

def Refines (b : ReplicationBacklog) : Option Log → Prop
  | none => b.hasData = false ∧ b.writePos = 0
  | some log => b.hasData = true ∧ Ring.Holds b.capacity b.buffer b.writePos log.bytes ∧
      b.endOffset = log.stop ∧ b.startOffset = max log.base (log.stop - b.capacity)

@[simp] theorem feed_capacity (data : Bytes) (o : ℤ) (b : ReplicationBacklog) :
    (b.feed data o).capacity = b.capacity := by
  unfold feed
  split <;> rfl

theorem Refines.capacity_pos (b : ReplicationBacklog) : 0 < b.capacity :=
  Nat.zero_lt_of_lt b.writePos_lt

theorem refines_new (c : ℕ) (hc : 0 < c) : Refines (new c hc) none := ⟨rfl, rfl⟩

theorem refines_setStart (b : ReplicationBacklog) (offset : ℤ) :
    Refines (b.setStart offset) (some ⟨offset, []⟩) := by
  refine ⟨rfl, Ring.holds_nil b.buffer_length, ?_, ?_⟩
  · simp [setStart, Log.stop]
  · simp only [setStart, Log.stop, List.length_nil]
    omega

theorem refines_feed {b : ReplicationBacklog} {log : Option Log} (h : Refines b log)
    (data : Bytes) (o : ℤ) (hc : b.hasData = true → o = b.endOffset) :
    Refines (b.feed data o) (Log.step log (.feed data o)) := by
  by_cases hd : data.isEmpty = true
  · have hnil : data = [] := List.isEmpty_iff.mp hd
    cases log with
    | none => simpa [Log.step, feed, hd] using h
    | some log => simpa [Log.step, feed, hnil] using h
  · have hpos : 0 < b.capacity := Refines.capacity_pos b
    cases log with
    | none =>
      obtain ⟨hdata, hwrite⟩ := h
      have hold : Ring.Holds b.capacity b.buffer b.writePos [] := by
        rw [hwrite]
        exact Ring.holds_nil b.buffer_length
      simp only [Log.step, hd, feed, hdata, if_false, Bool.false_eq_true]
      refine ⟨rfl, hold.put hpos data.length le_rfl, rfl, ?_⟩
      simp only [Log.stop]
      split <;> omega
    | some log =>
      obtain ⟨hdata, hold, hend, hstart⟩ := h
      have ho := hc hdata
      simp only [Log.step, hd, feed, hdata, if_false, if_true, Bool.false_eq_true]
      refine ⟨rfl, hold.put hpos data.length le_rfl, ?_, ?_⟩
      · simp only [Log.stop, List.length_append, Nat.cast_add] at hend ⊢
        omega
      · simp only [Log.stop, List.length_append, Nat.cast_add] at hend hstart ⊢
        split <;> omega

theorem Refines.read_eq {b : ReplicationBacklog} {log : Log} (h : Refines b (some log)) {o : ℤ}
    (hc : b.contains o = true) : b.read o = log.bytes.drop (o - log.base).toNat := by
  obtain ⟨hdata, hold, hend, hstart⟩ := h
  have hpos : 0 < b.capacity := Refines.capacity_pos b
  simp only [contains, hdata, Bool.true_and, Bool.and_eq_true, decide_eq_true_eq] at hc
  simp only [Log.stop] at hend hstart
  unfold read
  split
  · rw [List.drop_of_length_le (by omega)]
  · next hlt =>
    obtain ⟨i, hi⟩ : ∃ i : ℕ, o = log.base + i := ⟨(o - log.base).toNat, by omega⟩
    have hil : i ≤ log.bytes.length := by omega
    have hic : log.bytes.length ≤ i + b.capacity := by omega
    obtain ⟨d, hd⟩ : ∃ d : ℕ, b.startOffset = log.base + d := ⟨(b.startOffset - log.base).toNat, by omega⟩
    have hbytes : (b.endOffset - o).toNat = log.bytes.length - i := by omega
    have hskip : (o - b.startOffset).toNat = i - d := by omega
    have hlen : (b.endOffset - b.startOffset).toNat = log.bytes.length - d := by omega
    have hcell : ((b.writePos + b.capacity - (log.bytes.length - d) % b.capacity) % b.capacity +
        (i - d)) % b.capacity = i % b.capacity := by
      rw [hold.pos_eq]
      by_cases hfull : log.bytes.length ≤ b.capacity
      · have hd0 : d = 0 := by omega
        subst hd0
        have hm := Nat.mod_lt log.bytes.length hpos
        rw [Nat.sub_zero, Nat.add_sub_cancel_left, Nat.mod_self, Nat.zero_add, Nat.sub_zero]
      · have hd' : log.bytes.length - d = b.capacity := by omega
        have hsum : log.bytes.length = d + b.capacity := by omega
        rw [hd', Nat.mod_self, Nat.sub_zero, Nat.add_mod_right, Nat.mod_mod, hsum,
          Nat.add_mod_right, Nat.mod_add_mod]
        congr 1
        omega
    simp only [hbytes, hskip, hlen, hcell]
    rw [hold.get hpos _ hil hic le_rfl]
    congr 1
    omega

theorem refines_step {b : ReplicationBacklog} {log : Option Log} (h : Refines b log) {op : Op}
    (hc : Continues b op) : Refines (step b op) (Log.step log op) := by
  cases op with
  | feed data o => exact refines_feed h data o hc
  | setStart o =>
    have hs : Log.step log (.setStart o) = some ⟨o, []⟩ := by cases log <;> rfl
    rw [hs]
    exact refines_setStart b o

theorem step_capacity (b : ReplicationBacklog) (op : Op) : (step b op).capacity = b.capacity := by
  cases op with
  | feed data o => exact feed_capacity data o b
  | setStart o => rfl

theorem refines_run {b : ReplicationBacklog} {log : Option Log} (h : Refines b log) {ops : List Op}
    (hc : Along step Continues b ops) : Refines (run step b ops) (run Log.step log ops) := by
  induction ops generalizing b log with
  | nil => exact h
  | cons op ops ih => exact ih (refines_step h hc.1) hc.2

theorem run_capacity (b : ReplicationBacklog) (ops : List Op) :
    (run step b ops).capacity = b.capacity := by
  induction ops generalizing b with
  | nil => rfl
  | cons op ops ih => rw [run_cons, ih, step_capacity]

/-- The circular buffer is the tail of an unbounded log, for every capacity and
every sequence of feeds and restarts. -/
theorem backlog_refines_log (c : ℕ) (hc : 0 < c) (ops : List Op)
    (hv : Along step Continues (new c hc) ops) (g : ℤ) (L : Bytes)
    (hlog : run Log.step none ops = some ⟨g, L⟩) :
    (run step (new c hc) ops).endOffset = g + L.length ∧
    (run step (new c hc) ops).startOffset = max g (g + L.length - c) ∧
    (∀ o, (run step (new c hc) ops).contains o = true ↔
      (run step (new c hc) ops).startOffset ≤ o ∧ o ≤ (run step (new c hc) ops).endOffset) ∧
    (∀ o, (run step (new c hc) ops).contains o = true →
      (run step (new c hc) ops).read o = L.drop (o - g).toNat) := by
  have h := refines_run (refines_new c hc) hv
  have hcap : (run step (new c hc) ops).capacity = c := run_capacity _ ops
  rw [hlog] at h
  refine ⟨h.2.2.1, ?_, fun o ↦ ?_, fun o ho ↦ h.read_eq ho⟩
  · rw [h.2.2.2, hcap]
    rfl
  · simp [contains, h.1]

/-- Nine bytes through a buffer of four, in three feeds that wrap twice. -/
theorem backlog_refines_log_wraps :
    (run step (new 4 (by decide)) [.feed [1, 2, 3] 10, .feed [4, 5, 6, 7, 8] 13,
      .feed [9] 18]).endOffset = 10 + ([1, 2, 3, 4, 5, 6, 7, 8, 9] : Bytes).length ∧
    (run step (new 4 (by decide)) [.feed [1, 2, 3] 10, .feed [4, 5, 6, 7, 8] 13,
      .feed [9] 18]).read 16 = [7, 8, 9] := by
  have h := backlog_refines_log 4 (by decide) [.feed [1, 2, 3] 10, .feed [4, 5, 6, 7, 8] 13,
    .feed [9] 18] ⟨fun h ↦ absurd h (by decide), fun _ ↦ rfl, fun _ ↦ rfl, trivial⟩
    10 [1, 2, 3, 4, 5, 6, 7, 8, 9] rfl
  exact ⟨h.1, h.2.2.2 16 (by decide)⟩

end ReplicationBacklog

end RedisLite
