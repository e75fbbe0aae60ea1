import Mathlib.Data.List.Basic

namespace RedisLite.Lib.Ring

variable {α : Type}

def overwrite (buf : List α) (pos : ℕ) (block : List α) : List α :=
  buf.take pos ++ block ++ buf.drop (pos + block.length)

/-- Write `src` from position `pos` on, one contiguous block at a time, wrapping
at the capacity. -/
def put (cap : ℕ) : ℕ → List α → ℕ → List α → List α × ℕ
  | 0, buf, pos, _ => (buf, pos)
  | fuel + 1, buf, pos, src =>
    if src.length = 0 then (buf, pos)
    else
      let chunk := min src.length (cap - pos)
      put cap fuel (overwrite buf pos (src.take chunk)) ((pos + chunk) % cap) (src.drop chunk)

def get (cap : ℕ) : ℕ → List α → ℕ → ℕ → List α
  | 0, _, _, _ => []
  | fuel + 1, buf, pos, left =>
    if left = 0 then []
    else
      let chunk := min left (cap - pos)
      (buf.drop pos).take chunk ++ get cap fuel buf ((pos + chunk) % cap) (left - chunk)

/-- The buffer is the last `cap` symbols of an unbounded log, the symbol with
index `i` standing in cell `i % cap`; `pos` is the cell of the next symbol. -/
structure Holds (cap : ℕ) (buf : List α) (pos : ℕ) (log : List α) : Prop where
  length_eq : buf.length = cap
  pos_eq : pos = log.length % cap
  cell : ∀ i, i < log.length → log.length ≤ i + cap → buf[i % cap]? = log[i]?

theorem holds_nil {cap : ℕ} {buf : List α} (h : buf.length = cap) : Holds cap buf 0 [] where
  length_eq := h
  pos_eq := by simp
  cell i hi := by simp at hi

theorem overwrite_length {buf block : List α} {pos : ℕ} (h : pos + block.length ≤ buf.length) :
    (overwrite buf pos block).length = buf.length := by
  simp only [overwrite, List.length_append, List.length_take, List.length_drop]
  omega

theorem put_length (cap : ℕ) (fuel : ℕ) (buf : List α) (pos : ℕ) (src : List α)
    (hb : buf.length = cap) (hp : pos < cap) : (put cap fuel buf pos src).1.length = cap := by
  induction fuel generalizing buf pos src with
  | zero => exact hb
  | succ fuel ih =>
    unfold put
    split
    · exact hb
    · refine ih _ _ _ ?_ (Nat.mod_lt _ (by omega))
      rw [overwrite_length (by rw [List.length_take]; omega), hb]

theorem put_pos_lt (cap : ℕ) (fuel : ℕ) (buf : List α) (pos : ℕ) (src : List α)
    (hp : pos < cap) : (put cap fuel buf pos src).2 < cap := by
  induction fuel generalizing buf pos src with
  | zero => exact hp
  | succ fuel ih =>
    unfold put
    split
    · exact hp
    · exact ih _ _ _ (Nat.mod_lt _ (by omega))

theorem overwrite_before {buf block : List α} {pos j : ℕ} (h : pos ≤ buf.length) (hj : j < pos) :
    (overwrite buf pos block)[j]? = buf[j]? := by
  have hlen : (buf.take pos).length = pos := by rw [List.length_take]; omega
  rw [overwrite, List.append_assoc, List.getElem?_append_left (by omega), List.getElem?_take_of_lt hj]

theorem overwrite_inside {buf block : List α} {pos j : ℕ} (h : pos ≤ buf.length) (hj : pos ≤ j)
    (hb : j < pos + block.length) : (overwrite buf pos block)[j]? = block[j - pos]? := by
  have hlen : (buf.take pos).length = pos := by rw [List.length_take]; omega
  rw [overwrite, List.append_assoc, List.getElem?_append_right (by omega), hlen,
    List.getElem?_append_left (by omega)]

theorem overwrite_after {buf block : List α} {pos j : ℕ} (h : pos ≤ buf.length)
    (hb : pos + block.length ≤ j) : (overwrite buf pos block)[j]? = buf[j]? := by
  have hlen : (buf.take pos).length = pos := by rw [List.length_take]; omega
  rw [overwrite, List.getElem?_append_right (by rw [List.length_append]; omega),
    List.length_append, hlen, List.getElem?_drop]
  congr 1
  omega

theorem mod_of_new {cap n i k : ℕ} (hk : k ≤ cap - n % cap) (hn : n ≤ i) (hi : i < n + k) :
    i % cap = n % cap + (i - n) := by
  have hdiv := Nat.div_add_mod n cap
  have hi' : i = cap * (n / cap) + (n % cap + (i - n)) := by omega
  rw [hi', Nat.mul_add_mod, Nat.mod_eq_of_lt (by omega), ← hi']

theorem mod_of_old {cap n i k : ℕ} (hi : i < n) (hc : n + k ≤ i + cap) :
    i % cap < n % cap ∨ n % cap + k ≤ i % cap := by
  have hdiv := Nat.div_add_mod n cap
  by_cases hq : cap * (n / cap) ≤ i
  · left
    have hi' : i = cap * (n / cap) + (i - cap * (n / cap)) := by omega
    have hlt := Nat.mod_lt n (show 0 < cap by omega)
    rw [hi', Nat.mul_add_mod, Nat.mod_eq_of_lt (by omega)]
    omega
  · right
    obtain ⟨q, hq'⟩ : ∃ q, n / cap = q + 1 := by
      cases hd : n / cap with
      | zero => rw [hd] at hq; simp at hq
      | succ q => exact ⟨q, rfl⟩
    rw [hq', Nat.mul_succ] at hdiv hq
    have hm : i % cap = i - cap * q := by
      have hi' : i = cap * q + (i - cap * q) := by omega
      rw [hi', Nat.mul_add_mod, Nat.mod_eq_of_lt (by omega), ← hi']
    omega

theorem Holds.overwrite {cap : ℕ} {buf log block : List α} {pos : ℕ} (hc : 0 < cap)
    (h : Holds cap buf pos log) (hb : block.length ≤ cap - pos) :
    Holds cap (overwrite buf pos block) ((pos + block.length) % cap) (log ++ block) := by
  have hlt : pos < cap := by rw [h.pos_eq]; exact Nat.mod_lt _ hc
  have hfit : pos + block.length ≤ buf.length := by rw [h.length_eq]; omega
  have hp := h.pos_eq
  refine ⟨(overwrite_length hfit).trans h.length_eq, ?_, ?_⟩
  · rw [hp, List.length_append, Nat.mod_add_mod]
  · intro i hi hold
    rw [List.length_append] at hi hold
    by_cases hnew : log.length ≤ i
    · have hm := mod_of_new (hp ▸ hb) hnew hi
      rw [← hp] at hm
      rw [overwrite_inside (by omega) (by omega) (by omega), hm,
        List.getElem?_append_right hnew, Nat.add_sub_cancel_left]
    · have hcell := h.cell i (by omega) (by omega)
      rw [List.getElem?_append_left (by omega), ← hcell]
      rcases mod_of_old (by omega : i < log.length) hold with hm | hm
      · exact overwrite_before (by omega) (by omega)
      · exact overwrite_after (by omega) (by omega)

theorem Holds.put {cap : ℕ} (hc : 0 < cap) (fuel : ℕ) {buf log src : List α} {pos : ℕ}
    (h : Holds cap buf pos log) (hf : src.length ≤ fuel) :
    Holds cap (put cap fuel buf pos src).1 (put cap fuel buf pos src).2 (log ++ src) := by
  induction fuel generalizing buf log src pos with
  | zero =>
    have hs : src = [] := List.length_eq_zero_iff.mp (by omega)
    simpa only [Ring.put, hs, List.append_nil] using h
  | succ fuel ih =>
    unfold Ring.put
    split
    · next hs =>
      rw [List.length_eq_zero_iff.mp hs, List.append_nil]
      exact h
    · next hs =>
      have hlt : pos < cap := by rw [h.pos_eq]; exact Nat.mod_lt _ hc
      have hlen : (src.take (min src.length (cap - pos))).length = min src.length (cap - pos) := by
        rw [List.length_take]; omega
      have hfit : (src.take (min src.length (cap - pos))).length ≤ cap - pos := by
        rw [hlen]; omega
      have hleft : (src.drop (min src.length (cap - pos))).length ≤ fuel := by
        rw [List.length_drop]; omega
      have hblock := h.overwrite hc hfit
      rw [hlen] at hblock
      have hrest := ih hblock hleft
      rwa [List.append_assoc, List.take_append_drop] at hrest

/-- A block of the log that is still held and does not cross the end of the
buffer is a block of cells. -/
theorem Holds.block {cap : ℕ} {buf log : List α} {pos i k : ℕ}
    (h : Holds cap buf pos log) (hold : log.length ≤ i + cap) (hi : i + k ≤ log.length)
    (hk : k ≤ cap - i % cap) : (buf.drop (i % cap)).take k = (log.drop i).take k := by
  apply List.ext_getElem?
  intro j
  by_cases hj : j < k
  · have hm := mod_of_new (n := i) (i := i + j) hk (by omega) (by omega)
    rw [List.getElem?_take_of_lt hj, List.getElem?_take_of_lt hj, List.getElem?_drop,
      List.getElem?_drop, ← h.cell (i + j) (by omega) (by omega), hm, Nat.add_sub_cancel_left]
  · rw [List.getElem?_eq_none (by rw [List.length_take]; omega),
      List.getElem?_eq_none (by rw [List.length_take]; omega)]

theorem Holds.get {cap : ℕ} (hc : 0 < cap) (fuel : ℕ) {buf log : List α} {pos i : ℕ}
    (h : Holds cap buf pos log) (hi : i ≤ log.length) (hold : log.length ≤ i + cap)
    (hf : log.length - i ≤ fuel) :
    Ring.get cap fuel buf (i % cap) (log.length - i) = log.drop i := by
  induction fuel generalizing i with
  | zero => rw [Ring.get, List.drop_of_length_le (by omega)]
  | succ fuel ih =>
    unfold Ring.get
    split
    · rw [List.drop_of_length_le (by omega)]
    · next hne =>
      have hlt := Nat.mod_lt i hc
      have hblock := h.block hold (k := min (log.length - i) (cap - i % cap)) (by omega) (by omega)
      have hrest := ih (i := i + min (log.length - i) (cap - i % cap)) (by omega) (by omega)
        (by omega)
      simp only [hblock, Nat.mod_add_mod]
      rw [show log.length - i - min (log.length - i) (cap - i % cap) =
        log.length - (i + min (log.length - i) (cap - i % cap)) by omega, hrest,
        ← List.drop_drop, List.take_append_drop]

end RedisLite.Lib.Ring
