import RedisLite.Controller.Promoter

namespace RedisLite.Controller

open Lib.Transcript

variable {script : Script} {log log' : List Call} {addr : Addr}

def Confirms (script : Script) (log : List Call) (addr : Addr) : Prop :=
  replicaOf (replies script log addr [.noOne]) = true ∧
    ∃ k < promoteMaxRetries,
      role (replies script log addr (.noOne :: List.replicate (k + 1) .role)) =
        some (ascii "master")

theorem pollRole_congr (h : asked log addr = asked log' addr) (n : ℕ) :
    pollRole script addr n log = pollRole script addr n log' := by
  induction n generalizing log log' with
  | zero => rfl
  | succ n ih =>
    have hcall : call script log addr .role = call script log' addr .role := ask_congr h _
    have hnext : asked (log ++ [call script log' addr .role]) addr =
        asked (log' ++ [call script log' addr .role]) addr := by
      rw [asked_append, asked_append, h]
    rw [pollRole, pollRole, hcall, ih hnext]

theorem pollRole_fst (n : ℕ) :
    (pollRole script addr n log).1 = true ↔
      ∃ k < n, role (replies script log addr (List.replicate (k + 1) .role)) =
        some (ascii "master") := by
  induction n generalizing log with
  | zero => simp [pollRole]
  | succ n ih =>
    have hnext (k : ℕ) : replies script (log ++ [call script log addr .role]) addr
        (List.replicate (k + 1) .role) = replies script log addr (List.replicate (k + 2) .role) := by
      rw [replies_append (asked_eq_map (by simp [call]))]
      rfl
    by_cases hmaster : role (call script log addr .role).response = some (ascii "master")
    · rw [pollRole, if_pos hmaster]
      exact iff_of_true rfl ⟨0, Nat.succ_pos n, hmaster⟩
    · rw [pollRole, if_neg hmaster]
      simp only [ih, hnext]
      constructor
      · rintro ⟨k, hk, h⟩
        exact ⟨k + 1, Nat.succ_lt_succ hk, h⟩
      · rintro ⟨k, hk, h⟩
        cases k with
        | zero => exact absurd h hmaster
        | succ k => exact ⟨k, Nat.lt_of_succ_lt_succ hk, h⟩

theorem pollRole_calls (n : ℕ) :
    ∀ x ∈ (pollRole script addr n log).2, x.peer = addr ∧ x.request = .role := by
  induction n generalizing log with
  | zero => simp [pollRole]
  | succ n ih =>
    intro x hx
    rw [pollRole] at hx
    split at hx
    · rw [List.mem_singleton.mp hx]
      exact ⟨rfl, rfl⟩
    · rcases List.mem_cons.mp hx with rfl | hx
      · exact ⟨rfl, rfl⟩
      · exact ih x hx

theorem tryCandidate_congr (h : asked log addr = asked log' addr) :
    tryCandidate script log addr = tryCandidate script log' addr := by
  have hcall : call script log addr .noOne = call script log' addr .noOne := ask_congr h _
  have hnext : asked (log ++ [call script log' addr .noOne]) addr =
      asked (log' ++ [call script log' addr .noOne]) addr := by
    rw [asked_append, asked_append, h]
  rw [tryCandidate, tryCandidate, hcall, pollRole_congr hnext]

theorem tryCandidate_fst : (tryCandidate script log addr).1 = true ↔ Confirms script log addr := by
  have hnext (requests : List Request) :
      replies script (log ++ [call script log addr .noOne]) addr requests =
        replies script log addr (.noOne :: requests) :=
    replies_append (asked_eq_map (by simp [call]))
  by_cases hok : replicaOf (call script log addr .noOne).response = true
  · rw [tryCandidate, if_pos hok, Confirms, ← call_response, hok]
    simp only [pollRole_fst, hnext, true_and]
  · rw [tryCandidate, if_neg hok, Confirms, ← call_response]
    exact iff_of_false Bool.false_ne_true (fun h ↦ hok h.1)

theorem tryCandidate_calls (script : Script) (log : List Call) (addr : Addr) :
    ∃ polls, (tryCandidate script log addr).2 = call script log addr .noOne :: polls ∧
      ∀ x ∈ polls, x.peer = addr ∧ x.request = .role := by
  simp only [tryCandidate]
  split
  · exact ⟨_, rfl, pollRole_calls _⟩
  · exact ⟨[], rfl, by simp⟩

theorem tryCandidate_peer : ∀ x ∈ (tryCandidate script log addr).2, x.peer = addr := by
  obtain ⟨polls, hcalls, hpolls⟩ := tryCandidate_calls script log addr
  intro x hx
  rw [hcalls] at hx
  rcases List.mem_cons.mp hx with rfl | hx
  · rfl
  · exact (hpolls x hx).1

theorem tryCandidate_request :
    ∀ x ∈ (tryCandidate script log addr).2, x.request = .noOne ∨ x.request = .role := by
  obtain ⟨polls, hcalls, hpolls⟩ := tryCandidate_calls script log addr
  intro x hx
  rw [hcalls] at hx
  rcases List.mem_cons.mp hx with rfl | hx
  · exact .inl rfl
  · exact .inr (hpolls x hx).2

def attempts (script : Script) (log : List Call) (tried : List Addr) : List Call :=
  tried.flatMap (fun addr ↦ (tryCandidate script log addr).2)

theorem tryCandidate_after {a b : Addr} (hne : b ≠ a) :
    tryCandidate script (log ++ (tryCandidate script log a).2) b = tryCandidate script log b := by
  refine tryCandidate_congr (asked_append_other (fun x hx hpeer ↦ hne ?_))
  rw [← tryCandidate_peer x hx, hpeer]

/-- Either no candidate confirms and all are tried, or the first one that does is taken, and
those behind it are not tried. -/
theorem promoteFirst_spec {ranked : List Addr} (hnodup : ranked.Nodup) (log : List Call) :
    ((∀ a ∈ ranked, ¬Confirms script log a) ∧
      promoteFirst script ranked log = (none, attempts script log ranked)) ∨
    ∃ before n after, ranked = before ++ n :: after ∧ (∀ a ∈ before, ¬Confirms script log a) ∧
      Confirms script log n ∧
      promoteFirst script ranked log = (some n, attempts script log (before ++ [n])) := by
  induction ranked generalizing log with
  | nil => exact .inl ⟨by simp, rfl⟩
  | cons a rest ih =>
    obtain ⟨ha, hrest⟩ := List.nodup_cons.mp hnodup
    by_cases hok : (tryCandidate script log a).1 = true
    · refine .inr ⟨[], a, rest, rfl, by simp, tryCandidate_fst.mp hok, ?_⟩
      rw [promoteFirst, if_pos hok, attempts, List.nil_append, List.flatMap_singleton]
    · have hfail : ¬Confirms script log a := fun h ↦ hok (tryCandidate_fst.mpr h)
      have hsame {b : Addr} (hb : b ∈ rest) :
          tryCandidate script (log ++ (tryCandidate script log a).2) b =
            tryCandidate script log b := tryCandidate_after (fun h ↦ ha (h ▸ hb))
      have hconfirms {b : Addr} (hb : b ∈ rest) :
          Confirms script (log ++ (tryCandidate script log a).2) b ↔ Confirms script log b := by
        rw [← tryCandidate_fst, hsame hb, tryCandidate_fst]
      have hattempts {tried : List Addr} (htried : ∀ b ∈ tried, b ∈ rest) :
          attempts script (log ++ (tryCandidate script log a).2) tried =
            attempts script log tried :=
        List.flatMap_congr (fun b hb ↦ by rw [hsame (htried b hb)])
      rw [promoteFirst, if_neg hok]
      rcases ih hrest (log ++ (tryCandidate script log a).2) with
        ⟨hnone, hloop⟩ | ⟨before, n, after, rfl, hbefore, hn, hloop⟩
      · refine .inl ⟨fun b hb ↦ ?_, ?_⟩
        · rcases List.mem_cons.mp hb with rfl | hb
          · exact hfail
          · exact fun h ↦ hnone b hb ((hconfirms hb).mpr h)
        · rw [hloop, hattempts (fun b hb ↦ hb)]
          rfl
      · have hbefore' : ∀ b ∈ before ++ [n], b ∈ before ++ n :: after := fun b hb ↦ by
          rcases List.mem_append.mp hb with hb | hb
          · exact List.mem_append_left _ hb
          · rw [List.mem_singleton.mp hb]
            exact List.mem_append_right _ List.mem_cons_self
        refine .inr ⟨a :: before, n, after, rfl, fun b hb ↦ ?_, ?_, ?_⟩
        · rcases List.mem_cons.mp hb with rfl | hb
          · exact hfail
          · exact fun h ↦ hbefore b hb ((hconfirms (List.mem_append_left _ hb)).mpr h)
        · exact (hconfirms (List.mem_append_right _ List.mem_cons_self)).mp hn
        · rw [hloop, hattempts hbefore']
          rfl

theorem promote_spec {ranked : List Addr} (hnodup : ranked.Nodup) (log : List Call) :
    ((∀ a ∈ ranked, ¬Confirms script log a) ∧
      ∃ e, promote script ranked log = (.error e, attempts script log ranked)) ∨
    ∃ before n after, ranked = before ++ n :: after ∧ (∀ a ∈ before, ¬Confirms script log a) ∧
      Confirms script log n ∧
      promote script ranked log = (.ok n, attempts script log (before ++ [n])) := by
  cases hnil : ranked.isEmpty with
  | true =>
    rw [List.isEmpty_iff] at hnil
    subst hnil
    exact .inl ⟨by simp, _, rfl⟩
  | false =>
    simp only [promote, hnil, Bool.false_eq_true, if_false]
    rcases promoteFirst_spec hnodup log with
      ⟨hnone, hloop⟩ | ⟨before, n, after, hranked, hbefore, hn, hloop⟩
    · rw [hloop]
      exact .inl ⟨hnone, _, rfl⟩
    · rw [hloop]
      exact .inr ⟨before, n, after, hranked, hbefore, hn, rfl⟩

end RedisLite.Controller
