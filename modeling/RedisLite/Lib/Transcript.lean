import Mathlib.Data.List.Nodup

namespace RedisLite.Lib.Transcript

structure Exchange (κ α β : Type) where
  peer : κ
  request : α
  response : β
  deriving DecidableEq

variable {κ α β : Type} [DecidableEq κ] (peers : κ → List α → β)

def asked (log : List (Exchange κ α β)) (k : κ) : List α :=
  (log.filter (·.peer = k)).map (·.request)

/-- The next exchange with `k`: a peer answers from all the requests it has got. -/
def ask (log : List (Exchange κ α β)) (k : κ) (request : α) : Exchange κ α β :=
  ⟨k, request, peers k (asked log k ++ [request])⟩

variable {peers} {log log' more : List (Exchange κ α β)} {k : κ}

@[simp] theorem ask_peer (request : α) : (ask peers log k request).peer = k := rfl

theorem ask_congr (h : asked log k = asked log' k) (request : α) :
    ask peers log k request = ask peers log' k request := by
  rw [ask, ask, h]

theorem asked_append : asked (log ++ more) k = asked log k ++ asked more k := by
  rw [asked, List.filter_append, List.map_append, asked, asked]

theorem asked_eq_nil (h : ∀ x ∈ log, x.peer ≠ k) : asked log k = [] := by
  have hnone : log.filter (·.peer = k) = [] :=
    List.filter_eq_nil_iff.mpr (fun x hx ↦ by simpa using h x hx)
  rw [asked, hnone, List.map_nil]

theorem asked_eq_map (h : ∀ x ∈ log, x.peer = k) : asked log k = log.map (·.request) := by
  have hall : log.filter (·.peer = k) = log :=
    List.filter_eq_self.mpr (fun x hx ↦ by simpa using h x hx)
  rw [asked, hall]

theorem asked_append_other (h : ∀ x ∈ more, x.peer ≠ k) : asked (log ++ more) k = asked log k := by
  rw [asked_append, asked_eq_nil h, List.append_nil]

variable (peers)

def survey (request : α) : List κ → List (Exchange κ α β) → List (Exchange κ α β)
  | [], _ => []
  | k :: ks, log =>
    let x := ask peers log k request
    x :: survey request ks (log ++ [x])

theorem survey_congr (h : ∀ k, asked log k = asked log' k) (request : α) (ks : List κ) :
    survey peers request ks log = survey peers request ks log' := by
  induction ks generalizing log log' with
  | nil => rfl
  | cons k ks ih =>
    have hask : ask peers log k request = ask peers log' k request := ask_congr (h k) request
    rw [survey, survey, hask]
    refine congrArg _ (ih (fun j ↦ ?_))
    rw [asked_append, asked_append, h j]

theorem survey_eq {ks : List κ} (hks : ks.Nodup) (request : α) (log : List (Exchange κ α β)) :
    survey peers request ks log = ks.map (ask peers log · request) := by
  induction ks generalizing log with
  | nil => rfl
  | cons k ks ih =>
    obtain ⟨hk, hks⟩ := List.nodup_cons.mp hks
    rw [survey, ih hks, List.map_cons]
    refine congrArg _ (List.map_congr_left (fun j hj ↦ ask_congr (asked_append_other ?_) request))
    intro x hx hpeer
    rw [List.mem_singleton.mp hx, ask_peer] at hpeer
    exact hk (hpeer ▸ hj)

/-- When every peer of a round is talked to once, it is asked what its own talk asks. -/
theorem asked_flatMap {ks : List κ} (hks : ks.Nodup) {k : κ} (hk : k ∈ ks)
    {talk : κ → List (Exchange κ α β)} (hown : ∀ j, ∀ x ∈ talk j, x.peer = j) :
    asked (ks.flatMap talk) k = (talk k).map (·.request) := by
  obtain ⟨before, after, rfl⟩ := List.append_of_mem hk
  have hne : ∀ j ∈ before ++ after, j ≠ k := by
    rintro j hj rfl
    exact (List.nodup_cons.mp (List.nodup_middle.mp hks)).1 hj
  have hother {js : List κ} (hjs : ∀ j ∈ js, j ≠ k) : asked (js.flatMap talk) k = [] := by
    refine asked_eq_nil (fun x hx ↦ ?_)
    obtain ⟨j, hj, hx⟩ := List.mem_flatMap.mp hx
    rw [hown j x hx]
    exact hjs j hj
  rw [List.flatMap_append, asked_append, List.flatMap_cons, asked_append,
    hother (fun j hj ↦ hne j (List.mem_append_left _ hj)),
    hother (fun j hj ↦ hne j (List.mem_append_right _ hj)), asked_eq_map (hown k),
    List.nil_append, List.append_nil]

theorem asked_map_ask {ks : List κ} (hks : ks.Nodup) {k : κ} (hk : k ∈ ks) (request : α)
    (log : List (Exchange κ α β)) :
    asked (ks.map (ask peers log · request)) k = [request] := by
  have hown (j : κ) : ∀ x ∈ [ask peers log j request], x.peer = j := by simp
  rw [List.map_eq_flatMap]
  exact asked_flatMap hks hk hown

end RedisLite.Lib.Transcript
