import RedisLite.Controller.Health

namespace RedisLite.Controller

open Lib.Run

variable {cfg : Config} {w : World cfg} {m m' : Monitor} {addr : Addr}

theorem redirect_master : (redirect w m addr).master = m.master := by
  have h := redirect_outcome w m addr
  generalize redirect w m addr = m' at h ⊢
  cases h with
  | accepted => rfl
  | refused => rfl

theorem retryStale_master : (retryStale w m addr).master = m.master := by
  rw [retryStale]
  split
  · exact redirect_master
  · rfl

theorem recovered_master (hknown : m.master ≠ []) (value : Bytes) :
    (recovered w m addr value).master = m.master := by
  rw [recovered]
  split
  · split
    · next h => exact (h.resolve_left hknown).symm
    · exact redirect_master
  · rfl

/-- A known master is replaced in one place only. -/
theorem handleResult_master {r : PingResult} (hknown : m.master ≠ [])
    (hmoves : (handleResult w m r).master ≠ m.master) :
    r = ⟨m.master, false⟩ ∧ cfg.failureThresh ≤ m.fails m.master + 1 ∧
      handleResult w m r = triggerFailover w (m.downed m.master) := by
  have h := handleResult_outcome w m r
  generalize handleResult w m r = m' at h hmoves ⊢
  cases h with
  | suspect => exact absurd rfl hmoves
  | dead => exact absurd rfl hmoves
  | failover hfails => exact ⟨rfl, hfails, rfl⟩
  | mute => exact absurd rfl hmoves
  | @recovered addr value =>
    have hkeeps : (recovered w ((m.awake addr).record [call w.script m.log addr .role])
        addr value).master = m.master :=
      recovered_master (m := (m.awake addr).record _) hknown value
    exact absurd (retryStale_master.trans hkeeps) hmoves
  | healthy => exact absurd retryStale_master hmoves

def pingsOf (results : List PingResult) (addr : Addr) : List Bool :=
  (results.filter (·.addr = addr)).map (·.alive)

def trailing (pings : List Bool) : ℕ := (pings.reverse.takeWhile (!·)).length

theorem pingsOf_append_self (results : List PingResult) (addr : Addr) (alive : Bool) :
    pingsOf (results ++ [⟨addr, alive⟩]) addr = pingsOf results addr ++ [alive] := by
  simp [pingsOf]

theorem pingsOf_append_of_ne (results : List PingResult) {a : Addr} (h : a ≠ addr) (alive : Bool) :
    pingsOf (results ++ [⟨addr, alive⟩]) a = pingsOf results a := by
  simp [pingsOf, h.symm]

theorem trailing_append_true (pings : List Bool) : trailing (pings ++ [true]) = 0 := by
  simp [trailing]

theorem trailing_append_false (pings : List Bool) :
    trailing (pings ++ [false]) = trailing pings + 1 := by
  simp [trailing]

theorem replicate_suffix_of_le_trailing {n : ℕ} {pings : List Bool} (h : n ≤ trailing pings) :
    List.replicate n false <:+ pings := by
  have hall : pings.reverse.takeWhile (!·) = List.replicate (trailing pings) false := by
    refine List.eq_replicate_iff.mpr ⟨rfl, fun b hb ↦ ?_⟩
    simpa using List.mem_takeWhile_imp hb
  have htake : List.replicate n false <+: pings.reverse := by
    have hsplit : List.replicate (trailing pings) false <+: pings.reverse :=
      hall ▸ List.takeWhile_prefix _
    refine List.IsPrefix.trans ⟨List.replicate (trailing pings - n) false, ?_⟩ hsplit
    rw [← List.replicate_add, Nat.add_sub_cancel' h]
  have h := List.reverse_suffix.mpr htake
  rwa [List.reverse_reverse, List.reverse_replicate] at h

theorem discoverNode_fails (script : Script) : (discoverNode script m addr).fails = m.fails := by
  rw [discoverNode]
  split
  · rfl
  · split <;> rfl

theorem discover_fails (script : Script) (keys : List Addr) :
    (keys.foldl (discoverNode script) m).fails = m.fails := by
  induction keys generalizing m with
  | nil => rfl
  | cons addr keys ih => rw [List.foldl_cons, ih, discoverNode_fails]

theorem start_fails (w : World cfg) (order : Order cfg) (a : Addr) :
    (start w order).fails a = 0 := by
  rw [start, discoverTopology, discover_fails]
  rfl

structure Counted (cfg : Config) (results : List PingResult) (m : Monitor) : Prop where
  fails : ∀ a, m.fails a = trailing (pingsOf results a)
  alive : ∀ a, (m.nodes a).alive = true → (m.fails a : ℤ) < cfg.failureThresh

namespace Counted

variable {results : List PingResult}

theorem congr (h : Counted cfg results m) (hsame : SameHealth m m') : Counted cfg results m' := by
  refine ⟨fun a ↦ ?_, fun a ha ↦ ?_⟩
  · rw [hsame.fails, h.fails a]
  · rw [hsame.fails]
    exact h.alive a ((hsame.alive a).symm.trans ha)

theorem append (h : Counted cfg results m) {alive : Bool}
    (hfails : m'.fails =
      Function.update m.fails addr (trailing (pingsOf results addr ++ [alive])))
    (hother : ∀ a, a ≠ addr → (m'.nodes a).alive = (m.nodes a).alive)
    (hself : (m'.nodes addr).alive = true → (m'.fails addr : ℤ) < cfg.failureThresh) :
    Counted cfg (results ++ [⟨addr, alive⟩]) m' := by
  refine ⟨fun a ↦ ?_, fun a ha ↦ ?_⟩ <;> by_cases hne : a = addr
  · rw [hne, hfails, Function.update_self, pingsOf_append_self]
  · rw [hfails, Function.update_of_ne hne, pingsOf_append_of_ne results hne, h.fails a]
  · subst hne
    exact hself ha
  · rw [hfails, Function.update_of_ne hne]
    exact h.alive a ((hother a hne).symm.trans ha)

theorem awake (hthresh : 1 ≤ cfg.failureThresh) (h : Counted cfg results m) (addr : Addr) :
    Counted cfg (results ++ [⟨addr, true⟩]) (m.awake addr) := by
  refine h.append ?_ (fun a hne ↦ ?_) (fun _ ↦ ?_)
  · rw [trailing_append_true]
    rfl
  · exact congrArg Node.alive ((m.setFails addr 0).setAlive_nodes_of_ne addr true hne)
  · have hzero : (m.awake addr).fails addr = 0 := Function.update_self _ _ _
    rw [hzero]
    exact hthresh

theorem missed (h : Counted cfg results m) (hfails : ¬cfg.failureThresh ≤ m.fails addr + 1) :
    Counted cfg (results ++ [⟨addr, false⟩]) (m.missed addr) := by
  refine h.append ?_ (fun a _ ↦ rfl) (fun _ ↦ ?_)
  · rw [trailing_append_false, ← h.fails addr]
    rfl
  · have hcount : (m.missed addr).fails addr = m.fails addr + 1 := Function.update_self _ _ _
    rw [hcount]
    push_cast
    exact not_le.mp hfails

theorem downed (h : Counted cfg results m) (addr : Addr) :
    Counted cfg (results ++ [⟨addr, false⟩]) (m.downed addr) := by
  refine h.append ?_ (fun a hne ↦ ?_) (fun halive ↦ ?_)
  · rw [trailing_append_false, ← h.fails addr]
    rfl
  · exact congrArg Node.alive ((m.missed addr).setAlive_nodes_of_ne addr false hne)
  · have hdead : (m.downed addr).nodes addr = ⟨(m.nodes addr).role, false⟩ :=
      (m.missed addr).setAlive_nodes_self addr false
    rw [hdead] at halive
    cases halive

theorem step (hthresh : 1 ≤ cfg.failureThresh) (w : World cfg) (h : Counted cfg results m)
    (r : PingResult) : Counted cfg (results ++ [r]) (handleResult w m r) := by
  have hout := handleResult_outcome w m r
  generalize handleResult w m r = m' at hout ⊢
  cases hout with
  | suspect hfails => exact h.missed hfails
  | dead => exact h.downed _
  | failover => exact (h.downed _).congr (.triggerFailover w _)
  | mute => exact (h.awake hthresh _).congr (.record _ _)
  | recovered =>
    exact (h.awake hthresh _).congr
      (((SameHealth.record _ _).trans (.recovered w _ _ _)).trans (.retryStale w _ _))
  | healthy => exact (h.awake hthresh _).congr (.retryStale w _ _)

theorem run (hthresh : 1 ≤ cfg.failureThresh) (w : World cfg) (h : Counted cfg results m)
    (more : List PingResult) :
    Counted cfg (results ++ more) (run (handleResult w) m more) := by
  induction more generalizing results m with
  | nil =>
    rw [List.append_nil]
    exact h
  | cons r more ih =>
    have hnext := ih (h.step hthresh w r)
    rwa [List.append_assoc] at hnext

theorem discover (hthresh : 1 ≤ cfg.failureThresh) (w : World cfg) (order : Order cfg) :
    Counted cfg [] (start w order) := by
  refine ⟨start_fails w order, fun a _ ↦ ?_⟩
  rw [start_fails]
  exact hthresh

end Counted

/-- After `discoverTopology`, in every run of ticks and after any of the results of a tick: the
counters count the failures at the end of the pings of a node, a live node has fewer than the
threshold, and a known master is replaced only by a failover after so many failures of its own. -/
theorem master_replaced_after_failures (hthresh : 1 ≤ cfg.failureThresh) (w : World cfg)
    (order : Order cfg) (ticks : List (Tick cfg)) (handled : List PingResult) :
    let results := ticks.flatMap Tick.results ++ handled
    let m := Lib.Run.run (handleResult w) (Lib.Run.run (healthCheck w) (start w order) ticks) handled
    (∀ a, m.fails a = trailing (pingsOf results a)) ∧
    (∀ a, (m.nodes a).alive = true → (trailing (pingsOf results a) : ℤ) < cfg.failureThresh) ∧
    ∀ r, m.master ≠ [] → (handleResult w m r).master ≠ m.master →
      r = ⟨m.master, false⟩ ∧ handleResult w m r = triggerFailover w (m.downed m.master) ∧
        List.replicate cfg.failureThresh.toNat false <:+ pingsOf (results ++ [r]) m.master := by
  intro results m
  have hrun : m = Lib.Run.run (handleResult w) (start w order) results := by
    rw [run_append, ← run_flatMap]
    rfl
  have hcounted : Counted cfg results m := hrun ▸ (Counted.discover hthresh w order).run hthresh w results
  refine ⟨hcounted.fails, fun a ha ↦ ?_, fun r hknown hmoves ↦ ?_⟩
  · rw [← hcounted.fails a]
    exact hcounted.alive a ha
  · obtain ⟨rfl, hfails, hfailover⟩ := handleResult_master hknown hmoves
    refine ⟨rfl, hfailover, replicate_suffix_of_le_trailing ?_⟩
    rw [pingsOf_append_self, trailing_append_false, ← hcounted.fails]
    omega

def electingWorld : World ⟨sampleNodes, 2⟩ :=
  configured sampleNodes 2 sampleNodes_nodup (electing (fun _ ↦ ok))

theorem master_replaced_after_two :
    (run (healthCheck electingWorld) (start electingWorld (sampleOrder 2))
      [tickWithout 2 [ascii "a:1"]]).master = ascii "a:1" ∧
    (handleResult electingWorld (run (healthCheck electingWorld)
      (start electingWorld (sampleOrder 2)) [tickWithout 2 [ascii "a:1"]])
        ⟨ascii "a:1", false⟩).master = ascii "c:3" ∧
    [false, false] <:+
      pingsOf ((tickWithout 2 [ascii "a:1"]).results ++ [⟨ascii "a:1", false⟩]) (ascii "a:1") := by
  have hrun : (run (healthCheck electingWorld) (start electingWorld (sampleOrder 2))
        [tickWithout 2 [ascii "a:1"]]).master = ascii "a:1" ∧
      (handleResult electingWorld (run (healthCheck electingWorld)
        (start electingWorld (sampleOrder 2)) [tickWithout 2 [ascii "a:1"]])
          ⟨ascii "a:1", false⟩).master = ascii "c:3" := by decide +kernel
  refine ⟨hrun.1, hrun.2, ?_⟩
  obtain ⟨-, -, hmoves⟩ := master_replaced_after_failures (by decide) electingWorld
    (sampleOrder 2) [tickWithout 2 [ascii "a:1"]] []
  have h := hmoves ⟨ascii "a:1", false⟩
  rw [run_nil, hrun.1, hrun.2] at h
  exact (h (by decide) (by decide)).2.2

def twoMasters : World ⟨[ascii "a:1", ascii "b:2"], 3⟩ :=
  configured _ 3 (by decide) (answering (fun _ ↦ none)
    (fun _ ↦ some (ascii "*3\r\n$6\r\nmaster\r\n:0\r\n*0\r\n")) (fun _ ↦ none) (fun _ ↦ none))

/-- Inside `discoverTopology` the master moves from one address to the other, and no ping has
failed. -/
theorem discovery_replaces_master :
    (([ascii "a:1"].foldl (discoverNode twoMasters.script) newMonitor).master = ascii "a:1" ∧
      ([ascii "a:1", ascii "b:2"].foldl (discoverNode twoMasters.script) newMonitor).master =
        ascii "b:2") ∧
    (start twoMasters ⟨[ascii "a:1", ascii "b:2"], by decide⟩).master = ascii "b:2" ∧
    ∀ a, (start twoMasters ⟨[ascii "a:1", ascii "b:2"], by decide⟩).fails a = 0 := by
  exact ⟨by decide +kernel, by decide +kernel, start_fails _ _⟩

end RedisLite.Controller
