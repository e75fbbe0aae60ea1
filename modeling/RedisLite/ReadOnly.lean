import RedisLite.Offsets

namespace RedisLite.Server

open Lib.Run

variable {s : Server}

def HoldsAsWorker (store : Store) (d : Data) : Prop :=
  d.replInfo.role = .worker ∧ ∀ k, d.store.find k = store.find k

theorem HoldsAsWorker.execute {store : Store} {d : Data} (h : HoldsAsWorker store d)
    (now : TimePoint) (args : List Bytes) : HoldsAsWorker store (d.execute now args false) := by
  refine ⟨h.1, fun k ↦ ?_⟩
  have hs : (d.execute now args false).store = d.store := by
    rw [Data.execute, Command.execute_store, h.1]
    rfl
  rw [hs]
  exact h.2 k

theorem step_link_store {env : Env} {c : ClientId} {client : Client} {args : List Bytes} {n : ℕ}
    (hc : Receives s c client args n) (ht : client.type = .masterConn) :
    (step s (.process env)).store =
      (Command.execute env.clock.steady args s.store s.replInfo true).2 := by
  have h : (step s (.process env)).data =
      (s.data.execute env.clock.steady args true).advance n := by
    rw [hc.step_eq env, data_eraseRead, runCommand_link env c args n ht, data_handleMasterRead]
    rfl
  exact congrArg Data.store h

end RedisLite.Server
