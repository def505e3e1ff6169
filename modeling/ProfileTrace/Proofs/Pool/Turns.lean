import Mathlib.Algebra.GroupWithZero.Nat
import ProfileTrace.Pool

/-! The turns of a pool's workers. A turn changes nothing of the other workers, and after a run
no worker goes on. -/

namespace ProfileTrace

theorem sum_map_set {α : Type} (f : α → Nat) {all : List α} {i : Nat} {old : α}
    (found : all[i]? = some old) (new : α) :
    ((all.set i new).map f).sum + f old = (all.map f).sum + f new := by
  induction all generalizing i with
  | nil => simp at found
  | cons first others ih =>
    cases i with
    | zero =>
      obtain rfl : first = old := by simpa using found
      simp only [List.set_cons_zero, List.map_cons, List.sum_cons]
      omega
    | succ i =>
      have rest := ih (by simpa using found)
      simp only [List.set_cons_succ, List.map_cons, List.sum_cons]
      omega

namespace Pool
variable {σ ω : Type} {job : Job σ ω} {pool : Pool σ ω} {i j : Nat}

theorem getElem?_turn_of_ne (other : i ≠ j) :
    (turn job i pool).workers[j]? = pool.workers[j]? := by
  unfold turn
  split
  · split <;> simp [other]
  · rfl

theorem getElem?_runWorker_of_ne (other : i ≠ j) :
    (runWorker job i pool).workers[j]? = pool.workers[j]? := by
  fun_induction runWorker job i pool with
  | case1 pool busy ih => rw [ih, getElem?_turn_of_ne other]
  | case2 pool idle => rfl

theorem isWorking_runWorker : (runWorker job i pool).isWorking i = false := by
  fun_induction runWorker job i pool with
  | case1 pool busy ih => exact ih
  | case2 pool idle => simpa using idle

theorem isWorking_foldl (order : List Nat) (idle : j ∈ order ∨ pool.isWorking j = false) :
    (order.foldl (fun pool i => runWorker job i pool) pool).isWorking j = false := by
  induction order generalizing pool with
  | nil => simpa using idle
  | cons i order ih =>
    apply ih
    by_cases same : i = j
    · subst same
      exact .inr isWorking_runWorker
    · rcases idle with among | idle
      · exact .inl (List.mem_of_ne_of_mem (Ne.symm same) among)
      · refine .inr ?_
        rwa [isWorking, getElem?_runWorker_of_ne same]

theorem isWorking_run (job : Job σ ω) (pool : Pool σ ω) (j : Nat) :
    (run job pool).isWorking j = false := by
  apply isWorking_foldl
  by_cases inside : j < pool.workers.length
  · exact .inl (List.mem_range.mpr inside)
  · refine .inr ?_
    rw [isWorking, List.getElem?_eq_none (Nat.le_of_not_lt inside)]
    rfl

end Pool

end ProfileTrace
