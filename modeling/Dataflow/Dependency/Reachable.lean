/-!
# What a root depends on

A key is reachable from a root if it is the root or a dependency of a reachable key. A list
that holds every dependency of every key bounds the keys that can be reached.
-/

namespace Dataflow.Dependency

variable {κ : Type}

/-- The keys that a root depends on, itself included. -/
inductive Reachable (dependencies : κ → List κ) (root : κ) : κ → Prop
  | root : Reachable dependencies root root
  | step {key dependency : κ} : Reachable dependencies root key →
      dependency ∈ dependencies key → Reachable dependencies root dependency

/-- Finitely many keys can be reached from the root. -/
def FinitelyReachable (dependencies : κ → List κ) (root : κ) : Prop :=
  ∃ bound : List κ, ∀ key, Reachable dependencies root key → key ∈ bound

/-- A list that holds every dependency of every key bounds what can be reached. -/
theorem FinitelyReachable.of_forall_mem {dependencies : κ → List κ} (root : κ) (bound : List κ)
    (h : ∀ key, ∀ dependency ∈ dependencies key, dependency ∈ bound) :
    FinitelyReachable dependencies root := by
  refine ⟨root :: bound, fun key reachable => ?_⟩
  cases reachable with
  | root => exact List.mem_cons_self
  | step _ mem => exact List.mem_cons_of_mem _ (h _ _ mem)

end Dataflow.Dependency
