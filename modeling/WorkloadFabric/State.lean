/-
The lifecycle state machines of the workload and of the execution episode.

A workload may only ever take an edge of `kTransitionTable`; `canTransition`
looks an edge up.  The facts proved here are the ones the table is consulted for
over and over, such as that the terminal states have no way out
(`isTerminal_no_exit`).
-/
import WorkloadFabric.Identity

namespace WorkloadFabric

/-- The states of a workload, in the order of their codes. -/
inductive WorkloadState where
  | created
  | validating
  | blocked
  | waitingForDependencies
  | waitingForResources
  | ready
  | starting
  | running
  | degraded
  | suspendRequested
  | suspending
  | suspended
  | preemptionRequested
  | preempted
  | migrationPending
  | migrating
  | recovering
  | restartPending
  | cancellationRequested
  | cancelling
  | completing
  | completed
  | failedRecoverable
  | failedTerminal
  | cancelled
  | superseded
deriving DecidableEq, Repr

/-- The states of an execution episode, in the order of their codes. -/
inductive EpisodeState where
  | pending
  | admitted
  | running
  | suspended
  | preempted
  | migrating
  | lost
  | cancelled
  | completed
  | failed
deriving DecidableEq, Repr

def isTerminal : WorkloadState → Bool
  | .completed | .failedTerminal | .cancelled | .superseded => true
  | _ => false

def isCancelling (s : WorkloadState) : Bool :=
  s == .cancellationRequested || s == .cancelling

theorem isCancelling_iff (s : WorkloadState) :
    isCancelling s = true ↔ s = .cancellationRequested ∨ s = .cancelling := by
  cases s <;> simp [isCancelling]

def isActivelyRunning (s : WorkloadState) : Bool :=
  s == .running || s == .degraded || s == .starting

def workloadStateName : WorkloadState → Text
  | .created => text "CREATED"
  | .validating => text "VALIDATING"
  | .blocked => text "BLOCKED"
  | .waitingForDependencies => text "WAITING_FOR_DEPENDENCIES"
  | .waitingForResources => text "WAITING_FOR_RESOURCES"
  | .ready => text "READY"
  | .starting => text "STARTING"
  | .running => text "RUNNING"
  | .degraded => text "DEGRADED"
  | .suspendRequested => text "SUSPEND_REQUESTED"
  | .suspending => text "SUSPENDING"
  | .suspended => text "SUSPENDED"
  | .preemptionRequested => text "PREEMPTION_REQUESTED"
  | .preempted => text "PREEMPTED"
  | .migrationPending => text "MIGRATION_PENDING"
  | .migrating => text "MIGRATING"
  | .recovering => text "RECOVERING"
  | .restartPending => text "RESTART_PENDING"
  | .cancellationRequested => text "CANCELLATION_REQUESTED"
  | .cancelling => text "CANCELLING"
  | .completing => text "COMPLETING"
  | .completed => text "COMPLETED"
  | .failedRecoverable => text "FAILED_RECOVERABLE"
  | .failedTerminal => text "FAILED_TERMINAL"
  | .cancelled => text "CANCELLED"
  | .superseded => text "SUPERSEDED"

/-! ### The transition table -/

/-- Every edge the workload machine permits: no wildcards, no implicit
shortcuts. -/
def kTransitionTable : List (WorkloadState × WorkloadState) := [
  (.created, .validating),
  (.created, .blocked),
  (.created, .waitingForDependencies),
  (.created, .cancelled),
  (.created, .completed),
  (.validating, .created),
  (.validating, .blocked),
  (.validating, .waitingForDependencies),
  (.validating, .waitingForResources),
  (.validating, .ready),
  (.validating, .failedTerminal),
  (.validating, .cancelled),
  (.blocked, .validating),
  (.blocked, .waitingForDependencies),
  (.blocked, .waitingForResources),
  (.blocked, .ready),
  (.blocked, .cancelled),
  (.waitingForDependencies, .validating),
  (.waitingForDependencies, .blocked),
  (.waitingForDependencies, .waitingForResources),
  (.waitingForDependencies, .ready),
  (.waitingForDependencies, .cancelled),
  (.waitingForResources, .validating),
  (.waitingForResources, .blocked),
  (.waitingForResources, .waitingForDependencies),
  (.waitingForResources, .ready),
  (.waitingForResources, .cancelled),
  (.ready, .starting),
  (.ready, .waitingForResources),
  (.ready, .waitingForDependencies),
  (.ready, .cancelled),
  (.starting, .running),
  (.starting, .ready),
  (.starting, .restartPending),
  (.starting, .failedRecoverable),
  (.starting, .cancellationRequested),
  (.running, .degraded),
  (.running, .completing),
  (.running, .suspendRequested),
  (.running, .preemptionRequested),
  (.running, .migrationPending),
  (.running, .cancellationRequested),
  (.running, .recovering),
  (.running, .failedRecoverable),
  (.running, .failedTerminal),
  (.degraded, .running),
  (.degraded, .completing),
  (.degraded, .suspendRequested),
  (.degraded, .preemptionRequested),
  (.degraded, .migrationPending),
  (.degraded, .cancellationRequested),
  (.degraded, .recovering),
  (.degraded, .failedRecoverable),
  (.suspendRequested, .suspending),
  (.suspendRequested, .running),
  (.suspendRequested, .cancellationRequested),
  (.suspendRequested, .failedRecoverable),
  (.suspending, .suspended),
  (.suspending, .running),
  (.suspending, .cancellationRequested),
  (.suspending, .failedRecoverable),
  (.suspended, .ready),
  (.suspended, .running),
  (.suspended, .cancellationRequested),
  (.suspended, .superseded),
  (.suspended, .failedRecoverable),
  (.preemptionRequested, .preempted),
  (.preemptionRequested, .running),
  (.preemptionRequested, .suspendRequested),
  (.preemptionRequested, .cancellationRequested),
  (.preempted, .running),
  (.preempted, .ready),
  (.preempted, .restartPending),
  (.preempted, .superseded),
  (.preempted, .cancellationRequested),
  (.migrationPending, .migrating),
  (.migrationPending, .running),
  (.migrationPending, .suspendRequested),
  (.migrationPending, .cancellationRequested),
  (.migrationPending, .failedRecoverable),
  (.migrating, .running),
  (.migrating, .recovering),
  (.migrating, .ready),
  (.migrating, .restartPending),
  (.migrating, .superseded),
  (.migrating, .cancellationRequested),
  (.recovering, .running),
  (.recovering, .restartPending),
  (.recovering, .ready),
  (.recovering, .failedRecoverable),
  (.recovering, .failedTerminal),
  (.recovering, .cancellationRequested),
  (.restartPending, .ready),
  (.restartPending, .running),
  (.restartPending, .failedTerminal),
  (.restartPending, .cancellationRequested),
  (.cancellationRequested, .cancelling),
  (.cancellationRequested, .cancelled),
  (.cancellationRequested, .completing),
  (.cancelling, .cancelled),
  (.cancelling, .completed),
  (.completing, .completed),
  (.completing, .failedRecoverable),
  (.completing, .failedTerminal),
  (.completing, .cancelled)]

def canTransition (fromState toState : WorkloadState) : Bool :=
  kTransitionTable.any fun edge => edge.1 == fromState && edge.2 == toState

theorem mem_of_canTransition {s t : WorkloadState} (h : canTransition s t = true) :
    (s, t) ∈ kTransitionTable := by
  obtain ⟨e, he, hst⟩ := List.any_eq_true.mp h
  rw [Bool.and_eq_true, beq_iff_eq, beq_iff_eq] at hst
  rwa [← hst.1, ← hst.2]

/-- **A terminal state has no way out.** -/
theorem isTerminal_no_exit {s : WorkloadState} (hs : isTerminal s = true) (t : WorkloadState) :
    canTransition s t = false := by
  have htable : ∀ e ∈ kTransitionTable, isTerminal e.1 = false := by decide
  rw [Bool.eq_false_iff]
  intro h
  have := htable _ (mem_of_canTransition h)
  rw [hs] at this
  exact absurd this (by decide)

end WorkloadFabric
