/-
Lifecycle policy, priority and progress.

The policy knobs are plain data with the defaults of the runtime; the only
decision taken here is `restartAllowed`, the restart-limit predicate.
`Progress.advance` is the one place where completed work is added up, behind
its own guard against wrap-around (`Progress.advance_eq_some`).
-/
import WorkloadFabric.State

namespace WorkloadFabric

/-! ### Policy -/

inductive RestartKind where
  | never
  | onKnownFailure
  | onWorkerLoss
  | onInfrastructureFailure
  | onAmbiguousExecution
  | alwaysWithLimit
  | manualOnly
deriving DecidableEq, Repr

def restartKindName : RestartKind → Text
  | .never => text "NEVER"
  | .onKnownFailure => text "ON_KNOWN_FAILURE"
  | .onWorkerLoss => text "ON_WORKER_LOSS"
  | .onInfrastructureFailure => text "ON_INFRASTRUCTURE_FAILURE"
  | .onAmbiguousExecution => text "ON_AMBIGUOUS_EXECUTION"
  | .alwaysWithLimit => text "ALWAYS_WITH_LIMIT"
  | .manualOnly => text "MANUAL_ONLY"

inductive CompletionKind where
  | singleResult
  | allPhases
  | requiredUnits
  | explicitFinalize
deriving DecidableEq, Repr

inductive MigrationEligibility where
  | none
  | planOnly
  | checkpointAndResume
deriving DecidableEq, Repr

def migrationEligibilityName : MigrationEligibility → Text
  | .none => text "NONE"
  | .planOnly => text "PLAN_ONLY"
  | .checkpointAndResume => text "CHECKPOINT_AND_RESUME"

inductive CancelRaceSemantics where
  | cancelFirst
  | completionFirst
deriving DecidableEq, Repr

structure RestartPolicy where
  kind : RestartKind := .never
  maxRestarts : UInt32 := 0
  maxRecoverySeconds : UInt32 := 0
  carryProgressForward : Bool := true
  carryCheckpoint : Bool := true
deriving DecidableEq

structure CompletionPolicy where
  kind : CompletionKind := .singleResult
  requiredUnits : UInt32 := 0
  requireDurableArtifact : Bool := true
  allowZeroWorkCompletion : Bool := false
deriving DecidableEq

structure MigrationPolicy where
  eligibility : MigrationEligibility := .none
  requireCheckpoint : Bool := true
  requireQuiescence : Bool := true
  allowLossy : Bool := false
deriving DecidableEq

structure SuspensionPolicy where
  allowed : Bool := true
  requireDurableState : Bool := true
  maxSuspendedSeconds : UInt32 := 0
  releaseResourcesWhileSuspended : Bool := true
deriving DecidableEq

structure Policy where
  restart : RestartPolicy := {}
  completion : CompletionPolicy := {}
  migration : MigrationPolicy := {}
  suspension : SuspensionPolicy := {}
  cancelRace : CancelRaceSemantics := .completionFirst
  generation : PolicyGeneration := {}
deriving DecidableEq

/-- Restart-limit predicate: the `(count + 1)`-th restart is forbidden once
`count` reaches the limit. -/
def restartAllowed (count maxRestarts : UInt32) : Bool := count < maxRestarts

/-! ### Priority -/

inductive PriorityTier where
  | lowest
  | low
  | normal
  | high
  | critical
  | system
deriving DecidableEq, Repr

structure Priority where
  cls : PriorityClass := {}
  gen : PriorityGeneration := {}
  baseTier : PriorityTier := .normal
  baseValue : Int32 := 0
  promotion : Int32 := 0
  starved : Bool := false
  preemptible : Bool := true
  protectedFlag : Bool := false
deriving DecidableEq

/-- The numbers an `int` can hold. -/
def FitsInt (z : ℤ) : Prop := Int32.minValue.toInt ≤ z ∧ z ≤ Int32.maxValue.toInt

instance (z : ℤ) : Decidable (FitsInt z) := inferInstanceAs (Decidable (_ ∧ _))

/-- The result of an operation on `int`s: `none` where it overflows, which is undefined
behaviour. -/
def intResult (z : ℤ) : Option Int32 := if FitsInt z then some (.ofInt z) else none

namespace Priority

/-- Rebase the priority; the generation advances. -/
def setBase (p : Priority) (cls : PriorityClass) (tier : PriorityTier)
    (priority : Int32) : Priority :=
  { p with cls := cls, baseTier := tier, baseValue := priority, gen := next p.gen }

/-- Promote the effective priority; only a positive delta does something. -/
def promote (p : Priority) (delta : Int32) : Option Priority :=
  if delta ≤ 0 then some p
  else (intResult (p.promotion.toInt + delta.toInt)).map fun v =>
    { p with promotion := v, gen := next p.gen }

/-- Demote the effective priority; only a positive delta does something. -/
def demote (p : Priority) (delta : Int32) : Option Priority :=
  if delta ≤ 0 then some p
  else (intResult (p.promotion.toInt - delta.toInt)).map fun v =>
    { p with promotion := v, gen := next p.gen }

def markStarved (p : Priority) : Priority := { p with starved := true, gen := next p.gen }

/-- The effective priority value; larger is higher. -/
def effectiveValue (p : Priority) : Option Int32 :=
  (intResult (p.baseValue.toInt + p.promotion.toInt)).bind fun v =>
    if p.starved then intResult (v.toInt + 1000) else some v

/-- Preemption eligibility; the tier is not looked at. -/
def mayBePreempted (p : Priority) : Bool := p.preemptible && !p.protectedFlag

def setProtected (p : Priority) (b : Bool) : Priority := { p with protectedFlag := b }

end Priority

/-! ### Progress -/

inductive TotalKind where
  | known
  | unknown
deriving DecidableEq, Repr

inductive ProgressProvenance where
  | durableKnown
  | reconstructed
  | estimated
  | unavailable
deriving DecidableEq, Repr

structure Progress where
  completed : UInt64 := 0
  totalKind : TotalKind := .unknown
  total : UInt64 := 0
  checkpointed : UInt64 := 0
  provenance : ProgressProvenance := .durableKnown
  lastAuthoritativeGeneration : UInt64 := 0
  monotonic : Bool := true
deriving DecidableEq

namespace Progress

/-- Add `delta` units of completed work; `none` when the count would wrap
(the source returns `false` and leaves the record alone). -/
def advance (p : Progress) (delta : UInt64) (durable : Bool) : Option Progress :=
  if 18446744073709551615 - p.completed < delta then none
  else
    let completed := p.completed + delta
    some { p with
      completed := completed
      checkpointed := if durable then completed else p.checkpointed
      provenance := if durable then .durableKnown else p.provenance
      lastAuthoritativeGeneration := p.lastAuthoritativeGeneration + 1 }

def complete (p : Progress) : Bool :=
  p.totalKind == .known && decide (p.total ≤ p.completed)

/-- The overflow guard of `advance`, as a statement about numbers. -/
theorem advance_guard (c delta : UInt64) :
    18446744073709551615 - c < delta ↔ 2 ^ 64 ≤ c.toNat + delta.toNat := by
  have hc := c.toNat_lt
  have hsub : (18446744073709551615 - c).toNat = 18446744073709551615 - c.toNat :=
    UInt64.toNat_sub_of_le _ _ (UInt64.le_iff_toNat_le.mpr (by
      show c.toNat ≤ 18446744073709551615
      omega))
  rw [UInt64.lt_iff_toNat_lt, hsub]
  omega

/-- An accepted advance adds exactly `delta`, without wrap-around. -/
theorem advance_eq_some {p p' : Progress} {delta : UInt64} {durable : Bool}
    (h : p.advance delta durable = some p') :
    p.completed.toNat + delta.toNat < 2 ^ 64 ∧
      p' = { p with
        completed := p.completed + delta
        checkpointed := if durable then p.completed + delta else p.checkpointed
        provenance := if durable then .durableKnown else p.provenance
        lastAuthoritativeGeneration := p.lastAuthoritativeGeneration + 1 } := by
  rw [advance] at h
  by_cases hg : 18446744073709551615 - p.completed < delta
  · rw [if_pos hg] at h
    exact absurd h (by simp)
  · rw [if_neg hg, Option.some_inj] at h
    refine ⟨?_, h.symm⟩
    rw [advance_guard] at hg
    omega

end Progress

end WorkloadFabric
