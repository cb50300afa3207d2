/-
Identities, generation fences, texts and the outcome taxonomy.

Every identity of the runtime is a 64-bit value under a tag of its own
(`UniqueValue`), so that a workload id can never be passed where an episode id
is expected; `0` is the reserved invalid value.  Generations are the same type
and only ever move by `next`, which wraps modulo `2 ^ 64`.

A `Text` is what `std::string` is: a string of arbitrary bytes.
-/
import Mathlib.Tactic
import Std.Data.TreeMap

namespace WorkloadFabric

/-! ### Texts -/

/-- `std::string`: any bytes at all. -/
abbrev Text := List UInt8

/-- The bytes of an ASCII literal. -/
def text (s : String) : Text := s.toList.map fun c => c.toNat.toUInt8

/-- `std::to_string` of a non-negative number. -/
def decimal (n : ℕ) : Text := (Nat.toDigits 10 n).map fun c => c.toNat.toUInt8

/-! ### Identities -/

/-- The semantic domains an identity can belong to. -/
inductive IdTag where
  | workloadId | workloadGeneration | workloadRevision
  | executionEpisodeId | executionEpisodeGeneration
  | coordinatorEpoch
  | ownerId | ownerGeneration
  | workerId | workerBootId
  | priorityClass | priorityGeneration
  | resourceContractId | resourceContractGeneration
  | dependencySetId | dependencyGeneration
  | checkpointRef | checkpointGeneration
  | migrationId | migrationGeneration
  | restartGeneration | recoveryGeneration
  | completionGeneration | policyGeneration
deriving DecidableEq

/-- A 64-bit identity of the domain `tag`. -/
structure UniqueValue (tag : IdTag) where
  value : UInt64 := 0
deriving DecidableEq

namespace UniqueValue

variable {tag : IdTag}

def valid (u : UniqueValue tag) : Bool := u.value != 0

def toU64 (u : UniqueValue tag) : UInt64 := u.value

def fromU64 (v : UInt64) : UniqueValue tag := ⟨v⟩

@[simp] theorem toU64_fromU64 (v : UInt64) : (fromU64 v : UniqueValue tag).toU64 = v := rfl

@[ext] theorem ext_toU64 {u v : UniqueValue tag} (h : u.toU64 = v.toU64) : u = v := by
  cases u
  cases v
  exact congrArg _ h

instance : Inhabited (UniqueValue tag) := ⟨{}⟩

instance : Ord (UniqueValue tag) := ⟨fun a b => compare a.value b.value⟩

instance : Std.TransOrd (UniqueValue tag) where
  eq_swap {a b} := Std.OrientedOrd.eq_swap (a := a.value) (b := b.value)
  isLE_trans {a b c} := Std.TransOrd.isLE_trans (a := a.value) (b := b.value) (c := c.value)

instance : Std.LawfulEqOrd (UniqueValue tag) where
  eq_of_compare {a b} h := by
    have hv : compare a.value b.value = .eq := h
    exact ext_toU64 (Std.LawfulEqOrd.eq_of_compare hv)

end UniqueValue

abbrev WorkloadId := UniqueValue .workloadId
abbrev WorkloadGeneration := UniqueValue .workloadGeneration
abbrev WorkloadRevision := UniqueValue .workloadRevision
abbrev ExecutionEpisodeId := UniqueValue .executionEpisodeId
abbrev ExecutionEpisodeGeneration := UniqueValue .executionEpisodeGeneration
abbrev CoordinatorEpoch := UniqueValue .coordinatorEpoch
abbrev OwnerId := UniqueValue .ownerId
abbrev OwnerGeneration := UniqueValue .ownerGeneration
abbrev WorkerId := UniqueValue .workerId
abbrev WorkerBootId := UniqueValue .workerBootId
abbrev PriorityClass := UniqueValue .priorityClass
abbrev PriorityGeneration := UniqueValue .priorityGeneration
abbrev ResourceContractId := UniqueValue .resourceContractId
abbrev ResourceContractGeneration := UniqueValue .resourceContractGeneration
abbrev DependencySetId := UniqueValue .dependencySetId
abbrev DependencyGeneration := UniqueValue .dependencyGeneration
abbrev CheckpointRef := UniqueValue .checkpointRef
abbrev CheckpointGeneration := UniqueValue .checkpointGeneration
abbrev MigrationId := UniqueValue .migrationId
abbrev MigrationGeneration := UniqueValue .migrationGeneration
abbrev RestartGeneration := UniqueValue .restartGeneration
abbrev RecoveryGeneration := UniqueValue .recoveryGeneration
abbrev CompletionGeneration := UniqueValue .completionGeneration
abbrev PolicyGeneration := UniqueValue .policyGeneration

/-- The successor of a fence. -/
def next {tag : IdTag} (g : UniqueValue tag) : UniqueValue tag := .fromU64 (g.toU64 + 1)

@[simp] theorem next_toU64 {tag : IdTag} (g : UniqueValue tag) :
    (next g).toU64 = g.toU64 + 1 := rfl

/-- A fence always moves. -/
theorem next_ne {tag : IdTag} (g : UniqueValue tag) : next g ≠ g := by
  intro h
  have h' : g.toU64 + 1 = g.toU64 := congrArg UniqueValue.toU64 h
  have hn := congrArg UInt64.toNat h'
  rw [UInt64.toNat_add] at hn
  have hlt := g.toU64.toNat_lt
  simp only [UInt64.toNat_one] at hn
  omega

/-! ### Outcomes -/

/-- Every mutation, transition or decision resolves to exactly one outcome.
The constructors stand in the order of their codes. -/
inductive Outcome where
  | allow
  | defer
  | blockedDependency
  | blockedResourceContract
  | rejectStaleEpoch
  | rejectStaleBoot
  | rejectStaleWorkloadGeneration
  | rejectStaleEpisode
  | rejectStaleResourceContract
  | rejectStaleDependency
  | rejectStalePriority
  | rejectStaleProgress
  | rejectStaleMigration
  | rejectTerminal
  | rejectCancelled
  | rejectRestartLimit
  | rejectMigrationIneligible
  | rejectNotSuspended
  | rejectNotResumable
  | rejectInvalidTransition
  | rejectProgressDoubleCount
  | rejectProgressRegression
  | rejectResourceDoubleRelease
  | rejectDuplicateWorkload
  | rejectWorkloadNotFound
  | rejectCrossWorkload
  | rejectImmutableContract
  | rejectPriorityNotMutable
  | rejectNotBlocked
  | rejectEpisodeIneligible
  | rejectNotRunnable
  | rejectUnknownDependency
  | rejectDegradedPolicy
  | rejectCompletionPolicy
  | rejectUnknown
  | revalidationRequired
  | unknown
deriving DecidableEq, Repr

def isAllow (o : Outcome) : Bool := o == .allow

@[simp] theorem isAllow_iff (o : Outcome) : isAllow o = true ↔ o = .allow := by
  simp [isAllow]

end WorkloadFabric
