/-
The versioned persistence codec and the in-memory store.

`Workload.encode` writes the payload field by field, `Workload.decode` reads it
back with a range check on every enumeration; `encodeWorkload` frames the
payload with magic, version, length and checksum.  The order in which the two
arguments of a constructor call read from the same reader is unspecified in the
source language and is a parameter here (`EvalOrder`).
-/
import WorkloadFabric.Binary
import WorkloadFabric.Workload

namespace WorkloadFabric

open Decoder

/-! ### The codes of the enumerations -/

instance : CodedEnum WorkloadState :=
  .ofNumbering WorkloadState.ctorIdx WorkloadState.ofNat 25 (by decide)
    WorkloadState.ofNat_ctorIdx (by intro a; cases a <;> decide)

instance : CodedEnum RestartKind :=
  .ofNumbering RestartKind.ctorIdx RestartKind.ofNat 6 (by decide)
    RestartKind.ofNat_ctorIdx (by intro a; cases a <;> decide)

instance : CodedEnum CompletionKind :=
  .ofNumbering CompletionKind.ctorIdx CompletionKind.ofNat 3 (by decide)
    CompletionKind.ofNat_ctorIdx (by intro a; cases a <;> decide)

instance : CodedEnum MigrationEligibility :=
  .ofNumbering MigrationEligibility.ctorIdx MigrationEligibility.ofNat 2 (by decide)
    MigrationEligibility.ofNat_ctorIdx (by intro a; cases a <;> decide)

instance : CodedEnum CancelRaceSemantics :=
  .ofNumbering CancelRaceSemantics.ctorIdx CancelRaceSemantics.ofNat 1 (by decide)
    CancelRaceSemantics.ofNat_ctorIdx (by intro a; cases a <;> decide)

instance : CodedEnum ResourceKind :=
  .ofNumbering ResourceKind.ctorIdx ResourceKind.ofNat 16 (by decide)
    ResourceKind.ofNat_ctorIdx (by intro a; cases a <;> decide)

instance : CodedEnum NeedLevel :=
  .ofNumbering NeedLevel.ctorIdx NeedLevel.ofNat 3 (by decide)
    NeedLevel.ofNat_ctorIdx (by intro a; cases a <;> decide)

instance : CodedEnum GrantStatus :=
  .ofNumbering GrantStatus.ctorIdx GrantStatus.ofNat 5 (by decide)
    GrantStatus.ofNat_ctorIdx (by intro a; cases a <;> decide)

instance : CodedEnum DependencyRequirement :=
  .ofNumbering DependencyRequirement.ctorIdx DependencyRequirement.ofNat 1 (by decide)
    DependencyRequirement.ofNat_ctorIdx (by intro a; cases a <;> decide)

instance : CodedEnum DependencyReady :=
  .ofNumbering DependencyReady.ctorIdx DependencyReady.ofNat 2 (by decide)
    DependencyReady.ofNat_ctorIdx (by intro a; cases a <;> decide)

instance : CodedEnum DependencyStatus :=
  .ofNumbering DependencyStatus.ctorIdx DependencyStatus.ofNat 4 (by decide)
    DependencyStatus.ofNat_ctorIdx (by intro a; cases a <;> decide)

instance : CodedEnum PriorityTier :=
  .ofNumbering PriorityTier.ctorIdx PriorityTier.ofNat 5 (by decide)
    PriorityTier.ofNat_ctorIdx (by intro a; cases a <;> decide)

instance : CodedEnum TotalKind :=
  .ofNumbering TotalKind.ctorIdx TotalKind.ofNat 1 (by decide)
    TotalKind.ofNat_ctorIdx (by intro a; cases a <;> decide)

instance : CodedEnum ProgressProvenance :=
  .ofNumbering ProgressProvenance.ctorIdx ProgressProvenance.ofNat 3 (by decide)
    ProgressProvenance.ofNat_ctorIdx (by intro a; cases a <;> decide)

instance : CodedEnum EpisodeState :=
  .ofNumbering EpisodeState.ctorIdx EpisodeState.ofNat 9 (by decide)
    EpisodeState.ofNat_ctorIdx (by intro a; cases a <;> decide)

instance : CodedEnum Outcome :=
  .ofNumbering Outcome.ctorIdx Outcome.ofNat 36 (by decide)
    Outcome.ofNat_ctorIdx (by intro a; cases a <;> decide)

/-! ### Writing -/

namespace Writer

/-- `u64(id.toU64())` -/
def ident {tag : IdTag} (u : UniqueValue tag) : List UInt8 := u64 u.toU64

def policy (p : Policy) : List UInt8 := List.flatten [
  enum p.restart.kind, u32 p.restart.maxRestarts, u32 p.restart.maxRecoverySeconds,
  flag p.restart.carryProgressForward, flag p.restart.carryCheckpoint,
  enum p.completion.kind, u32 p.completion.requiredUnits,
  flag p.completion.requireDurableArtifact, flag p.completion.allowZeroWorkCompletion,
  enum p.migration.eligibility, flag p.migration.requireCheckpoint,
  flag p.migration.requireQuiescence, flag p.migration.allowLossy,
  flag p.suspension.allowed, flag p.suspension.requireDurableState,
  u32 p.suspension.maxSuspendedSeconds, flag p.suspension.releaseResourcesWhileSuspended,
  enum p.cancelRace, ident p.generation]

def requirement (r : ResourceRequirement) : List UInt8 := List.flatten [
  enum r.kind, enum r.level, f64 r.minValue, f64 r.maxValue, str r.spec]

def binding (b : ResourceBinding) : List UInt8 := List.flatten [
  enum b.kind, f64 b.amount, str b.qualifier]

def grant (g : ResourceGrant) : List UInt8 := List.flatten [
  ident g.contractId, ident g.contractGeneration, enum g.status, flag g.released,
  list binding g.bindings]

def contract (c : ResourceContract) : List UInt8 := List.flatten [
  ident c.id ++ ident c.generation, list requirement c.reqs, grant c.grant]

def dependencyDef (d : DependencyDef) : List UInt8 := List.flatten [
  ident d.dependsOn, enum d.requirement, enum d.readyWhen, str d.artifactKey]

def dependencyState (s : DependencyState) : List UInt8 := List.flatten [
  enum s.status, ident s.observedGeneration, str s.detail]

def dependencies (s : DependencySet) : List UInt8 := List.flatten [
  ident s.id ++ ident s.gen, list dependencyDef s.defs, size s.states,
  s.states.flatMap dependencyState]

def priority (p : Priority) : List UInt8 := List.flatten [
  ident p.cls, ident p.gen, enum p.baseTier, i64 p.baseValue.toInt64, i64 p.promotion.toInt64,
  flag p.starved, flag p.preemptible, flag p.protectedFlag]

def progress (p : Progress) : List UInt8 := List.flatten [
  u64 p.completed, enum p.totalKind, u64 p.total, u64 p.checkpointed, enum p.provenance,
  u64 p.lastAuthoritativeGeneration, flag p.monotonic]

def handle (h : ExecutionHandle) : List UInt8 := List.flatten [
  ident h.worker, ident h.boot, u64 h.attemptGeneration, str h.intent]

def episode (e : Episode) : List UInt8 := List.flatten [
  ident e.id, ident e.generation, enum e.state, ident e.owner, ident e.ownerGeneration,
  ident e.worker, ident e.boot, handle e.handle, ident e.restartGeneration,
  ident e.recoveryGeneration, ident e.checkpoint, ident e.checkpointGeneration,
  ident e.migrationId, ident e.migrationGeneration, progress e.progress, str e.intent,
  flag e.authoritative, flag e.failed, flag e.cancelled, flag e.completed, flag e.workerLost]

def transitionRecord (h : TransitionRecord) : List UInt8 := List.flatten [
  enum h.fromState, enum h.toState, ident h.generation, u64 h.timestampMs, str h.reason,
  enum h.outcome]

def workload (w : Workload) : List UInt8 := List.flatten [
  ident w.id, ident w.generation, ident w.revision, enum w.state, str w.name, str w.intent,
  policy w.policy, contract w.contract, dependencies w.deps, priority w.priority,
  progress w.progress, ident w.owner, ident w.ownerGeneration, ident w.epoch,
  u32 w.restartCount, ident w.restartGen, ident w.migrationId, ident w.migrationGen,
  ident w.completionGen, flag w.cancellationRequested, flag w.cancelledFinal,
  flag w.cancellationWasRejected, str w.lastRestartReason, ident w.lastSourceEpisode,
  list episode w.episodes, list transitionRecord w.history]

end Writer

/-- `Workload::encode` -/
def Workload.encode (w : Workload) : List UInt8 := Writer.workload w

/-! ### Reading -/

/-- The order in which the arguments of one call are evaluated. -/
inductive EvalOrder where
  | leftToRight
  | rightToLeft
deriving DecidableEq

/-- The two arguments of one call, both taken from the reader. -/
def EvalOrder.args {α β : Type} (order : EvalOrder) (x : Reader α) (y : Reader β) :
    Reader (α × β) :=
  match order with
  | .leftToRight => do
    let a ← x
    let b ← y
    return (a, b)
  | .rightToLeft => do
    let b ← y
    let a ← x
    return (a, b)

namespace Reader

/-- `fromU64(u64())` -/
def ident {tag : IdTag} : Reader (UniqueValue tag) := do
  let v ← u64
  return .fromU64 v

def policy : Reader Policy := do
  let kind ← readEnum RestartKind 6
  let maxRestarts ← u32
  let maxRecoverySeconds ← u32
  let carryProgressForward ← flag
  let carryCheckpoint ← flag
  let completionKind ← readEnum CompletionKind 3
  let requiredUnits ← u32
  let requireDurableArtifact ← flag
  let allowZeroWorkCompletion ← flag
  let eligibility ← readEnum MigrationEligibility 2
  let requireCheckpoint ← flag
  let requireQuiescence ← flag
  let allowLossy ← flag
  let allowed ← flag
  let requireDurableState ← flag
  let maxSuspendedSeconds ← u32
  let releaseResourcesWhileSuspended ← flag
  let cancelRace ← readEnum CancelRaceSemantics 1
  let generation ← ident
  return {
    restart := ⟨kind, maxRestarts, maxRecoverySeconds, carryProgressForward, carryCheckpoint⟩
    completion := ⟨completionKind, requiredUnits, requireDurableArtifact, allowZeroWorkCompletion⟩
    migration := ⟨eligibility, requireCheckpoint, requireQuiescence, allowLossy⟩
    suspension :=
      ⟨allowed, requireDurableState, maxSuspendedSeconds, releaseResourcesWhileSuspended⟩
    cancelRace := cancelRace
    generation := generation }

def requirement : Reader ResourceRequirement := do
  let kind ← readEnum ResourceKind 16
  let level ← readEnum NeedLevel 3
  let minValue ← f64
  let maxValue ← f64
  if !minValue.isFinite || !maxValue.isFinite || minValue.lt {} then reject
  else
    let spec ← str
    return ⟨kind, level, minValue, maxValue, spec⟩

def binding : Reader ResourceBinding := do
  let kind ← readEnum ResourceKind 16
  let amount ← f64
  if !amount.isFinite || amount.lt {} then reject
  else
    let qualifier ← str
    return ⟨kind, amount, qualifier⟩

def grant : Reader ResourceGrant := do
  let contractId ← ident
  let contractGeneration ← ident
  let status ← readEnum GrantStatus 5
  let released ← flag
  let bindings ← list binding
  return ⟨contractId, contractGeneration, status, bindings, released⟩

def contract (order : EvalOrder) : Reader ResourceContract := do
  let (cid, generation) ← order.args ident ident
  let reqs ← list requirement
  let grant ← grant
  return ⟨cid, generation, reqs, grant⟩

def dependencyDef : Reader DependencyDef := do
  let dependsOn ← ident
  let requirement ← readEnum DependencyRequirement 1
  let readyWhen ← readEnum DependencyReady 2
  let artifactKey ← str
  return ⟨dependsOn, requirement, readyWhen, artifactKey⟩

def dependencyState : Reader DependencyState := do
  let status ← readEnum DependencyStatus 4
  let observedGeneration ← ident
  let detail ← str
  return ⟨status, observedGeneration, detail⟩

/-- The states are written over the default ones of the definitions;
`states_.at(i)` past the end throws inside a `noexcept` function. -/
def dependencyStates (i : ℕ) : ℕ → List DependencyState → Reader (List DependencyState)
  | 0, states => return states
  | n + 1, states => do
    let s ← dependencyState
    if i < states.length then dependencyStates (i + 1) n (states.set i s)
    else fail .terminated

def dependencies (order : EvalOrder) : Reader DependencySet := do
  let (sid, gen) ← order.args ident ident
  let defs ← list dependencyDef
  let ns ← u32
  let states ← dependencyStates 0 ns.toNat (.replicate defs.length {})
  return ⟨sid, gen, defs, states⟩

def priority : Reader Priority := do
  let cls ← ident
  let p := Priority.setBase {} cls .normal 0
  let gen ← ident
  let baseTier ← readEnum PriorityTier 5
  let baseV ← i64
  let promo ← i64
  let starved ← flag
  let preemptible ← flag
  let protectedFlag ← flag
  return { p with
    gen := gen, baseTier := baseTier, baseValue := baseV.toInt32, promotion := promo.toInt32
    starved := starved, preemptible := preemptible, protectedFlag := protectedFlag }

def progress : Reader Progress := do
  let completed ← u64
  let totalKind ← readEnum TotalKind 1
  let total ← u64
  let checkpointed ← u64
  let provenance ← readEnum ProgressProvenance 3
  let lastAuthoritativeGeneration ← u64
  let monotonic ← flag
  return ⟨completed, totalKind, total, checkpointed, provenance, lastAuthoritativeGeneration,
    monotonic⟩

def handle : Reader ExecutionHandle := do
  let worker ← ident
  let boot ← ident
  let attemptGeneration ← u64
  let intent ← str
  return ⟨worker, boot, attemptGeneration, intent⟩

def episode : Reader Episode := do
  let eid ← ident
  let generation ← ident
  let state ← readEnum EpisodeState 9
  let owner ← ident
  let ownerGeneration ← ident
  let worker ← ident
  let boot ← ident
  let handle ← handle
  let restartGeneration ← ident
  let recoveryGeneration ← ident
  let checkpoint ← ident
  let checkpointGeneration ← ident
  let migrationId ← ident
  let migrationGeneration ← ident
  let progress ← progress
  let intent ← str
  let authoritative ← flag
  let failed ← flag
  let cancelled ← flag
  let completed ← flag
  let workerLost ← flag
  return ⟨eid, generation, state, owner, ownerGeneration, worker, boot, handle,
    restartGeneration, recoveryGeneration, checkpoint, checkpointGeneration, migrationId,
    migrationGeneration, progress, intent, authoritative, failed, cancelled, completed,
    workerLost⟩

def transitionRecord : Reader TransitionRecord := do
  let fromState ← readEnum WorkloadState 25
  let toState ← readEnum WorkloadState 25
  let generation ← ident
  let timestampMs ← u64
  let reason ← str
  let outcome ← readEnum Outcome 36
  return ⟨fromState, toState, generation, timestampMs, reason, outcome⟩

/-- The fields of a workload, in the order of `encode`. -/
def workload (order : EvalOrder) : Reader Workload := do
  let wid ← ident
  let generation ← ident
  let revision ← ident
  let state ← readEnum WorkloadState 25
  let name ← str
  let intent ← str
  let policy ← policy
  let contract ← contract order
  let deps ← dependencies order
  let priority ← priority
  let progress ← progress
  let owner ← ident
  let ownerGeneration ← ident
  let epoch ← ident
  let restartCount ← u32
  let restartGen ← ident
  let migrationId ← ident
  let migrationGen ← ident
  let completionGen ← ident
  let cancellationRequested ← flag
  let cancelledFinal ← flag
  let cancellationWasRejected ← flag
  let lastRestartReason ← str
  let lastSourceEpisode ← ident
  let episodes ← list episode
  let history ← list transitionRecord
  return {
    id := wid, generation := generation, revision := revision, state := state, name := name
    intent := intent, policy := policy, contract := contract, deps := deps
    priority := priority, progress := progress, owner := owner
    ownerGeneration := ownerGeneration, epoch := epoch, restartCount := restartCount
    restartGen := restartGen, migrationId := migrationId, migrationGen := migrationGen
    completionGen := completionGen, cancellationRequested := cancellationRequested
    cancelledFinal := cancelledFinal, cancellationWasRejected := cancellationWasRejected
    lastRestartReason := lastRestartReason, lastSourceEpisode := lastSourceEpisode
    episodes := episodes, history := history }

end Reader

/-- `Workload::decode`: trailing bytes and impossible identities are rejected. -/
def Workload.decode (order : EvalOrder) : Reader Workload := do
  let w ← Reader.workload order
  let rest ← get
  if !rest.isEmpty then .reject
  else if !w.id.valid || w.generation.toU64 == 0 || w.revision.toU64 == 0 then .reject
  else return w

/-! ### The frame -/

def kPersistenceFormatVersion : UInt32 := 1

def kPersistenceMagic : UInt32 := 0x57464252

/-- Magic, version, length, payload and checksum. -/
def Writer.frame (payload : List UInt8) : List UInt8 := List.flatten [
  u32 kPersistenceMagic, u32 kPersistenceFormatVersion, u64 (.ofNat payload.length), payload,
  u64 (fnv1a64 payload)]

def encodeWorkload (w : Workload) : List UInt8 := Writer.frame w.encode

/-- The payload of a frame, if its checksum is right. -/
def Reader.frameBody (payloadLen : UInt64) : Reader (List UInt8) := do
  need payloadLen.toNat (.returned .rejectUnknown)
  let payload ← raw payloadLen.toNat
  let stored ← u64
  if stored ≠ fnv1a64 payload then reject else return payload

/-- The payload of a frame whose magic and version are right as well. -/
def Reader.frame : Reader (List UInt8) := do
  let magic ← u32
  if magic ≠ kPersistenceMagic then reject
  else
    let version ← u32
    if version ≠ kPersistenceFormatVersion then reject
    else
      let payloadLen ← u64
      frameBody payloadLen

/-- What `decodeWorkload` returns, with the status it sets; `none` when the
process is terminated. -/
def report {α : Type} (r : Except DecodeError (Workload × α)) : Option (Outcome × Workload) :=
  match r with
  | .ok (w, _) => some (.allow, w)
  | .error (.codecError _) => some (.rejectUnknown, {})
  | .error (.returned status) => some (status, {})
  | .error .terminated => none

def decodeWorkload (order : EvalOrder) (data : List UInt8) : Option (Outcome × Workload) :=
  report do
    let (payload, _) ← Reader.frame data
    Workload.decode order payload

/-! ### Stores -/

structure LoadResult where
  workload : Option Workload := none
  outcome : Outcome := .unknown
  error : Text := []

/-- The narrow persistence interface. -/
class StateStore (σ : Type) where
  save : σ → Workload → Outcome × σ
  /-- `none` when the process is terminated while decoding -/
  load : σ → WorkloadId → Option LoadResult
  listIds : σ → List WorkloadId
  remove : σ → WorkloadId → Bool × σ

/-- Records in memory, in the order they were first saved. -/
structure MemoryStateStore (order : EvalOrder) where
  records : List (WorkloadId × List UInt8) := []

namespace MemoryStateStore

open FirstMatch

variable {order : EvalOrder}

def save (s : MemoryStateStore order) (w : Workload) : Outcome × MemoryStateStore order :=
  if s.records.any (·.1 == w.id) then
    (.allow, ⟨modifyFirst (·.1 == w.id) (fun p => (p.1, encodeWorkload w)) s.records⟩)
  else (.allow, ⟨s.records ++ [(w.id, encodeWorkload w)]⟩)

def load (s : MemoryStateStore order) (id : WorkloadId) : Option LoadResult :=
  match s.records.find? (·.1 == id) with
  | none => some { outcome := .rejectWorkloadNotFound, error := text "no such workload" }
  | some (_, record) => do
    let (status, w) ← decodeWorkload order record
    if isAllow status then return { workload := some w, outcome := .allow }
    else return { outcome := status, error := text "corrupt record" }

def listIds (s : MemoryStateStore order) : List WorkloadId := s.records.map (·.1)

def remove (s : MemoryStateStore order) (id : WorkloadId) : Bool × MemoryStateStore order :=
  (s.records.any (·.1 == id), ⟨s.records.eraseP (·.1 == id)⟩)

instance : StateStore (MemoryStateStore order) := ⟨save, load, listIds, remove⟩

end MemoryStateStore

end WorkloadFabric
