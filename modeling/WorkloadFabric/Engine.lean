/-
The workload engine: registration and the fenced lifecycle calls on registered
workloads, each persisted when it is accepted.

Every call that names a workload has the same shape (`withWorkload`): look the
workload up, mutate it in place, persist it if the outcome is ALLOW, and hand
back the generation that the next fenced call has to present.
-/
import WorkloadFabric.Persistence

namespace WorkloadFabric

structure EngineResult where
  outcome : Outcome := .unknown
  episodeId : Option ExecutionEpisodeId := none
  workloadGeneration : WorkloadGeneration := {}
  explanation : Option Explanation := none
deriving DecidableEq

structure WorkloadEngine (σ : Type) where
  workloads : Std.TreeMap WorkloadId Workload := {}
  store : Option σ := none
  episodeCounter : UInt64 := 1000

namespace WorkloadEngine

variable {σ : Type} [StateStore σ]

/-! ### Registration -/

/-- `exists` -/
def isRegistered (e : WorkloadEngine σ) (id : WorkloadId) : Bool := e.workloads.contains id

def get (e : WorkloadEngine σ) (id : WorkloadId) : Option Workload := e.workloads[id]?

/-- The outcome of `save` is ignored. -/
def persist (e : WorkloadEngine σ) (w : Workload) : WorkloadEngine σ :=
  { e with store := e.store.map fun s => (StateStore.save s w).2 }

def create (e : WorkloadEngine σ) (id : WorkloadId) (name intent : Text) (policy : Policy) :
    EngineResult × WorkloadEngine σ :=
  match e.get id with
  | some _ => ({ outcome := .rejectDuplicateWorkload }, e)
  | none =>
    let w := { Workload.create id name intent with policy := policy }
    ({ outcome := .allow, workloadGeneration := .fromU64 1 },
      { e with workloads := e.workloads.insert id w }.persist w)

/-! ### Calls on a registered workload -/

/-- The common shape of the lifecycle calls. -/
def withWorkload (e : WorkloadEngine σ) (id : WorkloadId) (mutate : Workload → Effect) :
    EngineResult × WorkloadEngine σ :=
  match e.get id with
  | none => ({ outcome := .rejectWorkloadNotFound }, e)
  | some w =>
    let a := mutate w
    let e := { e with workloads := e.workloads.insert id a.workload }
    ({ outcome := a.outcome, workloadGeneration := a.workload.generation },
      if isAllow a.outcome then e.persist a.workload else e)

/-- The result carries the generation from before the transition. -/
def validate (e : WorkloadEngine σ) (id : WorkloadId) : EngineResult × WorkloadEngine σ :=
  match e.get id with
  | none => ({ outcome := .rejectWorkloadNotFound }, e)
  | some w =>
    let (r, e) := e.withWorkload id fun w =>
      w.transition .validating w.generation (text "validate") none
    ({ r with workloadGeneration := w.generation }, e)

def setPolicy (e : WorkloadEngine σ) (id : WorkloadId) (policy : Policy) :
    EngineResult × WorkloadEngine σ :=
  e.withWorkload id fun w => ⟨.allow, { w with policy := policy }, none⟩

def addDependency (e : WorkloadEngine σ) (id : WorkloadId) (d : DependencyDef) :
    EngineResult × WorkloadEngine σ :=
  e.withWorkload id fun w => ⟨(w.deps.define d).1, { w with deps := (w.deps.define d).2 }, none⟩

def setDependencyStatus (e : WorkloadEngine σ) (id : WorkloadId) (index : ℕ)
    (status : DependencyStatus) (observed : DependencyGeneration) :
    EngineResult × WorkloadEngine σ :=
  e.withWorkload id fun w =>
    ⟨(w.deps.setStatus index status observed).1,
      { w with deps := (w.deps.setStatus index status observed).2 }, none⟩

def addResourceRequirement (e : WorkloadEngine σ) (id : WorkloadId) (req : ResourceRequirement) :
    EngineResult × WorkloadEngine σ :=
  e.withWorkload id fun w =>
    ⟨(w.contract.add req).1, { w with contract := (w.contract.add req).2 }, none⟩

def applyGrant (e : WorkloadEngine σ) (id : WorkloadId) (grant : ResourceGrant) :
    EngineResult × WorkloadEngine σ :=
  e.withWorkload id fun w =>
    ⟨(w.contract.applyGrant grant).1, { w with contract := (w.contract.applyGrant grant).2 }, none⟩

def settle (e : WorkloadEngine σ) (id : WorkloadId) : EngineResult × WorkloadEngine σ :=
  e.withWorkload id fun w => w.settle w.generation none

/-- The episode id is drawn before the workload decides; only an accepted
episode's id is handed back. -/
def startEpisode (e : WorkloadEngine σ) (id : WorkloadId) (owner : OwnerId)
    (ownerGen : OwnerGeneration) : EngineResult × WorkloadEngine σ :=
  match e.get id with
  | none => ({ outcome := .rejectWorkloadNotFound }, e)
  | some _ =>
    let ep : ExecutionEpisodeId := .fromU64 e.episodeCounter
    let (r, e) := { e with episodeCounter := e.episodeCounter + 1 }.withWorkload id fun w =>
      w.startEpisode ep owner ownerGen true none
    ({ r with episodeId := if isAllow r.outcome then some ep else none }, e)

def admitDispatch (e : WorkloadEngine σ) (id : WorkloadId) (episode : ExecutionEpisodeId)
    (worker : WorkerId) (boot : WorkerBootId) : EngineResult × WorkloadEngine σ :=
  e.withWorkload id fun w => w.admitDispatch episode worker boot none

def progress (e : WorkloadEngine σ) (id : WorkloadId) (episode : ExecutionEpisodeId)
    (epGen : ExecutionEpisodeGeneration) (delta : UInt64) (durable : Bool) :
    EngineResult × WorkloadEngine σ :=
  e.withWorkload id fun w => w.reportProgress episode epGen delta durable none

def episodeCompleted (e : WorkloadEngine σ) (id : WorkloadId) (episode : ExecutionEpisodeId) :
    EngineResult × WorkloadEngine σ :=
  e.withWorkload id fun w => w.markEpisodeCompleted episode none

def commitCompletion (e : WorkloadEngine σ) (id : WorkloadId) (expecting : WorkloadGeneration) :
    EngineResult × WorkloadEngine σ :=
  e.withWorkload id fun w => w.commitCompletion expecting none

def onWorkerLost (e : WorkloadEngine σ) (id : WorkloadId) (worker : WorkerId)
    (boot : WorkerBootId) (expecting : WorkloadGeneration) : EngineResult × WorkloadEngine σ :=
  e.withWorkload id fun w => w.onWorkerLost worker boot expecting none

def planRestart (e : WorkloadEngine σ) (id : WorkloadId) (reason : Text)
    (expecting : WorkloadGeneration) : EngineResult × WorkloadEngine σ :=
  e.withWorkload id fun w => w.planRestart expecting reason none

def requestSuspend (e : WorkloadEngine σ) (id : WorkloadId) (expecting : WorkloadGeneration) :
    EngineResult × WorkloadEngine σ :=
  e.withWorkload id fun w => w.requestSuspend expecting none

def completeSuspend (e : WorkloadEngine σ) (id : WorkloadId) (expecting : WorkloadGeneration) :
    EngineResult × WorkloadEngine σ :=
  e.withWorkload id fun w => w.completeSuspend expecting none

def requestResume (e : WorkloadEngine σ) (id : WorkloadId) (expecting : WorkloadGeneration) :
    EngineResult × WorkloadEngine σ :=
  e.withWorkload id fun w => w.requestResume expecting none

def requestMigration (e : WorkloadEngine σ) (id : WorkloadId) (expecting : WorkloadGeneration) :
    EngineResult × WorkloadEngine σ :=
  e.withWorkload id fun w => w.requestMigration expecting none

def commitMigration (e : WorkloadEngine σ) (id : WorkloadId) (expecting : WorkloadGeneration)
    (targetWorker : WorkerId) (targetBoot : WorkerBootId) : EngineResult × WorkloadEngine σ :=
  e.withWorkload id fun w => w.commitMigration expecting targetWorker targetBoot none

def cancel (e : WorkloadEngine σ) (id : WorkloadId) (expecting : WorkloadGeneration) :
    EngineResult × WorkloadEngine σ :=
  e.withWorkload id fun w => w.requestCancellationWorkloadScope expecting none

def completeCancellation (e : WorkloadEngine σ) (id : WorkloadId)
    (expecting : WorkloadGeneration) : EngineResult × WorkloadEngine σ :=
  e.withWorkload id fun w => w.completeCancellation expecting none

/-! ### Inspection -/

/-- A default workload when the id is not registered. -/
def snapshot (e : WorkloadEngine σ) (id : WorkloadId) : Workload := (e.get id).getD {}

def list (e : WorkloadEngine σ) : List WorkloadId := e.workloads.keys

def find (e : WorkloadEngine σ) (id : WorkloadId) : Option Workload := e.get id

end WorkloadEngine

end WorkloadFabric
