/-
The durable workload aggregate and its lifecycle operations.

Every operation is translated branch for branch.  An operation returns an
`Effect`: its outcome, the workload it leaves behind and what it wrote through
the optional `explain` argument (`none` is the null pointer; a branch that does
not mention `explain` leaves it alone).  All state changes go through
`guardedTransition`, which appends to the audit trail on acceptance and on every
rejection but a no-op.
-/
import WorkloadFabric.Policy
import WorkloadFabric.Resource
import WorkloadFabric.FirstMatch

namespace WorkloadFabric

open FirstMatch

/-! ### The data of a workload -/

structure ExecutionHandle where
  worker : WorkerId := {}
  boot : WorkerBootId := {}
  attemptGeneration : UInt64 := 0
  intent : Text := []
deriving DecidableEq

/-- One execution episode. -/
structure Episode where
  id : ExecutionEpisodeId := {}
  generation : ExecutionEpisodeGeneration := {}
  state : EpisodeState := .pending
  owner : OwnerId := {}
  ownerGeneration : OwnerGeneration := {}
  worker : WorkerId := {}
  boot : WorkerBootId := {}
  handle : ExecutionHandle := {}
  restartGeneration : RestartGeneration := {}
  recoveryGeneration : RecoveryGeneration := {}
  checkpoint : CheckpointRef := {}
  checkpointGeneration : CheckpointGeneration := {}
  migrationId : MigrationId := {}
  migrationGeneration : MigrationGeneration := {}
  progress : Progress := {}
  intent : Text := []
  authoritative : Bool := true
  failed : Bool := false
  cancelled : Bool := false
  completed : Bool := false
  workerLost : Bool := false
deriving DecidableEq

/-- A durable audit entry. -/
structure TransitionRecord where
  fromState : WorkloadState
  toState : WorkloadState
  generation : WorkloadGeneration
  timestampMs : UInt64
  reason : Text
  outcome : Outcome := .allow
deriving DecidableEq

structure Explanation where
  outcome : Outcome := .unknown
  fromState : WorkloadState := .created
  toState : WorkloadState := .created
  workloadGeneration : WorkloadGeneration := {}
  detail : Text := []
deriving DecidableEq

structure Workload where
  id : WorkloadId := {}
  generation : WorkloadGeneration := {}
  revision : WorkloadRevision := {}
  state : WorkloadState := .created
  name : Text := []
  intent : Text := []
  policy : Policy := {}
  contract : ResourceContract := {}
  deps : DependencySet := {}
  priority : Priority := {}
  progress : Progress := {}
  owner : OwnerId := {}
  ownerGeneration : OwnerGeneration := {}
  epoch : CoordinatorEpoch := {}
  restartCount : UInt32 := 0
  restartGen : RestartGeneration := {}
  migrationId : MigrationId := {}
  migrationGen : MigrationGeneration := {}
  completionGen : CompletionGeneration := {}
  cancellationRequested : Bool := false
  cancelledFinal : Bool := false
  cancellationWasRejected : Bool := false
  lastRestartReason : Text := []
  lastSourceEpisode : ExecutionEpisodeId := {}
  episodeCounterForMigration : UInt64 := 2000
  episodes : List Episode := []
  history : List TransitionRecord := []
deriving DecidableEq

/-- What an operation returns, leaves behind and explains. -/
structure Effect where
  outcome : Outcome
  workload : Workload
  explain : Option Explanation

/-- `if (!isAllow(a)) return a;` and on with the rest. -/
def Effect.andThen (e : Effect) (k : Workload → Option Explanation → Effect) : Effect :=
  if isAllow e.outcome then k e.workload e.explain else e

namespace Workload

def create (id : WorkloadId) (name intent : Text) : Workload :=
  { id := id, name := name, intent := intent, generation := .fromU64 1,
    revision := .fromU64 1, epoch := .fromU64 1, state := .created,
    policy := { generation := .fromU64 1 } }

def contractSatisfied (w : Workload) : Bool := w.contract.satisfied

def depsReady (w : Workload) : Bool := w.deps.ready

/-! ### Guarded transitions -/

/-- Append an audit entry and advance the revision. -/
def record (w : Workload) (fromState toState : WorkloadState) (reason : Text)
    (outcome : Outcome) : Workload :=
  { w with
    history := w.history ++ [{
      fromState := fromState, toState := toState, generation := w.generation,
      timestampMs := 0, reason := reason, outcome := outcome }]
    revision := next w.revision }

/-- The states from which completion counts as zero-work completion. -/
def zeroWork (s : WorkloadState) : Bool :=
  s == .created || s == .validating || s == .blocked ||
    s == .waitingForDependencies || s == .waitingForResources

def guardedTransition (w : Workload) (toState : WorkloadState) (expecting : WorkloadGeneration)
    (reason : Text) (explain : Option Explanation) : Effect :=
  if expecting ≠ w.generation then
    -- even a stale request leaves a record
    { outcome := .rejectStaleWorkloadGeneration
      workload := w.record w.state toState reason .rejectStaleWorkloadGeneration
      explain := explain.map fun e => { e with
        outcome := .rejectStaleWorkloadGeneration, fromState := w.state, toState := toState
        workloadGeneration := w.generation
        detail := text "stale generation " ++ decimal expecting.toU64.toNat
          ++ text " (current " ++ decimal w.generation.toU64.toNat ++ text ")" } }
  else if w.state = toState then
    -- asking for the current state is allowed and leaves no record
    { outcome := .allow
      workload := w
      explain := explain.map fun e => { e with
        outcome := .allow, fromState := w.state, toState := toState
        workloadGeneration := w.generation } }
  else if isTerminal w.state then
    { outcome := .rejectTerminal
      workload := w.record w.state toState reason .rejectTerminal
      explain := explain.map fun e => { e with
        outcome := .rejectTerminal, fromState := w.state, toState := toState
        detail := text "terminal state " ++ workloadStateName w.state
          ++ text " cannot reopen" } }
  else if !canTransition w.state toState then
    { outcome := .rejectInvalidTransition
      workload := w.record w.state toState reason .rejectInvalidTransition
      explain := explain.map fun e => { e with
        outcome := .rejectInvalidTransition, fromState := w.state, toState := toState
        workloadGeneration := w.generation
        detail := text "no edge " ++ workloadStateName w.state ++ text " -> "
          ++ workloadStateName toState } }
  -- checked last: the edge CREATED -> COMPLETED is in the table
  else if toState = .completed ∧ w.policy.completion.allowZeroWorkCompletion = false
      ∧ zeroWork w.state = true then
    { outcome := .rejectCompletionPolicy
      workload := w.record w.state toState reason .rejectCompletionPolicy
      explain := explain.map fun e => { e with
        outcome := .rejectCompletionPolicy, fromState := w.state, toState := toState
        detail := text "zero-work completion not allowed by policy" } }
  else
    { outcome := .allow
      workload := { w with state := toState }.record w.state toState reason .allow
      explain := explain.map fun e => { e with
        outcome := .allow, fromState := w.state, toState := toState
        workloadGeneration := w.generation, detail := reason } }

def transition (w : Workload) (toState : WorkloadState) (expecting : WorkloadGeneration)
    (reason : Text) (explain : Option Explanation) : Effect :=
  w.guardedTransition toState expecting reason explain

/-- Where the gates send the workload; `none` when it may no longer wait. -/
def settleTarget (w : Workload) : Option WorkloadState :=
  if !w.depsReady then
    if isTerminal w.state || isCancelling w.state then none else some .waitingForDependencies
  else if !w.contractSatisfied then
    if isTerminal w.state || isCancelling w.state then none else some .waitingForResources
  else some .ready

/-- Settle into the waiting or runnable state the gates call for. -/
def settle (w : Workload) (expecting : WorkloadGeneration) (explain : Option Explanation) :
    Effect :=
  if expecting ≠ w.generation then ⟨.rejectStaleWorkloadGeneration, w, explain⟩
  else
    match w.settleTarget with
    -- no record is left here
    | none => ⟨.rejectTerminal, w, explain⟩
    | some target =>
      if w.state = target then ⟨.allow, w, explain⟩
      else w.guardedTransition target expecting (text "settle") explain

/-! ### Episodes -/

/-- The episode a search by id stops at. -/
def findEpisode (w : Workload) (id : ExecutionEpisodeId) : Option Episode :=
  w.episodes.find? (·.id == id)

/-- Write through the pointer such a search leaves. -/
def modifyEpisode (w : Workload) (id : ExecutionEpisodeId) (f : Episode → Episode) : Workload :=
  { w with episodes := modifyFirst (·.id == id) f w.episodes }

/-- The first authoritative episode, else the last one. -/
def currentEpisode (w : Workload) : Option Episode :=
  (w.episodes.find? (·.authoritative)).or w.episodes.getLast?

/-- Write through the pointer `currentEpisode` returns. -/
def modifyCurrent (w : Workload) (f : Episode → Episode) : Workload :=
  { w with
    episodes :=
      if w.episodes.any (·.authoritative) then modifyFirst (·.authoritative) f w.episodes
      else w.episodes.modifyLast f }

/-- `currentEpisodeId`: the invalid id when there is no episode. -/
def currentEpisodeId (w : Workload) : ExecutionEpisodeId :=
  match w.currentEpisode with
  | some e => e.id
  | none => {}

/-- No episode is authoritative any more. -/
def revokeAuthority (es : List Episode) : List Episode :=
  es.map fun e => { e with authoritative := false }

/-- The states a new episode may start from. -/
def resumeEligible (s : WorkloadState) : Bool :=
  s == .ready || s == .restartPending || s == .suspended || s == .preempted || s == .recovering

def admittedEpisode (w : Workload) (id : ExecutionEpisodeId) (owner : OwnerId)
    (ownerGen : OwnerGeneration) : Episode :=
  { id := id, generation := .fromU64 1, state := .admitted, owner := owner,
    ownerGeneration := ownerGen, intent := w.intent, authoritative := true,
    progress := w.progress }

/-- The new episode takes over authoritative progress advancement. -/
def beginEpisode (w : Workload) (id : ExecutionEpisodeId) (owner : OwnerId)
    (ownerGen : OwnerGeneration) (advanceGeneration : Bool) : Workload :=
  { w with
    episodes := revokeAuthority w.episodes ++ [w.admittedEpisode id owner ownerGen]
    generation := if advanceGeneration then next w.generation else w.generation }

def startEpisode (w : Workload) (id : ExecutionEpisodeId) (owner : OwnerId)
    (ownerGen : OwnerGeneration) (advanceGeneration : Bool) (explain : Option Explanation) :
    Effect :=
  if w.cancelledFinal || isCancelling w.state then
    { outcome := .rejectCancelled
      workload := w
      explain := explain.map fun e => { e with
        outcome := .rejectCancelled, fromState := w.state
        detail := text "workload cancelled; no new episodes" } }
  else if isTerminal w.state then ⟨.rejectTerminal, w, explain⟩
  else if !resumeEligible w.state then
    { outcome := .rejectEpisodeIneligible
      workload := w
      explain := explain.map fun e => { e with
        outcome := .rejectEpisodeIneligible, fromState := w.state
        detail := text "cannot start episode from " ++ workloadStateName w.state } }
  else
    -- every other eligible state goes to READY first, over an edge of its own
    let pre : Effect :=
      if w.state ≠ .ready then
        w.guardedTransition .ready w.generation (text "resume eligible") explain
      else ⟨.allow, w, explain⟩
    pre.andThen fun w explain =>
      (w.guardedTransition .starting w.generation (text "start episode") explain).andThen
        fun w explain => ⟨.allow, w.beginEpisode id owner ownerGen advanceGeneration, explain⟩

def bindWorker (worker : WorkerId) (boot : WorkerBootId) (e : Episode) : Episode :=
  { e with worker := worker, boot := boot, state := .running }

def admitDispatch (w : Workload) (episode : ExecutionEpisodeId) (worker : WorkerId)
    (boot : WorkerBootId) (explain : Option Explanation) : Effect :=
  match w.findEpisode episode with
  | none => ⟨.rejectEpisodeIneligible, w, explain⟩
  | some ep =>
    -- authority is not looked at, nor is the state of the workload
    if ep.state ≠ .admitted ∧ ep.state ≠ .preempted then ⟨.rejectEpisodeIneligible, w, explain⟩
    else
      let w := w.modifyEpisode episode (bindWorker worker boot)
      if w.state = .starting then
        w.guardedTransition .running w.generation (text "dispatch") explain
      else ⟨.allow, w, explain⟩

/-- Credit a report to the episode's own counters; this addition is unguarded. -/
def creditEpisode (delta : UInt64) (durable : Bool) (e : Episode) : Episode :=
  let completed := e.progress.completed + delta
  { e with
    progress := { e.progress with
      completed := completed
      checkpointed := if durable then completed else e.progress.checkpointed } }

def reportProgress (w : Workload) (episode : ExecutionEpisodeId)
    (episodeGen : ExecutionEpisodeGeneration) (delta : UInt64) (durable : Bool)
    (explain : Option Explanation) : Effect :=
  match w.findEpisode episode with
  | none => ⟨.rejectEpisodeIneligible, w, explain⟩
  | some ep =>
    if episodeGen ≠ ep.generation then
      { outcome := .rejectStaleEpisode
        workload := w
        explain := explain.map fun e => { e with
          outcome := .rejectStaleEpisode, detail := text "stale episode generation" } }
    else if !ep.authoritative then
      { outcome := .rejectEpisodeIneligible
        workload := w
        explain := explain.map fun e => { e with
          outcome := .rejectEpisodeIneligible, detail := text "episode not authoritative" } }
    else if w.cancelledFinal || isCancelling w.state then ⟨.rejectCancelled, w, explain⟩
    else if isTerminal w.state then ⟨.rejectTerminal, w, explain⟩
    -- the sum is taken modulo 2 ^ 64; a delta that wraps is left to `advance`
    else if w.progress.totalKind = .known ∧ w.progress.total < w.progress.completed + delta then
      ⟨.rejectProgressDoubleCount, w, explain⟩
    else
      match w.progress.advance delta durable with
      | none => ⟨.rejectUnknown, w, explain⟩
      | some progress =>
        ⟨.allow, { w with progress := progress }.modifyEpisode episode
          (creditEpisode delta durable), explain⟩

/-! ### Completion and cancellation

The functions whose names start with `claim`, `count`, `flag` and `take` are
what an operation writes before it asks for its transition. -/

/-- Whether the completion policy's criterion holds. -/
def completionCriterion (w : Workload) : Bool :=
  match w.policy.completion.kind with
  | .singleResult => w.currentEpisode.any (·.completed)
  | .allPhases => w.currentEpisode.any (·.completed) && w.progress.complete
  | .requiredUnits =>
    w.progress.totalKind == .known && decide (w.progress.total ≤ w.progress.completed)
  | .explicitFinalize => false

def claimCompletion (w : Workload) : Workload :=
  { w.modifyCurrent (fun e => { e with completed := true }) with
    cancellationRequested := false
    cancellationWasRejected := true
    completionGen := next w.completionGen }

def commitCompletion (w : Workload) (expecting : WorkloadGeneration)
    (explain : Option Explanation) : Effect :=
  if expecting ≠ w.generation then ⟨.rejectStaleWorkloadGeneration, w, explain⟩
  else if isTerminal w.state then ⟨.rejectTerminal, w, explain⟩
  else if w.cancellationRequested = true ∧ w.policy.cancelRace = .cancelFirst then
    { outcome := .rejectCancelled
      workload := w
      explain := explain.map fun e => { e with
        outcome := .rejectCancelled
        detail := text "cancellation requested before completion; CANCEL_FIRST" } }
  else if !w.completionCriterion then
    { outcome := .rejectCompletionPolicy
      workload := w
      explain := explain.map fun e => { e with
        outcome := .rejectCompletionPolicy, detail := text "completion criteria not met" } }
  else
    -- what `claimCompletion` wrote is not undone where the transition is refused
    (w.claimCompletion.guardedTransition .completing expecting
      (text "completion criteria met") explain).andThen fun w explain =>
        w.guardedTransition .completed w.generation (text "workload completed") explain

def countCompletion (w : Workload) : Workload :=
  { w with completionGen := next w.completionGen }

def finalize (w : Workload) (expecting : WorkloadGeneration) (explain : Option Explanation) :
    Effect :=
  if expecting ≠ w.generation then ⟨.rejectStaleWorkloadGeneration, w, explain⟩
  else if w.policy.completion.kind ≠ .explicitFinalize then
    ⟨.rejectCompletionPolicy, w, explain⟩
  else if isTerminal w.state then ⟨.rejectTerminal, w, explain⟩
  else
    -- counted before the transition is asked for
    let w := w.countCompletion
    (w.guardedTransition .completing expecting (text "explicit finalize") explain).andThen
      fun w explain => w.guardedTransition .completed w.generation (text "finalized") explain

def flagCancellation (w : Workload) : Workload := { w with cancellationRequested := true }

def requestCancellationWorkloadScope (w : Workload) (expecting : WorkloadGeneration)
    (explain : Option Explanation) : Effect :=
  if expecting ≠ w.generation then ⟨.rejectStaleWorkloadGeneration, w, explain⟩
  else if isTerminal w.state then ⟨.rejectTerminal, w, explain⟩
  else
    -- the flag stays up whatever comes of the transition
    let w := w.flagCancellation
    if w.state = .cancellationRequested ∨ w.state = .cancelling then ⟨.allow, w, explain⟩
    -- unreachable: terminal states were turned away above
    else if w.state = .completed ∨ w.state = .cancelled ∨ w.state = .failedTerminal
        ∨ w.state = .superseded then ⟨.rejectTerminal, w, explain⟩
    else
      w.guardedTransition .cancellationRequested expecting (text "cancellation requested") explain

def flagCancelledFinal (w : Workload) : Workload :=
  { w with cancelledFinal := true, cancellationRequested := true }

def completeCancellation (w : Workload) (expecting : WorkloadGeneration)
    (explain : Option Explanation) : Effect :=
  if expecting ≠ w.generation then ⟨.rejectStaleWorkloadGeneration, w, explain⟩
  else if w.state = .cancelled then ⟨.allow, { w with cancelledFinal := true }, explain⟩
  else if isTerminal w.state then ⟨.rejectTerminal, w, explain⟩
  else
    -- CANCELLATION_REQUESTED may be a no-op, the other two links are edges
    let w := w.flagCancelledFinal
    (w.guardedTransition .cancellationRequested expecting (text "cancelling") explain).andThen
      fun w explain =>
        (w.guardedTransition .cancelling w.generation (text "cancelling") explain).andThen
          fun w explain =>
            w.guardedTransition .cancelled w.generation (text "cancelled") explain

/-! ### Loss and restart -/

def loseWorker (e : Episode) : Episode := { e with workerLost := true, state := .lost }

def onWorkerLost (w : Workload) (worker : WorkerId) (boot : WorkerBootId)
    (expecting : WorkloadGeneration) (explain : Option Explanation) : Effect :=
  if expecting ≠ w.generation then ⟨.rejectStaleWorkloadGeneration, w, explain⟩
  else
    match w.currentEpisode with
    | none => ⟨.rejectEpisodeIneligible, w, explain⟩
    | some ep =>
      -- only the currently recorded boot can be lost
      if ep.worker ≠ worker ∨ ep.boot ≠ boot then
        { outcome := .rejectStaleBoot
          workload := w
          explain := explain.map fun e => { e with
            outcome := .rejectStaleBoot
            detail := text "worker/boot mismatch for current episode" } }
      else
        let w := w.modifyCurrent loseWorker
        if w.state = .running ∨ w.state = .degraded then
          w.guardedTransition .recovering expecting (text "worker lost") explain
        else ⟨.allow, w, explain⟩

/-- The common shape of `markEpisodeCompleted` and `markEpisodeFailed`. -/
def markEpisode (w : Workload) (id : ExecutionEpisodeId) (f : Episode → Episode)
    (explain : Option Explanation) : Effect :=
  match w.findEpisode id with
  | some _ => ⟨.allow, w.modifyEpisode id f, explain⟩
  | none =>
    { outcome := .rejectEpisodeIneligible
      workload := w
      explain := explain.map fun e => { e with outcome := .rejectEpisodeIneligible } }

def completeEpisode (e : Episode) : Episode := { e with completed := true, state := .completed }

def failEpisode (e : Episode) : Episode := { e with failed := true, state := .failed }

def markEpisodeCompleted (w : Workload) (id : ExecutionEpisodeId)
    (explain : Option Explanation) : Effect :=
  w.markEpisode id completeEpisode explain

def markEpisodeFailed (w : Workload) (id : ExecutionEpisodeId)
    (explain : Option Explanation) : Effect :=
  w.markEpisode id failEpisode explain

/-- Whether the trigger class is allowed by the restart kind. -/
def restartClassAllowed (kind : RestartKind) (reason : Text) : Bool :=
  match kind with
  | .alwaysWithLimit => true
  | .onKnownFailure => reason != text "WORKER_LOSS"
  | .onWorkerLoss => reason == text "WORKER_LOSS"
  | .onInfrastructureFailure =>
    reason == text "INFRASTRUCTURE_LOSS" || reason == text "WORKER_LOSS"
  | .onAmbiguousExecution => reason == text "AMBIGUOUS_EXECUTION"
  | .never => false
  | .manualOnly => false

/-- One restart slot is taken. -/
def takeRestartSlot (w : Workload) (reason : Text) : Workload :=
  { w with
    restartCount := w.restartCount + 1
    restartGen := next w.restartGen
    lastRestartReason := reason
    lastSourceEpisode := match w.currentEpisode with
      | some e => e.id
      | none => w.lastSourceEpisode }

def planRestart (w : Workload) (expecting : WorkloadGeneration) (reason : Text)
    (explain : Option Explanation) : Effect :=
  if expecting ≠ w.generation then ⟨.rejectStaleWorkloadGeneration, w, explain⟩
  else if isTerminal w.state then
    { outcome := .rejectTerminal
      workload := w
      explain := explain.map fun e => { e with
        outcome := .rejectTerminal, fromState := w.state
        detail := text "terminal workload cannot restart" } }
  else if !restartClassAllowed w.policy.restart.kind reason
      || !restartAllowed w.restartCount w.policy.restart.maxRestarts then
    { outcome := .rejectRestartLimit
      workload := w
      explain := explain.map fun e => { e with
        outcome := .rejectRestartLimit, fromState := w.state
        detail := text "restart not allowed (count=" ++ decimal w.restartCount.toNat
          ++ text " max=" ++ decimal w.policy.restart.maxRestarts.toNat
          ++ text " kind=" ++ restartKindName w.policy.restart.kind ++ text ")" } }
  else
    -- the slot is taken before the transition is asked for
    let w := w.takeRestartSlot reason
    if w.state = .restartPending then ⟨.allow, w, explain⟩
    else w.guardedTransition .restartPending expecting (text "restart pending") explain

/-! ### Suspension and migration -/

def requestSuspend (w : Workload) (expecting : WorkloadGeneration)
    (explain : Option Explanation) : Effect :=
  if expecting ≠ w.generation then ⟨.rejectStaleWorkloadGeneration, w, explain⟩
  else if !w.policy.suspension.allowed then ⟨.rejectDegradedPolicy, w, explain⟩
  else if !isActivelyRunning w.state then
    { outcome := .rejectNotSuspended
      workload := w
      explain := explain.map fun e => { e with
        outcome := .rejectNotSuspended, detail := text "not in a suspendable state" } }
  -- unreachable: SUSPEND_REQUESTED is not actively running
  else if w.state = .suspendRequested then ⟨.allow, w, explain⟩
  else w.guardedTransition .suspendRequested expecting (text "suspend requested") explain

def suspendEpisode (e : Episode) : Episode := { e with state := .suspended, workerLost := false }

def completeSuspend (w : Workload) (expecting : WorkloadGeneration)
    (explain : Option Explanation) : Effect :=
  if expecting ≠ w.generation then ⟨.rejectStaleWorkloadGeneration, w, explain⟩
  else if w.state = .suspended then ⟨.allow, w, explain⟩
  else if w.state ≠ .suspendRequested ∧ w.state ≠ .suspending then
    ⟨.rejectNotResumable, w, explain⟩
  else
    let w := w.modifyCurrent suspendEpisode
    if w.state = .suspendRequested then
      (w.guardedTransition .suspending expecting (text "suspending") explain).andThen
        fun w explain => w.guardedTransition .suspended w.generation (text "suspended") explain
    else w.guardedTransition .suspended expecting (text "suspended") explain

def requestResume (w : Workload) (expecting : WorkloadGeneration)
    (explain : Option Explanation) : Effect :=
  if expecting ≠ w.generation then ⟨.rejectStaleWorkloadGeneration, w, explain⟩
  else if w.state ≠ .suspended ∧ w.state ≠ .preempted then
    { outcome := .rejectNotSuspended
      workload := w
      explain := explain.map fun e => { e with
        outcome := .rejectNotSuspended
        detail := text "workload is not suspended or preempted" } }
  else w.guardedTransition .ready expecting (text "resume eligible") explain

def countMigration (w : Workload) : Workload :=
  { w with
    migrationId := .fromU64 (w.migrationId.toU64 + 1)
    migrationGen := next w.migrationGen }

def requestMigration (w : Workload) (expecting : WorkloadGeneration)
    (explain : Option Explanation) : Effect :=
  if expecting ≠ w.generation then ⟨.rejectStaleWorkloadGeneration, w, explain⟩
  else if w.policy.migration.eligibility = .none then
    { outcome := .rejectMigrationIneligible
      workload := w
      explain := explain.map fun e => { e with
        outcome := .rejectMigrationIneligible
        detail := text "migration not eligible per policy" } }
  else if !isActivelyRunning w.state && w.state != .migrationPending then
    ⟨.rejectMigrationIneligible, w, explain⟩
  else
    -- counted before the transition is asked for, and once more on every repetition
    let w := w.countMigration
    if w.state = .migrationPending then ⟨.allow, w, explain⟩
    -- unreachable: MIGRATING is not actively running
    else if w.state = .migrating then ⟨.allow, w, explain⟩
    else w.guardedTransition .migrationPending expecting (text "migration requested") explain

def targetEpisode (w : Workload) (targetWorker : WorkerId) (targetBoot : WorkerBootId) :
    Episode :=
  -- the id comes from a counter of the workload's own
  { id := .fromU64 w.episodeCounterForMigration, generation := .fromU64 1, state := .running,
    worker := targetWorker, boot := targetBoot, owner := w.owner,
    ownerGeneration := w.ownerGeneration, intent := w.intent, authoritative := true,
    progress := w.progress }

/-- The source episode loses authority, a new target episode becomes
authoritative, and the incarnation advances. -/
def handOver (w : Workload) (targetWorker : WorkerId) (targetBoot : WorkerBootId) : Workload :=
  { w with
    episodes := revokeAuthority w.episodes ++ [w.targetEpisode targetWorker targetBoot]
    episodeCounterForMigration := w.episodeCounterForMigration + 1
    generation := next w.generation }

def commitMigration (w : Workload) (expecting : WorkloadGeneration) (targetWorker : WorkerId)
    (targetBoot : WorkerBootId) (explain : Option Explanation) : Effect :=
  if expecting ≠ w.generation then ⟨.rejectStaleWorkloadGeneration, w, explain⟩
  else if w.state ≠ .migrationPending ∧ w.state ≠ .migrating then
    ⟨.rejectMigrationIneligible, w, explain⟩
  else
    let a : Effect :=
      if w.state = .migrationPending then
        w.guardedTransition .migrating expecting (text "migrating") explain
      else ⟨.allow, w, explain⟩
    a.andThen fun w explain =>
      let w := w.handOver targetWorker targetBoot
      -- under the new generation, which `handOver` has just advanced
      w.guardedTransition .running w.generation (text "migration committed") explain

/-! ### Explanations -/

/-- Why the workload is not READY. -/
def explainBlocked (w : Workload) : Explanation :=
  if !w.depsReady then
    { outcome := .blockedDependency
      fromState := w.state
      detail := match w.deps.firstUnmetRequired with
        | some i => text "required dependency[" ++ decimal i ++ text "] not satisfied"
        | none => text "required dependencies not satisfied" }
  else if !w.contractSatisfied then
    { outcome := .blockedResourceContract
      fromState := w.state
      detail := match w.contract.firstUnsatisfiedRequired with
        | some r => text "unmet resource " ++ resourceKindName r.kind
        | none => text "resource contract not satisfied" }
  else { outcome := .allow, fromState := w.state, detail := text "not blocked" }

/-- Whether a restart is allowed: only the limit is looked at. -/
def explainRestartAllowed (w : Workload) : Explanation :=
  { outcome :=
      if !restartAllowed w.restartCount w.policy.restart.maxRestarts then .rejectRestartLimit
      else .allow
    fromState := w.state
    detail := text "count=" ++ decimal w.restartCount.toNat ++ text " max="
      ++ decimal w.policy.restart.maxRestarts.toNat }

/-- Whether a migration is allowed: only the eligibility is looked at. -/
def explainMigrationAllowed (w : Workload) : Explanation :=
  if w.policy.migration.eligibility = .none then
    { outcome := .rejectMigrationIneligible
      fromState := w.state
      detail := text "eligibility=NONE" }
  else
    { outcome := .allow
      fromState := w.state
      detail := text "eligibility=" ++ migrationEligibilityName w.policy.migration.eligibility }

end Workload

end WorkloadFabric
