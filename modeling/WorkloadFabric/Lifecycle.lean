/-
The workload as a machine: operations, runs, and what one step can do.

`WorkloadOp` lists every mutation a workload can receive: its lifecycle
operations with their arguments, and the edits of policy, contract and
dependencies that the engine makes.  `Step w op o w'` says in closed form
how `op` can end on `w`; `apply_step` proves that the code does nothing else.
Invariants are proved by cases on `Step` and lifted to runs by
`run_induction`.
-/
import WorkloadFabric.Transition

namespace WorkloadFabric

/-- The mutations a workload can receive. -/
inductive WorkloadOp where
  | transition (toState : WorkloadState) (expecting : WorkloadGeneration) (reason : Text)
  | settle (expecting : WorkloadGeneration)
  | startEpisode (id : ExecutionEpisodeId) (owner : OwnerId) (ownerGen : OwnerGeneration)
      (advanceGeneration : Bool)
  | admitDispatch (episode : ExecutionEpisodeId) (worker : WorkerId) (boot : WorkerBootId)
  | reportProgress (episode : ExecutionEpisodeId) (episodeGen : ExecutionEpisodeGeneration)
      (delta : UInt64) (durable : Bool)
  | commitCompletion (expecting : WorkloadGeneration)
  | finalize (expecting : WorkloadGeneration)
  | requestCancellationWorkloadScope (expecting : WorkloadGeneration)
  | completeCancellation (expecting : WorkloadGeneration)
  | onWorkerLost (worker : WorkerId) (boot : WorkerBootId) (expecting : WorkloadGeneration)
  | markEpisodeCompleted (id : ExecutionEpisodeId)
  | markEpisodeFailed (id : ExecutionEpisodeId)
  | planRestart (expecting : WorkloadGeneration) (reason : Text)
  | requestSuspend (expecting : WorkloadGeneration)
  | completeSuspend (expecting : WorkloadGeneration)
  | requestResume (expecting : WorkloadGeneration)
  | requestMigration (expecting : WorkloadGeneration)
  | commitMigration (expecting : WorkloadGeneration) (targetWorker : WorkerId)
      (targetBoot : WorkerBootId)
  | setPolicy (policy : Policy)
  | define (d : DependencyDef)
  | setStatus (index : ℕ) (status : DependencyStatus) (observed : DependencyGeneration)
  | addRequirement (req : ResourceRequirement)
  | applyGrant (grant : ResourceGrant)
deriving DecidableEq

namespace Workload

/-- One operation on a workload. -/
def apply (w : Workload) (op : WorkloadOp) (ex : Option Explanation) : Effect :=
  match op with
  | .transition s g reason => w.transition s g reason ex
  | .settle g => w.settle g ex
  | .startEpisode id owner ownerGen adv => w.startEpisode id owner ownerGen adv ex
  | .admitDispatch episode worker boot => w.admitDispatch episode worker boot ex
  | .reportProgress episode gen delta durable => w.reportProgress episode gen delta durable ex
  | .commitCompletion g => w.commitCompletion g ex
  | .finalize g => w.finalize g ex
  | .requestCancellationWorkloadScope g => w.requestCancellationWorkloadScope g ex
  | .completeCancellation g => w.completeCancellation g ex
  | .onWorkerLost worker boot g => w.onWorkerLost worker boot g ex
  | .markEpisodeCompleted id => w.markEpisodeCompleted id ex
  | .markEpisodeFailed id => w.markEpisodeFailed id ex
  | .planRestart g reason => w.planRestart g reason ex
  | .requestSuspend g => w.requestSuspend g ex
  | .completeSuspend g => w.completeSuspend g ex
  | .requestResume g => w.requestResume g ex
  | .requestMigration g => w.requestMigration g ex
  | .commitMigration g worker boot => w.commitMigration g worker boot ex
  | .setPolicy policy => ⟨.allow, { w with policy := policy }, ex⟩
  | .define d => ⟨(w.deps.define d).1, { w with deps := (w.deps.define d).2 }, ex⟩
  | .setStatus i status observed =>
    ⟨(w.deps.setStatus i status observed).1,
      { w with deps := (w.deps.setStatus i status observed).2 }, ex⟩
  | .addRequirement req =>
    ⟨(w.contract.add req).1, { w with contract := (w.contract.add req).2 }, ex⟩
  | .applyGrant grant =>
    ⟨(w.contract.applyGrant grant).1, { w with contract := (w.contract.applyGrant grant).2 }, ex⟩

/-! ### What one step can do -/

/-- The workload a `startEpisode` leaves when it is accepted. -/
def started (w : Workload) (id : ExecutionEpisodeId) (owner : OwnerId)
    (ownerGen : OwnerGeneration) (adv : Bool) : Workload :=
  ((w.moved .ready (text "resume eligible")).moved .starting (text "start episode")).beginEpisode
    id owner ownerGen adv

/-- The workload a `commitMigration` leaves when it is accepted. -/
def migrated (w : Workload) (worker : WorkerId) (boot : WorkerBootId) : Workload :=
  ((w.moved .migrating (text "migrating")).handOver worker boot).moved .running
    (text "migration committed")

/-- The guards of `planRestart` behind its generation check. -/
def restartGranted (w : Workload) (reason : Text) : Prop :=
  isTerminal w.state = false ∧ restartClassAllowed w.policy.restart.kind reason = true ∧
    restartAllowed w.restartCount w.policy.restart.maxRestarts = true

/-- The guards of `commitCompletion` behind its generation check. -/
def completionGranted (w : Workload) : Prop :=
  isTerminal w.state = false ∧
    ¬(w.cancellationRequested = true ∧ w.policy.cancelRace = .cancelFirst) ∧
    w.completionCriterion = true

/-- The guards of `requestMigration` behind its generation check. -/
def migrationGranted (w : Workload) : Prop :=
  w.policy.migration.eligibility ≠ .none ∧
    (isActivelyRunning w.state = true ∨ w.state = .migrationPending)

/-- The guards an operation passes before it writes anything. -/
def Granted (w : Workload) : WorkloadOp → Prop
  | .transition _ _ _ => True
  | .settle g => g = w.generation ∧ w.settleTarget.isSome = true
  | .startEpisode _ _ _ _ => w.cancelledFinal = false ∧ resumeEligible w.state = true
  | .admitDispatch episode _ _ =>
    ∃ ep, w.findEpisode episode = some ep ∧ (ep.state = .admitted ∨ ep.state = .preempted)
  | .reportProgress episode gen delta durable =>
    (∃ ep, w.findEpisode episode = some ep ∧ gen = ep.generation ∧ ep.authoritative = true) ∧
      (w.cancelledFinal || isCancelling w.state) = false ∧ isTerminal w.state = false ∧
      ¬(w.progress.totalKind = .known ∧ w.progress.total < w.progress.completed + delta) ∧
      (w.progress.advance delta durable).isSome = true
  | .commitCompletion g => g = w.generation ∧ w.completionGranted
  | .finalize g =>
    g = w.generation ∧ w.policy.completion.kind = .explicitFinalize ∧ isTerminal w.state = false
  | .requestCancellationWorkloadScope g => g = w.generation ∧ isTerminal w.state = false
  | .completeCancellation g =>
    g = w.generation ∧ (w.state = .cancelled ∨ isTerminal w.state = false)
  | .onWorkerLost worker boot g =>
    g = w.generation ∧ ∃ ep, w.currentEpisode = some ep ∧ ep.worker = worker ∧ ep.boot = boot
  | .markEpisodeCompleted id => ∃ ep, w.findEpisode id = some ep
  | .markEpisodeFailed id => ∃ ep, w.findEpisode id = some ep
  | .planRestart g reason => g = w.generation ∧ w.restartGranted reason
  | .requestSuspend g =>
    g = w.generation ∧ w.policy.suspension.allowed = true ∧ isActivelyRunning w.state = true
  | .completeSuspend g =>
    g = w.generation ∧
      (w.state = .suspended ∨ w.state = .suspendRequested ∨ w.state = .suspending)
  | .requestResume g => g = w.generation ∧ (w.state = .suspended ∨ w.state = .preempted)
  | .requestMigration g => g = w.generation ∧ w.migrationGranted
  | .commitMigration g _ _ =>
    g = w.generation ∧ (w.state = .migrationPending ∨ w.state = .migrating)
  | .setPolicy _ => True
  | .define _ => True
  | .setStatus i status observed => (w.deps.setStatus i status observed).1 = .allow
  | .addRequirement req => (w.contract.add req).1 = .allow
  | .applyGrant _ => True

/-- How an operation can end: its outcome and the workload it leaves. -/
inductive Step (w : Workload) : WorkloadOp → Outcome → Workload → Prop
  /-- turned away before anything is written -/
  | rejected {op : WorkloadOp} {o : Outcome} (ho : o ≠ .allow) (hn : ¬w.Granted op) :
      Step w op o w
  | transition {s : WorkloadState} {g : WorkloadGeneration} {reason : Text}
      (hg : g = w.generation) (ha : w.Admits s) :
      Step w (.transition s g reason) .allow (w.moved s reason)
  | transitionRefused {s : WorkloadState} {g : WorkloadGeneration} {reason : Text} {o : Outcome}
      (hn : ¬(g = w.generation ∧ w.Admits s)) (ho : o ≠ .allow) :
      Step w (.transition s g reason) o (w.record w.state s reason o)
  | settle {s : WorkloadState} {g : WorkloadGeneration} (hg : g = w.generation)
      (ht : w.settleTarget = some s) (ha : w.Admits s) :
      Step w (.settle g) .allow (w.moved s (text "settle"))
  | settleRefused {s : WorkloadState} {g : WorkloadGeneration} {o : Outcome}
      (hg : g = w.generation) (ht : w.settleTarget = some s) (hn : ¬w.Admits s)
      (ho : o ≠ .allow) : Step w (.settle g) o (w.record w.state s (text "settle") o)
  | start {id : ExecutionEpisodeId} {owner : OwnerId} {ownerGen : OwnerGeneration} {adv : Bool}
      (hc : w.cancelledFinal = false) (he : resumeEligible w.state = true) :
      Step w (.startEpisode id owner ownerGen adv) .allow (w.started id owner ownerGen adv)
  | dispatch {episode : ExecutionEpisodeId} {worker : WorkerId} {boot : WorkerBootId}
      {ep : Episode} (hf : w.findEpisode episode = some ep)
      (hs : ep.state = .admitted ∨ ep.state = .preempted) :
      Step w (.admitDispatch episode worker boot) .allow
        (if w.state = .starting then
          (w.modifyEpisode episode (bindWorker worker boot)).moved .running (text "dispatch")
        else w.modifyEpisode episode (bindWorker worker boot))
  | progress {episode : ExecutionEpisodeId} {gen : ExecutionEpisodeGeneration} {delta : UInt64}
      {durable : Bool} {ep : Episode} {p : Progress} (hf : w.findEpisode episode = some ep)
      (hgen : gen = ep.generation) (ha : ep.authoritative = true)
      (hc : (w.cancelledFinal || isCancelling w.state) = false)
      (ht : isTerminal w.state = false)
      (hd : ¬(w.progress.totalKind = .known ∧ w.progress.total < w.progress.completed + delta))
      (hp : w.progress.advance delta durable = some p) :
      Step w (.reportProgress episode gen delta durable) .allow
        ({ w with progress := p }.modifyEpisode episode (creditEpisode delta durable))
  | complete {g : WorkloadGeneration} (hg : g = w.generation) (hc : w.completionGranted)
      (ha : w.Admits .completing) :
      Step w (.commitCompletion g) .allow
        ((w.claimCompletion.moved .completing (text "completion criteria met")).moved .completed
          (text "workload completed"))
  | completeRefused {g : WorkloadGeneration} {o : Outcome} (hg : g = w.generation)
      (hc : w.completionGranted) (hn : ¬w.Admits .completing) (ho : o ≠ .allow) :
      Step w (.commitCompletion g) o
        (w.claimCompletion.record w.state .completing (text "completion criteria met") o)
  | finalize {g : WorkloadGeneration} (hg : g = w.generation)
      (hk : w.policy.completion.kind = .explicitFinalize) (ht : isTerminal w.state = false)
      (ha : w.Admits .completing) :
      Step w (.finalize g) .allow
        ((w.countCompletion.moved .completing (text "explicit finalize")).moved .completed
          (text "finalized"))
  | finalizeRefused {g : WorkloadGeneration} {o : Outcome} (hg : g = w.generation)
      (hk : w.policy.completion.kind = .explicitFinalize) (ht : isTerminal w.state = false)
      (hn : ¬w.Admits .completing) (ho : o ≠ .allow) :
      Step w (.finalize g) o
        (w.countCompletion.record w.state .completing (text "explicit finalize") o)
  /-- cancelling already: only the flag is raised -/
  | cancelAgain {g : WorkloadGeneration} (hg : g = w.generation)
      (hs : isCancelling w.state = true) :
      Step w (.requestCancellationWorkloadScope g) .allow w.flagCancellation
  | cancel {g : WorkloadGeneration} (hg : g = w.generation) (ht : isTerminal w.state = false)
      (hs : isCancelling w.state = false) (ha : w.Admits .cancellationRequested) :
      Step w (.requestCancellationWorkloadScope g) .allow
        (w.flagCancellation.moved .cancellationRequested (text "cancellation requested"))
  | cancelRefused {g : WorkloadGeneration} {o : Outcome} (hg : g = w.generation)
      (ht : isTerminal w.state = false) (hs : isCancelling w.state = false)
      (hn : ¬w.Admits .cancellationRequested) (ho : o ≠ .allow) :
      Step w (.requestCancellationWorkloadScope g) o
        (w.flagCancellation.record w.state .cancellationRequested (text "cancellation requested") o)
  | cancelledAgain {g : WorkloadGeneration} (hg : g = w.generation) (hs : w.state = .cancelled) :
      Step w (.completeCancellation g) .allow { w with cancelledFinal := true }
  | cancelled {g : WorkloadGeneration} (hg : g = w.generation) (ht : isTerminal w.state = false)
      (ha : w.Admits .cancellationRequested) :
      Step w (.completeCancellation g) .allow
        (((w.flagCancelledFinal.moved .cancellationRequested (text "cancelling")).moved
          .cancelling (text "cancelling")).moved .cancelled (text "cancelled"))
  | cancelledRefused {g : WorkloadGeneration} {o : Outcome} (hg : g = w.generation)
      (ht : isTerminal w.state = false) (hn : ¬w.Admits .cancellationRequested)
      (ho : o ≠ .allow) :
      Step w (.completeCancellation g) o
        (w.flagCancelledFinal.record w.state .cancellationRequested (text "cancelling") o)
  | lost {worker : WorkerId} {boot : WorkerBootId} {g : WorkloadGeneration} {ep : Episode}
      (hg : g = w.generation) (he : w.currentEpisode = some ep) (hw : ep.worker = worker)
      (hb : ep.boot = boot) :
      Step w (.onWorkerLost worker boot g) .allow
        (if w.state = .running ∨ w.state = .degraded then
          (w.modifyCurrent loseWorker).moved .recovering (text "worker lost")
        else w.modifyCurrent loseWorker)
  | markCompleted {id : ExecutionEpisodeId} {ep : Episode} (hf : w.findEpisode id = some ep) :
      Step w (.markEpisodeCompleted id) .allow (w.modifyEpisode id completeEpisode)
  | markFailed {id : ExecutionEpisodeId} {ep : Episode} (hf : w.findEpisode id = some ep) :
      Step w (.markEpisodeFailed id) .allow (w.modifyEpisode id failEpisode)
  | restart {g : WorkloadGeneration} {reason : Text} (hg : g = w.generation)
      (hr : w.restartGranted reason) (ha : w.Admits .restartPending) :
      Step w (.planRestart g reason) .allow
        ((w.takeRestartSlot reason).moved .restartPending (text "restart pending"))
  | restartRefused {g : WorkloadGeneration} {reason : Text} {o : Outcome} (hg : g = w.generation)
      (hr : w.restartGranted reason) (hn : ¬w.Admits .restartPending) (ho : o ≠ .allow) :
      Step w (.planRestart g reason) o
        ((w.takeRestartSlot reason).record w.state .restartPending (text "restart pending") o)
  | suspend {g : WorkloadGeneration} (hg : g = w.generation)
      (hp : w.policy.suspension.allowed = true) (hs : isActivelyRunning w.state = true)
      (ha : w.Admits .suspendRequested) :
      Step w (.requestSuspend g) .allow (w.moved .suspendRequested (text "suspend requested"))
  | suspendRefused {g : WorkloadGeneration} {o : Outcome} (hg : g = w.generation)
      (hp : w.policy.suspension.allowed = true) (hs : isActivelyRunning w.state = true)
      (hn : ¬w.Admits .suspendRequested) (ho : o ≠ .allow) :
      Step w (.requestSuspend g) o
        (w.record w.state .suspendRequested (text "suspend requested") o)
  | suspendedAgain {g : WorkloadGeneration} (hg : g = w.generation) (hs : w.state = .suspended) :
      Step w (.completeSuspend g) .allow w
  | suspended {g : WorkloadGeneration} (hg : g = w.generation)
      (hs : w.state = .suspendRequested ∨ w.state = .suspending) :
      Step w (.completeSuspend g) .allow
        (((w.modifyCurrent suspendEpisode).moved .suspending (text "suspending")).moved
          .suspended (text "suspended"))
  | resume {g : WorkloadGeneration} (hg : g = w.generation)
      (hs : w.state = .suspended ∨ w.state = .preempted) :
      Step w (.requestResume g) .allow (w.moved .ready (text "resume eligible"))
  | migrate {g : WorkloadGeneration} (hg : g = w.generation) (hm : w.migrationGranted)
      (ha : w.Admits .migrationPending) :
      Step w (.requestMigration g) .allow
        (w.countMigration.moved .migrationPending (text "migration requested"))
  | migrateRefused {g : WorkloadGeneration} {o : Outcome} (hg : g = w.generation)
      (hm : w.migrationGranted) (hn : ¬w.Admits .migrationPending) (ho : o ≠ .allow) :
      Step w (.requestMigration g) o
        (w.countMigration.record w.state .migrationPending (text "migration requested") o)
  | commitMigration {g : WorkloadGeneration} {worker : WorkerId} {boot : WorkerBootId}
      (hg : g = w.generation) (hs : w.state = .migrationPending ∨ w.state = .migrating) :
      Step w (.commitMigration g worker boot) .allow (w.migrated worker boot)
  | setPolicy {p : Policy} : Step w (.setPolicy p) .allow { w with policy := p }
  | define {d : DependencyDef} :
      Step w (.define d) .allow { w with deps := (w.deps.define d).2 }
  | setStatus {i : ℕ} {status : DependencyStatus} {observed : DependencyGeneration}
      (ho : (w.deps.setStatus i status observed).1 = .allow) :
      Step w (.setStatus i status observed) .allow
        { w with deps := (w.deps.setStatus i status observed).2 }
  | addRequirement {req : ResourceRequirement} (ho : (w.contract.add req).1 = .allow) :
      Step w (.addRequirement req) .allow { w with contract := (w.contract.add req).2 }
  | applyGrant {grant : ResourceGrant} :
      Step w (.applyGrant grant) .allow { w with contract := (w.contract.applyGrant grant).2 }

/-! ### The code takes only such steps -/

section Steps

variable (w : Workload) (ex : Option Explanation)

theorem transition_step (s : WorkloadState) (g : WorkloadGeneration) (reason : Text) :
    Step w (.transition s g reason) (w.transition s g reason ex).outcome
      (w.transition s g reason ex).workload := by
  rw [transition]
  rcases w.guardedTransition_cases s g reason ex with ⟨⟨hg, ha⟩, ho, hw⟩ | ⟨hn, ho, hw⟩
  · rw [ho, hw]
    exact .transition hg ha
  · rw [hw]
    exact .transitionRefused hn ho

theorem settle_step (g : WorkloadGeneration) :
    Step w (.settle g) (w.settle g ex).outcome (w.settle g ex).workload := by
  rw [settle]
  by_cases hg : g = w.generation
  · rw [if_neg (not_not.mpr hg)]
    rcases ht : w.settleTarget with _ | s
    · exact .rejected (by simp) fun h => by simp [Granted, ht] at h
    · simp only
      by_cases hs : w.state = s
      · rw [if_pos hs]
        -- already there: `settle` returns before it asks for a transition
        have h := Step.settle hg ht (.inl hs)
        rwa [moved_self hs] at h
      · rw [if_neg hs]
        rcases w.guardedTransition_cases s g (text "settle") ex with
          ⟨⟨-, ha⟩, ho, hw⟩ | ⟨hn, ho, hw⟩
        · rw [ho, hw]
          exact .settle hg ht ha
        · rw [hw]
          exact .settleRefused hg ht (fun ha => hn ⟨hg, ha⟩) ho
  · rw [if_pos hg]
    exact .rejected (by simp) fun h => hg h.1

/-- A state a new episode may start from is neither terminal nor cancelling. -/
theorem not_terminal_of_eligible {s : WorkloadState} (h : resumeEligible s = true) :
    isTerminal s = false := by
  cases s <;> first | rfl | exact absurd h (by decide)

theorem not_cancelling_of_eligible {s : WorkloadState} (h : resumeEligible s = true) :
    isCancelling s = false := by
  cases s <;> first | rfl | exact absurd h (by decide)

theorem startEpisode_step (id : ExecutionEpisodeId) (owner : OwnerId) (ownerGen : OwnerGeneration)
    (adv : Bool) :
    Step w (.startEpisode id owner ownerGen adv) (w.startEpisode id owner ownerGen adv ex).outcome
      (w.startEpisode id owner ownerGen adv ex).workload := by
  rw [startEpisode]
  by_cases hc : (w.cancelledFinal || isCancelling w.state) = true
  · rw [if_pos hc]
    exact .rejected (by simp) fun h => by
      rw [h.1, not_cancelling_of_eligible h.2] at hc
      exact Bool.false_ne_true hc
  rw [if_neg hc]
  by_cases ht : isTerminal w.state = true
  · rw [if_pos ht]
    exact .rejected (by simp) fun h =>
      Bool.eq_false_iff.mp (not_terminal_of_eligible h.2) ht
  rw [if_neg ht]
  by_cases he : resumeEligible w.state = true
  · rw [if_neg (by simp [he])]
    -- READY is reached in any case, by a link or by standing there already
    have hpre : ∃ ex₁, (if w.state ≠ .ready then
          w.guardedTransition .ready w.generation (text "resume eligible") ex
        else ⟨.allow, w, ex⟩) = Effect.mk .allow (w.moved .ready (text "resume eligible")) ex₁ := by
      by_cases hr : w.state = .ready
      · rw [if_neg (not_not.mpr hr), moved_self hr]
        exact ⟨_, rfl⟩
      · rw [if_pos hr]
        obtain ⟨ho, hw⟩ := guardedTransition_admitted rfl (admits_ready_of_eligible he)
          (text "resume eligible") ex
        exact ⟨_, by rw [← ho, ← hw]⟩
    obtain ⟨ex₁, hpre⟩ := hpre
    have hstarting : (w.moved .ready (text "resume eligible")).Admits .starting :=
      starts (moved_state ..)
    obtain ⟨ex₂, hthen⟩ := guardedTransition_andThen rfl hstarting (text "start episode") ex₁
      fun w ex => ⟨.allow, w.beginEpisode id owner ownerGen adv, ex⟩
    rw [hpre, Effect.andThen_of_allow rfl]
    simp only
    rw [hthen]
    rw [Bool.not_eq_true, Bool.or_eq_false_iff] at hc
    exact .start hc.1 he
  · rw [if_pos (by simp [he])]
    exact .rejected (by simp) fun h => he h.2

theorem admitDispatch_step (episode : ExecutionEpisodeId) (worker : WorkerId)
    (boot : WorkerBootId) :
    Step w (.admitDispatch episode worker boot) (w.admitDispatch episode worker boot ex).outcome
      (w.admitDispatch episode worker boot ex).workload := by
  rw [admitDispatch]
  rcases hf : w.findEpisode episode with _ | ep
  · exact .rejected (by simp) fun ⟨_, h, _⟩ => absurd h (by rw [hf]; simp)
  simp only
  by_cases hs : ep.state ≠ .admitted ∧ ep.state ≠ .preempted
  · rw [if_pos hs]
    exact .rejected (by simp) fun ⟨_, h, hst⟩ => absurd hs (by
      obtain rfl := Option.some.inj (hf.symm.trans h)
      tauto)
  rw [if_neg hs]
  have hstep : w.Step (.admitDispatch episode worker boot) _ _ := .dispatch hf (by tauto)
  -- binding a worker leaves the state of the workload alone
  set w' := w.modifyEpisode episode (bindWorker worker boot) with hw'
  by_cases hst : w.state = .starting
  · rw [if_pos (show w'.state = .starting from hst)]
    rw [if_pos hst] at hstep
    have ha : w'.Admits .running := runs hst
    obtain ⟨ho, hw⟩ := guardedTransition_admitted rfl ha (text "dispatch") ex
    rwa [ho, hw]
  · rw [if_neg (show ¬w'.state = .starting from hst)]
    rwa [if_neg hst] at hstep

theorem reportProgress_step (episode : ExecutionEpisodeId) (gen : ExecutionEpisodeGeneration)
    (delta : UInt64) (durable : Bool) :
    Step w (.reportProgress episode gen delta durable)
      (w.reportProgress episode gen delta durable ex).outcome
      (w.reportProgress episode gen delta durable ex).workload := by
  rw [reportProgress]
  rcases hf : w.findEpisode episode with _ | ep
  · exact .rejected (by simp) fun ⟨⟨_, h, _⟩, _⟩ => absurd h (by rw [hf]; simp)
  simp only
  by_cases hgen : gen = ep.generation
  · rw [if_neg (not_not.mpr hgen)]
    by_cases ha : ep.authoritative = true
    · rw [if_neg (by simp [ha])]
      by_cases hc : (w.cancelledFinal || isCancelling w.state) = true
      · rw [if_pos hc]
        exact .rejected (by simp) fun h => Bool.eq_false_iff.mp h.2.1 hc
      rw [if_neg hc]
      by_cases ht : isTerminal w.state = true
      · rw [if_pos ht]
        exact .rejected (by simp) fun h => Bool.eq_false_iff.mp h.2.2.1 ht
      rw [if_neg ht]
      by_cases hd : w.progress.totalKind = .known ∧ w.progress.total < w.progress.completed + delta
      · rw [if_pos hd]
        exact .rejected (by simp) fun h => h.2.2.2.1 hd
      rw [if_neg hd]
      rcases hp : w.progress.advance delta durable with _ | p
      · exact .rejected (by simp) fun h => by simp [Granted, hp] at h
      · exact .progress hf hgen ha (by simpa using hc) (by simpa using ht) hd hp
    · rw [if_pos (by simpa using ha)]
      exact .rejected (by simp) fun ⟨⟨_, h, _, h'⟩, _⟩ =>
        ha (Option.some.inj (hf.symm.trans h) ▸ h')
  · rw [if_pos hgen]
    exact .rejected (by simp) fun ⟨⟨_, h, h', _⟩, _⟩ =>
      hgen (Option.some.inj (hf.symm.trans h) ▸ h')

theorem commitCompletion_step (g : WorkloadGeneration) :
    Step w (.commitCompletion g) (w.commitCompletion g ex).outcome
      (w.commitCompletion g ex).workload := by
  rw [commitCompletion]
  by_cases hg : g = w.generation
  · rw [if_neg (not_not.mpr hg)]
    by_cases ht : isTerminal w.state = true
    · rw [if_pos ht]
      exact .rejected (by simp) fun h => Bool.eq_false_iff.mp h.2.1 ht
    rw [if_neg ht]
    by_cases hr : w.cancellationRequested = true ∧ w.policy.cancelRace = .cancelFirst
    · rw [if_pos hr]
      exact .rejected (by simp) fun h => h.2.2.1 hr
    rw [if_neg hr]
    by_cases hc : w.completionCriterion = true
    · rw [if_neg (by simp [hc])]
      have hgrant : w.completionGranted := ⟨by simpa using ht, hr, hc⟩
      -- claiming the completion changes neither state nor policy
      have hadm : w.claimCompletion.Admits .completing ↔ w.Admits .completing :=
        admits_congr rfl rfl _
      rcases guardedTransition_chain (w := w.claimCompletion) hg (fun _ => completes)
          (text "completion criteria met") (text "workload completed") ex with
        ⟨ha, ho, hw⟩ | ⟨hn, ho, hw⟩
      · rw [ho, hw]
        exact .complete hg hgrant (hadm.mp ha)
      · rw [hw]
        exact .completeRefused hg hgrant (fun ha => hn (hadm.mpr ha)) ho
    · rw [if_pos (by simpa using hc)]
      exact .rejected (by simp) fun h => hc h.2.2.2
  · rw [if_pos hg]
    exact .rejected (by simp) fun h => hg h.1

theorem finalize_step (g : WorkloadGeneration) :
    Step w (.finalize g) (w.finalize g ex).outcome (w.finalize g ex).workload := by
  rw [finalize]
  by_cases hg : g = w.generation
  · rw [if_neg (not_not.mpr hg)]
    by_cases hk : w.policy.completion.kind = .explicitFinalize
    · rw [if_neg (not_not.mpr hk)]
      by_cases ht : isTerminal w.state = true
      · rw [if_pos ht]
        exact .rejected (by simp) fun h => Bool.eq_false_iff.mp h.2.2 ht
      rw [if_neg ht]
      simp only
      have ht : isTerminal w.state = false := by simpa using ht
      have hadm : w.countCompletion.Admits .completing ↔ w.Admits .completing :=
        admits_congr rfl rfl _
      rcases guardedTransition_chain (w := w.countCompletion) hg (fun _ => completes)
          (text "explicit finalize") (text "finalized") ex with ⟨ha, ho, hw⟩ | ⟨hn, ho, hw⟩
      · rw [ho, hw]
        exact .finalize hg hk ht (hadm.mp ha)
      · rw [hw]
        exact .finalizeRefused hg hk ht (fun ha => hn (hadm.mpr ha)) ho
    · rw [if_pos hk]
      exact .rejected (by simp) fun h => hk h.2.1
  · rw [if_pos hg]
    exact .rejected (by simp) fun h => hg h.1

theorem requestCancellation_step (g : WorkloadGeneration) :
    Step w (.requestCancellationWorkloadScope g)
      (w.requestCancellationWorkloadScope g ex).outcome
      (w.requestCancellationWorkloadScope g ex).workload := by
  rw [requestCancellationWorkloadScope]
  by_cases hg : g = w.generation
  · rw [if_neg (not_not.mpr hg)]
    by_cases ht : isTerminal w.state = true
    · rw [if_pos ht]
      exact .rejected (by simp) fun h => Bool.eq_false_iff.mp h.2 ht
    rw [if_neg ht]
    simp only
    by_cases hs : isCancelling w.state = true
    · rw [if_pos ((isCancelling_iff w.flagCancellation.state).mp hs)]
      exact .cancelAgain hg hs
    · have hs' : ¬(w.flagCancellation.state = .cancellationRequested ∨
          w.flagCancellation.state = .cancelling) := fun h => hs ((isCancelling_iff _).mpr h)
      -- the second terminal test of the source never fires
      have ht' : ¬(w.flagCancellation.state = .completed ∨ w.flagCancellation.state = .cancelled ∨
          w.flagCancellation.state = .failedTerminal ∨
          w.flagCancellation.state = .superseded) := by
        intro h
        apply ht
        rcases h with h | h | h | h <;> rw [show w.state = _ from h] <;> rfl
      rw [if_neg hs', if_neg ht']
      have ht : isTerminal w.state = false := by simpa using ht
      have hs : isCancelling w.state = false := by simpa using hs
      have hadm : w.flagCancellation.Admits .cancellationRequested ↔
          w.Admits .cancellationRequested := admits_congr rfl rfl _
      rcases w.flagCancellation.guardedTransition_cases .cancellationRequested g
          (text "cancellation requested") ex with ⟨⟨-, ha⟩, ho, hw⟩ | ⟨hn, ho, hw⟩
      · rw [ho, hw]
        exact .cancel hg ht hs (hadm.mp ha)
      · rw [hw]
        exact .cancelRefused hg ht hs (fun ha => hn ⟨hg, hadm.mpr ha⟩) ho
  · rw [if_pos hg]
    exact .rejected (by simp) fun h => hg h.1

theorem completeCancellation_step (g : WorkloadGeneration) :
    Step w (.completeCancellation g) (w.completeCancellation g ex).outcome
      (w.completeCancellation g ex).workload := by
  rw [completeCancellation]
  by_cases hg : g = w.generation
  · rw [if_neg (not_not.mpr hg)]
    by_cases hs : w.state = .cancelled
    · rw [if_pos hs]
      exact .cancelledAgain hg hs
    rw [if_neg hs]
    by_cases ht : isTerminal w.state = true
    · rw [if_pos ht]
      exact .rejected (by simp) fun h => Bool.eq_false_iff.mp (h.2.resolve_left hs) ht
    rw [if_neg ht]
    simp only
    have ht : isTerminal w.state = false := by simpa using ht
    have hadm : w.flagCancelledFinal.Admits .cancellationRequested ↔
        w.Admits .cancellationRequested := admits_congr rfl rfl _
    by_cases ha : w.Admits .cancellationRequested
    · -- the first link decides; the other two always go through
      obtain ⟨ex₁, h₁⟩ := guardedTransition_andThen (w := w.flagCancelledFinal) hg (hadm.mpr ha)
        (text "cancelling") ex fun w ex =>
          (w.guardedTransition .cancelling w.generation (text "cancelling") ex).andThen
            fun w ex => w.guardedTransition .cancelled w.generation (text "cancelled") ex
      set w₁ := w.flagCancelledFinal.moved .cancellationRequested (text "cancelling")
      have ha₁ : w₁.Admits .cancelling := cancelling (moved_state ..)
      rcases guardedTransition_chain (w := w₁) rfl (fun _ => cancels) (text "cancelling")
          (text "cancelled") ex₁ with ⟨-, ho, hw⟩ | ⟨hn, -⟩
      · rw [h₁, ho, hw]
        exact .cancelled hg ht ha
      · exact absurd ha₁ hn
    · obtain ⟨ho, hw⟩ := guardedTransition_andThen_refused (w := w.flagCancelledFinal)
        (fun h => ha (hadm.mp h.2)) (text "cancelling") ex fun w ex =>
          (w.guardedTransition .cancelling w.generation (text "cancelling") ex).andThen
            fun w ex => w.guardedTransition .cancelled w.generation (text "cancelled") ex
      rw [hw]
      exact .cancelledRefused hg ht ha ho
  · rw [if_pos hg]
    exact .rejected (by simp) fun h => hg h.1

theorem onWorkerLost_step (worker : WorkerId) (boot : WorkerBootId) (g : WorkloadGeneration) :
    Step w (.onWorkerLost worker boot g) (w.onWorkerLost worker boot g ex).outcome
      (w.onWorkerLost worker boot g ex).workload := by
  rw [onWorkerLost]
  by_cases hg : g = w.generation
  · rw [if_neg (not_not.mpr hg)]
    rcases he : w.currentEpisode with _ | ep
    · exact .rejected (by simp) fun ⟨_, _, h, _⟩ => absurd h (by rw [he]; simp)
    simp only
    by_cases hb : ep.worker ≠ worker ∨ ep.boot ≠ boot
    · rw [if_pos hb]
      exact .rejected (by simp) fun ⟨_, _, h, h₁, h₂⟩ => absurd hb (by
        obtain rfl := Option.some.inj (he.symm.trans h)
        tauto)
    rw [if_neg hb]
    obtain ⟨hworker, hboot⟩ : ep.worker = worker ∧ ep.boot = boot := by tauto
    have hstep := Step.lost hg he hworker hboot
    set w' := w.modifyCurrent loseWorker with hw'
    by_cases hs : w.state = .running ∨ w.state = .degraded
    · rw [if_pos (show w'.state = .running ∨ w'.state = .degraded from hs)]
      rw [if_pos hs] at hstep
      have ha : w'.Admits .recovering := recovers hs
      obtain ⟨ho, hw⟩ := guardedTransition_admitted (w := w') hg ha (text "worker lost") ex
      rwa [ho, hw]
    · rw [if_neg (show ¬(w'.state = .running ∨ w'.state = .degraded) from hs)]
      rwa [if_neg hs] at hstep
  · rw [if_pos hg]
    exact .rejected (by simp) fun h => hg h.1

theorem markEpisodeCompleted_step (id : ExecutionEpisodeId) :
    Step w (.markEpisodeCompleted id) (w.markEpisodeCompleted id ex).outcome
      (w.markEpisodeCompleted id ex).workload := by
  rw [markEpisodeCompleted, markEpisode]
  rcases hf : w.findEpisode id with _ | ep
  · exact .rejected (by simp) fun ⟨_, h⟩ => absurd h (by rw [hf]; simp)
  · exact .markCompleted hf

theorem markEpisodeFailed_step (id : ExecutionEpisodeId) :
    Step w (.markEpisodeFailed id) (w.markEpisodeFailed id ex).outcome
      (w.markEpisodeFailed id ex).workload := by
  rw [markEpisodeFailed, markEpisode]
  rcases hf : w.findEpisode id with _ | ep
  · exact .rejected (by simp) fun ⟨_, h⟩ => absurd h (by rw [hf]; simp)
  · exact .markFailed hf

theorem planRestart_step (g : WorkloadGeneration) (reason : Text) :
    Step w (.planRestart g reason) (w.planRestart g reason ex).outcome
      (w.planRestart g reason ex).workload := by
  rw [planRestart]
  by_cases hg : g = w.generation
  · rw [if_neg (not_not.mpr hg)]
    by_cases ht : isTerminal w.state = true
    · rw [if_pos ht]
      exact .rejected (by simp) fun h => Bool.eq_false_iff.mp h.2.1 ht
    rw [if_neg ht]
    by_cases hr : restartClassAllowed w.policy.restart.kind reason = true ∧
        restartAllowed w.restartCount w.policy.restart.maxRestarts = true
    · rw [if_neg (by simp [hr.1, hr.2])]
      have hgrant : w.restartGranted reason := ⟨by simpa using ht, hr⟩
      simp only
      have hadm : (w.takeRestartSlot reason).Admits .restartPending ↔ w.Admits .restartPending :=
        admits_congr rfl rfl _
      -- a repeated plan is allowed without a transition, and takes a slot
      by_cases hs : w.state = .restartPending
      · have hs' : (w.takeRestartSlot reason).state = .restartPending := hs
        have hstep := Step.restart hg hgrant (.inl hs)
        rw [if_pos hs']
        rwa [moved_self hs'] at hstep
      · rw [if_neg (show ¬(w.takeRestartSlot reason).state = .restartPending from hs)]
        rcases (w.takeRestartSlot reason).guardedTransition_cases .restartPending g
            (text "restart pending") ex with ⟨⟨-, ha⟩, ho, hw⟩ | ⟨hn, ho, hw⟩
        · rw [ho, hw]
          exact .restart hg hgrant (hadm.mp ha)
        · rw [hw]
          exact .restartRefused hg hgrant (fun ha => hn ⟨hg, hadm.mpr ha⟩) ho
    · have hn : ¬w.Granted (.planRestart g reason) := fun h => hr h.2.2
      rw [not_and_or, Bool.not_eq_true, Bool.not_eq_true] at hr
      rw [if_pos (by simpa using hr)]
      exact .rejected (by simp) hn
  · rw [if_pos hg]
    exact .rejected (by simp) fun h => hg h.1

theorem requestSuspend_step (g : WorkloadGeneration) :
    Step w (.requestSuspend g) (w.requestSuspend g ex).outcome
      (w.requestSuspend g ex).workload := by
  rw [requestSuspend]
  by_cases hg : g = w.generation
  · rw [if_neg (not_not.mpr hg)]
    by_cases hp : w.policy.suspension.allowed = true
    · rw [if_neg (by simp [hp])]
      by_cases ha : isActivelyRunning w.state = true
      · have hs : w.state ≠ .suspendRequested := by
          intro h
          rw [h] at ha
          exact absurd ha (by decide)
        rw [if_neg (by simp [ha]), if_neg hs]
        rcases w.guardedTransition_cases .suspendRequested g (text "suspend requested") ex with
          ⟨⟨-, hadm⟩, ho, hw⟩ | ⟨hn, ho, hw⟩
        · rw [ho, hw]
          exact .suspend hg hp ha hadm
        · rw [hw]
          exact .suspendRefused hg hp ha (fun h => hn ⟨hg, h⟩) ho
      · rw [if_pos (by simpa using ha)]
        exact .rejected (by simp) fun h => ha h.2.2
    · rw [if_pos (by simpa using hp)]
      exact .rejected (by simp) fun h => hp h.2.1
  · rw [if_pos hg]
    exact .rejected (by simp) fun h => hg h.1

theorem completeSuspend_step (g : WorkloadGeneration) :
    Step w (.completeSuspend g) (w.completeSuspend g ex).outcome
      (w.completeSuspend g ex).workload := by
  rw [completeSuspend]
  by_cases hg : g = w.generation
  · rw [if_neg (not_not.mpr hg)]
    by_cases hs : w.state = .suspended
    · rw [if_pos hs]
      exact .suspendedAgain hg hs
    rw [if_neg hs]
    by_cases hn : w.state ≠ .suspendRequested ∧ w.state ≠ .suspending
    · rw [if_pos hn]
      exact .rejected (by simp) fun h => absurd h.2 (by tauto)
    rw [if_neg hn]
    have hs : w.state = .suspendRequested ∨ w.state = .suspending := by tauto
    have hstep := Step.suspended hg hs
    simp only
    set w' := w.modifyCurrent suspendEpisode with hw'
    by_cases hr : w.state = .suspendRequested
    · rw [if_pos (show w'.state = .suspendRequested from hr)]
      have ha : w'.Admits .suspending := suspending (.inl hr)
      rcases guardedTransition_chain (w := w') hg (fun _ => suspends) (text "suspending")
          (text "suspended") ex with ⟨-, ho, hw⟩ | ⟨hna, -⟩
      · rwa [ho, hw]
      · exact absurd ha hna
    · rw [if_neg (show ¬w'.state = .suspendRequested from hr)]
      have hs' : w'.state = .suspending := hs.resolve_left hr
      obtain ⟨ho, hw⟩ := guardedTransition_admitted (w := w') hg (suspends hs')
        (text "suspended") ex
      rw [moved_self hs'] at hstep
      rwa [ho, hw]
  · rw [if_pos hg]
    exact .rejected (by simp) fun h => hg h.1

theorem requestResume_step (g : WorkloadGeneration) :
    Step w (.requestResume g) (w.requestResume g ex).outcome
      (w.requestResume g ex).workload := by
  rw [requestResume]
  by_cases hg : g = w.generation
  · rw [if_neg (not_not.mpr hg)]
    by_cases hn : w.state ≠ .suspended ∧ w.state ≠ .preempted
    · rw [if_pos hn]
      exact .rejected (by simp) fun h => absurd h.2 (by tauto)
    rw [if_neg hn]
    have hs : w.state = .suspended ∨ w.state = .preempted := by tauto
    obtain ⟨ho, hw⟩ := guardedTransition_admitted hg (resumes hs) (text "resume eligible") ex
    rw [ho, hw]
    exact .resume hg hs
  · rw [if_pos hg]
    exact .rejected (by simp) fun h => hg h.1

theorem requestMigration_step (g : WorkloadGeneration) :
    Step w (.requestMigration g) (w.requestMigration g ex).outcome
      (w.requestMigration g ex).workload := by
  rw [requestMigration]
  by_cases hg : g = w.generation
  · rw [if_neg (not_not.mpr hg)]
    by_cases hp : w.policy.migration.eligibility = .none
    · rw [if_pos hp]
      exact .rejected (by simp) fun h => h.2.1 hp
    rw [if_neg hp]
    by_cases ha : isActivelyRunning w.state = true ∨ w.state = .migrationPending
    · have hn : ¬(!isActivelyRunning w.state && w.state != .migrationPending) = true := by
        rcases ha with ha | ha <;> simp [ha]
      rw [if_neg hn]
      simp only
      have hadm : w.countMigration.Admits .migrationPending ↔ w.Admits .migrationPending :=
        admits_congr rfl rfl _
      by_cases hs : w.state = .migrationPending
      · have hs' : w.countMigration.state = .migrationPending := hs
        have hstep := Step.migrate hg ⟨hp, ha⟩ (.inl hs)
        rw [if_pos hs']
        rwa [moved_self hs'] at hstep
      · -- MIGRATING was turned away with the states that do not run
        have hm : w.countMigration.state ≠ .migrating := by
          intro h
          rw [show w.state = .migrating from h] at ha
          exact absurd ha (by decide)
        rw [if_neg (show ¬w.countMigration.state = .migrationPending from hs), if_neg hm]
        rcases w.countMigration.guardedTransition_cases .migrationPending g
            (text "migration requested") ex with ⟨⟨-, hy⟩, ho, hw⟩ | ⟨hy, ho, hw⟩
        · rw [ho, hw]
          exact .migrate hg ⟨hp, ha⟩ (hadm.mp hy)
        · rw [hw]
          exact .migrateRefused hg ⟨hp, ha⟩ (fun h => hy ⟨hg, hadm.mpr h⟩) ho
    · have hn : (!isActivelyRunning w.state && w.state != .migrationPending) = true := by
        simpa [not_or] using ha
      rw [if_pos hn]
      exact .rejected (by simp) fun h => ha h.2.2
  · rw [if_pos hg]
    exact .rejected (by simp) fun h => hg h.1

theorem commitMigration_step (g : WorkloadGeneration) (worker : WorkerId)
    (boot : WorkerBootId) :
    Step w (.commitMigration g worker boot) (w.commitMigration g worker boot ex).outcome
      (w.commitMigration g worker boot ex).workload := by
  rw [commitMigration]
  by_cases hg : g = w.generation
  · rw [if_neg (not_not.mpr hg)]
    by_cases hn : w.state ≠ .migrationPending ∧ w.state ≠ .migrating
    · rw [if_pos hn]
      exact .rejected (by simp) fun h => absurd h.2 (by tauto)
    rw [if_neg hn]
    have hs : w.state = .migrationPending ∨ w.state = .migrating := by tauto
    -- MIGRATING is reached in any case
    have hfirst : ∃ ex₁, (if w.state = .migrationPending then
          w.guardedTransition .migrating g (text "migrating") ex
        else ⟨.allow, w, ex⟩) = Effect.mk .allow (w.moved .migrating (text "migrating")) ex₁ := by
      rcases hs with hs | hs
      · rw [if_pos hs]
        obtain ⟨ho, hw⟩ := guardedTransition_admitted hg (migrating (.inl hs)) (text "migrating") ex
        exact ⟨_, by rw [← ho, ← hw]⟩
      · rw [if_neg (by simp [hs]), moved_self hs]
        exact ⟨_, rfl⟩
    obtain ⟨ex₁, hfirst⟩ := hfirst
    rw [hfirst, Effect.andThen_of_allow rfl]
    simp only
    set w₁ := (w.moved .migrating (text "migrating")).handOver worker boot with hw₁
    have hrunning : w₁.Admits .running := migrates (moved_state w .migrating _)
    obtain ⟨ho, hw⟩ := guardedTransition_admitted rfl hrunning (text "migration committed") ex₁
    rw [ho, hw]
    exact .commitMigration hg hs
  · rw [if_pos hg]
    exact .rejected (by simp) fun h => hg h.1

/-- **The code takes only the steps of `Step`.** -/
theorem apply_step (op : WorkloadOp) :
    Step w op (w.apply op ex).outcome (w.apply op ex).workload := by
  cases op with
  | transition s g reason => exact w.transition_step ex s g reason
  | settle g => exact w.settle_step ex g
  | startEpisode id owner ownerGen adv => exact w.startEpisode_step ex id owner ownerGen adv
  | admitDispatch episode worker boot => exact w.admitDispatch_step ex episode worker boot
  | reportProgress episode gen delta durable =>
    exact w.reportProgress_step ex episode gen delta durable
  | commitCompletion g => exact w.commitCompletion_step ex g
  | finalize g => exact w.finalize_step ex g
  | requestCancellationWorkloadScope g => exact w.requestCancellation_step ex g
  | completeCancellation g => exact w.completeCancellation_step ex g
  | onWorkerLost worker boot g => exact w.onWorkerLost_step ex worker boot g
  | markEpisodeCompleted id => exact w.markEpisodeCompleted_step ex id
  | markEpisodeFailed id => exact w.markEpisodeFailed_step ex id
  | planRestart g reason => exact w.planRestart_step ex g reason
  | requestSuspend g => exact w.requestSuspend_step ex g
  | completeSuspend g => exact w.completeSuspend_step ex g
  | requestResume g => exact w.requestResume_step ex g
  | requestMigration g => exact w.requestMigration_step ex g
  | commitMigration g worker boot => exact w.commitMigration_step ex g worker boot
  | setPolicy p => exact .setPolicy
  | define d => exact .define
  | setStatus i status observed =>
    rw [apply]
    by_cases ho : (w.deps.setStatus i status observed).1 = .allow
    · rw [ho]
      exact .setStatus ho
    · rw [DependencySet.setStatus_refused ho]
      exact .rejected ho ho
  | addRequirement req =>
    rw [apply]
    by_cases ho : (w.contract.add req).1 = .allow
    · rw [ho]
      exact .addRequirement ho
    · rw [ResourceContract.add_refused ho]
      exact .rejected ho ho
  | applyGrant grant => exact .applyGrant

end Steps

/-- **A step passes its guards, or is turned away and changes nothing.** -/
theorem Step.granted_or {w w' : Workload} {op : WorkloadOp} {o : Outcome} (h : Step w op o w') :
    w.Granted op ∨ (¬w.Granted op ∧ w' = w ∧ o ≠ .allow) := by
  cases h with
  | rejected ho hn => exact .inr ⟨hn, rfl, ho⟩
  | transition | transitionRefused | setPolicy | define | applyGrant => exact .inl trivial
  | settle hg ht => exact .inl ⟨hg, by rw [ht]; rfl⟩
  | settleRefused hg ht => exact .inl ⟨hg, by rw [ht]; rfl⟩
  | start hc he => exact .inl ⟨hc, he⟩
  | dispatch hf hs => exact .inl ⟨_, hf, hs⟩
  | progress hf hgen ha hc ht hd hp =>
    exact .inl ⟨⟨_, hf, hgen, ha⟩, hc, ht, hd, by rw [hp]; rfl⟩
  | complete hg hc => exact .inl ⟨hg, hc⟩
  | completeRefused hg hc => exact .inl ⟨hg, hc⟩
  | finalize hg hk ht => exact .inl ⟨hg, hk, ht⟩
  | finalizeRefused hg hk ht => exact .inl ⟨hg, hk, ht⟩
  | cancelAgain hg hs =>
    refine .inl ⟨hg, ?_⟩
    rcases (isCancelling_iff _).mp hs with hs | hs <;> rw [hs] <;> rfl
  | cancel hg ht => exact .inl ⟨hg, ht⟩
  | cancelRefused hg ht => exact .inl ⟨hg, ht⟩
  | cancelledAgain hg hs => exact .inl ⟨hg, .inl hs⟩
  | cancelled hg ht => exact .inl ⟨hg, .inr ht⟩
  | cancelledRefused hg ht => exact .inl ⟨hg, .inr ht⟩
  | lost hg he hw hb => exact .inl ⟨hg, _, he, hw, hb⟩
  | markCompleted hf => exact .inl ⟨_, hf⟩
  | markFailed hf => exact .inl ⟨_, hf⟩
  | restart hg hr => exact .inl ⟨hg, hr⟩
  | restartRefused hg hr => exact .inl ⟨hg, hr⟩
  | suspend hg hp hs => exact .inl ⟨hg, hp, hs⟩
  | suspendRefused hg hp hs => exact .inl ⟨hg, hp, hs⟩
  | suspendedAgain hg hs => exact .inl ⟨hg, .inl hs⟩
  | suspended hg hs => exact .inl ⟨hg, .inr hs⟩
  | resume hg hs => exact .inl ⟨hg, hs⟩
  | migrate hg hm => exact .inl ⟨hg, hm⟩
  | migrateRefused hg hm => exact .inl ⟨hg, hm⟩
  | commitMigration hg hs => exact .inl ⟨hg, hs⟩
  | setStatus ho => exact .inl ho
  | addRequirement ho => exact .inl ho

/-- What is accepted has passed its guards. -/
theorem Step.granted {w w' : Workload} {op : WorkloadOp} (h : Step w op .allow w') :
    w.Granted op :=
  h.granted_or.resolve_right fun h => h.2.2 rfl

/-- **Only `setPolicy` changes the policy.** -/
theorem Step.policy {w w' : Workload} {op : WorkloadOp} {o : Outcome} (h : Step w op o w')
    (hp : ∀ p, op ≠ .setPolicy p) : w'.policy = w.policy := by
  cases h with
  | setPolicy => exact absurd rfl (hp _)
  | start => simp [started, beginEpisode]
  | commitMigration => simp [migrated, handOver]
  | dispatch =>
    split
    · exact moved_policy ..
    · rfl
  | lost =>
    split
    · exact moved_policy ..
    · rfl
  | _ =>
    first
      | rfl
      | exact moved_policy ..
      | simp only [moved_policy]; rfl

/-- A workload keeps its id. -/
theorem Step.id_eq {w w' : Workload} {op : WorkloadOp} {o : Outcome} (h : Step w op o w') :
    w'.id = w.id := by
  cases h with
  | start => simp [started, beginEpisode]
  | commitMigration => simp [migrated, handOver]
  | dispatch =>
    split
    · exact moved_id ..
    · rfl
  | lost =>
    split
    · exact moved_id ..
    · rfl
  | _ =>
    first
      | rfl
      | exact moved_id ..
      | simp only [moved_id]; rfl

/-- What an operation makes of the two gates in front of execution. -/
def regated (w : Workload) : WorkloadOp → DependencySet × ResourceContract
  | .define d => ((w.deps.define d).2, w.contract)
  | .setStatus i status observed => ((w.deps.setStatus i status observed).2, w.contract)
  | .addRequirement req => (w.deps, (w.contract.add req).2)
  | .applyGrant grant => (w.deps, (w.contract.applyGrant grant).2)
  | _ => (w.deps, w.contract)

/-- **Only the four edits change the gates**, and a refused edit does not. -/
theorem Step.gates {w w' : Workload} {op : WorkloadOp} {o : Outcome} (h : Step w op o w') :
    (w'.deps, w'.contract) = w.regated op := by
  cases h with
  | rejected _ hn =>
    cases op with
    | define => exact absurd trivial hn
    | applyGrant => exact absurd trivial hn
    | setStatus => rw [regated, DependencySet.setStatus_refused hn]
    | addRequirement => rw [regated, ResourceContract.add_refused hn]
    | _ => rfl
  | start => simp [started, beginEpisode, regated]
  | commitMigration => simp [migrated, handOver, regated]
  | dispatch =>
    split
    · rw [moved_deps, moved_contract]
      rfl
    · rfl
  | lost =>
    split
    · rw [moved_deps, moved_contract]
      rfl
    · rfl
  | _ =>
    first
      | rfl
      | simp only [moved_deps, moved_contract]; rfl

/-! ### Runs -/

/-- A call: an operation and its `explain` argument. -/
abbrev Call := WorkloadOp × Option Explanation

/-- A finite sequence of calls. -/
def run (w : Workload) (calls : List Call) : Workload :=
  calls.foldl (fun w c => (w.apply c.1 c.2).workload) w

theorem run_append_singleton (w : Workload) (calls : List Call) (c : Call) :
    w.run (calls ++ [c]) = ((w.run calls).apply c.1 c.2).workload := by
  rw [run, List.foldl_append]
  rfl

/-- **What every step preserves, every run preserves.** -/
theorem run_induction {P : Workload → Prop} {w : Workload} (h : P w)
    (hstep : ∀ {w w' : Workload} {op : WorkloadOp} {o : Outcome},
      P w → Step w op o w' → P w') (calls : List Call) : P (w.run calls) := by
  induction calls generalizing w with
  | nil => exact h
  | cons c calls ih => exact ih (hstep h (w.apply_step c.2 c.1))

/-- The workloads that lifecycle operations lead to from a fresh one. -/
def Reachable (w : Workload) : Prop :=
  ∃ (id : WorkloadId) (name intent : Text) (calls : List Call),
    w = (create id name intent).run calls

theorem reachable_create (id : WorkloadId) (name intent : Text) :
    Reachable (create id name intent) := ⟨id, name, intent, [], rfl⟩

theorem Reachable.apply {w : Workload} (h : Reachable w) (op : WorkloadOp)
    (ex : Option Explanation) : Reachable (w.apply op ex).workload := by
  obtain ⟨id, name, intent, calls, rfl⟩ := h
  exact ⟨id, name, intent, calls ++ [(op, ex)], (run_append_singleton _ calls (op, ex)).symm⟩

theorem Reachable.run {w : Workload} (h : Reachable w) (calls : List Call) :
    Reachable (w.run calls) := by
  induction calls generalizing w with
  | nil => exact h
  | cons c calls ih => exact ih (h.apply c.1 c.2)

/-- What holds of a fresh workload and is preserved by every step holds of every
reachable workload. -/
theorem Reachable.induction {P : Workload → Prop}
    (hcreate : ∀ id name intent, P (create id name intent))
    (hstep : ∀ {w w' : Workload} {op : WorkloadOp} {o : Outcome},
      P w → Step w op o w' → P w') {w : Workload} (h : Reachable w) : P w := by
  obtain ⟨id, name, intent, calls, rfl⟩ := h
  exact run_induction (hcreate id name intent) hstep calls

end Workload

end WorkloadFabric
