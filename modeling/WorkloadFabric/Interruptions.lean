/-
Work that is interrupted and carried on.

A running workload is suspended and resumed, moved to another worker, or loses its
worker and is restarted, any number of times and in any order.  A host answers each
interruption with the same few requests (`Interruption.requests`): it reads the
generation and the lost worker off a snapshot, and the id of the new episode off the
result of the start.  What is left of a workload by an interruption is told by five of
its fields (`Workload.core`, `Interruption.leaves`).

* **`carried_on_iff`** — every request of the host is accepted exactly if the policy
  allows the interruptions and the restart slots that are left suffice for the losses;
  then the workload runs on the worker named last, no progress is lost, and each
  interruption has advanced the generation and added an episode.
-/
import WorkloadFabric.EpisodeIds
import WorkloadFabric.RestartBudget
import WorkloadFabric.Endings
import WorkloadFabric.EpisodeSteps

namespace WorkloadFabric

/-- What can come between a workload and its work, and where it is carried on. -/
inductive Interruption where
  | suspension (owner : OwnerId) (ownerGen : OwnerGeneration) (worker : WorkerId)
      (boot : WorkerBootId)
  | migration (worker : WorkerId) (boot : WorkerBootId)
  /-- the worker is lost, and the workload restarted -/
  | loss (reason : Text) (owner : OwnerId) (ownerGen : OwnerGeneration) (worker : WorkerId)
      (boot : WorkerBootId)
deriving DecidableEq

namespace Interruption

/-- The requests that answer an interruption of `w`; `counter` is the engine's. -/
def requests (counter : UInt64) (w : Workload) : Interruption → List Request
  | .suspension owner ownerGen worker boot =>
    [.requestSuspend w.generation, .completeSuspend w.generation, .requestResume w.generation,
      .startEpisode owner ownerGen, .admitDispatch (.fromU64 counter) worker boot]
  | .migration worker boot =>
    [.requestMigration w.generation, .commitMigration w.generation worker boot]
  | .loss reason owner ownerGen worker boot =>
    [.onWorkerLost ((w.currentEpisode.map (·.worker)).getD {})
        ((w.currentEpisode.map (·.boot)).getD {}) w.generation,
      .planRestart reason w.generation, .startEpisode owner ownerGen,
      .admitDispatch (.fromU64 counter) worker boot]

/-- Where the workload is carried on. -/
def worker : Interruption → WorkerId
  | .suspension _ _ worker _ | .migration worker _ | .loss _ _ _ worker _ => worker

def boot : Interruption → WorkerBootId
  | .suspension _ _ _ boot | .migration _ boot | .loss _ _ _ _ boot => boot

def isLoss : Interruption → Bool
  | .loss _ _ _ _ _ => true
  | _ => false

/-- The engine draws the id of the new episode. -/
def draws : Interruption → Bool
  | .migration _ _ => false
  | _ => true

/-- The policy allows it. -/
def AllowedBy (p : Policy) : Interruption → Prop
  | .suspension _ _ _ _ => p.suspension.allowed = true
  | .migration _ _ => p.migration.eligibility ≠ .none
  | .loss reason _ _ _ _ => Workload.restartClassAllowed p.restart.kind reason = true

instance (p : Policy) : DecidablePred (AllowedBy p)
  | .suspension _ _ _ _ => inferInstanceAs (Decidable (p.suspension.allowed = true))
  | .migration _ _ => inferInstanceAs (Decidable (p.migration.eligibility ≠ .none))
  | .loss reason _ _ _ _ =>
    inferInstanceAs (Decidable (Workload.restartClassAllowed p.restart.kind reason = true))

end Interruption

/-! ### What an interruption leaves -/

/-- The fields of a workload that tell what becomes of it. -/
structure Core where
  policy : Policy
  progress : Progress
  generation : WorkloadGeneration
  restartCount : UInt32
  cancelledFinal : Bool
  ids : List ExecutionEpisodeId
  migrationCounter : UInt64

namespace Workload

def core (w : Workload) : Core where
  policy := w.policy
  progress := w.progress
  generation := w.generation
  restartCount := w.restartCount
  cancelledFinal := w.cancelledFinal
  ids := w.episodeIds
  migrationCounter := w.episodeCounterForMigration

end Workload

/-- A new episode. -/
def Core.begin (c : Core) (id : ExecutionEpisodeId) : Core :=
  { c with generation := next c.generation, ids := c.ids ++ [id] }

/-- What is left of the workload, if all goes well. -/
def Interruption.leaves (counter : UInt64) (c : Core) : Interruption → Core
  | .suspension _ _ _ _ => c.begin (.fromU64 counter)
  | .migration _ _ =>
    { c.begin (.fromU64 c.migrationCounter) with migrationCounter := c.migrationCounter + 1 }
  | .loss _ _ _ _ _ => { c.begin (.fromU64 counter) with restartCount := c.restartCount + 1 }

/-- It goes well if the policy allows it and, for a loss, a restart slot is left. -/
def Interruption.Permitted (c : Core) (i : Interruption) : Prop :=
  i.AllowedBy c.policy ∧
    (i.isLoss = true → restartAllowed c.restartCount c.policy.restart.maxRestarts = true)

namespace Workload

/-! ### The steps on the way -/

/-- The operations on the way that neither start an episode nor take a restart slot. -/
def Calm : WorkloadOp → Prop
  | .requestSuspend _ | .completeSuspend _ | .requestResume _ | .admitDispatch _ _ _
  | .requestMigration _ | .onWorkerLost _ _ _ => True
  | _ => False

/-- They leave the core alone. -/
theorem Step.core_eq {w w' : Workload} {op : WorkloadOp} {o : Outcome} (h : Step w op o w')
    (hop : Calm op) : w'.core = w.core := by
  have hpolicy : w'.policy = w.policy := h.policy fun p hp => by rwa [hp] at hop
  have hfinal : w'.cancelledFinal = w.cancelledFinal := h.final_eq fun g hg => by rwa [hg] at hop
  have hcount : w'.restartCount = w.restartCount := by
    rcases h.restart_cases with hc | ⟨g, reason, rfl, -⟩
    · exact hc
    · exact hop.elim
  have hquiet : Quiet w w' := by
    rcases h.standing_cases with hq | ⟨_, _, _, _, rfl, -⟩ | ⟨_, _, _, rfl, -⟩ |
      ⟨_, _, _, _, _, _, rfl, -⟩
    · exact hq
    · exact hop.elim
    · exact hop.elim
    · exact hop.elim
  rw [core, core, hpolicy, hfinal, hcount, hquiet.progress, hquiet.generation, hquiet.episodeIds,
    hquiet.counter]

section Steps

variable {w w' : Workload} {o : Outcome}

theorem Step.suspend_requested (h : Step w (.requestSuspend w.generation) o w')
    (hw : w.state = .running) (hp : w.policy.suspension.allowed = true) :
    o = .allow ∧ w'.state = .suspendRequested := by
  cases h with
  | rejected _ hn => exact absurd ⟨rfl, hp, by rw [hw]; rfl⟩ hn
  | suspend => exact ⟨rfl, moved_state ..⟩
  | suspendRefused _ _ _ hn =>
    exact (hn (admits_of_edge hw (by decide) rfl (.inl (by decide)))).elim

theorem Step.suspend_completed {g : WorkloadGeneration} (h : Step w (.completeSuspend g) o w')
    (hg : g = w.generation) (hw : w.state = .suspendRequested) :
    o = .allow ∧ w'.state = .suspended := by
  cases h with
  | rejected _ hn => exact absurd ⟨hg, .inr (.inl hw)⟩ hn
  | suspendedAgain _ hs => exact ⟨rfl, hs⟩
  | suspended => exact ⟨rfl, moved_state ..⟩

theorem Step.resumed {g : WorkloadGeneration} (h : Step w (.requestResume g) o w')
    (hg : g = w.generation) (hw : w.state = .suspended) : o = .allow ∧ w'.state = .ready := by
  cases h with
  | rejected _ hn => exact absurd ⟨hg, .inl hw⟩ hn
  | resume => exact ⟨rfl, moved_state ..⟩

theorem Step.migration_requested (h : Step w (.requestMigration w.generation) o w')
    (hw : w.state = .running) (hp : w.policy.migration.eligibility ≠ .none) :
    o = .allow ∧ w'.state = .migrationPending := by
  cases h with
  | rejected _ hn => exact absurd ⟨rfl, hp, .inl (by rw [hw]; rfl)⟩ hn
  | migrate => exact ⟨rfl, moved_state ..⟩
  | migrateRefused _ _ hn => exact (hn (admits_of_edge hw (by decide) rfl (.inl (by decide)))).elim

theorem Step.migration_committed {g : WorkloadGeneration} {worker : WorkerId}
    {boot : WorkerBootId} (h : Step w (.commitMigration g worker boot) o w')
    (hg : g = w.generation) (hw : w.state = .migrationPending) :
    o = .allow ∧ w' = w.migrated worker boot := by
  cases h with
  | rejected _ hn => exact absurd ⟨hg, .inl hw⟩ hn
  | commitMigration => exact ⟨rfl, rfl⟩

/-- The worker of the current episode is reported lost. -/
theorem Step.worker_lost
    (h : Step w (.onWorkerLost ((w.currentEpisode.map (·.worker)).getD {})
      ((w.currentEpisode.map (·.boot)).getD {}) w.generation) o w')
    (hw : w.state = .running) {ep : Episode} (hep : w.currentEpisode = some ep) :
    o = .allow ∧ w'.state = .recovering := by
  cases h with
  | rejected _ hn => exact absurd ⟨rfl, ep, hep, by rw [hep]; rfl, by rw [hep]; rfl⟩ hn
  | lost =>
    rw [if_pos (.inl hw), moved_state]
    exact ⟨rfl, rfl⟩

theorem Step.restart_planned {g : WorkloadGeneration} {reason : Text}
    (h : Step w (.planRestart g reason) o w') (hg : g = w.generation) (hw : w.state = .recovering)
    (hclass : restartClassAllowed w.policy.restart.kind reason = true)
    (hslot : restartAllowed w.restartCount w.policy.restart.maxRestarts = true) :
    o = .allow ∧ w'.state = .restartPending ∧
      w'.core = { w.core with restartCount := w.restartCount + 1 } := by
  have ht : isTerminal w.state = false := by rw [hw]; rfl
  cases h with
  | rejected _ hn => exact absurd ⟨hg, ht, hclass, hslot⟩ hn
  | restart =>
    refine ⟨rfl, moved_state .., ?_⟩
    simp [core, episodeIds, takeRestartSlot]
  | restartRefused _ _ hn => exact (hn (admits_of_edge hw (by decide) rfl (.inl (by decide)))).elim

theorem Step.episode_started {id : ExecutionEpisodeId} {owner : OwnerId}
    {ownerGen : OwnerGeneration} (h : Step w (.startEpisode id owner ownerGen true) o w')
    (hw : resumeEligible w.state = true) (hf : w.cancelledFinal = false) :
    o = .allow ∧ w' = w.started id owner ownerGen true := by
  cases h with
  | rejected _ hn => exact absurd ⟨hf, hw⟩ hn
  | start => exact ⟨rfl, rfl⟩

/-- A start adds an episode and advances the generation. -/
theorem core_started (w : Workload) (id : ExecutionEpisodeId) (owner : OwnerId)
    (ownerGen : OwnerGeneration) : (w.started id owner ownerGen true).core = w.core.begin id := by
  obtain ⟨ep, hsucc, hid, -⟩ := w.started_succeeds id owner ownerGen true
  rw [core, core, Core.begin, hsucc.episodeIds, hid, hsucc.progress]
  simp [started, beginEpisode]

/-- The last episode is dispatched, if its id is found there. -/
theorem Step.dispatched {id : ExecutionEpisodeId} {worker : WorkerId} {boot : WorkerBootId}
    {es : List Episode} {ep : Episode} (h : Step w (.admitDispatch id worker boot) o w')
    (hw : w.state = .starting) (hes : w.episodes = es ++ [ep]) (hid : ep.id = id)
    (hfresh : id ∉ es.map (·.id)) (hep : ep.state = .admitted) :
    o = .allow ∧ w'.state = .running ∧ w'.episodes = es ++ [bindWorker worker boot ep] := by
  have hmiss : ∀ e ∈ es, (e.id == id) = false := fun e he =>
    beq_eq_false_iff_ne.mpr fun heq => hfresh (heq ▸ List.mem_map_of_mem he)
  have hhit : (ep.id == id) = true := beq_iff_eq.mpr hid
  have hfind : w.findEpisode id = some ep := by
    rw [findEpisode, hes]
    exact FirstMatch.find?_append_singleton (p := fun e : Episode => e.id == id) hhit hmiss
  have hedit : (w.modifyEpisode id (bindWorker worker boot)).episodes =
      es ++ [bindWorker worker boot ep] := by
    rw [modifyEpisode, hes]
    exact FirstMatch.modifyFirst_append_singleton (p := fun e : Episode => e.id == id) hhit hmiss
  cases h with
  | rejected _ hn => exact absurd ⟨ep, hfind, .inl hep⟩ hn
  | dispatch =>
    rw [if_pos hw, moved_state, moved_episodes]
    exact ⟨rfl, rfl, hedit⟩

end Steps

end Workload

namespace WorkloadEngine

variable {σ : Type} [StateStore σ]

/-! ### The host -/

/-- Every call is accepted. -/
def Accepts (e : WorkloadEngine σ) (calls : List EngineCall) : Prop :=
  ∀ ev ∈ e.events calls, ev.result.outcome = .allow

/-- What the host does about an interruption. -/
def handle (e : WorkloadEngine σ) (id : WorkloadId) (i : Interruption) : List EngineCall :=
  (i.requests e.episodeCounter (e.snapshot id)).map (.on id)

/-- What it does about one after the other. -/
def handleAll (e : WorkloadEngine σ) (id : WorkloadId) : List Interruption → List EngineCall
  | [] => []
  | i :: is => e.handle id i ++ (e.run (e.handle id i)).handleAll id is

theorem accepts_cons {e : WorkloadEngine σ} {c : EngineCall} {calls : List EngineCall} :
    e.Accepts (c :: calls) ↔ (e.step c).1.outcome = .allow ∧ (e.step c).2.Accepts calls :=
  List.forall_mem_cons

theorem accepts_append {e : WorkloadEngine σ} {calls calls' : List EngineCall} :
    e.Accepts (calls ++ calls') ↔ e.Accepts calls ∧ (e.run calls).Accepts calls' := by
  rw [Accepts, events_append, List.forall_mem_append]
  rfl

/-- The workload runs on the worker. -/
structure RunsOn (w : Workload) (worker : WorkerId) (boot : WorkerBootId) : Prop where
  state : w.state = .running
  episode : ∃ ep, w.currentEpisode = some ep ∧ ep.authoritative = true ∧ ep.state = .running ∧
    ep.worker = worker ∧ ep.boot = boot

/-- Calls that are accepted, and bring the workload to run on the worker with such a core. -/
structure Brings (e : WorkloadEngine σ) (id : WorkloadId) (calls : List EngineCall)
    (worker : WorkerId) (boot : WorkerBootId) (counter : UInt64) (c : Core) : Prop where
  accepts : e.Accepts calls
  counter : (e.run calls).episodeCounter = counter
  workload : ∃ w, (e.run calls).get id = some w ∧ RunsOn w worker boot ∧ w.core = c

section Handle

variable {e : WorkloadEngine σ} {id : WorkloadId} {w : Workload} {worker : WorkerId}
  {boot : WorkerBootId} {counter : UInt64} {c : Core}

theorem Brings.nil (h : e.get id = some w) (hruns : RunsOn w worker boot)
    (hcounter : e.episodeCounter = counter) (hcore : w.core = c) :
    e.Brings id [] worker boot counter c :=
  ⟨fun _ hev => absurd hev List.not_mem_nil, hcounter, w, h, hruns, hcore⟩

/-- A request, and the calls behind it. -/
theorem Brings.on {r : Request} {calls : List EngineCall} (h : e.get id = some w)
    (hnext : ∀ (e' : WorkloadEngine σ) (w' : Workload) (o : Outcome), e'.get id = some w' →
      e'.episodeCounter = (if r.draws then e.episodeCounter + 1 else e.episodeCounter) →
      w.Step (r.operation e.episodeCounter w) o w' →
      o = .allow ∧ e'.Brings id calls worker boot counter c) :
    e.Brings id (.on id r :: calls) worker boot counter c := by
  obtain ⟨-, hcounter, -⟩ := e.step_on_some h r
  obtain ⟨w', hw', hs⟩ := step_on_step e h r
  obtain ⟨ho, hbrings⟩ := hnext _ w' _ hw' hcounter hs
  exact ⟨accepts_cons.mpr ⟨ho, hbrings.accepts⟩, hbrings.counter, hbrings.workload⟩

/-- The authoritative episode that stands last is the current one. -/
theorem currentEpisode_of_last {es : List Episode} {ep : Episode}
    (hes : w.episodes = es ++ [ep]) (hother : ∀ e ∈ es, e.authoritative = false)
    (hep : ep.authoritative = true) : w.currentEpisode = some ep := by
  rw [Workload.currentEpisode, hes, FirstMatch.find?_append_singleton hep hother]
  rfl

/-- **A new episode is started and dispatched.** -/
theorem brings_episode (h : e.get id = some w) (hw : Workload.resumeEligible w.state = true)
    (hf : w.cancelledFinal = false) (hfresh : .fromU64 e.episodeCounter ∉ w.episodeIds)
    (owner : OwnerId) (ownerGen : OwnerGeneration) (worker : WorkerId) (boot : WorkerBootId) :
    e.Brings id [.on id (.startEpisode owner ownerGen),
      .on id (.admitDispatch (.fromU64 e.episodeCounter) worker boot)] worker boot
      (e.episodeCounter + 1) (w.core.begin (.fromU64 e.episodeCounter)) := by
  refine .on h fun e₁ w₁ o₁ hw₁ hcounter₁ hs₁ => ?_
  obtain ⟨ho₁, rfl⟩ := hs₁.episode_started hw hf
  obtain ⟨ep, hsucc, hid, -, hst⟩ := w.started_succeeds (.fromU64 e.episodeCounter) owner ownerGen
    true
  have hcore := w.core_started (.fromU64 e.episodeCounter) owner ownerGen
  refine ⟨ho₁, .on hw₁ fun e₂ w₂ o₂ hw₂ hcounter₂ hs₂ => ?_⟩
  -- its id is found nowhere before it
  have hids : (Workload.revokeAuthority w.episodes).map (·.id) = w.episodeIds := by
    rw [Workload.revokeAuthority, List.map_map]
    rfl
  obtain ⟨ho₂, hstate, hes⟩ := hs₂.dispatched (Workload.started_state ..) hsucc.episodes hid
    (by rwa [hids]) hst
  have hcurrent := currentEpisode_of_last hes (fun _ => Workload.mem_revokeAuthority)
    hsucc.authoritative
  exact ⟨ho₂, .nil hw₂ ⟨hstate, _, hcurrent, hsucc.authoritative, rfl, rfl, rfl⟩
    (hcounter₂.trans hcounter₁) ((hs₂.core_eq trivial).trans hcore)⟩

omit [StateStore σ] in
theorem handle_eq (h : e.get id = some w) (i : Interruption) :
    e.handle id i = (i.requests e.episodeCounter w).map (.on id) := by
  rw [handle, snapshot, h]
  rfl

/-- **An interruption that is permitted is overcome.** -/
theorem brings_handle (h : e.get id = some w) (hw : w.state = .running) {ep : Episode}
    (hep : w.currentEpisode = some ep) (hf : w.cancelledFinal = false)
    (hfresh : .fromU64 e.episodeCounter ∉ w.episodeIds) {i : Interruption}
    (hi : i.Permitted w.core) :
    e.Brings id (e.handle id i) i.worker i.boot
      (if i.draws then e.episodeCounter + 1 else e.episodeCounter)
      (i.leaves e.episodeCounter w.core) := by
  rw [handle_eq h]
  -- the last two requests of a suspension and of a loss
  have hepisode {e' : WorkloadEngine σ} {w' : Workload} (h' : e'.get id = some w')
      (hw' : Workload.resumeEligible w'.state = true) (hc : e'.episodeCounter = e.episodeCounter)
      (hf' : w'.cancelledFinal = w.cancelledFinal) (hids : w'.episodeIds = w.episodeIds)
      (owner : OwnerId) (ownerGen : OwnerGeneration) (worker : WorkerId) (boot : WorkerBootId) :
      e'.Brings id [.on id (.startEpisode owner ownerGen),
        .on id (.admitDispatch (.fromU64 e.episodeCounter) worker boot)] worker boot
        (e.episodeCounter + 1) (w'.core.begin (.fromU64 e.episodeCounter)) := by
    rw [← hc]
    exact brings_episode h' hw' (hf'.trans hf) (by rwa [hc, hids]) owner ownerGen worker boot
  cases i with
  | suspension owner ownerGen worker boot =>
    refine .on h fun e₁ w₁ o₁ hw₁ hcounter₁ hs₁ => ?_
    have hcore₁ := hs₁.core_eq trivial
    obtain ⟨ho₁, hst₁⟩ := hs₁.suspend_requested hw hi.1
    refine ⟨ho₁, .on hw₁ fun e₂ w₂ o₂ hw₂ hcounter₂ hs₂ => ?_⟩
    have hcore₂ := (hs₂.core_eq trivial).trans hcore₁
    obtain ⟨ho₂, hst₂⟩ := hs₂.suspend_completed (congrArg Core.generation hcore₁).symm hst₁
    refine ⟨ho₂, .on hw₂ fun e₃ w₃ o₃ hw₃ hcounter₃ hs₃ => ?_⟩
    have hcore₃ := (hs₃.core_eq trivial).trans hcore₂
    obtain ⟨ho₃, hst₃⟩ := hs₃.resumed (congrArg Core.generation hcore₂).symm hst₂
    refine ⟨ho₃, ?_⟩
    have hbrings := hepisode hw₃ (by rw [hst₃]; rfl)
      (hcounter₃.trans (hcounter₂.trans hcounter₁)) (congrArg Core.cancelledFinal hcore₃)
      (congrArg Core.ids hcore₃) owner ownerGen worker boot
    rwa [hcore₃] at hbrings
  | migration worker boot =>
    refine .on h fun e₁ w₁ o₁ hw₁ hcounter₁ hs₁ => ?_
    have hcore₁ := hs₁.core_eq trivial
    obtain ⟨ho₁, hst₁⟩ := hs₁.migration_requested hw hi.1
    refine ⟨ho₁, .on hw₁ fun e₂ w₂ o₂ hw₂ hcounter₂ hs₂ => ?_⟩
    obtain ⟨ho₂, rfl⟩ := hs₂.migration_committed (congrArg Core.generation hcore₁).symm hst₁
    obtain ⟨ep', hsucc, hid, -, hst, hworker, hboot⟩ := w₁.migrated_succeeds worker boot
    have hcurrent := currentEpisode_of_last hsucc.episodes (fun _ => Workload.mem_revokeAuthority)
      hsucc.authoritative
    refine ⟨ho₂, .nil hw₂ ⟨Workload.moved_state .., ep', hcurrent, hsucc.authoritative, hst,
      hworker, hboot⟩ (hcounter₂.trans hcounter₁) ?_⟩
    rw [← hcore₁, Workload.core, Interruption.leaves, hsucc.episodeIds, hid, hsucc.progress]
    simp [Workload.migrated, Workload.handOver, Workload.core, Core.begin]
  | loss reason owner ownerGen worker boot =>
    refine .on h fun e₁ w₁ o₁ hw₁ hcounter₁ hs₁ => ?_
    have hcore₁ := hs₁.core_eq trivial
    obtain ⟨ho₁, hst₁⟩ := hs₁.worker_lost hw hep
    refine ⟨ho₁, .on hw₁ fun e₂ w₂ o₂ hw₂ hcounter₂ hs₂ => ?_⟩
    have hpolicy : w₁.policy = w.policy := congrArg Core.policy hcore₁
    have hcount : w₁.restartCount = w.restartCount := congrArg Core.restartCount hcore₁
    obtain ⟨ho₂, hst₂, hcore₂⟩ := hs₂.restart_planned (congrArg Core.generation hcore₁).symm hst₁
      (by rw [hpolicy]; exact hi.1) (by rw [hpolicy, hcount]; exact hi.2 rfl)
    rw [hcore₁, hcount] at hcore₂
    refine ⟨ho₂, ?_⟩
    have hbrings := hepisode hw₂ (by rw [hst₂]; rfl) (hcounter₂.trans hcounter₁)
      (congrArg Core.cancelledFinal hcore₂) (congrArg Core.ids hcore₂) owner ownerGen worker boot
    rwa [hcore₂] at hbrings

/-- **An interruption that is overcome was permitted.** -/
theorem permitted_of_accepts (h : e.get id = some w) {i : Interruption}
    (ha : e.Accepts (e.handle id i)) : i.Permitted w.core := by
  rw [handle_eq h] at ha
  cases i with
  | suspension owner ownerGen worker boot =>
    obtain ⟨ho, -⟩ := accepts_cons.mp ha
    obtain ⟨w₁, -, hs⟩ := step_on_step e h (.requestSuspend w.generation)
    rw [ho] at hs
    exact ⟨hs.granted.2.1, fun hl => absurd hl Bool.false_ne_true⟩
  | migration worker boot =>
    obtain ⟨ho, -⟩ := accepts_cons.mp ha
    obtain ⟨w₁, -, hs⟩ := step_on_step e h (.requestMigration w.generation)
    rw [ho] at hs
    exact ⟨hs.granted.2.1, fun hl => absurd hl Bool.false_ne_true⟩
  | loss reason owner ownerGen worker boot =>
    obtain ⟨-, ha⟩ := accepts_cons.mp ha
    obtain ⟨ho, -⟩ := accepts_cons.mp ha
    obtain ⟨w₁, hw₁, hs₁⟩ := step_on_step e h
      (.onWorkerLost ((w.currentEpisode.map (·.worker)).getD {})
        ((w.currentEpisode.map (·.boot)).getD {}) w.generation)
    have hcore₁ := hs₁.core_eq trivial
    obtain ⟨w₂, -, hs₂⟩ := step_on_step _ hw₁ (.planRestart reason w.generation)
    rw [ho] at hs₂
    obtain ⟨-, -, hclass, hslot⟩ := hs₂.granted
    rw [← hcore₁]
    exact ⟨hclass, fun _ => hslot⟩

end Handle

/-! ### One interruption after the other -/

/-- The next `n` draws of the engine and of the workload are new to it. -/
structure Unused (counter : UInt64) (c : Core) (n : ℕ) : Prop where
  bound : n ≤ 2 ^ 64
  fresh : ∀ k < n, .fromU64 (counter + .ofNat k) ∉ c.ids
  apart : ∀ k < n, ∀ j < n, counter + .ofNat k ≠ c.migrationCounter + .ofNat j

/-- Draws go round after `2 ^ 64`. -/
theorem add_ofNat_succ (a : UInt64) (k : ℕ) : a + 1 + .ofNat k = a + .ofNat (k + 1) := by
  rw [Nat.add_comm, UInt64.ofNat_add, UInt64.add_assoc]
  rfl

theorem Unused.leaves {counter : UInt64} {c : Core} {n : ℕ} (h : Unused counter c (n + 1))
    (i : Interruption) :
    Unused (if i.draws then counter + 1 else counter) (i.leaves counter c) n := by
  have hbound := h.bound
  -- a draw that is taken is none of the next
  have hdrawn : Unused (counter + 1) (c.begin (.fromU64 counter)) n := by
    refine ⟨by omega, fun k hk hmem => ?_, fun k hk j hj => ?_⟩
    · rw [add_ofNat_succ] at hmem
      rcases List.mem_append.mp hmem with hmem | hmem
      · exact h.fresh (k + 1) (by omega) hmem
      · have heq : counter + .ofNat (k + 1) = counter :=
          congrArg UniqueValue.toU64 (List.mem_singleton.mp hmem)
        rw [UInt64.add_eq_left] at heq
        have hzero := congrArg UInt64.toNat heq
        rw [UInt64.toNat_ofNat_of_lt' (show k + 1 < 2 ^ 64 by omega)] at hzero
        exact absurd hzero (Nat.succ_ne_zero k)
    · rw [add_ofNat_succ]
      exact h.apart (k + 1) (by omega) j (by omega)
  cases i with
  | suspension => exact hdrawn
  | loss => exact ⟨hdrawn.bound, hdrawn.fresh, hdrawn.apart⟩
  | migration =>
    refine ⟨by omega, fun k hk hmem => ?_, fun k hk j hj => ?_⟩
    · rcases List.mem_append.mp hmem with hmem | hmem
      · exact h.fresh k (by omega) hmem
      · refine h.apart k (by omega) 0 (by omega) ?_
        rw [show UInt64.ofNat 0 = 0 from rfl, UInt64.add_zero]
        exact congrArg UniqueValue.toU64 (List.mem_singleton.mp hmem)
    · rw [show (Interruption.leaves counter c _).migrationCounter = c.migrationCounter + 1 from rfl,
        add_ofNat_succ]
      exact h.apart k (by omega) (j + 1) (by omega)

/-- The core after all of them, and the counter of the engine. -/
def leftBy : List Interruption → UInt64 → Core → Core
  | [], _, c => c
  | i :: is, counter, c =>
    leftBy is (if i.draws then counter + 1 else counter) (i.leaves counter c)

/-- Each of them is permitted when it comes. -/
def AllPermitted : List Interruption → UInt64 → Core → Prop
  | [], _, _ => True
  | i :: is, counter, c => i.Permitted c ∧
      AllPermitted is (if i.draws then counter + 1 else counter) (i.leaves counter c)

/-- **Which interruptions are overcome**, and what they leave. -/
theorem accepts_handleAll_iff {id : WorkloadId} (is : List Interruption) {e : WorkloadEngine σ}
    {w : Workload} (h : e.get id = some w) (hw : w.state = .running)
    (hep : w.currentEpisode.isSome = true) (hf : w.cancelledFinal = false)
    (hids : Unused e.episodeCounter w.core is.length) :
    (e.Accepts (e.handleAll id is) ↔ AllPermitted is e.episodeCounter w.core) ∧
    (e.Accepts (e.handleAll id is) → ∃ w', (e.run (e.handleAll id is)).get id = some w' ∧
      w'.state = .running ∧ w'.core = leftBy is e.episodeCounter w.core ∧
      ∀ i, is.getLast? = some i → RunsOn w' i.worker i.boot) := by
  induction is generalizing e w with
  | nil =>
    have haccepts : e.Accepts (e.handleAll id []) := fun _ hev => absurd hev List.not_mem_nil
    exact ⟨iff_of_true haccepts trivial, fun _ => ⟨w, h, hw, rfl, fun _ hi => by cases hi⟩⟩
  | cons i is ih =>
    by_cases hi : i.Permitted w.core
    · obtain ⟨ep, hep⟩ := Option.isSome_iff_exists.mp hep
      have hfresh : .fromU64 e.episodeCounter ∉ w.episodeIds := by
        have hzero := hids.fresh 0 (Nat.succ_pos _)
        rwa [show UInt64.ofNat 0 = 0 from rfl, UInt64.add_zero] at hzero
      obtain ⟨haccepts, hcounter, w₁, hw₁, hruns, hcore⟩ :=
        brings_handle h hw hep hf hfresh hi
      have hf₁ : w₁.cancelledFinal = false := by
        have hfinal := congrArg Core.cancelledFinal hcore
        cases i <;> exact hfinal.trans hf
      obtain ⟨ep₁, hep₁, -⟩ := hruns.episode
      obtain ⟨hiff, hleft⟩ := ih hw₁ hruns.state (by rw [hep₁]; rfl) hf₁ (by
        rw [hcounter, hcore]
        exact hids.leaves i)
      rw [hcounter, hcore] at hiff hleft
      refine ⟨?_, fun ha => ?_⟩
      · rw [handleAll, accepts_append, hiff]
        exact ⟨fun h => ⟨hi, h.2⟩, fun h => ⟨haccepts, h.2⟩⟩
      · obtain ⟨w', hw', hst, hcore', hlast⟩ := hleft (accepts_append.mp ha).2
        refine ⟨w', by rw [handleAll, run_append]; exact hw', hst, hcore', fun j hj => ?_⟩
        rcases is.eq_nil_or_concat with rfl | ⟨init, last, rfl⟩
        · obtain rfl := Option.some.inj hj
          obtain rfl := Option.some.inj (hw₁.symm.trans hw')
          exact hruns
        · refine hlast j ?_
          rw [List.concat_eq_append, ← List.cons_append, List.getLast?_append_of_ne_nil _
            (List.cons_ne_nil _ _)] at hj
          rwa [List.concat_eq_append, List.getLast?_append_of_ne_nil _ (List.cons_ne_nil _ _)]
    · have hna : ¬e.Accepts (e.handleAll id (i :: is)) := fun ha =>
        hi (permitted_of_accepts h (accepts_append.mp ha).1)
      exact ⟨iff_of_false hna fun hall => hi hall.1, fun ha => absurd ha hna⟩

/-! ### The budget -/

/-- The workers that are lost. -/
def losses (is : List Interruption) : ℕ := is.countP Interruption.isLoss

theorem losses_cons (i : Interruption) (is : List Interruption) :
    losses (i :: is) = losses is + if i.isLoss = true then 1 else 0 := List.countP_cons ..

/-- **Permission comes down to the policy and the number of losses.** -/
theorem allPermitted_iff (is : List Interruption) (counter : UInt64) (c : Core) :
    AllPermitted is counter c ↔ (∀ i ∈ is, i.AllowedBy c.policy) ∧
      (losses is = 0 ∨
        c.restartCount.toNat + losses is ≤ c.policy.restart.maxRestarts.toNat) := by
  induction is generalizing counter c with
  | nil => exact iff_of_true trivial ⟨fun _ hi => absurd hi List.not_mem_nil, .inl rfl⟩
  | cons i is ih =>
    have hpolicy : (i.leaves counter c).policy = c.policy := by cases i <;> rfl
    rw [AllPermitted, ih, hpolicy, List.forall_mem_cons, losses_cons, Interruption.Permitted]
    cases hl : i.isLoss with
    | false =>
      have hcount : (i.leaves counter c).restartCount = c.restartCount := by
        cases i <;> first | rfl | cases hl
      rw [hcount]
      simp only [Bool.false_eq_true, false_imp_iff, and_true, if_false, Nat.add_zero, and_assoc]
    | true =>
      have hcount : (i.leaves counter c).restartCount = c.restartCount + 1 := by
        cases i <;> first | rfl | cases hl
      have hmax := c.policy.restart.maxRestarts.toNat_lt
      rw [hcount, restartAllowed, decide_eq_true_iff, UInt32.lt_iff_toNat_lt]
      simp only [true_imp_iff, if_true]
      -- a slot that is granted is counted without going round
      have hsucc (hlt : c.restartCount.toNat < c.policy.restart.maxRestarts.toNat) :
          (c.restartCount + 1).toNat = c.restartCount.toNat + 1 := by
        rw [UInt32.toNat_add, UInt32.toNat_one]
        omega
      constructor
      · rintro ⟨⟨hi, hlt⟩, his, hbudget⟩
        rw [hsucc hlt] at hbudget
        exact ⟨⟨hi, his⟩, by omega⟩
      · rintro ⟨⟨hi, his⟩, hbudget⟩
        have hlt : c.restartCount.toNat < c.policy.restart.maxRestarts.toNat := by omega
        refine ⟨⟨hi, hlt⟩, his, ?_⟩
        rw [hsucc hlt]
        omega

/-- What all of them leave of the core. -/
theorem leftBy_eq (is : List Interruption) (counter : UInt64) (c : Core) :
    (leftBy is counter c).policy = c.policy ∧ (leftBy is counter c).progress = c.progress ∧
      (leftBy is counter c).restartCount = c.restartCount + .ofNat (losses is) ∧
      (leftBy is counter c).generation.toU64 = c.generation.toU64 + .ofNat is.length ∧
      (leftBy is counter c).ids.length = c.ids.length + is.length := by
  induction is generalizing counter c with
  | nil => exact ⟨rfl, rfl, (UInt32.add_zero _).symm, (UInt64.add_zero _).symm, rfl⟩
  | cons i is ih =>
    obtain ⟨hpolicy, hprogress, hcount, hgeneration, hids⟩ :=
      ih (if i.draws then counter + 1 else counter) (i.leaves counter c)
    have hgen : (i.leaves counter c).generation.toU64 = c.generation.toU64 + 1 := by
      cases i <;> rfl
    have hlen : (i.leaves counter c).ids.length = c.ids.length + 1 := by
      cases i <;> exact List.length_append
    refine ⟨hpolicy.trans ?_, hprogress.trans ?_, hcount.trans ?_, hgeneration.trans ?_,
      hids.trans ?_⟩
    · cases i <;> rfl
    · cases i <;> rfl
    · rw [losses_cons]
      cases i with
      | loss =>
        rw [if_pos (show Interruption.isLoss _ = true from rfl), Nat.add_comm, UInt32.ofNat_add,
          ← UInt32.add_assoc]
        rfl
      | _ => rfl
    · rw [hgen, add_ofNat_succ, List.length_cons]
    · rw [hlen, List.length_cons]
      omega

/-! ### Runs -/

/-- A workload without episodes awaits its start. -/
theorem awaits_of_no_episodes {store : Option σ} {calls : List EngineCall} {id : WorkloadId}
    {w : Workload} (h : ((ofStore store).run calls).get id = some w) (hnil : w.episodes = []) :
    Workload.awaitsStart w.state = true := by
  revert hnil
  refine workload_induction (P := fun _ w => w.episodes = [] → Workload.awaitsStart w.state = true)
    ?_ ?_ ?_ calls h
  · exact fun _ _ _ _ _ _ => rfl
  · exact fun _ _ _ _ _ hw => hw
  · intro calls r w _ hw hnil
    have hs := w.apply_step none (r.operation ((ofStore store).run calls).episodeCounter w)
    rcases hs.granted_or with hg | ⟨-, heq, -⟩
    · -- no episode was there, and none was pushed
      rw [hs.episodes_eq hg, List.append_eq_nil_iff, List.mapIdx_eq_nil_iff] at hnil
      obtain ⟨hnil, hnew⟩ := hnil
      rcases hs.state_cases with hst | ⟨-, hm⟩
      · rw [hst]
        exact hw hnil
      · refine Workload.awaits_of_moves_of_not_start (r.governs _ w) (hw hnil) hm ?_
        intro id' owner ownerGen adv hop
        rw [hop] at hnew
        exact absurd hnew (List.cons_ne_nil _ _)
    · rw [heq] at hnil ⊢
      exact hw hnil

/-- The ids of the first thousand calls are new. -/
theorem unused_of_run {store : Option σ} {calls : List EngineCall} {id : WorkloadId}
    {w : Workload} (h : ((ofStore store).run calls).get id = some w) {n : ℕ}
    (hn : calls.length + n ≤ 1000) :
    Unused ((ofStore store).run calls).episodeCounter w.core n := by
  obtain ⟨-, hlt, hle⟩ := @draws_increasing σ _ store id calls (by omega)
  have hdrawn := drawn_of_run h
  have hmigrations : migrations id ((ofStore store).events calls) ≤ calls.length :=
    List.countP_le_length.trans (length_events _ _).le
  set counter := ((ofStore store).run calls).episodeCounter
  set m := migrations id ((ofStore store).events calls)
  have hnat (k : ℕ) (hk : k < n) : (counter + .ofNat k).toNat = counter.toNat + k := by
    rw [UInt64.toNat_add, UInt64.toNat_ofNat_of_lt' (show k < 2 ^ 64 by omega)]
    omega
  refine ⟨by omega, fun k hk hmem => ?_, fun k hk j hj heq => ?_⟩
  · obtain ⟨c, hc, heq⟩ := List.mem_map.mp (hdrawn.ids.mem_iff.mp hmem)
    have hc' : c = counter + .ofNat k := congrArg UniqueValue.toU64 heq
    rcases List.mem_append.mp hc with hc | hc
    · have hless := UInt64.lt_iff_toNat_lt.mp (hlt c hc)
      rw [hc', hnat k hk] at hless
      omega
    · have hmore := ((mem_targets (by omega) c).mp hc).1
      rw [hc', hnat k hk] at hmore
      omega
  · have hright : (w.core.migrationCounter + .ofNat j).toNat = 2000 + m + j := by
      rw [show w.core.migrationCounter = 2000 + .ofNat m from hdrawn.counter, UInt64.toNat_add,
        UInt64.toNat_add, UInt64.toNat_ofNat_of_lt' (show m < 2 ^ 64 by omega),
        UInt64.toNat_ofNat_of_lt' (show j < 2 ^ 64 by omega),
        show (2000 : UInt64).toNat = 2000 from rfl]
      omega
    have hleft := hnat k hk
    rw [heq, hright] at hleft
    omega

/-- **A running workload is carried on as long as its policy and its restart slots allow
it.**  In every run of an engine whose next ids are new to the workload, all that the host
does about any sequence of interruptions is accepted exactly if the policy allows each of them
and the losses fit into the restart slots that are left; and then nothing is lost of the progress,
and the workload runs on the worker that was named last. -/
theorem carried_on_iff {store : Option σ} {calls : List EngineCall} {id : WorkloadId}
    {w : Workload} (h : ((ofStore store).run calls).get id = some w) (hw : w.state = .running)
    (is : List Interruption)
    (hids : Unused ((ofStore store).run calls).episodeCounter w.core is.length) :
    (((ofStore store).run calls).Accepts (((ofStore store).run calls).handleAll id is) ↔
      (∀ i ∈ is, i.AllowedBy w.policy) ∧ (losses is = 0 ∨
        w.restartCount.toNat + losses is ≤ w.policy.restart.maxRestarts.toNat)) ∧
    (((ofStore store).run calls).Accepts (((ofStore store).run calls).handleAll id is) →
      ∃ w', ((ofStore store).run (calls ++ ((ofStore store).run calls).handleAll id is)).get id =
          some w' ∧
        w'.state = .running ∧ w'.policy = w.policy ∧ w'.progress = w.progress ∧
        w'.restartCount = w.restartCount + .ofNat (losses is) ∧
        w'.generation.toU64 = w.generation.toU64 + .ofNat is.length ∧
        w'.episodes.length = w.episodes.length + is.length ∧
        ∀ i, is.getLast? = some i → RunsOn w' i.worker i.boot) := by
  have hf := (governed_of_run h).not_final (by rw [hw]; decide) (by rw [hw]; rfl)
  have hep : w.currentEpisode.isSome = true := by
    have hne : w.episodes ≠ [] := fun hnil => by
      have hawaits := awaits_of_no_episodes h hnil
      rw [hw] at hawaits
      exact absurd hawaits (by decide)
    rw [Workload.currentEpisode, Option.isSome_or, List.getLast?_isSome.mpr hne, Bool.or_true]
  obtain ⟨hiff, hleft⟩ := accepts_handleAll_iff is h hw hep hf hids
  refine ⟨hiff.trans (allPermitted_iff is _ w.core), fun ha => ?_⟩
  obtain ⟨w', hw', hst, hcore, hlast⟩ := hleft ha
  obtain ⟨hpolicy, hprogress, hcount, hgeneration, hlen⟩ :=
    leftBy_eq is ((ofStore store).run calls).episodeCounter w.core
  rw [← hcore] at hpolicy hprogress hcount hgeneration hlen
  refine ⟨w', by rw [run_append]; exact hw', hst, hpolicy, hprogress, hcount, hgeneration, ?_,
    hlast⟩
  rwa [Workload.core, Workload.core, Workload.episodeIds, Workload.episodeIds, List.length_map,
    List.length_map] at hlen

/-- A workload of two restart slots that runs. -/
def launchAndRun : List EngineCall :=
  launch (.fromU64 1) { restart := { kind := .alwaysWithLimit, maxRestarts := 2 } } ++
    [.on (.fromU64 1) (.admitDispatch (.fromU64 1000) (.fromU64 1) (.fromU64 1))]

/-- It is suspended and resumed, and twice loses its worker. -/
def threeInterruptions : List Interruption :=
  [.suspension (.fromU64 1) (.fromU64 1) (.fromU64 2) (.fromU64 1),
    .loss (text "WORKER_LOSS") (.fromU64 1) (.fromU64 1) (.fromU64 3) (.fromU64 1),
    .loss (text "WORKER_LOSS") (.fromU64 1) (.fromU64 1) (.fromU64 3) (.fromU64 2)]

theorem carried_on_iff_launched :
    ∃ w', ((ofStore (none : Option (MemoryStateStore .leftToRight))).run (launchAndRun ++
        ((ofStore (none : Option (MemoryStateStore .leftToRight))).run launchAndRun).handleAll
          (.fromU64 1) threeInterruptions)).get (.fromU64 1) = some w' ∧
      w'.state = .running ∧ w'.restartCount = 2 ∧ RunsOn w' (.fromU64 3) (.fromU64 2) := by
  obtain ⟨w, h, hw, hpolicy, hcount⟩ :
      ∃ w, ((ofStore (none : Option (MemoryStateStore .leftToRight))).run launchAndRun).get
          (.fromU64 1) = some w ∧ w.state = .running ∧
        w.policy = { restart := { kind := .alwaysWithLimit, maxRestarts := 2 } } ∧
        w.restartCount = 0 := ⟨_, rfl, by decide, by decide, by decide⟩
  obtain ⟨hiff, hleft⟩ := carried_on_iff h hw threeInterruptions (unused_of_run h (by decide))
  rw [hpolicy, hcount] at hiff
  obtain ⟨w', hw', hst, -, -, hcount', -, -, hlast⟩ := hleft (hiff.mpr ⟨by decide, by decide⟩)
  rw [hcount] at hcount'
  exact ⟨w', hw', hst, hcount', hlast _ rfl⟩

end WorkloadEngine

end WorkloadFabric
