/-
How frozen a terminal workload is.

The operations keyed by an episode, and the loss report, look neither at the state of
the workload nor at its flags.  On a terminal workload they are the ones that still
write: `Thaws` says when, and everything else leaves the frozen part of the workload
alone (`Step.frozen_iff`).

* **`terminal_frozen_iff`** — a terminal workload stays as it is in all continuations
  of a run exactly when no request thaws it;
* **`cancelled_dispatch_accepted`** — the episode of a cancelled workload is dispatched
  to a worker.
-/
import WorkloadFabric.EpisodeSteps
import WorkloadFabric.Moves

namespace WorkloadFabric

namespace Workload

/-- What of a terminal workload should not change: everything but the audit fields and
what the edits are for. -/
def frozen (w : Workload) : Workload :=
  { w with history := [], revision := {}, policy := {}, contract := {}, deps := {} }

/-- The operation writes to an episode of a terminal workload. -/
def Thaws (w : Workload) : WorkloadOp → Prop
  | .admitDispatch episode _ _ =>
    ∃ ep, w.findEpisode episode = some ep ∧ (ep.state = .admitted ∨ ep.state = .preempted)
  | .onWorkerLost worker boot g => g = w.generation ∧ ∃ ep, w.currentEpisode = some ep ∧
    ep.worker = worker ∧ ep.boot = boot ∧ ¬(ep.workerLost = true ∧ ep.state = .lost)
  | .markEpisodeCompleted id =>
    ∃ ep, w.findEpisode id = some ep ∧ ¬(ep.completed = true ∧ ep.state = .completed)
  | .markEpisodeFailed id =>
    ∃ ep, w.findEpisode id = some ep ∧ ¬(ep.failed = true ∧ ep.state = .failed)
  | _ => False

theorem granted_of_thaws {w : Workload} {op : WorkloadOp} (h : w.Thaws op) : w.Granted op := by
  cases op with
  | admitDispatch => exact h
  | onWorkerLost =>
    obtain ⟨hg, ep, hc, hw, hb, -⟩ := h
    exact ⟨hg, ep, hc, hw, hb⟩
  | markEpisodeCompleted =>
    obtain ⟨ep, hf, -⟩ := h
    exact ⟨ep, hf⟩
  | markEpisodeFailed =>
    obtain ⟨ep, hf, -⟩ := h
    exact ⟨ep, hf⟩
  | _ => exact h.elim

/-- Only the episodes are looked at where only they are rewritten. -/
theorem frozen_episodes_iff {w : Workload} {es : List Episode} :
    { w with episodes := es }.frozen = w.frozen ↔ es = w.episodes := by
  constructor
  · exact fun h => congrArg Workload.episodes h
  · rintro rfl
    rfl

/-- A loss that is on record already leaves the episode as it is. -/
theorem loseWorker_eq_self_iff {e : Episode} :
    loseWorker e = e ↔ e.workerLost = true ∧ e.state = .lost := by
  constructor
  · intro h
    rw [← h]
    exact ⟨rfl, rfl⟩
  · rintro ⟨hm, hs⟩
    rw [loseWorker, ← hm, ← hs]

theorem completeEpisode_eq_self_iff {e : Episode} :
    completeEpisode e = e ↔ e.completed = true ∧ e.state = .completed := by
  constructor
  · intro h
    rw [← h]
    exact ⟨rfl, rfl⟩
  · rintro ⟨hm, hs⟩
    rw [completeEpisode, ← hm, ← hs]

theorem failEpisode_eq_self_iff {e : Episode} :
    failEpisode e = e ↔ e.failed = true ∧ e.state = .failed := by
  constructor
  · intro h
    rw [← h]
    exact ⟨rfl, rfl⟩
  · rintro ⟨hm, hs⟩
    rw [failEpisode, ← hm, ← hs]

/-- Rewriting an episode does not show exactly when the rewriting leaves it as it is. -/
theorem frozen_modifyEpisode_iff {w : Workload} {id : ExecutionEpisodeId}
    {f : Episode → Episode} {p : Episode → Prop} (hp : ∀ e, f e = e ↔ p e) :
    (w.modifyEpisode id f).frozen = w.frozen ↔
      ¬∃ e, w.findEpisode id = some e ∧ ¬p e := by
  rw [modifyEpisode, frozen_episodes_iff]
  refine modifyEpisode_episodes_iff.trans ⟨?_, fun hn e he => ?_⟩
  · rintro hall ⟨e, hf, hne⟩
    exact hne ((hp e).mp (hall e hf))
  · by_contra hne
    exact hn ⟨e, he, fun hm => hne ((hp e).mpr hm)⟩

theorem not_terminal_of_running {s : WorkloadState} (h : isActivelyRunning s = true) :
    isTerminal s = false := by
  cases s <;> first | rfl | exact absurd h (by decide)

theorem not_terminal_of_cancelling {s : WorkloadState} (h : isCancelling s = true) :
    isTerminal s = false := by
  cases s <;> first | rfl | exact absurd h (by decide)

/-- **A step leaves a terminal workload as it is exactly when it does not thaw it.** -/
theorem Step.frozen_iff {w w' : Workload} {op : WorkloadOp} {o : Outcome} (h : Step w op o w')
    (ht : isTerminal w.state = true) (hc : w.state = .cancelled → w.cancelledFinal = true) :
    w'.frozen = w.frozen ↔ ¬w.Thaws op := by
  have hdead (hn : isTerminal w.state = false) : False := by
    rw [hn] at ht
    exact Bool.false_ne_true ht
  have hother {s : WorkloadState} (hs : w.state = s) (hn : isTerminal s = false) : False :=
    hdead (hs ▸ hn)
  have hself {s : WorkloadState} (ha : w.Admits s) : w.state = s :=
    ha.resolve_right fun h => hdead h.1
  cases h with
  | rejected _ hn => exact iff_of_true rfl fun hth => hn (granted_of_thaws hth)
  | transition _ ha =>
    rw [moved_self (hself ha)]
    exact iff_of_true rfl not_false
  | transitionRefused => exact iff_of_true rfl not_false
  | settle _ _ ha =>
    rw [moved_self (hself ha)]
    exact iff_of_true rfl not_false
  | settleRefused => exact iff_of_true rfl not_false
  | start _ he => exact (hdead (not_terminal_of_eligible he)).elim
  | @dispatch episode worker boot ep hf hs =>
    -- binding a worker always shows: the episode was not RUNNING
    rw [if_neg fun hst => hother hst rfl, modifyEpisode, frozen_episodes_iff]
    refine iff_of_false (fun heq => ?_) (not_not.mpr ⟨ep, hf, hs⟩)
    have hrun := modifyEpisode_episodes_iff.mp heq ep hf
    rw [← hrun] at hs
    exact absurd hs (by simp [bindWorker])
  | progress _ _ _ _ hn => exact (hdead hn).elim
  | complete _ hg => exact (hdead hg.1).elim
  | completeRefused _ hg => exact (hdead hg.1).elim
  | finalize _ _ hn => exact (hdead hn).elim
  | finalizeRefused _ _ hn => exact (hdead hn).elim
  | cancelAgain _ hs => exact (hdead (not_terminal_of_cancelling hs)).elim
  | cancel _ hn => exact (hdead hn).elim
  | cancelRefused _ hn => exact (hdead hn).elim
  | cancelledAgain _ hs =>
    -- the flag is up already
    refine iff_of_true ?_ not_false
    rw [← hc hs]
  | cancelled _ hn => exact (hdead hn).elim
  | cancelledRefused _ hn => exact (hdead hn).elim
  | @lost worker boot g ep hg he hw hb =>
    have hne : ¬(w.state = .running ∨ w.state = .degraded) := by
      rintro (hs | hs) <;> exact hother hs rfl
    rw [if_neg hne, modifyCurrent, frozen_episodes_iff]
    refine modifyCurrent_episodes_iff.trans ⟨?_, fun hn e he' => ?_⟩
    · rintro hall ⟨-, ep', he', -, -, hne⟩
      exact hne (loseWorker_eq_self_iff.mp (hall ep' he'))
    · obtain rfl := Option.some.inj (he.symm.trans he')
      by_contra hne
      exact hn ⟨hg, ep, he, hw, hb, fun hm => hne (loseWorker_eq_self_iff.mpr hm)⟩
  | markCompleted => exact frozen_modifyEpisode_iff fun _ => completeEpisode_eq_self_iff
  | markFailed => exact frozen_modifyEpisode_iff fun _ => failEpisode_eq_self_iff
  | restart _ hr => exact (hdead hr.1).elim
  | restartRefused _ hr => exact (hdead hr.1).elim
  | suspend _ _ hs => exact (hdead (not_terminal_of_running hs)).elim
  | suspendRefused _ _ hs => exact (hdead (not_terminal_of_running hs)).elim
  | suspendedAgain => exact iff_of_true rfl not_false
  | suspended _ hs => rcases hs with hs | hs <;> exact (hother hs rfl).elim
  | resume _ hs => rcases hs with hs | hs <;> exact (hother hs rfl).elim
  | migrate _ hm =>
    rcases hm.2 with hs | hs
    · exact (hdead (not_terminal_of_running hs)).elim
    · exact (hother hs rfl).elim
  | migrateRefused _ hm =>
    rcases hm.2 with hs | hs
    · exact (hdead (not_terminal_of_running hs)).elim
    · exact (hother hs rfl).elim
  | commitMigration _ hs => rcases hs with hs | hs <;> exact (hother hs rfl).elim
  | setPolicy => exact iff_of_true rfl not_false
  | define => exact iff_of_true rfl not_false
  | setStatus => exact iff_of_true rfl not_false
  | addRequirement => exact iff_of_true rfl not_false
  | applyGrant => exact iff_of_true rfl not_false

end Workload

namespace WorkloadEngine

variable {σ : Type} [StateStore σ]

/-! ### Continuations -/

/-- **A terminal workload stays as it is in all continuations of a run exactly when no
operation thaws it.** -/
theorem terminal_frozen_iff {store : Option σ} {calls : List EngineCall} {id : WorkloadId}
    {w : Workload} (h : ((ofStore store).run calls).get id = some w)
    (ht : isTerminal w.state = true) (more : List EngineCall) :
    (∀ pre post w', more = pre ++ post →
      (((ofStore store).run calls).run pre).get id = some w' → w'.frozen = w.frozen) ↔
      Performing ((ofStore store).run calls) id (fun w op => ¬w.Thaws op) more := by
  refine always_iff_performing (I := fun w => w.Governed ∧ isTerminal w.state = true)
    (p := fun w' => w'.frozen = w.frozen) ?_ ?_ h ⟨governed_of_run h, ht⟩ rfl more
  · rintro counter r o w w' hs ⟨hgov, ht⟩
    exact ⟨hgov.step (r.governs counter w) hs, by rwa [hs.terminal ht]⟩
  · rintro counter r o w w' hs ⟨hgov, ht⟩ hp
    rw [← hp]
    exact hs.frozen_iff ht fun hc => (hgov.cancelled hc).2

/-- A launched workload that is cancelled before its episode is dispatched. -/
def launchAndCancelUndispatched : List EngineCall :=
  launch (.fromU64 1) {} ++
    [.on (.fromU64 1) (.cancel (.fromU64 2)),
      .on (.fromU64 1) (.completeCancellation (.fromU64 2))]

/-- Repeating the cancellation changes nothing. -/
theorem terminal_frozen_iff_cancelled :
    ∃ w, ((ofStore (none : Option (MemoryStateStore .leftToRight))).run
        launchAndCancelUndispatched).get (.fromU64 1) = some w ∧ w.state = .cancelled ∧
      ∀ pre post w', [EngineCall.on (.fromU64 1) (.completeCancellation (.fromU64 2))] =
          pre ++ post →
        (((ofStore (none : Option (MemoryStateStore .leftToRight))).run
          launchAndCancelUndispatched).run pre).get (.fromU64 1) = some w' →
        w'.frozen = w.frozen := by
  obtain ⟨w, h, hs⟩ : ∃ w, ((ofStore (none : Option (MemoryStateStore .leftToRight))).run
      launchAndCancelUndispatched).get (.fromU64 1) = some w ∧ w.state = .cancelled :=
    ⟨_, rfl, by decide⟩
  refine ⟨w, h, hs, (terminal_frozen_iff h (by rw [hs]; rfl) _).mpr ?_⟩
  intro pre r post w' heq _ hth
  have hr : EngineCall.on (.fromU64 1) r ∈
      [EngineCall.on (.fromU64 1) (.completeCancellation (.fromU64 2))] := by rw [heq]; simp
  obtain ⟨-, rfl⟩ := EngineCall.on.inj (List.mem_singleton.mp hr)
  exact hth

/-- The episode of a cancelled workload is dispatched to a worker, and runs. -/
theorem cancelled_dispatch_accepted :
    ¬∀ (calls more : List EngineCall) (id : WorkloadId) (w w' : Workload),
      ((ofStore (none : Option (MemoryStateStore .leftToRight))).run calls).get id = some w →
      isTerminal w.state = true →
      (((ofStore (none : Option (MemoryStateStore .leftToRight))).run calls).run more).get id
        = some w' → w'.frozen = w.frozen := by
  intro h
  have hfrozen := h launchAndCancelUndispatched
    [.on (.fromU64 1) (.admitDispatch (.fromU64 1000) (.fromU64 1) (.fromU64 1))] (.fromU64 1) _ _
    rfl (by decide) rfl
  exact absurd (congrArg (fun w => w.episodes.map (·.state)) hfrozen) (by decide)

end WorkloadEngine

end WorkloadFabric
