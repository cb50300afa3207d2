/-
No completion without execution, and the one way around it.

Under a completed workload lies an accepted transition into RUNNING (`HasRun`):
COMPLETING is entered from RUNNING, or from a cancellation.  The zero-work gate asks
for the states before the first start only, so a workload that was cancelled while it
was starting completes without having run.

* **`completed_has_run_iff`** — a workload is completed without having run exactly when
  a completion was granted to it under a cancellation that came before its first
  dispatch;
* **`cancelled_start_completes`** — such a run, under a policy that allows no zero-work
  completion.
-/
import WorkloadFabric.Moves

namespace WorkloadFabric

/-! ### The mark an execution leaves -/

/-- The audit entry of a dispatch, or of a migration to a new worker. -/
def TransitionRecord.MarksRun (r : TransitionRecord) : Prop :=
  r.toState = .running ∧ r.outcome = .allow ∧
    (r.reason = text "dispatch" ∨ r.reason = text "migration committed")

namespace Workload

/-- An episode of the workload was dispatched. -/
def HasRun (w : Workload) : Prop := ∃ r ∈ w.history, r.MarksRun

theorem hasRun_record_iff {w : Workload} {s t : WorkloadState} {reason : Text} {o : Outcome} :
    (w.record s t reason o).HasRun ↔ w.HasRun ∨ (t = .running ∧ o = .allow ∧
      (reason = text "dispatch" ∨ reason = text "migration committed")) := by
  constructor
  · rintro ⟨r, hr, hrun⟩
    rcases List.mem_append.mp hr with hr | hr
    · exact .inl ⟨r, hr, hrun⟩
    · rw [List.mem_singleton.mp hr] at hrun
      exact .inr hrun
  · rintro (⟨r, hr, hrun⟩ | h)
    · exact ⟨r, List.mem_append_left _ hr, hrun⟩
    · exact ⟨_, List.mem_append_right _ (List.mem_singleton_self _), h⟩

/-- A refusal marks nothing. -/
theorem hasRun_refused {w : Workload} {s t : WorkloadState} {reason : Text} {o : Outcome}
    (ho : o ≠ .allow) : (w.record s t reason o).HasRun ↔ w.HasRun := by
  rw [hasRun_record_iff]
  exact ⟨fun h => h.resolve_right fun h => ho h.2.1, .inl⟩

/-- Only the way into RUNNING marks a run. -/
theorem hasRun_moved_iff {w : Workload} {s : WorkloadState} {reason : Text} (hs : s ≠ .running) :
    (w.moved s reason).HasRun ↔ w.HasRun := by
  rw [moved]
  split
  · rfl
  · exact hasRun_record_iff.trans ⟨fun h => h.resolve_right fun h => hs h.1, .inl⟩

theorem hasRun_of_enter {w : Workload} {reason : Text} (hw : w.state ≠ .running)
    (hr : reason = text "dispatch" ∨ reason = text "migration committed") :
    (w.moved .running reason).HasRun := by
  rw [moved, if_neg hw]
  exact hasRun_record_iff.mpr (.inr ⟨rfl, rfl, hr⟩)

/-- Edits that leave the trail alone. -/
theorem hasRun_congr {w w' : Workload} (h : w'.history = w.history) : w'.HasRun ↔ w.HasRun := by
  rw [HasRun, HasRun, h]

theorem hasRun_started {w : Workload} {id : ExecutionEpisodeId} {owner : OwnerId}
    {ownerGen : OwnerGeneration} {adv : Bool} :
    (w.started id owner ownerGen adv).HasRun ↔ w.HasRun := by
  have hmoved : ((w.moved .ready (text "resume eligible")).moved .starting
      (text "start episode")).HasRun ↔ w.HasRun := by
    rw [hasRun_moved_iff (by decide), hasRun_moved_iff (by decide)]
  exact (hasRun_congr rfl).trans hmoved

/-- **How a step of an engine marks a run**: by leading into RUNNING. -/
theorem Step.run_cases {w w' : Workload} {op : WorkloadOp} {o : Outcome} (h : Step w op o w')
    (hop : Governs op) :
    ((w'.HasRun ↔ w.HasRun) ∧ (w'.state = .running → w.state = .running)) ∨
      (w'.HasRun ∧ w'.state = .running) := by
  have hmoved {w₁ : Workload} {s : WorkloadState} {reason : Text} (h₁ : w₁.history = w.history)
      (hs : s ≠ .running) : ((w₁.moved s reason).HasRun ↔ w.HasRun) ∧
        ((w₁.moved s reason).state = .running → w.state = .running) := by
    rw [hasRun_moved_iff hs, moved_state]
    exact ⟨hasRun_congr h₁, fun h => absurd h hs⟩
  have hkept {w₁ : Workload} (h₁ : w₁.history = w.history) (hs : w₁.state = w.state) :
      (w₁.HasRun ↔ w.HasRun) ∧ (w₁.state = .running → w.state = .running) :=
    ⟨hasRun_congr h₁, fun h => hs.symm.trans h⟩
  have hrefused {w₁ : Workload} {s : WorkloadState} {reason : Text} {o : Outcome} (ho : o ≠ .allow)
      (h₁ : w₁.history = w.history) (hs : w₁.state = w.state) :
      ((w₁.record w.state s reason o).HasRun ↔ w.HasRun) ∧
        ((w₁.record w.state s reason o).state = .running → w.state = .running) :=
    ⟨(hasRun_refused ho).trans (hasRun_congr h₁), fun h => hs.symm.trans h⟩
  cases h with
  | transition =>
    rw [show _ = WorkloadState.validating from hop]
    exact .inl (hmoved rfl (by decide))
  | transitionRefused _ ho => exact .inl (hrefused ho rfl rfl)
  | settle _ ht =>
    refine .inl (hmoved rfl fun hs => ?_)
    rw [hs] at ht
    exact absurd (settleTarget_awaits ht) (by decide)
  | settleRefused _ _ _ ho => exact .inl (hrefused ho rfl rfl)
  | start =>
    refine .inl ⟨hasRun_started, fun h => absurd ((started_state ..).symm.trans h) (by decide)⟩
  | dispatch =>
    split
    case isTrue hs =>
      refine .inr ⟨hasRun_of_enter ?_ (.inl rfl), moved_state ..⟩
      rw [show (w.modifyEpisode _ _).state = .starting from hs]
      decide
    case isFalse => exact .inl (hkept rfl rfl)
  | complete =>
    left
    rw [hasRun_moved_iff (by decide), hasRun_moved_iff (by decide), moved_state]
    exact ⟨hasRun_congr rfl, fun h => absurd h (by decide)⟩
  | completeRefused _ _ _ ho => exact .inl (hrefused ho rfl rfl)
  | finalize => exact hop.elim
  | finalizeRefused => exact hop.elim
  | cancel => exact .inl (hmoved rfl (by decide))
  | cancelRefused _ _ _ _ ho => exact .inl (hrefused ho rfl rfl)
  | cancelled =>
    left
    rw [hasRun_moved_iff (by decide), hasRun_moved_iff (by decide), hasRun_moved_iff (by decide),
      moved_state]
    exact ⟨hasRun_congr rfl, fun h => absurd h (by decide)⟩
  | cancelledRefused _ _ _ ho => exact .inl (hrefused ho rfl rfl)
  | lost =>
    split
    · exact .inl (hmoved rfl (by decide))
    · exact .inl (hkept rfl rfl)
  | restart => exact .inl (hmoved rfl (by decide))
  | restartRefused _ _ _ ho => exact .inl (hrefused ho rfl rfl)
  | suspend => exact .inl (hmoved rfl (by decide))
  | suspendRefused _ _ _ _ ho => exact .inl (hrefused ho rfl rfl)
  | suspended =>
    left
    rw [hasRun_moved_iff (by decide), hasRun_moved_iff (by decide), moved_state]
    exact ⟨hasRun_congr rfl, fun h => absurd h (by decide)⟩
  | resume => exact .inl (hmoved rfl (by decide))
  | migrate => exact .inl (hmoved rfl (by decide))
  | migrateRefused _ _ _ ho => exact .inl (hrefused ho rfl rfl)
  | commitMigration =>
    refine .inr ⟨hasRun_of_enter ?_ (.inr rfl), moved_state ..⟩
    rw [show (Workload.handOver _ _ _).state = .migrating from moved_state ..]
    decide
  | _ => exact .inl (hkept rfl rfl)

/-! ### What follows a dispatch -/

/-- The states that only a dispatched workload gets to. -/
def underway : WorkloadState → Bool
  | .running | .suspendRequested | .suspended | .migrationPending | .recovering => true
  | _ => false

/-- The way to them leads through RUNNING. -/
theorem underway_of_moves {w : Workload} {op : WorkloadOp} {s : WorkloadState}
    (hw : engineState w.state = true) (hop : Governs op) (h : w.Moves op s)
    (hs : underway s = true) : s = .running ∨ underway w.state = true := by
  have htable : ∀ e ∈ kTransitionTable, engineState e.1 = true →
      e.2 = .suspendRequested ∨ e.2 = .migrationPending → underway e.1 = true := by decide
  have hadmits {t : WorkloadState} (ha : w.Admits t)
      (ht : t = .suspendRequested ∨ t = .migrationPending) : underway w.state = true := by
    rcases ha with hst | ⟨-, he, -⟩
    · rw [hst]
      rcases ht with rfl | rfl <;> rfl
    · exact htable _ (mem_of_canTransition he) hw ht
  cases op with
  | transition =>
    rw [h.1, show _ = WorkloadState.validating from hop] at hs
    exact absurd hs (by decide)
  | settle =>
    have ha := settleTarget_awaits h.1
    cases s <;> first | exact absurd ha (by decide) | exact absurd hs (by decide)
  | finalize => exact hop.elim
  | admitDispatch => exact .inl h.1
  | commitMigration => exact .inl h.1
  | onWorkerLost =>
    right
    rcases h.2 with hst | hst <;> rw [hst] at hw ⊢
    · rfl
    · exact absurd hw (by decide)
  | completeSuspend =>
    right
    rcases h.2 with hst | hst <;> rw [hst] at hw ⊢
    · rfl
    · exact absurd hw (by decide)
  | requestSuspend => exact .inr (hadmits h.2 (.inl rfl))
  | requestMigration => exact .inr (hadmits h.2 (.inr rfl))
  | startEpisode | commitCompletion | requestCancellationWorkloadScope | completeCancellation
  | planRestart | requestResume =>
    rw [h.1] at hs
    exact absurd hs (by decide)
  | _ => exact h.elim

/-- A governed workload has run when its state says so. -/
structure Executed (w : Workload) : Prop where
  governed : w.Governed
  underway : underway w.state = true → w.HasRun

theorem Executed.step {w w' : Workload} {op : WorkloadOp} {o : Outcome} (h : w.Executed)
    (hop : Governs op) (hs : Step w op o w') : w'.Executed where
  governed := h.governed.step hop hs
  underway hu := by
    rcases hs.run_cases hop with ⟨hiff, hrun⟩ | ⟨hrun, -⟩
    · refine hiff.mpr (h.underway ?_)
      rcases hs.state_cases with hst | ⟨-, hm⟩
      · rwa [hst] at hu
      · rcases underway_of_moves h.governed.state hop hm hu with hst | hu'
        · rw [hrun hst]
          rfl
        · exact hu'
    · exact hrun

/-- What has run has run. -/
theorem HasRun.step {w w' : Workload} {op : WorkloadOp} {o : Outcome} (h : w.HasRun)
    (hop : Governs op) (hs : Step w op o w') : w'.HasRun := by
  rcases hs.run_cases hop with ⟨hiff, -⟩ | ⟨hrun, -⟩
  · exact hiff.mpr h
  · exact hrun

/-! ### Completion -/

/-- The request completes, under a cancellation, what has not run. -/
def CompletesUnrun (w : Workload) : Request → Prop
  | .commitCompletion g =>
    w.Granted (.commitCompletion g) ∧ w.state = .cancellationRequested ∧ ¬w.HasRun
  | _ => False

def CompletedHasRun (w : Workload) : Prop := w.state = .completed → w.HasRun

theorem Executed.completedHasRun_iff {counter : UInt64} {r : Request} {w w' : Workload}
    {o : Outcome} (h : w.Executed) (hs : w.Step (r.operation counter w) o w')
    (hw : w.CompletedHasRun) : w'.CompletedHasRun ↔ ¬w.CompletesUnrun r := by
  have hop := r.governs counter w
  constructor
  · intro hw' hc
    cases r with
    | commitCompletion g =>
      obtain ⟨hg, hst, hn⟩ := hc
      have ha : w.Admits .completing := admits_of_edge hst (by decide) rfl (.inl nofun)
      have hdone : w'.state = .completed := by
        cases hs with
        | rejected _ hn => exact absurd hg hn
        | completeRefused _ _ hn => exact absurd ha hn
        | complete => exact moved_state ..
      rcases hs.run_cases hop with ⟨hiff, -⟩ | ⟨-, hrun⟩
      · exact hn (hiff.mp (hw' hdone))
      · exact absurd (hdone.symm.trans hrun) (by decide)
    | _ => exact hc
  · intro hc hdone
    refine HasRun.step ?_ hop hs
    rcases hs.state_cases with hst | ⟨-, hm⟩
    · exact hw (hst.symm.trans hdone)
    rw [hdone] at hm
    obtain ⟨g, hop'⟩ := (op_of_moves_to_end hop).1 hm
    rw [hop'] at hm
    obtain rfl : r = .commitCompletion g := by
      cases r <;> simp_all [Request.operation]
    -- the ways into COMPLETING: from RUNNING, or from a cancellation
    have htable : ∀ e ∈ kTransitionTable, engineState e.1 = true → e.2 = .completing →
        e.1 = .running ∨ e.1 = .cancellationRequested := by decide
    by_contra hn
    rcases hm.2.2 with hst | ⟨-, he, -⟩
    · have heng := h.governed.state
      rw [hst] at heng
      exact absurd heng (by decide)
    · rcases htable _ (mem_of_canTransition he) h.governed.state rfl with hst | hst
      · exact hn (h.underway (by rw [show w.state = .running from hst]; rfl))
      · exact hc ⟨hm.2.1, hst, hn⟩

/-- A workload completed without having run stays so. -/
theorem not_completedHasRun_step {w w' : Workload} {op : WorkloadOp} {o : Outcome}
    (hop : Governs op) (hs : Step w op o w') (hw : ¬w.CompletedHasRun) : ¬w'.CompletedHasRun := by
  obtain ⟨hdone, hn⟩ := Classical.not_imp.mp hw
  have hst := hs.terminal (by rw [hdone]; rfl)
  intro hw'
  rcases hs.run_cases hop with ⟨hiff, -⟩ | ⟨-, hrun⟩
  · exact hn (hiff.mp (hw' (hst.trans hdone)))
  · exact absurd ((hst.trans hdone).symm.trans hrun) (by decide)

end Workload

namespace WorkloadEngine

variable {σ : Type} [StateStore σ]

/-- **No completion without execution**, in a run of an engine, exactly if no completion
was granted under a cancellation that came before the first dispatch. -/
theorem completed_has_run_iff {store : Option σ} {calls : List EngineCall} {id : WorkloadId}
    {w : Workload} (h : ((ofStore store).run calls).get id = some w) :
    (w.state = .completed → w.HasRun) ↔
      Throughout store id (fun w r => ¬w.CompletesUnrun r) calls :=
  last_iff_throughout (I := Workload.Executed) (p := Workload.CompletedHasRun)
    (fun name intent policy => ⟨⟨Workload.governed_create id name intent policy,
      fun hu => absurd hu (by simp [Workload.create, Workload.underway])⟩,
      fun hs => absurd hs (by simp [Workload.create])⟩)
    (fun hI hs => ⟨hI.step (Request.governs _ _ _) hs, hI.completedHasRun_iff hs⟩)
    (fun _ hs => Workload.not_completedHasRun_step (Request.governs _ _ _) hs) h

/-- A launched workload runs and completes. -/
def launchAndComplete : List EngineCall :=
  launch (.fromU64 1) {} ++
    [.on (.fromU64 1) (.admitDispatch (.fromU64 1000) (.fromU64 1) (.fromU64 1)),
      .on (.fromU64 1) (.episodeCompleted (.fromU64 1000)),
      .on (.fromU64 1) (.commitCompletion (.fromU64 2))]

theorem completed_has_run_iff_launched :
    Throughout (none : Option (MemoryStateStore .leftToRight)) (.fromU64 1)
      (fun w r => ¬w.CompletesUnrun r) launchAndComplete := by
  obtain ⟨w, h, hrun⟩ : ∃ w, ((ofStore (none : Option (MemoryStateStore .leftToRight))).run
      launchAndComplete).get (.fromU64 1) = some w ∧
      ∃ r ∈ w.history, r.toState = .running ∧ r.outcome = .allow ∧ r.reason = text "dispatch" :=
    ⟨_, rfl, by decide +kernel⟩
  refine (completed_has_run_iff h).mp fun _ => ?_
  obtain ⟨r, hr, hto, ho, hreason⟩ := hrun
  exact ⟨r, hr, hto, ho, .inl hreason⟩

/-- The same without the dispatch, but with a cancellation on the way. -/
def cancelledStart : List EngineCall :=
  launch (.fromU64 1) {} ++
    [.on (.fromU64 1) (.cancel (.fromU64 2)),
      .on (.fromU64 1) (.episodeCompleted (.fromU64 1000)),
      .on (.fromU64 1) (.commitCompletion (.fromU64 2))]

/-- It completes all the same, and has never run. -/
theorem cancelled_start_completes :
    (∀ c ∈ cancelledStart, ∀ p, c ≠ .on (.fromU64 1) (.setPolicy p)) ∧
    ∃ w, ((ofStore (none : Option (MemoryStateStore .leftToRight))).run cancelledStart).get
        (.fromU64 1) = some w ∧
      w.policy.completion.allowZeroWorkCompletion = false ∧ w.state = .completed ∧
      ∀ r ∈ w.history, ¬(r.toState = .running ∧ r.outcome = .allow) := by
  refine ⟨?_, _, rfl, by decide, by decide +kernel, by decide +kernel⟩
  simp [cancelledStart, launch]

end WorkloadEngine

end WorkloadFabric
