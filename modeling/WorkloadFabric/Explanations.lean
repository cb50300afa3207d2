/-
What the explanations are worth.

`explainBlocked` asks the gates, as `settle` does.  The other two ask for less than the
operation they speak of: `explainRestartAllowed` for the limit alone, where `planRestart`
goes on to ask for the state and the kind (`planRestart_allow_iff`), and
`explainMigrationAllowed` for the eligibility alone.

* **`explanations_agree_iff`** — in every state of a run the explanations agree with the
  decisions, exactly if a restart below its limit is admitted by kind and state, and a
  migration that is eligible by the state;
* **`restart_explained_and_refused`** — a restart is explained as allowed that is refused
  for every reason.
-/
import WorkloadFabric.RestartBudget
import WorkloadFabric.Settling

namespace WorkloadFabric

namespace DependencySet

/-- What `firstUnmetRequired` looks for. -/
theorem unmet_iff {s : DependencySet} {i : ℕ} : s.Unmet i ↔ i < s.defs.length ∧
    ((s.defs.getD i {}).requirement == .required &&
      (s.states.getD i {}).status != .satisfied) = true := by
  rw [Unmet, List.getD_eq_getElem?_getD, List.getD_eq_getElem?_getD]
  constructor
  · rintro ⟨d, hd, hr, hs⟩
    refine ⟨(List.getElem?_eq_some_iff.mp hd).1, ?_⟩
    rw [hd, Option.getD_some, hr]
    rcases hst : s.states[i]? with _ | st
    · decide
    · simpa using hs st hst
  · rintro ⟨hi, h⟩
    rw [List.getElem?_eq_getElem hi, Option.getD_some, Bool.and_eq_true, beq_iff_eq,
      bne_iff_ne] at h
    refine ⟨_, List.getElem?_eq_getElem hi, h.1, fun st hst => ?_⟩
    rw [hst, Option.getD_some] at h
    exact h.2

/-- **`firstUnmetRequired` is the least of the unmet dependencies.** -/
theorem firstUnmetRequired_eq_some_iff {s : DependencySet} {i : ℕ} :
    s.firstUnmetRequired = some i ↔ s.Unmet i ∧ ∀ j < i, ¬s.Unmet j := by
  rw [firstUnmetRequired, List.find?_range_eq_some, List.mem_range, unmet_iff]
  constructor
  · rintro ⟨hp, hi, hlt⟩
    refine ⟨⟨hi, hp⟩, fun j hj hu => ?_⟩
    have hj := hlt j hj
    rw [(unmet_iff.mp hu).2] at hj
    exact absurd hj (by decide)
  · rintro ⟨⟨hi, hp⟩, hlt⟩
    refine ⟨hp, hi, fun j hj => ?_⟩
    by_contra hu
    exact hlt j hj (unmet_iff.mpr ⟨hj.trans hi, by simpa using hu⟩)

end DependencySet

namespace Workload

/-! ### The decisions -/

theorem planRestart_allow_iff (w : Workload) (g : WorkloadGeneration) (reason : Text)
    (ex : Option Explanation) : (w.planRestart g reason ex).outcome = .allow ↔
      g = w.generation ∧ w.restartGranted reason ∧ w.Admits .restartPending := by
  have hstep := w.planRestart_step ex g reason
  generalize (w.planRestart g reason ex).outcome = o at hstep
  generalize (w.planRestart g reason ex).workload = w' at hstep
  cases hstep with
  | rejected ho hn => exact iff_of_false ho fun h => hn ⟨h.1, h.2.1⟩
  | restart hg hr ha => exact iff_of_true rfl ⟨hg, hr, ha⟩
  | restartRefused _ _ hn ho => exact iff_of_false ho fun h => hn h.2.2

theorem requestMigration_allow_iff (w : Workload) (g : WorkloadGeneration)
    (ex : Option Explanation) : (w.requestMigration g ex).outcome = .allow ↔
      g = w.generation ∧ w.migrationGranted ∧ w.Admits .migrationPending := by
  have hstep := w.requestMigration_step ex g
  generalize (w.requestMigration g ex).outcome = o at hstep
  generalize (w.requestMigration g ex).workload = w' at hstep
  cases hstep with
  | rejected ho hn => exact iff_of_false ho fun h => hn ⟨h.1, h.2.1⟩
  | migrate hg hm ha => exact iff_of_true rfl ⟨hg, hm, ha⟩
  | migrateRefused _ _ hn ho => exact iff_of_false ho fun h => hn h.2.2

/-- Every kind that does not forbid restarts admits some reason. -/
theorem exists_restartClassAllowed_iff {kind : RestartKind} :
    (∃ reason, restartClassAllowed kind reason = true) ↔ ¬forbidsRestart kind := by
  constructor
  · rintro ⟨reason, h⟩ (rfl | rfl)
    · exact absurd h (by simp [restartClassAllowed])
    · exact absurd h (by simp [restartClassAllowed])
  · intro h
    cases kind with
    | never => exact absurd (.inl rfl) h
    | manualOnly => exact absurd (.inr rfl) h
    | alwaysWithLimit => exact ⟨[], rfl⟩
    | onKnownFailure => exact ⟨[], by decide⟩
    | onWorkerLoss => exact ⟨text "WORKER_LOSS", by decide⟩
    | onInfrastructureFailure => exact ⟨text "WORKER_LOSS", by decide⟩
    | onAmbiguousExecution => exact ⟨text "AMBIGUOUS_EXECUTION", by decide⟩

/-- The states from which a restart can be planned. -/
def mayPlanRestart : WorkloadState → Bool
  | .starting | .preempted | .migrating | .recovering | .restartPending => true
  | _ => false

/-- The states from which a migration can be requested. -/
def mayRequestMigration : WorkloadState → Bool
  | .running | .degraded | .migrationPending => true
  | _ => false

theorem edge_to_restartPending (s : WorkloadState) :
    (s = .restartPending ∨ canTransition s .restartPending = true) ↔ mayPlanRestart s = true := by
  cases s <;> decide

/-- STARTING counts as running, and has no edge. -/
theorem edge_to_migrationPending (s : WorkloadState) :
    ((isActivelyRunning s = true ∨ s = .migrationPending) ∧
      (s = .migrationPending ∨ canTransition s .migrationPending = true)) ↔
      mayRequestMigration s = true := by
  cases s <;> decide

/-- A restart is planned for some reason if limit, kind and state allow it. -/
theorem exists_planRestart_allow_iff (w : Workload) (ex : Option Explanation) :
    (∃ reason, restartClassAllowed w.policy.restart.kind reason = true ∧
      (w.planRestart w.generation reason ex).outcome = .allow) ↔
      restartAllowed w.restartCount w.policy.restart.maxRestarts = true ∧
        ¬forbidsRestart w.policy.restart.kind ∧ mayPlanRestart w.state = true := by
  simp only [planRestart_allow_iff, admits_iff_edge (s := .restartPending) (by decide),
    edge_to_restartPending, true_and]
  constructor
  · rintro ⟨reason, hclass, ⟨-, -, hlimit⟩, hs⟩
    exact ⟨hlimit, exists_restartClassAllowed_iff.mp ⟨reason, hclass⟩, hs⟩
  · rintro ⟨hlimit, hkind, hs⟩
    obtain ⟨reason, hclass⟩ := exists_restartClassAllowed_iff.mpr hkind
    have ht : isTerminal w.state = false := by
      revert hs
      cases w.state <;> decide
    exact ⟨reason, hclass, ⟨ht, hclass, hlimit⟩, hs⟩

theorem requestMigration_allow_iff_state (w : Workload) (ex : Option Explanation) :
    (w.requestMigration w.generation ex).outcome = .allow ↔
      w.policy.migration.eligibility ≠ .none ∧ mayRequestMigration w.state = true := by
  rw [requestMigration_allow_iff, admits_iff_edge (by decide), migrationGranted,
    ← edge_to_migrationPending]
  constructor
  · rintro ⟨-, ⟨he, hr⟩, hs⟩
    exact ⟨he, hr, hs⟩
  · rintro ⟨he, hr, hs⟩
    exact ⟨rfl, ⟨he, hr⟩, hs⟩

/-! ### The explanations -/

theorem explainRestartAllowed_allow_iff (w : Workload) :
    w.explainRestartAllowed.outcome = .allow ↔
      restartAllowed w.restartCount w.policy.restart.maxRestarts = true := by
  rw [explainRestartAllowed]
  cases restartAllowed w.restartCount w.policy.restart.maxRestarts <;> simp

theorem explainMigrationAllowed_allow_iff (w : Workload) :
    w.explainMigrationAllowed.outcome = .allow ↔ w.policy.migration.eligibility ≠ .none := by
  rw [explainMigrationAllowed]
  split
  case isTrue h => exact iff_of_false (by simp) fun hn => hn h
  case isFalse h => exact iff_of_true rfl h

/-- What a blocked workload waits for, told by the gates. -/
theorem explainBlocked_outcome (w : Workload) : w.explainBlocked.outcome =
    match w.gateTarget with
    | .waitingForDependencies => .blockedDependency
    | .waitingForResources => .blockedResourceContract
    | _ => .allow := by
  rw [explainBlocked, gateTarget]
  cases w.depsReady
  · rfl
  · cases w.contractSatisfied <;> rfl

/-- Where `settle` would take the workload from VALIDATING. -/
def settledFromValidating (w : Workload) (ex : Option Explanation) : WorkloadState :=
  ({ w with state := .validating }.settle w.generation ex).workload.state

theorem settledFromValidating_eq (w : Workload) (ex : Option Explanation) :
    w.settledFromValidating ex = w.gateTarget := by
  have hends := (endsAtGates_settle_iff (w := { w with state := .validating }) rfl ex).mpr
    fun h => absurd (show WorkloadState.validating = .created from h.1) (by decide)
  exact hends.eq

/-- The explanations agree with the decisions. -/
structure ExplanationsAgree (w : Workload) (ex : Option Explanation) : Prop where
  restart : w.explainRestartAllowed.outcome = .allow ↔
    ∃ reason, restartClassAllowed w.policy.restart.kind reason = true ∧
      (w.planRestart w.generation reason ex).outcome = .allow
  migration : w.explainMigrationAllowed.outcome = .allow ↔
    (w.requestMigration w.generation ex).outcome = .allow
  ready : w.explainBlocked.outcome = .allow ↔ w.settledFromValidating ex = .ready
  dependencies : w.explainBlocked.outcome = .blockedDependency ↔
    w.settledFromValidating ex = .waitingForDependencies
  resources : w.explainBlocked.outcome = .blockedResourceContract ↔
    w.settledFromValidating ex = .waitingForResources
  index : w.explainBlocked.outcome = .blockedDependency →
    ∃ i, w.explainBlocked.detail =
        text "required dependency[" ++ decimal i ++ text "] not satisfied" ∧
      w.deps.Unmet i ∧ ∀ j < i, ¬w.deps.Unmet j

/-- **The explanation of a blocked workload names the first dependency it waits for.** -/
theorem explainBlocked_index {w : Workload}
    (h : w.explainBlocked.outcome = .blockedDependency) :
    ∃ i, w.explainBlocked.detail =
        text "required dependency[" ++ decimal i ++ text "] not satisfied" ∧
      w.deps.Unmet i ∧ ∀ j < i, ¬w.deps.Unmet j := by
  have hd : w.depsReady = false := by
    rw [explainBlocked_outcome, gateTarget] at h
    revert h
    cases w.depsReady
    · exact fun _ => rfl
    · cases w.contractSatisfied <;> decide
  rcases hfirst : w.deps.firstUnmetRequired with _ | i
  · have hready := DependencySet.firstUnmetRequired_eq_none_iff.mp hfirst
    exact absurd (hd.symm.trans hready) (by decide)
  · refine ⟨i, ?_, DependencySet.firstUnmetRequired_eq_some_iff.mp hfirst⟩
    rw [explainBlocked, hd, hfirst]
    rfl

theorem explanationsAgree_iff (w : Workload) (ex : Option Explanation) :
    w.ExplanationsAgree ex ↔
      (restartAllowed w.restartCount w.policy.restart.maxRestarts = true →
        ¬forbidsRestart w.policy.restart.kind ∧ mayPlanRestart w.state = true) ∧
      (w.policy.migration.eligibility ≠ .none → mayRequestMigration w.state = true) := by
  have hrestart := w.exists_planRestart_allow_iff ex
  have hmigration := w.requestMigration_allow_iff_state ex
  constructor
  · intro h
    rw [← w.explainRestartAllowed_allow_iff, ← w.explainMigrationAllowed_allow_iff]
    exact ⟨fun hr => (hrestart.mp (h.restart.mp hr)).2,
      fun hm => (hmigration.mp (h.migration.mp hm)).2⟩
  · rintro ⟨hr, hm⟩
    refine ⟨?_, ?_, ?_, ?_, ?_, explainBlocked_index⟩
    · rw [hrestart, explainRestartAllowed_allow_iff]
      exact ⟨fun h => ⟨h, hr h⟩, fun h => h.1⟩
    · rw [hmigration, explainMigrationAllowed_allow_iff]
      exact ⟨fun h => ⟨h, hm h⟩, fun h => h.1⟩
    all_goals
      rw [settledFromValidating_eq, explainBlocked_outcome, gateTarget]
      cases w.depsReady <;> cases w.contractSatisfied <;> decide

/-- **The explanations agree with the decisions exactly as far as they look**: in every
state of a run, if a restart that has slots left is admitted by kind and state, and an
eligible migration by the state. -/
theorem explanations_agree_iff (w : Workload) (calls : List Call) (ex : Option Explanation) :
    (w.run calls).ExplanationsAgree ex ↔
      (restartAllowed (w.run calls).restartCount (w.run calls).policy.restart.maxRestarts = true →
        ¬forbidsRestart (w.run calls).policy.restart.kind ∧
          mayPlanRestart (w.run calls).state = true) ∧
      ((w.run calls).policy.migration.eligibility ≠ .none →
        mayRequestMigration (w.run calls).state = true) :=
  explanationsAgree_iff _ ex

/-- A policy that never restarts, with a limit of one: the restart is explained as
allowed. -/
theorem restart_explained_and_refused :
    ¬∀ w : Workload, Reachable w → ∀ ex : Option Explanation, w.ExplanationsAgree ex := by
  intro h
  have hpolicy := (reachable_create (.fromU64 1) (text "w") (text "job")).apply
    (.setPolicy { restart := { kind := .never, maxRestarts := 1 } }) none
  obtain ⟨reason, hclass, -⟩ := (h _ hpolicy none).restart.mp (by decide)
  exact exists_restartClassAllowed_iff.mp ⟨reason, hclass⟩ (.inl rfl)

end Workload

end WorkloadFabric
