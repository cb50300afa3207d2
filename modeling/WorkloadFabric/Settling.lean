/-
Which workloads `settle` moves.

`settle` looks at the two gates and asks for the state they call for (`gateTarget`);
whether it gets there is up to the table (`settle_cases`).  Before the start every edge
but two is there.  After the start there are edges to READY as well, made for other
purposes, and `settle` takes them when both gates are open (`Readies`).

* **`settles_before_execution_iff`** — in every state of a run `settle` acts on
  workloads that have not started and on no others, exactly if no started workload
  readies;
* **`started_workload_settled`** — a starting one does.
-/
import WorkloadFabric.Lifecycle

namespace WorkloadFabric

/-- The dependency at this index is REQUIRED and not SATISFIED. -/
def DependencySet.Unmet (s : DependencySet) (i : ℕ) : Prop :=
  ∃ d : DependencyDef, s.defs[i]? = some d ∧ d.requirement = .required ∧
    ∀ st, s.states[i]? = some st → st.status ≠ .satisfied

namespace Workload

/-! ### Where the gates send a workload -/

/-- The state the gates call for. -/
def gateTarget (w : Workload) : WorkloadState :=
  if !w.depsReady then .waitingForDependencies
  else if !w.contractSatisfied then .waitingForResources
  else .ready

theorem gateTarget_eq_waitingForDependencies_iff {w : Workload} :
    w.gateTarget = .waitingForDependencies ↔ w.depsReady = false := by
  rw [gateTarget]
  cases w.depsReady <;> cases w.contractSatisfied <;> decide

theorem gateTarget_eq_waitingForResources_iff {w : Workload} :
    w.gateTarget = .waitingForResources ↔ w.depsReady = true ∧ w.contractSatisfied = false := by
  rw [gateTarget]
  cases w.depsReady <;> cases w.contractSatisfied <;> decide

theorem gateTarget_eq_ready_iff {w : Workload} :
    w.gateTarget = .ready ↔ w.depsReady = true ∧ w.contractSatisfied = true := by
  rw [gateTarget]
  cases w.depsReady <;> cases w.contractSatisfied <;> decide

/-- Some REQUIRED dependency is not SATISFIED. -/
theorem depsReady_eq_false_iff {w : Workload} :
    w.depsReady = false ↔ ∃ i, w.deps.Unmet i := by
  rw [depsReady, Bool.eq_false_iff, Ne, DependencySet.ready_iff]
  push Not
  rfl

/-- A terminal or cancelling workload has no way to the states of the gates. -/
theorem not_admits_gateTarget {w : Workload}
    (h : (isTerminal w.state || isCancelling w.state) = true) : ¬w.Admits w.gateTarget := by
  have hstates : w.gateTarget = .waitingForDependencies ∨ w.gateTarget = .waitingForResources ∨
      w.gateTarget = .ready := by
    rw [gateTarget_eq_waitingForDependencies_iff, gateTarget_eq_waitingForResources_iff,
      gateTarget_eq_ready_iff]
    cases w.depsReady <;> cases w.contractSatisfied <;> decide
  rintro (hs | ⟨ht, he, -⟩)
  · rw [hs] at h
    rcases hstates with hs | hs | hs <;> rw [hs] at h <;> exact absurd h (by decide)
  · rw [ht, Bool.false_or, isCancelling_iff] at h
    rcases h with h | h <;> rw [h] at he <;>
      rcases hstates with hs | hs | hs <;> rw [hs] at he <;> exact absurd he (by decide)

/-- `settle` asks for the state of the gates, unless it could not be reached anyway. -/
theorem settleTarget_cases (w : Workload) : w.settleTarget = some w.gateTarget ∨
    (w.settleTarget = none ∧ (isTerminal w.state || isCancelling w.state) = true) := by
  rw [settleTarget, gateTarget]
  split
  · split
    case isTrue h => exact .inr ⟨rfl, h⟩
    case isFalse => exact .inl rfl
  · split
    · split
      case isTrue h => exact .inr ⟨rfl, h⟩
      case isFalse => exact .inl rfl
    · exact .inl rfl

/-- **What `settle` does**: it moves the workload to the state of the gates, or it is
refused and leaves the state alone. -/
theorem settle_cases (w : Workload) (ex : Option Explanation) :
    (w.Admits w.gateTarget ∧ (w.settle w.generation ex).outcome = .allow ∧
      (w.settle w.generation ex).workload.state = w.gateTarget) ∨
    (¬w.Admits w.gateTarget ∧ (w.settle w.generation ex).outcome ≠ .allow ∧
      (w.settle w.generation ex).workload.state = w.state) := by
  have hstep := w.settle_step ex w.generation
  generalize (w.settle w.generation ex).outcome = o at hstep
  generalize (w.settle w.generation ex).workload = w' at hstep
  rcases w.settleTarget_cases with htarget | ⟨htarget, hend⟩
  · cases hstep with
    | rejected ho hn => exact absurd ⟨rfl, by rw [htarget]; rfl⟩ hn
    | settle _ ht ha =>
      obtain rfl := Option.some.inj (htarget.symm.trans ht)
      exact .inl ⟨ha, rfl, moved_state ..⟩
    | settleRefused _ ht hn ho =>
      obtain rfl := Option.some.inj (htarget.symm.trans ht)
      exact .inr ⟨hn, ho, rfl⟩
  · cases hstep with
    | rejected ho hn => exact .inr ⟨not_admits_gateTarget hend, ho, rfl⟩
    | settle _ ht => exact absurd (htarget.symm.trans ht) (by simp)
    | settleRefused _ ht => exact absurd (htarget.symm.trans ht) (by simp)

/-! ### Before the start and after it -/

/-- The states of a workload that has not started executing. -/
def beforeExecution : WorkloadState → Bool
  | .created | .validating | .blocked | .waitingForDependencies | .waitingForResources
  | .ready => true
  | _ => false

/-- The states past the start that have an edge to READY. -/
def returnsToReady : WorkloadState → Bool
  | .starting | .suspended | .preempted | .migrating | .recovering | .restartPending => true
  | _ => false

/-- They lie past the start. -/
theorem not_before_of_returns {s : WorkloadState} (h : returnsToReady s = true) :
    beforeExecution s = false := by
  revert h
  cases s <;> decide

/-- A started workload that both gates let through to READY. -/
def Readies (w : Workload) : Prop :=
  returnsToReady w.state = true ∧ w.depsReady = true ∧ w.contractSatisfied = true

/-- The edges to the states of the gates. -/
theorem edge_to_gates (s : WorkloadState) :
    ((s = .waitingForDependencies ∨ canTransition s .waitingForDependencies = true) ↔
      beforeExecution s = true) ∧
    ((s = .waitingForResources ∨ canTransition s .waitingForResources = true) ↔
      beforeExecution s = true ∧ s ≠ .created) ∧
    ((s = .ready ∨ canTransition s .ready = true) ↔
      (beforeExecution s = true ∧ s ≠ .created) ∨ returnsToReady s = true) := by
  cases s <;> decide

/-- A workload may go to a state it is in or has an edge to, if completing is not asked
for. -/
theorem admits_iff_edge {w : Workload} {s : WorkloadState} (hs : s ≠ .completed) :
    w.Admits s ↔ w.state = s ∨ canTransition w.state s = true := by
  rw [Admits]
  refine or_congr_right ⟨fun h => h.2.1, fun he => ⟨?_, he, fun h => hs h.1⟩⟩
  rw [Bool.eq_false_iff]
  intro ht
  rw [isTerminal_no_exit ht] at he
  exact Bool.false_ne_true he

/-- **Who gets to the state of the gates**: each workload before its start, but for a
fresh one with its dependencies met, and those that ready. -/
theorem admits_gateTarget_iff {w : Workload} : w.Admits w.gateTarget ↔
    (beforeExecution w.state = true ∧ ¬(w.state = .created ∧ w.depsReady = true)) ∨
      w.Readies := by
  obtain ⟨hdeps, hres, hready⟩ := edge_to_gates w.state
  rcases hd : w.depsReady
  · rw [gateTarget_eq_waitingForDependencies_iff.mpr hd, admits_iff_edge (by decide), hdeps]
    simp [Readies, hd]
  · rcases hc : w.contractSatisfied
    · rw [gateTarget_eq_waitingForResources_iff.mpr ⟨hd, hc⟩, admits_iff_edge (by decide), hres]
      simp [Readies, hc]
    · rw [gateTarget_eq_ready_iff.mpr ⟨hd, hc⟩, admits_iff_edge (by decide), hready]
      simp [Readies, hd, hc]

/-- Where the gates can be reached `settle` goes there. -/
theorem Step.settles {w w' : Workload} {o : Outcome} (h : Step w (.settle w.generation) o w')
    (ha : w.Admits w.gateTarget) : w'.state = w.gateTarget := by
  rcases w.settleTarget_cases with htarget | ⟨-, hend⟩
  · cases h with
    | rejected _ hn => exact absurd ⟨rfl, by rw [htarget]; rfl⟩ hn
    | settle _ ht =>
      rw [moved_state]
      exact Option.some.inj (ht.symm.trans htarget)
    | settleRefused _ ht hn =>
      obtain rfl := Option.some.inj (ht.symm.trans htarget)
      exact absurd ha hn
  · exact absurd ha (not_admits_gateTarget hend)

/-! ### What `settle` is for -/

/-- The workload ended where the gates call for. -/
structure EndsAtGates (w : Workload) (s : WorkloadState) : Prop where
  dependencies : s = .waitingForDependencies ↔ ∃ i, w.deps.Unmet i
  resources : s ≠ .waitingForDependencies →
    (s = .waitingForResources ↔ w.contract.satisfied = false)
  ready : s ≠ .waitingForDependencies → s ≠ .waitingForResources → s = .ready

/-- `settle` acts on workloads that have not started, and sends them where the gates call
for; all others it refuses and leaves in their state. -/
structure SettlesBeforeExecution (w : Workload) (e : Effect) : Prop where
  acts : e.outcome = .allow ∨ e.workload.state ≠ w.state →
    beforeExecution w.state = true ∧ w.EndsAtGates e.workload.state
  refused : beforeExecution w.state = false →
    e.outcome ≠ .allow ∧ e.workload.state = w.state

theorem endsAtGates_gateTarget (w : Workload) : w.EndsAtGates w.gateTarget where
  dependencies := by rw [← depsReady_eq_false_iff, gateTarget_eq_waitingForDependencies_iff]
  resources h := by
    rw [Ne, gateTarget_eq_waitingForDependencies_iff, Bool.not_eq_false] at h
    rw [gateTarget_eq_waitingForResources_iff]
    exact and_iff_right h
  ready h h' := by
    rw [Ne, gateTarget_eq_waitingForDependencies_iff, Bool.not_eq_false] at h
    rw [Ne, gateTarget_eq_waitingForResources_iff, not_and, Bool.not_eq_false] at h'
    exact gateTarget_eq_ready_iff.mpr ⟨h, h' h⟩

/-- Only the gates' own state is where the gates call for. -/
theorem EndsAtGates.eq {w : Workload} {s : WorkloadState} (h : w.EndsAtGates s) :
    s = w.gateTarget := by
  by_cases hd : w.depsReady = false
  · rw [gateTarget_eq_waitingForDependencies_iff.mpr hd]
    exact h.dependencies.mpr (depsReady_eq_false_iff.mp hd)
  · have hs : s ≠ .waitingForDependencies :=
      fun hs => hd (depsReady_eq_false_iff.mpr (h.dependencies.mp hs))
    rw [Bool.not_eq_false] at hd
    by_cases hc : w.contractSatisfied = false
    · rw [gateTarget_eq_waitingForResources_iff.mpr ⟨hd, hc⟩]
      exact (h.resources hs).mpr hc
    · rw [gateTarget_eq_ready_iff.mpr ⟨hd, by simpa using hc⟩]
      exact h.ready hs fun hs' => hc ((h.resources hs).mp hs')

/-- **`settle` keeps to workloads that have not started exactly if none that has
readies.** -/
theorem settlesBeforeExecution_iff (w : Workload) (ex : Option Explanation) :
    w.SettlesBeforeExecution (w.settle w.generation ex) ↔ ¬w.Readies := by
  rcases w.settle_cases ex with ⟨ha, ho, hs⟩ | ⟨hn, ho, hs⟩
  · rw [admits_gateTarget_iff] at ha
    constructor
    · intro h hr
      exact (h.refused (not_before_of_returns hr.1)).1 ho
    · intro hr
      have hbefore := (ha.resolve_right hr).1
      refine ⟨fun _ => ⟨hbefore, hs ▸ w.endsAtGates_gateTarget⟩, fun hb => ?_⟩
      exact absurd (hbefore.symm.trans hb) (by decide)
  · refine iff_of_true ⟨fun h => ?_, fun _ => ⟨ho, hs⟩⟩ fun hr =>
      hn (admits_gateTarget_iff.mpr (.inr hr))
    rcases h with h | h
    · exact absurd h ho
    · exact absurd hs h

/-- A workload that has not started ends where the gates call for, unless it is fresh and
has its dependencies met: there is no edge for it, and it stays CREATED. -/
theorem endsAtGates_settle_iff {w : Workload} (h : beforeExecution w.state = true)
    (ex : Option Explanation) :
    w.EndsAtGates (w.settle w.generation ex).workload.state ↔
      ¬(w.state = .created ∧ w.depsReady = true) := by
  have hr : ¬w.Readies := fun hr => absurd (h.symm.trans (not_before_of_returns hr.1)) (by decide)
  rcases w.settle_cases ex with ⟨ha, -, hs⟩ | ⟨hn, -, hs⟩
  · rw [admits_gateTarget_iff, or_iff_left hr] at ha
    exact iff_of_true (hs ▸ w.endsAtGates_gateTarget) ha.2
  · refine iff_of_false (fun hends => hn (.inl (hs.symm.trans hends.eq))) ?_
    rw [admits_gateTarget_iff, or_iff_left hr] at hn
    exact fun hc => hn ⟨h, hc⟩

/-- **`settle` is for workloads that have not started**, in every state of a run, exactly
as far as no started one readies; and before its start a workload ends where the gates call
for, unless it is fresh with its dependencies met. -/
theorem settles_before_execution_iff (w : Workload) (calls : List Call)
    (ex : Option Explanation) :
    ((w.run calls).SettlesBeforeExecution ((w.run calls).settle (w.run calls).generation ex) ↔
      ¬(w.run calls).Readies) ∧
    (beforeExecution (w.run calls).state = true →
      ((w.run calls).EndsAtGates
          ((w.run calls).settle (w.run calls).generation ex).workload.state ↔
        ¬((w.run calls).state = .created ∧ (w.run calls).depsReady = true))) :=
  ⟨settlesBeforeExecution_iff _ ex, fun h => endsAtGates_settle_iff h ex⟩

/-- A starting workload whose gates are open goes back to READY. -/
theorem started_workload_settled :
    ¬∀ w : Workload, Reachable w → ∀ ex : Option Explanation,
      w.SettlesBeforeExecution (w.settle w.generation ex) := by
  intro h
  have hstarted := (reachable_create (.fromU64 1) (text "w") (text "job")).run
    [(.transition .validating (.fromU64 1) [], none), (.applyGrant {}, none),
      (.settle (.fromU64 1), none),
      (.startEpisode (.fromU64 1) (.fromU64 1) (.fromU64 1) true, none)]
  have hacts := (h _ hstarted none).acts (.inl (by decide))
  exact absurd hacts.1 (by decide)

end Workload

end WorkloadFabric
