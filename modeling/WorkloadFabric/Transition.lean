/-
What a guarded transition can do.

`Admits w s` says that the table and the zero-work gate let `w` go to `s`;
`moved` is the workload after an accepted transition.  `guardedTransition` either
moves the workload or records the refusal (`guardedTransition_cases`), and a
chain of transitions goes through as soon as each link is admitted
(`guardedTransition_andThen`).  Everything else in a workload is framed:
`moved` and `record` touch the state and the audit trail only.
-/
import WorkloadFabric.Workload

namespace WorkloadFabric

theorem Effect.andThen_of_allow {e : Effect} (h : e.outcome = .allow)
    (k : Workload → Option Explanation → Effect) : e.andThen k = k e.workload e.explain := by
  rw [Effect.andThen, if_pos ((isAllow_iff _).mpr h)]

theorem Effect.andThen_of_ne {e : Effect} (h : e.outcome ≠ .allow)
    (k : Workload → Option Explanation → Effect) : e.andThen k = e := by
  rw [Effect.andThen, if_neg (fun hc => h ((isAllow_iff _).mp hc))]

namespace Workload

/-- The transition to `toState` is a no-op, or an edge that no gate closes. -/
def Admits (w : Workload) (toState : WorkloadState) : Prop :=
  w.state = toState ∨
    (isTerminal w.state = false ∧ canTransition w.state toState = true ∧
      ¬(toState = .completed ∧ w.policy.completion.allowZeroWorkCompletion = false ∧
        zeroWork w.state = true))

instance (w : Workload) (s : WorkloadState) : Decidable (w.Admits s) :=
  inferInstanceAs (Decidable (_ ∨ _))

/-- The workload after the accepted transition to `toState`. -/
def moved (w : Workload) (toState : WorkloadState) (reason : Text) : Workload :=
  if w.state = toState then w
  else { w with state := toState }.record w.state toState reason .allow

theorem moved_self {w : Workload} {s : WorkloadState} (h : w.state = s) (reason : Text) :
    w.moved s reason = w := if_pos h

/-- **What a guarded transition can do.** -/
theorem guardedTransition_cases (w : Workload) (s : WorkloadState) (g : WorkloadGeneration)
    (reason : Text) (ex : Option Explanation) :
    ((g = w.generation ∧ w.Admits s) ∧
      (w.guardedTransition s g reason ex).outcome = .allow ∧
      (w.guardedTransition s g reason ex).workload = w.moved s reason) ∨
    (¬(g = w.generation ∧ w.Admits s) ∧
      (w.guardedTransition s g reason ex).outcome ≠ .allow ∧
      (w.guardedTransition s g reason ex).workload =
        w.record w.state s reason (w.guardedTransition s g reason ex).outcome) := by
  -- one case for each test of the source, in its order
  rw [guardedTransition]
  by_cases hg : g = w.generation
  · rw [if_neg (not_not.mpr hg)]
    by_cases hs : w.state = s
    · rw [if_pos hs]
      exact .inl ⟨⟨hg, .inl hs⟩, rfl, (moved_self hs reason).symm⟩
    · rw [if_neg hs]
      by_cases ht : isTerminal w.state = true
      · rw [if_pos ht]
        refine .inr ⟨fun h => ?_, by simp, rfl⟩
        rcases h.2 with h | h
        · exact hs h
        · exact absurd h.1 (by simp [ht])
      · rw [if_neg ht]
        by_cases hc : canTransition w.state s = true
        · rw [if_neg (by simp [hc])]
          by_cases hz : s = .completed ∧
              w.policy.completion.allowZeroWorkCompletion = false ∧ zeroWork w.state = true
          · rw [if_pos hz]
            refine .inr ⟨fun h => ?_, by simp, rfl⟩
            rcases h.2 with h | h
            · exact hs h
            · exact h.2.2 hz
          · rw [if_neg hz]
            refine .inl ⟨⟨hg, .inr ⟨by simpa using ht, hc, hz⟩⟩, rfl, ?_⟩
            rw [moved, if_neg hs]
        · rw [if_pos (by simpa using hc)]
          refine .inr ⟨fun h => ?_, by simp, rfl⟩
          rcases h.2 with h | h
          · exact hs h
          · exact hc h.2.1
  · rw [if_pos hg]
    exact .inr ⟨fun h => hg h.1, by simp, rfl⟩

theorem guardedTransition_admitted {w : Workload} {s : WorkloadState} {g : WorkloadGeneration}
    (hg : g = w.generation) (h : w.Admits s) (reason : Text) (ex : Option Explanation) :
    (w.guardedTransition s g reason ex).outcome = .allow ∧
      (w.guardedTransition s g reason ex).workload = w.moved s reason := by
  rcases w.guardedTransition_cases s g reason ex with ⟨-, h'⟩ | ⟨hn, -⟩
  · exact h'
  · exact absurd ⟨hg, h⟩ hn

theorem guardedTransition_refused {w : Workload} {s : WorkloadState} {g : WorkloadGeneration}
    (h : ¬(g = w.generation ∧ w.Admits s)) (reason : Text) (ex : Option Explanation) :
    (w.guardedTransition s g reason ex).outcome ≠ .allow ∧
      (w.guardedTransition s g reason ex).workload =
        w.record w.state s reason (w.guardedTransition s g reason ex).outcome := by
  rcases w.guardedTransition_cases s g reason ex with ⟨hy, -⟩ | ⟨-, h'⟩
  · exact absurd hy h
  · exact h'

/-- One admitted link of a chain of transitions. -/
theorem guardedTransition_andThen {w : Workload} {s : WorkloadState} {g : WorkloadGeneration}
    (hg : g = w.generation) (h : w.Admits s) (reason : Text) (ex : Option Explanation)
    (k : Workload → Option Explanation → Effect) :
    ∃ ex', (w.guardedTransition s g reason ex).andThen k = k (w.moved s reason) ex' := by
  obtain ⟨ho, hw⟩ := guardedTransition_admitted hg h reason ex
  refine ⟨(w.guardedTransition s g reason ex).explain, ?_⟩
  rw [Effect.andThen_of_allow ho, hw]

/-- A refused first link ends the chain. -/
theorem guardedTransition_andThen_refused {w : Workload} {s : WorkloadState}
    {g : WorkloadGeneration} (h : ¬(g = w.generation ∧ w.Admits s)) (reason : Text)
    (ex : Option Explanation) (k : Workload → Option Explanation → Effect) :
    ((w.guardedTransition s g reason ex).andThen k).outcome ≠ .allow ∧
      ((w.guardedTransition s g reason ex).andThen k).workload =
        w.record w.state s reason ((w.guardedTransition s g reason ex).andThen k).outcome := by
  have h' := guardedTransition_refused h reason ex
  rwa [Effect.andThen_of_ne h'.1]

/-! ### Frames -/

section Frames

variable (w : Workload) (s : WorkloadState) (reason : Text)

@[simp] theorem moved_state : (w.moved s reason).state = s := by
  rw [moved]
  split
  · assumption
  · rfl

/-- A transition touches the state and the audit trail, and nothing else. -/
theorem moved_frame : w.moved s reason =
    { w with
      state := s
      history := (w.moved s reason).history
      revision := (w.moved s reason).revision } := by
  rw [moved]
  split
  · subst s
    rfl
  · rfl

@[simp] theorem moved_id : (w.moved s reason).id = w.id := by rw [moved_frame]
@[simp] theorem moved_generation : (w.moved s reason).generation = w.generation := by
  rw [moved_frame]
@[simp] theorem moved_policy : (w.moved s reason).policy = w.policy := by rw [moved_frame]
@[simp] theorem moved_contract : (w.moved s reason).contract = w.contract := by rw [moved_frame]
@[simp] theorem moved_deps : (w.moved s reason).deps = w.deps := by rw [moved_frame]
@[simp] theorem moved_progress : (w.moved s reason).progress = w.progress := by rw [moved_frame]
@[simp] theorem moved_restartCount : (w.moved s reason).restartCount = w.restartCount := by
  rw [moved_frame]
@[simp] theorem moved_restartGen : (w.moved s reason).restartGen = w.restartGen := by
  rw [moved_frame]
@[simp] theorem moved_intent : (w.moved s reason).intent = w.intent := by rw [moved_frame]
@[simp] theorem moved_owner : (w.moved s reason).owner = w.owner := by rw [moved_frame]
@[simp] theorem moved_ownerGeneration : (w.moved s reason).ownerGeneration = w.ownerGeneration := by
  rw [moved_frame]
@[simp] theorem moved_cancelledFinal : (w.moved s reason).cancelledFinal = w.cancelledFinal := by
  rw [moved_frame]
@[simp] theorem moved_cancellationRequested :
    (w.moved s reason).cancellationRequested = w.cancellationRequested := by rw [moved_frame]
@[simp] theorem moved_episodes : (w.moved s reason).episodes = w.episodes := by rw [moved_frame]
@[simp] theorem moved_episodeCounterForMigration :
    (w.moved s reason).episodeCounterForMigration = w.episodeCounterForMigration := by
  rw [moved_frame]

end Frames

/-- Admission depends on the state and on the policy only. -/
theorem admits_congr {w w' : Workload} (hs : w'.state = w.state) (hp : w'.policy = w.policy)
    (s : WorkloadState) : w'.Admits s ↔ w.Admits s := by
  rw [Admits, Admits, hs, hp]

/-- An edge of the table other than a zero-work completion is admitted. -/
theorem admits_of_edge {w : Workload} {s t : WorkloadState} (hs : w.state = s)
    (he : canTransition s t = true) (ht : isTerminal s = false)
    (hc : t ≠ .completed ∨ zeroWork s = false) : w.Admits t := by
  subst hs
  refine .inr ⟨ht, he, fun h => ?_⟩
  rcases hc with hc | hc
  · exact hc h.1
  · exact absurd h.2.2 (by simp [hc])

/-! ### Links that always go through

An operation that reaches one of these states takes the next link without a
further check. -/

section Links

variable {w : Workload}

/-- Every state a new episode may start from has an edge to READY (or is READY). -/
theorem admits_ready_of_eligible (h : resumeEligible w.state = true) : w.Admits .ready := by
  rcases hs : w.state <;> rw [hs] at h
  case ready => exact .inl hs
  case restartPending => exact admits_of_edge hs (by decide) rfl (.inl nofun)
  case suspended => exact admits_of_edge hs (by decide) rfl (.inl nofun)
  case preempted => exact admits_of_edge hs (by decide) rfl (.inl nofun)
  case recovering => exact admits_of_edge hs (by decide) rfl (.inl nofun)
  all_goals exact absurd h (by decide)

/-- A ready workload starts. -/
theorem starts (h : w.state = .ready) : w.Admits .starting :=
  admits_of_edge h (by decide) rfl (.inl nofun)

/-- A starting workload runs. -/
theorem runs (h : w.state = .starting) : w.Admits .running :=
  admits_of_edge h (by decide) rfl (.inl nofun)

/-- A completing workload completes, with or without work done. -/
theorem completes (h : w.state = .completing) : w.Admits .completed :=
  admits_of_edge h (by decide) rfl (.inr rfl)

/-- A workload asked to cancel goes on to CANCELLING. -/
theorem cancelling (h : w.state = .cancellationRequested) : w.Admits .cancelling :=
  admits_of_edge h (by decide) rfl (.inl nofun)

/-- A cancelling workload is cancelled. -/
theorem cancels (h : w.state = .cancelling) : w.Admits .cancelled :=
  admits_of_edge h (by decide) rfl (.inl nofun)

/-- A workload that runs in some way recovers. -/
theorem recovers (h : w.state = .running ∨ w.state = .degraded) : w.Admits .recovering := by
  rcases h with h | h
  · exact admits_of_edge h (by decide) rfl (.inl nofun)
  · exact admits_of_edge h (by decide) rfl (.inl nofun)

/-- A workload asked to suspend goes on to SUSPENDING (or is there already). -/
theorem suspending (h : w.state = .suspendRequested ∨ w.state = .suspending) :
    w.Admits .suspending := by
  rcases h with h | h
  · exact admits_of_edge h (by decide) rfl (.inl nofun)
  · exact .inl h

/-- A suspending workload is suspended. -/
theorem suspends (h : w.state = .suspending) : w.Admits .suspended :=
  admits_of_edge h (by decide) rfl (.inl nofun)

/-- A suspended or preempted workload is ready to resume. -/
theorem resumes (h : w.state = .suspended ∨ w.state = .preempted) : w.Admits .ready := by
  refine admits_ready_of_eligible ?_
  rcases h with h | h <;> rw [h] <;> rfl

/-- A workload due to migrate goes on to MIGRATING (or is there already). -/
theorem migrating (h : w.state = .migrationPending ∨ w.state = .migrating) :
    w.Admits .migrating := by
  rcases h with h | h
  · exact admits_of_edge h (by decide) rfl (.inl nofun)
  · exact .inl h

/-- A migrating workload runs on. -/
theorem migrates (h : w.state = .migrating) : w.Admits .running :=
  admits_of_edge h (by decide) rfl (.inl nofun)

end Links

/-- Two links, the second of which always goes through after the first. -/
theorem guardedTransition_chain {w : Workload} {s t : WorkloadState} {g : WorkloadGeneration}
    (hg : g = w.generation) (hst : ∀ w' : Workload, w'.state = s → w'.Admits t)
    (reason reason' : Text) (ex : Option Explanation) :
    (w.Admits s ∧
      ((w.guardedTransition s g reason ex).andThen fun w ex =>
        w.guardedTransition t w.generation reason' ex).outcome = .allow ∧
      ((w.guardedTransition s g reason ex).andThen fun w ex =>
        w.guardedTransition t w.generation reason' ex).workload =
        (w.moved s reason).moved t reason') ∨
    (¬w.Admits s ∧
      ((w.guardedTransition s g reason ex).andThen fun w ex =>
        w.guardedTransition t w.generation reason' ex).outcome ≠ .allow ∧
      ((w.guardedTransition s g reason ex).andThen fun w ex =>
        w.guardedTransition t w.generation reason' ex).workload =
        w.record w.state s reason ((w.guardedTransition s g reason ex).andThen fun w ex =>
          w.guardedTransition t w.generation reason' ex).outcome) := by
  -- only the first link can be refused
  by_cases ha : w.Admits s
  · obtain ⟨ex', h⟩ := guardedTransition_andThen hg ha reason ex
      fun w ex => w.guardedTransition t w.generation reason' ex
    rw [h]
    exact .inl ⟨ha, guardedTransition_admitted rfl (hst _ (moved_state ..)) reason' ex'⟩
  · exact .inr ⟨ha, guardedTransition_andThen_refused (fun h => ha h.2) reason ex _⟩

end Workload

end WorkloadFabric
