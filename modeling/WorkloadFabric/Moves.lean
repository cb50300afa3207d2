/-
Where the steps of a workload lead.

`Moves w op s` says when an accepted `op` takes `w` to the state `s`; a step that
does not move the workload leaves its state alone (`Step.state_cases`).  The two
cancellation flags are written by three operations only (`Step.final_cases`,
`Step.requested_cases`).  From these the invariant of all workloads of an engine
follows (`Governed`): the states they can be found in, and what the flags say about
them.
-/
import WorkloadFabric.Authority

namespace WorkloadFabric

namespace Workload

/-- The accepted operation takes the workload to this state. -/
def Moves (w : Workload) : WorkloadOp → WorkloadState → Prop
  | .transition t _ _, s => s = t ∧ w.Admits t
  | .settle _, s => w.settleTarget = some s ∧ w.Admits s
  | .startEpisode _ _ _ _, s =>
    s = .starting ∧ w.cancelledFinal = false ∧ resumeEligible w.state = true
  | .admitDispatch _ _ _, s => s = .running ∧ w.state = .starting
  | .commitCompletion g, s => s = .completed ∧ w.Granted (.commitCompletion g) ∧
    w.Admits .completing
  | .finalize g, s => s = .completed ∧ w.Granted (.finalize g) ∧ w.Admits .completing
  | .requestCancellationWorkloadScope _, s =>
    s = .cancellationRequested ∧ w.Admits .cancellationRequested
  | .completeCancellation _, s => s = .cancelled ∧ w.Admits .cancellationRequested
  | .onWorkerLost _ _ _, s => s = .recovering ∧ (w.state = .running ∨ w.state = .degraded)
  | .planRestart _ _, s => s = .restartPending ∧ w.Admits .restartPending
  | .requestSuspend _, s => s = .suspendRequested ∧ w.Admits .suspendRequested
  | .completeSuspend _, s => s = .suspended ∧ (w.state = .suspendRequested ∨ w.state = .suspending)
  | .requestResume _, s => s = .ready ∧ (w.state = .suspended ∨ w.state = .preempted)
  | .requestMigration _, s => s = .migrationPending ∧ w.Admits .migrationPending
  | .commitMigration _ _ _, s =>
    s = .running ∧ (w.state = .migrationPending ∨ w.state = .migrating)
  | _, _ => False

/-- **Where a step can lead.** -/
theorem Step.state_cases {w w' : Workload} {op : WorkloadOp} {o : Outcome} (h : Step w op o w') :
    w'.state = w.state ∨ (o = .allow ∧ w.Moves op w'.state) := by
  cases h with
  | transition _ ha => exact .inr ⟨rfl, moved_state .., ha⟩
  | settle _ ht ha =>
    rw [moved_state]
    exact .inr ⟨rfl, ht, ha⟩
  | start hc he => exact .inr ⟨rfl, started_state .., hc, he⟩
  | dispatch =>
    split
    case isTrue hs => exact .inr ⟨rfl, moved_state .., hs⟩
    case isFalse => exact .inl rfl
  | complete hg hc ha => exact .inr ⟨rfl, moved_state .., ⟨hg, hc⟩, ha⟩
  | finalize hg hk ht ha => exact .inr ⟨rfl, moved_state .., ⟨hg, hk, ht⟩, ha⟩
  | cancel _ _ _ ha => exact .inr ⟨rfl, moved_state .., ha⟩
  | cancelled _ _ ha => exact .inr ⟨rfl, moved_state .., ha⟩
  | lost =>
    split
    case isTrue hs => exact .inr ⟨rfl, moved_state .., hs⟩
    case isFalse => exact .inl rfl
  | restart _ _ ha => exact .inr ⟨rfl, moved_state .., ha⟩
  | suspend _ _ _ ha => exact .inr ⟨rfl, moved_state .., ha⟩
  | suspended _ hs => exact .inr ⟨rfl, moved_state .., hs⟩
  | resume _ hs => exact .inr ⟨rfl, moved_state .., hs⟩
  | migrate _ _ ha => exact .inr ⟨rfl, moved_state .., ha⟩
  | commitMigration _ hs => exact .inr ⟨rfl, moved_state .., hs⟩
  | _ => exact .inl rfl

/-- **Only `completeCancellation` writes `cancelledFinal`**, and it only raises it. -/
theorem Step.final_cases {w w' : Workload} {op : WorkloadOp} {o : Outcome} (h : Step w op o w') :
    w'.cancelledFinal = w.cancelledFinal ∨
      ∃ g, op = .completeCancellation g ∧ w.Granted op ∧ w'.cancelledFinal = true := by
  cases h with
  | cancelledAgain hg hs => exact .inr ⟨_, rfl, ⟨hg, .inl hs⟩, rfl⟩
  | cancelled hg ht => exact .inr ⟨_, rfl, ⟨hg, .inr ht⟩, by simp [flagCancelledFinal]⟩
  | cancelledRefused hg ht => exact .inr ⟨_, rfl, ⟨hg, .inr ht⟩, rfl⟩
  | start => exact .inl (by simp [started, beginEpisode])
  | commitMigration => exact .inl (by simp [migrated, handOver])
  | dispatch =>
    left
    split
    · exact moved_cancelledFinal ..
    · rfl
  | lost =>
    left
    split
    · exact moved_cancelledFinal ..
    · rfl
  | _ =>
    left
    first
      | rfl
      | exact moved_cancelledFinal ..
      | simp only [moved_cancelledFinal]; rfl

/-- **How `cancellationRequested` is written**: the cancellations raise it, a
completion clears it. -/
theorem Step.requested_cases {w w' : Workload} {op : WorkloadOp} {o : Outcome}
    (h : Step w op o w') :
    w'.cancellationRequested = w.cancellationRequested ∨
      (∃ g, op = .commitCompletion g ∧ w.Granted op ∧ w'.cancellationRequested = false) ∨
      (isTerminal w.state = false ∧ w'.cancellationRequested = true ∧
        ((∃ g, op = .requestCancellationWorkloadScope g) ∨ ∃ g, op = .completeCancellation g)) := by
  cases h with
  | complete hg hc =>
    exact .inr (.inl ⟨_, rfl, ⟨hg, hc⟩, by simp [claimCompletion]⟩)
  | completeRefused hg hc => exact .inr (.inl ⟨_, rfl, ⟨hg, hc⟩, rfl⟩)
  | cancelAgain _ hs =>
    refine .inr (.inr ⟨?_, rfl, .inl ⟨_, rfl⟩⟩)
    rcases (isCancelling_iff _).mp hs with hs | hs <;> rw [hs] <;> rfl
  | cancel _ ht => exact .inr (.inr ⟨ht, by simp [flagCancellation], .inl ⟨_, rfl⟩⟩)
  | cancelRefused _ ht => exact .inr (.inr ⟨ht, rfl, .inl ⟨_, rfl⟩⟩)
  | cancelled _ ht => exact .inr (.inr ⟨ht, by simp [flagCancelledFinal], .inr ⟨_, rfl⟩⟩)
  | cancelledRefused _ ht => exact .inr (.inr ⟨ht, rfl, .inr ⟨_, rfl⟩⟩)
  | start => exact .inl (by simp [started, beginEpisode])
  | commitMigration => exact .inl (by simp [migrated, handOver])
  | dispatch =>
    left
    split
    · exact moved_cancellationRequested ..
    · rfl
  | lost =>
    left
    split
    · exact moved_cancellationRequested ..
    · rfl
  | _ =>
    left
    first
      | rfl
      | exact moved_cancellationRequested ..
      | simp only [moved_cancellationRequested]; rfl

/-! ### Terminal states -/

/-- **A terminal workload stays where it is.** -/
theorem Step.terminal {w w' : Workload} {op : WorkloadOp} {o : Outcome} (h : Step w op o w')
    (ht : isTerminal w.state = true) : w'.state = w.state := by
  rcases h.state_cases with hs | ⟨-, hm⟩
  · exact hs
  have hdead {s : WorkloadState} (ha : w.Admits s) : s = w.state := by
    rcases ha with hs | ⟨hn, -⟩
    · exact hs.symm
    · exact absurd hn (by simp [ht])
  have hdead' {s : WorkloadState} (hs : w.state = s) (hn : isTerminal s = false) : False := by
    rw [hs, hn] at ht
    exact Bool.false_ne_true ht
  cases op with
  | transition => exact hm.1.trans (hdead hm.2)
  | settle => exact hdead hm.2
  | startEpisode =>
    rw [not_terminal_of_eligible hm.2.2] at ht
    exact absurd ht (by decide)
  | admitDispatch => exact (hdead' hm.2 rfl).elim
  | commitCompletion => exact absurd hm.2.1.2.1 (by simp [ht])
  | finalize => exact absurd hm.2.1.2.2 (by simp [ht])
  | requestCancellationWorkloadScope => exact hm.1.trans (hdead hm.2)
  | completeCancellation => exact absurd ((hdead hm.2) ▸ ht) (by decide)
  | onWorkerLost => rcases hm.2 with hs | hs <;> exact (hdead' hs rfl).elim
  | planRestart => exact hm.1.trans (hdead hm.2)
  | requestSuspend => exact hm.1.trans (hdead hm.2)
  | completeSuspend => rcases hm.2 with hs | hs <;> exact (hdead' hs rfl).elim
  | requestResume => rcases hm.2 with hs | hs <;> exact (hdead' hs rfl).elim
  | requestMigration => exact hm.1.trans (hdead hm.2)
  | commitMigration => rcases hm.2 with hs | hs <;> exact (hdead' hs rfl).elim
  | _ => exact hm.elim

/-! ### The workloads of an engine -/

/-- The states before the next start, where no execution is under way. -/
def awaitsStart : WorkloadState → Bool
  | .created | .validating | .waitingForDependencies | .waitingForResources | .ready => true
  | _ => false

/-- The states in which an engine leaves its workloads. -/
def engineState : WorkloadState → Bool
  | .created | .validating | .waitingForDependencies | .waitingForResources | .ready | .starting
  | .running | .suspendRequested | .suspended | .migrationPending | .recovering
  | .restartPending | .cancellationRequested | .completed | .cancelled => true
  | _ => false

/-- The operations an engine performs. -/
def Governs : WorkloadOp → Prop
  | .transition s _ _ => s = .validating
  | .finalize _ => False
  | .markEpisodeFailed _ => False
  | _ => True

/-- Where a workload that awaits its start can go. -/
theorem target_of_awaiting {w : Workload} {s : WorkloadState} (h : w.Admits s)
    (hw : awaitsStart w.state = true) : awaitsStart s = true ∨
      s ∈ [WorkloadState.starting, .blocked, .cancelled, .completed, .failedTerminal] := by
  have htable : ∀ e ∈ kTransitionTable, awaitsStart e.1 = true → awaitsStart e.2 = true ∨
      e.2 ∈ [WorkloadState.starting, .blocked, .cancelled, .completed, .failedTerminal] := by decide
  rcases h with rfl | ⟨-, he, -⟩
  · exact .inl hw
  · exact htable _ (mem_of_canTransition he) hw

/-- What the gates call for awaits a start. -/
theorem settleTarget_awaits {w : Workload} {s : WorkloadState} (h : w.settleTarget = some s) :
    awaitsStart s = true := by
  rw [settleTarget] at h
  split at h
  · split at h
    · exact absurd h (by simp)
    · exact Option.some.inj h ▸ rfl
  · split at h
    · split at h
      · exact absurd h (by simp)
      · exact Option.some.inj h ▸ rfl
    · exact Option.some.inj h ▸ rfl

/-- What holds of every workload of an engine. -/
structure Governed (w : Workload) : Prop where
  state : engineState w.state = true
  /-- completing puts an end to the cancellation -/
  completed : w.state = .completed → w.cancellationRequested = false
  cancelled : w.state = .cancelled → w.cancellationRequested = true ∧ w.cancelledFinal = true
  /-- a cancellation is final at the end, or because it was refused at the beginning -/
  final : w.cancelledFinal = true → w.state = .cancelled ∨ awaitsStart w.state = true

theorem governed_create (id : WorkloadId) (name intent : Text) (policy : Policy) :
    Governed { create id name intent with policy := policy } where
  state := rfl
  completed h := absurd h (by simp [create])
  cancelled h := absurd h (by simp [create])
  final h := absurd h (by simp [create])

theorem engineState_of_awaits {s : WorkloadState} (h : awaitsStart s = true) :
    engineState s = true := by
  cases s <;> first | rfl | exact absurd h (by decide)

theorem not_terminal_of_awaits {s : WorkloadState} (h : awaitsStart s = true) :
    isTerminal s = false := by
  cases s <;> first | rfl | exact absurd h (by decide)

/-- **A cancellation goes through unless the workload awaits its start.** -/
theorem admits_cancellation_iff {w : Workload} (h : engineState w.state = true)
    (ht : isTerminal w.state = false) :
    w.Admits .cancellationRequested ↔ awaitsStart w.state = false := by
  constructor
  · intro ha
    rw [Bool.eq_false_iff]
    intro hw
    rcases target_of_awaiting ha hw with hs | hs
    · exact absurd hs (by decide)
    · exact absurd hs (by decide)
  · intro hw
    rcases hs : w.state <;> rw [hs] at h ht hw
    case cancellationRequested => exact .inl hs
    case starting => exact admits_of_edge hs (by decide) rfl (.inl nofun)
    case running => exact admits_of_edge hs (by decide) rfl (.inl nofun)
    case suspendRequested => exact admits_of_edge hs (by decide) rfl (.inl nofun)
    case suspended => exact admits_of_edge hs (by decide) rfl (.inl nofun)
    case migrationPending => exact admits_of_edge hs (by decide) rfl (.inl nofun)
    case recovering => exact admits_of_edge hs (by decide) rfl (.inl nofun)
    case restartPending => exact admits_of_edge hs (by decide) rfl (.inl nofun)
    all_goals first
      | exact absurd h (by decide)
      | exact absurd ht (by decide)
      | exact absurd hw (by decide)

/-- What an accepted completion leaves of the cancellation. -/
theorem Step.completed {w w' : Workload} {g : WorkloadGeneration}
    (h : Step w (.commitCompletion g) .allow w') : w'.cancellationRequested = false := by
  cases h with
  | rejected ho => exact absurd rfl ho
  | completeRefused _ _ _ ho => exact absurd rfl ho
  | complete => simp [claimCompletion]

/-- How `completeCancellation` ends: in CANCELLED with both flags up, or where it was
with the final flag up, or without effect. -/
theorem Step.cancelled_cases {w w' : Workload} {g : WorkloadGeneration} {o : Outcome}
    (h : Step w (.completeCancellation g) o w') :
    w' = w ∨ (w.state = .cancelled ∧ w' = { w with cancelledFinal := true }) ∨
      (w.Admits .cancellationRequested ∧ w'.state = .cancelled ∧
        w'.cancellationRequested = true ∧ w'.cancelledFinal = true) ∨
      (o ≠ .allow ∧ isTerminal w.state = false ∧ ¬w.Admits .cancellationRequested ∧
        w'.state = w.state ∧ w'.cancelledFinal = true) := by
  cases h with
  | rejected => exact .inl rfl
  | cancelledAgain _ hs => exact .inr (.inl ⟨hs, rfl⟩)
  | cancelled _ _ ha =>
    exact .inr (.inr (.inl ⟨ha, moved_state .., by simp [flagCancelledFinal],
      by simp [flagCancelledFinal]⟩))
  | cancelledRefused _ ht hn ho => exact .inr (.inr (.inr ⟨ho, ht, hn, rfl, rfl⟩))

/-- A step of the engine that moves a workload whose cancellation was refused leaves it
awaiting its start. -/
theorem awaits_of_moves {w : Workload} {op : WorkloadOp} {s : WorkloadState} (hop : Governs op)
    (hf : w.cancelledFinal = true) (hw : awaitsStart w.state = true) (h : w.Moves op s)
    (hc : ∀ g, op ≠ .completeCancellation g) : awaitsStart s = true := by
  have hdead {t : WorkloadState} (ha : w.Admits t) (ht : awaitsStart t = false)
      (hn : t ∉ [WorkloadState.starting, .blocked, .cancelled, .completed, .failedTerminal]) :
      False := by
    rcases target_of_awaiting ha hw with h | h
    · rw [ht] at h
      exact Bool.false_ne_true h
    · exact hn h
  have hother {t : WorkloadState} (hs : w.state = t) (ht : awaitsStart t = false) : False := by
    rw [hs, ht] at hw
    exact Bool.false_ne_true hw
  cases op with
  | transition =>
    rw [h.1, show _ = WorkloadState.validating from hop]
    rfl
  | settle => exact settleTarget_awaits h.1
  | startEpisode => exact absurd (hf.symm.trans h.2.1) (by decide)
  | admitDispatch => exact (hother h.2 rfl).elim
  | commitCompletion => exact (hdead h.2.2 rfl (by decide)).elim
  | finalize => exact hop.elim
  | requestCancellationWorkloadScope => exact (hdead h.2 rfl (by decide)).elim
  | completeCancellation g => exact absurd rfl (hc g)
  | onWorkerLost => rcases h.2 with hs | hs <;> exact (hother hs rfl).elim
  | planRestart => exact (hdead h.2 rfl (by decide)).elim
  | requestSuspend => exact (hdead h.2 rfl (by decide)).elim
  | completeSuspend => rcases h.2 with hs | hs <;> exact (hother hs rfl).elim
  | requestResume => rcases h.2 with hs | hs <;> exact (hother hs rfl).elim
  | requestMigration => exact (hdead h.2 rfl (by decide)).elim
  | commitMigration => rcases h.2 with hs | hs <;> exact (hother hs rfl).elim
  | _ => exact h.elim

/-- Where a step of the engine leads from one of its states. -/
theorem engineState_of_moves {w : Workload} {op : WorkloadOp} {s : WorkloadState}
    (hop : Governs op) (h : w.Moves op s) : engineState s = true := by
  cases op with
  | transition =>
    rw [h.1, show _ = WorkloadState.validating from hop]
    rfl
  | settle => exact engineState_of_awaits (settleTarget_awaits h.1)
  | finalize => exact hop.elim
  | startEpisode | admitDispatch | commitCompletion | requestCancellationWorkloadScope
  | completeCancellation | onWorkerLost | planRestart | requestSuspend | completeSuspend
  | requestResume | requestMigration | commitMigration =>
    rw [h.1]
    rfl
  | _ => exact h.elim

/-- Only completions lead to COMPLETED, only cancellations to CANCELLED. -/
theorem op_of_moves_to_end {w : Workload} {op : WorkloadOp} (hop : Governs op) :
    (w.Moves op .completed → ∃ g, op = .commitCompletion g) ∧
      (w.Moves op .cancelled → ∃ g, op = .completeCancellation g) := by
  have hsettle {s : WorkloadState} (h : w.settleTarget = some s) (hs : awaitsStart s = false) :
      False := by
    rw [settleTarget_awaits h] at hs
    exact absurd hs (by decide)
  cases op with
  | transition =>
    have hv : _ = WorkloadState.validating := hop
    exact ⟨fun h => absurd (h.1.trans hv) (by decide), fun h => absurd (h.1.trans hv) (by decide)⟩
  | settle => exact ⟨fun h => (hsettle h.1 rfl).elim, fun h => (hsettle h.1 rfl).elim⟩
  | finalize => exact hop.elim
  | commitCompletion g => exact ⟨fun _ => ⟨g, rfl⟩, fun h => absurd h.1 (by decide)⟩
  | completeCancellation g => exact ⟨fun h => absurd h.1 (by decide), fun _ => ⟨g, rfl⟩⟩
  | startEpisode | admitDispatch | requestCancellationWorkloadScope | onWorkerLost | planRestart
  | requestSuspend | completeSuspend | requestResume | requestMigration | commitMigration =>
    exact ⟨fun h => absurd h.1 (by decide), fun h => absurd h.1 (by decide)⟩
  | _ => exact ⟨fun h => h.elim, fun h => h.elim⟩

/-- **Every step of an engine keeps its workloads governed.** -/
theorem Governed.step {w w' : Workload} {op : WorkloadOp} {o : Outcome} (h : Governed w)
    (hop : Governs op) (hs : Step w op o w') : Governed w' where
  state := by
    rcases hs.state_cases with hst | ⟨-, hm⟩
    · exact hst ▸ h.state
    · exact engineState_of_moves hop hm
  completed hc := by
    rcases hs.state_cases with hst | ⟨ho, hm⟩
    · have ht : isTerminal w.state = true := by
        rw [← hst, hc]
        rfl
      rcases hs.requested_cases with hr | ⟨_, _, _, hr⟩ | ⟨hn, -⟩
      · exact hr.trans (h.completed (hst.symm.trans hc))
      · exact hr
      · exact absurd ht (by simp [hn])
    · rw [hc] at hm
      obtain ⟨g, rfl⟩ := (op_of_moves_to_end hop).1 hm
      exact (ho ▸ hs).completed
  cancelled hc := by
    rcases hs.state_cases with hst | ⟨-, hm⟩
    · have hw : w.state = .cancelled := hst.symm.trans hc
      obtain ⟨hr, hf⟩ := h.cancelled hw
      refine ⟨?_, ?_⟩
      · rcases hs.requested_cases with hr' | ⟨g, rfl, hg, -⟩ | ⟨-, hr', -⟩
        · exact hr'.trans hr
        · exact absurd hg.2.1 (by rw [hw]; decide)
        · exact hr'
      · rcases hs.final_cases with hf' | ⟨_, _, _, hf'⟩
        · exact hf'.trans hf
        · exact hf'
    · rw [hc] at hm
      obtain ⟨g, rfl⟩ := (op_of_moves_to_end hop).2 hm
      rcases hs.cancelled_cases with rfl | ⟨hw, rfl⟩ | ⟨-, -, hr, hf⟩ | ⟨-, ht, -, hst, -⟩
      · exact h.cancelled hc
      · exact ⟨(h.cancelled hw).1, rfl⟩
      · exact ⟨hr, hf⟩
      · rw [← hst, hc] at ht
        exact absurd ht (by decide)
  final hf := by
    rcases hs.final_cases with hf' | ⟨g, rfl, -, -⟩
    · rcases h.final (hf'.symm.trans hf) with hw | hw
      · exact .inl ((hs.terminal (by rw [hw]; rfl)).trans hw)
      · rcases hs.state_cases with hst | ⟨-, hm⟩
        · exact .inr (hst ▸ hw)
        · by_cases hc : ∃ g, op = .completeCancellation g
          · obtain ⟨g, rfl⟩ := hc
            exact .inl hm.1
          · exact .inr (awaits_of_moves hop (hf'.symm.trans hf) hw hm fun g hg => hc ⟨g, hg⟩)
    · rcases hs.cancelled_cases with rfl | ⟨hw, rfl⟩ | ⟨-, hst, -⟩ | ⟨-, ht, hn, hst, -⟩
      · exact h.final hf
      · exact .inl hw
      · exact .inl hst
      · -- refused although not terminal: the workload awaits its start
        rw [admits_cancellation_iff h.state ht, Bool.not_eq_false] at hn
        exact .inr (hst ▸ hn)

end Workload

/-- An engine performs only operations that keep its workloads governed. -/
theorem Request.governs (counter : UInt64) (w : Workload) (r : Request) :
    Workload.Governs (r.operation counter w) := by
  cases r <;> first | exact trivial | rfl

namespace WorkloadEngine

variable {σ : Type} [StateStore σ]

/-- Every registered workload is governed, after every run. -/
theorem governed_of_run {store : Option σ} {calls : List EngineCall} {id : WorkloadId}
    {w : Workload} (h : ((ofStore store).run calls).get id = some w) : w.Governed := by
  refine workload_induction (P := fun _ w => w.Governed) ?_ ?_ ?_ calls h
  · exact fun _ name intent policy _ => Workload.governed_create id name intent policy
  · exact fun _ _ _ _ _ hw => hw
  · exact fun _ r w _ hw => hw.step (r.governs _ w) (w.apply_step none _)

end WorkloadEngine

end WorkloadFabric
