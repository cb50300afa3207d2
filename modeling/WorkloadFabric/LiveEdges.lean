/-
The part of the transition table that an engine uses.

The table has 105 edges between 26 states.  An engine asks for transitions in its own
operations only, and each of them stands in for a few edges (`Travels`).

* **`live_edges_iff`** — whatever the store, the edges that the workloads of an engine take
  are these 40 and no others, and the states they are found in are 15.

So nothing is ever BLOCKED, DEGRADED, preempted, superseded or failed, and the states in
the middle of an operation are passed only.
-/
import WorkloadFabric.WholeChains
import WorkloadFabric.Settling

namespace WorkloadFabric

/-- The edges that some workload of an engine takes. -/
def liveEdges : List (WorkloadState × WorkloadState) := [
  (.created, .validating),
  (.created, .waitingForDependencies),
  (.validating, .waitingForDependencies),
  (.validating, .waitingForResources),
  (.validating, .ready),
  (.waitingForDependencies, .validating),
  (.waitingForDependencies, .waitingForResources),
  (.waitingForDependencies, .ready),
  (.waitingForResources, .validating),
  (.waitingForResources, .waitingForDependencies),
  (.waitingForResources, .ready),
  (.ready, .starting),
  (.ready, .waitingForResources),
  (.ready, .waitingForDependencies),
  (.starting, .running),
  (.starting, .ready),
  (.starting, .restartPending),
  (.starting, .cancellationRequested),
  (.running, .completing),
  (.running, .suspendRequested),
  (.running, .migrationPending),
  (.running, .cancellationRequested),
  (.running, .recovering),
  (.suspendRequested, .suspending),
  (.suspendRequested, .cancellationRequested),
  (.suspending, .suspended),
  (.suspended, .ready),
  (.suspended, .cancellationRequested),
  (.migrationPending, .migrating),
  (.migrationPending, .cancellationRequested),
  (.migrating, .running),
  (.recovering, .restartPending),
  (.recovering, .ready),
  (.recovering, .cancellationRequested),
  (.restartPending, .ready),
  (.restartPending, .cancellationRequested),
  (.cancellationRequested, .cancelling),
  (.cancellationRequested, .completing),
  (.cancelling, .cancelled),
  (.completing, .completed)]

namespace Workload

/-! ### What an operation takes a workload through -/

/-- The accepted operation takes the workload through these states. -/
def Travels (w : Workload) : WorkloadOp → List WorkloadState → Prop
  | .transition t _ _, p => p = [t] ∧ w.Admits t
  | .settle _, p => ∃ s, p = [s] ∧ w.settleTarget = some s ∧ w.Admits s
  | .startEpisode _ _ _ _, p => p = [.ready, .starting] ∧ resumeEligible w.state = true
  | .admitDispatch _ _ _, p => p = [.running] ∧ w.state = .starting
  | .commitCompletion _, p => p = [.completing, .completed] ∧ w.Admits .completing
  | .finalize _, p => p = [.completing, .completed] ∧ w.Admits .completing
  | .requestCancellationWorkloadScope _, p =>
    p = [.cancellationRequested] ∧ w.Admits .cancellationRequested
  | .completeCancellation _, p =>
    p = [.cancellationRequested, .cancelling, .cancelled] ∧ w.Admits .cancellationRequested
  | .onWorkerLost _ _ _, p => p = [.recovering] ∧ (w.state = .running ∨ w.state = .degraded)
  | .planRestart _ _, p => p = [.restartPending] ∧ w.Admits .restartPending
  | .requestSuspend _, p =>
    p = [.suspendRequested] ∧ isActivelyRunning w.state = true ∧ w.Admits .suspendRequested
  | .completeSuspend _, p =>
    p = [.suspending, .suspended] ∧ (w.state = .suspendRequested ∨ w.state = .suspending)
  | .requestResume _, p => p = [.ready] ∧ (w.state = .suspended ∨ w.state = .preempted)
  | .requestMigration _, p => p = [.migrationPending] ∧ w.Admits .migrationPending
  | .commitMigration _ _ _, p =>
    p = [.migrating, .running] ∧ (w.state = .migrationPending ∨ w.state = .migrating)
  | _, _ => False

/-- **What the trail of a step looks like**: no move, or the moves of the operation. -/
theorem Step.moves_cases {w w' : Workload} {op : WorkloadOp} {o : Outcome} (h : Step w op o w') :
    w'.acceptedMoves = w.acceptedMoves ∨
      ∃ p, w.Travels op p ∧ w'.acceptedMoves = w.acceptedMoves ++ chainFrom w.state p := by
  cases h with
  | transition _ ha => exact .inr ⟨_, ⟨rfl, ha⟩, w.acceptedMoves_moved ..⟩
  | transitionRefused _ ho => exact .inl (w.acceptedMoves_record _ _ _ ho)
  | settle _ ht ha => exact .inr ⟨_, ⟨_, rfl, ht, ha⟩, w.acceptedMoves_moved ..⟩
  | settleRefused _ _ _ ho => exact .inl (w.acceptedMoves_record _ _ _ ho)
  | start _ he => exact .inr ⟨_, ⟨rfl, he⟩, w.acceptedMoves_moved_moved ..⟩
  | @dispatch episode worker boot =>
    split
    case isTrue hs =>
      exact .inr ⟨_, ⟨rfl, hs⟩,
        (w.modifyEpisode episode (bindWorker worker boot)).acceptedMoves_moved ..⟩
    case isFalse => exact .inl rfl
  | complete _ _ ha => exact .inr ⟨_, ⟨rfl, ha⟩, w.claimCompletion.acceptedMoves_moved_moved ..⟩
  | completeRefused _ _ _ ho => exact .inl (w.claimCompletion.acceptedMoves_record _ _ _ ho)
  | finalize _ _ _ ha => exact .inr ⟨_, ⟨rfl, ha⟩, w.countCompletion.acceptedMoves_moved_moved ..⟩
  | finalizeRefused _ _ _ _ ho => exact .inl (w.countCompletion.acceptedMoves_record _ _ _ ho)
  | cancel _ _ _ ha => exact .inr ⟨_, ⟨rfl, ha⟩, w.flagCancellation.acceptedMoves_moved ..⟩
  | cancelRefused _ _ _ _ ho => exact .inl (w.flagCancellation.acceptedMoves_record _ _ _ ho)
  | cancelled hg ht ha =>
    rcases ((Step.cancelled hg ht ha).chain rfl).1 with hchain | hnone
    · exact .inr ⟨_, ⟨rfl, ha⟩, hchain.moves⟩
    · exact .inl hnone.moves
  | cancelledRefused _ _ _ ho => exact .inl (w.flagCancelledFinal.acceptedMoves_record _ _ _ ho)
  | lost =>
    split
    case isTrue hs =>
      exact .inr ⟨_, ⟨rfl, hs⟩, (w.modifyCurrent loseWorker).acceptedMoves_moved ..⟩
    case isFalse => exact .inl rfl
  | restart _ _ ha => exact .inr ⟨_, ⟨rfl, ha⟩, (w.takeRestartSlot _).acceptedMoves_moved ..⟩
  | restartRefused _ _ _ ho => exact .inl ((w.takeRestartSlot _).acceptedMoves_record _ _ _ ho)
  | suspend _ _ hs ha => exact .inr ⟨_, ⟨rfl, hs, ha⟩, w.acceptedMoves_moved ..⟩
  | suspendRefused _ _ _ _ ho => exact .inl (w.acceptedMoves_record _ _ _ ho)
  | suspended _ hs =>
    exact .inr ⟨_, ⟨rfl, hs⟩, (w.modifyCurrent suspendEpisode).acceptedMoves_moved_moved ..⟩
  | resume _ hs => exact .inr ⟨_, ⟨rfl, hs⟩, w.acceptedMoves_moved ..⟩
  | migrate _ _ ha => exact .inr ⟨_, ⟨rfl, ha⟩, w.countMigration.acceptedMoves_moved ..⟩
  | migrateRefused _ _ _ ho => exact .inl (w.countMigration.acceptedMoves_record _ _ _ ho)
  | commitMigration hg hs =>
    rcases ((Step.commitMigration hg hs).chain rfl).1 with hchain | hnone
    · exact .inr ⟨_, ⟨rfl, hs⟩, hchain.moves⟩
    · exact .inl hnone.moves
  | _ => exact .inl rfl

/-! ### The edges are live -/

/-- One link that is admitted is an edge of the table. -/
theorem edge_of_admits {w : Workload} {t : WorkloadState} (ha : w.Admits t) :
    ∀ e ∈ chainFrom w.state [t], e ∈ kTransitionTable ∧ e.1 = w.state ∧ e.2 = t := by
  rw [chainFrom, chainFrom]
  rcases ha with hs | ⟨-, he, -⟩
  · rw [if_pos hs]
    exact List.forall_mem_nil _
  · split
    · exact List.forall_mem_nil _
    · exact List.forall_mem_singleton.mpr ⟨mem_of_canTransition he, rfl, rfl⟩

/-- The states that an engine asks for from any state it allows. -/
def askedFor : List WorkloadState := [.validating, .waitingForDependencies, .waitingForResources,
  .ready, .cancellationRequested, .restartPending, .completing, .migrationPending]

theorem live_of_admits {w : Workload} (hw : engineState w.state = true) {t : WorkloadState}
    (ha : w.Admits t) (ht : t ∈ askedFor) : ∀ e ∈ chainFrom w.state [t], e ∈ liveEdges := by
  have htable : ∀ e ∈ kTransitionTable, engineState e.1 = true → e.2 ∈ askedFor →
      e ∈ liveEdges := by decide
  intro e he
  obtain ⟨hmem, hfrom, hto⟩ := edge_of_admits ha e he
  exact htable e hmem (hfrom ▸ hw) (hto ▸ ht)

/-- And on from there. -/
theorem live_chain {s t : WorkloadState} {ts : List WorkloadState}
    (h : ∀ e ∈ chainFrom s [t], e ∈ liveEdges) (hts : ∀ e ∈ chainFrom t ts, e ∈ liveEdges) :
    ∀ e ∈ chainFrom s (t :: ts), e ∈ liveEdges := by
  rw [chainFrom_cons]
  exact List.forall_mem_append.mpr ⟨h, hts⟩

/-- **An engine keeps to the live edges.** -/
theorem live_of_travels {w : Workload} {op : WorkloadOp} {p : List WorkloadState}
    (hw : engineState w.state = true) (hop : Governs op) (h : w.Travels op p) :
    ∀ e ∈ chainFrom w.state p, e ∈ liveEdges := by
  cases op with
  | transition =>
    obtain rfl : _ = WorkloadState.validating := hop
    obtain ⟨rfl, ha⟩ := h
    exact live_of_admits hw ha (by decide)
  | settle =>
    obtain ⟨s, rfl, ht, ha⟩ := h
    rcases w.settleTarget_cases with hgate | ⟨hnone, -⟩
    · obtain rfl := Option.some.inj (hgate.symm.trans ht)
      refine live_of_admits hw ha ?_
      rw [gateTarget]
      cases w.depsReady <;> cases w.contractSatisfied <;> decide
    · exact absurd (hnone.symm.trans ht) (by simp)
  | startEpisode =>
    obtain ⟨rfl, he⟩ := h
    exact live_chain (live_of_admits hw (admits_ready_of_eligible he) (by decide)) (by decide)
  | admitDispatch =>
    obtain ⟨rfl, hs⟩ := h
    rw [hs]
    decide
  | commitCompletion =>
    obtain ⟨rfl, ha⟩ := h
    exact live_chain (live_of_admits hw ha (by decide)) (by decide)
  | finalize => exact hop.elim
  | requestCancellationWorkloadScope =>
    obtain ⟨rfl, ha⟩ := h
    exact live_of_admits hw ha (by decide)
  | completeCancellation =>
    obtain ⟨rfl, ha⟩ := h
    exact live_chain (live_of_admits hw ha (by decide)) (by decide)
  | onWorkerLost =>
    obtain ⟨rfl, hs | hs⟩ := h
    · rw [hs]
      decide
    · rw [hs] at hw
      exact absurd hw (by decide)
  | planRestart =>
    obtain ⟨rfl, ha⟩ := h
    exact live_of_admits hw ha (by decide)
  | requestSuspend =>
    obtain ⟨rfl, hactive, ha⟩ := h
    have htable : ∀ e ∈ kTransitionTable, engineState e.1 = true → isActivelyRunning e.1 = true →
        e.2 = .suspendRequested → e ∈ liveEdges := by decide
    intro e he
    obtain ⟨hmem, hfrom, hto⟩ := edge_of_admits ha e he
    exact htable e hmem (hfrom ▸ hw) (hfrom ▸ hactive) hto
  | completeSuspend =>
    obtain ⟨rfl, hs | hs⟩ := h
    · rw [hs]
      decide
    · rw [hs] at hw
      exact absurd hw (by decide)
  | requestResume =>
    obtain ⟨rfl, hs | hs⟩ := h
    · rw [hs]
      decide
    · rw [hs] at hw
      exact absurd hw (by decide)
  | requestMigration =>
    obtain ⟨rfl, ha⟩ := h
    exact live_of_admits hw ha (by decide)
  | commitMigration =>
    obtain ⟨rfl, hs | hs⟩ := h
    · rw [hs]
      decide
    · rw [hs] at hw
      exact absurd hw (by decide)
  | _ => exact h.elim

end Workload

open Workload

namespace WorkloadEngine

/-! ### The store does not matter -/

section AnyStore

variable {σ τ : Type} [StateStore σ] [StateStore τ]

/-- Engines over any two stores with the same workloads. -/
structure SameWorkloads (e : WorkloadEngine σ) (e' : WorkloadEngine τ) : Prop where
  get : ∀ id, e'.get id = e.get id
  counter : e'.episodeCounter = e.episodeCounter

theorem SameWorkloads.step {e : WorkloadEngine σ} {e' : WorkloadEngine τ}
    (h : SameWorkloads e e') (c : EngineCall) : SameWorkloads (e.step c).2 (e'.step c).2 := by
  cases c with
  | create id name intent policy =>
    cases hw : e.get id with
    | some w =>
      rw [e.step_create_some hw, e'.step_create_some ((h.get id).trans hw)]
      exact h
    | none =>
      obtain ⟨-, hcounter, hget⟩ := e.step_create_none hw name intent policy
      obtain ⟨-, hcounter', hget'⟩ := e'.step_create_none ((h.get id).trans hw) name intent policy
      exact ⟨fun id' => by rw [hget, hget', h.get], by rw [hcounter, hcounter', h.counter]⟩
  | on id r =>
    cases hw : e.get id with
    | some w =>
      obtain ⟨-, hcounter, hget⟩ := e.step_on_some hw r
      obtain ⟨-, hcounter', hget'⟩ := e'.step_on_some ((h.get id).trans hw) r
      exact ⟨fun id' => by rw [hget, hget', h.get, h.counter],
        by rw [hcounter, hcounter', h.counter]⟩
    | none =>
      rw [e.step_on_none hw, e'.step_on_none ((h.get id).trans hw)]
      exact h

/-- **The workloads of an engine do not depend on its store.** -/
theorem get_run_of_store (store : Option σ) (store' : Option τ) (calls : List EngineCall)
    (id : WorkloadId) :
    ((ofStore store').run calls).get id = ((ofStore store).run calls).get id := by
  suffices h : SameWorkloads ((ofStore store).run calls) ((ofStore store').run calls) from h.get id
  induction calls using List.reverseRecOn with
  | nil => exact ⟨fun _ => rfl, rfl⟩
  | append_singleton calls c ih =>
    rw [run_append_singleton, run_append_singleton]
    exact ih.step c

end AnyStore

/-! ### Runs -/

variable {σ : Type} [StateStore σ]

theorem live_of_run {store : Option σ} {calls : List EngineCall} {id : WorkloadId} {w : Workload}
    (h : ((ofStore store).run calls).get id = some w) : ∀ e ∈ w.acceptedMoves, e ∈ liveEdges := by
  refine (workload_induction (P := fun _ w => w.Governed ∧ ∀ e ∈ w.acceptedMoves, e ∈ liveEdges)
    ?_ ?_ ?_ calls h).2
  · intro _ name intent policy _
    exact ⟨Workload.governed_create id name intent policy, List.forall_mem_nil _⟩
  · exact fun _ _ _ _ _ hw => hw
  · intro calls r w _ hw
    have hs := w.apply_step none (r.operation ((ofStore store).run calls).episodeCounter w)
    have hop := r.governs ((ofStore store).run calls).episodeCounter w
    refine ⟨hw.1.step hop hs, ?_⟩
    rcases hs.moves_cases with heq | ⟨p, hp, heq⟩
    · rw [heq]
      exact hw.2
    · rw [heq]
      exact List.forall_mem_append.mpr ⟨hw.2, live_of_travels hw.1.state hop hp⟩

/-! ### Tours -/

/-- Restarts, suspensions and migrations are allowed. -/
def touringPolicy : Policy :=
  { restart := { kind := .alwaysWithLimit, maxRestarts := 5 }
    migration := { eligibility := .planOnly } }

/-- Requests on a workload that has been created. -/
def tour (rs : List Request) : List EngineCall :=
  .create (.fromU64 1) [] [] touringPolicy :: rs.map (.on (.fromU64 1))

/-- The way to a running workload of generation 2. -/
def toRunning : List Request :=
  [.validate, .applyGrant {}, .settle, .startEpisode (.fromU64 1) (.fromU64 1),
    .admitDispatch (.fromU64 1000) (.fromU64 1) (.fromU64 1)]

/-- Around the gates. -/
def gateTour : List Request :=
  [.addDependency {}, .settle, .validate, .settle, .setDependencyStatus 0 .satisfied (.fromU64 1),
    .settle, .validate, .settle, .addDependency {}, .settle,
    .setDependencyStatus 1 .satisfied (.fromU64 1), .applyGrant {}, .settle, .addDependency {},
    .settle, .setDependencyStatus 2 .satisfied (.fromU64 1),
    .addResourceRequirement { level := .required, kind := .acceleratorCount }, .settle,
    .applyGrant { contractGeneration := .fromU64 1, bindings := [{ kind := .acceleratorCount }] },
    .settle, .addResourceRequirement { level := .required, kind := .hostMemory }, .settle]

/-- Suspended and migrated. -/
def awayTour : List Request :=
  [.requestSuspend (.fromU64 2), .completeSuspend (.fromU64 2), .requestResume (.fromU64 2),
    .startEpisode (.fromU64 1) (.fromU64 1),
    .admitDispatch (.fromU64 1001) (.fromU64 1) (.fromU64 1), .requestMigration (.fromU64 3),
    .commitMigration (.fromU64 3) (.fromU64 1) (.fromU64 1)]

/-- Lost and restarted, and settled in between. -/
def lossTour : List Request :=
  [.onWorkerLost (.fromU64 1) (.fromU64 1) (.fromU64 4), .planRestart [] (.fromU64 4),
    .startEpisode (.fromU64 1) (.fromU64 1), .settle, .startEpisode (.fromU64 1) (.fromU64 1),
    .planRestart [] (.fromU64 6), .settle, .startEpisode (.fromU64 1) (.fromU64 1),
    .admitDispatch (.fromU64 1004) (.fromU64 1) (.fromU64 1),
    .onWorkerLost (.fromU64 1) (.fromU64 1) (.fromU64 7), .settle]

/-- From a starting workload, or from a running one. -/
def starting (rs : List Request) : List Request := toRunning.take 4 ++ rs

def running (rs : List Request) : List Request := toRunning ++ rs

/-- Runs that take all the live edges between them; `g` is the generation they run under. -/
def tours (g : WorkloadGeneration) : List (List Request) := [
  gateTour, running (awayTour.append lossTour), starting [.cancel g],
  starting [.planRestart [] g, .cancel g], running [.cancel g, .completeCancellation g],
  running [.requestSuspend g, .cancel g],
  running [.requestSuspend g, .completeSuspend g, .cancel g],
  running [.requestMigration g, .cancel g],
  running [.onWorkerLost (.fromU64 1) (.fromU64 1) g, .cancel g, .episodeCompleted (.fromU64 1000),
    .commitCompletion g],
  running [.episodeCompleted (.fromU64 1000), .commitCompletion g]]

/-- The workload after a tour. -/
def toured (rs : List Request) : Option Workload :=
  ((ofStore (none : Option (MemoryStateStore .leftToRight))).run (tour rs)).get (.fromU64 1)

/-- The moves that are made on the tours. -/
def touredMoves : List (WorkloadState × WorkloadState) :=
  (tours (.fromU64 2)).flatMap fun rs => (toured rs).elim [] (·.acceptedMoves)

theorem live_of_tours : ∀ e ∈ liveEdges, e ∈ touredMoves := by decide +kernel

/-- Stops of the tours. -/
def stops (g : WorkloadGeneration) : List (List Request) := [
  [], [.validate], gateTour.take 2, gateTour.take 6, toRunning.take 3, starting [], running [],
  running (awayTour.take 1), running (awayTour.take 2), running (awayTour.take 6),
  running (awayTour.append (lossTour.take 1)), running (awayTour.append (lossTour.take 2)),
  running [.cancel g], running [.episodeCompleted (.fromU64 1000), .commitCompletion g],
  running [.cancel g, .completeCancellation g]]

theorem stops_states : (stops (.fromU64 2)).map (fun rs => (toured rs).map (·.state)) =
    [.created, .validating, .waitingForDependencies, .waitingForResources, .ready, .starting,
      .running, .suspendRequested, .suspended, .migrationPending, .recovering, .restartPending,
      .cancellationRequested, .completed, .cancelled].map some := rfl

theorem mem_stops {s : WorkloadState} (h : engineState s = true) :
    some s ∈ (stops (.fromU64 2)).map fun rs => (toured rs).map (·.state) := by
  rw [stops_states]
  cases s <;> first
    | exact absurd h (by decide)
    | decide

/-- **What is alive of the transition table**: whatever the store, the edges that are taken in
some run of an engine are the 40 live ones, and the states in which some run leaves a workload are
the 15 engine states. -/
theorem live_edges_iff (store : Option σ) :
    (∀ e, (∃ calls id w, ((ofStore store).run calls).get id = some w ∧ e ∈ w.acceptedMoves) ↔
      e ∈ liveEdges) ∧
    ∀ s, (∃ calls id w, ((ofStore store).run calls).get id = some w ∧ w.state = s) ↔
      engineState s = true := by
  have htoured {rs : List Request} {w : Workload} (h : toured rs = some w) :
      ((ofStore store).run (tour rs)).get (.fromU64 1) = some w :=
    (get_run_of_store none store (tour rs) (.fromU64 1)).trans h
  refine ⟨fun e => ⟨?_, fun he => ?_⟩, fun s => ⟨?_, fun hs => ?_⟩⟩
  · rintro ⟨calls, id, w, h, he⟩
    exact live_of_run h e he
  · obtain ⟨rs, -, he⟩ := List.mem_flatMap.mp (live_of_tours e he)
    cases hw : toured rs with
    | none =>
      rw [hw] at he
      exact absurd he List.not_mem_nil
    | some w =>
      rw [hw] at he
      exact ⟨tour rs, .fromU64 1, w, htoured hw, he⟩
  · rintro ⟨calls, id, w, h, rfl⟩
    exact (governed_of_run h).state
  · obtain ⟨rs, -, hrs⟩ := List.mem_map.mp (mem_stops hs)
    obtain ⟨w, hw, rfl⟩ := Option.map_eq_some_iff.mp hrs
    exact ⟨tour rs, .fromU64 1, w, htoured hw, rfl⟩

end WorkloadEngine

end WorkloadFabric
