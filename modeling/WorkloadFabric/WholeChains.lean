/-
Composite operations, seen from outside.

Five operations of an engine, and `finalize`, run through two or three transitions, each
guarded on its own.  Once the first link of such a chain is taken no later one can be
refused: the links in between are the only edges the operation can be on, and nothing
else gates them.

* **`Step.chain`** — a composite step takes its whole chain, as the audit trail has it,
  or no link of it;
* **`chains_taken_whole`** — so no workload of an engine is ever found SUSPENDING,
  MIGRATING, CANCELLING or COMPLETING.
-/
import WorkloadFabric.AuditTrail
import WorkloadFabric.Moves

namespace WorkloadFabric

/-- The states a composite operation passes through, and the one it is for. -/
def WorkloadOp.links : WorkloadOp → Option (List WorkloadState × WorkloadState)
  | .startEpisode _ _ _ _ => some ([.ready], .starting)
  | .completeSuspend _ => some ([.suspending], .suspended)
  | .commitMigration _ _ _ => some ([.migrating], .running)
  | .completeCancellation _ => some ([.cancellationRequested, .cancelling], .cancelled)
  | .commitCompletion _ => some ([.completing], .completed)
  | .finalize _ => some ([.completing], .completed)
  | _ => none

/-- The moves from `s` along these states; a state that is reached already is no move. -/
def chainFrom (s : WorkloadState) : List WorkloadState → List (WorkloadState × WorkloadState)
  | [] => []
  | t :: ts => if s = t then chainFrom t ts else (s, t) :: chainFrom t ts

theorem chainFrom_cons (s t : WorkloadState) (ts : List WorkloadState) :
    chainFrom s (t :: ts) = chainFrom s [t] ++ chainFrom t ts := by
  rw [chainFrom, chainFrom]
  split <;> rfl

namespace Workload

section Moves

variable (w : Workload)

/-- A transition is one link, or no move where the state was reached already. -/
theorem acceptedMoves_moved (s : WorkloadState) (reason : Text) :
    (w.moved s reason).acceptedMoves = w.acceptedMoves ++ chainFrom w.state [s] := by
  rw [moved, chainFrom, chainFrom]
  by_cases h : w.state = s
  · rw [if_pos h, if_pos h, List.append_nil]
  · rw [if_neg h, if_neg h, acceptedMoves, record, List.filter_append, List.map_append]
    rfl

/-- A refusal is on record, but not as a move. -/
theorem acceptedMoves_record (s t : WorkloadState) (reason : Text) {o : Outcome}
    (ho : o ≠ .allow) : (w.record s t reason o).acceptedMoves = w.acceptedMoves := by
  have hf : isAllow o = false := Bool.eq_false_iff.mpr fun h => ho ((isAllow_iff o).mp h)
  rw [acceptedMoves, record, List.filter_append, List.map_append,
    List.filter_cons_of_neg (by simp [hf])]
  simp [acceptedMoves]

theorem acceptedMoves_moved_moved (s t : WorkloadState) (reason reason' : Text) :
    ((w.moved s reason).moved t reason').acceptedMoves =
      w.acceptedMoves ++ chainFrom w.state [s, t] := by
  rw [acceptedMoves_moved, acceptedMoves_moved, moved_state, List.append_assoc, ← chainFrom_cons]

end Moves

/-- The step takes the whole chain of its operation. -/
structure TakesChain (w w' : Workload) (mid : List WorkloadState) (last : WorkloadState) :
    Prop where
  moves : w'.acceptedMoves = w.acceptedMoves ++ chainFrom w.state (mid ++ [last])
  state : w'.state = last

/-- The step takes no link. -/
structure TakesNoLink (w w' : Workload) : Prop where
  moves : w'.acceptedMoves = w.acceptedMoves
  state : w'.state = w.state

/-- **A composite step takes its whole chain or no link of it**; where it is accepted, it
ends in the state it is for. -/
theorem Step.chain {w w' : Workload} {op : WorkloadOp} {o : Outcome} (h : Step w op o w')
    {mid : List WorkloadState} {last : WorkloadState} (hl : op.links = some (mid, last)) :
    (w.TakesChain w' mid last ∨ w.TakesNoLink w') ∧ (o = .allow → w'.state = last) := by
  cases h with
  | rejected ho => exact ⟨.inr ⟨rfl, rfl⟩, fun h => absurd h ho⟩
  | start =>
    obtain ⟨rfl, rfl⟩ := Prod.mk.inj (Option.some.inj hl)
    exact ⟨.inl ⟨w.acceptedMoves_moved_moved _ _ _ _, moved_state ..⟩, fun _ => moved_state ..⟩
  | complete =>
    obtain ⟨rfl, rfl⟩ := Prod.mk.inj (Option.some.inj hl)
    exact ⟨.inl ⟨w.claimCompletion.acceptedMoves_moved_moved _ _ _ _, moved_state ..⟩,
      fun _ => moved_state ..⟩
  | completeRefused _ _ _ ho =>
    exact ⟨.inr ⟨w.claimCompletion.acceptedMoves_record _ _ _ ho, rfl⟩, fun h => absurd h ho⟩
  | finalize =>
    obtain ⟨rfl, rfl⟩ := Prod.mk.inj (Option.some.inj hl)
    exact ⟨.inl ⟨w.countCompletion.acceptedMoves_moved_moved _ _ _ _, moved_state ..⟩,
      fun _ => moved_state ..⟩
  | finalizeRefused _ _ _ _ ho =>
    exact ⟨.inr ⟨w.countCompletion.acceptedMoves_record _ _ _ ho, rfl⟩, fun h => absurd h ho⟩
  | cancelledAgain _ hs =>
    obtain ⟨rfl, rfl⟩ := Prod.mk.inj (Option.some.inj hl)
    exact ⟨.inr ⟨rfl, rfl⟩, fun _ => hs⟩
  | cancelled =>
    obtain ⟨rfl, rfl⟩ := Prod.mk.inj (Option.some.inj hl)
    refine ⟨.inl ⟨?_, moved_state ..⟩, fun _ => moved_state ..⟩
    rw [acceptedMoves_moved_moved, acceptedMoves_moved, moved_state, List.append_assoc,
      ← chainFrom_cons]
    rfl
  | cancelledRefused _ _ _ ho =>
    exact ⟨.inr ⟨w.flagCancelledFinal.acceptedMoves_record _ _ _ ho, rfl⟩, fun h => absurd h ho⟩
  | suspendedAgain _ hs =>
    obtain ⟨rfl, rfl⟩ := Prod.mk.inj (Option.some.inj hl)
    exact ⟨.inr ⟨rfl, rfl⟩, fun _ => hs⟩
  | suspended =>
    obtain ⟨rfl, rfl⟩ := Prod.mk.inj (Option.some.inj hl)
    exact ⟨.inl ⟨(w.modifyCurrent suspendEpisode).acceptedMoves_moved_moved _ _ _ _,
      moved_state ..⟩, fun _ => moved_state ..⟩
  | @commitMigration g worker boot =>
    obtain ⟨rfl, rfl⟩ := Prod.mk.inj (Option.some.inj hl)
    -- the generation moves on between the two links
    refine ⟨.inl ⟨?_, moved_state ..⟩, fun _ => moved_state ..⟩
    set w₁ := w.moved .migrating (text "migrating") with hw₁
    have hstate : (w₁.handOver worker boot).state = .migrating := moved_state ..
    have hmoves : (w₁.handOver worker boot).acceptedMoves = w₁.acceptedMoves := rfl
    rw [migrated, acceptedMoves_moved, hstate, hmoves, hw₁, acceptedMoves_moved,
      List.append_assoc, ← chainFrom_cons]
    rfl
  | _ => exact absurd hl (by simp [WorkloadOp.links])

/-- The states in the middle of a chain. -/
def midChain : List WorkloadState := [.suspending, .migrating, .cancelling, .completing]

theorem Governed.not_midChain {w : Workload} (h : w.Governed) : w.state ∉ midChain := by
  intro hs
  have hstate := h.state
  rw [midChain, List.mem_cons, List.mem_cons, List.mem_cons, List.mem_singleton] at hs
  rcases hs with hs | hs | hs | hs <;> exact absurd hstate (by rw [hs]; decide)

end Workload

namespace WorkloadEngine

variable {σ : Type} [StateStore σ]

/-- **Composite operations are never observed half-way.**  After every run of an engine no
workload is in the middle of a chain, and the next composite operation on it takes its
whole chain or leaves the state where it was. -/
theorem chains_taken_whole {store : Option σ} {calls : List EngineCall} {id : WorkloadId}
    {w : Workload} (h : ((ofStore store).run calls).get id = some w) :
    w.state ∉ Workload.midChain ∧
    ∀ (r : Request) (mid : List WorkloadState) (last : WorkloadState),
      (r.operation ((ofStore store).run calls).episodeCounter w).links = some (mid, last) →
      ∃ w', (((ofStore store).run calls).step (.on id r)).2.get id = some w' ∧
        (w.TakesChain w' mid last ∨ w.TakesNoLink w') ∧
        ((((ofStore store).run calls).step (.on id r)).1.outcome = .allow → w'.state = last) := by
  refine ⟨(governed_of_run h).not_midChain, fun r mid last hl => ?_⟩
  obtain ⟨w', hw', hs⟩ := step_on_step _ h r
  exact ⟨w', hw', hs.chain hl⟩

/-- A running workload that was asked to suspend. -/
def launchAndSuspend : List EngineCall :=
  launch (.fromU64 1) {} ++
    [.on (.fromU64 1) (.admitDispatch (.fromU64 1000) (.fromU64 1) (.fromU64 1)),
      .on (.fromU64 1) (.requestSuspend (.fromU64 2))]

/-- It is suspended in one go. -/
theorem chains_taken_whole_suspended :
    ∃ w', (((ofStore (none : Option (MemoryStateStore .leftToRight))).run launchAndSuspend).step
        (.on (.fromU64 1) (.completeSuspend (.fromU64 2)))).2.get (.fromU64 1) = some w' ∧
      w'.state = .suspended := by
  obtain ⟨w, h⟩ : ∃ w, ((ofStore (none : Option (MemoryStateStore .leftToRight))).run
      launchAndSuspend).get (.fromU64 1) = some w := ⟨_, rfl⟩
  obtain ⟨w', hw', -, hlast⟩ :=
    (chains_taken_whole h).2 (.completeSuspend (.fromU64 2)) [.suspending] .suspended rfl
  exact ⟨w', hw', hlast (by decide)⟩

end WorkloadEngine

end WorkloadFabric
