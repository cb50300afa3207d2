/-
Workloads under other names for their episodes.

A workload is relabelled by writing other ids for its episodes, and another counter for
the one its migration targets draw from.  No operation looks at an id except to compare
it with another, and only an accepted `commitMigration` reads the counter, so

* **`apply_relabel`** — an operation on a relabelled workload does what it does on the
  original, relabelled.

With ids kept this says that nothing but a hand-over reads the counter; with the counter
kept, that the permutations of the ids act on workloads (`MulAction`) in a way that the
operations respect.
-/
import WorkloadFabric.Lifecycle
import Mathlib.Algebra.Group.Action.End

namespace WorkloadFabric

open FirstMatch

/-! ### Relabelling -/

/-- The episode under another id. -/
def Episode.relabel (ρ : Equiv.Perm ExecutionEpisodeId) (e : Episode) : Episode :=
  { e with id := ρ e.id }

/-- Other ids are equal where the ids are. -/
theorem Episode.relabel_id_beq (ρ : Equiv.Perm ExecutionEpisodeId) (id : ExecutionEpisodeId)
    (e : Episode) : ((e.relabel ρ).id == ρ id) = (e.id == id) := by
  rw [Bool.eq_iff_iff, beq_iff_eq, beq_iff_eq]
  exact ρ.injective.eq_iff

/-- The workload with other ids and another migration episode counter. -/
def Workload.relabel (ρ : Equiv.Perm ExecutionEpisodeId) (γ : UInt64 → UInt64) (w : Workload) :
    Workload :=
  { w with
    lastSourceEpisode := ρ w.lastSourceEpisode
    episodeCounterForMigration := γ w.episodeCounterForMigration
    episodes := w.episodes.map (Episode.relabel ρ) }

def Effect.relabel (ρ : Equiv.Perm ExecutionEpisodeId) (γ : UInt64 → UInt64) (e : Effect) :
    Effect :=
  { e with workload := e.workload.relabel ρ γ }

/-- The operation with other ids for the episodes it names. -/
def WorkloadOp.relabel (ρ : Equiv.Perm ExecutionEpisodeId) : WorkloadOp → WorkloadOp
  | .startEpisode id owner ownerGen adv => .startEpisode (ρ id) owner ownerGen adv
  | .admitDispatch episode worker boot => .admitDispatch (ρ episode) worker boot
  | .reportProgress episode gen delta durable => .reportProgress (ρ episode) gen delta durable
  | .markEpisodeCompleted id => .markEpisodeCompleted (ρ id)
  | .markEpisodeFailed id => .markEpisodeFailed (ρ id)
  | op => op

/-- A hand-over under counter `c` draws an id that is renamed into the one which the other
counter draws. -/
def Carries (ρ : Equiv.Perm ExecutionEpisodeId) (γ : UInt64 → UInt64) (c : UInt64) : Prop :=
  ρ (.fromU64 c) = .fromU64 (γ c) ∧ γ (c + 1) = γ c + 1

namespace Effect

variable {ρ : Equiv.Perm ExecutionEpisodeId} {γ : UInt64 → UInt64}

/-- A branch taken without looking at ids or counter. -/
theorem ite_relabel {p : Prop} [Decidable p] {e e' f f' : Effect} (he : e' = e.relabel ρ γ)
    (hf : f' = f.relabel ρ γ) : (if p then e' else f') = (if p then e else f).relabel ρ γ := by
  rw [he, hf, apply_ite (relabel ρ γ)]

theorem andThen_relabel {e e' : Effect} {k k' : Workload → Option Explanation → Effect}
    (he : e' = e.relabel ρ γ)
    (hk : k' (e.workload.relabel ρ γ) e.explain = (k e.workload e.explain).relabel ρ γ) :
    e'.andThen k' = (e.andThen k).relabel ρ γ := by
  rw [he]
  exact ite_relabel hk rfl

end Effect

namespace Workload

open Effect

section Relabel

variable (w : Workload) (ρ : Equiv.Perm ExecutionEpisodeId) (γ : UInt64 → UInt64)

/-! ### Searching and rewriting -/

theorem findEpisode_relabel (id : ExecutionEpisodeId) :
    (w.relabel ρ γ).findEpisode (ρ id) = (w.findEpisode id).map (Episode.relabel ρ) :=
  find?_map (g := Episode.relabel ρ) (Episode.relabel_id_beq ρ id) w.episodes

theorem modifyEpisode_relabel (id : ExecutionEpisodeId) {f : Episode → Episode}
    (hf : ∀ e, f (e.relabel ρ) = (f e).relabel ρ) :
    (w.relabel ρ γ).modifyEpisode (ρ id) f = (w.modifyEpisode id f).relabel ρ γ := by
  have hepisodes := modifyFirst_map (p := fun e : Episode => e.id == ρ id) (q := (·.id == id))
    (Episode.relabel_id_beq ρ id) hf w.episodes
  exact congrArg (fun es => { w.relabel ρ γ with episodes := es }) hepisodes

theorem currentEpisode_relabel :
    (w.relabel ρ γ).currentEpisode = w.currentEpisode.map (Episode.relabel ρ) := by
  have hfind : (w.relabel ρ γ).episodes.find? (·.authoritative) =
      (w.episodes.find? (·.authoritative)).map (Episode.relabel ρ) :=
    find?_map (fun _ => rfl) w.episodes
  have hlast : (w.relabel ρ γ).episodes.getLast? =
      w.episodes.getLast?.map (Episode.relabel ρ) := List.getLast?_map
  rw [currentEpisode, hfind, hlast, currentEpisode]
  cases w.episodes.find? (·.authoritative) <;> rfl

theorem modifyCurrent_relabel {f : Episode → Episode}
    (hf : ∀ e, f (e.relabel ρ) = (f e).relabel ρ) :
    (w.relabel ρ γ).modifyCurrent f = (w.modifyCurrent f).relabel ρ γ := by
  have hany : (w.relabel ρ γ).episodes.any (·.authoritative) = w.episodes.any (·.authoritative) :=
    List.any_map
  have hfirst := modifyFirst_map (p := Episode.authoritative) (g := Episode.relabel ρ)
    (fun _ => rfl) hf w.episodes
  have hlast := modifyLast_map hf w.episodes
  rw [modifyCurrent, hany, modifyCurrent]
  refine congrArg (fun es => { w.relabel ρ γ with episodes := es }) ?_
  rw [apply_ite (List.map (Episode.relabel ρ))]
  exact ite_congr rfl (fun _ => hfirst) fun _ => hlast

theorem completionCriterion_relabel :
    (w.relabel ρ γ).completionCriterion = w.completionCriterion := by
  have hcurrent : (w.relabel ρ γ).currentEpisode.any (·.completed) =
      w.currentEpisode.any (·.completed) := by
    rw [currentEpisode_relabel]
    cases w.currentEpisode <;> rfl
  have hpolicy : (w.relabel ρ γ).policy = w.policy := rfl
  have hprogress : (w.relabel ρ γ).progress = w.progress := rfl
  rw [completionCriterion, completionCriterion, hcurrent, hpolicy, hprogress]

theorem claimCompletion_relabel :
    (w.relabel ρ γ).claimCompletion = w.claimCompletion.relabel ρ γ :=
  congrArg (fun w : Workload => { w with
    cancellationRequested := false
    cancellationWasRejected := true
    completionGen := next w.completionGen })
    (w.modifyCurrent_relabel ρ γ (f := fun e => { e with completed := true }) fun _ => rfl)

theorem takeRestartSlot_relabel (reason : Text) :
    (w.relabel ρ γ).takeRestartSlot reason = (w.takeRestartSlot reason).relabel ρ γ := by
  rw [takeRestartSlot, currentEpisode_relabel, takeRestartSlot]
  cases w.currentEpisode <;> rfl

theorem revokeAuthority_relabel (es : List Episode) :
    revokeAuthority (es.map (Episode.relabel ρ)) =
      (revokeAuthority es).map (Episode.relabel ρ) := by
  rw [revokeAuthority, revokeAuthority, List.map_map, List.map_map]
  rfl

theorem beginEpisode_relabel (id : ExecutionEpisodeId) (owner : OwnerId)
    (ownerGen : OwnerGeneration) (adv : Bool) :
    (w.relabel ρ γ).beginEpisode (ρ id) owner ownerGen adv =
      (w.beginEpisode id owner ownerGen adv).relabel ρ γ := by
  have hepisodes : revokeAuthority (w.relabel ρ γ).episodes ++
        [(w.relabel ρ γ).admittedEpisode (ρ id) owner ownerGen] =
      (revokeAuthority w.episodes ++ [w.admittedEpisode id owner ownerGen]).map
        (Episode.relabel ρ) := by
    rw [List.map_append, ← revokeAuthority_relabel]
    rfl
  rw [beginEpisode, hepisodes]
  rfl

/-- A hand-over draws the id that the other counter draws under the other names. -/
theorem handOver_relabel (worker : WorkerId) (boot : WorkerBootId)
    (h : Carries ρ γ w.episodeCounterForMigration) :
    (w.relabel ρ γ).handOver worker boot = (w.handOver worker boot).relabel ρ γ := by
  obtain ⟨hid, hcounter⟩ := h
  have htarget : (w.relabel ρ γ).targetEpisode worker boot =
      (w.targetEpisode worker boot).relabel ρ := by
    rw [targetEpisode, Episode.relabel, targetEpisode, hid]
    rfl
  have hepisodes : revokeAuthority (w.relabel ρ γ).episodes ++
        [(w.relabel ρ γ).targetEpisode worker boot] =
      (revokeAuthority w.episodes ++ [w.targetEpisode worker boot]).map (Episode.relabel ρ) := by
    rw [List.map_append, ← revokeAuthority_relabel, htarget]
    rfl
  exact congrArg₂ (fun es c => { w.relabel ρ γ with
    episodes := es
    episodeCounterForMigration := c
    generation := next w.generation }) hepisodes hcounter.symm

/-! ### The operations -/

variable (ex : Option Explanation)

theorem guardedTransition_relabel (s : WorkloadState) (g : WorkloadGeneration) (reason : Text) :
    (w.relabel ρ γ).guardedTransition s g reason ex =
      (w.guardedTransition s g reason ex).relabel ρ γ := by
  refine ite_relabel rfl <| ite_relabel rfl <| ite_relabel rfl <| ite_relabel rfl ?_
  exact ite_relabel rfl rfl

theorem settle_relabel (g : WorkloadGeneration) :
    (w.relabel ρ γ).settle g ex = (w.settle g ex).relabel ρ γ := by
  have htarget : (w.relabel ρ γ).settleTarget = w.settleTarget := rfl
  refine ite_relabel rfl ?_
  rw [htarget]
  cases w.settleTarget with
  | none => rfl
  | some s => exact ite_relabel rfl (w.guardedTransition_relabel ρ γ ex s g _)

theorem startEpisode_relabel (id : ExecutionEpisodeId) (owner : OwnerId)
    (ownerGen : OwnerGeneration) (adv : Bool) :
    (w.relabel ρ γ).startEpisode (ρ id) owner ownerGen adv ex =
      (w.startEpisode id owner ownerGen adv ex).relabel ρ γ := by
  refine ite_relabel rfl <| ite_relabel rfl <| ite_relabel rfl ?_
  refine andThen_relabel (ite_relabel (guardedTransition_relabel ..) rfl) ?_
  refine andThen_relabel (guardedTransition_relabel ..) ?_
  rw [beginEpisode_relabel]
  rfl

theorem admitDispatch_relabel (episode : ExecutionEpisodeId) (worker : WorkerId)
    (boot : WorkerBootId) :
    (w.relabel ρ γ).admitDispatch (ρ episode) worker boot ex =
      (w.admitDispatch episode worker boot ex).relabel ρ γ := by
  rw [admitDispatch, admitDispatch, findEpisode_relabel,
    modifyEpisode_relabel (f := bindWorker worker boot) w ρ γ episode fun _ => rfl]
  cases w.findEpisode episode with
  | none => rfl
  | some ep =>
    refine ite_relabel rfl <| ite_relabel ?_ rfl
    exact guardedTransition_relabel (w.modifyEpisode episode (bindWorker worker boot)) ρ γ ex ..

theorem reportProgress_relabel (episode : ExecutionEpisodeId)
    (gen : ExecutionEpisodeGeneration) (delta : UInt64) (durable : Bool) :
    (w.relabel ρ γ).reportProgress (ρ episode) gen delta durable ex =
      (w.reportProgress episode gen delta durable ex).relabel ρ γ := by
  have hprogress : (w.relabel ρ γ).progress = w.progress := rfl
  rw [reportProgress, reportProgress, findEpisode_relabel, hprogress]
  cases w.findEpisode episode with
  | none => rfl
  | some ep =>
    refine ite_relabel rfl <| ite_relabel rfl <| ite_relabel rfl <| ite_relabel rfl <|
      ite_relabel rfl ?_
    cases w.progress.advance delta durable with
    | none => rfl
    | some progress =>
      have hcredit := modifyEpisode_relabel (f := creditEpisode delta durable)
        { w with progress := progress } ρ γ episode fun _ => rfl
      exact congrArg (Effect.mk .allow · ex) hcredit

theorem commitCompletion_relabel (g : WorkloadGeneration) :
    (w.relabel ρ γ).commitCompletion g ex = (w.commitCompletion g ex).relabel ρ γ := by
  rw [commitCompletion, commitCompletion, completionCriterion_relabel, claimCompletion_relabel]
  refine ite_relabel rfl <| ite_relabel rfl <| ite_relabel rfl <| ite_relabel rfl ?_
  exact andThen_relabel (guardedTransition_relabel w.claimCompletion ρ γ ex ..)
    (guardedTransition_relabel ..)

theorem finalize_relabel (g : WorkloadGeneration) :
    (w.relabel ρ γ).finalize g ex = (w.finalize g ex).relabel ρ γ := by
  refine ite_relabel rfl <| ite_relabel rfl <| ite_relabel rfl ?_
  exact andThen_relabel (guardedTransition_relabel w.countCompletion ρ γ ex ..)
    (guardedTransition_relabel ..)

theorem requestCancellation_relabel (g : WorkloadGeneration) :
    (w.relabel ρ γ).requestCancellationWorkloadScope g ex =
      (w.requestCancellationWorkloadScope g ex).relabel ρ γ := by
  refine ite_relabel rfl <| ite_relabel rfl <| ite_relabel rfl <| ite_relabel rfl ?_
  exact guardedTransition_relabel w.flagCancellation ρ γ ex ..

theorem completeCancellation_relabel (g : WorkloadGeneration) :
    (w.relabel ρ γ).completeCancellation g ex = (w.completeCancellation g ex).relabel ρ γ := by
  refine ite_relabel rfl <| ite_relabel rfl <| ite_relabel rfl ?_
  refine andThen_relabel (guardedTransition_relabel w.flagCancelledFinal ρ γ ex ..) ?_
  exact andThen_relabel (guardedTransition_relabel ..) (guardedTransition_relabel ..)

theorem onWorkerLost_relabel (worker : WorkerId) (boot : WorkerBootId)
    (g : WorkloadGeneration) :
    (w.relabel ρ γ).onWorkerLost worker boot g ex =
      (w.onWorkerLost worker boot g ex).relabel ρ γ := by
  rw [onWorkerLost, onWorkerLost, currentEpisode_relabel,
    modifyCurrent_relabel (f := loseWorker) w ρ γ fun _ => rfl]
  refine ite_relabel rfl ?_
  cases w.currentEpisode with
  | none => rfl
  | some ep =>
    refine ite_relabel rfl <| ite_relabel ?_ rfl
    exact guardedTransition_relabel (w.modifyCurrent loseWorker) ρ γ ex ..

theorem markEpisode_relabel (id : ExecutionEpisodeId) {f : Episode → Episode}
    (hf : ∀ e, f (e.relabel ρ) = (f e).relabel ρ) :
    (w.relabel ρ γ).markEpisode (ρ id) f ex = (w.markEpisode id f ex).relabel ρ γ := by
  rw [markEpisode, markEpisode, findEpisode_relabel, modifyEpisode_relabel w ρ γ id hf]
  cases w.findEpisode id <;> rfl

theorem planRestart_relabel (g : WorkloadGeneration) (reason : Text) :
    (w.relabel ρ γ).planRestart g reason ex = (w.planRestart g reason ex).relabel ρ γ := by
  rw [planRestart, planRestart, takeRestartSlot_relabel]
  refine ite_relabel rfl <| ite_relabel rfl <| ite_relabel rfl <| ite_relabel rfl ?_
  exact guardedTransition_relabel (w.takeRestartSlot reason) ρ γ ex ..

theorem requestSuspend_relabel (g : WorkloadGeneration) :
    (w.relabel ρ γ).requestSuspend g ex = (w.requestSuspend g ex).relabel ρ γ := by
  refine ite_relabel rfl <| ite_relabel rfl <| ite_relabel rfl <| ite_relabel rfl ?_
  exact guardedTransition_relabel w ρ γ ex ..

theorem completeSuspend_relabel (g : WorkloadGeneration) :
    (w.relabel ρ γ).completeSuspend g ex = (w.completeSuspend g ex).relabel ρ γ := by
  rw [completeSuspend, completeSuspend,
    modifyCurrent_relabel (f := suspendEpisode) w ρ γ fun _ => rfl]
  refine ite_relabel rfl <| ite_relabel rfl <| ite_relabel rfl <| ite_relabel ?_ ?_
  · exact andThen_relabel (guardedTransition_relabel (w.modifyCurrent suspendEpisode) ρ γ ex ..)
      (guardedTransition_relabel ..)
  · exact guardedTransition_relabel (w.modifyCurrent suspendEpisode) ρ γ ex ..

theorem requestResume_relabel (g : WorkloadGeneration) :
    (w.relabel ρ γ).requestResume g ex = (w.requestResume g ex).relabel ρ γ := by
  refine ite_relabel rfl <| ite_relabel rfl ?_
  exact guardedTransition_relabel w ρ γ ex ..

theorem requestMigration_relabel (g : WorkloadGeneration) :
    (w.relabel ρ γ).requestMigration g ex = (w.requestMigration g ex).relabel ρ γ := by
  refine ite_relabel rfl <| ite_relabel rfl <| ite_relabel rfl <| ite_relabel rfl <|
    ite_relabel rfl ?_
  exact guardedTransition_relabel w.countMigration ρ γ ex ..

theorem guardedTransition_counter (s : WorkloadState) (g : WorkloadGeneration) (reason : Text) :
    (w.guardedTransition s g reason ex).workload.episodeCounterForMigration =
      w.episodeCounterForMigration := by
  rcases w.guardedTransition_cases s g reason ex with ⟨-, -, hw⟩ | ⟨-, -, hw⟩
  · rw [hw, moved_episodeCounterForMigration]
  · rw [hw]
    rfl

/-- A refused hand-over does not draw an id. -/
theorem commitMigration_relabel {g : WorkloadGeneration} {worker : WorkerId}
    {boot : WorkerBootId}
    (h : w.Granted (.commitMigration g worker boot) → Carries ρ γ w.episodeCounterForMigration) :
    (w.relabel ρ γ).commitMigration g worker boot ex =
      (w.commitMigration g worker boot ex).relabel ρ γ := by
  rw [commitMigration, commitMigration]
  by_cases hg : g = w.generation
  · by_cases hs : w.state = .migrationPending ∨ w.state = .migrating
    · refine ite_relabel rfl <| ite_relabel rfl ?_
      refine andThen_relabel (ite_relabel (guardedTransition_relabel ..) rfl) ?_
      -- the counter is still the old one when the target episode is made
      rw [handOver_relabel]
      · exact guardedTransition_relabel ..
      · split
        · rw [guardedTransition_counter]
          exact h ⟨hg, hs⟩
        · exact h ⟨hg, hs⟩
    · have hs : w.state ≠ .migrationPending ∧ w.state ≠ .migrating := by tauto
      refine ite_relabel rfl ?_
      rw [if_pos hs, if_pos (show (w.relabel ρ γ).state ≠ _ ∧ (w.relabel ρ γ).state ≠ _ from hs)]
      rfl
  · rw [if_pos hg, if_pos (show g ≠ (w.relabel ρ γ).generation from hg)]
    rfl

end Relabel

/-- The operation is a hand-over to a migration target, which will be accepted:
it presents the current generation of a migrating workload. -/
def Migrates (w : Workload) : WorkloadOp → Prop
  | .commitMigration g _ _ =>
    g = w.generation ∧ (w.state = .migrationPending ∨ w.state = .migrating)
  | _ => False

/-- **An operation on a relabelled workload does what it does on the original.** -/
theorem apply_relabel {w : Workload} {op : WorkloadOp} {ρ : Equiv.Perm ExecutionEpisodeId}
    {γ : UInt64 → UInt64} (h : w.Migrates op → Carries ρ γ w.episodeCounterForMigration)
    (ex : Option Explanation) :
    (w.relabel ρ γ).apply (op.relabel ρ) ex = (w.apply op ex).relabel ρ γ := by
  cases op with
  | transition s g reason => exact w.guardedTransition_relabel ρ γ ex s g reason
  | settle g => exact w.settle_relabel ρ γ ex g
  | startEpisode id owner ownerGen adv => exact w.startEpisode_relabel ρ γ ex id owner ownerGen adv
  | admitDispatch episode worker boot => exact w.admitDispatch_relabel ρ γ ex episode worker boot
  | reportProgress episode gen delta durable =>
    exact w.reportProgress_relabel ρ γ ex episode gen delta durable
  | commitCompletion g => exact w.commitCompletion_relabel ρ γ ex g
  | finalize g => exact w.finalize_relabel ρ γ ex g
  | requestCancellationWorkloadScope g => exact w.requestCancellation_relabel ρ γ ex g
  | completeCancellation g => exact w.completeCancellation_relabel ρ γ ex g
  | onWorkerLost worker boot g => exact w.onWorkerLost_relabel ρ γ ex worker boot g
  | markEpisodeCompleted id => exact w.markEpisode_relabel ρ γ ex id fun _ => rfl
  | markEpisodeFailed id => exact w.markEpisode_relabel ρ γ ex id fun _ => rfl
  | planRestart g reason => exact w.planRestart_relabel ρ γ ex g reason
  | requestSuspend g => exact w.requestSuspend_relabel ρ γ ex g
  | completeSuspend g => exact w.completeSuspend_relabel ρ γ ex g
  | requestResume g => exact w.requestResume_relabel ρ γ ex g
  | requestMigration g => exact w.requestMigration_relabel ρ γ ex g
  | commitMigration g worker boot => exact w.commitMigration_relabel ρ γ ex h
  | _ => rfl

/-! ### The permutations of the ids act -/

theorem relabel_one (w : Workload) (γ : UInt64 → UInt64) :
    w.relabel 1 γ = { w with episodeCounterForMigration := γ w.episodeCounterForMigration } := by
  have hepisodes : w.episodes.map (Episode.relabel 1) = w.episodes := List.map_id _
  rw [relabel, hepisodes]
  rfl

instance : MulAction (Equiv.Perm ExecutionEpisodeId) Workload where
  smul ρ w := w.relabel ρ fun c => c
  one_smul w := w.relabel_one fun c => c
  mul_smul ρ ρ' w := by
    have hepisodes : w.episodes.map (Episode.relabel (ρ * ρ')) =
        (w.episodes.map (Episode.relabel ρ')).map (Episode.relabel ρ) := by
      rw [List.map_map]
      rfl
    exact congrArg (fun es => { w with
      episodes := es
      lastSourceEpisode := ρ (ρ' w.lastSourceEpisode) }) hepisodes

theorem smul_eq_relabel (ρ : Equiv.Perm ExecutionEpisodeId) (w : Workload) :
    ρ • w = w.relabel ρ fun c => c := rfl

/-- **The operations respect the renamings** that keep the next migration target's id. -/
theorem apply_smul {w : Workload} {op : WorkloadOp} {ρ : Equiv.Perm ExecutionEpisodeId}
    (h : w.Migrates op →
      ρ (.fromU64 w.episodeCounterForMigration) = .fromU64 w.episodeCounterForMigration)
    (ex : Option Explanation) :
    ((ρ • w).apply (op.relabel ρ) ex).outcome = (w.apply op ex).outcome ∧
      ((ρ • w).apply (op.relabel ρ) ex).workload = ρ • (w.apply op ex).workload := by
  rw [smul_eq_relabel, apply_relabel fun hm => ⟨h hm, rfl⟩]
  exact ⟨rfl, rfl⟩

end Workload

end WorkloadFabric
