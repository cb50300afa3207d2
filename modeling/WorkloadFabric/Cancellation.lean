/-
Cancellation and completion: which of them wins, and when a cancellation works.

* **`cancel_excludes_complete`** — in an engine at most one of them is ever committed:
  the flags agree with the terminal state, an accepted cancellation leaves only the
  two of them to come, and what was flagged as finally cancelled neither completes nor
  starts again;
* **`cancel_first_wins_iff`** — under CANCEL_FIRST an accepted cancellation is final
  exactly as long as nobody calls `finalize`, which does not ask for the race;
* **`cancellation_works_iff`** — a cancellation goes through exactly when the workload
  does not await its start; there it is refused with the final flag up.
-/
import WorkloadFabric.Moves

namespace WorkloadFabric

namespace Workload

/-! ### Out of a cancellation -/

/-- What is left to a workload whose cancellation was accepted. -/
def cancelledOrDone (s : WorkloadState) : Prop :=
  s = .cancellationRequested ∨ s = .cancelled ∨ s = .completed

/-- The edges out of a cancellation. -/
theorem target_of_cancelling {w : Workload} {s : WorkloadState} (h : w.Admits s)
    (hw : isCancelling w.state = true) :
    s ∈ [WorkloadState.cancellationRequested, .cancelling, .cancelled, .completing,
      .completed] := by
  have htable : ∀ e ∈ kTransitionTable, isCancelling e.1 = true →
      e.2 ∈ [WorkloadState.cancelling, .cancelled, .completing, .completed] := by decide
  rcases h with rfl | ⟨-, he, -⟩
  · rcases (isCancelling_iff _).mp hw with hs | hs <;> rw [hs] <;> decide
  · exact List.mem_cons_of_mem _ (htable _ (mem_of_canTransition he) hw)

/-- **What an operation can make of a workload under cancellation.** -/
theorem moves_of_cancelling {w : Workload} {op : WorkloadOp} {s : WorkloadState}
    (hw : isCancelling w.state = true) (h : w.Moves op s)
    (hop : ∀ t g reason, op = .transition t g reason → t = .validating) :
    s = .cancellationRequested ∨ (s = .cancelled ∧ ∃ g, op = .completeCancellation g) ∨
      (s = .completed ∧ w.Admits .completing ∧ w.Granted op ∧
        ((∃ g, op = .commitCompletion g) ∨ ∃ g, op = .finalize g)) := by
  have hdead {t : WorkloadState} (ha : w.Admits t) (hn : t ∉ [WorkloadState.cancellationRequested,
      .cancelling, .cancelled, .completing, .completed]) : False := hn (target_of_cancelling ha hw)
  have hother {t : WorkloadState} (hs : w.state = t) (ht : isCancelling t = false) : False := by
    rw [hs, ht] at hw
    exact Bool.false_ne_true hw
  cases op with
  | transition t g reason =>
    rw [hop t g reason rfl] at h
    exact (hdead h.2 (by decide)).elim
  | settle =>
    -- the gates call for a state that awaits a start
    have hs := settleTarget_awaits h.1
    have hmem := target_of_cancelling h.2 hw
    fin_cases hmem <;> exact absurd hs (by decide)
  | startEpisode =>
    rw [not_cancelling_of_eligible h.2.2] at hw
    exact absurd hw (by decide)
  | admitDispatch => exact (hother h.2 rfl).elim
  | commitCompletion g => exact .inr (.inr ⟨h.1, h.2.2, h.2.1, .inl ⟨g, rfl⟩⟩)
  | finalize g => exact .inr (.inr ⟨h.1, h.2.2, h.2.1, .inr ⟨g, rfl⟩⟩)
  | requestCancellationWorkloadScope => exact .inl h.1
  | completeCancellation g => exact .inr (.inl ⟨h.1, g, rfl⟩)
  | onWorkerLost => rcases h.2 with hs | hs <;> exact (hother hs rfl).elim
  | planRestart => exact (hdead h.2 (by decide)).elim
  | requestSuspend => exact (hdead h.2 (by decide)).elim
  | completeSuspend => rcases h.2 with hs | hs <;> exact (hother hs rfl).elim
  | requestResume => rcases h.2 with hs | hs <;> exact (hother hs rfl).elim
  | requestMigration => exact (hdead h.2 (by decide)).elim
  | commitMigration => rcases h.2 with hs | hs <;> exact (hother hs rfl).elim
  | _ => exact h.elim

theorem governs_transition {op : WorkloadOp} (hop : Governs op) (t : WorkloadState)
    (g : WorkloadGeneration) (reason : Text) (h : op = .transition t g reason) :
    t = .validating := by
  subst h
  exact hop

/-- An engine does not lead out of it again. -/
theorem cancelledOrDone_of_step {w w' : Workload} {op : WorkloadOp} {o : Outcome}
    (h : Step w op o w') (hop : Governs op) (hw : cancelledOrDone w.state) :
    cancelledOrDone w'.state := by
  rcases hw with hw | hw
  · rcases h.state_cases with hs | ⟨-, hm⟩
    · exact .inl (hs.trans hw)
    · rcases moves_of_cancelling (by rw [hw]; rfl) hm (governs_transition hop) with
        hs | ⟨hs, -⟩ | ⟨hs, -⟩
      · exact .inl hs
      · exact .inr (.inl hs)
      · exact .inr (.inr hs)
  · have ht : isTerminal w.state = true := by
      rcases hw with hw | hw <;> rw [hw] <;> rfl
    exact .inr (by rwa [h.terminal ht])

/-- An accepted cancellation leads there. -/
theorem Step.state_of_cancel {w w' : Workload} {g : WorkloadGeneration}
    (h : Step w (.requestCancellationWorkloadScope g) .allow w') (hw : engineState w.state = true) :
    w'.state = .cancellationRequested := by
  cases h with
  | rejected ho => exact absurd rfl ho
  | cancelRefused _ _ _ _ ho => exact absurd rfl ho
  | cancel => exact moved_state ..
  | cancelAgain _ hs =>
    rcases (isCancelling_iff _).mp hs with hs | hs
    · exact hs
    · rw [hs] at hw
      exact absurd hw (by decide)

end Workload

/-- What only goes on with a workload that is neither cancelled nor done. -/
def Request.GoesOn : Request → Prop
  | .startEpisode _ _ => True
  | .progress _ _ _ _ => True
  | .planRestart _ _ => True
  | .requestSuspend _ => True
  | .requestResume _ => True
  | .requestMigration _ => True
  | .commitMigration _ _ _ => True
  | _ => False

namespace Workload

/-- **Nothing goes on under a cancellation, nor after the end.** -/
theorem Step.not_goesOn {w w' : Workload} {r : Request} {counter : UInt64}
    (h : Step w (r.operation counter w) .allow w') (hw : cancelledOrDone w.state) : ¬r.GoesOn := by
  have hdead {t : WorkloadState} (ha : w.Admits t) (hn : t ∉ [WorkloadState.cancellationRequested,
      .cancelling, .cancelled, .completing, .completed]) : False := by
    rcases hw with hw | hw
    · exact hn (target_of_cancelling ha (by rw [hw]; rfl))
    · rcases ha with hs | ⟨ht, -⟩
      · rw [← hs] at hn
        rcases hw with hw | hw <;> exact absurd hn (by rw [hw]; decide)
      · rcases hw with hw | hw <;> exact absurd ht (by rw [hw]; decide)
  have hother {t : WorkloadState} (hs : w.state = t) (ht : ¬cancelledOrDone t) : False :=
    ht (hs ▸ hw)
  cases r with
  | startEpisode =>
    cases h with
    | rejected ho => exact absurd rfl ho
    | start _ he =>
      rcases hw with hw | hw | hw <;> rw [hw] at he <;> exact absurd he (by decide)
  | progress =>
    cases h with
    | rejected ho => exact absurd rfl ho
    | progress _ _ _ hc ht =>
      rw [Bool.or_eq_false_iff] at hc
      rcases hw with hw | hw | hw
      · exact absurd hc.2 (by rw [hw]; decide)
      · exact absurd ht (by rw [hw]; decide)
      · exact absurd ht (by rw [hw]; decide)
  | planRestart =>
    cases h with
    | rejected ho => exact absurd rfl ho
    | restartRefused _ _ _ ho => exact absurd rfl ho
    | restart _ _ ha => exact (hdead ha (by decide)).elim
  | requestSuspend =>
    cases h with
    | rejected ho => exact absurd rfl ho
    | suspendRefused _ _ _ _ ho => exact absurd rfl ho
    | suspend _ _ _ ha => exact (hdead ha (by decide)).elim
  | requestResume =>
    cases h with
    | rejected ho => exact absurd rfl ho
    | resume _ hs =>
      rcases hs with hs | hs <;> exact (hother hs (by simp [cancelledOrDone])).elim
  | requestMigration =>
    cases h with
    | rejected ho => exact absurd rfl ho
    | migrateRefused _ _ _ ho => exact absurd rfl ho
    | migrate _ _ ha => exact (hdead ha (by decide)).elim
  | commitMigration =>
    cases h with
    | rejected ho => exact absurd rfl ho
    | commitMigration _ hs =>
      rcases hs with hs | hs <;> exact (hother hs (by simp [cancelledOrDone])).elim
  | _ => exact fun hr => hr

/-- What a final cancellation leaves is cancelled or awaits its start, for good. -/
theorem Governed.not_completed_of_final {w : Workload} (h : w.Governed)
    (hf : w.cancelledFinal = true) : w.state ≠ .completed := by
  intro hs
  rcases h.final hf with hw | hw <;> rw [hs] at hw <;> exact absurd hw (by decide)

theorem Step.final_kept {w w' : Workload} {op : WorkloadOp} {o : Outcome} (h : Step w op o w')
    (hf : w.cancelledFinal = true) : w'.cancelledFinal = true := by
  rcases h.final_cases with hs | ⟨-, -, -, hs⟩
  · exact hs.trans hf
  · exact hs

theorem Step.not_start_of_final {w w' : Workload} {id : ExecutionEpisodeId} {owner : OwnerId}
    {ownerGen : OwnerGeneration} {adv : Bool} {o : Outcome}
    (h : Step w (.startEpisode id owner ownerGen adv) o w') (hf : w.cancelledFinal = true) :
    o ≠ .allow := by
  rintro rfl
  cases h with
  | rejected ho => exact ho rfl
  | start hc => exact absurd (hf.symm.trans hc) (by decide)

end Workload

/-! ### At most one of them is committed -/

namespace WorkloadEngine

variable {σ : Type} [StateStore σ]

/-- **Cancelling and completing exclude each other**, in every run of an engine. -/
theorem cancel_excludes_complete {store : Option σ} {calls : List EngineCall} {id : WorkloadId}
    {w : Workload} (h : ((ofStore store).run calls).get id = some w) :
    (w.state = .completed → w.cancellationRequested = false ∧ w.cancelledFinal = false) ∧
    (w.state = .cancelled → w.cancellationRequested = true ∧ w.cancelledFinal = true) ∧
    (∀ g, (((ofStore store).run calls).step (.on id (.cancel g))).1.outcome = .allow →
      ∀ more, ∃ w', ((ofStore store).run (calls ++ .on id (.cancel g) :: more)).get id = some w' ∧
        Workload.cancelledOrDone w'.state ∧
        ∀ r : Request, r.GoesOn →
          (((ofStore store).run (calls ++ .on id (.cancel g) :: more)).step (.on id r)).1.outcome
            ≠ .allow) ∧
    (w.cancelledFinal = true →
      ∀ more, ∃ w', ((ofStore store).run (calls ++ more)).get id = some w' ∧
        w'.state ≠ .completed ∧
        ∀ owner ownerGen, (((ofStore store).run (calls ++ more)).step
          (.on id (.startEpisode owner ownerGen))).1.outcome ≠ .allow) ∧
    (isTerminal w.state = true →
      ∀ more, ∃ w', ((ofStore store).run (calls ++ more)).get id = some w' ∧
        w'.state = w.state) := by
  have hgov := governed_of_run h
  refine ⟨fun hs => ⟨hgov.completed hs, ?_⟩, hgov.cancelled, fun g hg more => ?_,
    fun hf more => ?_, fun ht more => ?_⟩
  · rw [Bool.eq_false_iff]
    exact fun hf => hgov.not_completed_of_final hf hs
  · -- the cancellation brings the workload to CANCELLATION_REQUESTED
    obtain ⟨w₁, hw₁, hs₁⟩ := step_on_step _ h (.cancel g)
    rw [hg] at hs₁
    have hq : ∃ w', ((ofStore store).run (calls ++ .on id (.cancel g) :: more)).get id = some w' ∧
        Workload.cancelledOrDone w'.state := by
      rw [run_append]
      exact preserved_run (q := fun w => Workload.cancelledOrDone w.state)
        (fun hq hs => Workload.cancelledOrDone_of_step hs (Request.governs _ _ _) hq)
        ⟨w₁, hw₁, .inl (hs₁.state_of_cancel hgov.state)⟩ more
    obtain ⟨w', hw', hq⟩ := hq
    refine ⟨w', hw', hq, fun r hr ho => ?_⟩
    obtain ⟨_, -, hs⟩ := step_on_step _ hw' r
    rw [ho] at hs
    exact hs.not_goesOn hq hr
  · obtain ⟨w', hw', hf'⟩ := preserved_run (q := fun w => w.cancelledFinal = true)
      (fun hq hs => hs.final_kept hq) ⟨w, h, hf⟩ more
    rw [← run_append] at hw'
    refine ⟨w', hw', (governed_of_run hw').not_completed_of_final hf', fun owner ownerGen => ?_⟩
    obtain ⟨_, -, hs⟩ := step_on_step _ hw' (.startEpisode owner ownerGen)
    exact hs.not_start_of_final hf'
  · rw [run_append]
    exact preserved_run (q := fun w' => w'.state = w.state)
      (fun hq hs => (hs.terminal (by rw [hq]; exact ht)).trans hq) ⟨w, h, rfl⟩ more

/-- A launched workload is cancelled before its episode is dispatched. -/
def launchAndCancel : List EngineCall :=
  launch (.fromU64 1) {} ++
    [.on (.fromU64 1) (.cancel (.fromU64 2)), .on (.fromU64 1) (.completeCancellation (.fromU64 2))]

theorem cancel_excludes_complete_launched :
    ∃ w, ((ofStore (none : Option (MemoryStateStore .leftToRight))).run launchAndCancel).get
        (.fromU64 1) = some w ∧
      (w.cancellationRequested = true ∧ w.cancelledFinal = true) ∧
      ∀ more, ∃ w', ((ofStore (none : Option (MemoryStateStore .leftToRight))).run
        (launchAndCancel ++ more)).get (.fromU64 1) = some w' ∧ w'.state = .cancelled := by
  obtain ⟨w, h, hs⟩ : ∃ w, ((ofStore (none : Option (MemoryStateStore .leftToRight))).run
      launchAndCancel).get (.fromU64 1) = some w ∧ w.state = .cancelled := ⟨_, rfl, by decide⟩
  obtain ⟨-, hcancelled, -, -, hterminal⟩ := cancel_excludes_complete h
  rw [hs] at hterminal
  exact ⟨w, h, hcancelled hs, hterminal rfl⟩

end WorkloadEngine

/-! ### Who wins under CANCEL_FIRST -/

namespace Workload

/-- The operations that compete with a cancellation: all but policy changes and bare
transitions. -/
def Competes : WorkloadOp → Prop
  | .setPolicy _ => False
  | .transition _ _ _ => False
  | _ => True

/-- An accepted cancellation under CANCEL_FIRST, and what comes of it. -/
structure CancelledFirst (w : Workload) : Prop where
  race : w.policy.cancelRace = .cancelFirst
  requested : w.cancellationRequested = true
  state : isCancelling w.state = true ∨ isTerminal w.state = true

theorem cancelling_of_cancel {w w' : Workload} {g : WorkloadGeneration}
    (h : Step w (.requestCancellationWorkloadScope g) .allow w') :
    isCancelling w'.state = true ∧ w'.cancellationRequested = true := by
  cases h with
  | rejected ho => exact absurd rfl ho
  | cancelRefused _ _ _ _ ho => exact absurd rfl ho
  | cancelAgain _ hs => exact ⟨hs, rfl⟩
  | cancel => exact ⟨by rw [moved_state]; rfl, by simp [flagCancellation]⟩

/-- CANCEL_FIRST shuts out `commitCompletion`. -/
theorem CancelledFirst.not_granted {w : Workload} (h : CancelledFirst w) (g : WorkloadGeneration) :
    ¬w.Granted (.commitCompletion g) := fun hg => hg.2.2.1 ⟨h.requested, h.race⟩

theorem CancelledFirst.step {w w' : Workload} {op : WorkloadOp} {o : Outcome}
    (h : CancelledFirst w) (hop : Competes op) (hs : Step w op o w') : CancelledFirst w' where
  race := by
    rw [hs.policy fun p hp => by rwa [hp] at hop]
    exact h.race
  requested := by
    rcases hs.requested_cases with hr | ⟨g, rfl, hg, -⟩ | ⟨-, hr, -⟩
    · exact hr.trans h.requested
    · exact (h.not_granted g hg).elim
    · exact hr
  state := by
    rcases h.state with hw | hw
    · rcases hs.state_cases with hst | ⟨-, hm⟩
      · exact .inl (hst ▸ hw)
      · rcases moves_of_cancelling hw hm fun t g reason hp => by rw [hp] at hop; exact hop.elim with
          hs | ⟨hs, -⟩ | ⟨hs, -⟩
        · exact .inl (by rw [hs]; rfl)
        · exact .inr (by rw [hs]; rfl)
        · exact .inr (by rw [hs]; rfl)
    · exact .inr (hs.terminal hw ▸ hw)

/-- The call finalizes the workload out of its cancellation. -/
def FinalizesCancelled (w : Workload) : WorkloadOp → Prop
  | .finalize g => w.state = .cancellationRequested ∧ w.Granted (.finalize g)
  | _ => False

/-- A cancellation is lost to such a call, and to no other. -/
theorem CancelledFirst.lost_iff {w w' : Workload} {op : WorkloadOp} {o : Outcome}
    (h : CancelledFirst w) (hop : Competes op) (hs : Step w op o w') (hw : w.state ≠ .completed) :
    w'.state ≠ .completed ↔ ¬w.FinalizesCancelled op := by
  rw [not_iff_not]
  constructor
  · intro hc
    rcases hs.state_cases with hst | ⟨-, hm⟩
    · exact absurd (hst.symm.trans hc) hw
    rcases h.state with hcan | ht
    · rcases moves_of_cancelling hcan hm fun t g reason hp => by rw [hp] at hop; exact hop.elim with
        hs | ⟨hs, -⟩ | ⟨-, ha, hg, ⟨g, rfl⟩ | ⟨g, rfl⟩⟩
      · rw [hc] at hs
        exact absurd hs (by decide)
      · rw [hc] at hs
        exact absurd hs (by decide)
      · exact (h.not_granted g hg).elim
      · refine ⟨?_, hg⟩
        rcases (isCancelling_iff _).mp hcan with hst | hst
        · exact hst
        · -- CANCELLING has no edge to COMPLETING
          rcases ha with hst' | ⟨-, he, -⟩
          · rw [hst] at hst'
            exact absurd hst' (by decide)
          · rw [hst] at he
            exact absurd he (by decide)
    · exact absurd ((hs.terminal ht).symm.trans hc) hw
  · intro hf
    cases op with
    | finalize g =>
      obtain ⟨hst, hg⟩ := hf
      have ha : w.Admits .completing := admits_of_edge hst (by decide) rfl (.inl nofun)
      cases hs with
      | rejected _ hn => exact absurd hg hn
      | finalizeRefused _ _ _ hn => exact absurd ha hn
      | finalize => exact moved_state ..
    | _ => exact hf.elim

/-- **Under CANCEL_FIRST a cancellation is lost exactly to `finalize`.**  Whatever
competes with an accepted cancellation, the workload is completed in the end if and
only if somebody finalized it out of CANCELLATION_REQUESTED. -/
theorem cancel_first_wins_iff {w : Workload} {g : WorkloadGeneration} {ex : Option Explanation}
    (hrace : w.policy.cancelRace = .cancelFirst)
    (hcancel : (w.requestCancellationWorkloadScope g ex).outcome = .allow) {calls : List Call}
    (hcalls : ∀ c ∈ calls, Competes c.1) :
    ((w.requestCancellationWorkloadScope g ex).workload.run calls).state ≠ .completed ↔
      ∀ pre c post, calls = pre ++ c :: post →
        ¬((w.requestCancellationWorkloadScope g ex).workload.run pre).FinalizesCancelled c.1 := by
  have hs := w.requestCancellation_step ex g
  rw [hcancel] at hs
  generalize (w.requestCancellationWorkloadScope g ex).workload = w₀ at hs ⊢
  obtain ⟨hcan, hreq⟩ := cancelling_of_cancel hs
  have hpolicy : w₀.policy = w.policy := hs.policy fun p => by simp
  have hfirst : CancelledFirst w₀ := ⟨hpolicy ▸ hrace, hreq, .inl hcan⟩
  have hne : w₀.state ≠ .completed := by
    intro hc
    rw [hc] at hcan
    exact absurd hcan (by decide)
  have hlost (w : Workload) (c : Call) (h : ¬w.state ≠ .completed) :
      ¬(w.apply c.1 c.2).workload.state ≠ .completed := by
    rw [not_not] at h ⊢
    exact ((w.apply_step c.2 c.1).terminal (by rw [h]; rfl)).trans h
  have hiff : (w₀.run calls).state ≠ .completed ↔
      Machine.Along (fun w (c : Call) => (w.apply c.1 c.2).workload)
        (fun w c => ¬w.FinalizesCancelled c.1) w₀ calls :=
    Machine.last_iff_along (K := fun _ (c : Call) => Competes c.1) (I := CancelledFirst)
      (P := fun w => w.state ≠ .completed)
      (fun w c hc hI => hI.step hc (w.apply_step c.2 c.1))
      (fun w c hc hI hP => hI.lost_iff hc (w.apply_step c.2 c.1) hP)
      (fun w c _ _ => hlost w c) hfirst hne (Machine.along_of_forall fun _ c hc => hcalls c hc)
  exact hiff.trans Machine.along_iff

/-- The calls that bring a fresh workload to its first dispatch, under CANCEL_FIRST and
completed by `finalize` only. -/
def cancelFirstCalls : List Call :=
  [(.setPolicy { completion := { kind := .explicitFinalize }, cancelRace := .cancelFirst }, none),
    (.transition .validating (.fromU64 1) [], none), (.applyGrant {}, none),
    (.settle (.fromU64 1), none), (.startEpisode (.fromU64 7) (.fromU64 1) (.fromU64 1) true, none),
    (.admitDispatch (.fromU64 7) (.fromU64 1) (.fromU64 1), none)]

def cancelFirstWorkload : Workload :=
  (create (.fromU64 1) (text "w") (text "job")).run cancelFirstCalls

/-- Without `finalize` the cancellation wins. -/
theorem cancel_first_wins_iff_completed : ((cancelFirstWorkload.requestCancellationWorkloadScope
      (.fromU64 2) none).workload.run
        [(.markEpisodeCompleted (.fromU64 7), none), (.commitCompletion (.fromU64 2), none)]).state
      ≠ .completed := by
  refine (cancel_first_wins_iff (by decide) (by decide) (by simp [Competes])).mpr ?_
  intro pre c post heq hf
  have hc : c ∈ [(WorkloadOp.markEpisodeCompleted (.fromU64 7), (none : Option Explanation)),
      (.commitCompletion (.fromU64 2), none)] := by rw [heq]; simp
  rcases List.mem_cons.mp hc with rfl | hc
  · exact hf
  · rw [List.mem_singleton.mp hc] at hf
    exact hf

/-- With it, a workload that was asked to cancel first is completed. -/
theorem finalize_beats_cancel_first : ∃ w : Workload, w.Reachable ∧
    w.policy.cancelRace = .cancelFirst ∧
    (w.requestCancellationWorkloadScope (.fromU64 2) none).outcome = .allow ∧
    ((w.requestCancellationWorkloadScope (.fromU64 2) none).workload.run
      [(.finalize (.fromU64 2), none)]).state = .completed :=
  ⟨cancelFirstWorkload, ⟨_, _, _, _, rfl⟩, by decide, by decide, by decide⟩

/-! ### When a cancellation works -/

/-- Asking for the cancellation leaves open whether it works. -/
theorem Step.cancel_awaits {w w' : Workload} {g : WorkloadGeneration} {o : Outcome}
    (h : Step w (.requestCancellationWorkloadScope g) o w') (hw : engineState w.state = true)
    (ht : isTerminal w.state = false) :
    w'.generation = w.generation ∧ isTerminal w'.state = false ∧
      awaitsStart w'.state = awaitsStart w.state := by
  cases h with
  | rejected => exact ⟨rfl, ht, rfl⟩
  | cancelAgain => exact ⟨rfl, ht, rfl⟩
  | cancel _ _ _ ha =>
    rw [moved_state, (admits_cancellation_iff hw ht).mp ha]
    exact ⟨moved_generation .., rfl, rfl⟩
  | cancelRefused => exact ⟨rfl, ht, rfl⟩

/-- **A cancellation works unless the workload awaits its start**; there it is refused
with the final flag up. -/
theorem Step.cancelled_iff {w w' : Workload} {g : WorkloadGeneration} {o : Outcome}
    (h : Step w (.completeCancellation g) o w') (hg : g = w.generation)
    (hw : engineState w.state = true) (ht : isTerminal w.state = false) :
    w'.cancelledFinal = true ∧ (w'.state = .cancelled ↔ awaitsStart w.state = false) := by
  have hne : w.state ≠ .cancelled := by
    intro hs
    rw [hs] at ht
    exact absurd ht (by decide)
  cases h with
  | rejected _ hn => exact absurd ⟨hg, .inr ht⟩ hn
  | cancelledAgain _ hs => exact absurd hs hne
  | cancelled _ _ ha =>
    exact ⟨by simp [flagCancelledFinal],
      iff_of_true (moved_state ..) ((admits_cancellation_iff hw ht).mp ha)⟩
  | cancelledRefused _ _ hn =>
    exact ⟨rfl, iff_of_false hne fun hs => hn ((admits_cancellation_iff hw ht).mpr hs)⟩

/-- The request is to cancel for good what awaits its start. -/
def CancelsAwaiting (w : Workload) : Request → Prop
  | .completeCancellation g => g = w.generation ∧ awaitsStart w.state = true
  | _ => False

/-- A final cancellation has cancelled the workload. -/
def FinalMeansCancelled (w : Workload) : Prop := w.cancelledFinal = true → w.state = .cancelled

theorem Governed.finalMeansCancelled_iff {counter : UInt64} {r : Request} {w w' : Workload}
    {o : Outcome} (h : w.Governed) (hs : w.Step (r.operation counter w) o w')
    (hw : w.FinalMeansCancelled) : w'.FinalMeansCancelled ↔ ¬w.CancelsAwaiting r := by
  constructor
  · intro hw' hc
    cases r with
    | completeCancellation g =>
      obtain ⟨hg, ha⟩ := hc
      obtain ⟨hf, hiff⟩ := hs.cancelled_iff hg h.state (not_terminal_of_awaits ha)
      rw [hiff.mp (hw' hf)] at ha
      exact Bool.false_ne_true ha
    | _ => exact hc
  · intro hn hf
    rcases hs.final_cases with hf' | ⟨g, hop, hg, -⟩
    · have hst := hw (hf'.symm.trans hf)
      exact (hs.terminal (by rw [hst]; rfl)).trans hst
    · cases r with
      | completeCancellation g =>
        rcases hg.2 with hst | ht
        · exact (hs.terminal (by rw [hst]; rfl)).trans hst
        · refine (hs.cancelled_iff hg.1 h.state ht).2.mpr (Bool.eq_false_iff.mpr ?_)
          exact fun ha => hn ⟨hg.1, ha⟩
      | _ => exact absurd hop (by simp [Request.operation])

/-- Where the flag is up without a cancellation, no cancellation follows. -/
theorem Governed.not_finalMeansCancelled {counter : UInt64} {r : Request} {w w' : Workload}
    {o : Outcome} (h : w.Governed) (hs : w.Step (r.operation counter w) o w')
    (hw : ¬w.FinalMeansCancelled) : ¬w'.FinalMeansCancelled := by
  obtain ⟨hf, hne⟩ := Classical.not_imp.mp hw
  have ha := (h.final hf).resolve_left hne
  intro hw'
  have hc := hw' (hs.final_kept hf)
  rcases hs.state_cases with hst | ⟨-, hm⟩
  · exact hne (hst.symm.trans hc)
  · rw [hc] at hm
    obtain ⟨g, hop⟩ := (op_of_moves_to_end (r.governs counter w)).2 hm
    rw [hop] at hm
    rw [(admits_cancellation_iff h.state (not_terminal_of_awaits ha)).mp hm.2] at ha
    exact Bool.false_ne_true ha

end Workload

namespace WorkloadEngine

variable {σ : Type} [StateStore σ]

/-- **When a cancellation works**, in every run of an engine.  Cancelling a workload and
completing the cancellation leaves it CANCELLED exactly if it does not await its start,
and the final flag tells a cancelled workload exactly if nobody completed a cancellation
of one that did. -/
theorem cancellation_works_iff {store : Option σ} {calls : List EngineCall} {id : WorkloadId}
    {w : Workload} (h : ((ofStore store).run calls).get id = some w) :
    (isTerminal w.state = false →
      ∃ w', ((ofStore store).run (calls ++ [.on id (.cancel w.generation),
          .on id (.completeCancellation w.generation)])).get id = some w' ∧
        (w'.state = .cancelled ↔ Workload.awaitsStart w.state = false)) ∧
    ((w.cancelledFinal = true → w.state = .cancelled) ↔
      Throughout store id (fun w r => ¬w.CancelsAwaiting r) calls) := by
  have hgov := governed_of_run h
  refine ⟨fun ht => ?_, ?_⟩
  · obtain ⟨w₁, hw₁, hs₁⟩ := step_on_step _ h (.cancel w.generation)
    obtain ⟨hgen, ht₁, hawaits⟩ := hs₁.cancel_awaits hgov.state ht
    obtain ⟨w₂, hw₂, hs₂⟩ := step_on_step _ hw₁ (.completeCancellation w.generation)
    have hgov₁ := hgov.step (Request.governs _ _ _) hs₁
    rw [run_append]
    refine ⟨w₂, hw₂, ?_⟩
    rw [← hawaits]
    exact (hs₂.cancelled_iff hgen.symm hgov₁.state ht₁).2
  · exact last_iff_throughout (I := Workload.Governed) (p := Workload.FinalMeansCancelled)
      (fun name intent policy => ⟨Workload.governed_create id name intent policy,
        fun hf => absurd hf (by simp [Workload.create])⟩)
      (fun hI hs => ⟨hI.step (Request.governs _ _ _) hs, hI.finalMeansCancelled_iff hs⟩)
      (fun hI hs => hI.not_finalMeansCancelled hs) h

/-- A launched workload can be cancelled. -/
theorem cancellation_works_iff_launched :
    ∃ w', ((ofStore (none : Option (MemoryStateStore .leftToRight))).run
      (launch (.fromU64 1) {} ++ [.on (.fromU64 1) (.cancel (.fromU64 2)),
        .on (.fromU64 1) (.completeCancellation (.fromU64 2))])).get (.fromU64 1) = some w' ∧
      w'.state = .cancelled := by
  obtain ⟨w, h, hs, hg⟩ : ∃ w, ((ofStore (none : Option (MemoryStateStore .leftToRight))).run
      (launch (.fromU64 1) {})).get (.fromU64 1) = some w ∧ w.state = .starting ∧
      w.generation = .fromU64 2 := ⟨_, rfl, by decide, by decide⟩
  obtain ⟨w', hw', hiff⟩ := (cancellation_works_iff h).1 (by rw [hs]; rfl)
  rw [hg] at hw'
  exact ⟨w', hw', hiff.mpr (by rw [hs]; rfl)⟩

/-- A freshly created workload cannot: it is left in CREATED with the final flag up. -/
theorem fresh_cancellation_half_works :
    ∃ w, ((ofStore (none : Option (MemoryStateStore .leftToRight))).run
        [.create (.fromU64 1) (text "w") (text "job") {}]).get (.fromU64 1) = some w ∧
      isTerminal w.state = false ∧
      ∃ w', ((ofStore (none : Option (MemoryStateStore .leftToRight))).run
        ([.create (.fromU64 1) (text "w") (text "job") {}] ++
          [.on (.fromU64 1) (.cancel w.generation),
            .on (.fromU64 1) (.completeCancellation w.generation)])).get (.fromU64 1) = some w' ∧
        w'.state = .created ∧ w'.cancelledFinal = true :=
  ⟨_, rfl, by decide, _, rfl, by decide, by decide⟩

end WorkloadEngine

end WorkloadFabric
