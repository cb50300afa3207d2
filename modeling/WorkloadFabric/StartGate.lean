/-
The gates in front of execution, and when they are asked.

Only `settle` asks whether the required dependencies and the contract are met; a
start asks for the state alone.  So a start goes through with a gate closed as soon
as the gate was closed after `settle`, or the workload got back to a startable state
by another way.

* **`start_gated_iff`** — in every state of a run a start goes through with open gates
  only, exactly if no request shut a gate of a workload that may start, or made a
  workload behind a shut gate startable;
* **`start_behind_shut_gate`** — an episode starts on a pending dependency.
-/
import WorkloadFabric.Moves

namespace WorkloadFabric

namespace Workload

/-- Both gates, as `settle` asks for them. -/
def GatesOpen (w : Workload) : Prop := w.depsReady = true ∧ w.contractSatisfied = true

/-- What a start asks for. -/
def MayStart (w : Workload) : Prop := w.cancelledFinal = false ∧ resumeEligible w.state = true

theorem Step.start_allowed_iff {w w' : Workload} {id : ExecutionEpisodeId} {owner : OwnerId}
    {ownerGen : OwnerGeneration} {adv : Bool} {o : Outcome}
    (h : Step w (.startEpisode id owner ownerGen adv) o w') : o = .allow ↔ w.MayStart := by
  cases h with
  | rejected ho hn => exact iff_of_false ho hn
  | start hc he => exact iff_of_true rfl ⟨hc, he⟩

/-! ### What the gates are worth -/

/-- The request shuts a gate of a workload that may start, or makes a workload behind
a shut gate startable. -/
def ShutsGate (w : Workload) : Request → Prop
  | .addDependency d => w.MayStart ∧ ¬GatesOpen { w with deps := (w.deps.define d).2 }
  | .setDependencyStatus i status observed =>
    w.MayStart ∧ ¬GatesOpen { w with deps := (w.deps.setStatus i status observed).2 }
  | .addResourceRequirement req =>
    w.MayStart ∧ ¬GatesOpen { w with contract := (w.contract.add req).2 }
  | .applyGrant grant =>
    w.MayStart ∧ ¬GatesOpen { w with contract := (w.contract.applyGrant grant).2 }
  | .completeSuspend g =>
    w.state = .suspendRequested ∧ w.Granted (.completeSuspend g) ∧ ¬w.GatesOpen
  | .onWorkerLost worker boot g =>
    w.state = .running ∧ w.Granted (.onWorkerLost worker boot g) ∧ ¬w.GatesOpen
  | .planRestart reason g =>
    w.state = .starting ∧ w.Granted (.planRestart g reason) ∧ ¬w.GatesOpen
  | _ => False

/-- A workload that may start has its gates open. -/
def StartsGated (w : Workload) : Prop := w.MayStart → w.GatesOpen

theorem gatesOpen_congr {w w' : Workload} (h : (w'.deps, w'.contract) = (w.deps, w.contract)) :
    w'.GatesOpen ↔ w.GatesOpen := by
  obtain ⟨hd, hc⟩ := Prod.mk.inj h
  rw [GatesOpen, GatesOpen, depsReady, depsReady, contractSatisfied, contractSatisfied, hd, hc]

/-- `settle` calls for READY when the gates are open. -/
theorem gatesOpen_of_ready {w : Workload} (h : w.settleTarget = some .ready) : w.GatesOpen := by
  rw [settleTarget] at h
  split at h
  case isTrue => split at h <;> exact absurd h (by decide)
  case isFalse hd =>
    split at h
    case isTrue => split at h <;> exact absurd h (by decide)
    case isFalse hc => exact ⟨by simpa using hd, by simpa using hc⟩

/-- **The ways into a startable state**: from another, through the gates, or past
them. -/
theorem startable_of_moves {w : Workload} {op : WorkloadOp} {s : WorkloadState}
    (hw : engineState w.state = true) (hop : Governs op) (h : w.Moves op s)
    (hs : resumeEligible s = true) : resumeEligible w.state = true ∨ w.GatesOpen ∨
      (w.state = .suspendRequested ∧ ∃ g, op = .completeSuspend g) ∨
      (w.state = .running ∧ ∃ worker boot g, op = .onWorkerLost worker boot g) ∨
      (w.state = .starting ∧ ∃ g reason, op = .planRestart g reason) := by
  have htable : ∀ e ∈ kTransitionTable, engineState e.1 = true → e.2 = .restartPending →
      e.1 = .starting ∨ e.1 = .recovering := by decide
  cases op with
  | transition =>
    rw [h.1, show _ = WorkloadState.validating from hop] at hs
    exact absurd hs (by decide)
  | settle =>
    right; left
    have ha := settleTarget_awaits h.1
    have hready : s = .ready := by
      cases s <;> first | rfl | exact absurd ha (by decide) | exact absurd hs (by decide)
    exact gatesOpen_of_ready (hready ▸ h.1)
  | finalize => exact hop.elim
  | onWorkerLost worker boot g =>
    rcases h.2 with hst | hst
    · exact .inr (.inr (.inr (.inl ⟨hst, worker, boot, g, rfl⟩)))
    · rw [hst] at hw
      exact absurd hw (by decide)
  | planRestart g reason =>
    rcases h.2 with hst | ⟨-, he, -⟩
    · exact .inl (by rw [hst]; rfl)
    · rcases htable _ (mem_of_canTransition he) hw rfl with hst | hst
      · exact .inr (.inr (.inr (.inr ⟨hst, g, reason, rfl⟩)))
      · exact .inl (by rw [show w.state = .recovering from hst]; rfl)
  | completeSuspend g =>
    rcases h.2 with hst | hst
    · exact .inr (.inr (.inl ⟨hst, g, rfl⟩))
    · rw [hst] at hw
      exact absurd hw (by decide)
  | requestResume => exact .inl (by rcases h.2 with hst | hst <;> rw [hst] <;> rfl)
  | startEpisode | admitDispatch | commitCompletion | requestCancellationWorkloadScope
  | completeCancellation | requestSuspend | requestMigration | commitMigration =>
    rw [h.1] at hs
    exact absurd hs (by decide)
  | _ => exact h.elim

/-- Outside its ends and beginnings a governed workload is not finally cancelled. -/
theorem Governed.not_final {w : Workload} (h : w.Governed) (hc : w.state ≠ .cancelled)
    (ha : awaitsStart w.state = false) : w.cancelledFinal = false := by
  rw [Bool.eq_false_iff]
  intro hf
  rcases h.final hf with hw | hw
  · exact hc hw
  · rw [ha] at hw
    exact Bool.false_ne_true hw

theorem Step.final_eq {w w' : Workload} {op : WorkloadOp} {o : Outcome} (h : Step w op o w')
    (hop : ∀ g, op ≠ .completeCancellation g) : w'.cancelledFinal = w.cancelledFinal := by
  rcases h.final_cases with hf | ⟨g, hg, -⟩
  · exact hf
  · exact absurd hg (hop g)

/-- An edit of the gates is judged by what it leaves of them. -/
theorem startsGated_edit_iff {w w' e : Workload} {op : WorkloadOp} {o : Outcome}
    (h : Step w op o w') (hmoves : ∀ s, ¬w.Moves op s) (hop : ∀ g, op ≠ .completeCancellation g)
    (he : w.regated op = (e.deps, e.contract)) :
    w'.StartsGated ↔ ¬(w.MayStart ∧ ¬e.GatesOpen) := by
  have hstate : w'.state = w.state := h.state_cases.resolve_right fun hm => hmoves _ hm.2
  rw [StartsGated, gatesOpen_congr (h.gates.trans he), MayStart, hstate, h.final_eq hop,
    not_and_not_right]
  rfl

/-- What gets into a startable state past the gates. -/
theorem Governed.not_startsGated {w w' : Workload} {op : WorkloadOp} {o : Outcome}
    (h : w.Governed) (hs : Step w op o w') (hgates : w.regated op = (w.deps, w.contract))
    (hop : ∀ g, op ≠ .completeCancellation g)
    (hw : w.state = .suspendRequested ∨ w.state = .running ∨ w.state = .starting)
    (hw' : resumeEligible w'.state = true) (hn : ¬w.GatesOpen) : ¬w'.StartsGated := by
  have hf : w.cancelledFinal = false := by
    refine h.not_final (fun hc => ?_) ?_
    · rw [hc] at hw
      exact absurd hw (by decide)
    · rcases hw with hw | hw | hw <;> rw [hw] <;> rfl
  intro hgated
  exact hn ((gatesOpen_congr (hs.gates.trans hgates)).mp (hgated ⟨(hs.final_eq hop).trans hf, hw'⟩))

/-- **The requests that break the gating are those that shut a gate.** -/
theorem Governed.startsGated_iff {counter : UInt64} {r : Request} {w w' : Workload} {o : Outcome}
    (h : w.Governed) (hs : w.Step (r.operation counter w) o w') (hw : w.StartsGated) :
    w'.StartsGated ↔ ¬w.ShutsGate r := by
  -- past the gates, or through them, or from a state that was startable before
  have hkept (hgates : w.regated (r.operation counter w) = (w.deps, w.contract))
      (hpass : ¬w.ShutsGate r) : w'.StartsGated := by
    rintro ⟨hf', he'⟩
    have hf : w.cancelledFinal = false := by
      rw [Bool.eq_false_iff]
      intro hf
      rcases hs.final_cases with hc | ⟨-, -, -, hc⟩
      · rw [hc, hf] at hf'
        exact absurd hf' (by decide)
      · rw [hc] at hf'
        exact absurd hf' (by decide)
    rw [gatesOpen_congr (hs.gates.trans hgates)]
    rcases hs.state_cases with hst | ⟨ho, hm⟩
    · exact hw ⟨hf, hst ▸ he'⟩
    have hgranted := (ho ▸ hs).granted
    rcases startable_of_moves h.state (r.governs counter w) hm he' with
      he | hopen | ⟨hst, g, hop⟩ | ⟨hst, worker, boot, g, hop⟩ | ⟨hst, g, reason, hop⟩
    · exact hw ⟨hf, he⟩
    · exact hopen
    · obtain rfl : r = .completeSuspend g := by cases r <;> simp_all [Request.operation]
      exact not_not.mp fun hn => hpass ⟨hst, hgranted, hn⟩
    · obtain rfl : r = .onWorkerLost worker boot g := by cases r <;> simp_all [Request.operation]
      exact not_not.mp fun hn => hpass ⟨hst, hgranted, hn⟩
    · obtain rfl : r = .planRestart reason g := by cases r <;> simp_all [Request.operation]
      exact not_not.mp fun hn => hpass ⟨hst, hgranted, hn⟩
  cases r with
  | addDependency | setDependencyStatus | addResourceRequirement | applyGrant =>
    exact startsGated_edit_iff hs (fun _ hm => hm) (fun _ => by simp [Request.operation]) rfl
  | completeSuspend g =>
    refine ⟨fun hgated hc => ?_, hkept rfl⟩
    obtain ⟨hst, hg, hn⟩ := hc
    refine h.not_startsGated hs rfl (fun _ => by simp [Request.operation]) (.inl hst) ?_ hn hgated
    cases hs with
    | rejected _ hn => exact absurd hg hn
    | suspendedAgain _ hs => rw [hs]; rfl
    | suspended => rw [moved_state]; rfl
  | onWorkerLost worker boot g =>
    refine ⟨fun hgated hc => ?_, hkept rfl⟩
    obtain ⟨hst, hg, hn⟩ := hc
    refine h.not_startsGated hs rfl (fun _ => by simp [Request.operation]) (.inr (.inl hst)) ?_ hn
      hgated
    cases hs with
    | rejected _ hn => exact absurd hg hn
    | lost =>
      rw [if_pos (.inl hst), moved_state]
      rfl
  | planRestart reason g =>
    refine ⟨fun hgated hc => ?_, hkept rfl⟩
    obtain ⟨hst, hg, hn⟩ := hc
    refine h.not_startsGated hs rfl (fun _ => by simp [Request.operation]) (.inr (.inr hst)) ?_ hn
      hgated
    cases hs with
    | rejected _ hn => exact absurd hg hn
    | restart => rw [moved_state]; rfl
    | restartRefused _ _ hn =>
      have ha : w.Admits .restartPending := admits_of_edge hst (by decide) rfl (.inl (by decide))
      exact absurd ha hn
  | _ => exact iff_of_true (hkept rfl fun hs => hs) fun hs => hs

end Workload

namespace WorkloadEngine

variable {σ : Type} [StateStore σ]

/-- **A start is gated exactly as far as the gates are kept.**  In every state of a run
an accepted start finds each required dependency satisfied and the contract satisfied,
if and only if no request of the run shut a gate. -/
theorem start_gated_iff (store : Option σ) (calls : List EngineCall) (id : WorkloadId) :
    (∀ pre post w, calls = pre ++ post → ((ofStore store).run pre).get id = some w →
      ∀ owner ownerGen,
        (((ofStore store).run pre).step (.on id (.startEpisode owner ownerGen))).1.outcome =
            .allow →
          (∀ (i : ℕ) (d : DependencyDef), w.deps.defs[i]? = some d → d.requirement = .required →
            ∃ st, w.deps.states[i]? = some st ∧ st.status = .satisfied) ∧
          w.contract.satisfied = true) ↔
      Throughout store id (fun w r => ¬w.ShutsGate r) calls := by
  rw [← always_iff_throughout (I := Workload.Governed) (p := Workload.StartsGated)
    (fun name intent policy => ⟨Workload.governed_create id name intent policy,
      fun hm => absurd hm.2 (by simp [Workload.create, Workload.resumeEligible])⟩)
    (fun hI hs => ⟨hI.step (Request.governs _ _ _) hs, hI.startsGated_iff hs⟩) store calls]
  -- in each state, a start is accepted if the workload may start
  refine forall_congr' fun pre => forall_congr' fun post => forall_congr' fun w => ?_
  refine imp_congr_right fun _ => imp_congr_right fun hw => ?_
  have hstart (owner : OwnerId) (ownerGen : OwnerGeneration) :
      (((ofStore store).run pre).step (.on id (.startEpisode owner ownerGen))).1.outcome = .allow ↔
        w.MayStart := by
    obtain ⟨_, -, hs⟩ := step_on_step _ hw (.startEpisode owner ownerGen)
    exact hs.start_allowed_iff
  simp only [hstart, ← DependencySet.ready_iff]
  exact ⟨fun h hm => h {} {} hm, fun h _ _ hm => h hm⟩

/-- A workload is settled into READY, then gets a required dependency. -/
def lateDependency : List EngineCall :=
  [.create (.fromU64 1) (text "w") (text "job") {}, .on (.fromU64 1) .validate,
    .on (.fromU64 1) (.applyGrant {}), .on (.fromU64 1) .settle,
    .on (.fromU64 1) (.addDependency { dependsOn := .fromU64 2, requirement := .required })]

/-- An episode starts on it, while the dependency is pending. -/
theorem start_behind_shut_gate :
    ∃ w, ((ofStore (none : Option (MemoryStateStore .leftToRight))).run lateDependency).get
        (.fromU64 1) = some w ∧
      (((ofStore (none : Option (MemoryStateStore .leftToRight))).run lateDependency).step
        (.on (.fromU64 1) (.startEpisode (.fromU64 1) (.fromU64 1)))).1.outcome = .allow ∧
      ∃ d, w.deps.defs[0]? = some d ∧ d.requirement = .required ∧
        ∃ st, w.deps.states[0]? = some st ∧ st.status = .pending :=
  ⟨_, rfl, by decide, _, rfl, rfl, _, rfl, rfl⟩

end WorkloadEngine

end WorkloadFabric
