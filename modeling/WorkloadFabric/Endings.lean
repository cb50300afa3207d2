/-
How a workload can still end.

An engine never ends a workload by itself; somebody has to call.  So the question is
what calls there are left.  A workload that was started is cancelled by one call, and
one that awaits its start can be started first: whatever its dependencies and its
contract ask for, there are reports and a grant that open both gates.  The exception is
a workload that was cancelled while it awaited its start: the cancellation was refused
and is final all the same, so it is never started, and what is never started is never
ended.

* **`can_end_iff`** — a workload can still be brought to CANCELLED exactly if it is
  there, or is neither COMPLETED nor flagged as finally cancelled; it can still be
  brought to an end at all exactly if it is CANCELLED or not flagged.
-/
import WorkloadFabric.Cancellation
import WorkloadFabric.StartGate
import WorkloadFabric.GrantFence
import WorkloadFabric.Settling
import WorkloadFabric.Reload

namespace WorkloadFabric

/-! ### A grant for every contract -/

/-- A quiet NaN. -/
def Double.nan : Double := ⟨0x7ff8000000000000⟩

/-- No comparison with it holds, so it misses no bound. -/
theorem Double.lt_nan (d : Double) : d.lt nan = false := by
  rw [lt, show nan.isNaN = true by decide, Bool.not_true, Bool.and_false, Bool.false_and]

theorem Double.nan_lt (d : Double) : nan.lt d = false := by
  rw [lt, show nan.isNaN = true by decide, Bool.not_true, Bool.false_and, Bool.false_and]

namespace ResourceContract

/-- A grant for the contract as it stands, with an amount of each kind it names. -/
def matchingGrant (c : ResourceContract) : ResourceGrant where
  contractGeneration := c.generation
  bindings := c.reqs.map fun req => { kind := req.kind, amount := .nan }

/-- **Every contract can be satisfied.** -/
theorem satisfied_matchingGrant (c : ResourceContract) :
    (c.applyGrant c.matchingGrant).2.satisfied = true := by
  rw [satisfied_iff]
  refine ⟨⟨if_pos rfl, rfl⟩, fun req hreq hl => ?_, fun req _ _ b hb hbad => ?_⟩
  · refine ⟨_, List.mem_map_of_mem hreq, rfl, ?_⟩
    rw [ResourceRequirement.satisfies, if_neg (by rw [hl]; decide), Double.nan_lt, Double.lt_nan,
      Bool.and_false]
    rfl
  · obtain ⟨_, -, rfl⟩ := List.mem_map.mp hb
    rw [Double.lt_nan] at hbad
    exact Bool.false_ne_true hbad.2

end ResourceContract

namespace Workload

/-! ### The steps towards a start -/

/-- A report in time is recorded. -/
theorem Step.reported {w w' : Workload} {i : ℕ} {st : DependencyState} {o : Outcome}
    (hst : w.deps.states[i]? = some st)
    (h : Step w (.setStatus i .satisfied st.observedGeneration) o w') :
    w' = { w with deps := { w.deps with
      states := w.deps.states.set i { st with status := .satisfied } } } := by
  have hset : w.deps.setStatus i .satisfied st.observedGeneration = (.allow, { w.deps with
      states := w.deps.states.set i { st with status := .satisfied } }) := by
    rw [DependencySet.setStatus, hst]
    exact if_neg (UInt64.lt_irrefl _)
  cases h with
  | rejected _ hn => exact absurd (congrArg Prod.fst hset) hn
  | setStatus => rw [hset]

theorem Step.validated {w w' : Workload} {reason : Text} {o : Outcome}
    (h : Step w (.transition .validating w.generation reason) o w') (hw : w.state = .created) :
    w'.state = .validating := by
  cases h with
  | rejected _ hn => exact absurd trivial hn
  | transition => exact moved_state ..
  | transitionRefused hn => exact absurd ⟨rfl, admits_of_edge hw (by decide) rfl (.inl nofun)⟩ hn

/-- Behind open gates a workload is settled into READY. -/
theorem Step.settled {w w' : Workload} {o : Outcome} (h : Step w (.settle w.generation) o w')
    (hopen : w.GatesOpen) (hw : beforeExecution w.state = true) (hne : w.state ≠ .created) :
    w'.state = .ready := by
  have htarget : w.gateTarget = .ready := gateTarget_eq_ready_iff.mpr hopen
  rw [h.settles (admits_gateTarget_iff.mpr (.inl ⟨hw, fun hc => hne hc.1⟩)), htarget]

theorem Step.starting {w w' : Workload} {id : ExecutionEpisodeId} {owner : OwnerId}
    {ownerGen : OwnerGeneration} {adv : Bool} {o : Outcome}
    (h : Step w (.startEpisode id owner ownerGen adv) o w') (hw : w.MayStart) :
    w'.state = .starting := by
  cases h with
  | rejected _ hn => exact absurd hw hn
  | start => exact started_state ..

theorem before_of_awaits {s : WorkloadState} (h : awaitsStart s = true) :
    beforeExecution s = true := by
  cases s <;> first | rfl | exact absurd h (by decide)

/-! ### Cancelled before the start -/

/-- **Nothing but a start leads away from the states before it.** -/
theorem awaits_of_moves_of_not_start {w : Workload} {op : WorkloadOp} {s : WorkloadState}
    (hop : Governs op) (hw : awaitsStart w.state = true) (h : w.Moves op s)
    (hstart : ∀ id owner ownerGen adv, op ≠ .startEpisode id owner ownerGen adv) :
    awaitsStart s = true := by
  by_cases hc : ∃ g, op = .completeCancellation g
  · obtain ⟨g, rfl⟩ := hc
    have hadm := (admits_cancellation_iff (engineState_of_awaits hw)
      (not_terminal_of_awaits hw)).mp h.2
    rw [hw] at hadm
    exact absurd hadm (by decide)
  · -- only a start looks at the final flag
    have hflag : Moves { w with cancelledFinal := true } op s := by
      cases op with
      | startEpisode id owner ownerGen adv => exact absurd rfl (hstart id owner ownerGen adv)
      | _ => exact h
    exact awaits_of_moves (w := { w with cancelledFinal := true }) hop rfl hw hflag
      fun g hg => hc ⟨g, hg⟩

/-- Finally cancelled, and not cancelled. -/
def Stranded (w : Workload) : Prop := w.cancelledFinal = true ∧ awaitsStart w.state = true

/-- **There is no way out of it.** -/
theorem Stranded.step {w w' : Workload} {op : WorkloadOp} {o : Outcome} (h : w.Stranded)
    (hop : Governs op) (hs : Step w op o w') : w'.Stranded := by
  obtain ⟨hf, ha⟩ := h
  refine ⟨hs.final_kept hf, ?_⟩
  rcases hs.state_cases with hst | ⟨-, hm⟩
  · rw [hst]
    exact ha
  · refine awaits_of_moves_of_not_start hop ha hm fun id owner ownerGen adv hstart => ?_
    rw [hstart] at hm
    exact absurd (hf.symm.trans hm.2.1) (by decide)

/-- An engine ends its workloads in two states. -/
theorem Governed.ended {w : Workload} (h : w.Governed) (ht : isTerminal w.state = true) :
    w.state = .cancelled ∨ w.state = .completed := by
  have hst := h.state
  rcases hs : w.state <;> rw [hs] at hst ht
  case cancelled => exact .inl rfl
  case completed => exact .inr rfl
  all_goals first
    | exact absurd hst (by decide)
    | exact absurd ht (by decide)

end Workload

namespace WorkloadEngine

variable {σ : Type} [StateStore σ]

/-! ### What calls can still bring about -/

/-- Some further calls bring the workload to this state. -/
def CanReach (e : WorkloadEngine σ) (id : WorkloadId) (s : WorkloadState) : Prop :=
  ∃ calls w, (e.run calls).get id = some w ∧ w.state = s

section CanReach

variable {e : WorkloadEngine σ} {id : WorkloadId} {w : Workload}

/-- One request on the way. -/
theorem CanReach.of_request {s : WorkloadState} (h : e.get id = some w) (r : Request)
    (hnext : ∀ (e' : WorkloadEngine σ) (w' : Workload) (o : Outcome), e'.get id = some w' →
      w.Step (r.operation e.episodeCounter w) o w' → CanReach e' id s) : CanReach e id s := by
  obtain ⟨w', hw', hs⟩ := step_on_step e h r
  obtain ⟨calls, w'', hw'', hst⟩ := hnext _ w' _ hw' hs
  exact ⟨.on id r :: calls, w'', hw'', hst⟩

variable (h : e.get id = some w) (hgov : w.Governed)

include h hgov

/-- A started workload can be cancelled. -/
theorem canReach_cancelled_of_started (ht : isTerminal w.state = false)
    (hw : Workload.awaitsStart w.state = false) : CanReach e id .cancelled :=
  .of_request h (.completeCancellation w.generation) fun _ w' _ hw' hs =>
    ⟨[], w', hw', (hs.cancelled_iff rfl hgov.state ht).2.mpr hw⟩

variable (hf : w.cancelledFinal = false)

include hf

theorem canReach_cancelled_of_ready (hw : w.state = .ready) : CanReach e id .cancelled := by
  refine .of_request h (.startEpisode {} {}) fun e' w' _ hw' hs => ?_
  have hst := hs.starting ⟨hf, by rw [hw]; rfl⟩
  exact canReach_cancelled_of_started hw' (hgov.step (Request.governs _ _ _) hs)
    (by rw [hst]; rfl) (by rw [hst]; rfl)

variable (hw : Workload.awaitsStart w.state = true)

include hw

/-- With both gates open the workload is settled, from CREATED after it was validated. -/
theorem canReach_cancelled_of_open (hopen : w.GatesOpen) : CanReach e id .cancelled := by
  have hsettle {e : WorkloadEngine σ} {w : Workload} (h : e.get id = some w) (hgov : w.Governed)
      (hf : w.cancelledFinal = false) (hopen : w.GatesOpen)
      (hw : Workload.awaitsStart w.state = true) (hne : w.state ≠ .created) :
      CanReach e id .cancelled := by
    refine .of_request h .settle fun e' w' _ hw' hs => ?_
    exact canReach_cancelled_of_ready hw' (hgov.step (Request.governs _ _ _) hs)
      ((hs.final_eq (by simp [Request.operation])).trans hf)
      (hs.settled hopen (Workload.before_of_awaits hw) hne)
  by_cases hc : w.state = .created
  · refine .of_request h .validate fun e' w' _ hw' hs => ?_
    have hst := hs.validated hc
    exact hsettle hw' (hgov.step (Request.governs _ _ _) hs)
      ((hs.final_eq (by simp [Request.operation])).trans hf)
      ((Workload.gatesOpen_congr hs.gates).mpr hopen) (by rw [hst]; rfl) (by rw [hst]; decide)
  · exact hsettle h hgov hf hopen hw hc

/-- A grant opens the second gate. -/
theorem canReach_cancelled_of_depsReady (hd : w.depsReady = true) : CanReach e id .cancelled := by
  refine .of_request h (.applyGrant w.contract.matchingGrant) fun e' w' _ hw' hs => ?_
  have hgov' := hgov.step (Request.governs _ _ _) hs
  cases hs with
  | rejected _ hn => exact absurd trivial hn
  | applyGrant =>
    exact canReach_cancelled_of_open hw' hgov' hf hw ⟨hd, w.contract.satisfied_matchingGrant⟩

end CanReach

/-- Reports open the first one, from the last dependency to the first: `k` of them are still
to be made. -/
theorem canReach_cancelled_of_met {id : WorkloadId} (k : ℕ) {e : WorkloadEngine σ}
    {w : Workload} (h : e.get id = some w) (hgov : w.Governed) (hf : w.cancelledFinal = false)
    (hw : Workload.awaitsStart w.state = true)
    (hlen : w.deps.states.length = w.deps.defs.length)
    (hmet : ∀ (i : ℕ) (d : DependencyDef), k ≤ i → w.deps.defs[i]? = some d →
      d.requirement = .required → ∃ st, w.deps.states[i]? = some st ∧ st.status = .satisfied) :
    CanReach e id .cancelled := by
  induction k generalizing e w with
  | zero =>
    exact canReach_cancelled_of_depsReady h hgov hf hw
      (DependencySet.ready_iff.mpr fun i d => hmet i d (Nat.zero_le i))
  | succ k ih =>
    rcases hst : w.deps.states[k]? with _ | st
    · -- there is no such dependency
      refine ih h hgov hf hw hlen fun i d hi hd => ?_
      have hk := List.getElem?_eq_none_iff.mp hst
      obtain ⟨hlt, -⟩ := List.getElem?_eq_some_iff.mp hd
      omega
    · refine .of_request h (.setDependencyStatus k .satisfied st.observedGeneration)
        fun e' w' _ hw' hs => ?_
      have hgov' := hgov.step (Request.governs _ _ _) hs
      obtain rfl := hs.reported hst
      refine ih hw' hgov' hf hw ((List.length_set ..).trans hlen) fun i d hi hd hr => ?_
      rcases Nat.eq_or_lt_of_le hi with rfl | hi
      · obtain ⟨hlt, -⟩ := List.getElem?_eq_some_iff.mp hst
        exact ⟨_, List.getElem?_set_self hlt, rfl⟩
      · obtain ⟨st', hst', hsat⟩ := hmet i d hi hd hr
        exact ⟨st', (List.getElem?_set_ne (Nat.ne_of_lt hi)).trans hst', hsat⟩

/-- What is stranded stays stranded. -/
theorem stranded_run {e : WorkloadEngine σ} {id : WorkloadId} {w : Workload}
    (h : e.get id = some w) (hw : w.Stranded) (calls : List EngineCall) :
    ∃ w', (e.run calls).get id = some w' ∧ w'.Stranded :=
  preserved_run (q := Workload.Stranded) (fun hq hs => hq.step (Request.governs _ _ _) hs)
    ⟨w, h, hw⟩ calls

/-- **How a workload of an engine can still end.**  After every run, some further calls
bring it to CANCELLED exactly if it is CANCELLED, or neither COMPLETED nor flagged as
finally cancelled; and some bring it to a terminal state exactly if it is CANCELLED or not
flagged. -/
theorem can_end_iff {store : Option σ} {calls : List EngineCall} {id : WorkloadId} {w : Workload}
    (h : ((ofStore store).run calls).get id = some w) :
    ((∃ more w', ((ofStore store).run (calls ++ more)).get id = some w' ∧
        w'.state = .cancelled) ↔
      w.state = .cancelled ∨ (w.state ≠ .completed ∧ w.cancelledFinal = false)) ∧
    ((∃ more w', ((ofStore store).run (calls ++ more)).get id = some w' ∧
        isTerminal w'.state = true) ↔
      w.state = .cancelled ∨ w.cancelledFinal = false) := by
  have hgov := governed_of_run h
  -- the flag alone strands the workload
  have hflag {more : List EngineCall} {w' : Workload}
      (hw' : ((ofStore store).run (calls ++ more)).get id = some w')
      (ht : isTerminal w'.state = true) (hne : w.state ≠ .cancelled) :
      w.cancelledFinal = false := by
    rw [Bool.eq_false_iff]
    intro hf
    obtain ⟨w'', hw'', hs⟩ := stranded_run h ⟨hf, (hgov.final hf).resolve_left hne⟩ more
    rw [← run_append, hw'] at hw''
    obtain rfl := Option.some.inj hw''
    rw [Workload.not_terminal_of_awaits hs.2] at ht
    exact Bool.false_ne_true ht
  have hcancelled : w.state = .cancelled ∨ (w.state ≠ .completed ∧ w.cancelledFinal = false) →
      CanReach ((ofStore store).run calls) id .cancelled := by
    rintro (hs | ⟨hne, hf⟩)
    · exact ⟨[], w, h, hs⟩
    by_cases hs : w.state = .cancelled
    · exact ⟨[], w, h, hs⟩
    have ht : isTerminal w.state = false := Bool.eq_false_iff.mpr fun ht =>
      (hgov.ended ht).elim hs hne
    rcases ha : Workload.awaitsStart w.state with _ | _
    · exact canReach_cancelled_of_started h hgov ht ha
    · have hlen := (reachable_of_run h).states_length
      refine canReach_cancelled_of_met w.deps.defs.length h hgov hf ha hlen fun i d hi hd => ?_
      rw [List.getElem?_eq_none hi] at hd
      exact absurd hd (by simp)
  simp only [CanReach, ← run_append] at hcancelled
  refine ⟨⟨?_, hcancelled⟩, ?_, ?_⟩
  · rintro ⟨more, w', hw', hs⟩
    by_cases hc : w.state = .cancelled
    · exact .inl hc
    refine .inr ⟨fun hdone => ?_, hflag hw' (by rw [hs]; rfl) hc⟩
    obtain ⟨w'', hw'', hst⟩ := preserved_run (q := fun w => w.state = .completed)
      (fun hq hs => (hs.terminal (by rw [hq]; rfl)).trans hq) ⟨w, h, hdone⟩ more
    rw [← run_append, hw'] at hw''
    obtain rfl := Option.some.inj hw''
    rw [hs] at hst
    exact absurd hst (by decide)
  · rintro ⟨more, w', hw', ht⟩
    exact or_iff_not_imp_left.mpr (hflag hw' ht)
  · intro hw
    by_cases hdone : w.state = .completed
    · exact ⟨[], w, by rwa [List.append_nil], by rw [hdone]; rfl⟩
    · obtain ⟨more, w', hw', hs⟩ := hcancelled (hw.imp_right fun hf => ⟨hdone, hf⟩)
      exact ⟨more, w', hw', by rw [hs]; rfl⟩

/-- A new workload, whose cancellation is completed. -/
def cancelFresh : List EngineCall :=
  [.create (.fromU64 1) (text "w") (text "job") {},
    .on (.fromU64 1) (.completeCancellation (.fromU64 1))]

/-- It never ends. -/
theorem can_end_iff_fresh :
    ¬∃ more w', ((ofStore (none : Option (MemoryStateStore .leftToRight))).run
      (cancelFresh ++ more)).get (.fromU64 1) = some w' ∧ isTerminal w'.state = true := by
  obtain ⟨w, h, hs, hf⟩ : ∃ w, ((ofStore (none : Option (MemoryStateStore .leftToRight))).run
      cancelFresh).get (.fromU64 1) = some w ∧ w.state ≠ .cancelled ∧
      w.cancelledFinal = true := ⟨_, rfl, by decide, by decide⟩
  rw [(can_end_iff h).2, hf]
  exact fun h => h.elim hs (by decide)

end WorkloadEngine

end WorkloadFabric
