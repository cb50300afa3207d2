/-
Opening the gates of a workload, in whatever order.

Before its start a workload hears about its dependencies, is given requirements and
grants, and is validated and settled now and then.  The news come from hosts that know
nothing of each other, so nobody orders them.

* **`admission_order_free`** — the reports on the dependencies may come in any order,
  before or after the edits of the contract and with anything in between but a start or
  a new dependency: the next `settle` leaves the workload in one and the same state, and
  it is the state that its gates call for.

A dependency that is added between the reports is not free of the order: the report on it
is refused before, and opens the gate behind.

There is one thing to see to: a fresh workload has to be validated on the way, for
there is no edge from CREATED to READY.
-/
import WorkloadFabric.Endings
import WorkloadFabric.Observations

namespace WorkloadFabric

/-! ### News -/

namespace Request

/-- The report that the request delivers. -/
def observation : Request → Option Observation
  | .setDependencyStatus i status observed => some ⟨i, status, observed⟩
  | _ => none

/-- The request edits the contract. -/
def editsContract : Request → Bool
  | .addResourceRequirement _ | .applyGrant _ => true
  | _ => false

/-- The request neither starts the workload nor makes it depend on more. -/
def prepares : Request → Bool
  | .startEpisode _ _ | .addDependency _ => false
  | _ => true

end Request

/-- The contract after a request. -/
def ResourceContract.edited (c : ResourceContract) : Request → ResourceContract
  | .addResourceRequirement req => (c.add req).2
  | .applyGrant grant => (c.applyGrant grant).2
  | _ => c

/-- The same reports, in any order, and the same edits; all else may differ. -/
structure SameNews (rs rs' : List Request) : Prop where
  prepares : ∀ r ∈ rs, r.prepares = true
  prepares' : ∀ r ∈ rs', r.prepares = true
  edits : rs'.filter (·.editsContract) = rs.filter (·.editsContract)
  reports : (rs.filterMap (·.observation)).Perm (rs'.filterMap (·.observation))
  /-- no two reports on one dependency claim the same generation -/
  distinct : DependencySet.Distinct (rs.filterMap (·.observation))

namespace Workload

/-! ### Before the start -/

theorem not_created_of_moves {w : Workload} {op : WorkloadOp} {s : WorkloadState}
    (hop : Governs op) (h : w.Moves op s) : s ≠ .created := by
  cases op with
  | transition =>
    obtain rfl : _ = WorkloadState.validating := hop
    rw [h.1]
    decide
  | settle =>
    rcases w.settleTarget_cases with ht | ⟨ht, -⟩
    · obtain rfl := Option.some.inj (ht.symm.trans h.1)
      rw [gateTarget]
      cases w.depsReady <;> cases w.contractSatisfied <;> decide
    · exact absurd (ht.symm.trans h.1) (by simp)
  | finalize => exact hop.elim
  | startEpisode | admitDispatch | commitCompletion | requestCancellationWorkloadScope
  | completeCancellation | onWorkerLost | planRestart | requestSuspend | completeSuspend
  | requestResume | requestMigration | commitMigration =>
    rw [h.1]
    decide
  | _ => exact h.elim

/-- What the news have made of a workload. -/
structure Prepared (w : Workload) (rs : List Request) (w' : Workload) : Prop where
  awaits : awaitsStart w'.state = true
  fresh : w'.state = .created → w.state = .created ∧ .validate ∉ rs
  deps : w'.deps = w.deps.observeAll (rs.filterMap (·.observation))
  contract : w'.contract = (rs.filter (·.editsContract)).foldl .edited w.contract

theorem Prepared.step {w w' w'' : Workload} {rs : List Request} {r : Request} {counter : UInt64}
    {o : Outcome} (h : Prepared w rs w') (hs : Step w' (r.operation counter w') o w'')
    (hr : r.prepares = true) : Prepared w (rs ++ [r]) w'' := by
  have hgates := hs.gates
  rw [Prod.mk.injEq] at hgates
  refine ⟨?_, fun hcreated => ?_, ?_, ?_⟩
  · rcases hs.state_cases with hst | ⟨-, hm⟩
    · rw [hst]
      exact h.awaits
    · refine awaits_of_moves_of_not_start (r.governs counter w') h.awaits hm fun _ _ _ _ hop => ?_
      cases r with
      | startEpisode => exact Bool.false_ne_true hr
      | _ => exact WorkloadOp.noConfusion hop
  · rcases hs.state_cases with hst | ⟨-, hm⟩
    · rw [hst] at hcreated
      obtain ⟨hfresh, hmem⟩ := h.fresh hcreated
      refine ⟨hfresh, fun hval => ?_⟩
      rcases List.mem_append.mp hval with hval | hval
      · exact hmem hval
      · -- a validation would have gone through
        obtain rfl := List.mem_singleton.mp hval
        have hvalidating := Step.validated hs hcreated
        rw [hst, hcreated] at hvalidating
        exact absurd hvalidating (by decide)
    · exact absurd hcreated (not_created_of_moves (r.governs counter w') hm)
  · rw [hgates.1, List.filterMap_append, DependencySet.observeAll, List.foldl_append]
    cases r with
    | setDependencyStatus i status observed =>
      exact congrArg (fun s : DependencySet => (s.setStatus i status observed).2) h.deps
    | addDependency => exact absurd hr Bool.false_ne_true
    | _ => exact h.deps
  · rw [hgates.2, List.filter_append, List.foldl_append]
    cases r with
    | addResourceRequirement req =>
      exact congrArg (fun c : ResourceContract => (c.add req).2) h.contract
    | applyGrant grant =>
      exact congrArg (fun c : ResourceContract => (c.applyGrant grant).2) h.contract
    | _ => exact h.contract

/-- A settled workload is where its gates call for. -/
theorem Prepared.settled {w w' w'' : Workload} {rs : List Request} {o : Outcome}
    (h : Prepared w rs w') (hs : Step w' (.settle w'.generation) o w'')
    (hv : w.state = .created → .validate ∈ rs) :
    w''.state = w''.gateTarget ∧ w''.deps = w'.deps ∧ w''.contract = w'.contract := by
  have hgates := hs.gates
  rw [Prod.mk.injEq] at hgates
  have ha : w'.Admits w'.gateTarget := by
    refine admits_gateTarget_iff.mpr (.inl ⟨before_of_awaits h.awaits, fun hc => ?_⟩)
    obtain ⟨hcreated, hmem⟩ := h.fresh hc.1
    exact hmem (hv hcreated)
  refine ⟨?_, hgates.1, hgates.2⟩
  rw [hs.settles ha, gateTarget, gateTarget, depsReady, depsReady, contractSatisfied,
    contractSatisfied, hgates.1, hgates.2]
  rfl

end Workload

open Workload

namespace WorkloadEngine

variable {σ : Type} [StateStore σ]

/-- News and a settlement. -/
theorem prepared_settled {e : WorkloadEngine σ} {id : WorkloadId} {w : Workload}
    (h : e.get id = some w) (hw : awaitsStart w.state = true) {news : List EngineCall}
    (hnews : ∀ r ∈ news.filterMap (·.requestOn id), r.prepares = true)
    (hv : w.state = .created → .validate ∈ news.filterMap (·.requestOn id)) :
    ∃ v, (e.run (news ++ [.on id .settle])).get id = some v ∧ v.state = v.gateTarget ∧
      v.deps = w.deps.observeAll
        ((news.filterMap (·.requestOn id)).filterMap (·.observation)) ∧
      v.contract = ((news.filterMap (·.requestOn id)).filter (·.editsContract)).foldl .edited
        w.contract := by
  have hnil : Prepared w [] w := ⟨hw, fun hc => ⟨hc, List.not_mem_nil⟩, rfl, rfl⟩
  obtain ⟨w', hw', hprepared⟩ := run_requests (P := Prepared w) h hnil
    fun hr hp hs => hp.step hs (hnews _ hr)
  obtain ⟨v, hget, hs⟩ := (e.run news).step_on_step hw' .settle
  obtain ⟨hstate, hdeps, hcontract⟩ := hprepared.settled hs hv
  exact ⟨v, by rw [run_append_singleton]; exact hget, hstate, hdeps.trans hprepared.deps,
    hcontract.trans hprepared.contract⟩

/-- **The order of the news does not matter**, after every run: reports on the dependencies in any
order, between edits of the contract in their order, among calls of any kind but a start or a new
dependency, leave a workload with the same gates, and the next `settle` leaves it in the state
these call for. -/
theorem admission_order_free {store : Option σ} {calls news news' : List EngineCall}
    {id : WorkloadId} {w : Workload} (h : ((ofStore store).run calls).get id = some w)
    (hw : awaitsStart w.state = true)
    (hv : w.state = .created → .validate ∈ news.filterMap (·.requestOn id) ∧
      .validate ∈ news'.filterMap (·.requestOn id))
    (hnews : SameNews (news.filterMap (·.requestOn id)) (news'.filterMap (·.requestOn id))) :
    ∃ v v', ((ofStore store).run (calls ++ (news ++ [.on id .settle]))).get id = some v ∧
      ((ofStore store).run (calls ++ (news' ++ [.on id .settle]))).get id = some v' ∧
      v'.deps = v.deps ∧ v'.contract = v.contract ∧ v'.state = v.state ∧
      v.EndsAtGates v.state := by
  obtain ⟨v, hget, hstate, hdeps, hcontract⟩ :=
    prepared_settled h hw hnews.prepares fun hc => (hv hc).1
  obtain ⟨v', hget', hstate', hdeps', hcontract'⟩ :=
    prepared_settled h hw hnews.prepares' fun hc => (hv hc).2
  rw [DependencySet.observeAll_perm hnews.reports hnews.distinct, ← hdeps] at hdeps'
  rw [hnews.edits, ← hcontract] at hcontract'
  have hgates : v'.gateTarget = v.gateTarget := by
    rw [gateTarget, gateTarget, depsReady, depsReady, contractSatisfied, contractSatisfied, hdeps',
      hcontract']
  refine ⟨v, v', by rw [run_append]; exact hget, by rw [run_append]; exact hget', hdeps',
    hcontract', hstate'.trans (hgates.trans hstate.symm), ?_⟩
  rw [hstate]
  exact v.endsAtGates_gateTarget

/-- A workload that depends on two others. -/
def dependOnTwo : List EngineCall :=
  [.create (.fromU64 1) (text "w") (text "job") {}, .on (.fromU64 1) (.addDependency {}),
    .on (.fromU64 1) (.addDependency {})]

/-- The grant comes first, or last, and the reports come in either order. -/
theorem admission_order_free_swapped :
    ∃ v v', ((ofStore (none : Option (MemoryStateStore .leftToRight))).run (dependOnTwo ++
        ([.on (.fromU64 1) (.applyGrant {}), .on (.fromU64 1) .settle,
          .on (.fromU64 1) (.setDependencyStatus 0 .satisfied (.fromU64 1)),
          .on (.fromU64 1) .validate,
          .on (.fromU64 1) (.setDependencyStatus 1 .satisfied (.fromU64 1))] ++
        [.on (.fromU64 1) .settle]))).get (.fromU64 1) = some v ∧
      ((ofStore (none : Option (MemoryStateStore .leftToRight))).run (dependOnTwo ++
        ([.on (.fromU64 1) .validate,
          .on (.fromU64 1) (.setDependencyStatus 1 .satisfied (.fromU64 1)),
          .on (.fromU64 1) (.setDependencyStatus 0 .satisfied (.fromU64 1)),
          .on (.fromU64 1) (.applyGrant {})] ++
        [.on (.fromU64 1) .settle]))).get (.fromU64 1) = some v' ∧
      v'.deps = v.deps ∧ v'.contract = v.contract ∧ v'.state = v.state ∧
      v.EndsAtGates v.state := by
  obtain ⟨w, h, hw⟩ : ∃ w, ((ofStore (none : Option (MemoryStateStore .leftToRight))).run
      dependOnTwo).get (.fromU64 1) = some w ∧ awaitsStart w.state = true := ⟨_, rfl, rfl⟩
  refine admission_order_free h hw (fun _ => ⟨by decide, by decide⟩)
    ⟨by decide, by decide, rfl, ?_, ?_⟩
  · exact .swap _ _ []
  · exact List.pairwise_pair.mpr fun h => absurd h (by decide)

end WorkloadEngine

end WorkloadFabric
