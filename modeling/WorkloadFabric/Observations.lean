/-
Observations of dependencies in any order.

A dependency state is a register whose stamp is the generation observed
(`DependencySet.setStatus_eq`), so the observations of a dependency leave the same state
in whatever order they come in, and those of different dependencies do not meet.

* **`observations_commute`** — any two orders of delivery end in the same set, and so in
  the same gate; along any run the generation observed of a dependency never gets smaller
  and there are as many states as definitions.
-/
import WorkloadFabric.LatestWrite
import WorkloadFabric.Reload

namespace WorkloadFabric

/-- One report about the dependency at `index`. -/
structure Observation where
  index : ℕ
  status : DependencyStatus
  generation : DependencyGeneration
deriving DecidableEq

/-- The state of a dependency, with what is reported of it. -/
def dependencyRegister :
    Register DependencyState (DependencyStatus × DependencyGeneration) ℕ where
  held st := st.observedGeneration.toU64.toNat
  stamp w := w.2.toU64.toNat
  put st w := { st with status := w.1, observedGeneration := w.2 }
  held_put _ _ := rfl
  put_put _ _ _ := rfl

namespace DependencySet

/-- The report is written to the register, if there is one. -/
theorem setStatus_eq (s : DependencySet) (i : ℕ) (status : DependencyStatus)
    (observed : DependencyGeneration) :
    (s.setStatus i status observed).2 =
      { s with states := dependencyRegister.writeAt s.states (i, status, observed) } := by
  rw [setStatus, Register.writeAt]
  rcases hi : s.states[i]? with _ | st
  · rw [List.modify_eq_self (List.getElem?_eq_none_iff.mp hi)]
  · have hmodify (f : DependencyState → DependencyState) :
        s.states.modify i f = s.states.set i (f st) := by
      rw [List.modify_eq_set_getElem?, hi]
      rfl
    rw [hmodify]
    simp only
    split
    · next h =>
      have hold : dependencyRegister.write st (status, observed) = st :=
        if_pos (UInt64.lt_iff_toNat_lt.mp h)
      rw [hold]
      obtain ⟨hlt, rfl⟩ := List.getElem?_eq_some_iff.mp hi
      rw [List.set_getElem_self hlt]
    · next h =>
      have hnew : dependencyRegister.write st (status, observed) =
          { st with status := status, observedGeneration := observed } :=
        if_neg fun hlt => h (UInt64.lt_iff_toNat_lt.mpr hlt)
      rw [hnew]

/-! ### Orders of delivery -/

/-- The set after one report. -/
def observe (s : DependencySet) (o : Observation) : DependencySet :=
  (s.setStatus o.index o.status o.generation).2

/-- The set after the reports, in the order of their delivery. -/
def observeAll (s : DependencySet) (os : List Observation) : DependencySet := os.foldl observe s

end DependencySet

/-- The report as a write. -/
def Observation.write (o : Observation) : ℕ × DependencyStatus × DependencyGeneration :=
  (o.index, o.status, o.generation)

namespace DependencySet

variable {s : DependencySet}

theorem observeAll_eq (s : DependencySet) (os : List Observation) :
    s.observeAll os =
      { s with states := (os.map Observation.write).foldl dependencyRegister.writeAt s.states } := by
  induction os generalizing s with
  | nil => rfl
  | cons o os ih =>
    rw [observeAll, List.foldl_cons, ← observeAll, ih, observe, setStatus_eq]
    rfl

/-- No two reports of one dependency tell of the same generation. -/
def Distinct (os : List Observation) : Prop :=
  os.Pairwise fun o o' => o.index = o'.index → o.generation ≠ o'.generation

theorem observeAll_perm {os os' : List Observation} (hperm : os.Perm os') (h : Distinct os) :
    s.observeAll os' = s.observeAll os := by
  rw [observeAll_eq, observeAll_eq,
    ← dependencyRegister.foldl_writeAt_perm (hperm.map Observation.write)]
  refine List.pairwise_map.mpr (h.imp fun hne hindex heq => hne hindex ?_)
  exact UniqueValue.ext_toU64 (UInt64.toNat_inj.mp heq)

/-- The dependency at `i` is as `o` reports it, and nothing else has changed. -/
structure Settles (s s' : DependencySet) (i : ℕ) (o : Observation) : Prop where
  status : (s'.states[i]?).map (·.status) = some o.status
  generation : (s'.states[i]?).map (·.observedGeneration) = some o.generation
  others : ∀ j, j ≠ i → s'.states[j]? = s.states[j]?
  defs : s'.defs = s.defs

/-- What is left of the reports about one dependency is the one of the largest
generation. -/
theorem observeAll_settles {i : ℕ} {st : DependencyState} (hi : s.states[i]? = some st)
    {os : List Observation} (hindex : ∀ o ∈ os, o.index = i) (h : Distinct os) {o : Observation}
    (ho : o ∈ os) (hfresh : st.observedGeneration.toU64 ≤ o.generation.toU64)
    (hlast : ∀ o' ∈ os, o'.generation.toU64 ≤ o.generation.toU64) :
    s.Settles (s.observeAll os) i o := by
  have hstates (j : ℕ) : (s.observeAll os).states[j]? = s.states[j]?.map
      ((Register.writesTo j (os.map Observation.write)).foldl dependencyRegister.write) := by
    rw [observeAll_eq]
    exact dependencyRegister.getElem?_foldl_writeAt s.states _ j
  have hhere : Register.writesTo i (os.map Observation.write) =
      os.map fun o => (o.status, o.generation) := by
    rw [Register.writesTo, List.filter_eq_self.mpr, List.map_map]
    · rfl
    · intro a ha
      obtain ⟨o, ho, rfl⟩ := List.mem_map.mp ha
      exact decide_eq_true (hindex o ho)
  have hput : (s.observeAll os).states[i]? =
      some { st with status := o.status, observedGeneration := o.generation } := by
    rw [hstates, hhere, hi, Option.map_some]
    refine congrArg some (dependencyRegister.foldl_latest (List.mem_map_of_mem ho) ?_ ?_
      (UInt64.le_iff_toNat_le.mp hfresh))
    · refine List.pairwise_map.mpr (List.Pairwise.imp_of_mem (fun ho ho' hne heq => ?_) h)
      exact hne ((hindex _ ho).trans (hindex _ ho').symm)
        (UniqueValue.ext_toU64 (UInt64.toNat_inj.mp heq))
    · intro w hw
      obtain ⟨o', ho', rfl⟩ := List.mem_map.mp hw
      exact UInt64.le_iff_toNat_le.mp (hlast o' ho')
  refine ⟨by rw [hput]; rfl, by rw [hput]; rfl, fun j hj => ?_, by rw [observeAll_eq]⟩
  have hnone : Register.writesTo j (os.map Observation.write) = [] := by
    rw [Register.writesTo, List.filter_eq_nil_iff.mpr, List.map_nil]
    intro a ha
    obtain ⟨o, ho, rfl⟩ := List.mem_map.mp ha
    exact fun h => hj ((of_decide_eq_true h).symm.trans (hindex o ho))
  rw [hstates, hnone]
  exact Option.map_id'

/-! ### Runs -/

/-- The mutations of a dependency set. -/
inductive Mutation where
  | define (d : DependencyDef)
  | setStatus (o : Observation)
  | clear

/-- The set after one mutation. -/
def mutate (s : DependencySet) : Mutation → DependencySet
  | .define d => (s.define d).2
  | .setStatus o => s.observe o
  | .clear => s.clear.2

/-- There are as many states as definitions: the gate looks nothing up that is not
there. -/
def Paired (s : DependencySet) : Prop := s.states.length = s.defs.length

/-- The dependencies of `s` are still there, and none was observed at an earlier
generation since. -/
def NoOlder (s s' : DependencySet) : Prop :=
  ∀ (i : ℕ) (st : DependencyState), s.states[i]? = some st →
    ∃ st', s'.states[i]? = some st' ∧
      st.observedGeneration.toU64 ≤ st'.observedGeneration.toU64

theorem NoOlder.refl (s : DependencySet) : NoOlder s s := fun _ st hi => ⟨st, hi, UInt64.le_refl _⟩

theorem NoOlder.trans {s s' s'' : DependencySet} (h : NoOlder s s') (h' : NoOlder s' s'') :
    NoOlder s s'' := by
  intro i st hi
  obtain ⟨st', hi', hle⟩ := h i st hi
  obtain ⟨st'', hi'', hle'⟩ := h' i st' hi'
  exact ⟨st'', hi'', UInt64.le_trans hle hle'⟩

theorem noOlder_define (s : DependencySet) (d : DependencyDef) : NoOlder s (s.define d).2 := by
  intro i st hi
  refine ⟨st, ?_, UInt64.le_refl _⟩
  have hlt : i < s.states.length := (List.getElem?_eq_some_iff.mp hi).1
  exact (List.getElem?_append_left hlt).trans hi

theorem noOlder_setStatus (s : DependencySet) (i : ℕ) (status : DependencyStatus)
    (observed : DependencyGeneration) : NoOlder s (s.setStatus i status observed).2 := by
  intro j st hj
  rw [setStatus_eq]
  refine ⟨(Register.writesTo j [(i, status, observed)]).foldl dependencyRegister.write st, ?_,
    UInt64.le_iff_toNat_le.mpr (dependencyRegister.held_le_foldl st _)⟩
  exact (dependencyRegister.getElem?_foldl_writeAt s.states [(i, status, observed)] j).trans
    (by rw [hj]; rfl)

theorem Paired.mutate (h : Paired s) (m : Mutation) : Paired (s.mutate m) := by
  cases m with
  | define d =>
    show (s.states ++ [({} : DependencyState)]).length = (s.defs ++ [d]).length
    rw [List.length_append, List.length_append, h]
    rfl
  | setStatus o =>
    rw [DependencySet.mutate, observe, setStatus_eq, Paired]
    exact (List.length_modify ..).trans h
  | clear => rfl

theorem NoOlder.mutate (s : DependencySet) {m : Mutation} (h : m ≠ .clear) :
    NoOlder s (s.mutate m) := by
  cases m with
  | define d => exact s.noOlder_define d
  | setStatus o => exact s.noOlder_setStatus o.index o.status o.generation
  | clear => exact absurd rfl h

end DependencySet

/-- A step keeps the dependencies and what was observed of them. -/
theorem Workload.Step.noOlder {w w' : Workload} {op : WorkloadOp} {o : Outcome}
    (h : Step w op o w') : w.deps.NoOlder w'.deps := by
  rcases h.deps_cases with hd | ⟨d, hd⟩ | ⟨i, status, observed, hd⟩
  · rw [hd]
    exact .refl _
  · rw [hd]
    exact w.deps.noOlder_define d
  · rw [hd]
    exact w.deps.noOlder_setStatus i status observed

namespace DependencySet

open WorkloadEngine

/-- **Observations commute.**  The reports about one dependency leave it as the one of the
largest generation has it, in whatever order they are delivered; so do reports about
several dependencies at once, and the gate is the same.  In no run is a dependency
observed at an earlier generation than before, and there is always a state for each
definition. -/
theorem observations_commute {σ : Type} [StateStore σ] :
    (∀ (s : DependencySet) (i : ℕ) (st : DependencyState) (os os' : List Observation),
      s.states[i]? = some st → (∀ o ∈ os, o.index = i) → Distinct os →
      (∀ o ∈ os, st.observedGeneration.toU64 ≤ o.generation.toU64) → os.Perm os' →
      s.observeAll os' = s.observeAll os ∧
        ∀ o ∈ os, (∀ o' ∈ os, o'.generation.toU64 ≤ o.generation.toU64) →
          s.Settles (s.observeAll os') i o) ∧
    (∀ (s : DependencySet) (os os' : List Observation), Distinct os → os.Perm os' →
      (s.observeAll os').states = (s.observeAll os).states ∧
        (s.observeAll os').ready = (s.observeAll os).ready ∧
        (s.observeAll os').firstUnmetRequired = (s.observeAll os).firstUnmetRequired) ∧
    (∀ (id : DependencySetId) (gen : DependencyGeneration) (pre mid : List Mutation),
      let s := pre.foldl mutate { id := id, gen := gen }
      s.Paired ∧ (.clear ∉ mid → s.NoOlder (mid.foldl mutate s))) ∧
    ∀ (store : Option σ) (id : WorkloadId) (pre mid : List EngineCall) (w w' : Workload),
      ((ofStore store).run pre).get id = some w →
      ((ofStore store).run (pre ++ mid)).get id = some w' →
      w.deps.Paired ∧ w.deps.NoOlder w'.deps := by
  refine ⟨?_, ?_, ?_, ?_⟩
  · intro s i st os os' hi hindex hdistinct hfresh hperm
    have heq : s.observeAll os' = s.observeAll os := observeAll_perm hperm hdistinct
    refine ⟨heq, fun o ho hlast => ?_⟩
    rw [heq]
    exact observeAll_settles hi hindex hdistinct ho (hfresh o ho) hlast
  · intro s os os' hdistinct hperm
    rw [observeAll_perm hperm hdistinct]
    exact ⟨rfl, rfl, rfl⟩
  · intro id gen pre mid
    have hfresh : Paired { id := id, gen := gen } := rfl
    constructor
    · exact Machine.invariant_run (I := Paired) (K := fun _ _ => True)
        (fun s m _ hs => Paired.mutate hs m) hfresh (Machine.along_of_forall fun _ _ _ => trivial)
    · intro hmid
      have hgood : Machine.Along mutate (fun s m => s.NoOlder (s.mutate m))
          (pre.foldl mutate { id := id, gen := gen }) mid :=
        Machine.along_of_forall fun s m hm => NoOlder.mutate s fun h => hmid (h ▸ hm)
      exact (Machine.kept_iff_along NoOlder.refl NoOlder.trans fun _ _ => Iff.rfl).mpr hgood
        [] mid [] (by simp)
  · intro store id pre mid w w' hw hw'
    refine ⟨(reachable_of_run hw).states_length, ?_⟩
    have hkeep {op : WorkloadOp} {o : Outcome} {w w' : Workload} (hs : w.Step op o w') :
        w.deps.NoOlder w'.deps ↔ (fun _ _ => True) w op := iff_of_true hs.noOlder trivial
    have hall := kept_iff_performing (K := fun w w' => w.deps.NoOlder w'.deps)
      (fun w => .refl w.deps) NoOlder.trans hkeep (ofStore store) id (pre ++ mid)
    exact hall.mpr (fun _ _ _ _ _ _ => trivial) pre mid [] w w' (List.append_nil _).symm hw hw'

/-- One dependency, of which two observers report in either order. -/
theorem observations_commute_swapped :
    let s : DependencySet := { defs := [{}], states := [{}] }
    let early : Observation := ⟨0, .satisfied, .fromU64 1⟩
    let late : Observation := ⟨0, .failed, .fromU64 2⟩
    (s.observeAll [late, early]).ready = (s.observeAll [early, late]).ready ∧
      s.Settles (s.observeAll [late, early]) 0 late := by
  intro s early late
  obtain ⟨hone, hall, -⟩ := observations_commute (σ := MemoryStateStore .leftToRight)
  have hdistinct : Distinct [early, late] :=
    List.pairwise_pair.mpr fun _ h => absurd h (by decide)
  have hperm : [early, late].Perm [late, early] := .swap late early []
  refine ⟨(hall s _ _ hdistinct hperm).2.1, ?_⟩
  exact (hone s 0 {} _ _ rfl (by decide) hdistinct (by decide) hperm).2 late (by decide) (by decide)

end DependencySet

end WorkloadFabric
