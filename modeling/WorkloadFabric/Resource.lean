/-
Resource contracts and dependency sets: the two gates in front of execution.

A `double` is kept as its 64-bit pattern (`Double`) with the comparisons of
IEEE 754, so that the codec can carry it bit for bit.  `ResourceContract` and
`DependencySet` follow the classes of the same names.  What is asked for advances the
generation (requirements, definitions, `advanceGeneration`); what is answered does not
(grants, their release, and the statuses of dependencies).
-/
import WorkloadFabric.Identity

namespace WorkloadFabric

/-! ### Doubles -/

/-- A `double`, as its bit pattern. -/
structure Double where
  bits : UInt64 := 0
deriving DecidableEq

namespace Double

/-- `std::isfinite`: the exponent field is not all ones. -/
def isFinite (d : Double) : Bool := (d.bits >>> 52) &&& 0x7ff != 0x7ff

def isNaN (d : Double) : Bool := !d.isFinite && d.bits &&& 0xfffffffffffff != 0

/-- The position of a pattern in the order of the doubles that are not NaN:
sign and magnitude, with both zeros at `0`. -/
def rank (d : Double) : ℤ :=
  if d.bits.toNat < 2 ^ 63 then d.bits.toNat else -(d.bits.toNat - 2 ^ 63 : ℕ)

/-- `a < b` on doubles: false as soon as one of them is NaN. -/
def lt (a b : Double) : Bool := !a.isNaN && !b.isNaN && decide (a.rank < b.rank)

/-- `a == b` on doubles. -/
def eq (a b : Double) : Bool := !a.isNaN && !b.isNaN && decide (a.rank = b.rank)

end Double

/-! ### Resource contracts -/

inductive NeedLevel where
  | required
  | preferred
  | optional
  | prohibited
deriving DecidableEq, Repr

inductive ResourceKind where
  | acceleratorCount
  | acceleratorCapabilityClass
  | deviceMemory
  | hostMemory
  | pinnedMemory
  | cpuCapacity
  | storage
  | transferBandwidth
  | networkRequirement
  | modelResidency
  | localityConstraint
  | executionConcurrency
  | deadlineSloClass
  | maxRestartCount
  | maxRecoveryDuration
  | checkpointRequirement
  | migrationEligibility
deriving DecidableEq, Repr

def resourceKindName : ResourceKind → Text
  | .acceleratorCount => text "ACCELERATOR_COUNT"
  | .acceleratorCapabilityClass => text "ACCELERATOR_CAPABILITY_CLASS"
  | .deviceMemory => text "DEVICE_MEMORY"
  | .hostMemory => text "HOST_MEMORY"
  | .pinnedMemory => text "PINNED_MEMORY"
  | .cpuCapacity => text "CPU_CAPACITY"
  | .storage => text "STORAGE"
  | .transferBandwidth => text "TRANSFER_BANDWIDTH"
  | .networkRequirement => text "NETWORK_REQUIREMENT"
  | .modelResidency => text "MODEL_RESIDENCY"
  | .localityConstraint => text "LOCALITY_CONSTRAINT"
  | .executionConcurrency => text "EXECUTION_CONCURRENCY"
  | .deadlineSloClass => text "DEADLINE_SLO_CLASS"
  | .maxRestartCount => text "MAX_RESTART_COUNT"
  | .maxRecoveryDuration => text "MAX_RECOVERY_DURATION"
  | .checkpointRequirement => text "CHECKPOINT_REQUIREMENT"
  | .migrationEligibility => text "MIGRATION_ELIGIBILITY"

structure ResourceRequirement where
  kind : ResourceKind := .acceleratorCount
  level : NeedLevel := .required
  minValue : Double := {}
  maxValue : Double := {}
  spec : Text := []
deriving DecidableEq

/-- `ResourceRequirement::satisfies`; a `maxValue` of zero bounds nothing. -/
def ResourceRequirement.satisfies (r : ResourceRequirement) (v : Double) : Bool :=
  if r.level = .prohibited then v.eq {}
  else if v.lt r.minValue then false
  else if Double.lt {} r.maxValue && r.maxValue.lt v then false
  else true

inductive GrantStatus where
  | requested
  | granted
  | bound
  | released
  | stale
  | expired
deriving DecidableEq, Repr

structure ResourceBinding where
  kind : ResourceKind := .acceleratorCount
  amount : Double := {}
  qualifier : Text := []
deriving DecidableEq

structure ResourceGrant where
  contractId : ResourceContractId := {}
  contractGeneration : ResourceContractGeneration := {}
  status : GrantStatus := .requested
  bindings : List ResourceBinding := []
  released : Bool := false
deriving DecidableEq

structure ResourceContract where
  id : ResourceContractId := {}
  generation : ResourceContractGeneration := {}
  reqs : List ResourceRequirement := []
  grant : ResourceGrant := {}
deriving DecidableEq

namespace ResourceContract

/-- Add a requirement, unless the same dimension is already there. -/
def add (c : ResourceContract) (req : ResourceRequirement) : Outcome × ResourceContract :=
  let req := if req.level = .prohibited then { req with minValue := {}, maxValue := {} } else req
  if c.reqs.any fun existing => existing.kind == req.kind && existing.spec == req.spec then
    (.rejectImmutableContract, c)
  else
    (.allow, { c with reqs := c.reqs ++ [req], generation := next c.generation })

/-- A refused requirement leaves the contract as it was. -/
theorem add_refused {c : ResourceContract} {req : ResourceRequirement}
    (h : (c.add req).1 ≠ .allow) : (c.add req).2 = c := by
  revert h
  simp only [add]
  generalize (if req.level = .prohibited then { req with minValue := {}, maxValue := {} }
    else req) = r
  split
  · exact fun _ => rfl
  · exact fun h => absurd rfl h

/-- Replace all requirements at once.  The check on the levels always passes: there are
no others. -/
def setRequirements (c : ResourceContract) (reqs : List ResourceRequirement) :
    Outcome × ResourceContract :=
  if reqs.any fun r => r.level ≠ .required ∧ r.level ≠ .preferred ∧ r.level ≠ .optional ∧
      r.level ≠ .prohibited then
    (.rejectImmutableContract, c)
  else (.allow, { c with reqs := reqs, generation := next c.generation })

/-- Record a grant; one for another generation of the contract is stale. -/
def applyGrant (c : ResourceContract) (g : ResourceGrant) : Outcome × ResourceContract :=
  let status := if g.contractGeneration = c.generation then .granted else .stale
  (.allow, { c with grant := { g with status := status } })

def releaseGrant (c : ResourceContract) (expecting : ResourceContractGeneration) :
    Outcome × ResourceContract :=
  if expecting ≠ c.generation then (.rejectStaleResourceContract, c)
  else if c.grant.released then (.rejectResourceDoubleRelease, c)
  else (.allow, { c with grant := { c.grant with released := true, status := .released } })

def advanceGeneration (c : ResourceContract) (expecting : ResourceContractGeneration) :
    Outcome × ResourceContract :=
  if expecting ≠ c.generation then (.rejectStaleResourceContract, c)
  else (.allow, { c with generation := next c.generation })

/-- Some binding of the grant meets the requirement. -/
def covered (c : ResourceContract) (req : ResourceRequirement) : Bool :=
  c.grant.bindings.any fun b => b.kind == req.kind && req.satisfies b.amount

/-- Every REQUIRED requirement is met by the current grant and no PROHIBITED
one is bound. -/
def satisfied (c : ResourceContract) : Bool :=
  if c.grant.status ≠ .granted || c.grant.released then false
  else
    (c.reqs.all fun req => req.level != .required || c.covered req) &&
      c.reqs.all fun req => req.level != .prohibited ||
        c.grant.bindings.all fun b => !(b.kind == req.kind && Double.lt {} b.amount)

/-- The first REQUIRED requirement that the bindings do not meet; the status of the grant
is not looked at. -/
def firstUnsatisfiedRequired (c : ResourceContract) : Option ResourceRequirement :=
  c.reqs.find? fun req => req.level == .required && !c.covered req

end ResourceContract

/-! ### Dependencies -/

inductive DependencyRequirement where
  | required
  | optional
deriving DecidableEq, Repr

inductive DependencyReady where
  | completed
  | ready
  | artifactReady
deriving DecidableEq, Repr

structure DependencyDef where
  dependsOn : WorkloadId := {}
  requirement : DependencyRequirement := .required
  readyWhen : DependencyReady := .completed
  artifactKey : Text := []
deriving DecidableEq

inductive DependencyStatus where
  | pending
  | satisfied
  | failed
  | invalidated
  | stale
deriving DecidableEq, Repr

structure DependencyState where
  status : DependencyStatus := .pending
  observedGeneration : DependencyGeneration := {}
  detail : Text := []
deriving DecidableEq

structure DependencySet where
  id : DependencySetId := {}
  gen : DependencyGeneration := {}
  defs : List DependencyDef := []
  states : List DependencyState := []
deriving DecidableEq

namespace DependencySet

def define (s : DependencySet) (d : DependencyDef) : Outcome × DependencySet :=
  (.allow, { s with defs := s.defs ++ [d], states := s.states ++ [{}], gen := next s.gen })

def clear (s : DependencySet) : Outcome × DependencySet :=
  (.allow, { s with defs := [], states := [], gen := next s.gen })

/-- Record an observation of one dependency; an observation older than the one
already recorded is refused. -/
def setStatus (s : DependencySet) (index : ℕ) (status : DependencyStatus)
    (observed : DependencyGeneration) : Outcome × DependencySet :=
  match s.states[index]? with
  | none => (.rejectUnknownDependency, s)
  | some st =>
    if observed.toU64 < st.observedGeneration.toU64 then (.rejectStaleDependency, s)
    else
      (.allow, { s with
        states := s.states.set index
          { st with status := status, observedGeneration := observed } })

/-- A refused observation leaves the set as it was. -/
theorem setStatus_refused {s : DependencySet} {i : ℕ} {status : DependencyStatus}
    {observed : DependencyGeneration} (h : (s.setStatus i status observed).1 ≠ .allow) :
    (s.setStatus i status observed).2 = s := by
  revert h
  rw [setStatus]
  split
  · exact fun _ => rfl
  · split
    · exact fun _ => rfl
    · exact fun h => absurd rfl h

/-- Every REQUIRED dependency is SATISFIED. -/
def ready (s : DependencySet) : Bool :=
  (List.range s.defs.length).all fun i =>
    (s.defs.getD i {}).requirement != .required ||
      (s.states.getD i {}).status == .satisfied

/-- The first REQUIRED dependency that is not SATISFIED. -/
def firstUnmetRequired (s : DependencySet) : Option ℕ :=
  (List.range s.defs.length).find? fun i =>
    (s.defs.getD i {}).requirement == .required &&
      (s.states.getD i {}).status != .satisfied

/-- The gate is shut exactly when there is something to wait for. -/
theorem firstUnmetRequired_eq_none_iff {s : DependencySet} :
    s.firstUnmetRequired = none ↔ s.ready = true := by
  rw [firstUnmetRequired, ready, List.find?_eq_none, List.all_eq_true]
  refine forall₂_congr fun i _ => ?_
  simp only [bne]
  generalize ((s.defs.getD i {}).requirement == .required) = required
  generalize ((s.states.getD i {}).status == .satisfied) = met
  cases required <;> cases met <;> decide

theorem ready_iff {s : DependencySet} : s.ready = true ↔
    ∀ (i : ℕ) (d : DependencyDef), s.defs[i]? = some d → d.requirement = .required →
      ∃ st, s.states[i]? = some st ∧ st.status = .satisfied := by
  rw [ready, List.all_eq_true]
  constructor
  · intro h i d hd hr
    obtain ⟨hi, hd'⟩ := List.getElem?_eq_some_iff.mp hd
    have hs := h i (List.mem_range.mpr hi)
    rw [List.getD_eq_getElem?_getD, hd, Option.getD_some, hr] at hs
    rw [List.getD_eq_getElem?_getD] at hs
    rcases hst : s.states[i]? with _ | st
    · rw [hst] at hs
      exact absurd hs (by decide)
    · rw [hst] at hs
      exact ⟨st, rfl, by simpa using hs⟩
  · intro h i hi
    have hi := List.mem_range.mp hi
    have hd := List.getElem?_eq_getElem hi
    rw [List.getD_eq_getElem?_getD, hd, Option.getD_some]
    by_cases hr : s.defs[i].requirement = .required
    · obtain ⟨st, hst, hsat⟩ := h i _ hd hr
      rw [List.getD_eq_getElem?_getD, hst, Option.getD_some, hsat]
      simp
    · simp [hr]

end DependencySet

end WorkloadFabric
