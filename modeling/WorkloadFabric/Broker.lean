/-
The reference broker and the contracts it is asked to satisfy.

`requestGrant` mirrors the required numeric dimensions: it binds each REQUIRED requirement
whose minimum is positive, with that minimum.  A contract asks for more, for a binding of
each REQUIRED requirement (`Covers`).

* **`requestGrant_satisfies_iff`** — the grant satisfies the contract it was requested for
  exactly if every REQUIRED requirement has a positive minimum;
* **`descriptive_requirement_unsatisfied`** — one that carries only a spec is not bound.
-/
import WorkloadFabric.GrantFence
import Mathlib.Data.List.Nodup

namespace WorkloadFabric

namespace Double

theorem lt_irrefl (a : Double) : a.lt a = false := by
  simp [lt]

/-- A zero is not above zero. -/
theorem not_pos_of_eq_zero {a : Double} (h : a.eq {} = true) : Double.lt {} a = false := by
  simp only [eq, Bool.and_eq_true, decide_eq_true_eq] at h
  simp [lt, h.2]

end Double

namespace ReferenceBroker

/-- The binding of a requirement, if it is a required numeric dimension. -/
def binding (r : ResourceRequirement) : Option ResourceBinding :=
  if r.level = .required ∧ Double.lt {} r.minValue = true then
    some { kind := r.kind, amount := r.minValue, qualifier := text "ref" }
  else none

/-- Mirror every required numeric dimension as a bound binding. -/
def requestGrant (contract : ResourceContract) : Option ResourceGrant :=
  some {
    contractId := contract.id
    contractGeneration := contract.generation
    status := .granted
    bindings := contract.reqs.filterMap binding
    released := false }

/-- The requirements can be met: no minimum is negative, no maximum that bounds anything is
below its minimum, and no kind is there twice. -/
structure Satisfiable (reqs : List ResourceRequirement) : Prop where
  minimum : ∀ r ∈ reqs, r.minValue.lt {} = false
  maximum : ∀ r ∈ reqs, r.maxValue.eq {} = true ∨ r.maxValue.lt r.minValue = false
  kinds : (reqs.map (·.kind)).Nodup

theorem mem_bindings_iff {reqs : List ResourceRequirement} {b : ResourceBinding} :
    b ∈ reqs.filterMap binding ↔ ∃ r ∈ reqs, r.level = .required ∧
      Double.lt {} r.minValue = true ∧ b = ⟨r.kind, r.minValue, text "ref"⟩ := by
  rw [List.mem_filterMap]
  refine exists_congr fun r => and_congr_right fun _ => ?_
  rw [binding, Option.ite_none_right_eq_some, Option.some_inj, and_assoc, eq_comm (b := b)]

/-- A minimum satisfies its own requirement. -/
theorem satisfies_minValue {reqs : List ResourceRequirement} (h : Satisfiable reqs)
    {r : ResourceRequirement} (hr : r ∈ reqs) (hl : r.level = .required) :
    r.satisfies r.minValue = true := by
  have hmax : (Double.lt {} r.maxValue && r.maxValue.lt r.minValue) = false := by
    rcases h.maximum r hr with hm | hm
    · rw [Double.not_pos_of_eq_zero hm, Bool.false_and]
    · rw [hm, Bool.and_false]
  rw [ResourceRequirement.satisfies, hl, if_neg (by decide), Double.lt_irrefl,
    if_neg Bool.false_ne_true, hmax, if_neg Bool.false_ne_true]

/-- **What the bindings cover**: all that is required, if each REQUIRED requirement has a
positive minimum. -/
theorem covers_bindings_iff {reqs : List ResourceRequirement} (h : Satisfiable reqs) :
    Covers (reqs.filterMap binding) reqs ↔
      ∀ r ∈ reqs, r.level = .required → Double.lt {} r.minValue = true := by
  -- a binding of this kind comes from the one requirement of this kind
  have hsame {r r' : ResourceRequirement} (hr : r ∈ reqs) (hr' : r' ∈ reqs)
      (hkind : r'.kind = r.kind) : r' = r := List.inj_on_of_nodup_map h.kinds hr' hr hkind
  constructor
  · rintro ⟨hreq, -⟩ r hr hl
    obtain ⟨b, hb, hkind, -⟩ := hreq r hr hl
    obtain ⟨r', hr', -, hpos, rfl⟩ := mem_bindings_iff.mp hb
    rwa [← hsame hr hr' hkind]
  · intro hpos
    refine ⟨fun r hr hl => ?_, fun r hr hl b hb hbad => ?_⟩
    · exact ⟨⟨r.kind, r.minValue, text "ref"⟩, mem_bindings_iff.mpr ⟨r, hr, hl, hpos r hr hl, rfl⟩,
        rfl, satisfies_minValue h hr hl⟩
    · obtain ⟨r', hr', hl', -, rfl⟩ := mem_bindings_iff.mp hb
      rw [hsame hr hr' hbad.1, hl] at hl'
      exact absurd hl' (by decide)

/-- **The broker's grant satisfies the contract exactly if every REQUIRED requirement has a
positive minimum.** -/
theorem requestGrant_satisfies_iff (c : ResourceContract) (h : Satisfiable c.reqs) :
    (∃ g, requestGrant c = some g ∧ (c.applyGrant g).2.satisfied = true) ↔
      ∀ r ∈ c.reqs, r.level = .required → Double.lt {} r.minValue = true := by
  rw [← covers_bindings_iff h]
  constructor
  · rintro ⟨g, hg, hsat⟩
    obtain rfl := Option.some.inj hg
    exact (ResourceContract.satisfied_iff.mp hsat).2
  · intro hcov
    refine ⟨_, rfl, ResourceContract.satisfied_iff.mpr ⟨⟨?_, rfl⟩, hcov⟩⟩
    exact if_pos rfl

/-- One to four accelerators and 64 to 128 units of memory are required and granted; the network is
prohibited, and not bound. -/
theorem requestGrant_satisfies_bounded :
    let c : ResourceContract := {
      id := .fromU64 1, generation := .fromU64 1
      reqs := [
        { kind := .acceleratorCount, minValue := ⟨0x3ff0000000000000⟩,
          maxValue := ⟨0x4010000000000000⟩ },
        { kind := .networkRequirement, level := .prohibited },
        { kind := .hostMemory, minValue := ⟨0x4050000000000000⟩,
          maxValue := ⟨0x4060000000000000⟩ }] }
    ∃ g, requestGrant c = some g ∧ (c.applyGrant g).2.satisfied = true :=
  (requestGrant_satisfies_iff _ ⟨by decide, by decide, by decide⟩).mpr (by decide)

/-- A required capability class is not bound, and the contract stays unsatisfied. -/
theorem descriptive_requirement_unsatisfied :
    ¬∀ c : ResourceContract, Satisfiable c.reqs →
      ∃ g, requestGrant c = some g ∧ (c.applyGrant g).2.satisfied = true := by
  intro h
  have hc : Satisfiable [{ kind := .acceleratorCapabilityClass, spec := text "sm90" }] :=
    ⟨by decide, by decide, by decide⟩
  obtain ⟨g, hg, hsat⟩ := h { id := .fromU64 1, generation := .fromU64 1, reqs := _ } hc
  obtain rfl := Option.some.inj hg
  exact absurd hsat (by decide)

end ReferenceBroker

end WorkloadFabric
