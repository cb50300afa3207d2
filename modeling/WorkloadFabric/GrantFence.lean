/-
The fence between a grant and the contract it was given for.

A grant is compared with the generation of its contract once, when it arrives;
afterwards three operations advance the generation and none looks at the grant again.

* **`satisfied_fenced_iff`** — a contract is satisfied by grants for its current
  generation only, exactly as long as no generation advance happens over a grant that
  goes on covering the requirements;
* **`superseded_grant_satisfies`** — such an advance.
-/
import WorkloadFabric.Resource
import WorkloadFabric.Machine

namespace WorkloadFabric

/-- The mutations a contract can receive. -/
inductive ContractOp where
  | add (req : ResourceRequirement)
  | setRequirements (reqs : List ResourceRequirement)
  | applyGrant (grant : ResourceGrant)
  | releaseGrant (expecting : ResourceContractGeneration)
  | advanceGeneration (expecting : ResourceContractGeneration)
deriving DecidableEq

/-- The operation advances the generation when it is accepted. -/
def ContractOp.advances : ContractOp → Bool
  | .add _ | .setRequirements _ | .advanceGeneration _ => true
  | .applyGrant _ | .releaseGrant _ => false

/-- The bindings meet each REQUIRED requirement and bind nothing PROHIBITED. -/
def Covers (bindings : List ResourceBinding) (reqs : List ResourceRequirement) :
    Prop :=
  (∀ req ∈ reqs, req.level = .required →
    ∃ b ∈ bindings, b.kind = req.kind ∧ req.satisfies b.amount = true) ∧
  ∀ req ∈ reqs, req.level = .prohibited →
    ∀ b ∈ bindings, ¬(b.kind = req.kind ∧ Double.lt {} b.amount = true)

namespace ResourceContract

/-- One mutation of a contract. -/
def apply (c : ResourceContract) : ContractOp → Outcome × ResourceContract
  | .add req => c.add req
  | .setRequirements reqs => c.setRequirements reqs
  | .applyGrant grant => c.applyGrant grant
  | .releaseGrant expecting => c.releaseGrant expecting
  | .advanceGeneration expecting => c.advanceGeneration expecting

/-- A finite sequence of mutations. -/
def run (c : ResourceContract) (ops : List ContractOp) : ResourceContract :=
  ops.foldl (fun c op => (c.apply op).2) c

/-- The grant is held for execution. -/
def Held (g : ResourceGrant) : Prop := g.status = .granted ∧ g.released = false

/-- What `satisfied` asks for. -/
theorem satisfied_iff {c : ResourceContract} : c.satisfied = true ↔
    Held c.grant ∧ Covers c.grant.bindings c.reqs := by
  rw [satisfied, Held]
  by_cases hg : c.grant.status = .granted ∧ c.grant.released = false
  · have hn : ¬(c.grant.status ≠ .granted || c.grant.released) = true := by simp [hg.1, hg.2]
    rw [if_neg hn]
    simp only [covered, Bool.and_eq_true, List.all_eq_true, Bool.or_eq_true, bne_iff_ne,
      List.any_eq_true, beq_iff_eq, Bool.not_eq_true', Covers]
    constructor
    · rintro ⟨hreq, hproh⟩
      refine ⟨hg, fun req hr hl => (hreq req hr).resolve_left fun h => h hl, ?_⟩
      intro req hr hl b hb hbad
      have hb := ((hproh req hr).resolve_left fun h => h hl) b hb
      simp [hbad.1, hbad.2] at hb
    · rintro ⟨-, hreq, hproh⟩
      refine ⟨fun req hr => ?_, fun req hr => ?_⟩
      · by_cases hl : req.level = .required
        · exact .inr (hreq req hr hl)
        · exact .inl hl
      · by_cases hl : req.level = .prohibited
        · right
          intro b hb
          have := hproh req hr hl b hb
          simp only [Bool.and_eq_false_iff]
          rw [not_and_or] at this
          simpa using this
        · exact .inl hl
  · have hy : (c.grant.status ≠ .granted || c.grant.released) = true := by
      rw [not_and_or] at hg
      simpa using hg
    rw [if_pos hy]
    exact iff_of_false (by decide) fun h => hg h.1

/-! ### The generation and the grant -/

/-- An advance leaves the grant alone. -/
theorem apply_advancing (c : ResourceContract) {op : ContractOp} (h : op.advances = true) :
    ((c.apply op).1 = .allow ∧ (c.apply op).2.grant = c.grant ∧
        (c.apply op).2.generation = next c.generation) ∨
      ((c.apply op).1 ≠ .allow ∧ (c.apply op).2 = c) := by
  cases op with
  | add req =>
    simp only [apply, add]
    generalize (if req.level = .prohibited then { req with minValue := {}, maxValue := {} }
      else req) = r
    split
    · exact .inr ⟨by simp, rfl⟩
    · exact .inl ⟨rfl, rfl, rfl⟩
  | setRequirements reqs =>
    rw [apply, setRequirements]
    split
    · exact .inr ⟨by simp, rfl⟩
    · exact .inl ⟨rfl, rfl, rfl⟩
  | advanceGeneration expecting =>
    rw [apply, advanceGeneration]
    split
    · exact .inr ⟨by simp, rfl⟩
    · exact .inl ⟨rfl, rfl, rfl⟩
  | applyGrant => exact absurd h Bool.false_ne_true
  | releaseGrant => exact absurd h Bool.false_ne_true

/-- The contract is satisfied by a grant for its current generation only. -/
def Fenced (c : ResourceContract) : Prop :=
  c.satisfied = true → c.grant.contractGeneration = c.generation

/-- The operation advances the generation over a held grant that covers what is then
required, and was not given for the next generation. -/
def StrandsGrant (c : ResourceContract) (op : ContractOp) : Prop :=
  op.advances = true ∧ (c.apply op).1 = .allow ∧ Held c.grant ∧
    Covers c.grant.bindings (c.apply op).2.reqs ∧ c.grant.contractGeneration ≠ next c.generation

/-- **The operations that break the fence are those that strand a grant.** -/
theorem fenced_apply_iff {c : ResourceContract} (h : c.Fenced) (op : ContractOp) :
    (c.apply op).2.Fenced ↔ ¬c.StrandsGrant op := by
  by_cases hop : op.advances = true
  · rcases c.apply_advancing hop with ⟨ho, hgrant, hgen⟩ | ⟨ho, hc⟩
    · rw [Fenced, satisfied_iff, hgrant, hgen, StrandsGrant]
      constructor
      · rintro hf ⟨-, -, hheld, hcov, hne⟩
        exact hne (hf ⟨hheld, hcov⟩)
      · intro hn hsat
        by_contra hne
        exact hn ⟨hop, ho, hsat.1, hsat.2, hne⟩
    · rw [hc]
      exact iff_of_true h fun hs => ho hs.2.1
  · refine iff_of_true ?_ fun hs => hop hs.1
    cases op with
    | applyGrant grant =>
      -- a grant is held when it was given for this generation
      intro hsat
      have hheld := (satisfied_iff.mp hsat).1.1
      simp only [apply, applyGrant, ite_eq_left_iff, reduceCtorEq, imp_false, not_not] at hheld
      exact hheld
    | releaseGrant expecting =>
      simp only [apply, releaseGrant]
      split
      · exact h
      · split
        · exact h
        · exact fun hsat => absurd (satisfied_iff.mp hsat).1.2 (by simp)
    | add | setRequirements | advanceGeneration => exact absurd rfl hop

/-- **A grant is fenced by the generation of its contract** exactly as long as no
advance of the generation strands it: over every sequence of mutations of a new
contract, in every contract reached. -/
theorem satisfied_fenced_iff (id : ResourceContractId) (generation : ResourceContractGeneration)
    (ops : List ContractOp) :
    (∀ pre post, ops = pre ++ post →
      (({ id := id, generation := generation } : ResourceContract).run pre).satisfied = true →
        (({ id := id, generation := generation } : ResourceContract).run
            pre).grant.contractGeneration =
          (({ id := id, generation := generation } : ResourceContract).run pre).generation) ↔
      ∀ pre op post, ops = pre ++ op :: post →
        ¬(({ id := id, generation := generation } : ResourceContract).run pre).StrandsGrant op := by
  have hfresh : Fenced { id := id, generation := generation } :=
    fun hsat => absurd (satisfied_iff.mp hsat).1.1 (by simp)
  have hiff : (∀ pre post, ops = pre ++ post →
        Fenced (pre.foldl (fun c op => (c.apply op).2) { id := id, generation := generation })) ↔
      Machine.Along (fun c op => (apply c op).2) (fun c op => ¬c.StrandsGrant op)
        { id := id, generation := generation } ops :=
    Machine.always_iff_along (K := fun _ _ => True) (I := fun _ => True) (P := Fenced)
      (fun _ _ _ _ => trivial) (fun c op _ _ h => fenced_apply_iff h op) trivial hfresh
      (Machine.along_of_forall fun _ _ _ => trivial)
  exact hiff.trans Machine.along_iff

/-- A grant for the first generation satisfies the second. -/
theorem superseded_grant_satisfies :
    let c := ({ id := .fromU64 1, generation := .fromU64 1 } : ResourceContract).run
      [.applyGrant { contractId := .fromU64 1, contractGeneration := .fromU64 1 },
        .advanceGeneration (.fromU64 1)]
    c.satisfied = true ∧ c.grant.contractGeneration = .fromU64 1 ∧ c.generation = .fromU64 2 := by
  decide

end ResourceContract

end WorkloadFabric
