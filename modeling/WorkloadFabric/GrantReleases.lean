/-
Releases of a grant, and the grants they release.

A release is accepted under the current generation, as long as the grant is not marked
released; then the mark is set.  Only another grant clears it, so two accepted releases
have a grant between them.  But a new contract carries a grant that nobody gave, and it
is not marked.

* **`releases_matched_iff`** — each accepted release of a run can be matched with a grant
  of its own before it, exactly if no release under the current generation comes before
  the first grant;
* **`release_before_grant_accepted`** — one that does is accepted.
-/
import WorkloadFabric.GrantFence
import Mathlib.Data.Set.Function

namespace WorkloadFabric

namespace ResourceContract

/-! ### What one operation does to the mark -/

theorem releaseGrant_allow_iff {c : ResourceContract} {g : ResourceContractGeneration} :
    (c.releaseGrant g).1 = .allow ↔ g = c.generation ∧ c.grant.released = false := by
  rw [releaseGrant]
  by_cases hg : g = c.generation
  · rw [if_neg (not_not.mpr hg)]
    cases hr : c.grant.released <;> simp [hg]
  · rw [if_pos hg]
    simp [hg]

/-- An accepted release marks the grant. -/
theorem released_releaseGrant {c : ResourceContract} {g : ResourceContractGeneration}
    (h : (c.releaseGrant g).1 = .allow) : (c.releaseGrant g).2.grant.released = true := by
  obtain ⟨rfl, hr⟩ := releaseGrant_allow_iff.mp h
  simp [releaseGrant, hr]

/-- A refused release changes nothing. -/
theorem releaseGrant_refused {c : ResourceContract} {g : ResourceContractGeneration}
    (h : (c.releaseGrant g).1 ≠ .allow) : (c.releaseGrant g).2 = c := by
  rw [Ne, releaseGrant_allow_iff] at h
  rw [releaseGrant]
  split
  · rfl
  · split
    · rfl
    case isFalse hgen hr => exact absurd ⟨not_not.mp hgen, by simpa using hr⟩ h

/-- **Only grants and accepted releases touch the mark.** -/
theorem released_apply {c : ResourceContract} {op : ContractOp}
    (hgrant : ∀ grant, op ≠ .applyGrant grant)
    (hrelease : ∀ g, op = .releaseGrant g → (c.releaseGrant g).1 ≠ .allow) :
    (c.apply op).2.grant.released = c.grant.released := by
  have hadvance (h : op.advances = true) :
      (c.apply op).2.grant.released = c.grant.released := by
    rcases c.apply_advancing h with ⟨-, hsame, -⟩ | ⟨-, hsame⟩
    · rw [hsame]
    · rw [hsame]
  cases op with
  | applyGrant grant => exact absurd rfl (hgrant grant)
  | releaseGrant g => rw [apply, releaseGrant_refused (hrelease g rfl)]
  | add | setRequirements | advanceGeneration => exact hadvance rfl

/-- **When the grant is unmarked**: it was given so, or nothing has been done to it. -/
theorem unreleased_apply_cases {c : ResourceContract} {op : ContractOp}
    (h : (c.apply op).2.grant.released = false) :
    (∃ grant, op = .applyGrant grant ∧ grant.released = false) ∨
      (c.grant.released = false ∧ (∀ grant, op ≠ .applyGrant grant) ∧
        ∀ g, op = .releaseGrant g → (c.releaseGrant g).1 ≠ .allow) := by
  by_cases hgrant : ∃ grant, op = .applyGrant grant
  · obtain ⟨grant, rfl⟩ := hgrant
    exact .inl ⟨grant, rfl, h⟩
  · rw [not_exists] at hgrant
    have hrelease (g : ResourceContractGeneration) (hop : op = .releaseGrant g) :
        (c.releaseGrant g).1 ≠ .allow := by
      rintro hg
      rw [hop, apply, released_releaseGrant hg] at h
      exact absurd h (by decide)
    exact .inr ⟨(released_apply hgrant hrelease).symm.trans h, hgrant, hrelease⟩

/-! ### Runs -/

section Runs

variable (c : ResourceContract) (ops : List ContractOp)

/-- The contract before the operation at this position. -/
def before (i : ℕ) : ResourceContract := c.run (ops.take i)

/-- A release is accepted at this position. -/
def ReleasedAt (i : ℕ) : Prop :=
  ∃ g, ops[i]? = some (.releaseGrant g) ∧ ((c.before ops i).releaseGrant g).1 = .allow

/-- A grant that is not released is applied at this position. -/
def GrantedAt (i : ℕ) : Prop :=
  ∃ grant, ops[i]? = some (.applyGrant grant) ∧ grant.released = false

/-- Each accepted release has an earlier grant of its own, and there is a grant between two
of them. -/
structure MatchesReleases (m : ℕ → ℕ) : Prop where
  earlier : ∀ i, c.ReleasedAt ops i → m i < i
  granted : ∀ i, c.ReleasedAt ops i → GrantedAt ops (m i)
  distinct : Set.InjOn m {i | c.ReleasedAt ops i}
  between : ∀ i k, c.ReleasedAt ops i → c.ReleasedAt ops k → i < k →
    ∃ j grant, i < j ∧ j < k ∧ ops[j]? = some (.applyGrant grant)

variable {c ops}

theorem before_succ {i : ℕ} {op : ContractOp} (h : ops[i]? = some op) :
    c.before ops (i + 1) = ((c.before ops i).apply op).2 := by
  rw [before, before, List.take_add_one, h, run, List.foldl_append]
  rfl

/-- **Where an unmarked grant comes from**: from a grant with no accepted release since, or
there has been no grant yet. -/
theorem unreleased_cases {i : ℕ} (hi : i ≤ ops.length)
    (h : (c.before ops i).grant.released = false) :
    (∃ j < i, GrantedAt ops j ∧ ∀ k, j < k → k < i → ¬c.ReleasedAt ops k) ∨
      ∀ k < i, ∀ grant, ops[k]? ≠ some (.applyGrant grant) := by
  induction i with
  | zero => exact .inr fun k hk => absurd hk (Nat.not_lt_zero k)
  | succ i ih =>
    have hop : ops[i]? = some ops[i] := List.getElem?_eq_getElem hi
    rw [before_succ hop] at h
    rcases unreleased_apply_cases h with ⟨grant, hgrant, hr⟩ | ⟨hr, hnot, hrefused⟩
    · refine .inl ⟨i, Nat.lt_succ_self i, ⟨grant, hgrant ▸ hop, hr⟩, fun k hk hk' => ?_⟩
      omega
    · rcases ih (Nat.le_of_succ_le hi) hr with ⟨j, hj, hgranted, hnone⟩ | hnone
      · refine .inl ⟨j, Nat.lt_succ_of_lt hj, hgranted, fun k hk hk' => ?_⟩
        rcases Nat.lt_succ_iff_lt_or_eq.mp hk' with hk' | rfl
        · exact hnone k hk hk'
        · rintro ⟨g, hg, ho⟩
          exact hrefused g (Option.some.inj (hop.symm.trans hg)) ho
      · refine .inr fun k hk grant hg => ?_
        rcases Nat.lt_succ_iff_lt_or_eq.mp hk with hk | rfl
        · exact hnone k hk grant hg
        · exact hnot grant (Option.some.inj (hop.symm.trans hg))

/-- Without a grant and without an accepted release the mark is that of the beginning. -/
theorem released_before {i : ℕ} (hi : i ≤ ops.length)
    (hgrant : ∀ k < i, ∀ grant, ops[k]? ≠ some (.applyGrant grant))
    (hrelease : ∀ k < i, ¬c.ReleasedAt ops k) :
    (c.before ops i).grant.released = c.grant.released := by
  induction i with
  | zero => rfl
  | succ i ih =>
    have hop : ops[i]? = some ops[i] := List.getElem?_eq_getElem hi
    have hlt : i < i + 1 := Nat.lt_succ_self i
    rw [before_succ hop, released_apply (fun grant hg => hgrant i hlt grant (hg ▸ hop))
      fun g hg ho => hrelease i hlt ⟨g, hg ▸ hop, ho⟩]
    exact ih (Nat.le_of_succ_le hi) (fun k hk => hgrant k (Nat.lt_succ_of_lt hk))
      fun k hk => hrelease k (Nat.lt_succ_of_lt hk)

end Runs

variable {ops : List ContractOp}

/-- A release that follows a grant, with no accepted release in between, can be matched with
it; and then between any two releases there is a grant. -/
theorem exists_matchesReleases {c : ResourceContract}
    (h : ∀ i, c.ReleasedAt ops i →
      ∃ j < i, GrantedAt ops j ∧ ∀ k, j < k → k < i → ¬c.ReleasedAt ops k) :
    ∃ m, c.MatchesReleases ops m := by
  choose! m hearlier hgranted hnone using h
  -- a release between the grant of another one and that other one is not accepted
  have hsep (i k : ℕ) (hi : c.ReleasedAt ops i) (hk : c.ReleasedAt ops k) (hik : i < k) :
      i < m k := by
    obtain ⟨grant, hgrant, -⟩ := hgranted k hk
    obtain ⟨g, hrelease, ho⟩ := hi
    rcases lt_trichotomy i (m k) with hlt | rfl | hgt
    · exact hlt
    · exact absurd (hgrant.symm.trans hrelease) (by simp)
    · exact absurd ⟨g, hrelease, ho⟩ (hnone k hk i hgt hik)
  refine ⟨m, hearlier, hgranted, fun i hi k hk heq => ?_, fun i k hi hk hik => ?_⟩
  · rcases lt_trichotomy i k with hlt | rfl | hgt
    · have := hsep i k hi hk hlt
      have := hearlier i hi
      omega
    · rfl
    · have := hsep k i hk hi hgt
      have := hearlier k hk
      omega
  · obtain ⟨grant, hgrant, -⟩ := hgranted k hk
    exact ⟨m k, grant, hsep i k hi hk hik, hearlier k hk, hgrant⟩

/-- **Releases are matched with grants exactly if none comes before the first grant**: over
every sequence of mutations of a new contract. -/
theorem releases_matched_iff (id : ResourceContractId) (generation : ResourceContractGeneration)
    (ops : List ContractOp) :
    (∃ m, MatchesReleases { id := id, generation := generation } ops m) ↔
      ∀ i g, ops[i]? = some (.releaseGrant g) →
        (∀ k < i, ∀ grant, ops[k]? ≠ some (.applyGrant grant)) →
          g ≠ (before { id := id, generation := generation } ops i).generation := by
  constructor
  · rintro ⟨m, hm⟩ i g hop hgrant hg
    have hrelease (k : ℕ) (hk : k < i) :
        ¬ReleasedAt { id := id, generation := generation } ops k := by
      intro hr
      obtain ⟨grant, hgranted, -⟩ := hm.granted k hr
      exact hgrant (m k) ((hm.earlier k hr).trans hk) grant hgranted
    have hi : i ≤ ops.length := (List.getElem?_eq_some_iff.mp hop).1.le
    have hr : ReleasedAt { id := id, generation := generation } ops i :=
      ⟨g, hop, releaseGrant_allow_iff.mpr ⟨hg, released_before hi hgrant hrelease⟩⟩
    obtain ⟨grant, hgranted, -⟩ := hm.granted i hr
    exact hgrant (m i) (hm.earlier i hr) grant hgranted
  · intro h
    refine exists_matchesReleases fun i hi => ?_
    obtain ⟨g, hop, ho⟩ := hi
    obtain ⟨hg, hr⟩ := releaseGrant_allow_iff.mp ho
    have hlen : i ≤ ops.length := (List.getElem?_eq_some_iff.mp hop).1.le
    rcases unreleased_cases hlen hr with hmatch | hgrant
    · exact hmatch
    · exact absurd hg (h i g hop hgrant)

/-- A new contract takes the release of a grant that was never given. -/
theorem release_before_grant_accepted :
    ¬∀ (id : ResourceContractId) (generation : ResourceContractGeneration)
      (ops : List ContractOp),
      ∃ m, MatchesReleases { id := id, generation := generation } ops m := by
  intro h
  obtain ⟨m, hm⟩ := h (.fromU64 1) (.fromU64 1) [.releaseGrant (.fromU64 1)]
  exact absurd (hm.earlier 0 ⟨_, rfl, by decide⟩) (Nat.not_lt_zero _)

end ResourceContract

end WorkloadFabric
