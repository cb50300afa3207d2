/-
Workloads of one engine do not get in each other's way.

* **`interleavings_agree`** — two interleavings of the same calls on several workloads
  cannot be told apart, up to a renaming of the ids that the engine draws.

Migration targets draw their ids from a counter of the workload, which starts above those
that the engine draws first; it would take more episodes than a vector can hold to bring it
round to them.
-/
import WorkloadFabric.Footprints
import WorkloadFabric.EpisodeIds
import WorkloadFabric.StaleCalls

namespace WorkloadFabric

open Interleaving FirstMatch

namespace WorkloadEngine

variable {order : EvalOrder}

/-- **Interleavings of the same calls cannot be told apart** by callers that name episodes
by their place: every call has the same outcome, and every workload and its record end
up the same, up to one renaming of the ids 1000 to 1999.  No `std::vector` of episodes is as
long as `hsize` allows. -/
theorem interleavings_agree (store : Option (MemoryStateStore order))
    {calls calls' : List (WorkloadId × SymbolicCall)}
    (hcalls : ∀ id, actionsOf id calls = actionsOf id calls')
    (hstarts : calls.countP (·.2.starts) < 1000)
    (hsize : ∀ id w, ((ofStore store).issueAll calls).get id = some w →
      w.episodes.length ≤ 2 ^ 64 - 1000) :
    ∃ ρ : Equiv.Perm ExecutionEpisodeId,
      (∀ id, id.toU64 < 1000 ∨ 2000 ≤ id.toU64 → ρ id = id) ∧
      ∀ id, (ofStore store).outcomesOn id calls' = (ofStore store).outcomesOn id calls ∧
        ((ofStore store).issueAll calls').get id =
          (((ofStore store).issueAll calls).get id).map (ρ • ·) ∧
        (((ofStore store).issueAll calls).record id = (ofStore store).record id ∧
            ((ofStore store).issueAll calls').record id = (ofStore store).record id ∨
          ∃ v, ((ofStore store).issueAll calls).record id = some (encodeWorkload v) ∧
            ((ofStore store).issueAll calls').record id = some (encodeWorkload (ρ • v))) := by
  obtain ⟨hsim, houtcomes⟩ := (simulates_ofStore store).issueAll calls
  obtain ⟨hsim', houtcomes'⟩ := (simulates_ofStore store).issueAll calls'
  have hready := ready_unregistered hstarts fun id w hw =>
    hsize id w ((hsim.get_eq id).trans hw)
  obtain ⟨-, ρ, hρ, hstate⟩ := run_interleaved equivariant_footprints hready hcalls
  have hρ : Moves drawnId 1000 ρ := hρ.mono hready.enough
  refine ⟨ρ, fun id hid => fixes_of_moves hρ hid, fun id => ⟨?_, ?_, ?_⟩⟩
  · have heq := houtcomes' id
    rw [hstate] at heq
    exact heq.symm.trans (houtcomes id)
  · rw [hsim'.get_eq, hstate, hsim.get_eq]
    rfl
  · have hsaved : ((Interleaving.run footprints drawnId unregistered calls').state id).saved =
        ρ • ((Interleaving.run footprints drawnId unregistered calls).state id).saved := by
      rw [hstate]
      rfl
    rw [hsim.record_eq, hsim'.record_eq, hsaved]
    cases store with
    | none => exact .inl ⟨rfl, rfl⟩
    | some s =>
      cases ((Interleaving.run footprints drawnId unregistered calls).state id).saved with
      | none => exact .inl ⟨rfl, rfl⟩
      | some v => exact .inr ⟨v, rfl, rfl⟩

/-- A call adds at most one episode. -/
theorem length_le_of_issueAll {store : Option (MemoryStateStore order)}
    (calls : List (WorkloadId × SymbolicCall)) {id : WorkloadId} {w : Workload}
    (h : ((ofStore store).issueAll calls).get id = some w) :
    w.episodes.length ≤ calls.length := by
  induction calls using List.reverseRecOn generalizing w with
  | nil => exact absurd h (by simp [issueAll, ofStore, get])
  | append_singleton calls x ih =>
    rw [issueAll_append] at h
    set e := (ofStore store).issueAll calls
    change (e.step (e.resolve x.1 x.2)).2.get id = some w at h
    rw [List.length_append, List.length_singleton]
    rcases hw : e.get id with _ | w₀
    · rcases e.step_get_none hw (e.resolve x.1 x.2) with hnone | ⟨_, _, _, -, hnew⟩
      · exact absurd (hnone.symm.trans h) (by simp)
      · obtain rfl := Option.some.inj (hnew.symm.trans h)
        exact Nat.zero_le _
    · have hle := ih hw
      rcases e.step_get_cases hw (e.resolve x.1 x.2) with ⟨-, hsame⟩ | ⟨r, w', -, hnew, hs⟩
      · obtain rfl := Option.some.inj (hsame.symm.trans h)
        exact Nat.le_succ_of_le hle
      · obtain rfl := Option.some.inj (hnew.symm.trans h)
        have hlength := hs.length_le_succ
        omega

/-- The calls that bring a workload to its first dispatch, and on to another worker. -/
def dispatchAndMigrate : List SymbolicCall :=
  [.create (text "w") (text "job") { migration := { eligibility := .planOnly } },
    .on (.plain .validate rfl), .on (.plain (.applyGrant {}) rfl), .on (.plain .settle rfl),
    .on (.plain (.startEpisode (.fromU64 1) (.fromU64 1)) rfl),
    .on (.admitDispatch 0 (.fromU64 1) (.fromU64 1)),
    .on (.plain (.requestMigration (.fromU64 2)) rfl),
    .on (.plain (.commitMigration (.fromU64 2) (.fromU64 2) (.fromU64 1)) rfl),
    .on (.progress 1 (.fromU64 1) 5 true)]

/-- Two workloads that are started one after the other, in either order. -/
theorem migrated_shuffle : Shuffle
    (block (.fromU64 1 : WorkloadId) dispatchAndMigrate ++ block (.fromU64 2) dispatchAndMigrate)
    (block (.fromU64 2) dispatchAndMigrate ++ block (.fromU64 1) dispatchAndMigrate) :=
  .blocks (by decide) ..

/-- Either workload may be started first. -/
theorem interleavings_agree_migrated : ∃ ρ : Equiv.Perm ExecutionEpisodeId,
    (∀ id, id.toU64 < 1000 ∨ 2000 ≤ id.toU64 → ρ id = id) ∧
    ∀ id, ((ofStore (some ({} : MemoryStateStore .leftToRight))).issueAll
      (block (.fromU64 2) dispatchAndMigrate ++ block (.fromU64 1) dispatchAndMigrate)).get id =
        (((ofStore (some ({} : MemoryStateStore .leftToRight))).issueAll
          (block (.fromU64 1) dispatchAndMigrate ++
            block (.fromU64 2) dispatchAndMigrate)).get id).map (ρ • ·) := by
  have hstarts : (block (.fromU64 1) dispatchAndMigrate ++ block (.fromU64 2) dispatchAndMigrate :
      List (WorkloadId × SymbolicCall)).countP (·.2.starts) < 1000 := by decide
  obtain ⟨ρ, hρ, h⟩ := interleavings_agree (some ({} : MemoryStateStore .leftToRight))
    migrated_shuffle.actionsOf_eq hstarts
    fun id w hw => (length_le_of_issueAll _ hw).trans (by decide)
  exact ⟨ρ, hρ, fun id => (h id).2.1⟩

end WorkloadEngine

end WorkloadFabric
