/-
The grants that the reference broker holds, and the checkpoints of the reference provider.

The broker keeps one grant for each workload and marks it when it is released; which grant
a release names is not looked at.  The provider numbers its checkpoints, and neither the
episode nor the generation that a call names is looked at.

* **`released_once`** — a release is accepted exactly if the last call for its workload bound
  a grant that was not released, and so there are no more accepted releases than grants;
* **`restored_is_written`** — a reference restores what was written under it, for any episode,
  until the numbers have come round, and no reference is good for anything that was not
  given out.
-/
import WorkloadFabric.Resource
import Mathlib.Data.List.Basic

namespace WorkloadFabric

/-! ### The broker -/

structure ReferenceBroker where
  bound : Std.TreeMap WorkloadId ResourceGrant := {}

namespace ReferenceBroker

def bindGrant (b : ReferenceBroker) (workload : WorkloadId) (grant : ResourceGrant) :
    Outcome × ReferenceBroker :=
  (.allow, ⟨b.bound.insert workload grant⟩)

/-- The grant is not looked at. -/
def releaseGrant (b : ReferenceBroker) (workload : WorkloadId) (_grant : ResourceGrant) :
    Outcome × ReferenceBroker :=
  match b.bound[workload]? with
  | none => (.rejectResourceDoubleRelease, b)
  | some held =>
    if held.released then (.rejectResourceDoubleRelease, b)
    else (.allow, ⟨b.bound.insert workload { held with released := true }⟩)

/-- The calls that change something. -/
inductive Call where
  | bindGrant (workload : WorkloadId) (grant : ResourceGrant)
  | releaseGrant (workload : WorkloadId) (grant : ResourceGrant)
deriving DecidableEq

def Call.workload : Call → WorkloadId
  | .bindGrant workload _ | .releaseGrant workload _ => workload

def step (b : ReferenceBroker) : Call → Outcome × ReferenceBroker
  | .bindGrant workload grant => b.bindGrant workload grant
  | .releaseGrant workload grant => b.releaseGrant workload grant

/-- The broker after a sequence of calls. -/
def run (b : ReferenceBroker) (calls : List Call) : ReferenceBroker :=
  calls.foldl (fun b c => (b.step c).2) b

theorem run_append_singleton (b : ReferenceBroker) (calls : List Call) (c : Call) :
    b.run (calls ++ [c]) = ((b.run calls).step c).2 := List.foldl_concat ..

/-- A grant is held for the workload, and not released. -/
def holds (b : ReferenceBroker) (workload : WorkloadId) : Bool :=
  b.bound[workload]?.any fun held => !held.released

theorem releaseGrant_allow_iff {b : ReferenceBroker} {workload : WorkloadId}
    {grant : ResourceGrant} :
    (b.releaseGrant workload grant).1 = .allow ↔ b.holds workload = true := by
  rw [releaseGrant, holds]
  cases b.bound[workload]? with
  | none => simp
  | some held => cases h : held.released <;> simp [h]

/-- What a call does for the workload it names. -/
theorem holds_step_self (b : ReferenceBroker) (c : Call) :
    (b.step c).2.holds c.workload =
      match c with
      | .bindGrant _ grant => !grant.released
      | .releaseGrant _ _ => false := by
  cases c with
  | bindGrant workload grant =>
    simp [step, bindGrant, holds, Call.workload]
  | releaseGrant workload grant =>
    rw [step, releaseGrant, Call.workload]
    cases h : b.bound[workload]? with
    | none => simp [holds, h]
    | some held => cases hr : held.released <;> simp [holds, h, hr]

/-- The others are left alone. -/
theorem holds_step_of_ne (b : ReferenceBroker) {c : Call} {workload : WorkloadId}
    (h : c.workload ≠ workload) : (b.step c).2.holds workload = b.holds workload := by
  cases c with
  | bindGrant workload' grant =>
    have hne : workload' ≠ workload := h
    simp [step, bindGrant, holds, Std.TreeMap.getElem?_insert, hne]
  | releaseGrant workload' grant =>
    have hne : workload' ≠ workload := h
    rw [step, releaseGrant]
    split
    · rfl
    · split
      · rfl
      · simp [holds, Std.TreeMap.getElem?_insert, hne]

/-- The last call for the workload bound a grant that was not released. -/
def BoundLast (calls : List Call) (workload : WorkloadId) : Prop :=
  ∃ grant, (calls.filter (·.workload = workload)).getLast? = some (.bindGrant workload grant) ∧
    grant.released = false

theorem holds_run_iff (calls : List Call) (workload : WorkloadId) :
    (run {} calls).holds workload = true ↔ BoundLast calls workload := by
  induction calls using List.reverseRecOn with
  | nil => simp [run, holds, BoundLast]
  | append_singleton calls c ih =>
    rw [run_append_singleton, BoundLast, List.filter_append]
    by_cases hc : c.workload = workload
    · subst hc
      rw [holds_step_self, List.filter_cons_of_pos (by simp), List.filter_nil,
        List.getLast?_concat]
      cases c with
      | bindGrant workload grant => simp [Call.workload]
      | releaseGrant workload grant => simp
    · rw [holds_step_of_ne _ hc, ih, List.filter_cons_of_neg (by simp [hc]), List.filter_nil,
        List.append_nil, BoundLast]

/-! ### How often a workload's grants are released -/

/-- The call releases a grant of the workload, and is accepted. -/
def releases (b : ReferenceBroker) (workload : WorkloadId) : Call → Bool
  | .bindGrant _ _ => false
  | .releaseGrant workload' grant =>
    workload' == workload && decide ((b.releaseGrant workload' grant).1 = .allow)

/-- How many releases for the workload are accepted in the course of the calls. -/
def released (b : ReferenceBroker) (workload : WorkloadId) : List Call → ℕ
  | [] => 0
  | c :: calls => (b.releases workload c).toNat + (b.step c).2.released workload calls

/-- The call binds a grant that is not released. -/
def Call.gives (workload : WorkloadId) : Call → Bool
  | .bindGrant workload' grant => workload' == workload && !grant.released
  | .releaseGrant _ _ => false

/-- A grant that is held already may be released once more. -/
theorem released_le (b : ReferenceBroker) (workload : WorkloadId) (calls : List Call) :
    b.released workload calls ≤
      calls.countP (Call.gives workload) + (b.holds workload).toNat := by
  induction calls generalizing b with
  | nil => exact Nat.zero_le _
  | cons c calls ih =>
    have hle := ih (b.step c).2
    rw [released, List.countP_cons]
    by_cases hc : c.workload = workload
    · subst hc
      rw [holds_step_self] at hle
      cases c with
      | bindGrant workload grant =>
        have hgives : Call.gives workload (.bindGrant workload grant) = !grant.released := by
          simp [Call.gives]
        rw [Call.workload, hgives]
        cases hr : grant.released <;> simp [hr, releases, Call.workload] at hle ⊢ <;> omega
      | releaseGrant workload grant =>
        have hreleases : b.releases workload (.releaseGrant workload grant) = b.holds workload := by
          rw [releases, beq_self_eq_true, Bool.true_and, Bool.eq_iff_iff, decide_eq_true_iff,
            releaseGrant_allow_iff]
        rw [Call.workload, hreleases]
        exact (Nat.add_comm _ _).trans_le (Nat.add_le_add_right hle _)
    · rw [holds_step_of_ne _ hc] at hle
      have hreleases : b.releases workload c = false := by
        cases c with
        | bindGrant => rfl
        | releaseGrant workload' grant =>
          have hne : workload' ≠ workload := hc
          simp [releases, hne]
      rw [hreleases, Bool.toNat_false, Nat.zero_add]
      omega

/-- **A grant is released at most once**, in every sequence of calls: whatever grant the caller
names, a release is accepted exactly if the last call for the workload bound a grant that was not
released. -/
theorem released_once (calls : List Call) (workload : WorkloadId) :
    (∀ grant, ((run {} calls).releaseGrant workload grant).1 = .allow ↔
      BoundLast calls workload) ∧
    released {} workload calls ≤ calls.countP (Call.gives workload) := by
  refine ⟨fun grant => releaseGrant_allow_iff.trans (holds_run_iff calls workload), ?_⟩
  have hle := released_le {} workload calls
  have hfresh : (({} : ReferenceBroker).holds workload) = false := by simp [holds]
  rwa [hfresh] at hle

end ReferenceBroker

/-! ### The checkpoints -/

structure ReferenceCheckpoint where
  store : Std.TreeMap CheckpointRef Text := {}
  next : CheckpointRef := .fromU64 1

namespace ReferenceCheckpoint

/-- The episode is not looked at. -/
def writeCheckpoint (c : ReferenceCheckpoint) (_episode : ExecutionEpisodeId) (token : Text) :
    Option CheckpointRef × ReferenceCheckpoint :=
  let ref := .fromU64 (c.next.toU64 + 1)
  (some ref, { store := c.store.insert ref token, next := ref })

/-- Nor is it here. -/
def restoreCheckpoint (c : ReferenceCheckpoint) (_target : ExecutionEpisodeId)
    (ref : CheckpointRef) : Option Text :=
  c.store[ref]?

/-- The generation is not looked at. -/
def valid (c : ReferenceCheckpoint) (ref : CheckpointRef) (_gen : CheckpointGeneration) : Bool :=
  c.store.contains ref

/-- The provider after these checkpoints. -/
def writeAll (c : ReferenceCheckpoint) (ws : List (ExecutionEpisodeId × Text)) :
    ReferenceCheckpoint :=
  ws.foldl (fun c w => (c.writeCheckpoint w.1 w.2).2) c

/-- The reference of the checkpoint written after `i` others. -/
def nthRef (i : ℕ) : CheckpointRef := .fromU64 (UInt64.ofNat (i + 2))

theorem nthRef_inj {i j : ℕ} : nthRef i = nthRef j ↔ i % 2 ^ 64 = j % 2 ^ 64 := by
  rw [nthRef, nthRef, UniqueValue.fromU64, UniqueValue.fromU64, UniqueValue.mk.injEq,
    ← UInt64.toNat_inj, UInt64.toNat_ofNat', UInt64.toNat_ofNat']
  omega

theorem next_writeAll (ws : List (ExecutionEpisodeId × Text)) :
    (writeAll {} ws).next = .fromU64 (UInt64.ofNat (ws.length + 1)) := by
  induction ws using List.reverseRecOn with
  | nil => rfl
  | append_singleton ws w ih =>
    rw [writeAll, List.foldl_concat, ← writeAll, writeCheckpoint, ih, List.length_append]
    exact congrArg UniqueValue.fromU64 (UInt64.ofNat_add (ws.length + 1) 1).symm

theorem writeAll_append_singleton (ws : List (ExecutionEpisodeId × Text))
    (episode : ExecutionEpisodeId) (token : Text) :
    (writeAll {} (ws ++ [(episode, token)])).store =
      (writeAll {} ws).store.insert (nthRef ws.length) token := by
  rw [writeAll, List.foldl_concat, ← writeAll, writeCheckpoint, next_writeAll]
  exact congrArg ((writeAll {} ws).store.insert · token)
    (congrArg UniqueValue.fromU64 (UInt64.ofNat_add (ws.length + 1) 1).symm)

/-- What is kept under a reference was written under it, and the numbers have not come round
since. -/
theorem getElem?_writeAll (ws : List (ExecutionEpisodeId × Text)) (ref : CheckpointRef)
    (token : Text) :
    (writeAll {} ws).store[ref]? = some token ↔
      ∃ i, (ws[i]?).map (·.2) = some token ∧ ref = nthRef i ∧ ws.length ≤ i + 2 ^ 64 := by
  induction ws using List.reverseRecOn with
  | nil => simp [writeAll]
  | append_singleton ws w ih =>
    obtain ⟨episode, written⟩ := w
    have hcmp : compare (nthRef ws.length) ref = .eq ↔ nthRef ws.length = ref :=
      Std.LawfulEqCmp.compare_eq_iff_eq
    rw [writeAll_append_singleton, Std.TreeMap.getElem?_insert, List.length_append,
      List.length_singleton]
    by_cases href : nthRef ws.length = ref
    · rw [if_pos (hcmp.mpr href), Option.some_inj]
      constructor
      · rintro rfl
        exact ⟨ws.length, by rw [List.getElem?_concat_length, Option.map_some], href.symm,
          by omega⟩
      · -- only the last write is as young as that
        rintro ⟨i, hi, heq, hle⟩
        have hmod := nthRef_inj.mp (heq.symm.trans href.symm)
        obtain ⟨p, hp, -⟩ := Option.map_eq_some_iff.mp hi
        have hlt := (List.getElem?_eq_some_iff.mp hp).1
        rw [List.length_append, List.length_singleton] at hlt
        obtain rfl : i = ws.length := by omega
        rw [List.getElem?_concat_length, Option.map_some, Option.some_inj] at hi
        exact hi
    · rw [if_neg (mt hcmp.mp href), ih]
      refine exists_congr fun i => ?_
      constructor
      · rintro ⟨hi, heq, hle⟩
        obtain ⟨p, hp, -⟩ := Option.map_eq_some_iff.mp hi
        have hlt := (List.getElem?_eq_some_iff.mp hp).1
        have hne : ws.length ≠ i + 2 ^ 64 := fun h => href (by rw [heq, nthRef_inj]; omega)
        exact ⟨by rw [List.getElem?_append_left hlt, hi], heq, by omega⟩
      · rintro ⟨hi, heq, hle⟩
        obtain ⟨p, hp, -⟩ := Option.map_eq_some_iff.mp hi
        have hlt := (List.getElem?_eq_some_iff.mp hp).1
        rw [List.length_append, List.length_singleton] at hlt
        have hne : i ≠ ws.length := fun h => href (by rw [heq, h])
        rw [List.getElem?_append_left (by omega)] at hi
        exact ⟨hi, heq, by omega⟩

/-- **A reference restores what was written under it**, for whatever episode, until 2 ^ 64 more
checkpoints have been written; then the next one takes its place.  No other reference restores
anything, and the valid references are those that do, for whatever generation. -/
theorem restored_is_written (ws : List (ExecutionEpisodeId × Text)) :
    (∀ episode token, ((writeAll {} ws).writeCheckpoint episode token).1 =
      some (nthRef ws.length)) ∧
    (∀ target ref token, (writeAll {} ws).restoreCheckpoint target ref = some token ↔
      ∃ i, (ws[i]?).map (·.2) = some token ∧ ref = nthRef i ∧ ws.length ≤ i + 2 ^ 64) ∧
    ∀ ref gen target, (writeAll {} ws).valid ref gen =
      ((writeAll {} ws).restoreCheckpoint target ref).isSome := by
  refine ⟨fun episode token => ?_, fun target ref token => getElem?_writeAll ws ref token,
    fun ref gen target => Std.TreeMap.contains_eq_isSome_getElem?⟩
  rw [writeCheckpoint, next_writeAll]
  exact congrArg (fun n => some (UniqueValue.fromU64 n)) (UInt64.ofNat_add (ws.length + 1) 1).symm

end ReferenceCheckpoint

end WorkloadFabric
