/-
Decoding hostile input.

Whatever the bytes, the codec looks nothing up outside its buffers (`stays_within`), but two
payloads take it down: one with more dependency states than definitions, whose first surplus
state is written past the end inside a `noexcept` function, and one whose count of requirements
asks for more memory than there is, which is reserved before any of them is read.

* `workload_terminated_iff` — the first of these is the only way in which reading ends the
  process;
* **`decoded_safely_iff`** — a record is decoded safely exactly when its payload is neither.
-/
import WorkloadFabric.Canonical
import WorkloadFabric.RecordCode

namespace WorkloadFabric

open Decoder

/-! ### What is read first -/

namespace Reader

/-- The fields in front of the contract, then `next`. -/
def afterPolicy {α : Type} (next : Reader α) : Reader α := do
  let _ ← (ident : Reader WorkloadId)
  let _ ← (ident : Reader WorkloadGeneration)
  let _ ← (ident : Reader WorkloadRevision)
  let _ ← readEnum WorkloadState 25
  let _ ← str
  let _ ← str
  let _ ← policy
  next

/-- The payload up to `reqs.reserve(nr)`: how much is reserved. -/
def requirementCount (order : EvalOrder) : Reader UInt32 := afterPolicy do
  let _ ← order.args (ident : Reader ResourceContractId) (ident : Reader ResourceContractGeneration)
  u32

/-- How many dependencies were defined, and how many states are to follow. -/
def dependencyCounts (order : EvalOrder) : Reader (ℕ × ℕ) := do
  let _ ← order.args (ident : Reader DependencySetId) (ident : Reader DependencyGeneration)
  let defs ← list dependencyDef
  let ns ← u32
  return (defs.length, ns.toNat)

/-- The payload up to the dependency states. -/
def stateCounts (order : EvalOrder) : Reader (ℕ × ℕ) := afterPolicy do
  let _ ← contract order
  dependencyCounts order

end Reader

/-- More dependency states are announced than there is room for, and there is one state more
than there is room for. -/
def Surplus (room announced : ℕ) (s : List UInt8) : Prop :=
  room < announced ∧ ∃ r, many Reader.dependencyState (room + 1) s = .ok r

/-- The payload announces more dependency states than definitions, and goes on with a state for
each definition and one more. -/
def Overruns (order : EvalOrder) (payload : List UInt8) : Prop :=
  ∃ nd ns rest, Reader.stateCounts order payload = .ok ((nd, ns), rest) ∧ Surplus nd ns rest

/-- What the payload makes `reqs.reserve` ask for is there. -/
def Reserved (reserve : ℕ → Bool) (order : EvalOrder) (payload : List UInt8) : Prop :=
  ∀ nr rest, Reader.requirementCount order payload = .ok (nr, rest) → reserve nr.toNat

/-- `decodeWorkload`, where `reqs.reserve(n)` succeeds for the counts of `reserve`.  The
exception that it throws otherwise is no `CodecError`: nothing catches it. -/
def decodeWorkloadReserving (reserve : ℕ → Bool) (order : EvalOrder) (data : List UInt8) :
    Option (Outcome × Workload) :=
  let count := do
    let (payload, _) ← Reader.frame data
    Reader.requirementCount order payload
  match count with
  | .ok (nr, _) => if reserve nr.toNat then decodeWorkload order data else none
  | .error _ => decodeWorkload order data

/-- `decodeWorkload` returns with one of the two statuses, and neither the code that reads the frame
nor the one that reads the payload leaves its buffer. -/
structure DecodedSafely (reserve : ℕ → Bool) (order : EvalOrder) (data : List UInt8) : Prop where
  returns : ∃ status w, decodeWorkloadReserving reserve order data = some (status, w) ∧
    (status = .allow ∨ status = .rejectUnknown)
  in_bounds : StaysWithin Reader.frame data ∧
    ∀ payload rest, Reader.frame data = .ok (payload, rest) →
      StaysWithin (Workload.decode order) payload

/-! ### Where the process ends -/

/-- The decoder ends the process exactly behind the symbols `C`. -/
def TerminatesOn {α : Type} (C : List UInt8 → Prop) (k : Reader α) : Prop :=
  ∀ s, k s = .error .terminated ↔ C s

theorem TerminatesOn.bind {α β : Type} {C : List UInt8 → Prop} {k : Reader α}
    (h : TerminatesOn C k) {f : α → Reader β} (hf : ∀ a, CheckedReader (fun _ => False) (f a)) :
    TerminatesOn C (k >>= f) := by
  intro s
  rw [bind_eq_error, ← h s]
  refine or_iff_left ?_
  rintro ⟨a, rest, -, he⟩
  exact ((hf a).throws he).elim id id

namespace Reader

theorem exists_many_succ {α : Type} {item : Reader α} {n : ℕ} {s : List UInt8} :
    (∃ r, many item (n + 1) s = .ok r) ↔
      ∃ a rest, item s = .ok (a, rest) ∧ ∃ r, many item n rest = .ok r := by
  constructor
  · rintro ⟨r, hr⟩
    obtain ⟨a, rest, ha, hrest⟩ := bind_eq_ok.mp hr
    obtain ⟨l, rest', hl, -⟩ := bind_eq_ok.mp hrest
    exact ⟨a, rest, ha, (l, rest'), hl⟩
  · rintro ⟨a, rest, ha, ⟨l, rest'⟩, hl⟩
    exact ⟨(a :: l, rest'), bind_eq_ok.mpr ⟨a, rest, ha, bind_eq_ok.mpr ⟨l, rest', hl, rfl⟩⟩⟩

/-- The loop ends the process when it has read one state more than there is room for. -/
theorem terminates_dependencyStates (i n : ℕ) (states : List DependencyState)
    (hi : i ≤ states.length) :
    TerminatesOn (Surplus (states.length - i) n) (dependencyStates i n states) := by
  intro s
  induction n generalizing i states s with
  | zero =>
    refine iff_of_false (fun h => ?_) fun h => Nat.not_lt_zero _ h.1
    cases h
  | succ n ih =>
    rw [dependencyStates, bind_apply, Surplus, exists_many_succ]
    rcases hst : dependencyState s with e | ⟨st, rest⟩
    · -- a state that is rejected
      refine iff_of_false (fun h => ?_) (by simp)
      cases h
      have hscan : CheckedReader (fun _ => False) dependencyState := inferInstance
      exact (hscan.throws hst).elim id id
    · by_cases hlt : i < states.length
      · have hroom : states.length - i = states.length - (i + 1) + 1 := by omega
        have hrest := ih (i + 1) (states.set i st) (by rw [List.length_set]; omega) rest
        rw [List.length_set, Surplus] at hrest
        simp only [if_pos hlt, hrest, hroom, Except.ok.injEq, Prod.mk.injEq]
        constructor
        · rintro ⟨hn, hmany⟩
          exact ⟨by omega, st, rest, ⟨rfl, rfl⟩, hmany⟩
        · rintro ⟨hn, _, _, ⟨rfl, rfl⟩, hmany⟩
          exact ⟨by omega, hmany⟩
      · have hroom : states.length - i = 0 := by omega
        simp only [if_neg hlt, hroom, Except.ok.injEq, Prod.mk.injEq]
        exact iff_of_true rfl ⟨by omega, st, rest, ⟨rfl, rfl⟩, ([], rest), rfl⟩

theorem begins_dependencies (order : EvalOrder) :
    Begins (dependencyCounts order) (fun c => TerminatesOn (Surplus c.1 c.2))
      (dependencies order) := by
  refine .skip fun _ => .skip fun defs => .skip fun ns => ?_
  intro s
  refine ⟨_, ?_, rfl⟩
  refine TerminatesOn.bind ?_ fun _ => inferInstance
  have h := terminates_dependencyStates 0 ns.toNat (.replicate defs.length {}) (Nat.zero_le _)
  rw [List.length_replicate, Nat.sub_zero] at h
  exact h

theorem begins_workload (order : EvalOrder) :
    Begins (stateCounts order) (fun c => TerminatesOn (Surplus c.1 c.2)) (workload order) := by
  refine .skip fun _ => .skip fun _ => .skip fun _ => .skip fun _ => .skip fun _ => ?_
  refine .skip fun _ => .skip fun _ => .skip fun _ => ?_
  refine (begins_dependencies order).inner fun c k hk => ?_
  exact hk.bind fun _ => inferInstance

instance {P : DecodeError → Prop} {α : Type} {next : Reader α} [CheckedReader P next] :
    CheckedReader P (afterPolicy next) := by
  rw [afterPolicy]
  have : CheckedReader P (do
      let _ ← readEnum WorkloadState 25
      let _ ← str
      let _ ← str
      let _ ← policy
      next) := inferInstance
  infer_instance

instance (order : EvalOrder) : CheckedReader (fun _ => False) (dependencyCounts order) := by
  rw [dependencyCounts]
  infer_instance

instance (order : EvalOrder) : CheckedReader (fun _ => False) (stateCounts order) := by
  rw [stateCounts]
  infer_instance

theorem workload_terminated_iff {order : EvalOrder} {payload : List UInt8} :
    workload order payload = .error .terminated ↔ Overruns order payload := by
  have hbegins := begins_workload order
  rcases hcounts : stateCounts order payload with e | ⟨⟨nd, ns⟩, rest⟩
  · rw [hbegins.error hcounts, Overruns, hcounts]
    have hscan : CheckedReader (fun _ => False) (stateCounts order) := inferInstance
    refine iff_of_false (fun h => ?_) (by simp)
    cases h
    exact (hscan.throws hcounts).elim id id
  · obtain ⟨k, hk, hread⟩ := hbegins.ok hcounts
    rw [hread, hk rest]
    constructor
    · intro h
      exact ⟨nd, ns, rest, hcounts, h⟩
    · rintro ⟨nd', ns', rest', hcounts', h⟩
      rw [hcounts] at hcounts'
      cases hcounts'
      exact h

end Reader

/-- How reading a payload ends early. -/
theorem decode_error {order : EvalOrder} {payload : List UInt8} {e : DecodeError}
    (h : Workload.decode order payload = .error e) :
    e.Rejects ∨ e = .terminated ∧ Overruns order payload := by
  rcases bind_eq_error.mp h with hw | ⟨w, mid, -, h⟩
  · rcases (Reader.checked_workload order).throws hw with he | rfl
    · exact .inl he
    · exact .inr ⟨rfl, Reader.workload_terminated_iff.mp hw⟩
  · -- the checks at the end
    rcases bind_eq_error.mp h with hget | ⟨rest, _, -, h⟩
    · cases hget
    · split at h
      · cases h
        exact .inl rfl
      · split at h
        · cases h
          exact .inl rfl
        · cases h

theorem decode_overruns {order : EvalOrder} {payload : List UInt8}
    (h : Overruns order payload) : Workload.decode order payload = .error .terminated :=
  bind_eq_error.mpr (.inl (Reader.workload_terminated_iff.mpr h))

/-- A record whose frame or payload is rejected is reported as REJECT_UNKNOWN, one that is read is
reported as ALLOW, and only a surplus dependency state ends the process. -/
theorem decodeWorkload_cases (order : EvalOrder) (data : List UInt8) :
    (∃ status w, decodeWorkload order data = some (status, w) ∧
      (status = .allow ∨ status = .rejectUnknown) ∧
      ∀ payload rest, Reader.frame data = .ok (payload, rest) → ¬Overruns order payload) ∨
    decodeWorkload order data = none ∧
      ∃ payload rest, Reader.frame data = .ok (payload, rest) ∧ Overruns order payload := by
  rcases hframe : Reader.frame data with e | ⟨payload, rest⟩
  · have hscan : CheckedReader (fun _ => False) Reader.frame := inferInstance
    have hrej : Rejected (Reader.frame data) :=
      ⟨e, (hscan.throws hframe).elim id False.elim, hframe⟩
    exact .inl ⟨.rejectUnknown, {}, decodeWorkload_of_frame_rejected hrej, .inr rfl, by simp⟩
  · simp only [Except.ok.injEq, Prod.mk.injEq]
    -- what is read is not cut short by a surplus state
    have hsafe : Workload.decode order payload ≠ .error .terminated → ∀ payload' rest',
        payload = payload' ∧ rest = rest' → ¬Overruns order payload' := by
      rintro hne _ _ ⟨rfl, rfl⟩ hover
      exact hne (decode_overruns hover)
    rcases hdecode : Workload.decode order payload with e | ⟨w, rest'⟩
    · rcases decode_error hdecode with he | ⟨rfl, hover⟩
      · have hrej : Rejected (Workload.decode order payload) := ⟨e, he, hdecode⟩
        refine .inl ⟨.rejectUnknown, {}, decodeWorkload_of_decode_rejected hframe hrej, .inr rfl,
          hsafe ?_⟩
        rw [hdecode]
        rintro ⟨⟩
        exact he
      · refine .inr ⟨?_, payload, rest, ⟨rfl, rfl⟩, hover⟩
        rw [decodeWorkload, hframe]
        show report (Workload.decode order payload) = none
        rw [hdecode]
        rfl
    · refine .inl ⟨.allow, w, ?_, .inl rfl, hsafe (by simp [hdecode])⟩
      rw [decodeWorkload, hframe]
      show report (Workload.decode order payload) = _
      rw [hdecode]
      rfl

/-- The payload is no longer than the record. -/
theorem length_payload_lt {data payload rest : List UInt8} (hsize : data.length < 2 ^ 64)
    (h : Reader.frame data = .ok (payload, rest)) : payload.length < 2 ^ 64 := by
  have hlen := congrArg List.length (Reader.faithful_frame.eq_append h)
  rw [List.length_append, Reader.length_frame] at hlen
  omega

/-- Where the memory is there, `reqs.reserve` changes nothing. -/
theorem decodeWorkloadReserving_cases (reserve : ℕ → Bool) (order : EvalOrder)
    (data : List UInt8) :
    (decodeWorkloadReserving reserve order data = decodeWorkload order data ∧
      ∀ payload rest, Reader.frame data = .ok (payload, rest) → Reserved reserve order payload) ∨
    decodeWorkloadReserving reserve order data = none ∧
      ∃ payload rest, Reader.frame data = .ok (payload, rest) ∧
        ¬Reserved reserve order payload := by
  rcases hframe : Reader.frame data with e | ⟨payload, rest⟩
  · refine .inl ⟨?_, by simp⟩
    rw [decodeWorkloadReserving, hframe]
    rfl
  · have hcount' : decodeWorkloadReserving reserve order data =
        match Reader.requirementCount order payload with
        | .ok (nr, _) => if reserve nr.toNat then decodeWorkload order data else none
        | .error _ => decodeWorkload order data := by
      rw [decodeWorkloadReserving, hframe]
      rfl
    simp only [Except.ok.injEq, Prod.mk.injEq]
    rw [hcount']
    rcases hcount : Reader.requirementCount order payload with e | ⟨nr, rest'⟩
    · refine .inl ⟨rfl, ?_⟩
      rintro _ _ ⟨rfl, rfl⟩ nr rest' hnr
      cases hcount.symm.trans hnr
    · by_cases hr : reserve nr.toNat
      · refine .inl ⟨if_pos hr, ?_⟩
        rintro _ _ ⟨rfl, rfl⟩ _ _ hnr
        cases hcount.symm.trans hnr
        exact hr
      · exact .inr ⟨if_neg hr, payload, rest, ⟨rfl, rfl⟩, fun h => hr (h nr rest' hcount)⟩

/-- **A record is decoded safely exactly when there is memory for the requirements that it
announces, and no dependency state too many.** -/
theorem decoded_safely_iff (reserve : ℕ → Bool) (order : EvalOrder) {data : List UInt8}
    (hsize : data.length < 2 ^ 64) :
    DecodedSafely reserve order data ↔
      ∀ payload rest, Reader.frame data = .ok (payload, rest) →
        Reserved reserve order payload ∧ ¬Overruns order payload := by
  have hreserving := decodeWorkloadReserving_cases reserve order data
  have hcases := decodeWorkload_cases order data
  constructor
  · rintro ⟨⟨status, w, hreturns, -⟩, -⟩ payload rest hframe
    rcases hreserving with ⟨heq, hreserved⟩ | ⟨hnone, -⟩
    · rw [heq] at hreturns
      rcases hcases with ⟨_, _, -, -, hover⟩ | ⟨hnone, -⟩
      · exact ⟨hreserved payload rest hframe, hover payload rest hframe⟩
      · cases hnone.symm.trans hreturns
    · cases hnone.symm.trans hreturns
  · intro h
    refine ⟨?_, stays_within Reader.frame hsize, fun payload rest hframe =>
      stays_within (Workload.decode order) (length_payload_lt hsize hframe)⟩
    rcases hreserving with ⟨heq, -⟩ | ⟨-, payload, rest, hframe, hrefused⟩
    · rcases hcases with ⟨status, w, hreturns, hstatus, -⟩ | ⟨-, payload, rest, hframe, hover⟩
      · exact ⟨status, w, heq.trans hreturns, hstatus⟩
      · exact absurd hover (h payload rest hframe).2
    · exact absurd (h payload rest hframe).1 hrefused

/-- Two requirements and two dependencies, one of them satisfied. -/
def dependentWorkload : Workload :=
  { Workload.create (.fromU64 1) (text "w") (text "job") with
    contract :=
      { reqs := [{ kind := .acceleratorCount }, { kind := .storage, spec := text "ssd" }] }
    deps :=
      { defs := [{ dependsOn := .fromU64 2 }, { dependsOn := .fromU64 3 }]
        states := [{ status := .satisfied, observedGeneration := .fromU64 1 }, {}] } }

/-- Its record, where there is memory for a thousand requirements. -/
theorem decoded_safely_dependent :
    DecodedSafely (· ≤ 1000) .leftToRight (encodeWorkload dependentWorkload) := by
  have hsize : (encodeWorkload dependentWorkload).length < 2 ^ 64 := by decide +kernel
  refine (decoded_safely_iff (· ≤ 1000) .leftToRight hsize).mpr fun payload rest hframe => ?_
  have hread := (Reader.reads_frame dependentWorkload.encode []
    (by rw [List.append_nil]; exact hsize)).1 trivial
  rw [List.append_nil] at hread
  obtain ⟨rfl, -⟩ := Prod.mk.inj (Except.ok.inj (hread.symm.trans hframe))
  have hcount : (Reader.requirementCount .leftToRight dependentWorkload.encode).map (·.1) =
      .ok 2 := by decide +kernel
  have hcounts : (Reader.stateCounts .leftToRight dependentWorkload.encode).map (·.1) =
      .ok (2, 2) := by decide +kernel
  constructor
  · intro nr rest' hnr
    rw [hnr] at hcount
    cases hcount
    rfl
  · rintro ⟨nd, ns, rest', hns, hlt, -⟩
    rw [hns] at hcounts
    cases hcounts
    exact absurd hlt (Nat.lt_irrefl 2)

/-- No definition, and one state. -/
def surplusRecord : List UInt8 :=
  encodeWorkload { Workload.create (.fromU64 1) (text "w") (text "job") with
    deps := { states := [{}] } }

/-- Four billion requirements announced, and none of them there. -/
def greedyRecord : List UInt8 :=
  let w := Workload.create (.fromU64 1) (text "w") (text "job")
  Writer.frame (List.flatten [Writer.ident w.id, Writer.ident w.generation,
    Writer.ident w.revision, Writer.enum w.state, Writer.str w.name, Writer.str w.intent,
    Writer.policy w.policy, Writer.ident w.contract.id, Writer.ident w.contract.generation,
    Writer.u32 0xffffffff])

/-- A few hundred bytes end the process: with all the memory one could ask for, and, in another
way, with less than there would have to be. -/
theorem hostile_records_terminate :
    (¬∀ data : List UInt8, data.length < 2 ^ 64 →
      DecodedSafely (fun _ => true) .leftToRight data) ∧
    ¬∀ data : List UInt8, data.length < 2 ^ 64 →
      DecodedSafely (· < 2 ^ 32 - 1) .leftToRight data := by
  constructor
  · intro h
    obtain ⟨_, _, hreturns, -⟩ := (h surplusRecord (by decide +kernel)).returns
    have hnone : decodeWorkloadReserving (fun _ => true) .leftToRight surplusRecord = none :=
      Option.isNone_iff_eq_none.mp (by decide +kernel)
    cases hnone.symm.trans hreturns
  · intro h
    obtain ⟨_, _, hreturns, -⟩ := (h greedyRecord (by decide +kernel)).returns
    have hnone : decodeWorkloadReserving (· < 2 ^ 32 - 1) .leftToRight greedyRecord = none :=
      Option.isNone_iff_eq_none.mp (by decide +kernel)
    cases hnone.symm.trans hreturns

end WorkloadFabric
