/-
The codec reads back what it wrote.

Each part of the payload is read back by the reader of the same name
(`reads_policy`, ..., `reads_workload`), whatever follows it; the readers follow
the writers field by field.  `Storable` is the range check of the format: doubles
finite, minima and amounts not negative.  What a record carries is `carried`:
everything but the migration episode counter.
-/
import WorkloadFabric.Persistence

namespace WorkloadFabric

open Decoder

/-! ### What the format accepts -/

/-- Both bounds are finite, and the minimum is not negative. -/
def ResourceRequirement.Storable (r : ResourceRequirement) : Prop :=
  r.minValue.isFinite = true ∧ r.maxValue.isFinite = true ∧ r.minValue.lt {} = false

/-- The amount is finite and not negative. -/
def ResourceBinding.Storable (b : ResourceBinding) : Prop :=
  b.amount.isFinite = true ∧ b.amount.lt {} = false

/-- The range check of `decode`, seen from the other side. -/
theorem ResourceRequirement.storable_iff (r : ResourceRequirement) :
    ¬(!r.minValue.isFinite || !r.maxValue.isFinite || r.minValue.lt {}) = true ↔ r.Storable := by
  rw [Storable]
  simp [and_assoc]

theorem ResourceBinding.storable_iff (b : ResourceBinding) :
    ¬(!b.amount.isFinite || b.amount.lt {}) = true ↔ b.Storable := by
  rw [Storable]
  simp

def ResourceContract.Storable (c : ResourceContract) : Prop :=
  (∀ r ∈ c.reqs, r.Storable) ∧ ∀ b ∈ c.grant.bindings, b.Storable

/-- The sizes of all lists fit their 32-bit count fields. -/
structure Workload.SizesFit (w : Workload) : Prop where
  reqs : w.contract.reqs.length < 2 ^ 32
  bindings : w.contract.grant.bindings.length < 2 ^ 32
  defs : w.deps.defs.length < 2 ^ 32
  states : w.deps.states.length < 2 ^ 32
  episodes : w.episodes.length < 2 ^ 32
  history : w.history.length < 2 ^ 32

namespace EvalOrder

/-- What the two arguments of a call receive when `u` and `v` were written. -/
def pair (order : EvalOrder) {s t : IdTag} (u : UniqueValue s) (v : UniqueValue t) :
    UniqueValue s × UniqueValue t :=
  match order with
  | .leftToRight => (u, v)
  | .rightToLeft => (.fromU64 v.toU64, .fromU64 u.toU64)

def contract (order : EvalOrder) (c : ResourceContract) : ResourceContract :=
  { c with
    id := (order.pair c.id c.generation).1
    generation := (order.pair c.id c.generation).2 }

def dependencies (order : EvalOrder) (s : DependencySet) : DependencySet :=
  { s with id := (order.pair s.id s.gen).1, gen := (order.pair s.id s.gen).2 }

/-- What a record of `w` carries, read back in this order of evaluation. -/
def carried (order : EvalOrder) (w : Workload) : Workload :=
  { w with
    contract := order.contract w.contract
    deps := order.dependencies w.deps
    episodeCounterForMigration := 2000 }

end EvalOrder

/-! ### Part by part -/

namespace Reader

theorem reads_ident {tag : IdTag} (u : UniqueValue tag) : ReadsAs True ident (Writer.ident u) u :=
  (reads_u64 u.toU64).last (f := UniqueValue.fromU64)

theorem reads_policy (p : Policy) : ReadsAs True policy (Writer.policy p) p := by
  refine (reads_enum rfl _).cons <| (reads_u32 _).cons <| (reads_u32 _).cons ?_
  refine (reads_flag _).cons <| (reads_flag _).cons <| (reads_enum rfl _).cons ?_
  refine (reads_u32 _).cons <| (reads_flag _).cons <| (reads_flag _).cons ?_
  refine (reads_enum rfl _).cons <| (reads_flag _).cons <| (reads_flag _).cons ?_
  refine (reads_flag _).cons <| (reads_flag _).cons <| (reads_flag _).cons ?_
  refine (reads_u32 _).cons <| (reads_flag _).cons <| (reads_enum rfl _).cons ?_
  exact (reads_ident _).cons <| .of_nil p

theorem reads_requirement (r : ResourceRequirement) :
    ReadsAs r.Storable requirement (Writer.requirement r) r := by
  refine (reads_enum rfl _).cons <| (reads_enum rfl _).cons <| (reads_f64 _).cons ?_
  refine (reads_f64 _).cons ?_
  exact (Reads.check ((reads_str _).cons <| .of_nil r)).congr_ok (by rw [and_true, r.storable_iff])

theorem reads_binding (b : ResourceBinding) :
    ReadsAs b.Storable binding (Writer.binding b) b := by
  refine (reads_enum rfl _).cons <| (reads_f64 _).cons ?_
  exact (Reads.check ((reads_str _).cons <| .of_nil b)).congr_ok (by rw [and_true, b.storable_iff])

theorem reads_grant {g : ResourceGrant} (hg : g.bindings.length < 2 ^ 32) :
    ReadsAs (∀ b ∈ g.bindings, b.Storable) grant (Writer.grant g) g := by
  refine (reads_ident _).cons <| (reads_ident _).cons <| (reads_enum rfl _).cons ?_
  exact (reads_flag _).cons <| (reads_list reads_binding hg).singleton <| .of_nil g

/-- The two arguments of one call are read in the order of evaluation. -/
theorem reads_args (order : EvalOrder) {s t : IdTag} (u : UniqueValue s) (v : UniqueValue t) :
    ReadsAs True (order.args ident ident) (Writer.ident u ++ Writer.ident v) (order.pair u v) := by
  refine Reads.congr_ok (p := True ∧ True) ?_ (by rw [true_and])
  -- from right to left the second argument is read first, off the first one's bytes
  cases order with
  | leftToRight => exact (reads_ident u).bind <| (reads_ident v).last (f := fun b => (u, b))
  | rightToLeft =>
    exact (reads_ident (.fromU64 u.toU64)).bind <|
      (reads_ident (.fromU64 v.toU64)).last (f := fun a => (a, UniqueValue.fromU64 u.toU64))

theorem reads_contract (order : EvalOrder) {c : ResourceContract}
    (hr : c.reqs.length < 2 ^ 32) (hb : c.grant.bindings.length < 2 ^ 32) :
    ReadsAs c.Storable (contract order) (Writer.contract c) (order.contract c) := by
  refine (reads_args order c.id c.generation).cons ?_
  rw [EvalOrder.contract]
  rcases order.pair c.id c.generation with ⟨cid, generation⟩
  exact (reads_list reads_requirement hr).bind_cons <| (reads_grant hb).singleton <| .of_nil _

theorem reads_dependencyDef (d : DependencyDef) :
    ReadsAs True dependencyDef (Writer.dependencyDef d) d := by
  refine (reads_ident _).cons <| (reads_enum rfl _).cons <| (reads_enum rfl _).cons ?_
  exact (reads_str _).cons <| .of_nil d

theorem reads_dependencyState (s : DependencyState) :
    ReadsAs True dependencyState (Writer.dependencyState s) s := by
  refine (reads_enum rfl _).cons <| (reads_ident _).cons <| (reads_str _).cons ?_
  exact .of_nil s

/-- The states are read over as many default ones, one by one. -/
theorem reads_dependencyStates (pre l : List DependencyState) :
    ReadsAs True (dependencyStates pre.length l.length (pre ++ .replicate l.length {}))
      (l.flatMap Writer.dependencyState) (pre ++ l) := by
  induction l generalizing pre with
  | nil => exact .of_nil _
  | cons s l ih =>
    rw [List.flatMap_def, List.map_cons]
    refine (reads_dependencyState s).cons ?_
    have hlt :
        pre.length < (pre ++ List.replicate (s :: l).length ({} : DependencyState)).length := by
      simp
    -- the state just read replaces the first default one
    have hset : (pre ++ List.replicate (s :: l).length ({} : DependencyState)).set pre.length s =
        (pre ++ [s]) ++ .replicate l.length {} := by
      simp [List.replicate_succ]
    have h := ih (pre ++ [s])
    rw [List.length_append, List.append_assoc pre [s] l] at h
    rw [if_pos hlt, hset]
    exact h

theorem reads_dependencies (order : EvalOrder) {s : DependencySet} (hd : s.defs.length < 2 ^ 32)
    (hl : s.states.length < 2 ^ 32) (h : s.states.length = s.defs.length) :
    ReadsAs True (dependencies order) (Writer.dependencies s) (order.dependencies s) := by
  refine (reads_args order s.id s.gen).cons ?_
  rw [EvalOrder.dependencies]
  rcases order.pair s.id s.gen with ⟨sid, gen⟩
  have hdefs := (reads_list reads_dependencyDef hd).congr_ok (q := True) (by simp)
  refine hdefs.cons <| (reads_u32 _).cons ?_
  -- as many states as definitions: the loop meets the list it was given
  have hstates := reads_dependencyStates [] s.states
  rw [UInt32.toNat_ofNat_of_lt' hl, ← h]
  exact hstates.cons <| .of_nil _

theorem reads_priority (p : Priority) : ReadsAs True priority (Writer.priority p) p := by
  refine (reads_ident _).cons <| (reads_ident _).cons <| (reads_enum rfl _).cons ?_
  refine (reads_i64 _).cons <| (reads_i64 _).cons <| (reads_flag _).cons ?_
  refine (reads_flag _).cons <| (reads_flag _).cons ?_
  rw [Int32.toInt32_toInt64, Int32.toInt32_toInt64]
  exact .of_nil p

theorem reads_progress (p : Progress) : ReadsAs True progress (Writer.progress p) p := by
  refine (reads_u64 _).cons <| (reads_enum rfl _).cons <| (reads_u64 _).cons ?_
  refine (reads_u64 _).cons <| (reads_enum rfl _).cons <| (reads_u64 _).cons ?_
  exact (reads_flag _).cons <| .of_nil p

theorem reads_handle (h : ExecutionHandle) : ReadsAs True handle (Writer.handle h) h := by
  refine (reads_ident _).cons <| (reads_ident _).cons <| (reads_u64 _).cons ?_
  exact (reads_str _).cons <| .of_nil h

theorem reads_episode (e : Episode) : ReadsAs True episode (Writer.episode e) e := by
  refine (reads_ident _).cons <| (reads_ident _).cons <| (reads_enum rfl _).cons ?_
  refine (reads_ident _).cons <| (reads_ident _).cons <| (reads_ident _).cons ?_
  refine (reads_ident _).cons <| (reads_handle _).cons <| (reads_ident _).cons ?_
  refine (reads_ident _).cons <| (reads_ident _).cons <| (reads_ident _).cons ?_
  refine (reads_ident _).cons <| (reads_ident _).cons <| (reads_progress _).cons ?_
  refine (reads_str _).cons <| (reads_flag _).cons <| (reads_flag _).cons ?_
  exact (reads_flag _).cons <| (reads_flag _).cons <| (reads_flag _).cons <| .of_nil e

theorem reads_transitionRecord (r : TransitionRecord) :
    ReadsAs True transitionRecord (Writer.transitionRecord r) r := by
  refine (reads_enum rfl _).cons <| (reads_enum rfl _).cons <| (reads_ident _).cons ?_
  refine (reads_u64 _).cons <| (reads_str _).cons <| (reads_enum rfl _).cons ?_
  exact .of_nil r

theorem reads_workload (order : EvalOrder) {w : Workload} (hw : w.SizesFit)
    (hd : w.deps.states.length = w.deps.defs.length) :
    ReadsAs w.contract.Storable (workload order) w.encode (order.carried w) := by
  have hepisodes := (reads_list reads_episode hw.episodes).congr_ok (q := True) (by simp)
  have hhistory := (reads_list reads_transitionRecord hw.history).congr_ok (q := True) (by simp)
  refine (reads_ident _).cons <| (reads_ident _).cons <| (reads_ident _).cons ?_
  refine (reads_enum rfl _).cons <| (reads_str _).cons <| (reads_str _).cons ?_
  refine (reads_policy _).cons ?_
  refine Reads.congr_ok ((reads_contract order hw.reqs hw.bindings).bind_cons ?_)
    (and_iff_left trivial)
  refine (reads_dependencies order hw.defs hw.states hd).cons <| (reads_priority _).cons ?_
  refine (reads_progress _).cons <| (reads_ident _).cons <| (reads_ident _).cons ?_
  refine (reads_ident _).cons <| (reads_u32 _).cons <| (reads_ident _).cons ?_
  refine (reads_ident _).cons <| (reads_ident _).cons <| (reads_ident _).cons ?_
  refine (reads_flag _).cons <| (reads_flag _).cons <| (reads_flag _).cons ?_
  refine (reads_str _).cons <| (reads_ident _).cons ?_
  exact hepisodes.cons <| hhistory.cons <| .of_nil (order.carried w)

/-! ### The frame -/

/-- The header and the length are read off the front. -/
theorem frame_append (magic version : UInt32) (len : UInt64) (rest : List UInt8) :
    frame (Writer.u32 magic ++ (Writer.u32 version ++ (Writer.u64 len ++ rest))) =
      if magic ≠ kPersistenceMagic then .error (.returned .rejectUnknown)
      else if version ≠ kPersistenceFormatVersion then .error (.returned .rejectUnknown)
      else frameBody len rest := by
  rw [frame, bind_apply, u32_append]
  simp only
  split
  · rfl
  · rw [bind_apply, u32_append]
    simp only
    split
    · rfl
    · rw [bind_apply, u64_append]

/-- A body whose payload and checksum match. -/
theorem frameBody_append {payload : List UInt8} (h : payload.length < 2 ^ 64) (stored : UInt64)
    (s : List UInt8) :
    frameBody (.ofNat payload.length) (payload ++ (Writer.u64 stored ++ s)) =
      if stored ≠ fnv1a64 payload then .error (.returned .rejectUnknown)
      else .ok (payload, s) := by
  rw [frameBody, toNat_length h, bind_apply, need_of_le (by simp)]
  simp only
  rw [bind_apply, raw_append]
  simp only
  rw [bind_apply, u64_append]
  simp only
  split <;> rfl

/-- A frame, with what follows it, part by part. -/
theorem frame_parts (payload s : List UInt8) :
    Writer.frame payload ++ s =
      Writer.u32 kPersistenceMagic ++ (Writer.u32 kPersistenceFormatVersion ++
        (Writer.u64 (.ofNat payload.length) ++
          (payload ++ (Writer.u64 (fnv1a64 payload) ++ s)))) := by
  rw [Writer.frame, List.flatten_cons, List.flatten_cons, List.flatten_cons, List.flatten_cons,
    List.flatten_cons, List.flatten_nil, List.append_nil, List.append_assoc, List.append_assoc,
    List.append_assoc, List.append_assoc]

theorem length_frame (payload : List UInt8) :
    (Writer.frame payload).length = payload.length + 24 := by
  have h := congrArg List.length (frame_parts payload [])
  simp only [List.append_nil, List.length_append] at h
  rw [h, Writer.length_u32, Writer.length_u32, Writer.length_u64, Writer.length_u64]
  omega

theorem reads_frame (payload : List UInt8) : ReadsAs True frame (Writer.frame payload) payload := by
  refine .of_eq fun s hs => ?_
  have hlen : payload.length < 2 ^ 64 := by
    rw [List.length_append, length_frame] at hs
    omega
  rw [frame_parts, frame_append, if_neg (not_not.mpr rfl), if_neg (not_not.mpr rfl),
    frameBody_append hlen, if_neg (not_not.mpr rfl)]

/-- What `decode` makes of a payload whose fields read well. -/
theorem decode_of_workload {order : EvalOrder} {bs : List UInt8} {w : Workload}
    (h : workload order bs = .ok (w, [])) :
    Workload.decode order bs =
      if !w.id.valid || w.generation.toU64 == 0 || w.revision.toU64 == 0 then
        .error (.returned .rejectUnknown)
      else .ok (w, []) := by
  rw [Workload.decode, bind_apply, h]
  simp only
  rw [bind_apply]
  show (if !([] : List UInt8).isEmpty then reject else
    if !w.id.valid || w.generation.toU64 == 0 || w.revision.toU64 == 0 then reject
    else pure w : Reader Workload) [] = _
  rw [if_neg (by decide)]
  split <;> rfl

end Reader

/-! ### The record -/

/-- The range checks and identity checks of `decode`. -/
structure Workload.Loadable (w : Workload) : Prop where
  contract : w.contract.Storable
  id : w.id.valid = true
  generation : w.generation.toU64 ≠ 0
  revision : w.revision.toU64 ≠ 0

/-- **What a record is decoded to.** -/
theorem decode_encode (order : EvalOrder) {w : Workload} (hw : w.SizesFit)
    (hd : w.deps.states.length = w.deps.defs.length) (hsize : (encodeWorkload w).length < 2 ^ 64) :
    (w.Loadable → decodeWorkload order (encodeWorkload w) = some (.allow, order.carried w)) ∧
      (¬w.Loadable → decodeWorkload order (encodeWorkload w) = some (.rejectUnknown, {})) := by
  have hpayload : w.encode.length < 2 ^ 64 := by
    rw [encodeWorkload, Reader.length_frame] at hsize
    omega
  have hframe := (Reader.reads_frame w.encode []
    (by rw [List.append_nil]; exact hsize)).1 trivial
  obtain ⟨hok, hno⟩ := Reader.reads_workload order hw hd []
    (by rw [List.append_nil]; exact hpayload)
  rw [List.append_nil] at hframe hok hno
  have hdecode : decodeWorkload order (encodeWorkload w) =
      report (Workload.decode order w.encode) := by
    rw [decodeWorkload, encodeWorkload, hframe]
    rfl
  rw [hdecode]
  -- the range checks are met inside the lists, the identity checks at the end
  by_cases hc : w.contract.Storable
  · rw [Reader.decode_of_workload (hok hc)]
    constructor
    · intro h
      rw [if_neg (by simp [EvalOrder.carried, h.id, h.generation, h.revision])]
      rfl
    · intro hn
      rw [if_pos ?_]
      · rfl
      · by_contra hc'
        simp only [EvalOrder.carried, Bool.or_eq_true, Bool.not_eq_true', beq_iff_eq, not_or,
          Bool.not_eq_false] at hc'
        exact hn ⟨hc, hc'.1.1, hc'.1.2, hc'.2⟩
  · rw [Workload.decode, Decoder.bind_apply, hno hc]
    exact ⟨fun h => absurd h.contract hc, fun _ => rfl⟩

/-- **The codec reads back what it wrote.**  A record is a vector of bytes, so its
length is a `size_t`. -/
theorem decodeWorkload_encodeWorkload {w : Workload} (hw : w.SizesFit)
    (hd : w.deps.states.length = w.deps.defs.length) (hc : w.contract.Storable)
    (hid : w.id.valid = true) (hgen : w.generation.toU64 ≠ 0) (hrev : w.revision.toU64 ≠ 0)
    (hsize : (encodeWorkload w).length < 2 ^ 64) :
    decodeWorkload .leftToRight (encodeWorkload w) =
      some (.allow, { w with episodeCounterForMigration := 2000 }) :=
  (decode_encode .leftToRight hw hd hsize).1 ⟨hc, hid, hgen, hrev⟩

/-- A fresh workload with a requirement and a dependency is read back. -/
theorem decodeWorkload_encodeWorkload_fresh :
    decodeWorkload .leftToRight (encodeWorkload
      { Workload.create (.fromU64 1) (text "w") (text "job") with
        contract := { reqs := [{}] }, deps := { defs := [{}], states := [{}] } }) =
      some (.allow, { Workload.create (.fromU64 1) (text "w") (text "job") with
        contract := { reqs := [{}] }, deps := { defs := [{}], states := [{}] } }) :=
  decodeWorkload_encodeWorkload ⟨by decide, by decide, by decide, by decide, by decide, by decide⟩
    rfl ⟨by simp [ResourceRequirement.Storable]; decide, by simp⟩ (by decide) (by decide)
    (by decide)
    (by decide +kernel)

end WorkloadFabric
