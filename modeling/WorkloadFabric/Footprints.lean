/-
An engine as a system of components.

The workloads of an engine share its episode counter, so the ids of their episodes tell
what was started elsewhere.  Callers may name an episode by its place among the
episodes of its workload instead (`SymbolicCall`).  Under such calls the engine is a
system of components, one for each workload id, that draw their names from one supply:

* **`Simulates.issueAll`** — a run of the engine is a run of that system;
* **`equivariant_footprints`** — the components treat the names alike, as long as no
  migration target gets an id of the engine's.
-/
import WorkloadFabric.Records
import WorkloadFabric.EpisodeSteps
import WorkloadFabric.Interleaving
import Mathlib.Algebra.Group.Action.Option

namespace WorkloadFabric

open Interleaving

/-! ### Calls that name episodes by their place -/

/-- The episode that a request names. -/
def Request.episode : Request → Option ExecutionEpisodeId
  | .admitDispatch episode _ _ => some episode
  | .progress episode _ _ _ => some episode
  | .episodeCompleted episode => some episode
  | _ => none

/-- A request that names the `k`-th episode created in the workload, or none. -/
inductive SymbolicRequest where
  | admitDispatch (k : ℕ) (worker : WorkerId) (boot : WorkerBootId)
  | progress (k : ℕ) (epGen : ExecutionEpisodeGeneration) (delta : UInt64) (durable : Bool)
  | episodeCompleted (k : ℕ)
  | plain (request : Request) (h : request.episode = none)

/-- A call on one workload. -/
inductive SymbolicCall where
  | create (name intent : Text) (policy : Policy)
  | on (request : SymbolicRequest)

/-- The id of the `k`-th episode, the invalid id while there is none. -/
def Workload.nthEpisodeId (w : Workload) (k : ℕ) : ExecutionEpisodeId :=
  match w.episodes[k]? with
  | some e => e.id
  | none => {}

/-- The request with the id that the place stands for. -/
def SymbolicRequest.resolve (w : Workload) : SymbolicRequest → Request
  | .admitDispatch k worker boot => .admitDispatch (w.nthEpisodeId k) worker boot
  | .progress k epGen delta durable => .progress (w.nthEpisodeId k) epGen delta durable
  | .episodeCompleted k => .episodeCompleted (w.nthEpisodeId k)
  | .plain request _ => request

/-- The call draws an episode id, if its workload is registered. -/
def SymbolicCall.starts : SymbolicCall → Bool
  | .on (.plain request _) => request.draws
  | _ => false

namespace WorkloadEngine

variable {σ : Type} [StateStore σ]

/-- The call as it is made on this engine, its episode looked up in a snapshot. -/
def resolve (e : WorkloadEngine σ) (id : WorkloadId) : SymbolicCall → EngineCall
  | .create name intent policy => .create id name intent policy
  | .on request => .on id (request.resolve (e.snapshot id))

def issue (e : WorkloadEngine σ) (x : WorkloadId × SymbolicCall) :
    EngineResult × WorkloadEngine σ := e.step (e.resolve x.1 x.2)

/-- The engine after an interleaving of calls on several workloads. -/
def issueAll (e : WorkloadEngine σ) (calls : List (WorkloadId × SymbolicCall)) :
    WorkloadEngine σ := calls.foldl (fun e x => (e.issue x).2) e

/-- The outcomes of the calls on `id`, in their order. -/
def outcomesOn (e : WorkloadEngine σ) (id : WorkloadId) :
    List (WorkloadId × SymbolicCall) → List Outcome
  | [] => []
  | x :: calls =>
    if x.1 = id then (e.issue x).1.outcome :: (e.issue x).2.outcomesOn id calls
    else (e.issue x).2.outcomesOn id calls

theorem issueAll_append (e : WorkloadEngine σ) (calls calls' : List (WorkloadId × SymbolicCall)) :
    e.issueAll (calls ++ calls') = (e.issueAll calls).issueAll calls' := List.foldl_append

end WorkloadEngine

/-! ### What a run leaves of one workload -/

/-- What is registered and what was last saved under an id, and the outcomes of the calls
on it. -/
structure Footprint where
  id : WorkloadId
  registered : Option Workload := none
  saved : Option Workload := none
  outcomes : List Outcome := []

namespace Footprint

/-- One call; `fresh` is the next id of the engine. -/
def step (s : Footprint) (c : SymbolicCall) (fresh : ExecutionEpisodeId) : Footprint :=
  match c, s.registered with
  | .create name intent policy, none =>
    let w := { Workload.create s.id name intent with policy := policy }
    { s with registered := some w, saved := some w, outcomes := s.outcomes ++ [.allow] }
  | .create _ _ _, some _ => { s with outcomes := s.outcomes ++ [.rejectDuplicateWorkload] }
  | .on _, none => { s with outcomes := s.outcomes ++ [.rejectWorkloadNotFound] }
  | .on request, some w =>
    let a := w.apply ((request.resolve w).operation fresh.toU64 w) none
    { s with
      registered := some a.workload
      saved := if a.outcome = .allow then some a.workload else s.saved
      outcomes := s.outcomes ++ [a.outcome] }

def draws (s : Footprint) (c : SymbolicCall) : Bool := c.starts && s.registered.isSome

/-- The counter for migration targets has moved once for each of them. -/
def Counted (s : Footprint) : Prop :=
  ∀ w, s.registered = some w →
    ∃ k ≤ w.episodes.length, w.episodeCounterForMigration = .ofNat (2000 + k)

/-- There are not so many episodes that this counter has come round to the ids of the engine. -/
def Fits (s : Footprint) : Prop :=
  ∀ w, s.registered = some w → w.episodes.length ≤ 2 ^ 64 - 1000

instance : MulAction (Equiv.Perm ExecutionEpisodeId) Footprint where
  smul ρ s := { s with registered := ρ • s.registered, saved := ρ • s.saved }
  one_smul s := by
    show ({ s with registered := _, saved := _ } : Footprint) = s
    rw [one_smul, one_smul]
  mul_smul ρ ρ' s := by
    show ({ s with registered := _, saved := _ } : Footprint) =
      { s with registered := _, saved := _ }
    rw [mul_smul, mul_smul]
    rfl

end Footprint

/-! ### The names -/

/-- The id that the engine draws after `k` others. -/
def drawnId (k : ℕ) : ExecutionEpisodeId := .fromU64 (.ofNat (1000 + k))

theorem drawnId_injOn : Set.InjOn drawnId (Set.Iio 1000) := by
  intro k hk m hm h
  have hn := congrArg (fun u : ExecutionEpisodeId => u.toU64.toNat) h
  rw [Set.mem_Iio] at hk hm
  simp only [drawnId, UniqueValue.toU64_fromU64, UInt64.toNat_ofNat'] at hn
  omega

/-- The ids outside of 1000 to 1999 are not moved. -/
theorem fixes_of_moves {ρ : Equiv.Perm ExecutionEpisodeId} (hρ : Moves drawnId 1000 ρ)
    {id : ExecutionEpisodeId} (hid : id.toU64 < 1000 ∨ 2000 ≤ id.toU64) : ρ id = id := by
  refine hρ id fun k hk h => ?_
  have heq := congrArg (fun u : ExecutionEpisodeId => u.toU64.toNat) h
  simp only [drawnId, UniqueValue.toU64_fromU64, UInt64.toNat_ofNat'] at heq
  rw [UInt64.lt_iff_toNat_lt, UInt64.le_iff_toNat_le, ← heq] at hid
  simp only [UInt64.reduceToNat] at hid
  omega

theorem fixes_invalid {ρ : Equiv.Perm ExecutionEpisodeId} (hρ : Moves drawnId 1000 ρ) :
    ρ {} = {} := fixes_of_moves hρ (.inl (by decide))

theorem nthEpisodeId_smul {ρ : Equiv.Perm ExecutionEpisodeId} (hρ : Moves drawnId 1000 ρ)
    (w : Workload) (k : ℕ) : (ρ • w).nthEpisodeId k = ρ (w.nthEpisodeId k) := by
  have hget : (ρ • w).episodes[k]? = w.episodes[k]?.map (Episode.relabel ρ) := List.getElem?_map
  rw [Workload.nthEpisodeId, hget, Workload.nthEpisodeId]
  cases w.episodes[k]? with
  | some e => rfl
  | none => exact (fixes_invalid hρ).symm

/-- A request on a renamed workload performs the renamed operation. -/
theorem operation_smul {ρ : Equiv.Perm ExecutionEpisodeId} (hρ : Moves drawnId 1000 ρ)
    (w : Workload) (r : SymbolicRequest) (fresh : ExecutionEpisodeId) :
    (r.resolve (ρ • w)).operation (ρ fresh).toU64 (ρ • w) =
      ((r.resolve w).operation fresh.toU64 w).relabel ρ := by
  cases r with
  | admitDispatch k worker boot =>
    exact congrArg (WorkloadOp.admitDispatch · worker boot) (nthEpisodeId_smul hρ w k)
  | progress k epGen delta durable =>
    exact congrArg (WorkloadOp.reportProgress · epGen delta durable) (nthEpisodeId_smul hρ w k)
  | episodeCompleted k =>
    exact congrArg WorkloadOp.markEpisodeCompleted (nthEpisodeId_smul hρ w k)
  | plain request h =>
    cases request with
    | admitDispatch => exact absurd h nofun
    | progress => exact absurd h nofun
    | episodeCompleted => exact absurd h nofun
    | _ => rfl

theorem draws_resolve (r : SymbolicRequest) (w : Workload) :
    (r.resolve w).draws = (SymbolicCall.on r).starts := by
  cases r <;> rfl

/-- What draws no id does not look at the counter. -/
theorem operation_of_not_starts {r : SymbolicRequest} (h : (SymbolicCall.on r).starts = false)
    (w : Workload) (c c' : UInt64) :
    (r.resolve w).operation c w = (r.resolve w).operation c' w := by
  cases r with
  | plain request hr =>
    cases request with
    | startEpisode => exact absurd h (by simp [SymbolicCall.starts, Request.draws])
    | _ => rfl
  | _ => rfl

/-- The counter moves with hand-overs only, and these leave an episode each. -/
theorem Workload.Step.counter_cases {w w' : Workload} {op : WorkloadOp} {o : Outcome}
    (h : Step w op o w') :
    w'.episodeCounterForMigration = w.episodeCounterForMigration ∨
      (w'.episodeCounterForMigration = w.episodeCounterForMigration + 1 ∧
        w'.episodes.length = w.episodes.length + 1) := by
  by_cases hm : w.Migrates op
  · cases op with
    | commitMigration g worker boot =>
      cases h with
      | rejected => exact .inl rfl
      | commitMigration =>
        obtain ⟨ep, hsucc, -⟩ := w.migrated_succeeds worker boot
        exact .inr ⟨migrated_episodeCounterForMigration .., hsucc.length⟩
    | _ => exact hm.elim
  · exact .inl (h.counter_eq hm)

/-- A hand-over that is asked for at the right time is made. -/
theorem Workload.Step.length_of_migrates {w w' : Workload} {op : WorkloadOp} {o : Outcome}
    (h : Step w op o w') (hm : w.Migrates op) : w'.episodes.length = w.episodes.length + 1 := by
  cases op with
  | commitMigration g worker boot =>
    cases h with
    | rejected _ hn => exact absurd hm hn
    | commitMigration =>
      obtain ⟨ep, hsucc, -⟩ := w.migrated_succeeds worker boot
      exact hsucc.length
  | _ => exact hm.elim

/-- What a call makes of the workload that is registered. -/
theorem Footprint.registered_step (s : Footprint) (c : SymbolicCall) (fresh : ExecutionEpisodeId) :
    (s.step c fresh).registered = s.registered ∨
      (∃ name intent policy, s.registered = none ∧ (s.step c fresh).registered =
        some { Workload.create s.id name intent with policy := policy }) ∨
      ∃ w op o w', s.registered = some w ∧ w.Step op o w' ∧
        (s.step c fresh).registered = some w' := by
  obtain ⟨id, _ | w, saved, outcomes⟩ := s
  · cases c with
    | create name intent policy => exact .inr (.inl ⟨name, intent, policy, rfl, rfl⟩)
    | on r => exact .inl rfl
  · cases c with
    | create => exact .inl rfl
    | on r => exact .inr (.inr ⟨w, _, _, _, rfl, w.apply_step none _, rfl⟩)

theorem Footprint.Counted.step {s : Footprint} (h : s.Counted) (c : SymbolicCall)
    (fresh : ExecutionEpisodeId) : (s.step c fresh).Counted := by
  intro w' hw'
  rcases s.registered_step c fresh with heq | ⟨name, intent, policy, -, hnew⟩ |
    ⟨w, op, o, w'', hw, hs, hnew⟩
  · exact h w' (heq ▸ hw')
  · obtain rfl := Option.some.inj (hnew.symm.trans hw')
    exact ⟨0, Nat.le_refl _, rfl⟩
  · obtain rfl := Option.some.inj (hnew.symm.trans hw')
    obtain ⟨k, hle, hk⟩ := h w hw
    rcases hs.counter_cases with hc | ⟨hc, hlength⟩
    · exact ⟨k, hle.trans hs.length_le, hc.trans hk⟩
    · refine ⟨k + 1, by omega, hc.trans ?_⟩
      rw [hk]
      exact (UInt64.ofNat_add (2000 + k) 1).symm

/-- Episodes are not taken out. -/
theorem Footprint.fits_of_step {s : Footprint} {c : SymbolicCall} {fresh : ExecutionEpisodeId}
    (h : (s.step c fresh).Fits) : s.Fits := by
  intro w hw
  rcases s.registered_step c fresh with heq | ⟨_, _, _, hnone, -⟩ | ⟨w₁, op, o, w', hw₁, hs, hnew⟩
  · exact h w (heq.trans hw)
  · exact absurd (hw.symm.trans hnone) (by simp)
  · obtain rfl := Option.some.inj (hw₁.symm.trans hw)
    exact hs.length_le.trans (h w' hnew)

theorem Footprint.step_id (s : Footprint) (c : SymbolicCall) (fresh : ExecutionEpisodeId) :
    (s.step c fresh).id = s.id := by
  obtain ⟨id, _ | w, saved, outcomes⟩ := s <;> cases c <;> rfl

/-- The target of a hand-over has no id of the engine's. -/
theorem Footprint.target_fixed {s : Footprint} (h : s.Counted) {c : SymbolicCall}
    {fresh : ExecutionEpisodeId} (hfits : (s.step c fresh).Fits) {w w' : Workload}
    {op : WorkloadOp} {o : Outcome} (hw : s.registered = some w)
    (hw' : (s.step c fresh).registered = some w') (hs : w.Step op o w') (hm : w.Migrates op)
    {ρ : Equiv.Perm ExecutionEpisodeId} (hρ : Moves drawnId 1000 ρ) :
    ρ (.fromU64 w.episodeCounterForMigration) = .fromU64 w.episodeCounterForMigration := by
  obtain ⟨k, hle, hk⟩ := h w hw
  have hlength := hs.length_of_migrates hm
  have hroom := hfits w' hw'
  refine fixes_of_moves hρ ?_
  rw [UniqueValue.toU64_fromU64, hk, UInt64.lt_iff_toNat_lt, UInt64.le_iff_toNat_le,
    UInt64.toNat_ofNat']
  simp only [UInt64.reduceToNat]
  omega

/-- A fresh workload has no ids of the engine. -/
theorem created_smul {ρ : Equiv.Perm ExecutionEpisodeId} (hρ : Moves drawnId 1000 ρ)
    (id : WorkloadId) (name intent : Text) (policy : Policy) :
    ρ • ({ Workload.create id name intent with policy := policy } : Workload) =
      { Workload.create id name intent with policy := policy } :=
  congrArg (fun u => { Workload.create id name intent with
    policy := policy
    lastSourceEpisode := u }) (fixes_invalid hρ)

/-- An engine as a system of components. -/
def footprints : Component Footprint SymbolicCall ExecutionEpisodeId :=
  ⟨Footprint.step, Footprint.draws⟩

/-- **The workloads treat the ids of the engine alike.** -/
theorem equivariant_footprints :
    Equivariant footprints drawnId 1000 Footprint.Counted Footprint.Fits where
  names := drawnId_injOn
  step {ρ s c} fresh hρ hs hfits := by
    obtain ⟨id, _ | w, saved, outcomes⟩ := s
    · cases c with
      | create name intent policy =>
        show Footprint.mk id _ _ _ = Footprint.mk id (some (ρ • _)) (some (ρ • _)) _
        rw [created_smul hρ]
        rfl
      | on r => rfl
    · cases c with
      | create => rfl
      | on r =>
        obtain ⟨ho, hw⟩ := Workload.apply_smul (fun hm =>
          Footprint.target_fixed hs hfits rfl rfl (w.apply_step none _) hm hρ) none
        rw [← operation_smul hρ] at ho hw
        show Footprint.mk id (some _) (if _ then some _ else _) (_ ++ [_]) =
          Footprint.mk id (some (ρ • _)) (ρ • if _ then some _ else _) (_ ++ [_])
        rw [ho, hw, apply_ite (ρ • ·)]
        rfl
  draws ρ s c := by
    obtain ⟨id, _ | w, saved, outcomes⟩ := s <;> rfl
  ignores {s c} t t' h := by
    obtain ⟨id, _ | w, saved, outcomes⟩ := s
    · cases c <;> rfl
    · cases c with
      | create => rfl
      | on r =>
        have hr : (SymbolicCall.on r).starts = false := (Bool.and_true _).symm.trans h
        have hop := operation_of_not_starts hr w t.toU64 t'.toU64
        show Footprint.mk id (some (w.apply _ _).workload) (if _ then some _ else _) _ = _
        rw [hop]
        rfl
  inv t hs := hs.step _ t
  fits _ hfits := Footprint.fits_of_step hfits
  fits_smul ρ s hfits w hw := by
    obtain ⟨id, reg, saved, outcomes⟩ := s
    obtain ⟨w₀, rfl, rfl⟩ := Option.map_eq_some_iff.mp hw
    exact (List.length_map _).trans_le (hfits w₀ rfl)

/-! ### The engine is such a system -/

namespace WorkloadEngine

variable {order : EvalOrder} {store : Option (MemoryStateStore order)}

/-- The footprint says what the engine holds under its id. -/
structure Leaves (store : Option (MemoryStateStore order))
    (e : WorkloadEngine (MemoryStateStore order)) (s : Footprint) : Prop where
  get : e.get s.id = s.registered
  own : ∀ w, e.get s.id = some w → w.id = s.id
  record : e.store.isSome = true →
    e.record s.id = (s.saved.map encodeWorkload).or ((ofStore store).record s.id)

/-- The engine is the system of the footprints. -/
structure Simulates (store : Option (MemoryStateStore order))
    (e : WorkloadEngine (MemoryStateStore order)) (g : System WorkloadId Footprint) : Prop where
  counter : e.episodeCounter = (drawnId g.drawn).toU64
  hasStore : e.store.isSome = store.isSome
  ids : ∀ id, (g.state id).id = id
  leaves : ∀ id, Leaves store e (g.state id)

/-- What a call on `id` leaves of other workloads. -/
def KeepsOthers (id : WorkloadId) (e e' : WorkloadEngine (MemoryStateStore order)) : Prop :=
  e'.store.isSome = e.store.isSome ∧ ∀ id', id ≠ id' →
    e'.get id' = e.get id' ∧ (e.store.isSome = true → e'.record id' = e.record id')

theorem KeepsOthers.refl (id : WorkloadId) (e : WorkloadEngine (MemoryStateStore order)) :
    KeepsOthers id e e := ⟨rfl, fun _ _ => ⟨rfl, fun _ => rfl⟩⟩

theorem Leaves.of_kept {e e' : WorkloadEngine (MemoryStateStore order)} {s : Footprint}
    (h : Leaves store e s) {id : WorkloadId} (hk : KeepsOthers id e e') (hid : id ≠ s.id) :
    Leaves store e' s where
  get := (hk.2 s.id hid).1.trans h.get
  own w hw := h.own w ((hk.2 s.id hid).1.symm.trans hw)
  record hs := ((hk.2 s.id hid).2 (hk.1.symm.trans hs)).trans (h.record (hk.1.symm.trans hs))

/-- The call does to the engine what it does to the footprint. -/
structure Agrees (store : Option (MemoryStateStore order))
    (e : WorkloadEngine (MemoryStateStore order)) (s : Footprint) (c : SymbolicCall) : Prop where
  leaves : Leaves store (e.issue (s.id, c)).2 (s.step c (.fromU64 e.episodeCounter))
  outcomes : (s.step c (.fromU64 e.episodeCounter)).outcomes =
    s.outcomes ++ [(e.issue (s.id, c)).1.outcome]
  counter : (e.issue (s.id, c)).2.episodeCounter =
    if s.draws c then e.episodeCounter + 1 else e.episodeCounter
  others : KeepsOthers s.id e (e.issue (s.id, c)).2

section Issue

variable {e : WorkloadEngine (MemoryStateStore order)} {s : Footprint} {c : SymbolicCall}

/-- A call that is turned away leaves an outcome. -/
theorem agrees_of_refused (h : Leaves store e s) {o : Outcome}
    (hissue : e.issue (s.id, c) = ({ outcome := o }, e))
    (hstep : s.step c (.fromU64 e.episodeCounter) = { s with outcomes := s.outcomes ++ [o] })
    (hdraws : s.draws c = false) : Agrees store e s c := by
  refine ⟨?_, ?_, ?_, ?_⟩
  · rw [hissue, hstep]
    exact ⟨h.get, h.own, h.record⟩
  · rw [hissue, hstep]
  · rw [hissue, hdraws]
    rfl
  · rw [hissue]
    exact .refl ..

/-- A call that registers a workload, or performs an operation on it, saves it if it is
accepted. -/
theorem agrees_of_performed (h : Leaves store e s) {w : Workload} (hw : w.id = s.id) {o : Outcome}
    (hstep : s.step c (.fromU64 e.episodeCounter) = { s with
      registered := some w
      saved := if o = .allow then some w else s.saved
      outcomes := s.outcomes ++ [o] })
    (houtcome : (e.issue (s.id, c)).1.outcome = o)
    (hcounter : (e.issue (s.id, c)).2.episodeCounter =
      if s.draws c then e.episodeCounter + 1 else e.episodeCounter)
    (hget : ∀ id, (e.issue (s.id, c)).2.get id = if s.id = id then some w else e.get id)
    (hstore : (e.issue (s.id, c)).2.store =
      if o = .allow then e.store.map fun st => (StateStore.save st w).2 else e.store) :
    Agrees store e s c := by
  have hsome : (e.issue (s.id, c)).2.store.isSome = e.store.isSome := by
    rw [hstore]
    split
    · exact Option.isSome_map
    · rfl
  have hrecord (hs : e.store.isSome = true) (id : WorkloadId) :
      (e.issue (s.id, c)).2.record id =
        if o = .allow ∧ s.id = id then some (encodeWorkload w) else e.record id := by
    by_cases ho : o = .allow
    · rw [if_pos ho] at hstore
      rw [record_of_save hstore hs, hw]
      simp only [ho, true_and]
    · rw [if_neg ho] at hstore
      rw [if_neg fun h => ho h.1, record, record, hstore]
  refine ⟨?_, by rw [hstep, houtcome], hcounter, hsome, fun id hid => ?_⟩
  · rw [hstep]
    refine ⟨(hget s.id).trans (if_pos rfl), fun w' hw' => ?_, fun hs => ?_⟩
    · rw [hget, if_pos rfl, Option.some.injEq] at hw'
      exact hw' ▸ hw
    · rw [hsome] at hs
      rw [hrecord hs]
      by_cases ho : o = .allow
      · rw [if_pos ⟨ho, rfl⟩, if_pos ho]
        rfl
      · rw [if_neg fun h => ho h.1, if_neg ho]
        exact h.record hs
  · exact ⟨(hget id).trans (if_neg hid), fun hs => (hrecord hs id).trans (if_neg fun h => hid h.2)⟩

/-- **Every call does to the engine what it does to the footprint.** -/
theorem agrees (h : Leaves store e s) (c : SymbolicCall) : Agrees store e s c := by
  obtain ⟨id, reg, saved, outcomes⟩ := s
  cases c with
  | create name intent policy =>
    cases reg with
    | none =>
      obtain ⟨ho, hcounter, hget⟩ := e.step_create_none h.get name intent policy
      exact agrees_of_performed h rfl rfl ho hcounter hget
        (e.step_create_store h.get name intent policy)
    | some w => exact agrees_of_refused h (e.step_create_some h.get name intent policy) rfl rfl
  | on r =>
    cases reg with
    | none => exact agrees_of_refused h (e.step_on_none h.get _) rfl (Bool.and_false _)
    | some w =>
      have hsnapshot : e.snapshot id = w := by
        rw [snapshot, h.get]
        rfl
      have hissue : e.issue (id, .on r) = e.step (.on id (r.resolve w)) := by
        rw [issue, resolve, hsnapshot]
      obtain ⟨ho, hcounter, hget⟩ := e.step_on_some h.get (r.resolve w)
      have hstore := e.step_on_store h.get (r.resolve w)
      have hdraws : (r.resolve w).draws = Footprint.draws ⟨id, some w, saved, outcomes⟩ (.on r) :=
        (draws_resolve r w).trans (Bool.and_true _).symm
      rw [← hissue] at ho hcounter hget hstore
      rw [hdraws] at hcounter
      exact agrees_of_performed h ((w.apply_step none _).id_eq.trans (h.own w h.get)) rfl ho
        hcounter hget hstore

end Issue

/-- **One call of the engine is one action of the system.** -/
theorem Simulates.issue {e : WorkloadEngine (MemoryStateStore order)}
    {g : System WorkloadId Footprint} (h : Simulates store e g) (x : WorkloadId × SymbolicCall) :
    Simulates store (e.issue x).2 (act footprints drawnId g x) ∧
      ((act footprints drawnId g x).state x.1).outcomes =
        (g.state x.1).outcomes ++ [(e.issue x).1.outcome] := by
  obtain ⟨id, c⟩ := x
  obtain ⟨hleaves, houtcomes, hcounter, hsome, hothers⟩ := agrees (h.leaves id) c
  rw [h.ids] at hleaves houtcomes hcounter hsome hothers
  have hname : drawnId g.drawn = .fromU64 e.episodeCounter := by
    rw [h.counter]
    rfl
  have hstate : (act footprints drawnId g (id, c)).state id =
      (g.state id).step c (.fromU64 e.episodeCounter) := by
    rw [act_state_self, hname]
    rfl
  refine ⟨⟨?_, hsome.trans h.hasStore, fun id' => ?_, fun id' => ?_⟩, ?_⟩
  · rw [hcounter, h.counter, act]
    show _ = (drawnId (if (g.state id).draws c = true then _ else _)).toU64
    split
    · exact (UInt64.ofNat_add (1000 + g.drawn) 1).symm
    · rfl
  · by_cases hid : id' = id
    · rw [hid, hstate, Footprint.step_id, h.ids]
    · rw [act_state_of_ne g hid, h.ids]
  · by_cases hid : id' = id
    · rw [hid, hstate]
      exact hleaves
    · rw [act_state_of_ne g hid]
      exact (h.leaves id').of_kept ⟨hsome, hothers⟩ (by rwa [h.ids, ne_comm])
  · rw [hstate]
    exact houtcomes

/-- **A run of the engine is a run of the system.** -/
theorem Simulates.issueAll {e : WorkloadEngine (MemoryStateStore order)}
    {g : System WorkloadId Footprint} (h : Simulates store e g)
    (calls : List (WorkloadId × SymbolicCall)) :
    Simulates store (e.issueAll calls) (Interleaving.run footprints drawnId g calls) ∧
      ∀ id, ((Interleaving.run footprints drawnId g calls).state id).outcomes =
        (g.state id).outcomes ++ e.outcomesOn id calls := by
  induction calls generalizing e g with
  | nil => exact ⟨h, fun id => (List.append_nil _).symm⟩
  | cons x calls ih =>
    obtain ⟨hnext, houtcome⟩ := h.issue x
    obtain ⟨hrun, houtcomes⟩ := ih hnext
    refine ⟨hrun, fun id => (houtcomes id).trans ?_⟩
    rw [outcomesOn]
    by_cases hid : x.1 = id
    · subst hid
      rw [if_pos rfl, houtcome, List.append_assoc]
      rfl
    · rw [if_neg hid, act_state_of_ne g (Ne.symm hid)]

/-- The system of a fresh engine. -/
def unregistered : System WorkloadId Footprint := ⟨fun id => { id := id }, 0⟩

theorem simulates_ofStore (store : Option (MemoryStateStore order)) :
    Simulates store (ofStore store) unregistered where
  counter := rfl
  hasStore := rfl
  ids _ := rfl
  leaves id := ⟨rfl, fun _ hw => absurd hw (by simp [ofStore, get]), fun _ => rfl⟩

theorem ready_unregistered {calls : List (WorkloadId × SymbolicCall)}
    (hstarts : calls.countP (·.2.starts) < 1000)
    (hfits : ∀ id, ((Interleaving.run footprints drawnId unregistered calls).state id).Fits) :
    Ready footprints drawnId 1000 Footprint.Counted Footprint.Fits unregistered calls where
  inv _ _ hw := absurd hw (by simp [unregistered])
  fits := hfits
  fresh _ _ _ _ := rfl
  enough := by
    have hdraws (s : Footprint) (c : SymbolicCall) (h : footprints.draws s c = true) :
        c.starts = true := (Bool.and_eq_true_iff.mp h).1
    have hrun : (Interleaving.run footprints drawnId unregistered calls).drawn ≤
        0 + calls.countP (·.2.starts) := drawn_run_le hdraws unregistered calls
    omega

theorem Simulates.get_eq {e : WorkloadEngine (MemoryStateStore order)}
    {g : System WorkloadId Footprint} (h : Simulates store e g) (id : WorkloadId) :
    e.get id = (g.state id).registered := by
  have hget := (h.leaves id).get
  rwa [h.ids] at hget

/-- Nothing is in the store but what was there before or was saved. -/
theorem Simulates.record_eq {e : WorkloadEngine (MemoryStateStore order)}
    {g : System WorkloadId Footprint} (h : Simulates store e g) (id : WorkloadId) :
    e.record id = if store.isSome then
      ((g.state id).saved.map encodeWorkload).or ((ofStore store).record id) else none := by
  have hrecord := (h.leaves id).record
  rw [h.ids, h.hasStore] at hrecord
  split
  · next hs => exact hrecord hs
  · next hs =>
    have hnone : e.store = none := by
      rw [← h.hasStore] at hs
      simpa using hs
    rw [record, hnone]
    rfl

end WorkloadEngine

end WorkloadFabric
