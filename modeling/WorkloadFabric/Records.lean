/-
The records that an engine keeps in its store.

A workload is saved under its id when a call on it is accepted, and at no other time
(`step_record_cases`).  So after every run the record of a registered workload is the
encoding of a workload that was registered before, and has the same contract still
(`backed_of_run`): a rejected call does not touch the contract, and it is the contract
and the id that decide whether a record loads (`Sound.loadable_iff`).
-/
import WorkloadFabric.AuditTrail
import WorkloadFabric.Authority
import WorkloadFabric.Reload

namespace WorkloadFabric

open FirstMatch

namespace MemoryStateStore

variable {order : EvalOrder}

/-- The record stored under an id. -/
def record (s : MemoryStateStore order) (id : WorkloadId) : Option (List UInt8) :=
  (s.records.find? (·.1 == id)).map (·.2)

theorem record_save (s : MemoryStateStore order) (w : Workload) :
    (s.save w).2.record w.id = some (encodeWorkload w) := by
  have hmod := find?_modifyFirst_self (p := fun p : WorkloadId × List UInt8 => p.1 == w.id)
    (f := fun p => (p.1, encodeWorkload w)) (fun _ => rfl) s.records
  rw [save, ← List.isSome_find?]
  cases hf : s.records.find? (·.1 == w.id) with
  | some p =>
    rw [hf] at hmod
    exact congrArg (Option.map Prod.snd) hmod
  | none =>
    rw [if_neg (by simp), record, List.find?_append, hf]
    simp

theorem record_save_of_ne (s : MemoryStateStore order) {w : Workload} {id : WorkloadId}
    (h : w.id ≠ id) : (s.save w).2.record id = s.record id := by
  have hneg (p : WorkloadId × List UInt8) (hp : (p.1 == w.id) = true) : (p.1 == id) = false := by
    rw [beq_iff_eq] at hp
    rwa [hp, beq_eq_false_iff_ne]
  have hmod := find?_modifyFirst_of_neg (f := fun p => (p.1, encodeWorkload w))
    (fun p hp => ⟨hneg p hp, hneg p hp⟩) s.records
  rw [save]
  split
  · exact congrArg (Option.map Prod.snd) hmod
  · rw [record, List.find?_append, record]
    simp [h]

/-- A record that decodes is loaded. -/
theorem load_of_allow {s : MemoryStateStore order} {id : WorkloadId} {bs : List UInt8}
    {w : Workload} (h : s.record id = some bs) (hd : decodeWorkload order bs = some (.allow, w)) :
    s.load id = some { workload := some w, outcome := .allow } := by
  obtain ⟨p, hp, rfl⟩ := Option.map_eq_some_iff.mp h
  rw [load, hp]
  show (decodeWorkload order p.2).bind _ = _
  rw [hd]
  rfl

/-- A record that is rejected is reported as corrupt. -/
theorem load_of_reject {s : MemoryStateStore order} {id : WorkloadId} {bs : List UInt8}
    (h : s.record id = some bs) (hd : decodeWorkload order bs = some (.rejectUnknown, {})) :
    s.load id = some { outcome := .rejectUnknown, error := text "corrupt record" } := by
  obtain ⟨p, hp, rfl⟩ := Option.map_eq_some_iff.mp h
  rw [load, hp]
  show (decodeWorkload order p.2).bind _ = _
  rw [hd]
  rfl

end MemoryStateStore

/-! ### Workloads whose records can be read -/

namespace Workload

/-- Every list fits its count field, and the record fits in memory. -/
structure Fits (w : Workload) : Prop where
  sizes : w.SizesFit
  record : (encodeWorkload w).length < 2 ^ 64

instance (w : Workload) : Decidable w.Fits :=
  decidable_of_iff (w.contract.reqs.length < 2 ^ 32 ∧ w.contract.grant.bindings.length < 2 ^ 32 ∧
      w.deps.defs.length < 2 ^ 32 ∧ w.deps.states.length < 2 ^ 32 ∧ w.episodes.length < 2 ^ 32 ∧
      w.history.length < 2 ^ 32 ∧ (encodeWorkload w).length < 2 ^ 64)
    ⟨fun h => ⟨⟨h.1, h.2.1, h.2.2.1, h.2.2.2.1, h.2.2.2.2.1, h.2.2.2.2.2.1⟩, h.2.2.2.2.2.2⟩,
      fun h => ⟨h.sizes.reqs, h.sizes.bindings, h.sizes.defs, h.sizes.states, h.sizes.episodes,
        h.sizes.history, h.record⟩⟩

/-- A workload of a run that fits. -/
structure Sound (w : Workload) : Prop where
  reachable : w.Reachable
  authority : w.Authority
  fits : w.Fits

/-- The identity checks of `decode` come down to the one on the id: generation and
revision count from 1, and do not come round while the lists fit. -/
theorem Sound.loadable_iff {w : Workload} (h : w.Sound) :
    w.Loadable ↔ w.id.valid = true ∧ w.contract.Storable := by
  have hgeneration : w.generation.toU64 ≠ 0 := by
    intro h0
    have hfence := h.authority.fence
    have hepisodes := h.fits.sizes.episodes
    rw [h0, UInt64.toNat_zero] at hfence
    omega
  have hrevision : w.revision.toU64 ≠ 0 := by
    intro h0
    have hhistory := h.fits.sizes.history
    have hrev := h.reachable.auditTrail.revision (by omega)
    rw [h0, UInt64.toNat_zero] at hrev
    omega
  exact ⟨fun hl => ⟨hl.id, hl.contract⟩, fun hl => ⟨hl.2, hl.1, hgeneration, hrevision⟩⟩

/-- A sound workload is decoded from its record, or the record is rejected. -/
theorem Sound.decode {w : Workload} (h : w.Sound) (order : EvalOrder) :
    (w.Loadable → decodeWorkload order (encodeWorkload w) = some (.allow, order.carried w)) ∧
      (¬w.Loadable → decodeWorkload order (encodeWorkload w) = some (.rejectUnknown, {})) :=
  decode_encode order h.fits.sizes h.reachable.states_length h.fits.record

/-- A rejected operation leaves the contract as it was. -/
theorem Step.contract_of_rejected {w w' : Workload} {op : WorkloadOp} {o : Outcome}
    (h : Step w op o w') (ho : o ≠ .allow) : w'.contract = w.contract := by
  have hcontract : w'.contract = (w.regated op).2 := congrArg Prod.snd h.gates
  cases op with
  | addRequirement req =>
    cases h with
    | rejected => rfl
    | addRequirement => exact absurd rfl ho
  | applyGrant grant =>
    cases h with
    | rejected => rfl
    | applyGrant => exact absurd rfl ho
  | _ => exact hcontract

end Workload

/-! ### What one call saves -/

namespace WorkloadEngine

section Store

variable {σ : Type} [StateStore σ] (e : WorkloadEngine σ)

theorem withWorkload_store {id : WorkloadId} {w : Workload} (h : e.get id = some w)
    (mutate : Workload → Effect) :
    (e.withWorkload id mutate).2.store =
      if (mutate w).outcome = .allow then
        e.store.map fun s => (StateStore.save s (mutate w).workload).2
      else e.store := by
  rw [withWorkload, h]
  simp only [isAllow_iff]
  split <;> rfl

/-- A request is saved if it is accepted. -/
theorem step_on_store {id : WorkloadId} {w : Workload} (h : e.get id = some w) (r : Request) :
    (e.step (.on id r)).2.store =
      if (w.apply (r.operation e.episodeCounter w) none).outcome = .allow then
        e.store.map fun s =>
          (StateStore.save s (w.apply (r.operation e.episodeCounter w) none).workload).2
      else e.store := by
  cases r
  case validate =>
    rw [step, validate, h]
    exact e.withWorkload_store h _
  case startEpisode =>
    rw [step, startEpisode, h]
    exact withWorkload_store { e with episodeCounter := e.episodeCounter + 1 } h _
  all_goals exact e.withWorkload_store h _

theorem step_create_store {id : WorkloadId} (h : e.get id = none) (name intent : Text)
    (policy : Policy) :
    (e.step (.create id name intent policy)).2.store = e.store.map fun s =>
      (StateStore.save s { Workload.create id name intent with policy := policy }).2 := by
  rw [step, create, h]
  rfl

/-- An engine with a store keeps one. -/
theorem isSome_store_step (c : EngineCall) : (e.step c).2.store.isSome = e.store.isSome := by
  cases c with
  | create id name intent policy =>
    cases h : e.get id with
    | some w => rw [e.step_create_some h]
    | none => rw [e.step_create_store h, Option.isSome_map]
  | on id r =>
    cases h : e.get id with
    | none => rw [e.step_on_none h]
    | some w =>
      rw [e.step_on_store h]
      split
      · rw [Option.isSome_map]
      · rfl

theorem isSome_store_run (calls : List EngineCall) :
    (e.run calls).store.isSome = e.store.isSome := by
  induction calls generalizing e with
  | nil => rfl
  | cons c calls ih => exact (ih (e.step c).2).trans (e.isSome_store_step c)

/-- A workload is registered under its id. -/
theorem id_of_run {store : Option σ} {calls : List EngineCall} {id : WorkloadId} {w : Workload}
    (h : ((ofStore store).run calls).get id = some w) : w.id = id := by
  refine workload_induction (P := fun _ w => w.id = id) ?_ ?_ ?_ calls h
  · exact fun _ _ _ _ _ => rfl
  · exact fun _ _ _ _ _ hid => hid
  · exact fun _ _ w _ hid => (w.apply_step none _).id_eq.trans hid

end Store

variable {order : EvalOrder}

/-- The record in the store of the engine. -/
def record (e : WorkloadEngine (MemoryStateStore order)) (id : WorkloadId) :
    Option (List UInt8) := e.store.bind (·.record id)

theorem record_of_save {e e' : WorkloadEngine (MemoryStateStore order)} {w : Workload}
    (h : e'.store = e.store.map fun s => (StateStore.save s w).2) (hs : e.store.isSome = true)
    (id : WorkloadId) :
    e'.record id = if w.id = id then some (encodeWorkload w) else e.record id := by
  obtain ⟨s, hs⟩ := Option.isSome_iff_exists.mp hs
  rw [record, h, record, hs]
  by_cases hid : w.id = id
  · rw [if_pos hid, ← hid]
    exact s.record_save w
  · rw [if_neg hid]
    exact s.record_save_of_ne hid

/-- **What one call does to a workload and to its record.**  It lets both alone, or
registers and saves a fresh workload, or takes a step and saves what comes out if it is
accepted. -/
theorem step_record_cases (e : WorkloadEngine (MemoryStateStore order))
    (hs : e.store.isSome = true) (hid : ∀ id w, e.get id = some w → w.id = id) (id : WorkloadId)
    (c : EngineCall) :
    ((e.step c).2.get id = e.get id ∧ (e.step c).2.record id = e.record id ∧
      ∀ r, c = .on id r → e.get id = none) ∨
    (∃ name intent policy, c = .create id name intent policy ∧ e.get id = none ∧
      (e.step c).2.get id = some { Workload.create id name intent with policy := policy } ∧
      (e.step c).2.record id =
        some (encodeWorkload { Workload.create id name intent with policy := policy })) ∨
    ∃ r w w', c = .on id r ∧ e.get id = some w ∧ (e.step c).2.get id = some w' ∧
      w.Step (r.operation e.episodeCounter w) (e.step c).1.outcome w' ∧
      (e.step c).2.record id =
        if (e.step c).1.outcome = .allow then some (encodeWorkload w') else e.record id := by
  cases c with
  | create id' name intent policy =>
    cases h : e.get id' with
    | some w =>
      rw [e.step_create_some h]
      exact .inl ⟨rfl, rfl, fun r hr => absurd hr (by simp)⟩
    | none =>
      have hget := (e.step_create_none h name intent policy).2.2 id
      have hrecord := record_of_save (e.step_create_store h name intent policy) hs id
      by_cases heq : id' = id
      · subst heq
        rw [if_pos rfl] at hget
        exact .inr (.inl ⟨name, intent, policy, rfl, h, hget, hrecord.trans (if_pos rfl)⟩)
      · rw [if_neg heq] at hget
        exact .inl ⟨hget, hrecord.trans (if_neg heq), fun r hr => absurd hr (by simp)⟩
  | on id' r =>
    cases h : e.get id' with
    | none =>
      rw [e.step_on_none h]
      refine .inl ⟨rfl, rfl, fun r' hr => ?_⟩
      rw [← (EngineCall.on.inj hr).1, h]
    | some w =>
      obtain ⟨ho, -, hget⟩ := e.step_on_some h r
      have hstep := w.apply_step none (r.operation e.episodeCounter w)
      have hstore := e.step_on_store h r
      rw [← ho] at hstep hstore
      set w' := (w.apply (r.operation e.episodeCounter w) none).workload
      have hid' : w'.id = id' := hstep.id_eq.trans (hid id' w h)
      have hrecord : (e.step (.on id' r)).2.record id =
          if (e.step (.on id' r)).1.outcome = .allow ∧ id' = id then some (encodeWorkload w')
          else e.record id := by
        by_cases hallow : (e.step (.on id' r)).1.outcome = .allow
        · rw [if_pos hallow] at hstore
          rw [record_of_save hstore hs, hid']
          simp only [hallow, true_and]
        · rw [if_neg hallow] at hstore
          rw [if_neg fun hc => hallow hc.1, record, record, hstore]
      by_cases heq : id' = id
      · subst heq
        simp only [and_true] at hrecord
        exact .inr (.inr ⟨r, w, w', rfl, h, (hget id').trans (if_pos rfl), hstep, hrecord⟩)
      · refine .inl ⟨(hget id).trans (if_neg heq), ?_, fun r' hr => ?_⟩
        · rw [hrecord, if_neg fun hc => heq hc.2]
        · exact absurd (EngineCall.on.inj hr).1 heq

/-- The record of a registered workload is the encoding of a sound workload with its id
and contract. -/
def Backed (e : WorkloadEngine (MemoryStateStore order)) (id : WorkloadId) : Prop :=
  ∀ w, e.get id = some w → ∃ v, e.record id = some (encodeWorkload v) ∧ v.Sound ∧ v.id = id ∧
    v.contract = w.contract

theorem sound_of_run {σ : Type} [StateStore σ] {store : Option σ} {calls : List EngineCall}
    {id : WorkloadId} {w : Workload} (h : ((ofStore store).run calls).get id = some w)
    (hw : w.Fits) : w.Sound := ⟨reachable_of_run h, authority_of_run h, hw⟩

/-- The store of an engine in a run, and the ids of its workloads. -/
theorem engine_of_run (s₀ : MemoryStateStore order) (calls : List EngineCall) :
    ((ofStore (some s₀)).run calls).store.isSome = true ∧
      ∀ id w, ((ofStore (some s₀)).run calls).get id = some w → w.id = id :=
  ⟨isSome_store_run _ calls, fun _ _ h => id_of_run h⟩

/-- A call keeps the record backed, if what it leaves fits. -/
theorem backed_step {s₀ : MemoryStateStore order} {calls : List EngineCall} {id : WorkloadId}
    (h : ((ofStore (some s₀)).run calls).Backed id) (c : EngineCall)
    (hfits : ∀ w, ((ofStore (some s₀)).run (calls ++ [c])).get id = some w → w.Fits) :
    ((ofStore (some s₀)).run (calls ++ [c])).Backed id := by
  obtain ⟨hs, hid⟩ := engine_of_run s₀ calls
  have hsound (w : Workload) (hw : ((ofStore (some s₀)).run (calls ++ [c])).get id = some w) :
      w.Sound := sound_of_run hw (hfits w hw)
  rw [run_append_singleton] at hsound ⊢
  intro w' hw'
  rcases step_record_cases _ hs hid id c with
    ⟨hget, hrecord, -⟩ | ⟨name, intent, policy, -, -, hget, hrecord⟩ |
      ⟨r, w, w₁, -, hw, hget, hstep, hrecord⟩
  · rw [hget] at hw'
    rw [hrecord]
    exact h w' hw'
  · obtain rfl := Option.some.inj (hget.symm.trans hw')
    exact ⟨_, hrecord, hsound _ hw', rfl, rfl⟩
  · obtain rfl := Option.some.inj (hget.symm.trans hw')
    rw [hrecord]
    split
    · exact ⟨w₁, rfl, hsound w₁ hw', hstep.id_eq.trans (hid id w hw), rfl⟩
    · next ho =>
      -- rejected: the record is the old one, and the contract as well
      obtain ⟨v, hv, hvs, hvid, hvc⟩ := h w hw
      exact ⟨v, hv, hvs, hvid, hvc.trans (hstep.contract_of_rejected ho).symm⟩

/-- **The record of a registered workload is backed after every run.** -/
theorem backed_of_run {s₀ : MemoryStateStore order} {calls : List EngineCall} {id : WorkloadId}
    (hfits : ∀ pre post w, calls = pre ++ post →
      ((ofStore (some s₀)).run pre).get id = some w → w.Fits) :
    ((ofStore (some s₀)).run calls).Backed id := by
  induction calls using List.reverseRecOn with
  | nil => exact fun w hw => absurd hw (by simp [ofStore, run, get])
  | append_singleton calls c ih =>
    have hbacked := ih fun pre post w heq =>
      hfits pre (post ++ [c]) w (by rw [heq, List.append_assoc])
    exact backed_step hbacked c fun w => hfits _ [] w (List.append_nil _).symm

/-! ### What is loaded -/

/-- `store.load(id)` -/
def storeLoad (e : WorkloadEngine (MemoryStateStore order)) (id : WorkloadId) : Option LoadResult :=
  e.store.bind (StateStore.load · id)

theorem storeLoad_of_record {e : WorkloadEngine (MemoryStateStore order)} {id : WorkloadId}
    {v : Workload} (h : e.record id = some (encodeWorkload v)) (hv : v.Sound) :
    (v.Loadable → e.storeLoad id = some { workload := some (order.carried v), outcome := .allow }) ∧
      (¬v.Loadable →
        e.storeLoad id = some { outcome := .rejectUnknown, error := text "corrupt record" }) := by
  obtain ⟨s, hs, hrecord⟩ := Option.bind_eq_some_iff.mp h
  rw [storeLoad, hs]
  exact ⟨fun hl => MemoryStateStore.load_of_allow hrecord ((hv.decode order).1 hl),
    fun hl => MemoryStateStore.load_of_reject hrecord ((hv.decode order).2 hl)⟩

/-- **A backed record loads if its id is valid and the contract can be stored.** -/
theorem Backed.storeLoad_allow_iff {e : WorkloadEngine (MemoryStateStore order)} {id : WorkloadId}
    (h : e.Backed id) {w : Workload} (hw : e.get id = some w) :
    (∃ r, e.storeLoad id = some r ∧ r.outcome = .allow) ↔
      id.valid = true ∧ w.contract.Storable := by
  obtain ⟨v, hrecord, hv, hid, hcontract⟩ := h w hw
  obtain ⟨hyes, hno⟩ := storeLoad_of_record hrecord hv
  have hiff : v.Loadable ↔ id.valid = true ∧ w.contract.Storable := by
    rw [hv.loadable_iff, hid, hcontract]
  rw [← hiff]
  by_cases hl : v.Loadable
  · exact iff_of_true ⟨_, hyes hl, rfl⟩ hl
  · refine iff_of_false ?_ hl
    rintro ⟨r, hr, ho⟩
    obtain rfl := Option.some.inj ((hno hl).symm.trans hr)
    exact absurd ho (by decide)

end WorkloadEngine

end WorkloadFabric
