/-
What a crash between two calls can lose.

The engine saves what it accepts.  Whether the store has an up-to-date record of every
workload is then a question about the calls of the run:

* **`persisted_loads_iff`** — every registered workload can be loaded after every call
  exactly when every call leaves values that `decode` accepts (`WritesStorable`);
* **`durable_iff`** — where it can be loaded, it is loaded as it is, up to the audit
  fields, exactly when no request is rejected after it has written (`LosesWrite`).
-/
import WorkloadFabric.Atomicity
import WorkloadFabric.Records

namespace WorkloadFabric

/-! ### What can be stored -/

namespace ResourceContract

/-- A repeated requirement is refused, and a prohibited one is added without its bounds. -/
theorem storable_add_iff {c : ResourceContract} (h : c.Storable) (req : ResourceRequirement) :
    (c.add req).2.Storable ↔
      (∃ q ∈ c.reqs, q.kind = req.kind ∧ q.spec = req.spec) ∨ req.level = .prohibited ∨
        req.Storable := by
  simp only [add]
  set req' := if req.level = .prohibited then { req with minValue := {}, maxValue := {} }
    else req with hreq'
  have hkind : req'.kind = req.kind := by rw [hreq']; split <;> rfl
  have hspec : req'.spec = req.spec := by rw [hreq']; split <;> rfl
  have hstorable : req'.Storable ↔ req.level = .prohibited ∨ req.Storable := by
    rw [hreq']
    split
    · next hp =>
      have hzero : ({} : Double).isFinite = true ∧ ({} : Double).lt {} = false := by decide
      exact iff_of_true ⟨hzero.1, hzero.1, hzero.2⟩ (.inl hp)
    · next hp => exact (or_iff_right hp).symm
  rw [← hstorable]
  split
  · next hdup => exact iff_of_true h (.inl (by simpa [hkind, hspec] using hdup))
  · next hnew =>
    rw [or_iff_right (by simpa [hkind, hspec] using hnew)]
    constructor
    · exact fun hc => hc.1 req' (by simp)
    · refine fun hr => ⟨fun q hq => ?_, h.2⟩
      rcases List.mem_append.mp hq with hq | hq
      · exact h.1 q hq
      · exact List.mem_singleton.mp hq ▸ hr

theorem storable_applyGrant_iff {c : ResourceContract} (h : c.Storable) (g : ResourceGrant) :
    (c.applyGrant g).2.Storable ↔ ∀ b ∈ g.bindings, b.Storable :=
  and_iff_right h.1

end ResourceContract

/-- The values that the request writes pass the range checks of `decode`. -/
def Request.Storable : Request → Prop
  | .addResourceRequirement req => req.Storable
  | .applyGrant grant => ∀ b ∈ grant.bindings, b.Storable
  | _ => True

namespace Workload

/-- What the request leaves of the contract passes the range checks of `decode`. -/
def WritesStorable (w : Workload) : Request → Prop
  | .addResourceRequirement req =>
    (∃ q ∈ w.contract.reqs, q.kind = req.kind ∧ q.spec = req.spec) ∨ req.level = .prohibited ∨
      req.Storable
  | .applyGrant grant => ∀ b ∈ grant.bindings, b.Storable
  | _ => True

theorem writesStorable_of_storable (w : Workload) {r : Request} (h : r.Storable) :
    w.WritesStorable r := by
  cases r with
  | addResourceRequirement req => exact .inr (.inr h)
  | applyGrant grant => exact h
  | _ => exact trivial

theorem storable_step_iff {counter : UInt64} {r : Request} {w w' : Workload} {o : Outcome}
    (hs : w.Step (r.operation counter w) o w') (h : w.contract.Storable) :
    w'.contract.Storable ↔ w.WritesStorable r := by
  rw [show w'.contract = _ from congrArg Prod.snd hs.gates]
  cases r with
  | addResourceRequirement req => exact ResourceContract.storable_add_iff h req
  | applyGrant grant => exact ResourceContract.storable_applyGrant_iff h grant
  | _ => exact iff_of_true h trivial

end Workload

namespace WorkloadEngine

/-! ### Everything that is stored can be loaded -/

section Loads

variable {σ : Type} {e e' : WorkloadEngine σ}

theorem mem_list_iff {id : WorkloadId} : id ∈ e.list ↔ ∃ w, e.get id = some w := by
  rw [list, Std.TreeMap.mem_keys, Std.TreeMap.mem_iff_isSome_getElem?, Option.isSome_iff_exists]
  rfl

/-- The range checks of `decode` hold of everything that is registered. -/
def AllStorable (e : WorkloadEngine σ) : Prop :=
  ∀ id w, e.get id = some w → id.valid = true ∧ w.contract.Storable

/-- Only the workload that is registered or replaced has to be looked at. -/
theorem AllStorable.insert_iff (h : e.AllStorable) {id : WorkloadId} {w : Workload}
    (hget : ∀ id', e'.get id' = if id = id' then some w else e.get id') :
    e'.AllStorable ↔ id.valid = true ∧ w.contract.Storable := by
  constructor
  · exact fun he => he id w ((hget id).trans (if_pos rfl))
  · intro hw id' w' hw'
    rw [hget] at hw'
    split at hw'
    · next heq =>
      obtain rfl := Option.some.inj hw'
      exact heq ▸ hw
    · exact h id' w' hw'

variable [StateStore σ]

/-- A new workload gets a valid id, and a request on a registered one leaves values that
can be stored. -/
def WritesStorable (e : WorkloadEngine σ) : EngineCall → Prop
  | .create id _ _ _ => e.get id = none → id.valid = true
  | .on id r => ∀ w, e.get id = some w → w.WritesStorable r

/-- **The calls that keep everything storable.** -/
theorem AllStorable.step_iff (h : e.AllStorable) (c : EngineCall) :
    (e.step c).2.AllStorable ↔ e.WritesStorable c := by
  cases c with
  | create id name intent policy =>
    rw [WritesStorable]
    cases hid : e.get id with
    | some w =>
      rw [e.step_create_some hid]
      exact iff_of_true h fun hn => absurd hn (by simp)
    | none =>
      rw [h.insert_iff (e.step_create_none hid name intent policy).2.2]
      -- a fresh contract is empty
      exact ⟨fun hs _ => hs.1, fun hvalid => ⟨hvalid rfl, fun q hq => absurd hq List.not_mem_nil,
        fun b hb => absurd hb List.not_mem_nil⟩⟩
  | on id r =>
    rw [WritesStorable]
    cases hid : e.get id with
    | none =>
      rw [e.step_on_none hid]
      exact iff_of_true h fun w hw => absurd hw (by simp)
    | some w =>
      obtain ⟨hvalid, hstorable⟩ := h id w hid
      have hstep := w.apply_step none (r.operation e.episodeCounter w)
      rw [h.insert_iff (e.step_on_some hid r).2.2, and_iff_right hvalid,
        Workload.storable_step_iff hstep hstorable]
      simp

end Loads

variable {order : EvalOrder}

/-- **Everything stored can be loaded exactly as long as nothing unstorable is
written.** -/
theorem persisted_loads_iff (s₀ : MemoryStateStore order) (calls : List EngineCall)
    (hfits : ∀ id pre post w, calls = pre ++ post →
      ((ofStore (some s₀)).run pre).get id = some w → w.Fits) :
    (∀ pre post, calls = pre ++ post → ∀ id ∈ ((ofStore (some s₀)).run pre).list,
      ∃ r, ((ofStore (some s₀)).run pre).storeLoad id = some r ∧ r.outcome = .allow) ↔
      ∀ pre c post, calls = pre ++ c :: post → ((ofStore (some s₀)).run pre).WritesStorable c := by
  have hnone (id : WorkloadId) (w : Workload) : (ofStore (some s₀)).get id ≠ some w := by
    simp [ofStore, get]
  have hiff : (∀ pre post, calls = pre ++ post → ((ofStore (some s₀)).run pre).AllStorable) ↔
      Machine.Along (fun e c => (step e c).2) WritesStorable (ofStore (some s₀)) calls :=
    Machine.always_iff_along (K := fun _ _ => True) (I := fun _ => True) (P := AllStorable)
      (fun _ _ _ _ => trivial) (fun e c _ _ h => h.step_iff c) trivial
      (fun id w hw => absurd hw (hnone id w)) (Machine.along_of_forall fun _ _ _ => trivial)
  refine Iff.trans ?_ (hiff.trans Machine.along_iff)
  refine forall_congr' fun pre => forall_congr' fun post => forall_congr' fun heq => ?_
  have hbacked (id : WorkloadId) : ((ofStore (some s₀)).run pre).Backed id :=
    backed_of_run fun pre' post' w heq' => hfits id pre' (post' ++ post) w (by simp [heq, heq'])
  constructor
  · intro h id w hw
    exact ((hbacked id).storeLoad_allow_iff hw).mp (h id (mem_list_iff.mpr ⟨w, hw⟩))
  · intro h id hid
    obtain ⟨w, hw⟩ := mem_list_iff.mp hid
    exact ((hbacked id).storeLoad_allow_iff hw).mpr (h id w hw)

/-- The registration of one workload. -/
def createOne : List EngineCall := [.create (.fromU64 1) (text "w") (text "job") {}]

/-- Whatever is registered by it fits. -/
theorem fits_createOne (id : WorkloadId) (pre post : List EngineCall) (w : Workload)
    (heq : createOne = pre ++ post)
    (h : ((ofStore (some ({} : MemoryStateStore order))).run pre).get id = some w) : w.Fits := by
  have hnone : (ofStore (some ({} : MemoryStateStore order))).get id = none := rfl
  rcases pre with _ | ⟨c, pre⟩
  · exact absurd h (by rw [run, List.foldl_nil, hnone]; simp)
  · obtain ⟨rfl, hnil⟩ := List.cons.inj heq
    obtain ⟨rfl, -⟩ := List.append_eq_nil_iff.mp hnil.symm
    rcases step_get_none _ hnone (.create (.fromU64 1) (text "w") (text "job") {}) with
      hn | ⟨name, intent, policy, hc, hs⟩
    · exact absurd (hn.symm.trans h) (by simp)
    · obtain ⟨rfl, rfl, rfl, rfl⟩ := EngineCall.create.inj hc
      obtain rfl := Option.some.inj (hs.symm.trans h)
      exact ⟨⟨by decide, by decide, by decide, by decide, by decide, by decide⟩,
        by decide +kernel⟩

/-- A workload just registered can be loaded. -/
theorem persisted_loads_created :
    ∃ r, ((ofStore (some ({} : MemoryStateStore .rightToLeft))).run createOne).storeLoad
        (.fromU64 1) = some r ∧ r.outcome = .allow := by
  refine (persisted_loads_iff {} createOne fits_createOne).mpr (fun pre c post heq => ?_)
    createOne [] rfl (.fromU64 1) (by decide)
  obtain rfl : c = .create (.fromU64 1) (text "w") (text "job") {} :=
    List.mem_singleton.mp (by rw [← createOne, heq]; simp)
  exact fun _ => by decide

/-- A requirement of at least -1 is accepted and saved, but not loaded. -/
theorem negative_minimum_not_loaded :
    let e := (ofStore (some ({} : MemoryStateStore .leftToRight))).run
      [.create (.fromU64 1) (text "w") (text "job") {},
        .on (.fromU64 1) (.addResourceRequirement { minValue := ⟨0xbff0000000000000⟩ })]
    .fromU64 1 ∈ e.list ∧ (e.storeLoad (.fromU64 1)).map (·.outcome) = some .rejectUnknown := by
  decide +kernel

/-! ### What is loaded is up to date -/

end WorkloadEngine

namespace Workload

/-- The persisted fields other than the audit fields. -/
def persisted (w : Workload) : Workload := w.visible.eraseAudit

/-- The request writes a counter or a flag and is then rejected, so that nothing is
saved. -/
def LosesWrite (w : Workload) (r : Request) : Prop := w.LateRejected (r.operation 0 w)

theorem lateRejected_operation_iff (counter : UInt64) (w : Workload) (r : Request) :
    w.LateRejected (r.operation counter w) ↔ w.LosesWrite r := by
  cases r <;> exact Iff.rfl

/-- A rejected operation draws no migration id, so what it changes is persisted. -/
theorem Step.persisted_eq_iff {w w' : Workload} {op : WorkloadOp} {o : Outcome}
    (h : Step w op o w') (ho : o ≠ .allow) : w'.persisted = w.persisted ↔ ¬w.LateRejected op := by
  have hn : ¬w.Migrates op := by
    intro hm
    cases op with
    | commitMigration g worker boot =>
      cases h with
      | rejected _ hg => exact hg hm
      | commitMigration => exact ho rfl
    | _ => exact hm
  have hcounter := h.counter_eq hn
  rw [← h.eraseAudit_eq_iff ho]
  constructor
  · intro hp
    have hset (w : Workload) :
        w.persisted.setCounter w.episodeCounterForMigration = w.eraseAudit := rfl
    rw [← hset w', ← hset w, hp, hcounter]
  · exact fun he => congrArg (fun w : Workload => w.setCounter 0) he

/-- A record tells the persisted fields. -/
theorem Sound.persisted_eq {v v' : Workload} (hv : v.Sound) (hv' : v'.Sound) (hl : v.Loadable)
    (hl' : v'.Loadable) (h : encodeWorkload v = encodeWorkload v') :
    v.persisted = v'.persisted := by
  have hd := (hv.decode .leftToRight).1 hl
  rw [h, (hv'.decode .leftToRight).1 hl'] at hd
  have hcarried := congrArg persisted (Prod.mk.inj (Option.some.inj hd)).2
  exact hcarried.symm

end Workload

namespace WorkloadEngine

/-- The record of the workload differs from it in the audit fields at most. -/
def UpToDate (e : WorkloadEngine (MemoryStateStore .leftToRight)) (id : WorkloadId)
    (w : Workload) : Prop :=
  ∃ v, e.record id = some (encodeWorkload v) ∧ v.Sound ∧ v.Loadable ∧ v.persisted = w.persisted

variable {e : WorkloadEngine (MemoryStateStore .leftToRight)} {id : WorkloadId}

/-- Of a workload that can be loaded, an up-to-date record is loaded as the workload
is. -/
theorem Backed.upToDate_iff (h : e.Backed id) {w : Workload} (hw : e.get id = some w)
    (hid : id.valid = true) (hstorable : w.contract.Storable) :
    e.UpToDate id w ↔
      ∃ w', e.storeLoad id = some { workload := some w', outcome := .allow } ∧
        w'.persisted = w.persisted := by
  constructor
  · rintro ⟨v, hrecord, hv, hl, hp⟩
    exact ⟨_, (storeLoad_of_record hrecord hv).1 hl, hp⟩
  · rintro ⟨w', hload, hp⟩
    obtain ⟨v, hrecord, hv, hvid, hcontract⟩ := h w hw
    have hl : v.Loadable := hv.loadable_iff.mpr ⟨by rwa [hvid], by rwa [hcontract]⟩
    have hload' := (storeLoad_of_record hrecord hv).1 hl
    rw [hload] at hload'
    obtain rfl : w' = EvalOrder.leftToRight.carried v := by simpa using hload'
    exact ⟨v, hrecord, hv, hl, hp⟩

/-- **The requests that keep the record up to date are those that lose nothing.** -/
theorem upToDate_step_iff {s₀ : MemoryStateStore .leftToRight} {calls : List EngineCall}
    (c : EngineCall) (hid : id.valid = true)
    (hw : ∀ w, ((ofStore (some s₀)).run calls).get id = some w →
      ((ofStore (some s₀)).run calls).UpToDate id w)
    (hfits : ∀ w, ((ofStore (some s₀)).run (calls ++ [c])).get id = some w → w.Fits)
    (hstorable : ∀ w, ((ofStore (some s₀)).run (calls ++ [c])).get id = some w →
      w.contract.Storable) :
    (∀ w, ((ofStore (some s₀)).run (calls ++ [c])).get id = some w →
        ((ofStore (some s₀)).run (calls ++ [c])).UpToDate id w) ↔
      ∀ r w, c = .on id r → ((ofStore (some s₀)).run calls).get id = some w →
        ¬w.LosesWrite r := by
  obtain ⟨hs, hids⟩ := engine_of_run s₀ calls
  have hsaved (w : Workload) (hw : ((ofStore (some s₀)).run (calls ++ [c])).get id = some w) :
      w.Sound ∧ w.Loadable := by
    have hsound := sound_of_run hw (hfits w hw)
    exact ⟨hsound, hsound.loadable_iff.mpr ⟨by rwa [id_of_run hw], hstorable w hw⟩⟩
  rw [run_append_singleton] at hsaved ⊢
  rcases step_record_cases _ hs hids id c with
    ⟨hget, hrecord, hr⟩ | ⟨name, intent, policy, rfl, hnone, hget, hrecord⟩ |
      ⟨r, w, w', rfl, hget₀, hget, hstep, hrecord⟩
  · refine iff_of_true (fun w hw' => ?_) fun r w hc hw' => ?_
    · rw [hget] at hw'
      rw [UpToDate, hrecord]
      exact hw w hw'
    · rw [hr r hc] at hw'
      exact absurd hw' (by simp)
  · refine iff_of_true (fun w hw' => ?_) fun r w hc => absurd hc (by simp)
    obtain rfl := Option.some.inj (hget.symm.trans hw')
    exact ⟨_, hrecord, (hsaved _ hw').1, (hsaved _ hw').2, rfl⟩
  · obtain ⟨v, hv, hvs, hvl, hvp⟩ := hw w hget₀
    have hiff : ((ofStore (some s₀)).run calls |>.step (.on id r)).2.UpToDate id w' ↔
        ¬w.LosesWrite r := by
      rw [← Workload.lateRejected_operation_iff ((ofStore (some s₀)).run calls).episodeCounter w r,
        UpToDate, hrecord]
      split
      · next ho =>
        rw [ho] at hstep
        exact iff_of_true ⟨w', rfl, (hsaved w' hget).1, (hsaved w' hget).2, rfl⟩
          hstep.not_late_of_allow
      · next ho =>
        -- the record is the old one, which tells what it told before
        rw [← hstep.persisted_eq_iff ho]
        constructor
        · rintro ⟨v', hv', hvs', hvl', hvp'⟩
          have henc : encodeWorkload v = encodeWorkload v' :=
            Option.some.inj (hv.symm.trans hv')
          rw [← hvp', ← hvp, hvs.persisted_eq hvs' hvl hvl' henc]
        · exact fun hp => ⟨v, hv, hvs, hvl, hvp.trans hp.symm⟩
    constructor
    · intro h r' w₁ hc hw₁
      obtain ⟨-, rfl⟩ := EngineCall.on.inj hc
      obtain rfl := Option.some.inj (hget₀.symm.trans hw₁)
      exact hiff.mp (h w' hget)
    · intro h w₁ hw₁
      obtain rfl := Option.some.inj (hget.symm.trans hw₁)
      exact hiff.mpr (h r w rfl hget₀)

/-- Requests with storable values leave a storable contract. -/
theorem storable_of_run {σ : Type} [StateStore σ] {store : Option σ} {calls : List EngineCall}
    {w : Workload} (hvalues : ∀ r, EngineCall.on id r ∈ calls → r.Storable)
    (h : ((ofStore store).run calls).get id = some w) : w.contract.Storable := by
  refine workload_induction (P := fun calls w =>
    (∀ r, EngineCall.on id r ∈ calls → r.Storable) → w.contract.Storable) ?_ ?_ ?_ calls h hvalues
  · exact fun _ _ _ _ _ _ => ⟨fun q hq => absurd hq List.not_mem_nil,
      fun b hb => absurd hb List.not_mem_nil⟩
  · exact fun _ _ _ _ _ ih hv => ih fun r hr => hv r (List.mem_append_left _ hr)
  · intro calls r w _ ih hv
    have hstorable := ih fun r hr => hv r (List.mem_append_left _ hr)
    have hr : r.Storable := hv r (List.mem_append_right _ List.mem_cons_self)
    exact (Workload.storable_step_iff (w.apply_step none _) hstorable).mpr
      (w.writesStorable_of_storable hr)

/-- The record is up to date throughout a run exactly when no request loses a write. -/
theorem upToDate_iff_throughout {s₀ : MemoryStateStore .leftToRight} {calls : List EngineCall}
    (hid : id.valid = true)
    (hw : ∀ pre post w, calls = pre ++ post → ((ofStore (some s₀)).run pre).get id = some w →
      w.Fits ∧ w.contract.Storable) :
    (∀ pre post, calls = pre ++ post → ∀ w, ((ofStore (some s₀)).run pre).get id = some w →
      ((ofStore (some s₀)).run pre).UpToDate id w) ↔
      Throughout (some s₀) id (fun w r => ¬w.LosesWrite r) calls := by
  have hok : Machine.Along (fun e c => (step e c).2)
      (fun e c => ∀ w, (e.step c).2.get id = some w → w.Fits ∧ w.contract.Storable)
      (ofStore (some s₀)) calls := by
    refine Machine.along_iff.mpr fun pre c post heq w hget => hw (pre ++ [c]) post w ?_ ?_
    · rw [heq, List.append_assoc, List.singleton_append]
    · rw [run_append_singleton]
      exact hget
  have hstart : ∃ calls, ofStore (some s₀) = (ofStore (some s₀)).run calls := ⟨[], rfl⟩
  have hnone (w : Workload) : (ofStore (some s₀)).get id ≠ some w := by simp [ofStore, get]
  rw [throughout_iff_along]
  refine Machine.always_iff_along (I := fun e => ∃ calls, e = (ofStore (some s₀)).run calls)
    (P := fun e => ∀ w, e.get id = some w → e.UpToDate id w) ?_ ?_ hstart
    (fun w hget => absurd hget (hnone w)) hok
  · rintro _ c - ⟨calls, rfl⟩
    exact ⟨calls ++ [c], (run_append_singleton _ calls c).symm⟩
  · rintro _ c hc ⟨calls, rfl⟩ hP
    rw [← run_append_singleton] at hc ⊢
    exact upToDate_step_iff c hid hP (fun w hget => (hc w hget).1) fun w hget => (hc w hget).2

/-- **A crash loses nothing exactly as long as no request loses a write.**  The values
are finite and not negative, and the lists fit their count fields. -/
theorem durable_iff (s₀ : MemoryStateStore .leftToRight) (calls : List EngineCall)
    (id : WorkloadId) (hid : id.valid = true)
    (hvalues : ∀ r, EngineCall.on id r ∈ calls → r.Storable)
    (hfits : ∀ pre post w, calls = pre ++ post →
      ((ofStore (some s₀)).run pre).get id = some w → w.Fits) :
    (∀ pre post, calls = pre ++ post → ∀ w, ((ofStore (some s₀)).run pre).get id = some w →
      ∃ w', ((ofStore (some s₀)).run pre).storeLoad id =
          some { workload := some w', outcome := .allow } ∧
        w'.persisted = w.persisted) ↔
      Throughout (some s₀) id (fun w r => ¬w.LosesWrite r) calls := by
  have hstorable (pre post : List EngineCall) (w : Workload) (heq : calls = pre ++ post)
      (hw : ((ofStore (some s₀)).run pre).get id = some w) : w.contract.Storable :=
    storable_of_run (fun r hr => hvalues r (heq ▸ List.mem_append_left _ hr)) hw
  rw [← upToDate_iff_throughout hid fun pre post w heq hw =>
    ⟨hfits pre post w heq hw, hstorable pre post w heq hw⟩]
  refine forall_congr' fun pre => forall_congr' fun post => forall_congr' fun heq => ?_
  refine forall_congr' fun w => forall_congr' fun hw => ?_
  have hbacked : ((ofStore (some s₀)).run pre).Backed id :=
    backed_of_run fun pre' post' w heq' => hfits pre' (post' ++ post) w (by simp [heq, heq'])
  exact (hbacked.upToDate_iff hw hid (hstorable pre post w heq hw)).symm

/-- A workload is given a requirement and a grant, and a cancellation comes with a generation that
it never had. -/
def provisionOne : List EngineCall :=
  createOne ++
    [.on (.fromU64 1) (.addResourceRequirement
        { kind := .acceleratorCount, minValue := ⟨0x3ff0000000000000⟩ }),
      .on (.fromU64 1) .validate,
      .on (.fromU64 1) (.applyGrant
        { contractGeneration := .fromU64 1, status := .granted
          bindings := [{ kind := .acceleratorCount, amount := ⟨0x4000000000000000⟩ }] }),
      .on (.fromU64 1) (.cancel (.fromU64 9))]

/-- Its values are storable, and only a workload of generation 9 could lose a write by it. -/
theorem mem_provisionOne {r : Request} (h : EngineCall.on (.fromU64 1) r ∈ provisionOne) :
    r.Storable ∧ ∀ w : Workload, w.LosesWrite r → w.generation = .fromU64 9 := by
  simp only [provisionOne, createOne, List.mem_append, List.mem_cons, List.not_mem_nil,
    or_false, reduceCtorEq, false_or, EngineCall.on.injEq, true_and] at h
  rcases h with rfl | rfl | rfl | rfl
  · exact ⟨⟨by decide, by decide, by decide⟩, fun w hlost => hlost.elim⟩
  · exact ⟨trivial, fun w hlost => hlost.elim⟩
  · exact ⟨List.forall_mem_singleton.mpr ⟨by decide, by decide⟩, fun w hlost => hlost.elim⟩
  · exact ⟨trivial, fun w hlost => hlost.1.1.symm⟩

/-- It is loaded as it is, the grant included. -/
theorem durable_provisioned : ∃ w w',
    ((ofStore (some ({} : MemoryStateStore .leftToRight))).run provisionOne).get (.fromU64 1) =
        some w ∧ w.contract.grant.bindings.length = 1 ∧
      ((ofStore (some ({} : MemoryStateStore .leftToRight))).run provisionOne).storeLoad
        (.fromU64 1) = some { workload := some w', outcome := .allow } ∧
      w'.persisted = w.persisted := by
  have hall : ∀ pre ∈ provisionOne.inits,
      ∀ w ∈ ((ofStore (some ({} : MemoryStateStore .leftToRight))).run pre).get (.fromU64 1),
        w.Fits ∧ w.generation = .fromU64 1 := by decide +kernel
  have hrun (pre post : List EngineCall) (w : Workload) (heq : provisionOne = pre ++ post)
      (hw : ((ofStore (some ({} : MemoryStateStore .leftToRight))).run pre).get (.fromU64 1) =
        some w) : w.Fits ∧ w.generation = .fromU64 1 :=
    hall pre ((List.mem_inits _ _).mpr ⟨post, heq.symm⟩) w hw
  obtain ⟨w, hw, hbindings⟩ : ∃ w, ((ofStore (some ({} : MemoryStateStore .leftToRight))).run
      provisionOne).get (.fromU64 1) = some w ∧ w.contract.grant.bindings.length = 1 :=
    ⟨_, rfl, rfl⟩
  -- the cancellation is refused before anything is written
  have hkept : Throughout (some ({} : MemoryStateStore .leftToRight)) (.fromU64 1)
      (fun w r => ¬w.LosesWrite r) provisionOne := by
    intro pre r post w heq hget hlost
    have hgeneration := (mem_provisionOne (r := r) (by simp [heq])).2 w hlost
    exact absurd ((hrun pre _ w heq hget).2.symm.trans hgeneration) (by decide)
  obtain ⟨w', hload, hsame⟩ := (durable_iff {} provisionOne (.fromU64 1) (by decide)
    (fun r hr => (mem_provisionOne hr).1) fun pre post w heq hget =>
      (hrun pre post w heq hget).1).mpr hkept provisionOne [] (List.append_nil _).symm w hw
  exact ⟨w, w', hw, hbindings, hload, hsame⟩

/-- A restart planned before anything ran takes a slot, which the store never hears of. -/
theorem rejected_restart_not_saved :
    let e := (ofStore (some ({} : MemoryStateStore .leftToRight))).run
      [.create (.fromU64 1) (text "w") (text "job")
          { restart := { kind := .alwaysWithLimit, maxRestarts := 2 } },
        .on (.fromU64 1) (.planRestart (text "x") (.fromU64 1))]
    (e.get (.fromU64 1)).map (·.restartCount) = some 1 ∧
      (e.storeLoad (.fromU64 1)).map (fun r => (r.outcome, r.workload.map (·.restartCount))) =
        some (.allow, some 0) := by
  decide +kernel

end WorkloadEngine

end WorkloadFabric
