/-
How many restart slots are taken.

`planRestart` takes its slot before it asks for the transition, so a restart that
passes its guards and is then refused an edge to RESTART_PENDING (`LosesSlot`) has
taken one all the same.  Nothing else takes one (`Step.slot_cases`).

* **`restart_slots_exact_iff`** — under a fixed policy the slots stay within the limit
  and the restart generation counts them; they are as many as the restarts granted,
  and no refused restart takes one, exactly when no event of the run loses a slot;
* **`refused_restart_takes_slot`** — one that is planned from READY does.
-/
import WorkloadFabric.RestartBudget

namespace WorkloadFabric

namespace Workload

/-- The restart passes its guards, and there is no edge for it. -/
def LosesSlot (w : Workload) : WorkloadOp → Prop
  | .planRestart g reason =>
    g = w.generation ∧ w.restartGranted reason ∧ ¬w.Admits .restartPending
  | _ => False

/-- The step takes a slot. -/
structure TakesSlot (w w' : Workload) : Prop where
  count : w'.restartCount = w.restartCount + 1
  generation : w'.restartGen = next w.restartGen

/-- The step takes no slot. -/
structure KeepsSlots (w w' : Workload) : Prop where
  count : w'.restartCount = w.restartCount
  generation : w'.restartGen = w.restartGen

/-- The operation plans a restart. -/
def PlansRestart (op : WorkloadOp) : Prop := ∃ g reason, op = .planRestart g reason

theorem keepsSlots_started (w : Workload) (id : ExecutionEpisodeId) (owner : OwnerId)
    (ownerGen : OwnerGeneration) (adv : Bool) : w.KeepsSlots (w.started id owner ownerGen adv) :=
  ⟨by simp [started, beginEpisode], by simp [started, beginEpisode]⟩

theorem keepsSlots_migrated (w : Workload) (worker : WorkerId) (boot : WorkerBootId) :
    w.KeepsSlots (w.migrated worker boot) :=
  ⟨by simp [migrated, handOver], by simp [migrated, handOver]⟩

/-- **When a step takes a slot**: when it grants a restart, and when it loses one. -/
theorem Step.slot_cases {w w' : Workload} {op : WorkloadOp} {o : Outcome} (h : Step w op o w') :
    (¬(PlansRestart op ∧ o = .allow) ∧ ¬w.LosesSlot op ∧ w.KeepsSlots w') ∨
    (PlansRestart op ∧ o = .allow ∧ ¬w.LosesSlot op ∧ w.TakesSlot w') ∨
    (o ≠ .allow ∧ w.LosesSlot op ∧ w.TakesSlot w') := by
  cases h with
  | @rejected op o ho hn =>
    refine .inl ⟨fun h => ho h.2, fun hl => hn ?_, rfl, rfl⟩
    cases op with
    | planRestart g reason => exact ⟨hl.1, hl.2.1⟩
    | _ => exact hl.elim
  | restart _ _ ha =>
    exact .inr (.inl ⟨⟨_, _, rfl⟩, rfl, fun hl => hl.2.2 ha, moved_restartCount ..,
      moved_restartGen ..⟩)
  | restartRefused hg hr hn ho => exact .inr (.inr ⟨ho, ⟨hg, hr, hn⟩, rfl, rfl⟩)
  | start =>
    exact .inl ⟨by simp [PlansRestart], not_false, keepsSlots_started ..⟩
  | commitMigration =>
    exact .inl ⟨by simp [PlansRestart], not_false, keepsSlots_migrated ..⟩
  | dispatch =>
    refine .inl ⟨by simp [PlansRestart], not_false, ?_⟩
    split
    · exact ⟨moved_restartCount .., moved_restartGen ..⟩
    · exact ⟨rfl, rfl⟩
  | lost =>
    refine .inl ⟨by simp [PlansRestart], not_false, ?_⟩
    split
    · exact ⟨moved_restartCount .., moved_restartGen ..⟩
    · exact ⟨rfl, rfl⟩
  | _ =>
    refine .inl ⟨by simp [PlansRestart], not_false, ?_⟩
    first
      | exact ⟨rfl, rfl⟩
      | exact ⟨moved_restartCount .., moved_restartGen ..⟩
      | constructor <;> simp only [moved_restartCount, moved_restartGen] <;> rfl

/-- A restart that loses its slot had passed its guards. -/
theorem granted_of_losesSlot {w : Workload} {op : WorkloadOp} (h : w.LosesSlot op) :
    ∃ reason, w.restartGranted reason := by
  cases op with
  | planRestart g reason => exact ⟨reason, h.2.1⟩
  | _ => exact h.elim

/-- The restart generation counts the slots, and does not wrap before they do. -/
theorem TakesSlot.counted {w w' : Workload} (h : w.TakesSlot w') {reason : Text}
    (hr : w.restartGranted reason) (hg : w.restartGen.toU64.toNat = w.restartCount.toNat) :
    w'.restartCount.toNat = w.restartCount.toNat + 1 ∧
      w'.restartGen.toU64.toNat = w'.restartCount.toNat := by
  obtain ⟨-, hsucc⟩ := count_succ_of_granted hr
  have hlt := w.restartCount.toNat_lt
  refine ⟨by rw [h.count, hsucc], ?_⟩
  rw [h.generation, h.count, hsucc, next_toU64, UInt64.toNat_add, UInt64.toNat_one, hg]
  omega

end Workload

namespace WorkloadEngine

variable {σ : Type}

/-! ### Runs -/

/-- Whether the event grants a restart of `id`. -/
def Event.grantsRestart (id : WorkloadId) (ev : Event σ) : Bool :=
  match ev.accepted id with
  | some (.planRestart _ _) => true
  | _ => false

/-- The restarts of `id` that were granted. -/
def restarts (id : WorkloadId) (evs : List (Event σ)) : ℕ := evs.countP (Event.grantsRestart id)

/-- The event takes a slot of `id` for a restart that it refuses. -/
def Event.LosesSlot (id : WorkloadId) (ev : Event σ) : Prop :=
  ∃ r w, ev.call = .on id r ∧ ev.before.get id = some w ∧
    w.LosesSlot (r.operation ev.before.episodeCounter w)

theorem restarts_append (id : WorkloadId) (evs : List (Event σ)) (ev : Event σ) :
    restarts id (evs ++ [ev]) =
      restarts id evs + if ev.grantsRestart id = true then 1 else 0 := by
  rw [restarts, List.countP_append, List.countP_singleton]
  rfl

/-- What the slots of a workload have to do with the restarts of its history. -/
structure Slots (id : WorkloadId) (evs : List (Event σ)) (w : Workload) : Prop where
  within : w.WithinLimit
  generation : w.restartGen.toU64.toNat = w.restartCount.toNat
  granted : restarts id evs ≤ w.restartCount.toNat
  exact_iff : w.restartCount.toNat = restarts id evs ↔ ∀ ev ∈ evs, ¬ev.LosesSlot id

theorem forall_mem_append_singleton {α : Type*} {p : α → Prop} {l : List α} {a : α} :
    (∀ b ∈ l ++ [a], p b) ↔ (∀ b ∈ l, p b) ∧ p a := by
  simp [or_imp, forall_and]

/-- An event that neither grants a restart nor loses a slot. -/
theorem Slots.keep {id : WorkloadId} {evs : List (Event σ)} {ev : Event σ} {w w' : Workload}
    (h : Slots id evs w) (hw : w'.WithinLimit) (hk : w.KeepsSlots w')
    (hg : ev.grantsRestart id = false) (hl : ¬ev.LosesSlot id) : Slots id (evs ++ [ev]) w' where
  within := hw
  generation := by
    rw [hk.generation, hk.count]
    exact h.generation
  granted := by
    rw [restarts_append, hg, hk.count]
    exact h.granted
  exact_iff := by
    rw [restarts_append, hg, hk.count, forall_mem_append_singleton, and_iff_left hl]
    exact h.exact_iff

/-- An event that takes a slot, for a restart granted or refused. -/
theorem Slots.take {id : WorkloadId} {evs : List (Event σ)} {ev : Event σ} {w w' : Workload}
    (h : Slots id evs w) (hw : w'.WithinLimit) {reason : Text} (hr : w.restartGranted reason)
    (ht : w.TakesSlot w') (hiff : ev.grantsRestart id = true ↔ ¬ev.LosesSlot id) :
    Slots id (evs ++ [ev]) w' := by
  obtain ⟨hcount, hgen⟩ := ht.counted hr h.generation
  have hle := h.granted
  refine ⟨hw, hgen, ?_, ?_⟩
  · rw [restarts_append, hcount]
    split <;> omega
  · rw [restarts_append, hcount, forall_mem_append_singleton, ← hiff, ← h.exact_iff]
    by_cases hg : ev.grantsRestart id = true
    · simp [hg]
    · -- one slot more than restarts, for good
      rw [if_neg hg]
      constructor
      · omega
      · exact fun h => absurd h.2 hg

/-- An event that does not find the workload neither grants a restart of it nor loses a
slot. -/
theorem Event.silent_of_unregistered {id : WorkloadId} {ev : Event σ}
    (h : ev.before.get id = none) (ha : ev.accepted id = none) :
    ev.grantsRestart id = false ∧ ¬ev.LosesSlot id := by
  refine ⟨by rw [Event.grantsRestart, ha], ?_⟩
  rintro ⟨r, w, -, hw, -⟩
  rw [h] at hw
  exact absurd hw (by simp)

theorem Slots.fresh {id : WorkloadId} {evs : List (Event σ)} (name intent : Text) (policy : Policy)
    (h : ∀ ev ∈ evs, ev.grantsRestart id = false ∧ ¬ev.LosesSlot id) :
    Slots id evs { Workload.create id name intent with policy := policy } := by
  have hr : restarts id evs = 0 := List.countP_eq_zero.mpr fun ev hev => by simp [(h ev hev).1]
  refine ⟨⟨?_, fun _ => rfl⟩, rfl, ?_, ?_⟩
  · exact UInt32.le_iff_toNat_le.mpr (Nat.zero_le _)
  · rw [hr]
    exact Nat.zero_le _
  · exact iff_of_true hr.symm fun ev hev => (h ev hev).2

variable [StateStore σ]

theorem losesSlot_observe {e : WorkloadEngine σ} {id : WorkloadId} {w : Workload}
    (h : e.get id = some w) (r : Request) : (e.observe (.on id r)).LosesSlot id ↔
      w.LosesSlot (r.operation e.episodeCounter w) := by
  constructor
  · rintro ⟨r', w', hr, hw, hl⟩
    obtain ⟨-, rfl⟩ := EngineCall.on.inj hr
    obtain rfl := Option.some.inj (h.symm.trans hw)
    exact hl
  · exact fun hl => ⟨r, w, rfl, h, hl⟩

theorem grantsRestart_observe (e : WorkloadEngine σ) (id : WorkloadId) (r : Request)
    (w : Workload) : (e.observe (.on id r)).grantsRestart id = true ↔
      Workload.PlansRestart (r.operation e.episodeCounter w) ∧
        (e.step (.on id r)).1.outcome = .allow := by
  rw [Event.grantsRestart]
  constructor
  · intro h
    split at h
    · rename_i reason g hacc
      obtain ⟨rfl, ho⟩ := accepted_observe.mp hacc
      exact ⟨⟨g, reason, rfl⟩, ho⟩
    · exact absurd h (by decide)
  · rintro ⟨⟨g, reason, hop⟩, ho⟩
    rw [accepted_observe.mpr ⟨rfl, ho⟩]
    cases r with
    | planRestart => rfl
    | _ => exact absurd hop (by simp [Request.operation])

/-- **The slots of a workload after a run that leaves its policy alone.** -/
theorem slots_of_run {store : Option σ} {calls : List EngineCall} {id : WorkloadId}
    {w : Workload} (h : ((ofStore store).run calls).get id = some w)
    (hpolicy : ∀ ev ∈ (ofStore store).events calls, ∀ p, ev.call ≠ .on id (.setPolicy p)) :
    Slots id ((ofStore store).events calls) w := by
  revert hpolicy
  refine workload_induction (P := fun calls w =>
    (∀ ev ∈ (ofStore store).events calls, ∀ p, ev.call ≠ .on id (.setPolicy p)) →
      Slots id ((ofStore store).events calls) w) ?_ ?_ ?_ calls h
  · intro calls name intent policy hnone _
    refine .fresh name intent policy fun ev hev => ?_
    rw [events_append_singleton] at hev
    rcases List.mem_append.mp hev with hev | hev
    · exact Event.silent_of_unregistered (before_of_unregistered hnone ev hev)
        (events_of_unregistered hnone ev hev)
    · rw [List.mem_singleton.mp hev]
      exact Event.silent_of_unregistered hnone rfl
  · intro calls c w _ hc hw hpolicy
    rw [events_append_singleton] at hpolicy ⊢
    have hw := hw fun ev hev => hpolicy ev (List.mem_append_left _ hev)
    have hon {r : Request} (hr : c = .on id r) : False := hc (by rw [hr]; rfl)
    refine hw.keep hw.within ⟨rfl, rfl⟩ ?_ ?_
    · rw [Event.grantsRestart, Option.eq_none_iff_forall_ne_some.mpr fun r hr =>
        hon (Event.accepted_eq_some.mp hr).1]
    · rintro ⟨r, _, hr, -⟩
      exact hon hr
  · intro calls r w hget hw hpolicy
    rw [events_append_singleton] at hpolicy ⊢
    have hw := hw fun ev hev => hpolicy ev (List.mem_append_left _ hev)
    set e := (ofStore store).run calls
    have hr : ∀ p, r ≠ .setPolicy p := by
      rintro p rfl
      exact hpolicy _ (List.mem_append_right _ (List.mem_singleton_self _)) p rfl
    have hs := w.apply_step none (r.operation e.episodeCounter w)
    rw [← (e.step_on_some hget r).1] at hs
    obtain ⟨hwithin, -⟩ := hw.within.step hs (operation_ne_setPolicy hr _ w)
    have hlost := losesSlot_observe hget r
    have hgrants := grantsRestart_observe e id r w
    rcases hs.slot_cases with ⟨hn, hl, hk⟩ | ⟨hp, ho, hl, ht⟩ | ⟨ho, hl, ht⟩
    · exact hw.keep hwithin hk (Bool.eq_false_iff.mpr fun h => hn (hgrants.mp h)) (mt hlost.mp hl)
    · obtain ⟨g, reason, hop⟩ := hp
      rw [hop, ho] at hs
      refine hw.take hwithin hs.granted.2 ht ?_
      exact iff_of_true (hgrants.mpr ⟨⟨g, reason, hop⟩, ho⟩) (mt hlost.mp hl)
    · obtain ⟨reason, hr⟩ := Workload.granted_of_losesSlot hl
      refine hw.take hwithin hr ht ?_
      exact iff_of_false (fun h => ho (hgrants.mp h).2) (not_not.mpr (hlost.mpr hl))

/-- The event refuses a restart of `id` without touching its slots. -/
def Event.RefusesCleanly (id : WorkloadId) (ev : Event σ) : Prop :=
  ∀ reason g w, ev.call = .on id (.planRestart reason g) → ev.before.get id = some w →
    ev.result.outcome ≠ .allow →
    ∃ w', (ev.before.step ev.call).2.get id = some w' ∧ w.KeepsSlots w'

/-- A restart is refused cleanly unless it loses its slot. -/
theorem refusesCleanly_of_not_loses {store : Option σ} {calls : List EngineCall}
    {id : WorkloadId} {ev : Event σ} (hev : ev ∈ (ofStore store).events calls)
    (hl : ¬ev.LosesSlot id) : ev.RefusesCleanly id := by
  intro reason g w hc hw ho
  obtain ⟨w', hw', hs⟩ := ev.before.step_on_step hw (.planRestart reason g)
  rw [← hc] at hw' hs
  refine ⟨w', hw', ?_⟩
  have hresult : ev.result = (ev.before.step ev.call).1 :=
    congrArg Event.result (eq_observe_of_mem hev)
  rw [hresult] at ho
  rcases hs.slot_cases with ⟨-, -, hk⟩ | ⟨-, hallow, -⟩ | ⟨-, hloses, -⟩
  · exact hk
  · exact absurd hallow ho
  · exact absurd ⟨_, w, hc, hw, hloses⟩ hl

/-- **Restart slots are counted exactly, unless one is lost.**  In every run that leaves
the policy alone the slots stay within its limit, there are none where it forbids
restarts, and the restart generation counts them.  They are as many as the restarts
granted, and every refused restart leaves them alone, exactly when no event takes a slot
for a restart that it refuses. -/
theorem restart_slots_exact_iff {store : Option σ} {calls : List EngineCall} {id : WorkloadId}
    {w : Workload} (h : ((ofStore store).run calls).get id = some w)
    (hpolicy : ∀ ev ∈ (ofStore store).events calls, ∀ p, ev.call ≠ .on id (.setPolicy p)) :
    (w.restartCount ≤ w.policy.restart.maxRestarts ∧
      (w.policy.restart.kind = .never ∨ w.policy.restart.kind = .manualOnly →
        w.restartCount = 0) ∧
      w.restartGen.toU64.toNat = w.restartCount.toNat) ∧
    ((w.restartCount.toNat = restarts id ((ofStore store).events calls) ∧
        ∀ ev ∈ (ofStore store).events calls, ev.RefusesCleanly id) ↔
      ∀ ev ∈ (ofStore store).events calls, ¬ev.LosesSlot id) := by
  have hslots := slots_of_run h hpolicy
  refine ⟨⟨hslots.within.limit, hslots.within.forbidden, hslots.generation⟩, ?_⟩
  constructor
  · exact fun hexact => hslots.exact_iff.mp hexact.1
  · exact fun hl => ⟨hslots.exact_iff.mpr hl, fun ev hev =>
      refusesCleanly_of_not_loses hev (hl ev hev)⟩

/-- The restart of a lost workload takes the one slot there is. -/
theorem restart_slots_exact_iff_planned :
    ∃ w, ((ofStore (none : Option (MemoryStateStore .leftToRight))).run loseAndPlan).get
        (.fromU64 1) = some w ∧ w.restartGen.toU64.toNat = w.restartCount.toNat ∧
      w.restartCount = 1 := by
  obtain ⟨w, h, hcount⟩ : ∃ w, ((ofStore (none : Option (MemoryStateStore .leftToRight))).run
      loseAndPlan).get (.fromU64 1) = some w ∧ w.restartCount = 1 := ⟨_, rfl, by decide⟩
  refine ⟨w, h, (restart_slots_exact_iff h ?_).1.2.2, hcount⟩
  simp [loseAndPlan, launchAndLose, launch, events, observe]

/-- A workload that waits in READY; its policy would grant two restarts. -/
def readyCalls : List EngineCall :=
  [.create (.fromU64 1) (text "w") (text "job")
      { restart := { kind := .alwaysWithLimit, maxRestarts := 2 } },
    .on (.fromU64 1) .validate, .on (.fromU64 1) (.applyGrant {}), .on (.fromU64 1) .settle]

/-- A restart planned from READY is refused, and takes a slot. -/
theorem refused_restart_takes_slot :
    ¬∀ (calls : List EngineCall) (id : WorkloadId) (w : Workload),
      ((ofStore (none : Option (MemoryStateStore .leftToRight))).run calls).get id = some w →
      (∀ ev ∈ (ofStore (none : Option (MemoryStateStore .leftToRight))).events calls,
        ∀ p, ev.call ≠ .on id (.setPolicy p)) →
      w.restartCount.toNat =
        restarts id ((ofStore (none : Option (MemoryStateStore .leftToRight))).events calls) := by
  intro h
  have hcount := h (readyCalls ++ [.on (.fromU64 1) (.planRestart (text "x") (.fromU64 1))])
    (.fromU64 1) _ rfl (by simp [readyCalls, events, observe])
  exact absurd hcount (by decide)

end WorkloadEngine

end WorkloadFabric
