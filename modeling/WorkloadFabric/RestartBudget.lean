/-
The restart budget, and the way around it.

Only `planRestart` takes a restart slot, and only while the policy grants one
(`Step.restart_cases`), so the slots taken never exceed the limit.  But a new
episode may also be started straight from RECOVERING, where no slot was taken.

* **`restart_budget`** — where every episode that replaces a lost one finds a slot
  taken since the lost one was started, the replacements stay within the limit;
* **`recovering_restart_is_free`** — without that, a workload that is never to be
  restarted is restarted.
-/
import WorkloadFabric.Authority

namespace WorkloadFabric

namespace Workload

/-- **How a step takes restart slots.** -/
theorem Step.restart_cases {w w' : Workload} {op : WorkloadOp} {o : Outcome}
    (h : Step w op o w') :
    w'.restartCount = w.restartCount ∨
      ∃ g reason, op = .planRestart g reason ∧ w.restartGranted reason ∧
        w'.restartCount = w.restartCount + 1 := by
  cases h with
  | restart _ hr => exact .inr ⟨_, _, rfl, hr, moved_restartCount ..⟩
  | restartRefused _ hr => exact .inr ⟨_, _, rfl, hr, rfl⟩
  | start => exact .inl (by simp [started, beginEpisode])
  | commitMigration => exact .inl (by simp [migrated, handOver])
  | dispatch =>
    left
    split
    · exact moved_restartCount ..
    · rfl
  | lost =>
    left
    split
    · exact moved_restartCount ..
    · rfl
  | _ =>
    left
    first
      | rfl
      | exact moved_restartCount ..
      | simp only [moved_restartCount]; rfl

/-- The kinds of restart policy that grant no restart at all. -/
def forbidsRestart (kind : RestartKind) : Prop := kind = .never ∨ kind = .manualOnly

/-- The slots taken are within the limit. -/
structure WithinLimit (w : Workload) : Prop where
  limit : w.restartCount ≤ w.policy.restart.maxRestarts
  forbidden : forbidsRestart w.policy.restart.kind → w.restartCount = 0

/-- A slot is granted below the limit, so counting it does not wrap. -/
theorem count_succ_of_granted {w : Workload} {reason : Text} (h : w.restartGranted reason) :
    w.restartCount.toNat < w.policy.restart.maxRestarts.toNat ∧
      (w.restartCount + 1).toNat = w.restartCount.toNat + 1 := by
  obtain ⟨-, -, hallowed⟩ := h
  have hlt : w.restartCount < w.policy.restart.maxRestarts := by
    simpa [restartAllowed] using hallowed
  have hnat := UInt32.lt_iff_toNat_lt.mp hlt
  have hmax := w.policy.restart.maxRestarts.toNat_lt
  refine ⟨hnat, ?_⟩
  rw [UInt32.toNat_add, UInt32.toNat_one]
  omega

theorem WithinLimit.step {w w' : Workload} {op : WorkloadOp} {o : Outcome} (h : WithinLimit w)
    (hs : Step w op o w') (hp : ∀ p, op ≠ .setPolicy p) :
    WithinLimit w' ∧ w.restartCount ≤ w'.restartCount := by
  have hpolicy := hs.policy hp
  rcases hs.restart_cases with hcount | ⟨g, reason, -, hr, hcount⟩
  · refine ⟨⟨?_, ?_⟩, hcount ▸ UInt32.le_refl _⟩
    · rw [hpolicy, hcount]
      exact h.limit
    · rw [hpolicy, hcount]
      exact h.forbidden
  · obtain ⟨hnat, hsucc⟩ := count_succ_of_granted hr
    have hclass := hr.2.1
    refine ⟨⟨?_, fun hk => ?_⟩, ?_⟩
    · rw [hpolicy, hcount, UInt32.le_iff_toNat_le, hsucc]
      exact hnat
    · rw [hpolicy] at hk
      rcases hk with hk | hk
      · rw [hk] at hclass
        exact Bool.noConfusion hclass
      · rw [hk] at hclass
        exact Bool.noConfusion hclass
    · rw [hcount, UInt32.le_iff_toNat_le, hsucc]
      omega

end Workload

namespace WorkloadEngine

variable {σ : Type}

/-! ### Replacements -/

/-- Whether the event brings a new incarnation of `id`. -/
def Event.incarnation (id : WorkloadId) (ev : Event σ) : Bool :=
  match ev.accepted id with
  | some (.startEpisode _ _) => true
  | some (.commitMigration _ _ _) => true
  | _ => false

/-- The restart slots that `id` had taken before the event. -/
def Event.slots (id : WorkloadId) (ev : Event σ) : ℕ :=
  ((ev.before.get id).map (·.restartCount.toNat)).getD 0

/-- Whether the authoritative episode of `id` was lost before the event. -/
def Event.findsLost (id : WorkloadId) (ev : Event σ) : Bool :=
  (ev.before.get id).any fun w => w.episodes.any fun e => e.authoritative && e.state == .lost

/-- Whether the event starts an episode in place of a lost one. -/
def Event.replaces (id : WorkloadId) (ev : Event σ) : Bool :=
  match ev.accepted id with
  | some (.startEpisode _ _) => ev.findsLost id
  | _ => false

def replacements (id : WorkloadId) (evs : List (Event σ)) : ℕ := evs.countP (Event.replaces id)

/-- The restart slots that had been taken when the current episode came to be. -/
def slotsAtStart (id : WorkloadId) (evs : List (Event σ)) : ℕ :=
  evs.foldl (fun n ev => if ev.incarnation id then ev.slots id else n) 0

/-- Every episode that replaces a lost one finds a slot taken since the lost one
was started. -/
def Budgeted (id : WorkloadId) (evs : List (Event σ)) : Prop :=
  ∀ pre ev post, evs = pre ++ ev :: post → ev.replaces id = true →
    slotsAtStart id pre < ev.slots id

theorem budgeted_append_singleton {id : WorkloadId} {evs : List (Event σ)} {ev : Event σ} :
    Budgeted id (evs ++ [ev]) ↔
      Budgeted id evs ∧ (ev.replaces id = true → slotsAtStart id evs < ev.slots id) := by
  constructor
  · intro h
    refine ⟨fun pre ev' post heq => ?_, h evs ev [] rfl⟩
    refine h pre ev' (post ++ [ev]) ?_
    rw [heq, List.append_assoc, List.cons_append]
  · intro ⟨h, hev⟩ pre ev' post heq
    rcases post.eq_nil_or_concat with rfl | ⟨post, last, rfl⟩
    · obtain ⟨rfl, hlast⟩ := List.append_inj' heq rfl
      obtain rfl := List.singleton_inj.mp hlast
      exact hev
    · rw [List.concat_eq_append, ← List.cons_append, ← List.append_assoc] at heq
      exact h pre ev' post (List.append_inj' heq rfl).1

theorem slotsAtStart_append (id : WorkloadId) (evs : List (Event σ)) (ev : Event σ) :
    slotsAtStart id (evs ++ [ev]) =
      if ev.incarnation id then ev.slots id else slotsAtStart id evs := by
  rw [slotsAtStart, List.foldl_append]
  rfl

theorem replacements_append (id : WorkloadId) (evs : List (Event σ)) (ev : Event σ) :
    replacements id (evs ++ [ev]) =
      replacements id evs + if ev.replaces id = true then 1 else 0 := by
  rw [replacements, List.countP_append, List.countP_singleton]
  rfl

/-- A replacement is an incarnation. -/
theorem Event.incarnation_of_replaces {id : WorkloadId} {ev : Event σ}
    (h : ev.replaces id = true) : ev.incarnation id = true := by
  rw [Event.replaces] at h
  split at h
  · rename_i hacc
    rw [Event.incarnation, hacc]
  · exact absurd h (by decide)

/-- The replacements are paid for by slots taken before the current episode. -/
structure Paid (id : WorkloadId) (evs : List (Event σ)) (w : Workload) : Prop where
  within : w.WithinLimit
  paid : replacements id evs ≤ slotsAtStart id evs
  taken : slotsAtStart id evs ≤ w.restartCount.toNat

theorem Paid.append {id : WorkloadId} {evs : List (Event σ)} {ev : Event σ} {w w' : Workload}
    (h : Paid id evs w) (hev : ev.replaces id = true → slotsAtStart id evs < ev.slots id)
    (hslots : ev.slots id = w.restartCount.toNat) (hw : w'.WithinLimit)
    (hle : w.restartCount ≤ w'.restartCount) : Paid id (evs ++ [ev]) w' := by
  have hle := UInt32.le_iff_toNat_le.mp hle
  have hpaid := h.paid
  have htaken := h.taken
  refine ⟨hw, ?_, ?_⟩
  · rw [replacements_append, slotsAtStart_append]
    by_cases hr : ev.replaces id = true
    · -- a replacement is one incarnation: the mark moves up past the slot it paid with
      rw [if_pos hr, if_pos (Event.incarnation_of_replaces hr)]
      exact hpaid.trans_lt (hev hr)
    · rw [if_neg hr]
      split <;> omega
  · rw [slotsAtStart_append]
    split <;> omega

/-- Where nothing is accepted, nothing is replaced. -/
theorem Paid.skip {id : WorkloadId} {evs : List (Event σ)} {ev : Event σ} {w : Workload}
    (h : Paid id evs w) (hev : ev.accepted id = none) : Paid id (evs ++ [ev]) w := by
  have hr : ev.replaces id = false := by rw [Event.replaces, hev]
  have hi : ev.incarnation id = false := by rw [Event.incarnation, hev]
  refine ⟨h.within, ?_, ?_⟩
  · rw [replacements_append, slotsAtStart_append, hr, hi]
    exact h.paid
  · rw [slotsAtStart_append, hi]
    exact h.taken

theorem Paid.fresh {id : WorkloadId} {evs : List (Event σ)} {w : Workload}
    (hw : w.restartCount = 0) (h : ∀ ev ∈ evs, ev.accepted id = none) : Paid id evs w := by
  induction evs using List.reverseRecOn with
  | nil =>
    refine ⟨⟨?_, fun _ => hw⟩, le_rfl, Nat.zero_le _⟩
    rw [hw, UInt32.le_iff_toNat_le]
    exact Nat.zero_le _
  | append_singleton evs ev ih =>
    exact (ih fun ev' h' => h ev' (List.mem_append_left _ h')).skip
      (h ev (List.mem_append_right _ (List.mem_singleton_self _)))

theorem Event.slots_eq {id : WorkloadId} {ev : Event σ} {w : Workload}
    (h : ev.before.get id = some w) : ev.slots id = w.restartCount.toNat := by
  rw [Event.slots, h]
  rfl

/-! ### Runs -/

/-- A request other than a policy change, as an operation. -/
theorem operation_ne_setPolicy {r : Request} (h : ∀ p, r ≠ .setPolicy p) (counter : UInt64)
    (w : Workload) (p : Policy) : r.operation counter w ≠ .setPolicy p := by
  cases r
  case setPolicy p' => exact absurd rfl (h p')
  all_goals exact nofun

variable [StateStore σ]

/-- **Budgeted replacements are paid for**, after every run that leaves the policy
alone. -/
theorem paid_of_run {store : Option σ} {calls : List EngineCall} {id : WorkloadId}
    {w : Workload} (h : ((ofStore store).run calls).get id = some w)
    (hpolicy : ∀ ev ∈ (ofStore store).events calls, ∀ p, ev.call ≠ .on id (.setPolicy p))
    (hbudget : Budgeted id ((ofStore store).events calls)) :
    Paid id ((ofStore store).events calls) w := by
  revert hpolicy hbudget
  refine history_induction (P := fun evs w =>
    (∀ ev ∈ evs, ∀ p, ev.call ≠ .on id (.setPolicy p)) → Budgeted id evs → Paid id evs w)
    ?_ ?_ ?_ calls h
  · exact fun evs _ _ _ hsilent _ _ => .fresh rfl hsilent
  · intro evs ev w hev hw hpolicy hbudget
    exact (hw (fun ev hev => hpolicy ev (List.mem_append_left _ hev))
      (budgeted_append_singleton.mp hbudget).1).skip hev
  · intro evs e r w w' hget hw hs hpolicy hbudget
    obtain ⟨hbudget, hpaid⟩ := budgeted_append_singleton.mp hbudget
    have hw := hw (fun ev hev => hpolicy ev (List.mem_append_left _ hev)) hbudget
    have hr : ∀ p, r ≠ .setPolicy p := by
      rintro p rfl
      exact hpolicy _ (List.mem_append_right _ (List.mem_singleton_self _)) p rfl
    obtain ⟨hwithin, hle⟩ := hw.within.step hs (operation_ne_setPolicy hr _ w)
    exact hw.append hpaid (Event.slots_eq hget) hwithin hle

/-- **The restart budget is not exceeded**, in a run that leaves the policy alone and
whose replacements each find a slot taken since the lost episode was started. -/
theorem restart_budget (store : Option σ) (calls : List EngineCall) (id : WorkloadId)
    (w : Workload) (h : ((ofStore store).run calls).get id = some w)
    (hpolicy : ∀ ev ∈ (ofStore store).events calls, ∀ p, ev.call ≠ .on id (.setPolicy p))
    (hbudget : Budgeted id ((ofStore store).events calls)) :
    replacements id ((ofStore store).events calls) ≤ w.policy.restart.maxRestarts.toNat ∧
      (w.policy.restart.kind = .never ∨ w.policy.restart.kind = .manualOnly →
        replacements id ((ofStore store).events calls) = 0) := by
  have hpaid := paid_of_run h hpolicy hbudget
  have hle := hpaid.paid.trans hpaid.taken
  refine ⟨hle.trans (UInt32.le_iff_toNat_le.mp hpaid.within.limit), fun hk => ?_⟩
  rw [hpaid.within.forbidden hk] at hle
  exact Nat.le_zero.mp hle

/-- A launched workload whose worker is lost. -/
def launchAndLose (policy : Policy) : List EngineCall :=
  launch (.fromU64 1) policy ++
    [.on (.fromU64 1) (.admitDispatch (.fromU64 1000) (.fromU64 1) (.fromU64 1)),
      .on (.fromU64 1) (.onWorkerLost (.fromU64 1) (.fromU64 1) (.fromU64 2))]

/-- A lost workload whose restart is planned. -/
def loseAndPlan : List EngineCall :=
  launchAndLose { restart := { kind := .alwaysWithLimit, maxRestarts := 1 } } ++
    [.on (.fromU64 1) (.planRestart (text "x") (.fromU64 2))]

/-- A planned restart is within its budget of one. -/
theorem restart_budget_planned :
    replacements (.fromU64 1) ((ofStore (none : Option (MemoryStateStore .leftToRight))).events
      (loseAndPlan ++ [.on (.fromU64 1) (.startEpisode {} {})])) ≤ 1 := by
  -- only the last call replaces an episode
  have hnone : ∀ ev ∈ (ofStore (none : Option (MemoryStateStore .leftToRight))).events loseAndPlan,
      ev.replaces (.fromU64 1) = false := by decide +kernel
  have hbudget : Budgeted (.fromU64 1)
      ((ofStore (none : Option (MemoryStateStore .leftToRight))).events
        (loseAndPlan ++ [.on (.fromU64 1) (.startEpisode {} {})])) := by
    rw [events_append_singleton, budgeted_append_singleton]
    refine ⟨fun pre ev post heq hr => ?_, by decide +kernel⟩
    have hfalse := hnone ev (by rw [heq]; simp)
    rw [hr] at hfalse
    exact absurd hfalse (by decide)
  have hpolicy : ∀ ev ∈ (ofStore (none : Option (MemoryStateStore .leftToRight))).events
      (loseAndPlan ++ [.on (.fromU64 1) (.startEpisode {} {})]),
      ∀ p, ev.call ≠ .on (.fromU64 1) (.setPolicy p) := by
    simp [loseAndPlan, launchAndLose, launch, events, observe]
  exact (restart_budget none _ (.fromU64 1) _ rfl hpolicy hbudget).1

/-- A workload that is never to be restarted goes on from RECOVERING. -/
theorem recovering_restart_is_free :
    ¬∀ (calls : List EngineCall) (id : WorkloadId) (w : Workload),
      ((ofStore (none : Option (MemoryStateStore .leftToRight))).run calls).get id = some w →
      (∀ ev ∈ (ofStore (none : Option (MemoryStateStore .leftToRight))).events calls,
        ∀ p, ev.call ≠ .on id (.setPolicy p)) →
      replacements id ((ofStore (none : Option (MemoryStateStore .leftToRight))).events calls) ≤
          w.policy.restart.maxRestarts.toNat ∧
        (w.policy.restart.kind = .never ∨ w.policy.restart.kind = .manualOnly →
          replacements id ((ofStore (none : Option (MemoryStateStore .leftToRight))).events calls)
            = 0) := by
  intro h
  have hcount := (h (launchAndLose {} ++ [.on (.fromU64 1) (.startEpisode {} {})]) (.fromU64 1) _
    rfl (by simp [launchAndLose, launch, events, observe])).2 (.inl rfl)
  exact absurd hcount (by decide)

end WorkloadEngine

end WorkloadFabric
